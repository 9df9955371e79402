import LittleComputer.Proofs.Halting
import LittleComputer.Proofs.Interruption
import LittleComputer.Proofs.LimitedRun
import LittleComputer.Proofs.Reporting

/-!
# What an exit status says

The exit status is read off the point at which a run has ended, and that is a boundary between
two instructions: the machine has halted there, with a fault or without one; or it was asked to
stop; or the next step fails, for one of three reasons. `LittleComputer.Processor.verdict?` is
this reading, and `LittleComputer.CommandLine.conclude_run` says that a run leads to it.

What has happened before the boundary is a matter of the last instruction alone. Only the halt
service and words that are no instruction stop the machine
(`LittleComputer.Processor.halted_next_iff`), only the latter leave a fault
(`LittleComputer.Processor.fault_next_iff`), and a stop that was not asked for before has its
reason in this instruction. So each exit status tells how the program ended
(`LittleComputer.Processor.Warrants`), and it tells it exactly
(`LittleComputer.Processor.verdict?_eq_some_iff`).

The main statement is `LittleComputer.CommandLine.status_tells_ending`.
-/

namespace LittleComputer

namespace Processor

open CommandLine (ExitStatus explain)

variable {b : Processor ScriptedTerminal} {c : Cycle}

/-! ### Verdicts -/

/-- The exit status of a run that has come to this boundary, if it ends here or in the next
step. -/
def verdict? (b : Processor ScriptedTerminal) : Option ExitStatus :=
  if b.machine.halted then some (if b.fault.isSome then .illegalInstruction else .ok)
  else if b.machine.console.stop then some .interrupted
  else
    match (step.run b).1 with
    | .ok _ => none
    | .error f => (explain f).map Prod.fst

theorem verdict?_of_halted (h : b.machine.halted = true) :
    b.verdict? = some (if b.fault.isSome then .illegalInstruction else .ok) := by
  rw [verdict?, if_pos h]

theorem verdict?_of_stop (h : b.machine.halted = false) (hs : b.machine.console.stop = true) :
    b.verdict? = some .interrupted := by
  simp [verdict?, h, hs]

theorem verdict?_of_ok (h : b.machine.halted = false) (hs : b.machine.console.stop = false)
    (hc : (step.run b).1 = .ok c) : b.verdict? = none := by
  simp [verdict?, h, hs, hc]

theorem verdict?_of_error (h : b.machine.halted = false) (hs : b.machine.console.stop = false)
    {f : Failure} (hf : (step.run b).1 = .error f) : b.verdict? = (explain f).map Prod.fst := by
  simp [verdict?, h, hs, hf]

/-- The last of the first `k` instructions of a run is completed, and its word is as `P` says. -/
def LastIs {T : Type} [Terminal T] (g : Processor T) (k : Nat) (P : Word → Prop) : Prop :=
  ∃ j c, k = j + 1 ∧ (step.run (next^[j] g)).1 = .ok c ∧ P c.instruction

/-- **What each exit status says** of a run that has ended when `k` instructions were completed.

* 0: the last instruction was a call of the halt service;
* 3: the last instruction was a word that is none;
* 4: no stop is asked for, and the next step asks for a key of which none is left, without
  being interrupted at that;
* 5: `k` is the limit, the machine is running, and no stop is asked for;
* 130: the interrupt has arrived at a read, or it has arrived at another call, in an instruction
  that was completed and did not halt the machine.

The statuses of the command line and of loading do not belong to a run. -/
def Warrants (g : Processor ScriptedTerminal) (k : Nat) : ExitStatus → Prop
  | .ok => g.LastIs k fun w => Instruction.decode w = .trap .halt
  | .illegalInstruction => g.LastIs k IsFatal
  | .hostIO => (next^[k] g).machine.console.stop = false ∧ (next^[k] g).OutOfKeys ∧
      ¬(next^[k] g).Arrives .read
  | .cycleLimit => g.limit = some (k : Int) ∧ (next^[k] g).machine.halted = false ∧
      (next^[k] g).machine.console.stop = false
  | .interrupted => (∃ j ≤ k, (next^[j] g).Arrives .read) ∨
      ∃ j < k, (∃ call, call ≠ .read ∧ (next^[j] g).Arrives call) ∧
        (next^[j + 1] g).machine.halted = false
  | .loadError | .usage => False

/-- A guarded processor at the beginning of a run: nothing has happened, and the limit, if there
is one, is positive. -/
structure IsFresh (g : Processor ScriptedTerminal) : Prop where
  heard : g.machine.console.Heard (g.machine.console.alarm.map Alarm.on)
  unasked : g.machine.console.stop = false
  running : g.machine.halted = false
  uncounted : g.machine.cycles = 0
  faultless : g.fault = none
  limit : ∀ n, g.limit = some n → 1 ≤ n

section Boundary

/-! A run has come to the boundary after its `k`-th instruction. -/

variable {g : Processor ScriptedTerminal} (hg : g.IsFresh) {k : Nat} (hk : g.Completes k)
  (hstops : ∀ j < k, (next^[j] g).machine.console.stop = false)

include hg hk

theorem IsFresh.heard_iterate :
    (next^[k] g).machine.console.Heard (g.machine.console.alarm.map Alarm.on) :=
  Processor.heard_iterate hg.heard hk

omit hk in
/-- **What the last instruction leaves**: whether the machine has halted, and whether there is a
fault. -/
theorem last_of_completes {j : Nat} (hk : g.Completes (j + 1)) :
    ∃ c, (step.run (next^[j] g)).1 = .ok c ∧
      ((next^[j + 1] g).machine.halted = true ↔
        Instruction.decode c.instruction = .trap .halt ∨ IsFatal c.instruction) ∧
      ((next^[j + 1] g).fault.isSome = true ↔ IsFatal c.instruction) := by
  obtain ⟨hj, c, hc⟩ := completes_succ.mp hk
  obtain ⟨a, w, m, hr, -⟩ := step_ok hc
  rw [Function.iterate_succ_apply']
  exact ⟨c, hc, halted_next_iff hc, fault_next_iff hc (fault_of_running hg.faultless hj hr)⟩

/-- After an instruction that stops the machine the verdict is by the fault. -/
theorem verdict?_of_lastIs {P : Word → Prop} (h : g.LastIs k P)
    (hP : ∀ w, P w → Instruction.decode w = .trap .halt ∨ IsFatal w) :
    ∃ w, P w ∧ ((next^[k] g).fault.isSome = true ↔ IsFatal w) ∧ (next^[k] g).verdict? =
      some (if (next^[k] g).fault.isSome then .illegalInstruction else .ok) := by
  obtain ⟨j, c, rfl, hc, hw⟩ := h
  obtain ⟨c', hc', hhalted, hfault⟩ := last_of_completes hg hk
  cases hc.symm.trans hc'
  exact ⟨c.instruction, hw, hfault, verdict?_of_halted (hhalted.mpr (hP _ hw))⟩

/-- The interrupt has not arrived at a read in an instruction that was completed. -/
theorem not_arrives_of_completes {j : Nat} (hj : j < k) : ¬(next^[j] g).Arrives .read := by
  intro harrives
  obtain ⟨c, hc⟩ := hk j hj
  have hf := (waitAbandoned_iff (hg.heard_iterate (hk.mono (Nat.le_of_lt hj)))).mpr harrives
  cases hc.symm.trans hf

theorem cycles_of_isFresh : (next^[k] g).machine.cycles = k := by
  rw [hk.cycles, hg.uncounted, Nat.zero_add]

/-- The limit is reached at the boundary exactly if it is the number of instructions. -/
theorem reachedLimit_iff {n : Int} :
    (next^[k] g).reachedLimit = some n ↔ g.limit = some n ∧ n = k := by
  rw [reachedLimit_eq_some_iff, limit_iterate, cycles_of_isFresh hg hk]
  refine and_congr_right fun hn => ?_
  have hle := hk.le_limit hn
  have hpos := hg.limit n hn
  rw [hg.uncounted] at hle
  omega

include hstops

/-- **An exit status is warranted only if it is the verdict.** -/
theorem Warrants.verdict? {s : ExitStatus} (h : g.Warrants k s) :
    (next^[k] g).verdict? = some s := by
  have hheard := hg.heard_iterate hk
  cases s with
  | ok =>
    obtain ⟨w, hw, hfault, hv⟩ := verdict?_of_lastIs hg hk
      (P := fun w => Instruction.decode w = .trap .halt) h fun _ => Or.inl
    have hfatal : ¬IsFatal w := fun hf => by cases hw.symm.trans (decode_of_isFatal hf)
    rw [hv, if_neg fun hf => hfatal (hfault.mp hf)]
  | illegalInstruction =>
    obtain ⟨w, hw, hfault, hv⟩ := verdict?_of_lastIs hg hk (P := IsFatal) h fun _ => Or.inr
    rw [hv, if_pos (hfault.mpr hw)]
  | hostIO =>
    obtain ⟨hstop, hkeys, hread⟩ := h
    obtain ⟨a, w, hfetches, -⟩ := hkeys.asks
    rw [verdict?_of_error hfetches.running hstop ((inputExhausted_iff hheard).mpr ⟨hkeys, hread⟩)]
    rfl
  | cycleLimit =>
    obtain ⟨hlimit, hr, hstop⟩ := h
    have hreached := (reachedLimit_iff hg hk).mpr ⟨hlimit, rfl⟩
    rw [verdict?_of_error hr hstop ((cycleLimit_iff hheard).mpr ⟨hr, hreached⟩)]
    rfl
  | interrupted =>
    rcases h with ⟨j, hj, harrives⟩ | ⟨j, hj, hcall, hr⟩
    · obtain rfl : j = k := by
        by_contra hne
        exact not_arrives_of_completes hg hk (Nat.lt_of_le_of_ne hj hne) harrives
      have hf := (waitAbandoned_iff hheard).mpr harrives
      have hr : (next^[j] g).machine.halted = false := by
        refine Bool.eq_false_iff.mpr fun hh => ?_
        rw [run_step_of_halted hh] at hf
        cases hf
      have hstop : (next^[j] g).machine.console.stop = false := by
        obtain ⟨⟨n, ha⟩, -⟩ := harrives
        obtain ⟨-, hs⟩ | ⟨_, -, -, hnone, -⟩ := hheard.request
        · exact hs
        · cases hnone.symm.trans ha
      rw [verdict?_of_error hr hstop hf]
      rfl
    · have hstop : (next^[j + 1] g).machine.console.stop = true := by
        rw [Function.iterate_succ_apply']
        exact (stop_next_iff (hg.heard_iterate (hk.mono (Nat.le_of_lt hj))) (hstops j hj)
          (not_arrives_of_completes hg hk hj)).mpr hcall
      -- The run has come past every boundary before this one, so the stop was asked for here.
      obtain rfl : j + 1 = k := by
        by_contra hne
        cases hstop.symm.trans (hstops (j + 1) (Nat.lt_of_le_of_ne hj hne))
      exact verdict?_of_stop hr hstop
  | loadError => cases h
  | usage => cases h

/-- **The verdict is the one exit status that is warranted.** -/
theorem verdict?_eq_some_iff {s : ExitStatus} :
    (next^[k] g).verdict? = some s ↔ g.Warrants k s := by
  refine ⟨fun hv => ?_, Warrants.verdict? hg hk hstops⟩
  have hheard := hg.heard_iterate hk
  cases hh : (next^[k] g).machine.halted with
  | true =>
    cases k with
    | zero => cases hg.running.symm.trans hh
    | succ j =>
      obtain ⟨c, hc, hhalted, hfault⟩ := last_of_completes hg hk
      rw [verdict?_of_halted hh] at hv
      by_cases hf : (next^[j + 1] g).fault.isSome = true
      · rw [if_pos hf] at hv
        cases hv
        exact ⟨j, c, rfl, hc, hfault.mp hf⟩
      · rw [if_neg hf] at hv
        cases hv
        exact ⟨j, c, rfl, hc, (hhalted.mp hh).resolve_right fun hw => hf (hfault.mpr hw)⟩
  | false =>
    cases hs : (next^[k] g).machine.console.stop with
    | true =>
      rw [verdict?_of_stop hh hs] at hv
      cases hv
      cases k with
      | zero => cases hg.unasked.symm.trans hs
      | succ j =>
        have hj : j < j + 1 := Nat.lt_succ_self j
        have hs' := hs
        rw [Function.iterate_succ_apply'] at hs'
        have hcall := (stop_next_iff (hg.heard_iterate (hk.mono (Nat.le_succ j))) (hstops j hj)
          (not_arrives_of_completes hg hk hj)).mp hs'
        exact Or.inr ⟨j, hj, hcall, hh⟩
    | false =>
      rcases step_outcome hheard hh with ⟨c, hc⟩ | ⟨n, hf⟩ | hf | hf
      · rw [verdict?_of_ok hh hs hc] at hv
        cases hv
      · obtain ⟨-, hn⟩ := (cycleLimit_iff hheard).mp hf
        obtain ⟨hlimit, rfl⟩ := (reachedLimit_iff hg hk).mp hn
        rw [verdict?_of_error hh hs hf] at hv
        cases hv
        exact ⟨hlimit, hh, hs⟩
      · rw [verdict?_of_error hh hs hf] at hv
        cases hv
        exact ⟨hs, (inputExhausted_iff hheard).mp hf⟩
      · rw [verdict?_of_error hh hs hf] at hv
        cases hv
        exact Or.inl ⟨k, Nat.le_refl k, (waitAbandoned_iff hheard).mp hf⟩

end Boundary

end Processor

/-! ### From a run to a reply -/

namespace CommandLine

open Processor

/-- **A run leads to the verdict of the boundary that it has come to**, or it is not over, and
then its allowance is used up. -/
theorem conclude_run {g : Processor ScriptedTerminal} (hg : g.IsFresh) (allowance : Nat) :
    (g.Completes allowance ∧ ((run allowance).run g).1 = .ok none) ∨
    ∃ (k : Nat) (result : Except Failure (List TraceEntry)) (q : Processor ScriptedTerminal)
        (status : ExitStatus),
      g.Completes k ∧ (∀ j < k, (next^[j] g).machine.console.stop = false) ∧
      (run allowance).run g = (result.map some, q) ∧ q.machine.cycles = k ∧
      (next^[k] g).verdict? = some status ∧
      ∀ r (p : Processor ScriptedTerminal), ∃ report,
        conclude r (result.map fun _ => ()) p = .finished status report p := by
  obtain ⟨k, hk, hstops, hend⟩ := run_cases g allowance
  have hcycles := cycles_of_isFresh hg hk
  rcases hend with hb | ⟨f, hb, hs, hrun⟩
  · rcases boundary_cases (next^[k] g) with ⟨hh, hb'⟩ | ⟨hr, hs, hb'⟩ | ⟨-, -, hb'⟩ <;>
      rw [hb'] at hb
    · refine Or.inr ⟨k, _, _, _, hk, hstops, hb, hcycles, verdict?_of_halted hh, fun r p => ?_⟩
      rw [ending]
      cases (next^[k] g).fault <;> exact ⟨_, rfl⟩
    · exact Or.inr ⟨k, .error _, _, _, hk, hstops, hb, hcycles, verdict?_of_stop hr hs,
        fun r p => ⟨_, rfl⟩⟩
    · exact Or.inl ⟨completes_of_run_none hb, congrArg Prod.fst hb⟩
  · obtain ⟨hr, hstop⟩ := running_of_boundary hb
    have hf : (step.run (next^[k] g)).1 = .error f := congrArg Prod.fst hs
    have hcycles' := (cycles_of_step_error hs).trans hcycles
    have hverdict := verdict?_of_error hr hstop hf
    rcases step_outcome (hg.heard_iterate hk) hr with ⟨c, hc⟩ | ⟨n, hf'⟩ | hf' | hf'
    · cases hf.symm.trans hc
    all_goals
      cases hf.symm.trans hf'
      exact Or.inr ⟨k, .error _, _, _, hk, hstops, hrun, hcycles', hverdict, fun r p => ⟨_, rfl⟩⟩

end CommandLine

/-! ### From a command line to a reply -/

theorem History.depth?_of_le {n : Int} (h : 1 ≤ n) (hle : n ≤ greatestDepth) :
    depth? n = .ok n.toNat := by
  rw [depth?, if_neg (by omega), if_neg (by omega)]

theorem History.depth?_of_lt {n : Int} (h : greatestDepth < n) :
    depth? n = .error .depthTooLarge := by
  rw [depth?, if_pos (Or.inr h)]

namespace CommandLine

open Processor

/-- A command line that can be parsed and names positive numbers. -/
structure Asks (arguments : List String) (choices : Choices) (limit : Option Int) (depth : Int) :
    Prop where
  parsed : parse arguments = .ok { choices with limit := limit.map .number, depth := .number depth }
  limit : ∀ n, limit = some n → 1 ≤ n
  depth : 1 ≤ depth

variable {arguments : List String} {choices : Choices} {limit : Option Int} {depth : Int}

/-- The request of such a command line, if a trace can be as long as it is to be. -/
def requested (choices : Choices) (limit : Option Int) (depth : Int) : Request :=
  { choices with limit, depth := depth.toNat }

theorem request_of_asks (h : Asks arguments choices limit depth) :
    request arguments =
      if depth ≤ History.greatestDepth then .ok (requested choices limit depth)
      else .error (.misuse .depthTooLarge) := by
  have hlimit : (limit.map Count.number).mapM (Count.positive .limitNotPositive) = .ok limit := by
    cases limit with
    | none => rfl
    | some n =>
      have hn : ¬n < 1 := Int.not_lt.mpr (h.limit n rfl)
      simp only [Option.map_some, Option.mapM_some, Count.positive, if_neg hn]
      rfl
  have hdepth : Count.positive .depthNotPositive (.number depth) = .ok depth :=
    if_neg (Int.not_lt.mpr h.depth)
  have hreq : request arguments = (do
      let depth ← (History.depth? depth).mapError .misuse
      return { choices with limit, depth }) := by
    rw [request, h.parsed]
    change Draft.request _ = _
    simp only [Draft.request, hlimit, hdepth]
    rfl
  rw [hreq]
  by_cases hle : depth ≤ History.greatestDepth
  · rw [if_pos hle, History.depth?_of_le h.depth hle]
    rfl
  · rw [if_neg hle, History.depth?_of_lt (Int.not_le.mp hle)]
    rfl

/-- What loading has no part in: the limit, the fault, how far the machine has come, and whether
it is asked to stop. -/
def progress {T : Type} (p : Processor T) : Option Int × Option Fault × Bool × Nat × Bool :=
  (p.limit, p.fault, p.machine.halted, p.machine.cycles, p.machine.console.stop)

theorem keeps_progress {T : Type} [Terminal T] (read : FileReader) (images : List String) :
    Keeps progress (loadAll (T := T) read images) := by
  have hload : ∀ path, Keeps (fun m : Machine T => (m.halted, m.cycles, m.console.stop))
      (Machine.loadFile read path) := fun path =>
    (Machine.composed_loadFile read path).keeps fun _ c hc m => by
      cases c with
      | note | load => rfl
      | _ => cases hc
  induction images with
  | nil => exact Keeps.pure progress ()
  | cons path rest ih =>
    have hfirst : Keeps progress (Processor.onMachine (Machine.loadFile (T := T) read path)) :=
      fun p => congrArg (fun progress => (p.limit, p.fault, progress)) (hload path p.machine)
    exact (hfirst.bind fun _ => Keeps.pure progress ()).bind fun _ => ih

/-- After loading, a guarded run can begin. -/
theorem isFresh_of_loaded (h : Asks arguments choices limit depth) {read : FileReader}
    {keys : List Byte} {alarm : Option Alarm} {p : Processor ScriptedTerminal}
    (hp : (loadAll read choices.images).run
      (powerOn (requested choices limit depth) ({ keys } : ScriptedTerminal) alarm) = (.ok (), p)) :
    (p.guarded true).IsFresh := by
  have hkeep := keeps_progress read choices.images
    (powerOn (requested choices limit depth) ({ keys } : ScriptedTerminal) alarm)
  rw [hp] at hkeep
  simp only [progress, Prod.mk.injEq] at hkeep
  obtain ⟨hlimit, hfault, hhalted, hcycles, hstop⟩ := hkeep
  exact ⟨⟨rfl, Or.inl ⟨rfl, hstop⟩⟩, hstop, hhalted, hcycles, hfault,
    fun n hn => h.limit n (hlimit.symm.trans hn)⟩

theorem carryOut_of_loaded {r : Request} {read : FileReader} {terminal : ScriptedTerminal}
    {alarm : Option Alarm} {p : Processor ScriptedTerminal}
    (hp : (loadAll read r.images).run (powerOn r terminal alarm) = (.ok (), p)) (allowance : Nat) :
    carryOut r read terminal alarm allowance =
      match (run allowance).run (p.guarded true) with
      | (.ok none, _) => .running
      | (.ok (some _), q) => conclude r (.ok ()) (q.guarded false)
      | (.error f, q) => conclude r (.error f) (q.guarded false) := by
  have hguarded : (runGuarded allowance).run p = (((run allowance).run (p.guarded true)).1,
      ((run allowance).run (p.guarded true)).2.guarded false) := rfl
  simp only [carryOut, hp, hguarded]
  rcases (run allowance).run (p.guarded true) with ⟨_ | _ | _, q⟩ <;> rfl

theorem respond_of_asks (h : Asks arguments choices limit depth)
    (hle : depth ≤ History.greatestDepth) (read : FileReader) (terminal : ScriptedTerminal)
    (alarm : Option Alarm) (allowance : Nat) :
    respond arguments read terminal alarm allowance =
      carryOut (requested choices limit depth) read terminal alarm allowance := by
  rw [respond, request_of_asks h, if_pos hle]

theorem respond_of_too_deep (h : Asks arguments choices limit depth)
    (hlt : History.greatestDepth < depth) (read : FileReader) (terminal : ScriptedTerminal)
    (alarm : Option Alarm) (allowance : Nat) :
    respond arguments read terminal alarm allowance = .failed (.misuse .depthTooLarge) := by
  rw [respond, request_of_asks h, if_neg (Int.not_le.mpr hlt)]

/-- **An exit status tells how the program ended.** Let a command line be parsed and name a
positive limit, if any, and a positive number of trace entries. Let the keys be given, and let an
interrupt come at any call of the terminal, or none.

* If the number of trace entries is greater than the greatest depth of a history, the program
  does not come to an exit status at all, whatever the images and the keys.
* Otherwise, let all images be loaded, which leaves the processor `p`. Then the run is not over,
  and has completed as many instructions as it was allowed to; or the reply has an exit status,
  as many instructions were completed as the machine has counted, and the exit status is the one
  that `LittleComputer.Processor.Warrants` gives for that.
* Another such command line that names the same images and the same limit leads to the same
  exit status and leaves the same machine, with the same keys to come and the same output,
  whatever it says of the trace, its depth, the summary and the notices. -/
theorem status_tells_ending (h : Asks arguments choices limit depth) (read : FileReader)
    (keys : List Byte) (alarm : Option Alarm) (allowance : Nat) :
    let terminal : ScriptedTerminal := { keys }
    let reply := respond arguments read terminal alarm allowance
    (History.greatestDepth < depth → reply = .failed (.misuse .depthTooLarge)) ∧
    (depth ≤ History.greatestDepth → ∀ p,
      (loadAll read choices.images).run
        (powerOn (requested choices limit depth) terminal alarm) = (.ok (), p) →
      let g := p.guarded true
      (reply = .running ∧ g.Completes allowance) ∨
      ∃ status report q k, reply = .finished status report q ∧ g.Completes k ∧
        q.machine.cycles = k ∧ ∀ s, status = s ↔ g.Warrants k s) ∧
    (depth ≤ History.greatestDepth → ∀ arguments' choices' depth',
      Asks arguments' choices' limit depth' → depth' ≤ History.greatestDepth →
      choices'.images = choices.images →
      reply.Matches (respond arguments' read terminal alarm allowance)) := by
  intro terminal reply
  refine ⟨fun hlt => respond_of_too_deep h hlt read terminal alarm allowance, fun hle p hp => ?_,
    fun hle arguments' choices' depth' h' hle' himages => ?_⟩
  · have hg := isFresh_of_loaded h hp
    have hreply : reply = _ := (respond_of_asks h hle read terminal alarm allowance).trans
      (carryOut_of_loaded hp allowance)
    rcases conclude_run hg allowance with ⟨hcompletes, hrun⟩ |
      ⟨k, result, q, status, hk, hstops, hrun, hcycles, hverdict, hconclude⟩
    · refine Or.inl ⟨?_, hcompletes⟩
      rw [hreply]
      rcases hr : (run allowance).run (p.guarded true) with ⟨r, q⟩
      rw [hr] at hrun
      obtain rfl : r = .ok none := hrun
      rfl
    · obtain ⟨report, hreport⟩ := hconclude (requested choices limit depth) (q.guarded false)
      refine Or.inr ⟨status, report, q.guarded false, k, ?_, hk, hcycles, fun s => ?_⟩
      · rw [hreply, hrun, ← hreport]
        cases result <;> rfl
      · rw [← verdict?_eq_some_iff hg hk hstops, hverdict, Option.some_inj]
  · have hreply : reply = _ := respond_of_asks h hle read terminal alarm allowance
    have himages' : (requested choices limit depth).images =
        (requested choices' limit depth').images := himages.symm
    rw [hreply, respond_of_asks h' hle']
    exact matches_carryOut himages' rfl read terminal alarm allowance

theorem asks_of_parse {arguments : List String} {choices : Choices} {limit : Option Int}
    {depth : Int} (h : (parse arguments).toOption =
      some { choices with limit := limit.map .number, depth := .number depth })
    (hlimit : ∀ n, limit = some n → 1 ≤ n) (hdepth : 1 ≤ depth) :
    Asks arguments choices limit depth := by
  refine ⟨?_, hlimit, hdepth⟩
  cases hp : parse arguments with
  | error e =>
    rw [hp] at h
    cases h
  | ok draft =>
    rw [hp] at h
    exact congrArg Except.ok (Option.some.inj h)

/-- A file system whose files hold a program that halts at once. -/
def haltingImage : FileReader := fun _ => .ok [0x30, 0x00, 0xF0, 0x25]

/-- A processor with this program. An interrupt comes at the first byte that it shows. -/
def haltsInterrupted : Processor ScriptedTerminal :=
  ((loadAll haltingImage ["a.obj"]).run
    (powerOn (requested { images := ["a.obj"] } none 1000) { keys := [] } (some ⟨.write, 1⟩))).2

/-- The interrupt leaves the exit status as it is, since the instruction into which it falls
halts the machine. A trace makes no difference. -/
theorem status_of_haltsInterrupted :
    let reply := respond ["a.obj"] haltingImage ({ keys := [] } : ScriptedTerminal)
      (some ⟨.write, 1⟩) 2
    (∃ report q, reply = .finished .ok report q) ∧ (haltsInterrupted.guarded true).Warrants 1 .ok ∧
      ¬(haltsInterrupted.guarded true).Warrants 1 .interrupted ∧
      reply.Matches (respond ["-t", "a.obj"] haltingImage ({ keys := [] } : ScriptedTerminal)
        (some ⟨.write, 1⟩) 2) := by
  intro reply
  have hasks : Asks ["a.obj"] { images := ["a.obj"] } none 1000 :=
    asks_of_parse (by decide +kernel) (by rintro n ⟨⟩) (by decide)
  have htrace : Asks ["-t", "a.obj"] { images := ["a.obj"], trace := true } none 1000 :=
    asks_of_parse (by decide +kernel) (by rintro n ⟨⟩) (by decide)
  obtain ⟨-, hends, hmatches⟩ := status_tells_ending hasks haltingImage [] (some ⟨.write, 1⟩) 2
  obtain ⟨q, hrun, hcycles⟩ : ∃ q, (run 2).run (haltsInterrupted.guarded true) =
      (.ok (some []), q) ∧ q.machine.cycles = 1 := ⟨_, rfl, rfl⟩
  let r := requested { images := ["a.obj"] } none 1000
  have hloaded : (loadAll haltingImage r.images).run (powerOn r ({ keys := [] } : ScriptedTerminal)
      (some ⟨.write, 1⟩)) = (.ok (), haltsInterrupted) := rfl
  have hcarry := carryOut_of_loaded hloaded 2
  rw [hrun] at hcarry
  obtain ⟨report, hreply⟩ : ∃ report, reply = .finished .ok report (q.guarded false) :=
    ⟨_, (respond_of_asks hasks (by decide) haltingImage _ _ 2).trans hcarry⟩
  refine ⟨⟨report, _, hreply⟩, ?_⟩
  rcases hends (by decide) haltsInterrupted rfl with ⟨hrunning, -⟩ |
    ⟨status, report', q', k, hreply', -, hk, hstatus⟩
  · cases hreply.symm.trans hrunning
  · cases hreply.symm.trans hreply'
    obtain rfl : k = 1 := hk.symm.trans hcycles
    have hne : ExitStatus.ok ≠ .interrupted := by decide
    exact ⟨(hstatus .ok).mp rfl, fun hw => hne ((hstatus .interrupted).mpr hw),
      hmatches (by decide) _ _ _ htrace (by decide) rfl⟩

/-- **A trace that is to be too deep** keeps the program from coming to an exit status. -/
theorem status_fails_of_too_deep :
    ¬∀ (arguments : List String) (choices : Choices) (limit : Option Int) (depth : Int)
      (read : FileReader) (keys : List Byte) (alarm : Option Alarm) (allowance : Nat),
      Asks arguments choices limit depth →
      (∃ p, (loadAll read choices.images).run
        (powerOn (requested choices limit depth) ({ keys } : ScriptedTerminal) alarm) =
          (.ok (), p)) →
      respond arguments read ({ keys } : ScriptedTerminal) alarm allowance ≠ .running →
      ∃ status report q, respond arguments read ({ keys } : ScriptedTerminal) alarm allowance =
        .finished status report q := by
  intro h
  have hasks : Asks ["--trace-depth", "9223372036854775808", "a.obj"] { images := ["a.obj"] } none
      9223372036854775808 :=
    asks_of_parse (by decide +kernel) (by rintro n ⟨⟩) (by decide)
  have hfails := respond_of_too_deep hasks (by decide) haltingImage { keys := [] } none 1
  obtain ⟨status, report, q, hreply⟩ := h _ _ _ _ haltingImage [] none 1 hasks ⟨_, rfl⟩ (by
    rw [hfails]
    rintro ⟨⟩)
  cases hfails.symm.trans hreply

end CommandLine

end LittleComputer
