import LittleComputer.Proofs.Lifecycle
import Mathlib.Data.List.Chain
import Mathlib.Data.List.DropRight

/-!
# What a trace says

A trace shows the latest instructions of a machine. That it shows each of them, none twice and in
the right order does not follow from how it is kept: the number of an instruction is taken from a
counter that the machine advances, the entry is made at the end of the step, and old entries are
dropped. It follows because a step that fails does neither and a step that returns does both. So
there is a list of all instructions since the machine was last switched on, and the trace is its
latest part (`LittleComputer.Processor.Remembers`).

An entry is more than a number. It names the address and the word of an instruction with the
machine before and after, and these fit together: from the one snapshot, fetching and carrying out
that word leads to the other (`LittleComputer.TraceEntry.IsAccount`). Within one run there is
nothing between an instruction and the next, so that each entry begins where the one before it
ends (`LittleComputer.Processor.isChain_course`).

The main statement is `LittleComputer.Processor.trace_is_faithful`.
-/

namespace LittleComputer

/-- Of what is cut off in the end it does not matter whether a part was cut off before. -/
theorem take_append_take {α : Type} (l m : List α) (n : Nat) :
    (l ++ m.take n).take n = (l ++ m).take n := by
  rw [List.take_append, List.take_append, List.take_take, Nat.min_eq_left (Nat.sub_le _ _)]

/-- **What an entry of a trace accounts for**: an instruction of a machine that was running. It was
fetched at the program counter and carried out, it was counted, and its number is that of the
instructions before it. -/
structure TraceEntry.IsAccount (T : Type) [Terminal T] (e : TraceEntry) : Prop where
  address : e.cycle.address = e.before.registers.pc
  number : e.cycle.number = e.before.cycles
  running : e.before.halted = false
  counted : e.after.cycles = e.before.cycles + 1
  /-- Between the snapshots the word was fetched and what it was decoded as was carried out. -/
  carriedOut : ∃ m m₁ m₂ : Machine T, m.snapshot = e.before ∧
    Machine.fetch.run m = (.ok (e.cycle.address, e.cycle.instruction), m₁) ∧
    (Machine.effect (Instruction.decode e.cycle.instruction)).run
      (m₁.announced e.cycle.address e.cycle.instruction) = (.ok (), m₂) ∧
    (m₂.settled e.cycle.address e.cycle.instruction).snapshot = e.after

namespace Processor

variable {T : Type} [Terminal T] {p : Processor T}

/-! ### Entries -/

/-- The entry that the next step makes in the trace, if it returns. -/
def record? (p : Processor T) : Option TraceEntry :=
  match step.run p with
  | (.ok c, q) => some ⟨c, p.machine.snapshot, q.machine.snapshot⟩
  | (.error _, _) => none

theorem record?_of_ok {c : Cycle} (h : (step.run p).1 = .ok c) :
    p.record? = some ⟨c, p.machine.snapshot, p.next.machine.snapshot⟩ := by
  obtain ⟨a, w, m, -, -, -, rfl, hs⟩ := step_ok h
  rw [record?, next, hs]

theorem record?_of_error {f : Failure} (h : (step.run p).1 = .error f) : p.record? = none := by
  rcases hs : step.run p with ⟨g | c, q⟩
  · rw [record?, hs]
  · rw [hs] at h
    cases h

/-- **An entry is an account.** -/
theorem isAccount_of_record? {e : TraceEntry} (h : p.record? = some e) : e.IsAccount T := by
  rcases hs : (step.run p).1 with f | c
  · cases (record?_of_error hs).symm.trans h
  · cases (record?_of_ok hs).symm.trans h
    have hcycles := cycles_next hs
    obtain ⟨a, w, m, hr, -, ha, rfl, hstep⟩ := step_ok hs
    obtain ⟨m₁, m₂, hf, he, rfl⟩ := Machine.attempt_ok ha
    obtain ⟨rfl, -⟩ := Machine.fetch_ok hf
    have hnext : p.next.machine = m₂.settled p.machine.registers.pc w := by
      rw [next, hstep]
      rfl
    exact ⟨rfl, rfl, hr, hcycles, p.machine, m₁, m₂, rfl, hf, he, by rw [hnext]⟩

/-! ### What steps and runs add to a trace -/

/-- Whether and how much of a trace is kept does not change. -/
theorem recording_next (p : Processor T) :
    p.next.tracing = p.tracing ∧ p.next.trace.depth = p.trace.depth := by
  rcases step_cases p with ⟨-, hs⟩ | ⟨n, -, -, hs⟩ | ⟨f, m, -, -, -, hs⟩ |
    ⟨a, w, m, -, -, -, hs⟩ <;> rw [next, hs]
  · exact ⟨rfl, rfl⟩
  · exact ⟨rfl, rfl⟩
  · exact ⟨rfl, rfl⟩
  · refine ⟨rfl, ?_⟩
    rw [completed]
    split
    · exact History.depth_push _ _
    · rfl

omit [Terminal T] in
theorem take_latest (p : Processor T) : p.trace.latest.take p.trace.depth = p.trace.latest :=
  List.take_of_length_le p.trace.length_latest_le

/-- A step puts its entry in front of the trace, if it makes one. -/
theorem latest_next (htracing : p.tracing = true) :
    p.next.trace.latest = (p.record?.toList ++ p.trace.latest).take p.trace.depth := by
  rcases step_cases p with ⟨-, hs⟩ | ⟨n, -, -, hs⟩ | ⟨f, m, -, -, -, hs⟩ | ⟨a, w, m, -, -, -, hs⟩
  · rw [record?, next, hs]
    exact p.take_latest.symm
  · rw [record?, next, hs]
    exact p.take_latest.symm
  · rw [record?, next, hs]
    exact p.take_latest.symm
  · rw [record?, next, hs, completed, htracing]
    exact p.trace.latest_push _

/-- **A run puts the entries of its steps in front of the trace**, one after the other. -/
theorem latest_run (htracing : p.tracing = true) (allowance : Nat) :
    ((run allowance).run p).2.trace.latest =
      (((p.course allowance).filterMap record?).reverse ++ p.trace.latest).take p.trace.depth := by
  induction allowance, p using run_induction with
  | boundary n p hcourse hrun =>
    rw [hrun, hcourse]
    refine Eq.trans ?_ p.take_latest.symm
    rcases boundary_cases p with ⟨-, hb⟩ | ⟨-, -, hb⟩ | ⟨-, -, hb⟩ <;> rw [hb]
    rfl
  | failed n p f hs hcourse hrun =>
    have hnone : p.record? = none := record?_of_error (congrArg Prod.fst hs)
    rw [hrun, hcourse, latest_next htracing, List.filterMap_cons, hnone]
    rfl
  | returned n p c hs hcourse hrun ih =>
    -- What the step has cut off would be cut off by the run in any case.
    obtain ⟨hkept, hdepth⟩ := recording_next p
    obtain ⟨e, he⟩ : ∃ e, p.record? = some e := ⟨_, record?_of_ok (congrArg Prod.fst hs)⟩
    rw [hrun, hcourse, ih (hkept.trans htracing), hdepth, latest_next htracing, take_append_take,
      List.filterMap_cons, he, List.reverse_cons, List.append_assoc]
    rfl

/-- **Within a run each entry begins where the one before it ends**, and the first one where the
run begins. -/
theorem isChain_course (allowance : Nat) (p : Processor T) :
    ((p.course allowance).filterMap record?).IsChain (fun e e' => e.after = e'.before) ∧
      ∀ e ∈ ((p.course allowance).filterMap record?).head?, p.machine.snapshot = e.before := by
  induction allowance, p using run_induction with
  | boundary n p hcourse hrun =>
    rw [hcourse]
    exact ⟨.nil, fun e he => by cases he⟩
  | failed n p f hs hcourse hrun =>
    have hnone : p.record? = none := record?_of_error (congrArg Prod.fst hs)
    rw [hcourse, List.filterMap_cons, hnone]
    exact ⟨.nil, fun e he => by cases he⟩
  | returned n p c hs hcourse hrun ih =>
    rw [hcourse, List.filterMap_cons, record?_of_ok (congrArg Prod.fst hs)]
    -- The rest of the run begins at the machine that the step has left.
    obtain ⟨hchain, hfirst⟩ := ih
    refine ⟨List.isChain_cons.mpr ⟨hfirst, hchain⟩, fun e he => ?_⟩
    cases he
    rfl

end Processor

/-- The entries that a directive makes in the trace, the oldest first. -/
def Directive.entries {T : Type} [Terminal T] (d : Directive T) (p : Processor T) :
    List TraceEntry :=
  (d.course p).filterMap Processor.record?

namespace Processor

variable {T : Type} [Terminal T] {p : Processor T}

/-- **A directive puts its entries behind the trace**, of which the latest are kept. -/
theorem toList_after {d : Directive T} (hd : d ≠ .reset) (htracing : p.tracing = true) :
    (d.after p).trace.toList = (p.trace.toList ++ d.entries p).rtake p.trace.depth := by
  have hlatest : (d.after p).trace.latest =
      ((d.entries p).reverse ++ p.trace.latest).take p.trace.depth := by
    cases d with
    | step =>
      rw [Directive.after_step, latest_next htracing, Directive.entries, Directive.course,
        List.filterMap_cons]
      cases p.record? <;> rfl
    | run allowance =>
      rw [Directive.after_run]
      exact latest_run htracing allowance
    | guardedRun allowance =>
      rw [Directive.after_guardedRun, Directive.after_run]
      exact latest_run (p := p.guarded true) htracing allowance
    | access | requestStop | interrupt | terminal => exact p.take_latest.symm
    | reset => exact absurd rfl hd
  rw [List.rtake_eq_reverse_take_reverse, List.reverse_append, History.toList, History.toList,
    List.reverse_reverse, hlatest]

theorem isChain_entries (d : Directive T) (p : Processor T) :
    (d.entries p).IsChain fun e e' => e.after = e'.before := by
  cases d with
  | step =>
    rw [Directive.entries, Directive.course, List.filterMap_cons]
    cases p.record? with
    | none => exact .nil
    | some e => exact .singleton e
  | run allowance => exact (isChain_course allowance p).1
  | guardedRun allowance => exact (isChain_course allowance (p.guarded true)).1
  | access | requestStop | interrupt | terminal | reset => exact .nil

/-! ### All instructions since the machine was switched on -/

/-- **A processor remembers its instructions**: `entries` are those that were carried out since it
was last switched on, the latest first, and the trace is as much of them as its depth allows. -/
structure Remembers (depth : Nat) (entries : List TraceEntry) (p : Processor T) : Prop where
  tracing : p.tracing = true
  depth_eq : p.trace.depth = depth
  latest : p.trace.latest = entries.take depth
  numbers : entries.map (fun e => e.cycle.number) = (List.range p.machine.cycles).reverse
  accounts : ∀ e ∈ entries, e.IsAccount T

/-- A step that returns is one instruction more to remember. -/
theorem Remembers.next {depth : Nat} {entries : List TraceEntry} (h : Remembers depth entries p) :
    Remembers depth (p.record?.toList ++ entries) p.next := by
  obtain ⟨htracing, hdepth⟩ := recording_next p
  have hlatest := latest_next h.tracing
  rw [h.depth_eq, h.latest, take_append_take] at hlatest
  refine ⟨htracing.trans h.tracing, hdepth.trans h.depth_eq, hlatest, ?_, ?_⟩
  · rcases hs : (step.run p).1 with f | c
    · have hcycles : p.next.machine.cycles = p.machine.cycles :=
        cycles_of_step_error (Prod.ext hs rfl)
      rw [record?_of_error hs, hcycles]
      exact h.numbers
    · rw [record?_of_ok hs, cycles_next hs, List.range_succ, List.reverse_append, ← h.numbers]
      obtain ⟨a, w, m, -, -, -, rfl, -⟩ := step_ok hs
      rfl
  · intro e he
    rcases List.mem_append.mp he with hnew | hold
    · exact isAccount_of_record? (Option.mem_toList.mp hnew)
    · exact h.accounts e hold

theorem isInvariant_remembers (depth : Nat) :
    IsInvariant fun p : Processor T => ∃ entries, Remembers depth entries p where
  next := fun ⟨_, h⟩ => ⟨_, h.next⟩
  stopped := fun ⟨entries, h⟩ => ⟨entries, h.tracing, h.depth_eq, h.latest, h.numbers, h.accounts⟩
  withMachine := fun ⟨entries, h⟩ _ hcycles =>
    ⟨entries, h.tracing, h.depth_eq, h.latest, hcycles ▸ h.numbers, h.accounts⟩

/-- A processor that was just switched on has nothing to remember. -/
theorem remembers_nil {depth : Nat} (htracing : p.tracing = true) (hdepth : p.trace.depth = depth)
    (hlatest : p.trace.latest = []) (hcycles : p.machine.cycles = 0) : Remembers depth [] p := by
  refine ⟨htracing, hdepth, ?_, ?_, fun e he => ?_⟩
  · rw [hlatest, List.take_nil]
  · rw [hcycles]
    rfl
  · cases he

/-- **The trace ends with the latest instruction**, and its numbers count up to it. -/
theorem Remembers.numbers_toList {depth : Nat} {entries : List TraceEntry}
    (h : Remembers depth entries p) :
    p.trace.toList.map (fun e => e.cycle.number) =
      List.range' (p.machine.cycles - min depth p.machine.cycles) (min depth p.machine.cycles) := by
  rw [History.toList, h.latest, List.map_reverse, List.map_take, h.numbers, List.reverse_take,
    List.reverse_reverse, List.length_reverse, List.length_range, List.range_eq_range',
    List.drop_range']
  congr 1 <;> omega

/-! ### Main statement -/

/-- **A trace is faithful.** A processor that keeps a trace of a given depth is switched on, and
anything is done with it.

* The trace has as many entries as there were instructions since the machine was last switched on,
  but no more than the depth. Their numbers are consecutive, the oldest first, and the last one is
  that of the latest instruction. Each of them is an account of an instruction.
* Whatever is done next, unless it is a reset: the trace is then that of before with the entries
  made on the way behind it, and cut to the depth. The entries of one run join each other, the
  machine after one being the machine before the next.
* A step that fails makes no entry, and a step that returns makes one. That one is of the
  instruction that is returned, with the machine as it was and as it is.
* In particular a word that is no instruction has an entry, which says what is wrong with it. -/
theorem trace_is_faithful (terminal : T) (alarm : Option Alarm) (journal : Journal)
    (limit : Option Int) (depth : Nat) (session : List (Event T)) :
    let p := (switchedOn terminal alarm journal limit true depth).afterSession session
    let kept := min depth p.machine.cycles
    (p.trace.toList.length = kept ∧
      p.trace.toList.map (fun e => e.cycle.number) =
        List.range' (p.machine.cycles - kept) kept ∧
      ∀ e ∈ p.trace.toList, e.IsAccount T) ∧
    (∀ d : Directive T, d ≠ .reset →
      (d.after p).trace.toList = (p.trace.toList ++ d.entries p).rtake depth ∧
      (d.entries p).IsChain fun e e' => e.after = e'.before) ∧
    (∀ q : Processor T,
      (∀ f, (step.run q).1 = .error f → q.record? = none) ∧
      ∀ c, (step.run q).1 = .ok c →
        q.record? = some ⟨c, q.machine.snapshot, q.next.machine.snapshot⟩) ∧
    ∀ (q : Processor T) (a w : Word), q.Fetches a w → IsFatal w →
      ∃ e, q.record? = some e ∧ e.cycle.address = a ∧ e.cycle.instruction = w ∧
        e.cycle.defect? = some (Defect.ofWord w) := by
  intro p kept
  obtain ⟨entries, h⟩ : ∃ entries, Remembers depth entries p :=
    (isInvariant_remembers depth).session
      ⟨[], remembers_nil rfl rfl (History.latest_clear (.empty depth)) rfl⟩
      fun _ _ ⟨_, h⟩ => ⟨[], remembers_nil h.tracing h.depth_eq (History.latest_clear _) rfl⟩
  have hnumbers := h.numbers_toList
  refine ⟨⟨?_, hnumbers, fun e he => ?_⟩, fun d hd => ⟨?_, isChain_entries d p⟩,
    fun q => ⟨fun f => record?_of_error, fun c => record?_of_ok⟩, fun q a w hfetches hw => ?_⟩
  · have hlength := congrArg List.length hnumbers
    rwa [List.length_map, List.length_range'] at hlength
  · rw [History.toList, List.mem_reverse, h.latest] at he
    exact h.accounts e (List.mem_of_mem_take he)
  · rw [toList_after hd h.tracing, h.depth_eq]
  · exact ⟨_, record?_of_ok (step_of_isFatal hfetches hw), rfl, rfl,
      defect?_of_isFatal hw q.machine.cycles a⟩

/-- What is loaded into the processor below: two additions and a word that is no instruction. -/
def additions : List (Event ScriptedTerminal) :=
  [.directive (.access (.loadImage "additions" [0x30, 0x00, 0x10, 0x21, 0x10, 0x21, 0x80, 0x00]))]

/-- A processor that will add one to `R0` twice and then meet a fatal word. Its trace has two
entries at most. -/
def addsTwice : Processor ScriptedTerminal :=
  (switchedOn { keys := [] } none .silent none true 2).afterSession additions

/-- Of three instructions the trace shows the last two. The fatal word is the last one. -/
theorem trace_of_addsTwice :
    let run : Directive ScriptedTerminal := .run 4
    let q := run.after addsTwice
    let third := next^[2] addsTwice
    run ≠ .reset ∧ third.Fetches 0x3002 0x8000 ∧ IsFatal 0x8000 ∧
      q.trace.toList.map (fun e => e.cycle.number) = [1, 2] ∧
      (∀ e ∈ q.trace.toList, e.IsAccount ScriptedTerminal) ∧
      q.trace.toList = (run.entries addsTwice).rtake 2 ∧
      ((run.entries addsTwice).IsChain fun e e' => e.after = e'.before) ∧
      ∃ e, third.record? = some e ∧ e.cycle.address = 0x3002 ∧
        e.cycle.defect? = some (Defect.ofWord 0x8000) := by
  intro run q third
  have hrun : run ≠ .reset := nofun
  have hfetches : (next^[2] addsTwice).Fetches 0x3002 0x8000 := ⟨rfl, rfl, _, rfl⟩
  have hfatal : IsFatal 0x8000 := by decide
  have hcompletes : addsTwice.Completes 3 := by
    intro j hj
    rcases j with _ | _ | _ | j
    · exact ⟨⟨0, 0x3000, 0x1021⟩, rfl⟩
    · exact ⟨⟨1, 0x3001, 0x1021⟩, rfl⟩
    · exact ⟨_, step_of_isFatal hfetches hfatal⟩
    · omega
  have hcycles : q.machine.cycles = 3 := by
    have hundisturbed : addsTwice.IsUndisturbed := ⟨rfl, rfl⟩
    have hhalted : (next^[3] addsTwice).machine.halted = true := by decide
    have hq : q = ((Processor.run 1).run (next^[3] addsTwice)).2 := by
      rw [← run_add_of_completes (fun j _ => (hundisturbed.iterate j).unasked) hcompletes 1]
      exact Directive.after_run 4 addsTwice
    rw [hq, run_of_halted hhalted, hcompletes.cycles]
    rfl
  obtain ⟨-, hnext, -, hword⟩ := trace_is_faithful ({ keys := [] } : ScriptedTerminal) none .silent
    none 2 additions
  obtain ⟨⟨-, hnumbers, haccounts⟩, -⟩ := trace_is_faithful ({ keys := [] } : ScriptedTerminal) none
    .silent none 2 (additions ++ [.directive run])
  obtain ⟨hlist, hchain⟩ := hnext run hrun
  obtain ⟨e, he, haddress, -, hdefect⟩ := hword third 0x3002 0x8000 hfetches hfatal
  have hsession : (switchedOn ({ keys := [] } : ScriptedTerminal) none .silent none true
      2).afterSession (additions ++ [.directive run]) = q := by
    rw [afterSession, List.foldl_append]
    rfl
  rw [hsession] at hnumbers haccounts
  refine ⟨hrun, hfetches, hfatal, ?_, haccounts, hlist, hchain, e, he, haddress, hdefect⟩
  rw [hnumbers, hcycles]
  rfl

end Processor

end LittleComputer
