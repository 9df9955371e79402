import LittleComputer.Proofs.Run
import LittleComputer.Terminal.Scripted

/-!
# The limit on executed instructions

A limit is looked at before each instruction, and nothing else in the library asks
for it. So a processor with a limit takes the very steps of the processor without
one for as long as the limit is ahead
(`LittleComputer.Processor.run_step_limitedTo`); the step at which it has been
reached stops the machine before anything is fetched.

What follows from that for whole runs is
`LittleComputer.Processor.limit_only_cuts_short`. There are three cases, and where
one ends and the next begins is the point of the statement: a run that halts with
the last instruction allowed is not cut short, and one that would fail in the
instruction after it is.
-/

namespace LittleComputer.Processor

variable {T : Type}

/-! ### One step under a limit -/

/-- The processor with a limit on the number of instructions. -/
def limitedTo (n : Nat) (p : Processor T) : Processor T := { p with limit := some n }

/-- A processor that has just been switched on, with a program in its memory. -/
def launch [Terminal T] (program : Memory) (console : Console T) (limit : Option Int)
    (tracing : Bool) (depth : Nat) : Processor T :=
  { powerOn console limit tracing depth with
    machine := { Machine.powerOn console with memory := program } }

theorem reachedLimit_of_unlimited {p : Processor T} (h : p.limit = none) :
    p.reachedLimit = none := by
  rw [reachedLimit, h]
  rfl

theorem reachedLimit_limitedTo_of_lt {p : Processor T} {n : Nat} (h : p.machine.cycles < n) :
    (p.limitedTo n).reachedLimit = none := by
  have hlt : ¬(n : Int) ≤ (p.machine.cycles : Int) := by omega
  simp [reachedLimit, limitedTo, Option.filter, hlt]

theorem reachedLimit_limitedTo_of_eq {p : Processor T} {n : Nat} (h : p.machine.cycles = n) :
    (p.limitedTo n).reachedLimit = some n := by
  simp [reachedLimit, limitedTo, Option.filter, h]

variable [Terminal T]

/-- **A limit that is ahead does not change a step.** -/
theorem run_step_limitedTo {p : Processor T} {n : Nat} (h : p.limit = none)
    (hn : p.machine.cycles < n) :
    step.run (p.limitedTo n) = ((step.run p).1, p.next.limitedTo n) := by
  have hl : (p.limitedTo n).reachedLimit = none := reachedLimit_limitedTo_of_lt hn
  rcases step_cases p with ⟨hh, hs⟩ | ⟨m, -, hm, -⟩ | ⟨f, m, hh, -, ha, hs⟩ |
    ⟨a, w, m, hh, -, ha, hs⟩
  · rw [next, hs]
    exact run_step_of_halted hh
  · rw [reachedLimit_of_unlimited h] at hm
    cases hm
  · rw [next, hs]
    exact run_step_of_error hh hl ha
  · rw [next, hs]
    exact run_step_of_ok hh hl ha

theorem next_limitedTo {p : Processor T} {n : Nat} (h : p.limit = none)
    (hn : p.machine.cycles < n) : (p.limitedTo n).next = p.next.limitedTo n := by
  rw [next, run_step_limitedTo h hn]

/-! ### Steps in a row under a limit -/

/-- **Both processors take the same steps up to the limit.** -/
theorem iterate_limitedTo {p : Processor T} {n k : Nat} (h : p.limit = none)
    (hk : p.Completes k) (hn : p.machine.cycles + k ≤ n) :
    next^[k] (p.limitedTo n) = (next^[k] p).limitedTo n := by
  induction k with
  | zero => rfl
  | succ k ih =>
    obtain ⟨hk, -⟩ := completes_succ.mp hk
    have hlt : (next^[k] p).machine.cycles < n := by
      rw [hk.cycles]
      omega
    rw [Function.iterate_succ_apply', Function.iterate_succ_apply', ih hk (by omega),
      next_limitedTo ((limit_iterate p k).trans h) hlt]

theorem Completes.limitedTo {p : Processor T} {n k : Nat} (h : p.limit = none)
    (hk : p.Completes k) (hn : p.machine.cycles + k ≤ n) : (p.limitedTo n).Completes k := by
  intro j hj
  have hjk : p.Completes j := hk.mono (Nat.le_of_lt hj)
  have hlt : (next^[j] p).machine.cycles < n := by
    rw [hjk.cycles]
    omega
  obtain ⟨c, hc⟩ := hk j hj
  refine ⟨c, ?_⟩
  rw [iterate_limitedTo h hjk (by omega), run_step_limitedTo ((limit_iterate p j).trans h) hlt]
  exact hc

/-- A run that halts within the limit halts under the limit. -/
theorem HaltsAt.limitedTo {p : Processor T} {n k : Nat} (h : p.limit = none) (hk : p.HaltsAt k)
    (hn : p.machine.cycles + k ≤ n) : (p.limitedTo n).HaltsAt k := by
  refine ⟨hk.1.limitedTo h hn, ?_⟩
  rw [iterate_limitedTo h hk.1 hn]
  exact hk.2

/-- A run that fails within the limit fails under the limit. -/
theorem FailsAt.limitedTo {p q : Processor T} {n k : Nat} {f : Failure} (h : p.limit = none)
    (hk : p.FailsAt k f q) (hn : p.machine.cycles + k < n) :
    (p.limitedTo n).FailsAt k f (q.limitedTo n) := by
  obtain ⟨hc, hr, hs⟩ := hk
  have hlt : (next^[k] p).machine.cycles < n := by
    rw [hc.cycles]
    exact hn
  refine ⟨hc.limitedTo h (Nat.le_of_lt hn), ?_, ?_⟩
  · rw [iterate_limitedTo h hc (Nat.le_of_lt hn)]
    exact hr
  · rw [iterate_limitedTo h hc (Nat.le_of_lt hn),
      run_step_limitedTo ((limit_iterate p k).trans h) hlt, next, hs]

/-- **At the limit the step fails**, and all that it does is to stop the machine. -/
theorem failsAt_limitedTo {p : Processor T} {n : Nat} (h : p.limit = none)
    (hp : p.machine.cycles = 0) (hn : p.Completes n) (hr : (next^[n] p).machine.halted = false) :
    (p.limitedTo n).FailsAt n (.cycleLimit n) ((next^[n] p).stopped.limitedTo n) := by
  have hle : p.machine.cycles + n ≤ n := by omega
  have hcount : (next^[n] p).machine.cycles = n := by
    rw [hn.cycles]
    omega
  refine ⟨hn.limitedTo h hle, ?_, ?_⟩
  · rw [iterate_limitedTo h hn hle]
    exact hr
  · rw [iterate_limitedTo h hn hle]
    exact run_step_of_limit hr (reachedLimit_limitedTo_of_eq hcount)

/-- A run that neither halts nor fails before its `n`-th instruction is complete
completes `n` instructions. -/
theorem completes_of_goes_on {p : Processor T} {n : Nat} (hh : ∀ k ≤ n, ¬p.HaltsAt k)
    (hf : ∀ k < n, ∀ f q, ¬p.FailsAt k f q) : p.Completes n := by
  induction n with
  | zero => exact completes_zero p
  | succ n ih =>
    have hn : p.Completes n :=
      ih (fun k hk => hh k (Nat.le_succ_of_le hk)) fun k hk => hf k (Nat.lt_succ_of_lt hk)
    refine completes_succ.mpr ⟨hn, ?_⟩
    have hr : (next^[n] p).machine.halted = false :=
      Bool.eq_false_iff.mpr fun ht => hh n (Nat.le_succ n) ⟨hn, ht⟩
    rcases hs : step.run (next^[n] p) with ⟨f | c, q⟩
    · exact absurd ⟨hn, hr, hs⟩ (hf n (Nat.lt_succ_self n) f q)
    · exact ⟨c, rfl⟩

/-! ### Runs under a limit -/

/-- **A limit only cuts a run short.** Two processors are switched on with the same
program, the same terminal and the same journal, `u` without a limit and `l` with the
limit `n`, and nobody asks for a stop.

* If the run of `u` halts when `k ≤ n` instructions are complete, the run of `l` ends
  with the same result in the same state.
* If it fails in the instruction after the `k`-th for some `k < n`, the run of `l` fails
  in the same way and in the same state.
* Otherwise, also if the run of `u` does not end, `u` completes `n` instructions; the run
  of `l` fails there because of the limit, and it leaves everything, the terminal and
  the journal included, as `u` has it then, but for the machine being halted.

There is no further way for a run to end (`LittleComputer.Processor.runEnds_iff`). -/
theorem limit_only_cuts_short (program : Memory) (terminal : T) (alarm : Option Alarm)
    (journal : Journal) (tracing : Bool) (depth n : Nat) :
    let u := launch program { terminal, alarm, journal } none tracing depth
    let l := launch program { terminal, alarm, journal } (some n) tracing depth
    (∀ k ≤ n, u.HaltsAt k →
      RunEnds u (next^[k] u).ending (next^[k] u) ∧
        RunEnds l (next^[k] u).ending ((next^[k] u).limitedTo n)) ∧
    (∀ k < n, ∀ f q, u.FailsAt k f q →
      RunEnds u (.error f) q ∧ RunEnds l (.error f) (q.limitedTo n)) ∧
    ((∀ k ≤ n, ¬u.HaltsAt k) → (∀ k < n, ∀ f q, ¬u.FailsAt k f q) →
      u.Completes n ∧ (next^[n] u).machine.cycles = n ∧ (next^[n] u).machine.halted = false ∧
        RunEnds l (.error (.cycleLimit n)) ((next^[n] u).stopped.limitedTo n)) := by
  intro u l
  have hu : u.IsUndisturbed := ⟨rfl, rfl⟩
  have hl : l.IsUndisturbed := ⟨rfl, rfl⟩
  have hlu : l = u.limitedTo n := rfl
  have hlim : u.limit = none := rfl
  have hcycles : u.machine.cycles = 0 := rfl
  refine ⟨fun k hk hhalt => ⟨hhalt.runEnds hu, ?_⟩, fun k hk f q hfail => ⟨hfail.runEnds hu, ?_⟩,
    fun hh hf => ?_⟩
  · have hle : u.machine.cycles + k ≤ n := by omega
    have h := (hhalt.limitedTo hlim hle).runEnds hl
    rw [hlu, iterate_limitedTo hlim hhalt.1 hle] at h
    exact h
  · have hlt : u.machine.cycles + k < n := by omega
    exact (hfail.limitedTo hlim hlt).runEnds hl
  · have hn : u.Completes n := completes_of_goes_on hh hf
    have hr : (next^[n] u).machine.halted = false :=
      Bool.eq_false_iff.mpr fun ht => hh n (Nat.le_refl n) ⟨hn, ht⟩
    have hcount : (next^[n] u).machine.cycles = n := by
      rw [hn.cycles, hcycles, Nat.zero_add]
    exact ⟨hn, hcount, hr, (failsAt_limitedTo hlim hcycles hn hr).runEnds hl⟩

/-- A processor that will add once and then halt. -/
def addAndHalt (limit : Option Int) : Processor ScriptedTerminal :=
  launch (Memory.cleared.load 0x3000 [0x1021, 0xF025]) { terminal := { keys := [] } } limit false 0

/-- The last instruction allowed may be the one that halts; a smaller limit cuts the run
short. -/
theorem limit_of_addAndHalt :
    RunEnds (addAndHalt none) (.ok []) (next^[2] (addAndHalt none)) ∧
      RunEnds (addAndHalt (some 2)) (.ok []) ((next^[2] (addAndHalt none)).limitedTo 2) ∧
      RunEnds (addAndHalt (some 1)) (.error (.cycleLimit 1))
        ((next^[1] (addAndHalt none)).stopped.limitedTo 1) := by
  have hcompletes : (addAndHalt none).Completes 2 := by
    intro j hj
    rcases j with _ | _ | j
    · exact ⟨⟨0, 0x3000, 0x1021⟩, rfl⟩
    · exact ⟨⟨1, 0x3001, 0xF025⟩, rfl⟩
    · omega
  have hrunning : ∀ k ≤ 1, ¬(addAndHalt none).HaltsAt k := by
    rintro k hk ⟨-, h⟩
    rcases k with _ | _ | k
    · cases h
    · cases h
    · omega
  have hreturns : ∀ k < 1, ∀ f q, ¬(addAndHalt none).FailsAt k f q := by
    rintro k hk f q ⟨-, -, h⟩
    obtain ⟨c, hc⟩ := hcompletes k (by omega)
    rw [h] at hc
    cases hc
  obtain ⟨htwo, -, -⟩ := limit_only_cuts_short (Memory.cleared.load 0x3000 [0x1021, 0xF025])
    ({ keys := [] } : ScriptedTerminal) none Journal.silent false 0 2
  obtain ⟨-, -, hone⟩ := limit_only_cuts_short (Memory.cleared.load 0x3000 [0x1021, 0xF025])
    ({ keys := [] } : ScriptedTerminal) none Journal.silent false 0 1
  obtain ⟨hu, hl⟩ := htwo 2 (Nat.le_refl 2) ⟨hcompletes, rfl⟩
  obtain ⟨-, -, -, hcut⟩ := hone hrunning hreturns
  exact ⟨hu, hl, hcut⟩

end LittleComputer.Processor
