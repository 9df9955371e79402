import LittleComputer.Proofs.Lifecycle

/-!
# Stepping and running

Steps and runs report what happens in different ways. A step that meets a fatal word returns and
leaves the fault behind; a run fails with it, but only at the next boundary. The limit is a matter
of the step, a request to stop is one of the run. Still it makes no difference where a run is
taken up: after any number of steps that return, a run goes on as it would have from the start
(`LittleComputer.Processor.run_add_of_completes`), because all that a run does between two steps
is to look whether it should end, and between these steps it should not.

Two things have to be known for that. Nobody asks for a stop while the steps are taken, since
interrupts are not routed to the machine outside a guarded run. And a machine that is still
running has no fault (`LittleComputer.Processor.IsConsistent`), so that a run which is entered with
the machine halted reports what the last of the steps has left and nothing else.

The main statement is `LittleComputer.Processor.run_resumes_after_steps`.
-/

namespace LittleComputer.Processor

variable {T : Type} [Terminal T] {p : Processor T} {k : Nat}

/-! ### Runs that go on for ever -/

/-- **A run goes on for ever** if no allowance is enough for it. -/
def RunsForever (p : Processor T) : Prop := ∀ allowance, ((run allowance).run p).1 = .ok none

theorem runsForever_iff : p.RunsForever ↔ ∀ r q, ¬RunEnds p r q := by
  constructor
  · rintro h r q ⟨allowance, ha⟩
    have hnone := h allowance
    rw [ha] at hnone
    cases r <;> cases hnone
  · intro h allowance
    rcases hrun : (run allowance).run p with ⟨f | _ | trace, q⟩
    · exact absurd ⟨allowance, hrun⟩ (h (.error f) q)
    · rfl
    · exact absurd ⟨allowance, hrun⟩ (h (.ok trace) q)

/-! ### After some steps -/

/-- **A run ends after some steps as it does without them**, and only if it does. -/
theorem runEnds_iff_of_completes (hs : ∀ j < k, (next^[j] p).machine.console.stop = false)
    (hk : p.Completes k) {r : Except Failure (List TraceEntry)} {q : Processor T} :
    RunEnds p r q ↔ RunEnds (next^[k] p) r q := by
  constructor
  · rintro ⟨allowance, ha⟩
    refine ⟨allowance, ?_⟩
    rw [← run_add_of_completes hs hk]
    exact run_of_le (Nat.le_add_left allowance k) ha
  · exact RunEnds.of_completes hs hk

theorem IsConsistent.iterate (h : p.IsConsistent) (k : Nat) :
    (Processor.next^[k] p).IsConsistent := by
  induction k with
  | zero => exact h
  | succ k ih =>
    rw [Function.iterate_succ_apply']
    exact ih.next

/-- **What a run reports that is entered after the last instruction**: the trace, if that was a
call of the halt service, and the fault, if it was a fatal word. -/
theorem ending_of_halts (h : p.IsConsistent) {c : Cycle} (hc : (step.run p).1 = .ok c) :
    (Instruction.decode c.instruction = .trap .halt →
      p.next.machine.halted = true ∧ p.next.ending = .ok p.next.trace.toList) ∧
    (IsFatal c.instruction →
      p.next.machine.halted = true ∧
        p.next.ending = .error (Fault.mk c.address c.instruction).failure) := by
  obtain ⟨a, w, m, hr, -⟩ := step_ok hc
  constructor
  · intro hhalt
    have hfatal : ¬IsFatal c.instruction := fun hw => by
      cases hhalt.symm.trans (decode_of_isFatal hw)
    have hfault : p.next.fault = none := by
      rw [← Option.not_isSome_iff_eq_none, fault_next_iff hc (h.fault_of_running hr)]
      exact hfatal
    refine ⟨(halted_next_iff hc).mpr (Or.inl hhalt), ?_⟩
    rw [ending, hfault]
  · intro hw
    refine ⟨(halted_next_iff hc).mpr (Or.inr hw), ?_⟩
    rw [ending, fault_next_of_isFatal hc hw]

/-! ### Main statement -/

/-- **A run can be taken up after any steps that return.** A processor is switched on, anything is
done with it, and no request to stop is left. Let the next `n` steps return.

* A run after them is the rest of a run from before: with any allowance, and with `n` more for the
  run from before, both have the same outcome and leave the same processor.
* So both end, and in the same way, or both go on for ever.
* This is so, too, if the `n`-th step has halted the machine. If it was a call of the halt service,
  both return the trace; if it was a fatal word, both fail with the fault; and the run that is
  entered after the step changes nothing. -/
theorem run_resumes_after_steps (terminal : T) (alarm : Option Alarm) (journal : Journal)
    (limit : Option Int) (tracing : Bool) (depth : Nat) (session : List (Event T)) (n : Nat) :
    let p := (switchedOn terminal alarm journal limit tracing depth).afterSession session
    let q := next^[n] p
    p.machine.console.stop = false → p.Completes n →
      (∀ allowance, (run (n + allowance)).run p = (run allowance).run q) ∧
      (∀ r s, RunEnds p r s ↔ RunEnds q r s) ∧
      (p.RunsForever ↔ q.RunsForever) ∧
      ∀ k c, n = k + 1 → (step.run (next^[k] p)).1 = .ok c →
        (Instruction.decode c.instruction = .trap .halt →
          q.machine.halted = true ∧ RunEnds p (.ok q.trace.toList) q ∧
            (run 0).run q = (.ok (some q.trace.toList), q)) ∧
        (IsFatal c.instruction →
          q.machine.halted = true ∧
            RunEnds p (.error (Fault.mk c.address c.instruction).failure) q ∧
            (run 0).run q = (.error (Fault.mk c.address c.instruction).failure, q)) := by
  intro p q hstop hn
  have hp : p.IsUndisturbed := ⟨unguarded_afterSession rfl session, hstop⟩
  have hconsistent : p.IsConsistent :=
    (isConsistent_afterSession terminal alarm journal limit tracing depth session).1
  have hstops : ∀ j < n, (next^[j] p).machine.console.stop = false :=
    fun j _ => (hp.iterate j).unasked
  have hends : ∀ r s, RunEnds p r s ↔ RunEnds q r s :=
    fun r s => runEnds_iff_of_completes hstops hn
  refine ⟨run_add_of_completes hstops hn, hends, ?_, fun k c hk hc => ?_⟩
  · simp only [runsForever_iff, hends]
  · have hq : q = (next^[k] p).next :=
      (congrArg (next^[·] p) hk).trans (Function.iterate_succ_apply' next k p)
    obtain ⟨hhalt, hfatal⟩ := ending_of_halts (hconsistent.iterate k) hc
    rw [← hq] at hhalt hfatal
    constructor
    · intro hdecode
      obtain ⟨hhalted, hending⟩ := hhalt hdecode
      have hrun := run_of_halted hhalted 0
      rw [hending] at hrun
      exact ⟨hhalted, (hends _ _).mpr ⟨0, hrun⟩, hrun⟩
    · intro hw
      obtain ⟨hhalted, hending⟩ := hfatal hw
      have hrun := run_of_halted hhalted 0
      rw [hending] at hrun
      exact ⟨hhalted, (hends _ _).mpr ⟨0, hrun⟩, hrun⟩

/-- What is loaded into the processor below: an addition and the call of the halt service. -/
def additionAndHalt : List (Event ScriptedTerminal) :=
  [.directive (.access (.loadImage "addition" [0x30, 0x00, 0x10, 0x21, 0xF0, 0x25]))]

/-- A processor that will add one to `R0` and then halt. -/
def addsThenHalts : Processor ScriptedTerminal :=
  (switchedOn { keys := [] } none .silent none true 8).afterSession additionAndHalt

/-- After the addition a run does the rest. After both instructions it only looks at how it
ended. -/
theorem run_of_addsThenHalts :
    addsThenHalts.machine.console.stop = false ∧ addsThenHalts.Completes 2 ∧
      RunEnds addsThenHalts (.ok (next^[2] addsThenHalts).trace.toList) (next^[2] addsThenHalts) ∧
      RunEnds (next^[1] addsThenHalts) (.ok (next^[2] addsThenHalts).trace.toList)
        (next^[2] addsThenHalts) ∧
      (run 0).run (next^[2] addsThenHalts) =
        (.ok (some (next^[2] addsThenHalts).trace.toList), next^[2] addsThenHalts) := by
  have hcompletes : addsThenHalts.Completes 2 := by
    intro j hj
    rcases j with _ | _ | j
    · exact ⟨⟨0, 0x3000, 0x1021⟩, rfl⟩
    · exact ⟨⟨1, 0x3001, 0xF025⟩, rfl⟩
    · omega
  have hstop : addsThenHalts.machine.console.stop = false := rfl
  obtain ⟨-, hone, -⟩ := run_resumes_after_steps ({ keys := [] } : ScriptedTerminal) none .silent
    none true 8 additionAndHalt 1 hstop (hcompletes.mono (by decide))
  obtain ⟨-, -, -, htwo⟩ := run_resumes_after_steps ({ keys := [] } : ScriptedTerminal) none .silent
    none true 8 additionAndHalt 2 hstop hcompletes
  obtain ⟨-, hends, hrun⟩ := (htwo 1 ⟨1, 0x3001, 0xF025⟩ rfl rfl).1 (by decide)
  exact ⟨hstop, hcompletes, hends, (hone _ _).mp hends, hrun⟩

end LittleComputer.Processor
