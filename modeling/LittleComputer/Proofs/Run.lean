import LittleComputer.Proofs.Interrupt
import LittleComputer.Proofs.Step
import Mathlib.Logic.Function.Iterate

/-!
# Runs

A run is a loop of steps, and all that it does itself is to look at the machine
between two of them (`LittleComputer.Processor.boundary`). So a run is described by
the sequence of processors `next^[k] p` that the steps lead through.

A run that nobody asks to stop (`LittleComputer.Processor.IsUndisturbed`) ends in one of
two ways: it has completed some number of instructions and the machine has halted
(`LittleComputer.Processor.HaltsAt`), or it has completed some number and the next
one fails (`LittleComputer.Processor.FailsAt`). That these are all is
`LittleComputer.Processor.runEnds_iff`; a run that does neither goes on for ever, which
is to say that no allowance is enough for it. How a run ends does not depend on the
allowance (`LittleComputer.Processor.RunEnds.unique`).
-/

namespace LittleComputer.Processor

variable {T : Type}

/-! ### Between two steps -/

/-- No interrupt can reach the machine, and none has asked it to stop. -/
structure IsUndisturbed (p : Processor T) : Prop where
  unguarded : p.machine.console.guarded = false
  unasked : p.machine.console.stop = false

/-- What a run of a halted machine ends with: the fault that stopped it, or the trace. -/
def ending (p : Processor T) : Except Failure (List TraceEntry) :=
  match p.fault with
  | some f => .error f.failure
  | none => .ok p.trace.toList

theorem run_boundary_of_halted {p : Processor T} (h : p.machine.halted = true) :
    boundary.run p = (p.ending.map some, p) := by
  simp only [boundary, run_bind_of_ok (run_get p), h, if_true, ending]
  cases p.fault <;> rfl

theorem run_boundary_of_running {p : Processor T} (h : p.machine.halted = false)
    (hs : p.machine.console.stop = false) : boundary.run p = (.ok none, p) := by
  simp only [boundary, run_bind_of_ok (run_get p), h, hs, Bool.false_eq_true, if_false, run_pure]

theorem run_boundary_of_stop {p : Processor T} (h : p.machine.halted = false)
    (hs : p.machine.console.stop = true) :
    boundary.run p = (.error (.interrupted (some p.machine.registers.pc.toNat)),
      p.stopped.onConsole fun c => c.note (.stopped p.machine.registers.pc)) := by
  simp only [boundary, run_bind_of_ok (run_get p), h, hs, Bool.false_eq_true, if_false, if_true]
  rfl

/-- **The three things that happen between two steps**: a halted machine ends the run; one
that was asked to stop is stopped; otherwise nothing. -/
theorem boundary_cases (p : Processor T) :
    (p.machine.halted = true ∧ boundary.run p = (p.ending.map some, p)) ∨
    (p.machine.halted = false ∧ p.machine.console.stop = true ∧
      boundary.run p = (.error (.interrupted (some p.machine.registers.pc.toNat)),
        p.stopped.onConsole fun c => c.note (.stopped p.machine.registers.pc))) ∨
    (p.machine.halted = false ∧ p.machine.console.stop = false ∧
      boundary.run p = (.ok none, p)) := by
  cases h : p.machine.halted with
  | true => exact Or.inl ⟨rfl, run_boundary_of_halted h⟩
  | false =>
    cases hs : p.machine.console.stop with
    | true => exact Or.inr (Or.inl ⟨rfl, rfl, run_boundary_of_stop h hs⟩)
    | false => exact Or.inr (Or.inr ⟨rfl, rfl, run_boundary_of_running h hs⟩)

/-- A run that goes on at a boundary has found the machine running and not asked to stop. -/
theorem running_of_boundary {p q : Processor T} (h : boundary.run p = (.ok none, q)) :
    p.machine.halted = false ∧ p.machine.console.stop = false := by
  rcases boundary_cases p with ⟨-, hb⟩ | ⟨-, -, hb⟩ | ⟨hr, hs, -⟩
  · rw [hb] at h
    cases hend : p.ending <;> rw [hend] at h <;> cases h
  · cases hb.symm.trans h
  · exact ⟨hr, hs⟩

/-- No instruction is counted between two steps. -/
theorem cycles_boundary (p : Processor T) :
    (boundary.run p).2.machine.cycles = p.machine.cycles := by
  rcases boundary_cases p with ⟨-, hb⟩ | ⟨-, -, hb⟩ | ⟨-, -, hb⟩ <;> rw [hb]
  rfl

variable [Terminal T]

/-- What steps and the moments between them leave alone, a run leaves alone. -/
theorem keeps_run {γ : Type} {view : Processor T → γ} (hb : Keeps view boundary)
    (hs : Keeps view step) (allowance : Nat) : Keeps view (run allowance) := by
  induction allowance with
  | zero => exact hb
  | succ allowance ih =>
    refine hb.bind fun answer => ?_
    cases answer with
    | some trace => exact Keeps.pure view (some trace)
    | none => exact hs.bind fun _ => ih

/-- A guarded run is a run of the guarded processor, which is not guarded afterwards. -/
theorem run_guardedRun (allowance : Nat) (p : Processor T) :
    (guardedRun allowance).run p = (((run allowance).run (p.guarded true)).1,
      ((run allowance).run (p.guarded true)).2.guarded false) := rfl

/-! ### Steps in a row -/

/-- The processor after a step, whether it returned or failed. -/
def next (p : Processor T) : Processor T := (step.run p).2

/-- The first `k` steps complete an instruction each. -/
def Completes (p : Processor T) (k : Nat) : Prop := ∀ j < k, ∃ c, (step.run (next^[j] p)).1 = .ok c

theorem completes_zero (p : Processor T) : p.Completes 0 :=
  fun _ hj => absurd hj (Nat.not_lt_zero _)

theorem Completes.mono {p : Processor T} {j k : Nat} (h : p.Completes k) (hjk : j ≤ k) :
    p.Completes j := fun i hi => h i (Nat.lt_of_lt_of_le hi hjk)

/-- One instruction more at the end. -/
theorem completes_succ {p : Processor T} {k : Nat} :
    p.Completes (k + 1) ↔ p.Completes k ∧ ∃ c, (step.run (next^[k] p)).1 = .ok c := by
  constructor
  · exact fun h => ⟨h.mono (Nat.le_succ k), h k (Nat.lt_succ_self k)⟩
  · rintro ⟨h, hk⟩ j hj
    rcases Nat.lt_succ_iff_lt_or_eq.mp hj with hlt | rfl
    · exact h j hlt
    · exact hk

/-- One instruction more at the beginning. -/
theorem completes_succ' {p : Processor T} {k : Nat} :
    p.Completes (k + 1) ↔ (∃ c, (step.run p).1 = .ok c) ∧ p.next.Completes k := by
  constructor
  · intro h
    exact ⟨h 0 (Nat.succ_pos k), fun j hj => h (j + 1) (Nat.succ_lt_succ hj)⟩
  · rintro ⟨h₀, h⟩ j hj
    cases j with
    | zero => exact h₀
    | succ j => exact h j (Nat.lt_of_succ_lt_succ hj)

/-- A step that returns has counted one instruction. -/
theorem cycles_next {p : Processor T} {c : Cycle} (h : (step.run p).1 = .ok c) :
    p.next.machine.cycles = p.machine.cycles + 1 := by
  obtain ⟨a, w, m, -, -, ha, -, hs⟩ := step_ok h
  have hcount := Machine.cycles_attempt p.machine
  rw [ha] at hcount
  rw [next, hs]
  exact hcount

/-- A step that fails counts no instruction. -/
theorem cycles_of_step_error {p q : Processor T} {f : Failure} (h : step.run p = (.error f, q)) :
    q.machine.cycles = p.machine.cycles := by
  rcases step_cases p with ⟨-, hs⟩ | ⟨n, -, -, hs⟩ | ⟨g, m, -, -, ha, hs⟩ |
    ⟨a, w, m, -, -, -, hs⟩ <;> cases hs.symm.trans h
  · rfl
  · rfl
  · have hcycles := Machine.cycles_attempt p.machine
    rw [ha] at hcycles
    exact hcycles

/-- **As many instructions are counted as steps are completed.** -/
theorem Completes.cycles {p : Processor T} {k : Nat} (h : p.Completes k) :
    (next^[k] p).machine.cycles = p.machine.cycles + k := by
  induction k with
  | zero => rfl
  | succ k ih =>
    obtain ⟨hk, c, hc⟩ := completes_succ.mp h
    rw [Function.iterate_succ_apply', cycles_next hc, ih hk]
    rfl

theorem limit_next (p : Processor T) : p.next.limit = p.limit := by
  rcases step_cases p with ⟨-, hs⟩ | ⟨n, -, -, hs⟩ | ⟨f, m, -, -, -, hs⟩ |
    ⟨a, w, m, -, -, -, hs⟩ <;> rw [next, hs] <;> rfl

theorem limit_iterate (p : Processor T) (k : Nat) : (next^[k] p).limit = p.limit := by
  induction k with
  | zero => rfl
  | succ k ih => rw [Function.iterate_succ_apply', limit_next, ih]

/-! ### Nobody asks for a stop -/

/-- Whether interrupts are routed to the machine, and whether it was asked to stop,
which is of interest only if they are not. -/
def request (m : Machine T) : Bool × Bool :=
  (m.console.guarded, m.console.guarded || m.console.stop)

theorem keeps_request {α : Type} (c : Primitive α) : Keeps (request (T := T)) c.perform := by
  intro m
  cases c with
  | poll =>
    obtain ⟨hg, hs⟩ := m.console.strike_request .poll
    exact Prod.ext hg ((congrArg (· || _) hg).trans hs)
  | showByte b =>
    obtain ⟨hg, hs⟩ := m.console.strike_request .write
    exact Prod.ext hg ((congrArg (· || _) hg).trans hs)
  | readKey =>
    obtain ⟨hg, hs⟩ := m.console.strike_request .read
    have hread : (m.console.read).2.guarded = (m.console.strike .read).2.guarded ∧
        (m.console.read).2.stop = (m.console.strike .read).2.stop := by
      unfold Console.read
      simp only
      split <;> exact ⟨rfl, rfl⟩
    refine Prod.ext (hread.1.trans hg) ?_
    change ((m.console.read).2.guarded || (m.console.read).2.stop) = _
    rw [hread.1, hread.2, hg, hs]
    rfl
  | _ => rfl

/-- A step leaves alone what every primitive leaves alone, if that does not hang on whether
the machine has halted. -/
theorem keeps_step {γ : Type} {view : Machine T → γ}
    (h : ∀ α (c : Primitive α), Keeps view (c.perform (T := T)))
    (hhalt : ∀ m : Machine T, view { m with halted := true } = view m) :
    Keeps (fun p : Processor T => view p.machine) step := by
  intro p
  have hattempt := Machine.composed_attempt.keeps (fun α c _ => h α c) p.machine
  rcases step_cases p with ⟨-, hs⟩ | ⟨n, -, -, hs⟩ | ⟨f, m, -, -, ha, hs⟩ | ⟨a, w, m, -, -, ha, hs⟩
  · rw [hs]
  · rw [hs]
    exact hhalt p.machine
  · rw [ha] at hattempt
    rw [hs]
    exact hattempt
  · rw [ha] at hattempt
    rw [hs]
    exact hattempt

/-- **Without interrupts a machine is not asked to stop.** -/
theorem IsUndisturbed.next {p : Processor T} (h : p.IsUndisturbed) : p.next.IsUndisturbed := by
  have hstep : request p.next.machine = request p.machine :=
    keeps_step (fun _ => keeps_request) (fun _ => rfl) p
  obtain ⟨hg, hs⟩ := Prod.mk.inj hstep
  rw [hg, h.unguarded, h.unasked] at hs
  exact ⟨hg.trans h.unguarded, hs⟩

theorem keeps_request_run (allowance : Nat) :
    Keeps (fun p : Processor T => request p.machine) (run allowance) := by
  refine keeps_run (fun p => ?_) (keeps_step (fun _ => keeps_request) fun _ => rfl) allowance
  rcases boundary_cases p with ⟨-, hb⟩ | ⟨-, -, hb⟩ | ⟨-, -, hb⟩ <;> rw [hb]
  rfl

theorem IsUndisturbed.run {p : Processor T} (h : p.IsUndisturbed) (allowance : Nat) :
    ((Processor.run allowance).run p).2.IsUndisturbed := by
  obtain ⟨hg, hs⟩ := Prod.mk.inj (keeps_request_run allowance p)
  rw [hg, h.unguarded, h.unasked] at hs
  exact ⟨hg.trans h.unguarded, hs⟩

/-- Interrupts are routed to the machine after a run if they were before. -/
theorem keeps_guarded_run (allowance : Nat) :
    Keeps (fun p : Processor T => p.machine.console.guarded) (run allowance) :=
  fun p => congrArg Prod.fst (keeps_request_run allowance p)

theorem IsUndisturbed.iterate {p : Processor T} (h : p.IsUndisturbed) (k : Nat) :
    (Processor.next^[k] p).IsUndisturbed := by
  induction k with
  | zero => exact h
  | succ k ih =>
    rw [Function.iterate_succ_apply']
    exact ih.next

/-! ### How a run ends -/

/-- **A run ends** with a result or a failure, and leaves the processor `q`: some
allowance is enough for it. -/
def RunEnds (p : Processor T) (r : Except Failure (List TraceEntry)) (q : Processor T) : Prop :=
  ∃ allowance, (run allowance).run p = (r.map some, q)

/-- A run that ends at its first boundary takes no step. -/
theorem run_of_boundary {p q : Processor T} {r : Except Failure (List TraceEntry)}
    (h : boundary.run p = (r.map some, q)) (allowance : Nat) :
    (run allowance).run p = (r.map some, q) := by
  cases allowance with
  | zero => exact h
  | succ allowance =>
    rw [run, run_bind, h]
    cases r <;> rfl

/-- **A larger allowance does not change how a run ends.** -/
theorem run_of_le {p q : Processor T} {r : Except Failure (List TraceEntry)} {a b : Nat}
    (hab : a ≤ b) (h : (run a).run p = (r.map some, q)) : (run b).run p = (r.map some, q) := by
  induction a generalizing p b with
  | zero => exact run_of_boundary h b
  | succ a ih =>
    obtain ⟨b, rfl⟩ := Nat.exists_eq_succ_of_ne_zero (Nat.ne_zero_of_lt hab)
    rw [run, run_bind] at h ⊢
    rcases hb : boundary.run p with ⟨f | _ | trace, p'⟩ <;> rw [hb] at h
    · exact h
    · -- Neither run has ended, so both take the same step.
      change (step >>= fun _ => run a).run p' = _ at h
      change (step >>= fun _ => run b).run p' = _
      rw [run_bind] at h ⊢
      rcases hs : step.run p' with ⟨f | c, p''⟩ <;> rw [hs] at h
      · exact h
      · exact ih (Nat.le_of_succ_le_succ hab) h
    · exact h

theorem map_some_inj {ε α : Type} {r s : Except ε α} (h : r.map some = s.map some) : r = s := by
  cases r <;> cases s <;> cases h <;> rfl

/-- A run ends in one way at most. -/
theorem RunEnds.unique {p q q' : Processor T} {r r' : Except Failure (List TraceEntry)}
    (h : RunEnds p r q) (h' : RunEnds p r' q') : r = r' ∧ q = q' := by
  obtain ⟨a, ha⟩ := h
  obtain ⟨b, hb⟩ := h'
  have hmax := run_of_le (Nat.le_max_left a b) ha
  rw [run_of_le (Nat.le_max_right a b) hb] at hmax
  obtain ⟨hr, hq⟩ := Prod.mk.inj hmax
  exact ⟨(map_some_inj hr).symm, hq.symm⟩

/-- The first `k` instructions of a run are completed, and the machine has halted then. -/
def HaltsAt (p : Processor T) (k : Nat) : Prop :=
  p.Completes k ∧ (next^[k] p).machine.halted = true

/-- The first `k` instructions of a run are completed, the machine has not halted, and
the step after them fails. -/
def FailsAt (p : Processor T) (k : Nat) (f : Failure) (q : Processor T) : Prop :=
  p.Completes k ∧ (next^[k] p).machine.halted = false ∧ step.run (next^[k] p) = (.error f, q)

/-- A halted machine is not touched by a run. -/
theorem run_of_halted {p : Processor T} (h : p.machine.halted = true) (allowance : Nat) :
    (run allowance).run p = (p.ending.map some, p) :=
  run_of_boundary (run_boundary_of_halted h) allowance

/-- A machine that was asked to stop is stopped by a run, and nothing else happens. -/
theorem run_of_stop {p : Processor T} (h : p.machine.halted = false)
    (hs : p.machine.console.stop = true) (allowance : Nat) :
    (run allowance).run p = (.error (.interrupted (some p.machine.registers.pc.toNat)),
      p.stopped.onConsole fun c => c.note (.stopped p.machine.registers.pc)) :=
  run_of_boundary (r := .error (.interrupted (some p.machine.registers.pc.toNat)))
    (run_boundary_of_stop h hs) allowance

/-- While a machine is running and nobody asks it to stop, a run is a step and a run. -/
theorem run_succ_of_running {p : Processor T} (h : p.machine.halted = false)
    (hs : p.machine.console.stop = false) (allowance : Nat) :
    (run (allowance + 1)).run p =
      match step.run p with
      | (.ok _, q) => (run allowance).run q
      | (.error f, q) => (.error f, q) := by
  rw [run, run_bind_of_ok (run_boundary_of_running h hs)]
  change (step >>= fun _ => run allowance).run p = _
  rw [run_bind]
  rcases step.run p with ⟨_ | _, _⟩ <;> rfl

theorem RunEnds.of_halted {p : Processor T} (h : p.machine.halted = true) :
    RunEnds p p.ending p := ⟨0, run_of_halted h 0⟩

/-- A machine that was asked to stop is stopped before the next instruction. -/
theorem RunEnds.of_stop {p : Processor T} (h : p.machine.halted = false)
    (hs : p.machine.console.stop = true) :
    RunEnds p (.error (.interrupted (some p.machine.registers.pc.toNat)))
      (p.stopped.onConsole fun c => c.note (.stopped p.machine.registers.pc)) :=
  ⟨0, run_of_stop h hs 0⟩

theorem RunEnds.of_error {p q : Processor T} {f : Failure} (h : p.machine.halted = false)
    (hs : p.machine.console.stop = false) (hq : step.run p = (.error f, q)) :
    RunEnds p (.error f) q := by
  refine ⟨1, ?_⟩
  rw [run_succ_of_running h hs, hq]
  rfl

/-- **A run is its first instructions and the run after them**, if it is not asked to stop before
one of them: an allowance for the rest is, with these added, an allowance for the whole. -/
theorem run_add_of_completes {p : Processor T} {k : Nat}
    (hs : ∀ j < k, (Processor.next^[j] p).machine.console.stop = false) (hk : p.Completes k)
    (allowance : Nat) :
    (run (k + allowance)).run p = (run allowance).run (Processor.next^[k] p) := by
  induction k generalizing p with
  | zero => rw [Nat.zero_add, Function.iterate_zero_apply]
  | succ k ih =>
    obtain ⟨⟨c, hc⟩, hrest⟩ := completes_succ'.mp hk
    obtain ⟨a, w, m, hr, -, -, -, hstep⟩ := step_ok hc
    have hstops : ∀ j < k, (Processor.next^[j] p.next).machine.console.stop = false :=
      fun j hj => hs (j + 1) (Nat.succ_lt_succ hj)
    rw [Function.iterate_succ_apply, ← ih hstops hrest, Nat.succ_add,
      run_succ_of_running hr (hs 0 (Nat.succ_pos k)), Processor.next, hstep]

/-- **A run ends as it does after its first instructions**, if it is not asked to stop
before one of them. -/
theorem RunEnds.of_completes {p q : Processor T} {k : Nat} {r : Except Failure (List TraceEntry)}
    (hs : ∀ j < k, (Processor.next^[j] p).machine.console.stop = false) (hk : p.Completes k)
    (h : RunEnds (Processor.next^[k] p) r q) : RunEnds p r q := by
  obtain ⟨allowance, ha⟩ := h
  exact ⟨k + allowance, (run_add_of_completes hs hk allowance).trans ha⟩

theorem HaltsAt.runEnds {p : Processor T} {k : Nat} (hp : p.IsUndisturbed) (h : p.HaltsAt k) :
    RunEnds p (Processor.next^[k] p).ending (Processor.next^[k] p) :=
  RunEnds.of_completes (fun j _ => (hp.iterate j).unasked) h.1 (RunEnds.of_halted h.2)

theorem FailsAt.runEnds {p q : Processor T} {k : Nat} {f : Failure} (hp : p.IsUndisturbed)
    (h : p.FailsAt k f q) : RunEnds p (.error f) q :=
  RunEnds.of_completes (fun j _ => (hp.iterate j).unasked) h.1
    (RunEnds.of_error h.2.1 (hp.iterate k).unasked h.2.2)

/-- **What a run comes to**: it has completed some instructions, before each of which the
machine was not asked to stop; and then it is at a boundary, and that is all, or it fails in
the next instruction. -/
theorem run_cases (p : Processor T) (allowance : Nat) :
    ∃ k, p.Completes k ∧ (∀ j < k, (Processor.next^[j] p).machine.console.stop = false) ∧
      ((run allowance).run p = boundary.run (Processor.next^[k] p) ∨
        ∃ f, boundary.run (Processor.next^[k] p) = (.ok none, Processor.next^[k] p) ∧
          step.run (Processor.next^[k] p) = (.error f, Processor.next^[k + 1] p) ∧
          (run allowance).run p = (.error f, Processor.next^[k + 1] p)) := by
  have hzero : ∀ (p : Processor T), ∀ j < 0, (Processor.next^[j] p).machine.console.stop = false :=
    fun _ _ hj => absurd hj (Nat.not_lt_zero _)
  induction allowance generalizing p with
  | zero => exact ⟨0, completes_zero p, hzero p, Or.inl rfl⟩
  | succ allowance ih =>
    rcases boundary_cases p with ⟨hr, hb⟩ | ⟨hr, hs, hb⟩ | ⟨hr, hstop, hb⟩
    · exact ⟨0, completes_zero p, hzero p, Or.inl ((run_of_halted hr _).trans hb.symm)⟩
    · exact ⟨0, completes_zero p, hzero p, Or.inl ((run_of_stop hr hs _).trans hb.symm)⟩
    · rw [run_succ_of_running hr hstop]
      rcases hs : step.run p with ⟨f | c, q⟩
      · have hq : Processor.next p = q := by rw [Processor.next, hs]
        refine ⟨0, completes_zero p, hzero p, Or.inr ⟨f, hb, ?_, ?_⟩⟩
        · rw [← hq] at hs
          exact hs
        · rw [← hq]
          rfl
      · -- The first instruction is completed, and the rest of the run comes to the same.
        have hq : Processor.next p = q := by rw [Processor.next, hs]
        obtain ⟨k, hk, hstops, hend⟩ := ih p.next
        refine ⟨k + 1, completes_succ'.mpr ⟨⟨c, by rw [hs]⟩, hk⟩, fun j hj => ?_, ?_⟩
        · cases j with
          | zero => exact hstop
          | succ j => exact hstops j (Nat.lt_of_succ_lt_succ hj)
        · rw [hq] at hend
          simp only [Function.iterate_succ_apply, hq]
          exact hend

/-- **The two ways in which a run ends** if nobody asks it to stop. -/
theorem runEnds_iff {p q : Processor T} {r : Except Failure (List TraceEntry)}
    (hp : p.IsUndisturbed) :
    RunEnds p r q ↔
      (∃ k, p.HaltsAt k ∧ q = next^[k] p ∧ r = q.ending) ∨
        ∃ k f, p.FailsAt k f q ∧ r = .error f := by
  have hhalted : ∀ {p : Processor T}, p.machine.halted = true → ∀ allowance,
      (run allowance).run p = (r.map some, q) →
      ∃ k, p.HaltsAt k ∧ q = Processor.next^[k] p ∧ r = q.ending := by
    intro p hh allowance h
    rw [run_of_halted hh] at h
    obtain ⟨hr, rfl⟩ := Prod.mk.inj h
    exact ⟨0, ⟨completes_zero p, hh⟩, rfl, map_some_inj hr.symm⟩
  constructor
  · rintro ⟨allowance, h⟩
    induction allowance generalizing p with
    | zero =>
      cases hh : p.machine.halted with
      | true => exact Or.inl (hhalted hh 0 h)
      | false =>
        rw [run, run_boundary_of_running hh hp.unasked] at h
        cases r <;> cases h
    | succ allowance ih =>
      cases hh : p.machine.halted with
      | true => exact Or.inl (hhalted hh _ h)
      | false =>
        rw [run_succ_of_running hh hp.unasked] at h
        rcases hs : step.run p with ⟨f | c, p'⟩ <;> rw [hs] at h
        · -- the very first step fails
          cases r with
          | ok trace => cases h
          | error e =>
            cases h
            exact Or.inr ⟨0, f, ⟨completes_zero p, hh, hs⟩, rfl⟩
        · -- the first step is completed, and the rest of the run ends in one of the two ways
          have hc : ∃ c, (step.run p).1 = .ok c := ⟨c, by rw [hs]⟩
          have hnext : p.next = p' := by rw [next, hs]
          rw [← hnext] at h
          rcases ih hp.next h with ⟨k, hk, hq, hr⟩ | ⟨k, e, hk, hr⟩
          · exact Or.inl ⟨k + 1, ⟨completes_succ'.mpr ⟨hc, hk.1⟩, hk.2⟩, hq, hr⟩
          · exact Or.inr ⟨k + 1, e, ⟨completes_succ'.mpr ⟨hc, hk.1⟩, hk.2⟩, hr⟩
  · rintro (⟨k, hk, rfl, rfl⟩ | ⟨k, f, hk, rfl⟩)
    · exact hk.runEnds hp
    · exact hk.runEnds hp

end LittleComputer.Processor
