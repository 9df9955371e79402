import LittleComputer.Proofs.Session

/-!
# The life of a machine

From one reset to the next a machine only ages. Once it has halted it stays so, the number of
instructions grows, and a fault is never taken back (`LittleComputer.Processor.Ages`). Five things
say where a machine is in its life – whether it has halted, its fault, whether it was asked to
stop, the number of instructions, and the trace – and they are written to in different places; so
the laws between them are not those of one place but an invariant,
`LittleComputer.Processor.IsConsistent`. The one that matters most is that a fault is remembered of
a halted machine only: no step is taken on one, so no later word can take its place.

The main statement is `LittleComputer.Processor.machine_only_ages`.
-/

namespace LittleComputer.Processor

variable {T : Type} [Terminal T] {p q r : Processor T}

/-! ### Counting -/

/-- A step counts one instruction if it returns, and none if it fails. -/
theorem cycles_next_eq (p : Processor T) :
    p.next.machine.cycles = p.machine.cycles + if p.stepReturns then 1 else 0 := by
  rcases hs : step.run p with ⟨f | c, q⟩
  · rw [stepReturns, next, hs]
    exact cycles_of_step_error hs
  · have hc : (step.run p).1 = .ok c := by rw [hs]
    rw [stepReturns, hc]
    exact cycles_next hc

/-- A run counts the steps that return. -/
theorem cycles_course (allowance : Nat) (p : Processor T) :
    ((run allowance).run p).2.machine.cycles =
      p.machine.cycles + (p.course allowance).countP stepReturns := by
  induction allowance, p using run_induction with
  | boundary n p hcourse hrun =>
    rw [hrun, hcourse, cycles_boundary]
    rfl
  | failed n p f hs hcourse hrun =>
    rw [hrun, hcourse, cycles_next_eq, List.countP_singleton]
  | returned n p c hs hcourse hrun ih =>
    rw [hrun, hcourse, ih, cycles_next_eq, List.countP_cons]
    omega

/-- **A directive counts the steps that return**, one instruction for each of them, and nothing
else. -/
theorem cycles_after {d : Directive T} (hd : d ≠ .reset) (p : Processor T) :
    (d.after p).machine.cycles = p.machine.cycles + (d.course p).countP stepReturns := by
  cases d with
  | access a =>
    exact a.composed_perform.keeps (fun _ c hc => Machine.keeps_cycles c hc.2) p.machine
  | step => rw [Directive.after_step, Directive.course, cycles_next_eq, List.countP_singleton]
  | run allowance =>
    rw [Directive.after_run]
    exact cycles_course allowance p
  | guardedRun allowance =>
    rw [Directive.after_guardedRun, Directive.after_run]
    exact cycles_course allowance (p.guarded true)
  | requestStop | interrupt | terminal => rfl
  | reset => exact absurd rfl hd

/-! ### Consistency -/

/-- **What is true of a machine at every point of its life**: a fault has halted it, and no more
instructions were carried out than the limit allows. -/
structure IsConsistent (p : Processor T) : Prop where
  halted : ∀ f, p.fault = some f → p.machine.halted = true
  cycles_le : ∀ n, p.limit = some n → 0 ≤ n → (p.machine.cycles : Int) ≤ n

omit [Terminal T] in
theorem IsConsistent.fault_of_running (h : p.IsConsistent) (hr : p.machine.halted = false) :
    p.fault = none := by
  by_contra hne
  obtain ⟨f, hf⟩ := Option.ne_none_iff_exists'.mp hne
  cases hr.symm.trans (h.halted f hf)

theorem IsConsistent.next (h : p.IsConsistent) : p.next.IsConsistent := by
  rcases step_cases p with ⟨-, hs⟩ | ⟨n, -, -, hs⟩ | ⟨f, m, hr, -, ha, hs⟩ |
    ⟨a, w, m, hr, hn, ha, hs⟩
  · rw [Processor.next, hs]
    exact h
  · rw [Processor.next, hs]
    exact ⟨fun _ _ => rfl, h.cycles_le⟩
  · -- The machine was running, so there is no fault, and a step that fails leaves none.
    have hcycles := cycles_of_step_error hs
    rw [Processor.next, hs]
    refine ⟨fun g hg => ?_, fun n hlimit hn => ?_⟩
    · cases (h.fault_of_running hr).symm.trans hg
    · rw [hcycles]
      exact h.cycles_le n hlimit hn
  · have hc : (step.run p).1 = .ok ⟨p.machine.cycles, a, w⟩ := by rw [hs]
    have hfatal := fault_next_iff hc (h.fault_of_running hr)
    refine ⟨fun g hg => ?_, fun n hlimit _ => ?_⟩
    · -- The word that has left the fault has stopped the machine too.
      have hw := hfatal.mp (Option.isSome_iff_exists.mpr ⟨g, hg⟩)
      exact (halted_next_iff hc).mpr (Or.inr hw)
    · -- The step was allowed, so one instruction more was still within the limit.
      have hlt := reachedLimit_eq_none_iff.mp hn n ((limit_next p).symm.trans hlimit)
      rw [cycles_next hc]
      omega

theorem isInvariant_isConsistent : IsInvariant (IsConsistent (T := T)) where
  next := IsConsistent.next
  stopped h := ⟨fun _ _ => rfl, h.cycles_le⟩
  withMachine h hhalted hcycles :=
    ⟨fun f hf => hhalted.trans (h.halted f hf),
      fun n hlimit hn => hcycles ▸ h.cycles_le n hlimit hn⟩

/-! ### Ageing -/

/-- **A machine ages**: it has still halted if it had, no instruction is uncounted, a fault is
still there, and the limit is the same. -/
structure Ages (p q : Processor T) : Prop where
  halted : p.machine.halted = true → q.machine.halted = true
  cycles : p.machine.cycles ≤ q.machine.cycles
  fault : ∀ f, p.fault = some f → q.fault = some f
  limit : q.limit = p.limit

omit [Terminal T] in
theorem Ages.refl (p : Processor T) : p.Ages p := ⟨id, Nat.le_refl _, fun _ => id, rfl⟩

omit [Terminal T] in
theorem Ages.trans (hpq : p.Ages q) (hqr : q.Ages r) : p.Ages r :=
  ⟨hqr.halted ∘ hpq.halted, Nat.le_trans hpq.cycles hqr.cycles, fun f => hqr.fault f ∘ hpq.fault f,
    hqr.limit.trans hpq.limit⟩

theorem IsConsistent.ages_next (h : p.IsConsistent) : p.Ages p.next := by
  cases hr : p.machine.halted with
  | true =>
    rw [next_of_halted hr]
    exact .refl p
  | false =>
    -- On a running machine there is nothing yet that could be taken back.
    refine ⟨fun hh => ?_, ?_, fun f hf => ?_, limit_next p⟩
    · cases hr.symm.trans hh
    · rw [cycles_next_eq]
      exact Nat.le_add_right _ _
    · cases (h.fault_of_running hr).symm.trans hf

/-- **All that is later in the life of a machine is older.** -/
theorem isInvariant_ages (p : Processor T) : IsInvariant fun q => q.IsConsistent ∧ p.Ages q where
  next h := ⟨h.1.next, h.2.trans h.1.ages_next⟩
  stopped h :=
    ⟨isInvariant_isConsistent.stopped h.1,
      h.2.trans ⟨fun _ => rfl, Nat.le_refl _, fun _ => id, rfl⟩⟩
  withMachine h hhalted hcycles :=
    ⟨isInvariant_isConsistent.withMachine h.1 hhalted hcycles,
      h.2.trans ⟨hhalted.trans, Nat.le_of_eq hcycles.symm, fun _ => id, rfl⟩⟩

/-- A machine that was switched on stays consistent and keeps its limit, whatever is done with
it. -/
theorem isConsistent_afterSession (terminal : T) (alarm : Option Alarm) (journal : Journal)
    (limit : Option Int) (tracing : Bool) (depth : Nat) (session : List (Event T)) :
    let p := (switchedOn terminal alarm journal limit tracing depth).afterSession session
    p.IsConsistent ∧ p.limit = limit := by
  have hinvariant : IsInvariant fun p : Processor T => p.IsConsistent ∧ p.limit = limit :=
    { next := fun h => ⟨h.1.next, (limit_next _).trans h.2⟩
      stopped := fun h => ⟨isInvariant_isConsistent.stopped h.1, h.2⟩
      withMachine := fun h hh hc => ⟨isInvariant_isConsistent.withMachine h.1 hh hc, h.2⟩ }
  have hfresh : ∀ {p : Processor T}, p.fault = none → p.machine.cycles = 0 → p.IsConsistent := by
    intro p hfault hcycles
    refine ⟨fun f hf => ?_, fun n _ hn => ?_⟩
    · cases hfault.symm.trans hf
    · rw [hcycles]
      exact hn
  exact hinvariant.session ⟨hfresh rfl rfl, rfl⟩ fun _ _ h => ⟨hfresh rfl rfl, h.2⟩

/-! ### Halted and stopped machines -/

omit [Terminal T] in
theorem guarded_of_unguarded (h : p.machine.console.guarded = false) : p.guarded false = p := by
  rw [guarded, onConsole, ← h]

/-- A guarded run of a halted machine is a look at how it ended. -/
theorem run_guardedRun_of_halted (hp : p.machine.console.guarded = false)
    (h : p.machine.halted = true) (allowance : Nat) :
    (guardedRun allowance).run p = (p.ending.map some, p) := by
  have hrun := run_of_halted (p := p.guarded true) h allowance
  rw [run_guardedRun, hrun]
  exact congrArg (p.ending.map some, ·) (guarded_of_unguarded hp)

/-- A guarded run of a machine that was asked to stop stops it. -/
theorem run_guardedRun_of_stop (hp : p.machine.console.guarded = false)
    (h : p.machine.halted = false) (hs : p.machine.console.stop = true) (allowance : Nat) :
    (guardedRun allowance).run p = (.error (.interrupted (some p.machine.registers.pc.toNat)),
      p.stopped.onConsole fun c => c.note (.stopped p.machine.registers.pc)) := by
  have hrun := run_of_stop (p := p.guarded true) h hs allowance
  have hafter : ((p.guarded true).stopped.onConsole fun c =>
      c.note (.stopped p.machine.registers.pc)).guarded false =
        (p.guarded false).stopped.onConsole fun c => c.note (.stopped p.machine.registers.pc) := rfl
  rw [guarded_of_unguarded hp] at hafter
  rw [run_guardedRun, hrun, ← hafter]
  rfl

/-- A machine that was asked to stop takes no step in a run. -/
theorem course_of_stop (h : p.machine.halted = false) (hs : p.machine.console.stop = true)
    (allowance : Nat) : p.course allowance = [] := by
  cases allowance with
  | zero => rfl
  | succ allowance => rw [course, run_boundary_of_stop h hs]

/-! ### Main statement -/

/-- **From one reset to the next a machine only ages.** A processor is switched on, and `before`
is done with it, whatever that is; then `later` follows, in which there is no reset.

* What has halted stays halted. The number of instructions does not decrease, and a limit that
  is not negative is never exceeded.
* A fault that is there stays as it is, and the machine has halted if there is one.
* A directive counts an instruction for each of its steps that returns, and none for one that
  fails.
* On a halted machine a step fails, and a run, guarded or not, fails with the fault if there is
  one and returns the trace if there is none. Neither changes anything.
* On a machine that is running and was asked to stop, a run takes no step. It stops the machine,
  leaves a notice, changes nothing else, and fails with the program counter. -/
theorem machine_only_ages (terminal : T) (alarm : Option Alarm) (journal : Journal)
    (limit : Option Int) (tracing : Bool) (depth : Nat) (before later : List (Event T))
    (hlater : .directive .reset ∉ later) :
    let p := (switchedOn terminal alarm journal limit tracing depth).afterSession before
    let q := p.afterSession later
    ((p.machine.halted = true → q.machine.halted = true) ∧
      p.machine.cycles ≤ q.machine.cycles ∧
      ∀ n, limit = some n → 0 ≤ n → (q.machine.cycles : Int) ≤ n) ∧
    ((∀ f, p.fault = some f → q.fault = some f) ∧
      ∀ f, q.fault = some f → q.machine.halted = true) ∧
    (∀ d : Directive T, d ≠ .reset →
      (d.after q).machine.cycles = q.machine.cycles + (d.course q).countP stepReturns) ∧
    (q.machine.halted = true →
      step.run q = (.error (.misuse .notRunning), q) ∧
      ∀ allowance,
        (∀ f, q.fault = some f → (run allowance).run q = (.error f.failure, q) ∧
          (guardedRun allowance).run q = (.error f.failure, q)) ∧
        (q.fault = none → (run allowance).run q = (.ok (some q.trace.toList), q) ∧
          (guardedRun allowance).run q = (.ok (some q.trace.toList), q))) ∧
    (q.machine.halted = false → q.machine.console.stop = true → ∀ allowance,
      let failure : Failure := .interrupted (some q.machine.registers.pc.toNat)
      let halted := q.stopped.onConsole fun c => c.note (.stopped q.machine.registers.pc)
      q.course allowance = [] ∧ (q.guarded true).course allowance = [] ∧
        (run allowance).run q = (.error failure, halted) ∧
        (guardedRun allowance).run q = (.error failure, halted)) := by
  intro p q
  obtain ⟨hp, hlimit⟩ := isConsistent_afterSession terminal alarm journal limit tracing depth before
  obtain ⟨hq, hages⟩ : q.IsConsistent ∧ p.Ages q :=
    (isInvariant_ages p).session ⟨hp, .refl p⟩ fun h => absurd h hlater
  have hguarded : q.machine.console.guarded = false :=
    unguarded_afterSession (unguarded_afterSession rfl before) later
  refine ⟨⟨hages.halted, hages.cycles, fun n hn => ?_⟩, ⟨hages.fault, hq.halted⟩,
    fun d hd => cycles_after hd q, fun hh => ?_, fun hr hs allowance => ?_⟩
  · exact hq.cycles_le n (hages.limit.trans (hlimit.trans hn))
  · refine ⟨run_step_of_halted hh, fun allowance => ?_⟩
    rw [run_of_halted hh, run_guardedRun_of_halted hguarded hh, ending]
    constructor
    · intro f hf
      rw [hf]
      exact ⟨rfl, rfl⟩
    · intro hf
      rw [hf]
      exact ⟨rfl, rfl⟩
  · refine ⟨course_of_stop hr hs allowance, ?_, run_of_stop hr hs allowance,
      run_guardedRun_of_stop hguarded hr hs allowance⟩
    exact course_of_stop (p := q.guarded true) hr hs allowance

/-- A machine that has met a fatal word, and what is done with it afterwards. -/
def meetsFault : Processor ScriptedTerminal :=
  (switchedOn { keys := [0x41] } none .silent (some 5) true 8).afterSession
    [.directive (.access (.loadImage "fatal" [0x30, 0x00, 0x80, 0x00])), .directive .step]

/-- After that it makes no difference that it is asked to stop, that the word is replaced, and
that it is told to go on: the fault is still the same, and a run reports it. -/
theorem fault_outlasts_session :
    let later : List (Event ScriptedTerminal) := [.directive .requestStop,
      .directive (.access (.writeCell 0x3000 0xF025)), .directive .step, .directive (.run 3)]
    let q := meetsFault.afterSession later
    .directive .reset ∉ later ∧ q.machine.halted = true ∧ q.fault = some ⟨0x3000, 0x8000⟩ ∧
      (q.machine.cycles : Int) ≤ 5 ∧
      (run 3).run q = (.error (Fault.mk 0x3000 0x8000).failure, q) := by
  intro later q
  have hlater : .directive .reset ∉ later := by simp [later]
  have hhalted : meetsFault.machine.halted = true := by decide
  have hfault : meetsFault.fault = some ⟨0x3000, 0x8000⟩ := by decide
  obtain ⟨⟨hages, -, hlimit⟩, ⟨hstill, -⟩, -, hrun, -⟩ := machine_only_ages
    ({ keys := [0x41] } : ScriptedTerminal) none .silent (some 5) true 8
    [.directive (.access (.loadImage "fatal" [0x30, 0x00, 0x80, 0x00])), .directive .step] later
    hlater
  have hq : q.fault = some ⟨0x3000, 0x8000⟩ := hstill _ hfault
  exact ⟨hlater, hages hhalted, hq, hlimit 5 rfl (by decide),
    (((hrun (hages hhalted)).2 3).1 _ hq).1⟩

end LittleComputer.Processor
