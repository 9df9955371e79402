import LittleComputer.Processor.Basic
import LittleComputer.Proofs.Composition

/-!
# One instruction

Between the checks that `LittleComputer.Processor.step` makes beforehand and the
entry that it leaves in the trace lies what happens on the machine alone:
`LittleComputer.Machine.attempt`, a composed action. Either it is completed or it
fails part way, and the two are told apart by its outcome
(`LittleComputer.Machine.attempt_ok`, `LittleComputer.Machine.attempt_error`). An
instruction is counted exactly when it is completed
(`LittleComputer.Machine.cycles_attempt`).

On the processor a step ends in one of four ways, which
`LittleComputer.Processor.step_cases` lists; nothing else has to be known of a step.
-/

namespace LittleComputer

/-! ### On the machine -/

namespace Machine

variable {T : Type}

/-- The machine with a result in a general register, and its flag in the condition
register. -/
def assigned (m : Machine T) (dest : Reg) (value : Word) : Machine T :=
  { m with
    registers := (m.registers.write (.general dest) value).write .cond (Flag.ofWord value).code }

theorem run_assign (dest : Reg) (value : Word) (m : Machine T) :
    (assign dest value).run m = (.ok (), m.assigned dest value) := rfl

theorem run_note (n : Notice) (m : Machine T) :
    (note n).run m = (.ok (), { m with console := m.console.note n }) := rfl

variable [Terminal T]

theorem run_fetch_of_ok {m m' : Machine T} {instruction : Word}
    (h : (readCell m.registers.pc).run m = (.ok instruction, m')) :
    fetch.run m = (.ok (m.registers.pc, instruction),
      { m' with registers := m'.registers.write .pc (m.registers.pc + 1) }) :=
  run_bind_of_ok h _

theorem run_fetch_of_error {m m' : Machine T} {f : Failure}
    (h : (readCell m.registers.pc).run m = (.error f, m')) : fetch.run m = (.error f, m') :=
  run_bind_of_error h _

/-- **A fetch that returns** has read the cell at the program counter, and has moved the
program counter past it. -/
theorem fetch_ok {m m₁ : Machine T} {address instruction : Word}
    (h : fetch.run m = (.ok (address, instruction), m₁)) :
    address = m.registers.pc ∧ ∃ m', (readCell address).run m = (.ok instruction, m') ∧
      m₁ = { m' with registers := m'.registers.write .pc (address + 1) } := by
  rcases hr : (readCell m.registers.pc).run m with ⟨f | w, m'⟩
  · rw [run_fetch_of_error hr] at h
    cases h
  · rw [run_fetch_of_ok hr] at h
    cases h
    exact ⟨rfl, m', hr, rfl⟩

/-- A branch carries out nothing but the assignment of the program counter, if that. -/
theorem run_branch (cond : BitVec 3) (offset : BitVec 9) (m : Machine T) :
    (effect (.br cond offset)).run m =
      (.ok (), if cond.setWidth 16 &&& m.registers.cond ≠ 0 then
        { m with registers :=
            m.registers.write .pc (m.registers.pc + Field.extended offset) } else m) := by
  change (if cond.setWidth 16 &&& m.registers.cond ≠ 0 then
      (relativeTo (Field.extended offset) >>= writeSlot .pc : Action T Unit) else pure ()).run m = _
  split <;> rfl

theorem run_execute_of_ok {i : Instruction} {m m' : Machine T}
    (h : (effect i).run m = (.ok (), m')) :
    (execute i).run m = (.ok (), { m' with cycles := m'.cycles + 1 }) := by
  rw [execute_eq, run_bind_of_ok h]
  rfl

theorem run_execute_of_error {i : Instruction} {m m' : Machine T} {f : Failure}
    (h : (effect i).run m = (.error f, m')) : (execute i).run m = (.error f, m') := by
  rw [execute_eq, run_bind_of_error h]

/-- An instruction as far as it is a matter of the machine alone: fetch a word and
carry it out, with the notices of both. -/
def attempt : Action T (Word × Word) := do
  let (address, instruction) ← fetch
  note (.fetched address instruction)
  execute (Instruction.decode instruction)
  if (Instruction.decode instruction).defect?.isSome then note (.faulted ⟨address, instruction⟩)
  return (address, instruction)

/-- The machine after an instruction that has run to its end in the state `m`: it is
counted, and a notice left of a word that was no instruction. -/
def settled (m : Machine T) (address instruction : Word) : Machine T :=
  { m with
    cycles := m.cycles + 1
    console :=
      if (Instruction.decode instruction).defect?.isSome then
        m.console.note (.faulted ⟨address, instruction⟩)
      else m.console }

/-- The machine as an instruction finds it that was fetched in the state `m`. -/
def announced (m : Machine T) (address instruction : Word) : Machine T :=
  { m with console := m.console.note (.fetched address instruction) }

omit [Terminal T] in
theorem terminal_settled (m : Machine T) (address instruction : Word) :
    (m.settled address instruction).console.terminal = m.console.terminal := by
  unfold settled
  split <;> rfl

omit [Terminal T] in
@[simp] theorem announced_registers (m : Machine T) (address instruction : Word) :
    (m.announced address instruction).registers = m.registers := rfl

theorem run_attempt_of_fetched {m m₁ : Machine T} {address instruction : Word}
    (h : fetch.run m = (.ok (address, instruction), m₁)) :
    attempt.run m =
      match (effect (Instruction.decode instruction)).run (m₁.announced address instruction) with
      | (.ok _, m₂) => (.ok (address, instruction), m₂.settled address instruction)
      | (.error f, m₂) => (.error f, m₂) := by
  rw [attempt, run_bind_of_ok h, run_bind_of_ok (run_note _ _)]
  rcases he : (effect (Instruction.decode instruction)).run (m₁.announced address instruction) with
    ⟨f | _, m₂⟩
  · exact run_bind_of_error (run_execute_of_error he) _
  · refine (run_bind_of_ok (run_execute_of_ok he) _).trans ?_
    simp only [settled]
    split <;> rfl

/-- Once its word was fetched, what an instruction does to the terminal is its effect. -/
theorem terminal_attempt {m m₁ : Machine T} {address w : Word}
    (h : fetch.run m = (.ok (address, w), m₁)) :
    (attempt.run m).2.console.terminal =
      ((effect (Instruction.decode w)).run (m₁.announced address w)).2.console.terminal := by
  rw [run_attempt_of_fetched h]
  rcases (effect (Instruction.decode w)).run (m₁.announced address w) with ⟨f | _, m₂⟩
  · rfl
  · exact terminal_settled m₂ address w

/-- **An instruction that is completed** was fetched at the program counter, and its
effect was carried out to the end. -/
theorem attempt_ok {m m' : Machine T} {address instruction : Word}
    (h : attempt.run m = (.ok (address, instruction), m')) :
    ∃ m₁ m₂, fetch.run m = (.ok (address, instruction), m₁) ∧
      (effect (Instruction.decode instruction)).run (m₁.announced address instruction) =
        (.ok (), m₂) ∧
      m' = m₂.settled address instruction := by
  rcases hf : fetch.run m with ⟨f | ⟨a, w⟩, m₁⟩
  · rw [attempt, run_bind_of_error hf] at h
    cases h
  · rw [run_attempt_of_fetched hf] at h
    rcases he : (effect (Instruction.decode w)).run (m₁.announced a w) with ⟨f | _, m₂⟩ <;>
      rw [he] at h <;> cases h
    exact ⟨m₁, m₂, rfl, he, rfl⟩

/-- **An instruction that fails** fails in the fetch or in its effect, and leaves the
machine as it was at that point. -/
theorem attempt_error {m m' : Machine T} {f : Failure} (h : attempt.run m = (.error f, m')) :
    fetch.run m = (.error f, m') ∨
      ∃ address instruction m₁, fetch.run m = (.ok (address, instruction), m₁) ∧
        (effect (Instruction.decode instruction)).run (m₁.announced address instruction) =
          (.error f, m') := by
  rcases hf : fetch.run m with ⟨g | ⟨a, w⟩, m₁⟩
  · rw [attempt, run_bind_of_error hf] at h
    exact Or.inl h
  · rw [run_attempt_of_fetched hf] at h
    rcases he : (effect (Instruction.decode w)).run (m₁.announced a w) with ⟨g | _, m₂⟩ <;>
      rw [he] at h <;> cases h
    exact Or.inr ⟨a, w, m₁, rfl, he⟩

/-! ### An instruction is composed -/

theorem mild_fetch : Mild fun T _ => fetch (T := T) := by
  unfold fetch
  refine .next (.single (.readSlot .pc) trivial) fun address => ?_
  refine .next (mild_readCell address) fun instruction => ?_
  refine .next (.single (.writeSlot .pc (address + 1)) Slot.noConfusion) fun _ => ?_
  exact .done (address, instruction)

theorem composed_execute (i : Instruction) :
    Composed (fun _ _ => True) fun T _ => execute (T := T) i := by
  simp only [execute_eq]
  refine .next ((composed_effect i).mono fun _ _ _ => trivial) fun _ => ?_
  exact .single .countCycle trivial

/-- **An instruction as a whole is composed.** -/
theorem composed_attempt : Composed (fun _ _ => True) fun T _ => attempt (T := T) := by
  unfold attempt
  refine .next (mild_fetch.mono fun _ _ _ => trivial) fun (address, instruction) => ?_
  refine .next (.single (.note (.fetched address instruction)) trivial) fun _ => ?_
  refine .next (composed_execute _) fun _ => ?_
  refine .ite (fun _ => ?_) fun _ => .done (address, instruction)
  refine .next (.single (.note (.faulted ⟨address, instruction⟩)) trivial) fun _ => ?_
  exact .done (address, instruction)

/-! ### Counting -/

theorem keeps_cycles {α : Type} (c : Primitive α) (h : c.IsUncounted) :
    Keeps Machine.cycles (c.perform (T := T)) := by
  intro m
  cases c with
  | countCycle => cases h
  | _ => rfl

/-- **An instruction is counted exactly when it is completed.** -/
theorem cycles_attempt (m : Machine T) :
    (attempt.run m).2.cycles = m.cycles + if (attempt.run m).1.toBool then 1 else 0 := by
  have hfetch : Keeps Machine.cycles (fetch (T := T)) :=
    mild_fetch.keeps fun _ c hc => keeps_cycles c hc.isPlain.isUncounted
  have heffect : ∀ i, Keeps Machine.cycles (effect (T := T) i) := fun i =>
    (composed_effect i).keeps fun _ c hc => keeps_cycles c hc
  rcases h : attempt.run m with ⟨f | ⟨a, w⟩, m'⟩
  · rcases attempt_error h with hf | ⟨a, w, m₁, hf, he⟩
    · have := hfetch m
      rw [hf] at this
      exact this
    · have h₁ := hfetch m
      have h₂ := heffect (Instruction.decode w) (m₁.announced a w)
      rw [hf] at h₁
      rw [he] at h₂
      exact h₂.trans h₁
  · obtain ⟨m₁, m₂, hf, he, rfl⟩ := attempt_ok h
    have h₁ := hfetch m
    have h₂ := heffect (Instruction.decode w) (m₁.announced a w)
    rw [hf] at h₁
    rw [he] at h₂
    exact congrArg (· + 1) (h₂.trans h₁)

end Machine

/-! ### On the processor -/

namespace Processor

variable {T : Type}

/-- The processor with its machine stopped. -/
def stopped (p : Processor T) : Processor T :=
  { p with machine := { p.machine with halted := true } }

/-- The processor after an instruction that was completed with the machine `m`: a word
that is no instruction is its fault, and a trace, if one is kept, has one more entry. -/
def completed (p : Processor T) (m : Machine T) (address instruction : Word) : Processor T :=
  let cycle : Cycle := ⟨p.machine.cycles, address, instruction⟩
  { p with
    machine := m
    fault := if cycle.defect?.isSome then some ⟨address, instruction⟩ else p.fault
    trace :=
      if p.tracing then p.trace.push ⟨cycle, p.machine.snapshot, m.snapshot⟩ else p.trace }

theorem run_onMachine {α : Type} (a : LittleComputer.Action T α) (p : Processor T) :
    (onMachine a).run p = ((a.run p.machine).1, { p with machine := (a.run p.machine).2 }) := rfl

theorem run_onMachine_of_ok {α : Type} {a : LittleComputer.Action T α} {p : Processor T} {x : α}
    {m : Machine T} (h : a.run p.machine = (.ok x, m)) :
    (onMachine a).run p = (.ok x, { p with machine := m }) := by
  rw [run_onMachine, h]

theorem run_onMachine_of_error {α : Type} {a : LittleComputer.Action T α} {p : Processor T}
    {f : Failure} {m : Machine T} (h : a.run p.machine = (.error f, m)) :
    (onMachine a).run p = (.error f, { p with machine := m }) := by
  rw [run_onMachine, h]

theorem run_blame (f : Fault) (p : Processor T) :
    (blame f).run p =
      (.ok (), { p with
        fault := some f
        machine := { p.machine with console := p.machine.console.note (.faulted f) } }) := rfl

theorem run_remember (cycle : Cycle) (before : Snapshot) (p : Processor T) :
    (remember cycle before).run p =
      (.ok (), { p with
        trace :=
          if p.tracing then p.trace.push ⟨cycle, before, p.machine.snapshot⟩ else p.trace }) := by
  rw [remember, run_modify]
  split <;> rfl

variable [Terminal T]

theorem run_step_of_halted {p : Processor T} (h : p.machine.halted = true) :
    step.run p = (.error (.misuse .notRunning), p) := by
  simp only [step, run_bind, run_get, h, if_true, run_throw]

theorem run_step_of_limit {p : Processor T} {n : Int} (h : p.machine.halted = false)
    (hn : p.reachedLimit = some n) : step.run p = (.error (.cycleLimit n), p.stopped) := by
  simp only [step, run_bind, run_get, h, hn]
  rfl

theorem run_step_of_error {p : Processor T} {f : Failure} {m : Machine T}
    (h : p.machine.halted = false) (hn : p.reachedLimit = none)
    (ha : Machine.attempt.run p.machine = (.error f, m)) :
    step.run p = (.error f, { p with machine := m }) := by
  simp only [step, run_bind_of_ok (run_get p), h, hn, Bool.false_eq_true, if_false]
  rcases Machine.attempt_error ha with hf | ⟨a, w, m₁, hf, he⟩
  · exact run_bind_of_error (run_onMachine_of_error hf) _
  · rw [run_bind_of_ok (run_onMachine_of_ok hf),
      run_bind_of_ok (run_onMachine_of_ok (Machine.run_note _ _))]
    exact run_bind_of_error (run_onMachine_of_error (Machine.run_execute_of_error he)) _

theorem run_step_of_ok {p : Processor T} {m : Machine T} {address instruction : Word}
    (h : p.machine.halted = false) (hn : p.reachedLimit = none)
    (ha : Machine.attempt.run p.machine = (.ok (address, instruction), m)) :
    step.run p =
      (.ok ⟨p.machine.cycles, address, instruction⟩, p.completed m address instruction) := by
  obtain ⟨m₁, m₂, hf, he, rfl⟩ := Machine.attempt_ok ha
  simp only [step, run_bind_of_ok (run_get p), h, hn, Bool.false_eq_true, if_false]
  rw [run_bind_of_ok (run_onMachine_of_ok hf),
    run_bind_of_ok (run_onMachine_of_ok (Machine.run_note _ _)),
    run_bind_of_ok (run_onMachine_of_ok (Machine.run_execute_of_ok he))]
  cases hd : (Instruction.decode instruction).defect?.isSome with
  | false =>
    rw [if_neg (by simpa [Cycle.defect?, Cycle.decoded] using hd),
      run_bind_of_ok (run_remember _ _ _), run_pure]
    simp only [completed, Machine.settled, Machine.snapshot, Cycle.defect?, Cycle.decoded, hd,
      Bool.false_eq_true, if_false]
  | true =>
    rw [if_pos (by simpa [Cycle.defect?, Cycle.decoded] using hd), run_bind_of_ok (run_blame _ _),
      run_bind_of_ok (run_remember _ _ _), run_pure]
    simp only [completed, Machine.settled, Machine.snapshot, Cycle.defect?, Cycle.decoded, hd,
      if_true]

/-- **The four ways in which a step ends**: the machine has halted; the limit is
reached; the instruction fails part way; it is completed. -/
theorem step_cases (p : Processor T) :
    (p.machine.halted = true ∧ step.run p = (.error (.misuse .notRunning), p)) ∨
    (∃ n, p.machine.halted = false ∧ p.reachedLimit = some n ∧
      step.run p = (.error (.cycleLimit n), p.stopped)) ∨
    (∃ f m, p.machine.halted = false ∧ p.reachedLimit = none ∧
      Machine.attempt.run p.machine = (.error f, m) ∧
      step.run p = (.error f, { p with machine := m })) ∨
    ∃ a w m, p.machine.halted = false ∧ p.reachedLimit = none ∧
      Machine.attempt.run p.machine = (.ok (a, w), m) ∧
      step.run p = (.ok ⟨p.machine.cycles, a, w⟩, p.completed m a w) := by
  cases h : p.machine.halted with
  | true => exact Or.inl ⟨rfl, run_step_of_halted h⟩
  | false =>
    cases hn : p.reachedLimit with
    | some n => exact Or.inr (Or.inl ⟨n, rfl, rfl, run_step_of_limit h hn⟩)
    | none =>
      rcases ha : Machine.attempt.run p.machine with ⟨f | ⟨a, w⟩, m⟩
      · exact Or.inr (Or.inr (Or.inl ⟨f, m, rfl, rfl, rfl, run_step_of_error h hn ha⟩))
      · exact Or.inr (Or.inr (Or.inr ⟨a, w, m, rfl, rfl, rfl, run_step_of_ok h hn ha⟩))

/-- A step that returns has found the machine running and completed an instruction. -/
theorem step_ok {p : Processor T} {c : Cycle} (h : (step.run p).1 = .ok c) :
    ∃ a w m, p.machine.halted = false ∧ p.reachedLimit = none ∧
      Machine.attempt.run p.machine = (.ok (a, w), m) ∧ c = ⟨p.machine.cycles, a, w⟩ ∧
      step.run p = (.ok ⟨p.machine.cycles, a, w⟩, p.completed m a w) := by
  rcases step_cases p with ⟨-, hs⟩ | ⟨n, -, -, hs⟩ | ⟨f, m, -, -, -, hs⟩ | ⟨a, w, m, hr, hn, ha, hs⟩
  · rw [hs] at h
    cases h
  · rw [hs] at h
    cases h
  · rw [hs] at h
    cases h
  · rw [hs] at h
    cases h
    exact ⟨a, w, m, hr, hn, ha, rfl, hs⟩

end Processor

end LittleComputer
