import LittleComputer.Proofs.Run

/-!
# Machines that go in lock-step

Two machines on different terminals differ in nothing that the terminals do not tell
them. Here is what has to be known of two consoles for machines on them to go in
lock-step, `LittleComputer.LockStep`: a relation that every call of a console keeps, and
under which a call has answers that are alike. The rest is done once: from consoles the
relation is carried to machines (`LittleComputer.Machine.Alongside`), to instructions as a
whole, since these are composed (`LittleComputer.Machine.attempt_lockStep`), to steps, and
to runs (`LittleComputer.Processor.step_lockStep`, `LittleComputer.Processor.run_lockStep`).

Failures may differ on the two sides as far as a relation `E` allows.
-/

namespace LittleComputer

variable {S T : Type} {E : Failure → Failure → Prop} {R : Console S → Console T → Prop}

/-! ### Alongside each other -/

/-- Machines that differ in their consoles alone, which are related. -/
structure Machine.Alongside (R : Console S → Console T → Prop) (m : Machine S) (n : Machine T) :
    Prop where
  registers : m.registers = n.registers
  memory : m.memory = n.memory
  halted : m.halted = n.halted
  cycles : m.cycles = n.cycles
  console : R m.console n.console

theorem Machine.Alongside.snapshot {m : Machine S} {n : Machine T} (h : Alongside R m n) :
    m.snapshot = n.snapshot := by
  rw [Machine.snapshot, Machine.snapshot, h.registers, h.halted, h.cycles]

namespace Processor

/-- Processors that differ in the consoles of their machines alone, which are related. -/
structure Alongside (R : Console S → Console T → Prop) (p : Processor S) (q : Processor T) :
    Prop where
  machine : Machine.Alongside R p.machine q.machine
  limit : p.limit = q.limit
  tracing : p.tracing = q.tracing
  trace : p.trace = q.trace
  fault : p.fault = q.fault

variable {p : Processor S} {q : Processor T}

theorem Alongside.reachedLimit (h : Alongside R p q) : p.reachedLimit = q.reachedLimit := by
  rw [Processor.reachedLimit, Processor.reachedLimit, h.limit, h.machine.cycles]

theorem Alongside.ending (h : Alongside R p q) : p.ending = q.ending := by
  rw [Processor.ending, Processor.ending, h.fault, h.trace]

theorem Alongside.stopped (h : Alongside R p q) : Alongside R p.stopped q.stopped :=
  ⟨{ h.machine with halted := rfl }, h.limit, h.tracing, h.trace, h.fault⟩

theorem Alongside.withMachine (h : Alongside R p q) {m : Machine S} {n : Machine T}
    (hmn : Machine.Alongside R m n) :
    Alongside R { p with machine := m } { q with machine := n } := { h with machine := hmn }

theorem Alongside.mono {R' : Console S → Console T → Prop} (hR : ∀ {c d}, R c d → R' c d)
    (h : Alongside R p q) : Alongside R' p q :=
  ⟨{ h.machine with console := hR h.machine.console }, h.limit, h.tracing, h.trace, h.fault⟩

theorem Alongside.onConsole {R' : Console S → Console T → Prop} (h : Alongside R p q)
    {f : Console S → Console S} {g : Console T → Console T}
    (hfg : ∀ {c d}, R c d → R' (f c) (g d)) : Alongside R' (p.onConsole f) (q.onConsole g) :=
  ⟨{ h.machine with console := hfg h.machine.console }, h.limit, h.tracing, h.trace, h.fault⟩

theorem Alongside.completed (h : Alongside R p q) {m : Machine S} {n : Machine T}
    (hmn : Machine.Alongside R m n) (address instruction : Word) :
    Alongside R (p.completed m address instruction) (q.completed n address instruction) := by
  obtain ⟨hpq, hlimit, htracing, htrace, hfault⟩ := h
  refine ⟨hmn, hlimit, htracing, ?_, ?_⟩
  · simp only [Processor.completed, htracing, htrace, hpq.cycles, hpq.snapshot, hmn.snapshot]
  · simp only [Processor.completed, Cycle.defect?, Cycle.decoded, hfault]
    rfl

end Processor

/-! ### Machines in lock-step -/

variable [Terminal S] [Terminal T]

/-- **What makes two consoles go in lock-step**: they are related, and what a machine
asks of both keeps them related and has answers that are alike. -/
structure LockStep (E : Failure → Failure → Prop) (R : Console S → Console T → Prop) : Prop where
  /-- Equal failures are alike. -/
  same : ∀ e, E e e
  /-- As many keys can be taken on both sides. -/
  keysLeft : ∀ {c d}, R c d → Terminal.keysLeft c.terminal = Terminal.keysLeft d.terminal
  poll : ∀ {c d}, R c d → Alike E c.poll.1 d.poll.1 ∧ R c.poll.2 d.poll.2
  read : ∀ {c d}, R c d → Alike E c.read.1 d.read.1 ∧ R c.read.2 d.read.2
  write : ∀ {c d}, R c d → ∀ b, R (c.write b) (d.write b)
  flush : ∀ {c d}, R c d → R c.flush d.flush
  note : ∀ {c d}, R c d → ∀ n, R (c.note n) (d.note n)

namespace Machine

/-- **A primitive that has nothing to do with the console keeps machines alongside each
other**, whatever their consoles have in common. -/
theorem perform_local {α : Type} {c : Primitive α} (hc : c.IsLocal) :
    Simulates E (Alongside R) (c.perform (T := S)) (c.perform (T := T)) := by
  intro m n hmn
  have hok : ∀ {x y : α} {m' : Machine S} {n' : Machine T}, x = y → Alongside R m' n' →
      Alike E (.ok x) (.ok y) ∧ Alongside R m' n' := fun hxy hmn => ⟨hxy ▸ .ok _, hmn⟩
  cases c with
  | cycles => exact hok hmn.cycles hmn
  | readSlot s => exact hok (congrArg (Registers.read · s) hmn.registers) hmn
  | writeSlot s value =>
    exact hok rfl { hmn with registers := congrArg (Registers.write · s value) hmn.registers }
  | peek address => exact hok (congrArg (Memory.peek · address) hmn.memory) hmn
  | writeCell address value =>
    exact hok rfl { hmn with memory := congrArg (Memory.write · address value) hmn.memory }
  | load address words =>
    exact hok rfl { hmn with memory := congrArg (Memory.load · address words) hmn.memory }
  | halt => exact hok rfl { hmn with halted := rfl }
  | countCycle => exact hok rfl { hmn with cycles := congrArg (· + 1) hmn.cycles }
  | _ => cases hc

/-- **Every primitive keeps machines alongside each other.** -/
theorem perform_lockStep (h : LockStep E R) {α : Type} (c : Primitive α) :
    Simulates E (Alongside R) (c.perform (T := S)) (c.perform (T := T)) := by
  intro m n hmn
  cases c with
  | poll =>
    obtain ⟨halike, hrel⟩ := h.poll hmn.console
    exact ⟨halike, { hmn with console := hrel }⟩
  | readKey =>
    obtain ⟨halike, hrel⟩ := h.read hmn.console
    exact ⟨halike, { hmn with console := hrel }⟩
  | showByte b => exact ⟨.ok (), { hmn with console := h.write hmn.console b }⟩
  | flush => exact ⟨.ok (), { hmn with console := h.flush hmn.console }⟩
  | note n => exact ⟨.ok (), { hmn with console := h.note hmn.console n }⟩
  | keysLeft => exact ⟨Alike.of_eq h.same (congrArg _ (h.keysLeft hmn.console)), hmn⟩
  | _ =>
    refine perform_local ?_ m n hmn
    trivial

/-- **An instruction keeps machines alongside each other.** -/
theorem attempt_lockStep (h : LockStep E R) :
    Simulates E (Alongside R) (attempt (T := S)) (attempt (T := T)) :=
  composed_attempt.simulates h.same fun _ c _ => perform_lockStep h c

end Machine

/-! ### Processors -/

namespace Processor

/-- **A step keeps processors alongside each other**, and it returns the same on both
sides or fails on both. -/
theorem step_lockStep (h : LockStep E R) :
    Simulates E (Alongside R) (step (T := S)) (step (T := T)) := by
  intro p q hpq
  have hattempt := Machine.attempt_lockStep h p.machine q.machine hpq.machine
  rcases step_cases p with ⟨hr, hs⟩ | ⟨n, hr, hn, hs⟩ | ⟨f, m, hr, hn, ha, hs⟩ |
    ⟨a, w, m, hr, hn, ha, hs⟩
  · rw [hs, run_step_of_halted (hpq.machine.halted ▸ hr)]
    exact ⟨.error (h.same _), hpq⟩
  · rw [hs, run_step_of_limit (hpq.machine.halted ▸ hr) (hpq.reachedLimit ▸ hn)]
    exact ⟨.error (h.same _), hpq.stopped⟩
  · rcases hb : Machine.attempt.run q.machine with ⟨g | x, m'⟩ <;>
      rw [ha, hb] at hattempt <;> obtain ⟨halike, hmachine⟩ := hattempt <;> cases halike
    rename_i hfg
    rw [hs, run_step_of_error (hpq.machine.halted ▸ hr) (hpq.reachedLimit ▸ hn) hb]
    exact ⟨.error hfg, hpq.withMachine hmachine⟩
  · rcases hb : Machine.attempt.run q.machine with ⟨g | x, m'⟩ <;>
      rw [ha, hb] at hattempt <;> obtain ⟨halike, hmachine⟩ := hattempt <;> cases halike
    rw [hs, run_step_of_ok (hpq.machine.halted ▸ hr) (hpq.reachedLimit ▸ hn) hb,
      hpq.machine.cycles]
    exact ⟨.ok _, hpq.completed hmachine a w⟩

/-- What happens between two steps is the same on both sides if both or neither have been
asked to stop. -/
theorem boundary_lockStep (h : LockStep E R) {p : Processor S} {q : Processor T}
    (hpq : Alongside R p q) (hstop : p.machine.console.stop = q.machine.console.stop) :
    Alike E (boundary.run p).1 (boundary.run q).1 ∧
      Alongside R (boundary.run p).2 (boundary.run q).2 := by
  cases hr : p.machine.halted with
  | true =>
    rw [run_boundary_of_halted hr, run_boundary_of_halted (hpq.machine.halted ▸ hr), hpq.ending]
    exact ⟨Alike.of_eq h.same rfl, hpq⟩
  | false =>
    have hr' : q.machine.halted = false := hpq.machine.halted ▸ hr
    cases hs : p.machine.console.stop with
    | true =>
      rw [run_boundary_of_stop hr hs, run_boundary_of_stop hr' (hstop ▸ hs), hpq.machine.registers]
      exact ⟨.error (h.same _), hpq.stopped.onConsole fun hcd => h.note hcd _⟩
    | false =>
      rw [run_boundary_of_running hr hs, run_boundary_of_running hr' (hstop ▸ hs)]
      exact ⟨.ok none, hpq⟩

/-- **A run keeps processors alongside each other**, and it ends in the same way on both
sides, if before each step both or neither have been asked to stop. -/
theorem run_lockStep (h : LockStep E R) {p : Processor S} {q : Processor T}
    (hpq : Alongside R p q)
    (hstop : ∀ k, p.Completes k →
      (next^[k] p).machine.console.stop = (next^[k] q).machine.console.stop) (allowance : Nat) :
    Alike E ((run allowance).run p).1 ((run allowance).run q).1 ∧
      Alongside R ((run allowance).run p).2 ((run allowance).run q).2 := by
  induction allowance generalizing p q with
  | zero => exact boundary_lockStep h hpq (hstop 0 (completes_zero p))
  | succ allowance ih =>
    have hs₀ : p.machine.console.stop = q.machine.console.stop := hstop 0 (completes_zero p)
    rcases boundary_cases p with ⟨hr, -⟩ | ⟨hr, hs, -⟩ | ⟨hr, hs, -⟩
    · rw [run_of_halted hr, run_of_halted (hpq.machine.halted ▸ hr), hpq.ending]
      exact ⟨Alike.of_eq h.same rfl, hpq⟩
    · rw [run_of_stop hr hs, run_of_stop (hpq.machine.halted ▸ hr) (hs₀ ▸ hs),
        hpq.machine.registers]
      exact ⟨.error (h.same _), hpq.stopped.onConsole fun hcd => h.note hcd _⟩
    · obtain ⟨halike, hnext⟩ := step_lockStep h p q hpq
      rw [run_succ_of_running hr hs, run_succ_of_running (hpq.machine.halted ▸ hr) (hs₀ ▸ hs)]
      rcases hp : step.run p with ⟨e | c, p'⟩ <;> rcases hq : step.run q with ⟨f | c', q'⟩ <;>
        rw [hp, hq] at halike hnext <;> cases halike
      · rename_i hef
        exact ⟨.error hef, hnext⟩
      · -- Both have completed an instruction, and the rest of the run is as the whole.
        have hpn : p.next = p' := by rw [next, hp]
        have hqn : q.next = q' := by rw [next, hq]
        refine ih hnext fun k hk => ?_
        rw [← hpn] at hk ⊢
        rw [← hqn]
        exact hstop (k + 1) (completes_succ'.mpr ⟨⟨c, by rw [hp]⟩, hk⟩)

theorem next_lockStep {p : Processor S} {q : Processor T} (h : LockStep E R)
    (hpq : Alongside R p q) : Alongside R p.next q.next :=
  (step_lockStep h p q hpq).2

theorem iterate_lockStep {p : Processor S} {q : Processor T} (h : LockStep E R)
    (hpq : Alongside R p q) (k : Nat) :
    Alongside R (next^[k] p) (next^[k] q) := by
  induction k with
  | zero => exact hpq
  | succ k ih =>
    rw [Function.iterate_succ_apply', Function.iterate_succ_apply']
    exact next_lockStep h ih

/-! ### Loading -/

omit [Terminal S] [Terminal T] in
theorem onMachine_lockStep {α : Type} {a : LittleComputer.Action S α}
    {b : LittleComputer.Action T α} (h : Simulates E (Machine.Alongside R) a b) :
    Simulates E (Alongside R) (onMachine a) (onMachine b) := by
  intro p q hpq
  obtain ⟨halike, hmachine⟩ := h p.machine q.machine hpq.machine
  exact ⟨halike, hpq.withMachine hmachine⟩

end Processor

namespace Machine

/-- **What loads keeps machines alongside each other**, whatever the consoles have in
common, as long as it does not hang on their notices. -/
theorem loading_lockStep (hE : ∀ e, E e e) (hR : ∀ {c d}, R c d → ∀ n, R (c.note n) (d.note n))
    {α : Type} {a : ∀ (T : Type) [Terminal T], Action T α} (ha : Composed Primitive.IsLoading a) :
    Simulates E (Alongside R) (a S) (a T) := by
  refine ha.simulates hE fun α c hc m n h => ?_
  cases c with
  | note notice => exact ⟨.ok (), { h with console := hR h.console notice }⟩
  | load address words =>
    exact ⟨.ok (), { h with memory := congrArg (Memory.load · address words) h.memory }⟩
  | _ => cases hc

end Machine

end LittleComputer
