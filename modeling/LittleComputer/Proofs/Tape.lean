import LittleComputer.Proofs.Abreast

/-!
# Terminals with a tape

What a program has shown so far cannot be read off a terminal: part of it may have been lost, and
what has been delivered is the terminal's own account of it. To say what had been shown at some
moment – when a wait for a key began, say – somebody has to have taken it down as it happened.
`LittleComputer.Taped` is a terminal that does: it has every byte that was shown, in order, and
every wait for a key, with the terminal as it was and what had been shown by then.

The tape is written to and never read. So a processor with a tape goes as the same processor does
without one (`LittleComputer.Processor.untaped_iterate`), and what every call of the terminal keeps
true of the tape is true at any time of a run (`LittleComputer.Processor.holds_iterate`).
-/

namespace LittleComputer

/-- A wait for a key: the terminal as it was while it lasted, and what had been shown by then. -/
structure Wait (T : Type) where
  /-- The terminal. -/
  terminal : T
  /-- The bytes shown so far, in order. -/
  shown : List Byte

/-- A terminal with a tape of what happens to it. -/
structure Taped (T : Type) where
  /-- The terminal. -/
  terminal : T
  /-- The bytes shown so far, in order. -/
  shown : List Byte := []
  /-- The waits so far, the latest first. -/
  waits : List (Wait T) := []

variable {T : Type}

namespace Taped

variable [Terminal T]

/-- The tape with one wait more, if a read would have to wait. -/
def waited (t : Taped T) : Taped T :=
  match Terminal.waiting t.terminal with
  | some (u, _) => { t with waits := ⟨u, t.shown⟩ :: t.waits }
  | none => t

theorem waited_of_none {t : Taped T} (h : Terminal.waiting t.terminal = none) : t.waited = t := by
  rw [waited, h]

theorem waited_of_some {t : Taped T} {u : T} {ns : List Notice}
    (h : Terminal.waiting t.terminal = some (u, ns)) :
    t.waited = { t with waits := ⟨u, t.shown⟩ :: t.waits } := by
  rw [waited, h]

instance : Terminal (Taped T) where
  poll t := ((Terminal.poll t.terminal).1, { t with terminal := (Terminal.poll t.terminal).2 })
  read t :=
    let (answer, terminal, notices) := Terminal.read t.terminal
    (answer, { t.waited with terminal }, notices)
  waiting t :=
    (Terminal.waiting t.terminal).map fun (terminal, notices) =>
      ({ t.waited with terminal }, notices)
  write t b := { t with terminal := Terminal.write t.terminal b, shown := t.shown ++ [b] }
  flush t := ({ t with terminal := (Terminal.flush t.terminal).1 }, (Terminal.flush t.terminal).2)
  enter t := ({ t with terminal := (Terminal.enter t.terminal).1 }, (Terminal.enter t.terminal).2)
  leave t := ({ t with terminal := (Terminal.leave t.terminal).1 }, (Terminal.leave t.terminal).2)
  keysLeft t := Terminal.keysLeft t.terminal

/-- What every call that a machine makes of a terminal keeps. -/
structure IsKept (I : Taped T → Prop) : Prop where
  poll : ∀ {t}, I t → I (Terminal.poll t).2
  waiting : ∀ {t u ns}, I t → Terminal.waiting t = some (u, ns) → I u
  read : ∀ {t}, I t → I (Terminal.read t).2.1
  write : ∀ {t}, I t → ∀ b, I (Terminal.write t b)
  flush : ∀ {t}, I t → I (Terminal.flush t).1

theorem isKept_true : IsKept fun _ : Taped T => True :=
  ⟨fun _ => trivial, fun _ _ => trivial, fun _ => trivial, fun _ _ => trivial, fun _ => trivial⟩

/-- What the tape says of the writes is what they were. -/
theorem foldl_write (t : Taped T) (bytes : List Byte) :
    bytes.foldl Terminal.write t = { t with
      terminal := bytes.foldl Terminal.write t.terminal
      shown := t.shown ++ bytes } := by
  induction bytes generalizing t with
  | nil =>
    rw [List.append_nil]
    rfl
  | cons b rest ih =>
    rw [List.foldl_cons, ih, List.append_cons]
    rfl

/-- A terminal with a tape beside the terminal without it. -/
structure Plays (I : Taped T → Prop) (t : Taped T) (j : Journal) (u : T) (k : Journal) : Prop where
  terminal : t.terminal = u
  journal : j = k
  holds : I t

/-- **A tape makes no difference** to the terminal that it is on. -/
theorem abreast_plays {I : Taped T → Prop} (hI : IsKept I) : Abreast Eq (Plays I) where
  same := fun _ => rfl
  keysLeft := by
    rintro t j _ _ ⟨rfl, rfl, -⟩
    rfl
  poll := by
    rintro t j _ _ ⟨rfl, rfl, ht⟩
    exact ⟨Alike.of_eq (fun _ => rfl) rfl, rfl, rfl, hI.poll ht⟩
  waiting := by
    rintro t j _ _ ⟨rfl, rfl, ht⟩
    cases hw : Terminal.waiting t.terminal with
    | none => exact Or.inl ⟨congrArg (Option.map _) hw, rfl⟩
    | some w =>
      obtain ⟨u, ns⟩ := w
      have hwaiting : Terminal.waiting t = some ({ t.waited with terminal := u }, ns) :=
        congrArg (Option.map _) hw
      exact Or.inr ⟨_, ns, u, ns, hwaiting, rfl, rfl, rfl, hI.waiting ht hwaiting⟩
  read := by
    rintro t j _ _ ⟨rfl, rfl, ht⟩
    exact ⟨Alike.of_eq (fun _ => rfl) rfl, rfl, rfl, hI.read ht⟩
  write := by
    rintro t j _ _ ⟨rfl, rfl, ht⟩ b
    exact ⟨rfl, rfl, hI.write ht b⟩
  flush := by
    rintro t j _ _ ⟨rfl, rfl, ht⟩
    exact ⟨rfl, rfl, hI.flush ht⟩
  note := by
    rintro t j _ _ ⟨rfl, rfl, ht⟩ n
    exact ⟨rfl, rfl, ht⟩

end Taped

/-! ### Processors with a tape -/

/-- The console with its terminal on an empty tape. -/
def Console.taped (c : Console T) : Console (Taped T) :=
  { terminal := { terminal := c.terminal }
    stop := c.stop, alarm := c.alarm, guarded := c.guarded, journal := c.journal }

/-- The console without the tape of its terminal. -/
def Console.untaped (c : Console (Taped T)) : Console T :=
  { terminal := c.terminal.terminal
    stop := c.stop, alarm := c.alarm, guarded := c.guarded, journal := c.journal }

namespace Processor

/-- The processor with its machine on another console. -/
def withConsole {S : Type} (p : Processor S) (console : Console T) : Processor T :=
  { machine :=
      { registers := p.machine.registers
        memory := p.machine.memory
        console
        halted := p.machine.halted
        cycles := p.machine.cycles }
    limit := p.limit, tracing := p.tracing, trace := p.trace, fault := p.fault }

/-- The processor with its terminal on an empty tape. -/
def taped (p : Processor T) : Processor (Taped T) := p.withConsole p.machine.console.taped

/-- The processor without the tape of its terminal. -/
def untaped (p : Processor (Taped T)) : Processor T := p.withConsole p.machine.console.untaped

variable {I : Taped T → Prop}

theorem Alongside.untaped_eq {b : Processor (Taped T)} {p : Processor T}
    (h : Alongside (Console.Alongside (Taped.Plays I)) b p) : b.untaped = p := by
  obtain ⟨⟨registers, memory, ⟨terminal, stop, alarm, guarded, journal⟩, halted, cycles⟩, limit,
    tracing, trace, fault⟩ := b
  obtain ⟨⟨_, _, ⟨_, _, _, _, _⟩, _, _⟩, _, _, _, _⟩ := p
  obtain ⟨⟨rfl, rfl, rfl, rfl, ⟨rfl, rfl, -⟩, rfl, rfl, rfl⟩, rfl, rfl, rfl, rfl⟩ := h
  rfl

variable [Terminal T] (p : Processor T)

theorem alongside_taped (hI : Taped.IsKept I) (h : I { terminal := p.machine.console.terminal })
    (k : Nat) : Alongside (Console.Alongside (Taped.Plays I)) (next^[k] p.taped) (next^[k] p) :=
  iterate_lockStep (Taped.abreast_plays hI).lockStep
    ⟨⟨rfl, rfl, rfl, rfl, ⟨rfl, rfl, h⟩, rfl, rfl, rfl⟩, rfl, rfl, rfl, rfl⟩ k

/-- **A processor with a tape goes as it does without.** -/
theorem untaped_iterate (k : Nat) : (next^[k] p.taped).untaped = next^[k] p :=
  (p.alongside_taped Taped.isKept_true trivial k).untaped_eq

theorem step_taped (k : Nat) :
    (step.run (next^[k] p.taped)).1 = (step.run (next^[k] p)).1 :=
  (step_lockStep (Taped.abreast_plays Taped.isKept_true).lockStep _ _
    (p.alongside_taped Taped.isKept_true trivial k)).1.eq

/-- **What every call keeps holds of the tape at any time.** -/
theorem holds_iterate (hI : Taped.IsKept I) (h : I { terminal := p.machine.console.terminal })
    (k : Nat) : I (next^[k] p.taped).machine.console.terminal :=
  (p.alongside_taped hI h k).machine.console.shown.holds

end Processor

end LittleComputer
