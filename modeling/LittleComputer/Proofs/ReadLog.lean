import LittleComputer.Proofs.Abreast

/-!
# A log of the cells that are read

A read of a cell leaves no trace, unless the cell is the keyboard status register. So to say which
cells a service reads, somebody has to take them down as they are read.
`LittleComputer.Machine.readLogged` does: it writes the address into a log beside the terminal
(`LittleComputer.Logged`) and then reads the cell. How a service reads its cells is a parameter of
it (`LittleComputer.Machine.serveWith`), and with these reads it has a log of them in the end.

The log is written to and never read. So what is done beside a log is what is done without one,
with the same outcome (`LittleComputer.Machine.run_logged`), and a read that is logged differs from
one that is not by its entry in the log alone (`LittleComputer.Machine.run_readLogged`).
-/

namespace LittleComputer

variable {T : Type}

/-- A terminal beside a log of the cells that are read. -/
structure Logged (T : Type) where
  /-- The terminal. -/
  terminal : T
  /-- The cells that have been read so far, in order. -/
  cells : List Word

namespace Logged

variable [Terminal T]

instance : Terminal (Logged T) where
  poll t := ((Terminal.poll t.terminal).1, { t with terminal := (Terminal.poll t.terminal).2 })
  read t :=
    let (answer, terminal, notices) := Terminal.read t.terminal
    (answer, { t with terminal }, notices)
  waiting t :=
    (Terminal.waiting t.terminal).map fun (terminal, notices) => ({ t with terminal }, notices)
  write t b := { t with terminal := Terminal.write t.terminal b }
  flush t := ({ t with terminal := (Terminal.flush t.terminal).1 }, (Terminal.flush t.terminal).2)
  enter t := ({ t with terminal := (Terminal.enter t.terminal).1 }, (Terminal.enter t.terminal).2)
  leave t := ({ t with terminal := (Terminal.leave t.terminal).1 }, (Terminal.leave t.terminal).2)
  keysLeft t := Terminal.keysLeft t.terminal

/-- A terminal beside a log that has the given cells, and the terminal alone. -/
structure Carries (cells : List Word) (t : Logged T) (j : Journal) (u : T) (k : Journal) :
    Prop where
  terminal : t.terminal = u
  journal : j = k
  cells : t.cells = cells

/-- **A log makes no difference** to the terminal that it is beside, and no call of the terminal
writes to it. -/
theorem abreast_carries (cells : List Word) : Abreast Eq (Carries (T := T) cells) where
  same := fun _ => rfl
  keysLeft := by
    rintro t j _ _ ⟨rfl, rfl, -⟩
    rfl
  poll := by
    rintro t j _ _ ⟨rfl, rfl, ht⟩
    exact ⟨Alike.of_eq (fun _ => rfl) rfl, rfl, rfl, ht⟩
  waiting := by
    rintro t j _ _ ⟨rfl, rfl, ht⟩
    cases hw : Terminal.waiting t.terminal with
    | none => exact Or.inl ⟨congrArg (Option.map _) hw, rfl⟩
    | some w =>
      obtain ⟨u, ns⟩ := w
      exact Or.inr ⟨{ t with terminal := u }, ns, u, ns, congrArg (Option.map _) hw, rfl, rfl, rfl,
        ht⟩
  read := by
    rintro t j _ _ ⟨rfl, rfl, ht⟩
    exact ⟨Alike.of_eq (fun _ => rfl) rfl, rfl, rfl, ht⟩
  write := by
    rintro t j _ _ ⟨rfl, rfl, ht⟩ b
    exact ⟨rfl, rfl, ht⟩
  flush := by
    rintro t j _ _ ⟨rfl, rfl, ht⟩
    exact ⟨rfl, rfl, ht⟩
  note := by
    rintro t j _ _ ⟨rfl, rfl, ht⟩ n
    exact ⟨rfl, rfl, ht⟩

end Logged

namespace Machine

/-- The machine with its terminal beside a log that has the given cells. -/
def logged (m : Machine T) (cells : List Word) : Machine (Logged T) :=
  { registers := m.registers
    memory := m.memory
    console :=
      { terminal := { terminal := m.console.terminal, cells }
        stop := m.console.stop, alarm := m.console.alarm, guarded := m.console.guarded
        journal := m.console.journal }
    halted := m.halted
    cycles := m.cycles }

variable [Terminal T]

/-- Read a cell, and write down that it is read. -/
def readLogged (address : Word) : Action (Logged T) Word := do
  modify fun m => { m with
    console := { m.console with
      terminal := { m.console.terminal with cells := m.console.terminal.cells ++ [address] } } }
  readCell address

omit [Terminal T] in
/-- A machine alongside one without a log is the same with the log. -/
theorem eq_logged {l : Machine (Logged T)} {m : Machine T} {cells : List Word}
    (h : Alongside (Console.Alongside (Logged.Carries cells)) l m) : l = m.logged cells := by
  obtain ⟨_, _, ⟨⟨_, _⟩, _, _, _, _⟩, _, _⟩ := l
  obtain ⟨_, _, ⟨_, _, _, _, _⟩, _, _⟩ := m
  obtain ⟨rfl, rfl, rfl, rfl, ⟨rfl, rfl, rfl⟩, rfl, rfl, rfl⟩ := h
  rfl

/-- **What is done beside a log** has the same outcome, and leaves the same machine beside the same
log. -/
theorem run_logged {P : (α : Type) → Primitive α → Prop} {α : Type}
    {a : ∀ (T : Type) [Terminal T], Action T α} (ha : Composed P a) (m : Machine T)
    (cells : List Word) :
    (a (Logged T)).run (m.logged cells) = (((a T).run m).1, ((a T).run m).2.logged cells) := by
  have hsame := (Logged.abreast_carries (T := T) cells).lockStep
  obtain ⟨halike, hmachine⟩ := ha.simulates hsame.same (fun _ c _ => perform_lockStep hsame c)
    (m.logged cells) m ⟨rfl, rfl, rfl, rfl, ⟨rfl, rfl, rfl⟩, rfl, rfl, rfl⟩
  exact Prod.ext halike.eq (eq_logged hmachine)

/-- **A read that is logged** is a read, and has one entry more in the log. -/
theorem run_readLogged (address : Word) (m : Machine T) (cells : List Word) :
    (readLogged address).run (m.logged cells) = (((readCell address).run m).1,
      ((readCell address).run m).2.logged (cells ++ [address])) :=
  run_logged (mild_readCell address) m (cells ++ [address])

end Machine

end LittleComputer
