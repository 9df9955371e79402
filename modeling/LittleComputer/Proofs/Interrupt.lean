import LittleComputer.Console

/-!
# Interrupts

A call of the console can do three things to the interrupt to come, and
`LittleComputer.Console.strike_cases` lists them: leave it alone, count it down, or let it
happen. Only a guarded console with an interrupt for this very kind of call does anything
but the first.

Three conditions on a console rule out what an interrupt could spoil. A console without an
interrupt to come is never struck (`LittleComputer.Console.strike_of_quiet`). One that
`LittleComputer.Console.Spares` a call does not notice that call. And at a console that is
`LittleComputer.Console.IsPatient`, which every call keeps, no wait is abandoned.
-/

namespace LittleComputer.Console

variable {T : Type}

/-- **What a call makes of the interrupt to come.** -/
theorem strike_cases (c : Console T) (call : Call) :
    c.strike call = (false, c) ∨
    (c.guarded = true ∧ c.alarm = some ⟨call, 1⟩ ∧
      c.strike call = (true, { c with alarm := none, stop := true })) ∨
    ∃ n, c.guarded = true ∧ c.alarm = some ⟨call, n + 2⟩ ∧
      c.strike call = (false, { c with alarm := some ⟨call, n + 1⟩ }) := by
  obtain ⟨terminal, stop, alarm, guarded, journal⟩ := c
  cases guarded with
  | false => exact Or.inl rfl
  | true =>
    rcases alarm with _ | ⟨on, countdown⟩
    · exact Or.inl rfl
    · by_cases hon : on = call
      · subst hon
        rcases countdown with _ | _ | n
        · exact Or.inl (if_neg (not_not_intro rfl))
        · exact Or.inr (Or.inl ⟨rfl, rfl, if_neg (not_not_intro rfl)⟩)
        · exact Or.inr (Or.inr ⟨n, rfl, rfl, if_neg (not_not_intro rfl)⟩)
      · exact Or.inl (if_pos hon)

/-- No call that can be interrupted touches the terminal before it is made. -/
theorem strike_terminal (c : Console T) (call : Call) :
    (c.strike call).2.terminal = c.terminal := by
  rcases c.strike_cases call with h | ⟨-, -, h⟩ | ⟨n, -, -, h⟩ <;> rw [h]

theorem strike_journal (c : Console T) (call : Call) :
    (c.strike call).2.journal = c.journal := by
  rcases c.strike_cases call with h | ⟨-, -, h⟩ | ⟨n, -, -, h⟩ <;> rw [h]

theorem strike_of_quiet {c : Console T} (h : c.alarm = none) (call : Call) :
    c.strike call = (false, c) := by
  rcases c.strike_cases call with hs | ⟨-, ha, -⟩ | ⟨n, -, ha, -⟩
  · exact hs
  · cases h.symm.trans ha
  · cases h.symm.trans ha

/-- An interrupt that is due happens. -/
theorem strike_of_due {c : Console T} {call : Call} (hg : c.guarded = true)
    (ha : c.alarm = some ⟨call, 1⟩) :
    c.strike call = (true, { c with alarm := none, stop := true }) := by
  rw [strike, hg, ha]
  exact if_neg (not_not_intro rfl)

/-- An interrupt that is not due yet is counted down. -/
theorem strike_of_ahead {c : Console T} {call : Call} {n : Nat} (hg : c.guarded = true)
    (ha : c.alarm = some ⟨call, n + 2⟩) :
    c.strike call = (false, { c with alarm := some ⟨call, n + 1⟩ }) := by
  rw [strike, hg, ha]
  exact if_neg (not_not_intro rfl)

/-- No interrupt comes at the next call of this kind, nor is it counted down. -/
def Spares (c : Console T) (call : Call) : Prop :=
  c.guarded = true → ∀ n, c.alarm ≠ some ⟨call, n + 1⟩

theorem spares_of_unguarded {c : Console T} (h : c.guarded = false) (call : Call) :
    c.Spares call := by
  intro hg
  cases h.symm.trans hg

theorem spares_of_quiet {c : Console T} (h : c.alarm = none) (call : Call) : c.Spares call := by
  intro _ n ha
  cases h.symm.trans ha

/-- A call that is spared finds the console as it is. -/
theorem Spares.strike {c : Console T} {call : Call} (h : c.Spares call) :
    c.strike call = (false, c) := by
  rcases c.strike_cases call with hs | ⟨hg, ha, -⟩ | ⟨n, hg, ha, -⟩
  · exact hs
  · exact absurd ha (h hg 0)
  · exact absurd ha (h hg (n + 1))

/-- A console at which no wait is abandoned: interrupts are not routed to the machine,
or the one to come does not come at a read. -/
def IsPatient (c : Console T) : Prop :=
  c.guarded = true → ∀ a, c.alarm = some a → a.on ≠ .read

/-- No interrupt comes at a read of a patient console. -/
theorem IsPatient.spares_read {c : Console T} (h : c.IsPatient) : c.Spares .read :=
  fun hg _ ha => h hg _ ha rfl

theorem IsPatient.strike_read {c : Console T} (h : c.IsPatient) : c.strike .read = (false, c) :=
  h.spares_read.strike

/-- The interrupt to come still does not come at a read. -/
theorem IsPatient.strike {c : Console T} (h : c.IsPatient) (call : Call) :
    (c.strike call).2.IsPatient := by
  rcases c.strike_cases call with hs | ⟨-, -, hs⟩ | ⟨n, hg, ha, hs⟩ <;> rw [hs]
  · exact h
  · intro _ a hnone
    cases hnone
  · intro _ a hsome
    cases hsome
    have hon : call ≠ .read := h hg ⟨call, n + 2⟩ ha
    exact hon

/-- Whether interrupts are routed to the machine does not change, and if they are not,
no stop is asked for. -/
theorem strike_request (c : Console T) (call : Call) :
    (c.strike call).2.guarded = c.guarded ∧
      (c.guarded || (c.strike call).2.stop) = (c.guarded || c.stop) := by
  rcases c.strike_cases call with hs | ⟨hg, -, hs⟩ | ⟨n, -, -, hs⟩ <;> rw [hs]
  · exact ⟨rfl, rfl⟩
  · rw [hg]
    exact ⟨rfl, rfl⟩
  · exact ⟨rfl, rfl⟩

/-! ### The calls -/

variable [Terminal T]

/-- A poll strikes the console and asks the terminal. -/
theorem poll_eq (c : Console T) :
    c.poll = ((Terminal.poll c.terminal).1,
      { (c.strike .poll).2 with terminal := (Terminal.poll c.terminal).2 }) := by
  rw [poll, c.strike_terminal .poll]

/-- A write strikes the console and shows the byte. -/
theorem write_eq (c : Console T) (b : Byte) :
    c.write b = { (c.strike .write).2 with terminal := Terminal.write c.terminal b } := by
  rw [write, c.strike_terminal .write]

/-- A read at which no interrupt comes asks the terminal. -/
theorem Spares.read_eq {c : Console T} (h : c.Spares .read) :
    c.read = ((Terminal.read c.terminal).1,
      c.settle (Terminal.read c.terminal).2.1 (Terminal.read c.terminal).2.2) := by
  rw [read, h.strike]

/-- A read that is answered at once is not cut short: an interrupt that comes at it only leaves
a request to stop. -/
theorem read_of_not_waiting {c : Console T} (h : Terminal.waiting c.terminal = none) :
    c.read = ((Terminal.read c.terminal).1, (c.strike .read).2.settle
      (Terminal.read c.terminal).2.1 (Terminal.read c.terminal).2.2) := by
  have hterminal := c.strike_terminal .read
  rw [read]
  rcases hs : c.strike .read with ⟨struck, c'⟩
  rw [hs] at hterminal
  dsimp only at hterminal ⊢
  rw [hterminal, h]
  cases struck <;> rfl

/-- **A read is abandoned or answered.** -/
theorem read_cases (c : Console T) :
    (∃ u ns, Terminal.waiting c.terminal = some (u, ns) ∧
      c.read = (.error (.wait .cutShort), (c.strike .read).2.settle u ns)) ∨
    c.read = ((Terminal.read c.terminal).1, (c.strike .read).2.settle
      (Terminal.read c.terminal).2.1 (Terminal.read c.terminal).2.2) := by
  have hterminal := c.strike_terminal .read
  rw [read]
  rcases hs : c.strike .read with ⟨struck, c'⟩
  rw [hs] at hterminal
  dsimp only at hterminal ⊢
  rw [hterminal]
  rcases hw : Terminal.waiting c.terminal with _ | ⟨u, ns⟩
  · cases struck <;> exact Or.inr rfl
  · cases struck
    · exact Or.inr rfl
    · exact Or.inl ⟨u, ns, rfl, rfl⟩

/-- A read asks the terminal, or is cut short and leaves it as it waits. -/
theorem terminal_read (c : Console T) : c.read.2.terminal = (Terminal.read c.terminal).2.1 ∨
    ∃ ns, Terminal.waiting c.terminal = some (c.read.2.terminal, ns) := by
  rcases c.read_cases with ⟨u, ns, hw, hread⟩ | hread <;> rw [hread]
  · exact Or.inr ⟨ns, hw⟩
  · exact Or.inl rfl

end LittleComputer.Console
