import LittleComputer.Proofs.Interrupt
import LittleComputer.Proofs.Step

/-!
# Where the console comes in

Most of what a machine does has nothing to do with its console. What has is a read of a
cell, because it can be one of the keyboard status register, and the services. So the
instructions fall into two kinds: those that are `LittleComputer.Instruction.IsSilent`
always return and leave the console alone (`LittleComputer.Machine.silent_effect`), and of
the others this file says which cell they read first and what they do with its content.

A poll and a read of a key are the calls of the terminal, and strike the console; the read is
given for the case that no interrupt comes at it (`LittleComputer.Console.Spares`).
-/

namespace LittleComputer

namespace Machine

variable {T : Type}

/-- The machine with its terminal replaced. -/
def withTerminal (m : Machine T) (terminal : T) : Machine T :=
  { m with console := { m.console with terminal } }

/-- The machine as a service finds it: linked and announced. -/
def called (m : Machine T) (s : Service) : Machine T :=
  { m with
    registers := m.registers.write (.general 7) m.registers.pc
    console := m.console.note (.called s) }

/-- The machine after a word was fetched from the cell at its program counter. -/
def fetched (m : Machine T) (address : Word) : Machine T :=
  { m with registers := m.registers.write .pc (address + 1) }

variable [Terminal T]

/-! ### Calls of the terminal -/

/-- A poll strikes the console and asks the terminal. -/
theorem run_poll (m : Machine T) :
    poll.run m = ((Terminal.poll m.console.terminal).1, { m with
      console :=
        { (m.console.strike .poll).2 with terminal := (Terminal.poll m.console.terminal).2 } }) := by
  have hrun : poll.run m = (m.console.poll.1, { m with console := m.console.poll.2 }) := rfl
  rw [hrun, m.console.poll_eq]

theorem run_readKey {m : Machine T} (h : m.console.Spares .read) :
    readKey.run m = ((Terminal.read m.console.terminal).1, { m with
      console := m.console.settle (Terminal.read m.console.terminal).2.1
        (Terminal.read m.console.terminal).2.2 }) := by
  have hrun : readKey.run m = (m.console.read.1, { m with console := m.console.read.2 }) := rfl
  rw [hrun, h.read_eq]

/-! ### Reads of cells -/

/-- **A read of any cell but the keyboard status register has no effect.** -/
theorem run_readCell_of_ne {address : Word} (h : address ≠ Memory.keyboardStatus)
    (m : Machine T) : (readCell address).run m = (.ok (m.memory.peek address), m) := by
  rw [readCell, if_neg h]
  rfl

/-! A read of the status register is a poll, and if there is a key, the taking of it. -/

theorem run_latchKey_of_none {m m₁ : Machine T} (hp : poll.run m = (.ok false, m₁)) :
    latchKey.run m =
      (.ok (), { m₁ with memory := m₁.memory.write Memory.keyboardStatus 0 }) :=
  run_bind_of_ok hp _

theorem run_latchKey_of_key {m m₁ m₂ : Machine T} {key : Byte} (hp : poll.run m = (.ok true, m₁))
    (hr : readKey.run
      { m₁ with memory := m₁.memory.write Memory.keyboardStatus Memory.keyReady } = (.ok key, m₂)) :
    latchKey.run m = (.ok (), { m₂ with
      memory := m₂.memory.write Memory.keyboardData (wordOfByte key) }) := by
  let m' : Machine T :=
    { m₁ with memory := m₁.memory.write Memory.keyboardStatus Memory.keyReady }
  exact (run_bind_of_ok hp _).trans (run_bind_of_ok (s := m') hr _)

theorem run_latchKey_of_error {m m₁ m₂ : Machine T} {f : Failure}
    (hp : poll.run m = (.ok true, m₁))
    (hr : readKey.run
      { m₁ with memory := m₁.memory.write Memory.keyboardStatus Memory.keyReady } = (.error f, m₂)) :
    latchKey.run m = (.error f, m₂) := by
  let m' : Machine T :=
    { m₁ with memory := m₁.memory.write Memory.keyboardStatus Memory.keyReady }
  exact (run_bind_of_ok hp _).trans (run_bind_of_error (s := m') hr _)

theorem run_readCell_status_of_ok {m m' : Machine T} (h : latchKey.run m = (.ok (), m')) :
    (readCell Memory.keyboardStatus).run m =
      (.ok (m'.memory.peek Memory.keyboardStatus), m') := by
  rw [readCell, if_pos rfl]
  exact run_bind_of_ok h _

theorem run_readCell_status_of_error {m m' : Machine T} {f : Failure}
    (h : latchKey.run m = (.error f, m')) :
    (readCell Memory.keyboardStatus).run m = (.error f, m') := by
  rw [readCell, if_pos rfl]
  exact run_bind_of_error h _

/-- **What the status register can say**: that no key is there, or that one is. -/
theorem status_of_readCell {m m' : Machine T} {w : Word}
    (h : (readCell Memory.keyboardStatus).run m = (.ok w, m')) :
    w = 0 ∨ w = Memory.keyReady := by
  rcases hp : poll.run m with ⟨f | ready, m₁⟩
  · have hlatch : latchKey.run m = (.error f, m₁) := run_bind_of_error hp _
    rw [run_readCell_status_of_error hlatch] at h
    cases h
  · cases ready with
    | false =>
      rw [run_readCell_status_of_ok (run_latchKey_of_none hp), Memory.peek_write_self] at h
      cases h
      exact Or.inl rfl
    | true =>
      rcases hr : readKey.run
        { m₁ with memory := m₁.memory.write Memory.keyboardStatus Memory.keyReady } with
        ⟨f | key, m₂⟩
      · rw [run_readCell_status_of_error (run_latchKey_of_error hp hr)] at h
        cases h
      · have hmemory : m₂.memory = m₁.memory.write Memory.keyboardStatus Memory.keyReady :=
          congrArg (fun r => r.2.memory) hr.symm
        rw [run_readCell_status_of_ok (run_latchKey_of_key hp hr), Memory.peek_write,
          if_neg (by decide), hmemory, Memory.peek_write_self] at h
        cases h
        exact Or.inr rfl

/-! What the instructions that read cells do with the first cell they read. -/

theorem run_effect_ld (dest : Reg) (offset : BitVec 9) (m : Machine T) :
    (effect (.ld dest offset)).run m =
      (readCell (m.registers.pc + Field.extended offset) >>= assign dest).run m := rfl

theorem run_effect_ldi (dest : Reg) (offset : BitVec 9) (m : Machine T) :
    (effect (.ldi dest offset)).run m =
      (readCell (m.registers.pc + Field.extended offset) >>= fun pointer =>
        readCell pointer >>= assign dest).run m := rfl

theorem run_effect_ldr (dest base : Reg) (offset : BitVec 6) (m : Machine T) :
    (effect (.ldr dest base offset)).run m =
      (readCell (m.registers.read (.general base) + Field.extended offset) >>=
        assign dest).run m := rfl

theorem run_effect_sti (src : Reg) (offset : BitVec 9) (m : Machine T) :
    (effect (.sti src offset)).run m =
      (readCell (m.registers.pc + Field.extended offset) >>= fun pointer =>
        readSlot (.general src) >>= writeCell pointer).run m := rfl

theorem run_effect_trap (s : Service) (m : Machine T) :
    (effect (.trap s)).run m = (serve s).run (m.called s) := rfl

/-! The two services that show strings, from the state in which they are called. -/

theorem run_serveWith_puts (read : Word → Action T Word) (m : Machine T) :
    (serveWith read .puts).run m =
      (showStringWith read (Memory.size * (Terminal.keysLeft m.console.terminal + 1))
        (m.registers.read (.general 0)) >>= fun _ => flush).run m := by
  rw [serveWith, run_bind_of_ok (run_get m)]

theorem run_serveWith_putsp (read : Word → Action T Word) (m : Machine T) :
    (serveWith read .putsp).run m =
      (showPackedWith read Memory.size (m.registers.read (.general 0)) >>=
        fun _ => flush).run m := by
  rw [serveWith, run_bind_of_ok (run_get m)]

theorem run_serve_puts (m : Machine T) :
    (serve .puts).run m =
      (showString (Memory.size * (Terminal.keysLeft m.console.terminal + 1))
        (m.registers.read (.general 0)) >>= fun _ => flush).run m :=
  run_serveWith_puts readCell m

theorem run_serve_putsp (m : Machine T) :
    (serve .putsp).run m =
      (showPacked Memory.size (m.registers.read (.general 0)) >>= fun _ => flush).run m :=
  run_serveWith_putsp readCell m

end Machine

/-- **What a read of a cell leaves alone**: whatever is left alone by a poll, by taking a key, and
by replacing one of the two cells of the keyboard. -/
theorem Keeps.readCell {T : Type} [Terminal T] {γ : Type} {view : Machine T → γ}
    (hpoll : Keeps view Machine.poll) (hkey : Keeps view Machine.readKey)
    (hcell : ∀ a, a = Memory.keyboardStatus ∨ a = Memory.keyboardData → ∀ w,
      Keeps view (Machine.writeCell a w))
    (address : Word) : Keeps view (Machine.readCell address) := by
  have hlatch : Keeps view Machine.latchKey := by
    refine hpoll.bind fun ready => ?_
    cases ready with
    | false => exact hcell _ (Or.inl rfl) 0
    | true =>
      refine (hcell _ (Or.inl rfl) Memory.keyReady).bind fun _ => hkey.bind fun key => ?_
      exact hcell _ (Or.inr rfl) (wordOfByte key)
  rw [Machine.readCell]
  split
  · exact hlatch.bind fun _ m => rfl
  · exact fun m => rfl

/-! ### Services that ask for a key -/

/-- A service that asks for a key. -/
def Service.IsAsking : Service → Prop
  | getc | input => True
  | _ => False

namespace Machine

variable {T : Type} [Terminal T]

/-- What is true of an action that does nothing, true of two actions one after the other if
it is true of both, and true of showing a byte and of passing on what was shown. -/
structure ClosedUnderShowing (P : Action T Unit → Prop) : Prop where
  pure : P (pure ())
  bind : ∀ {a b : Action T Unit}, P a → P b → P (a >>= fun _ => b)
  showByte : ∀ b, P (showByte b)
  flush : P flush

theorem ClosedUnderShowing.showText {P : Action T Unit → Prop} (h : ClosedUnderShowing P)
    (text : String) : P (showText text) := by
  rw [Machine.showText]
  induction bytesOfText text with
  | nil => exact h.pure
  | cons b rest ih => exact h.bind (h.showByte b) ih

/-- To show a text is to write its bytes to the terminal, one after the other. -/
theorem run_showText (text : String) (m : Machine T) :
    ∃ c, (showText text).run m = (.ok (), { m with console := c }) ∧
      c.terminal = (bytesOfText text).foldl Terminal.write m.console.terminal := by
  unfold Machine.showText
  generalize bytesOfText text = bytes
  induction bytes generalizing m with
  | nil => exact ⟨m.console, rfl, rfl⟩
  | cons b rest ih =>
    have hshow : (Machine.showByte b).run m = (.ok (), { m with console := m.console.write b }) :=
      rfl
    obtain ⟨c, hrun, hterminal⟩ := ih { m with console := m.console.write b }
    refine ⟨c, (run_bind_of_ok hshow _).trans hrun, ?_⟩
    rw [hterminal, m.console.write_eq]
    rfl

/-- What is shown and then passed on is written to the terminal before it is flushed. -/
theorem run_showText_flush (text : String) (m : Machine T) :
    ∃ c : Console T, (showText text >>= fun _ => flush).run m =
        (.ok (), { m with console := c.flush }) ∧
      c.terminal = (bytesOfText text).foldl Terminal.write m.console.terminal := by
  obtain ⟨c, hrun, hterminal⟩ := run_showText text m
  exact ⟨c, run_bind_of_ok hrun _, hterminal⟩

/-- The input service: it prompts, takes the key, shows it, and puts it into `R0`; and what it has
shown, it passes on. -/
theorem serve_input_eq : serve (T := T) .input =
    (showText Service.prompt >>= fun _ => flush) >>= fun _ => readKey >>= fun key =>
      (showByte key >>= fun _ => flush) >>= fun _ => receiveKey key := by
  simp only [serve, serveWith, bind_assoc]

/-- **What a service that asks for a key does**: it shows something, takes the key, shows
something, and puts the key into `R0`. -/
theorem serve_of_isAsking {P : Action T Unit → Prop} (h : ClosedUnderShowing P) {s : Service}
    (hs : s.IsAsking) :
    ∃ (before : Action T Unit) (after : Byte → Action T Unit), P before ∧ (∀ key, P (after key)) ∧
      serve s = before >>= fun _ => readKey >>= fun key =>
        after key >>= fun _ => receiveKey key := by
  cases s with
  | getc =>
    refine ⟨pure (), fun _ => pure (), h.pure, fun _ => h.pure, ?_⟩
    simp only [serve, serveWith, pure_bind]
  | input =>
    exact ⟨_, _, h.bind (h.showText _) h.flush, fun key => h.bind (h.showByte key) h.flush,
      serve_input_eq⟩
  | _ => cases hs

/-- What a service that halts the machine does: it shows something, halts the machine, and
leaves a notice. -/
theorem run_serve_halt {m : Machine T} {c : Console T}
    (h : (showText Service.farewell >>= fun _ => flush).run m =
      (.ok (), { m with console := c })) :
    (serve .halt).run m = (.ok (), { m with
      halted := true, console := c.note (.ended (m.cycles + 1)) }) := by
  have heq : serve (T := T) .halt =
      (showText Service.farewell >>= fun _ => flush) >>= fun _ => (do
        modify fun m => { m with halted := true }
        note (.ended ((← get).cycles + 1))) := by
    simp only [serve, serveWith, bind_assoc]
  rw [heq, run_bind_of_ok h]
  rfl

/-- What the next fetch finds calls a service. The status register can be fetched from as well, but
does not call anything then, whatever it holds. -/
structure Calls (m : Machine T) (s : Service) : Prop where
  notStatus : m.registers.pc ≠ Memory.keyboardStatus
  decoded : Instruction.decode (m.memory.peek m.registers.pc) = .trap s

theorem Calls.run_fetch {m : Machine T} {s : Service} (h : m.Calls s) :
    fetch.run m = (.ok (m.registers.pc, m.memory.peek m.registers.pc),
      m.fetched m.registers.pc) :=
  run_fetch_of_ok (run_readCell_of_ne h.notStatus m)

theorem calls_of_fetch {m m₁ : Machine T} {address w : Word} {s : Service}
    (hf : fetch.run m = (.ok (address, w), m₁)) (hw : Instruction.decode w = .trap s) :
    m.Calls s := by
  obtain ⟨rfl, m₀, hread, -⟩ := fetch_ok hf
  have hne : m.registers.pc ≠ Memory.keyboardStatus := by
    intro ha
    rw [ha] at hread
    rcases status_of_readCell hread with rfl | rfl <;> cases hw
  rw [run_readCell_of_ne hne] at hread
  cases hread
  exact ⟨hne, hw⟩

/-- A call of a service is not fetched from the keyboard status register, so its fetch has
moved the program counter and done nothing else. -/
theorem fetch_of_trap {m m₁ : Machine T} {address w : Word} {s : Service}
    (hf : fetch.run m = (.ok (address, w), m₁)) (hw : Instruction.decode w = .trap s) :
    address = m.registers.pc ∧ m₁ = m.fetched m.registers.pc := by
  cases hf.symm.trans (calls_of_fetch hf hw).run_fetch
  exact ⟨rfl, rfl⟩

end Machine

/-! ### Instructions without the console -/

/-- An instruction that reads no cell and calls no service. -/
def Instruction.IsSilent : Instruction → Prop
  | ld .. | ldi .. | ldr .. | sti .. | trap _ => False
  | _ => True

namespace Machine

variable {T : Type} [Terminal T]

/-- An action that returns, whatever the machine, and leaves the console alone. -/
def Silent (a : Action T Unit) : Prop :=
  ∀ m, (a.run m).1 = .ok () ∧ (a.run m).2.console = m.console

/-- **An instruction that reads no cell and calls no service** always returns, and has
nothing to do with the console. -/
theorem silent_effect {i : Instruction} (h : i.IsSilent) : Silent (effect (T := T) i) := by
  intro m
  cases i with
  | br cond offset =>
    rw [run_branch]
    split <;> exact ⟨rfl, rfl⟩
  | ld | ldi | ldr | sti | trap => cases h
  | _ => exact ⟨rfl, rfl⟩

/-! ### Instructions that read -/

/-- An action that returns, whatever the machine, and leaves the console alone. Unlike one that is
`LittleComputer.Machine.Silent` it may have a result. -/
def Aside {α : Type} (a : Action T α) : Prop :=
  ∀ m, ∃ x m', a.run m = (.ok x, m') ∧ m'.console = m.console

omit [Terminal T] in
theorem Silent.aside {a : Action T Unit} (h : Silent a) : Aside a := fun m =>
  ⟨(), (a.run m).2, Prod.ext (h m).1 rfl, (h m).2⟩

/-- What is true of an action that leaves the console alone and of a read of a cell, and true of
two actions one after the other if it is true of both. -/
structure ClosedUnderReading (P : (α : Type) → Action T α → Prop) : Prop where
  aside : ∀ {α : Type} {a : Action T α}, Aside a → P α a
  readCell : ∀ address, P Word (readCell address)
  bind : ∀ {α β : Type} {a : Action T α} {f : α → Action T β}, P α a → (∀ x, P β (f x)) →
    P β (a >>= f)

section ClosedUnderReading

variable {P : (α : Type) → Action T α → Prop}

omit [Terminal T] in
theorem aside_readSlot (s : Slot) : Aside (readSlot (T := T) s) := fun m => ⟨_, m, rfl, rfl⟩

theorem ClosedUnderReading.fetch (h : ClosedUnderReading P) : P _ (fetch (T := T)) := by
  refine h.bind (h.aside (aside_readSlot .pc)) fun address => ?_
  exact h.bind (h.readCell address) fun w => h.aside fun m => ⟨(address, w), _, rfl, rfl⟩

/-- **An instruction that calls no service** reads cells, and for the rest leaves the console
alone. -/
theorem ClosedUnderReading.effect (h : ClosedUnderReading P) {i : Instruction}
    (hi : ∀ s, i ≠ .trap s) : P Unit (effect i) := by
  have hrelative : ∀ distance, P Word (relativeTo distance) := fun distance =>
    h.aside fun m => ⟨_, m, rfl, rfl⟩
  have hassign : ∀ dest value, P Unit (assign dest value) := fun dest value =>
    h.aside fun m => ⟨(), _, rfl, rfl⟩
  cases i with
  | ld dest offset =>
    exact h.bind (hrelative _) fun address => h.bind (h.readCell address) (hassign dest)
  | ldi dest offset =>
    refine h.bind (hrelative _) fun address => h.bind (h.readCell address) fun pointer => ?_
    exact h.bind (h.readCell pointer) (hassign dest)
  | ldr dest base offset =>
    refine h.bind (h.aside fun m => ⟨_, m, rfl, rfl⟩) fun address => ?_
    exact h.bind (h.readCell address) (hassign dest)
  | sti src offset =>
    refine h.bind (hrelative _) fun address => h.bind (h.readCell address) fun pointer => ?_
    exact h.aside fun m => ⟨(), _, rfl, rfl⟩
  | trap s => exact absurd rfl (hi s)
  | _ => exact h.aside (silent_effect (by trivial)).aside

theorem ClosedUnderReading.showString (h : ClosedUnderReading P) (hshow : ∀ b, P Unit (showByte b))
    (bound : Nat) (address : Word) : P Unit (showString bound address) := by
  have hdone : P Unit (pure ()) := h.aside fun m => ⟨(), m, rfl, rfl⟩
  induction bound generalizing address with
  | zero => exact hdone
  | succ bound ih =>
    refine h.bind (h.readCell address) fun w => ?_
    split
    · exact hdone
    · exact h.bind (hshow _) fun _ => ih (address + 1)

theorem ClosedUnderReading.showPacked (h : ClosedUnderReading P) (hshow : ∀ b, P Unit (showByte b))
    (bound : Nat) (address : Word) : P Unit (showPacked bound address) := by
  have hdone : P Unit (pure ()) := h.aside fun m => ⟨(), m, rfl, rfl⟩
  induction bound generalizing address with
  | zero => exact hdone
  | succ bound ih =>
    refine h.bind (h.readCell address) fun w => ?_
    split
    · exact hdone
    · refine h.bind (hshow _) fun _ => ?_
      split
      · exact hdone
      · exact h.bind (hshow _) fun _ => ih (address + 1)

/-- **A service that asks for no key** reads cells, shows something, and may leave a notice. -/
theorem ClosedUnderReading.serve (h : ClosedUnderReading P) (hshow : ClosedUnderShowing (P Unit))
    (hnote : ∀ n, P Unit (note n)) {s : Service} (hs : ¬s.IsAsking) : P Unit (serve s) := by
  cases s with
  | getc | input => exact absurd trivial hs
  | out =>
    refine h.bind (h.aside (aside_readSlot _)) fun w => ?_
    exact hshow.bind (hshow.showByte _) hshow.flush
  | puts =>
    refine h.bind (h.aside fun m => ⟨m, m, rfl, rfl⟩) fun m => ?_
    exact hshow.bind (h.showString hshow.showByte _ _) hshow.flush
  | putsp =>
    refine h.bind (h.aside fun m => ⟨m, m, rfl, rfl⟩) fun m => ?_
    exact hshow.bind (h.showPacked hshow.showByte _ _) hshow.flush
  | halt =>
    refine hshow.bind (hshow.showText Service.farewell) (hshow.bind hshow.flush ?_)
    refine h.bind (h.aside fun m => ⟨(), _, rfl, rfl⟩) fun _ => ?_
    exact h.bind (h.aside fun m => ⟨m, m, rfl, rfl⟩) fun m => hnote _

end ClosedUnderReading

end Machine

end LittleComputer
