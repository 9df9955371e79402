import LittleComputer.Proofs.CycleLimit
import LittleComputer.Proofs.Reading

/-!
# Where the keys go

A machine takes a key from its script in two ways: a service that asks for one puts it
into `R0`, and a read of the keyboard status register puts it into the data register. Any
read of a cell can be one of the status register, so a key can be taken by a fetch, by a
load, by looking up a pointer and by showing a string.

What was taken is not counted by what is missing from the script. It is looked up where
it was put: for every action there is a list of the keys that it *delivered*, read off
from `R0` when a service has returned, and from the data register when a read of the status
register has said that a key is there. `LittleComputer.Machine.listen` is this for a read
that is followed by something else, and everything that reads cells is built of it. The
invariant, `LittleComputer.Machine.Delivers`, says of the machine before and after an action
that the keys delivered and the keys still to come are, in this order, the keys that were to
come before. It holds whether the action returns or fails, and also if an interrupt strikes
on the way.

The main statement, `LittleComputer.Processor.keys_are_delivered_in_order`, is about any
sequence of `LittleComputer.Processor.Command`s.
-/

namespace LittleComputer

open Memory

namespace Machine

/-- The keys still to come. -/
def keys (m : Machine ScriptedTerminal) : List Byte := m.console.terminal.keys

/-- The machine with other keys to come. -/
def withKeys (m : Machine ScriptedTerminal) (keys : List Byte) : Machine ScriptedTerminal :=
  m.withTerminal { m.console.terminal with keys }

variable {m m₁ m₂ : Machine ScriptedTerminal} {ks ls : List Byte}

/-! ### Taking a key -/

theorem run_poll_scripted (m : Machine ScriptedTerminal) :
    poll.run m = (.ok !m.keys.isEmpty, { m with console := (m.console.strike .poll).2 }) := by
  have hrun : poll.run m = (.ok !(m.console.strike .poll).2.terminal.keys.isEmpty,
      { m with console := (m.console.strike .poll).2 }) := rfl
  rw [hrun, m.console.strike_terminal .poll]
  rfl

/-- **A key is taken or it is not**: it was the first to come, or none is missing. -/
theorem readKey_cases (m : Machine ScriptedTerminal) :
    (∃ key c, readKey.run m = (.ok key, { m with console := c }) ∧
      m.keys = key :: c.terminal.keys) ∨
    ∃ f c, readKey.run m = (.error f, { m with console := c }) ∧ c.terminal.keys = m.keys := by
  have hrun : readKey.run m = (m.console.read.1, { m with console := m.console.read.2 }) := rfl
  have hterminal := m.console.strike_terminal .read
  rw [hrun, Console.read]
  rcases hstrike : m.console.strike .read with ⟨struck, c⟩
  rw [hstrike] at hterminal
  cases struck with
  | true => exact Or.inr ⟨.wait .cutShort, _, rfl, congrArg ScriptedTerminal.keys hterminal⟩
  | false =>
    obtain ⟨⟨keys, shown⟩, stop, alarm, guarded, journal⟩ := c
    have hkeys : m.keys = keys := congrArg ScriptedTerminal.keys hterminal.symm
    cases keys with
    | nil => exact Or.inr ⟨.hostIO .inputExhausted, _, rfl, hkeys.symm⟩
    | cons key rest => exact Or.inl ⟨key, _, rfl, hkeys⟩

theorem run_readKey_of_nil (h : m.console.Spares .read) (hk : m.keys = []) :
    readKey.run m = (.error (.hostIO .inputExhausted), m) := by
  have hread : Terminal.read m.console.terminal =
      (.error (.hostIO .inputExhausted), m.console.terminal, []) := by
    change ScriptedTerminal.read m.console.terminal = _
    rw [ScriptedTerminal.read, show m.console.terminal.keys = [] from hk]
  rw [run_readKey h, hread]
  rfl

theorem run_readKey_of_cons {key : Byte} {rest : List Byte} (h : m.console.Spares .read)
    (hk : m.keys = key :: rest) : readKey.run m = (.ok key, m.withKeys rest) := by
  have hread : Terminal.read m.console.terminal =
      (.ok key, { m.console.terminal with keys := rest }, []) := by
    change ScriptedTerminal.read m.console.terminal = _
    rw [ScriptedTerminal.read, show m.console.terminal.keys = key :: rest from hk]
  rw [run_readKey h, hread]
  rfl

/-! ### Reading the status register -/

/-- **Without a key** a read of the status register clears it and does nothing else. -/
theorem run_readCell_status_of_nil (h : m.console.Spares .poll) (hk : m.keys = []) :
    (readCell keyboardStatus).run m =
      (.ok 0, { m with memory := m.memory.write keyboardStatus 0 }) := by
  have hpoll : poll.run m = (.ok false, m) := by
    rw [run_poll_scripted, h.strike, hk]
    rfl
  rw [run_readCell_status_of_ok (run_latchKey_of_none hpoll), peek_write_self]

/-- **With a key to come** a read of the status register says so and takes the key into the
data register. -/
theorem run_readCell_status_of_cons {key : Byte} {rest : List Byte}
    (hp : m.console.Spares .poll) (hr : m.console.Spares .read) (hk : m.keys = key :: rest) :
    (readCell keyboardStatus).run m =
      (.ok keyReady, { m.withKeys rest with
        memory := (m.memory.write keyboardStatus keyReady).write keyboardData
          (wordOfByte key) }) := by
  have hpoll : poll.run m = (.ok true, m) := by
    rw [run_poll_scripted, hp.strike, hk]
    rfl
  let m₁ : Machine ScriptedTerminal :=
    { m with memory := m.memory.write keyboardStatus keyReady }
  have hread : readKey.run m₁ = (.ok key, m₁.withKeys rest) := run_readKey_of_cons hr hk
  have hcell : ((m.memory.write keyboardStatus keyReady).write keyboardData
      (wordOfByte key)).peek keyboardStatus = keyReady := by
    rw [peek_write, if_neg (by decide), peek_write_self]
  refine (run_readCell_status_of_ok (run_latchKey_of_key hpoll hread)).trans ?_
  exact congrArg (fun w => (Except.ok w, _)) hcell

/-! ### Deliveries -/

/-- From `m` to `m'` the keys `ks` were delivered, and none was lost. -/
def Delivers (m : Machine ScriptedTerminal) (ks : List Byte) (m' : Machine ScriptedTerminal) :
    Prop := ks ++ m'.keys = m.keys

theorem Delivers.trans (h : Delivers m ks m₁) (h' : Delivers m₁ ls m₂) :
    Delivers m (ks ++ ls) m₂ := by
  rw [Delivers, List.append_assoc, h', h]

/-- What a read of a cell has delivered, if it has found the word `w` and left the machine
as `m`. -/
def latched (address w : Word) (m : Machine ScriptedTerminal) : List Byte :=
  if address = keyboardStatus ∧ w = keyReady then [lowByte (m.memory.peek keyboardData)] else []

/-- What is delivered by a read of a cell and by what `rest` does with its content. -/
def listen (address : Word) (rest : Word → Machine ScriptedTerminal → List Byte)
    (m : Machine ScriptedTerminal) : List Byte :=
  match (readCell address).run m with
  | (.ok w, m) => latched address w m ++ rest w m
  | (.error _, _) => []

/-- **A read of a cell delivers what it has latched**, and nothing if it fails. -/
theorem delivers_readCell (address : Word) (m : Machine ScriptedTerminal) :
    match (readCell address).run m with
    | (.ok w, m') => Delivers m (latched address w m') m'
    | (.error _, m') => Delivers m [] m' := by
  by_cases ha : address = keyboardStatus
  · subst ha
    let m₁ : Machine ScriptedTerminal := { m with console := (m.console.strike .poll).2 }
    have hkeys₁ : m₁.keys = m.keys :=
      congrArg ScriptedTerminal.keys (m.console.strike_terminal .poll)
    have hpoll : poll.run m = (.ok !m.keys.isEmpty, m₁) := run_poll_scripted m
    cases hready : !m.keys.isEmpty with
    | false =>
      -- The status register is zero now, so nothing counts as latched.
      rw [hready] at hpoll
      rw [run_readCell_status_of_ok (run_latchKey_of_none hpoll), peek_write_self]
      change Delivers m (latched keyboardStatus 0 _) _
      rw [latched, if_neg (by decide)]
      exact hkeys₁
    | true =>
      rw [hready] at hpoll
      let m₂ : Machine ScriptedTerminal :=
        { m₁ with memory := m₁.memory.write keyboardStatus keyReady }
      rcases readKey_cases m₂ with ⟨key, c, hread, hkeys⟩ | ⟨f, c, hread, hkeys⟩
      · have hcell : (m₂.memory.write keyboardData (wordOfByte key)).peek keyboardStatus =
            keyReady := by
          rw [peek_write, if_neg (by decide), peek_write_self]
        rw [run_readCell_status_of_ok (run_latchKey_of_key hpoll hread)]
        change Delivers m (latched keyboardStatus
          ((m₂.memory.write keyboardData (wordOfByte key)).peek keyboardStatus) _) _
        rw [hcell, latched, if_pos ⟨rfl, rfl⟩, peek_write_self, lowByte_wordOfByte]
        exact hkeys.symm.trans hkeys₁
      · rw [run_readCell_status_of_error (run_latchKey_of_error hpoll hread)]
        exact hkeys.trans hkeys₁
  · rw [run_readCell_of_ne ha m]
    change Delivers m (latched address _ m) m
    rw [latched, if_neg fun hc => ha hc.1]
    rfl

theorem delivers_listen {α : Type} {f : Word → Action ScriptedTerminal α}
    {rest : Word → Machine ScriptedTerminal → List Byte} (address : Word)
    (hrest : ∀ w m', Delivers m' (rest w m') ((f w).run m').2) (m : Machine ScriptedTerminal) :
    Delivers m (listen address rest m) ((readCell address >>= f).run m).2 := by
  have hread := delivers_readCell address m
  rw [listen, run_bind]
  rcases hr : (readCell address).run m with ⟨e | w, m'⟩ <;> rw [hr] at hread
  · exact hread
  · exact hread.trans (hrest w m')

/-! ### Actions that only show something -/

/-- An action that returns, and does nothing but show something. -/
def Shows (a : Action ScriptedTerminal Unit) : Prop :=
  ∀ m, ∃ c, a.run m = (.ok (), { m with console := c }) ∧ c.terminal.keys = m.keys ∧
    c.guarded = m.console.guarded

theorem Shows.delivers {a : Action ScriptedTerminal Unit} (h : Shows a)
    (m : Machine ScriptedTerminal) : Delivers m [] (a.run m).2 := by
  obtain ⟨c, hrun, hkeys, -⟩ := h m
  rw [hrun]
  exact hkeys

theorem Shows.closed : ClosedUnderShowing Shows where
  pure := fun m => ⟨m.console, rfl, rfl, rfl⟩
  bind := by
    intro a b ha hb m
    obtain ⟨c, hrun, hkeys, hguarded⟩ := ha m
    obtain ⟨c', hrun', hkeys', hguarded'⟩ := hb { m with console := c }
    exact ⟨c', (run_bind_of_ok hrun _).trans hrun', hkeys'.trans hkeys, hguarded'.trans hguarded⟩
  showByte := by
    intro b m
    have hterminal := m.console.strike_terminal .write
    refine ⟨m.console.write b, rfl, ?_, (m.console.strike_request .write).1⟩
    change (m.console.strike .write).2.terminal.keys = m.keys
    rw [hterminal]
    rfl
  flush := fun m => ⟨m.console.flush, rfl, rfl, rfl⟩

/-! ### Services -/

variable {s : Service}

/-- **Without a key** a service that asks for one fails, and has only shown something. -/
theorem run_serve_of_nil (hs : s.IsAsking) (h : m.console.guarded = false) (hk : m.keys = []) :
    ∃ c, (serve s).run m = (.error (.hostIO .inputExhausted), { m with console := c }) ∧
      c.terminal.keys = [] := by
  obtain ⟨before, after, hbefore, -, heq⟩ := serve_of_isAsking Shows.closed hs
  obtain ⟨c, hrun, hkeys, hguarded⟩ := hbefore m
  have hread := run_readKey_of_nil (m := { m with console := c })
    (Console.spares_of_unguarded (hguarded.trans h) .read) (hkeys.trans hk)
  refine ⟨c, ?_, hkeys.trans hk⟩
  rw [heq, run_bind_of_ok hrun, run_bind_of_error hread]

/-- **With a key to come** a service that asks for one puts it into `R0`. -/
theorem run_serve_of_cons {key : Byte} {rest : List Byte} (hs : s.IsAsking)
    (h : m.console.guarded = false) (hk : m.keys = key :: rest) :
    ∃ c, (serve s).run m = (.ok (), { m.assigned 0 (wordOfByte key) with console := c }) ∧
      c.terminal.keys = rest := by
  obtain ⟨before, after, hbefore, hafter, heq⟩ := serve_of_isAsking Shows.closed hs
  obtain ⟨c, hrun, hkeys, hguarded⟩ := hbefore m
  have hread := run_readKey_of_cons (m := { m with console := c })
    (Console.spares_of_unguarded (hguarded.trans h) .read) (hkeys.trans hk)
  obtain ⟨c', hrun', hkeys', -⟩ := hafter key (withKeys { m with console := c } rest)
  refine ⟨c', ?_, hkeys'⟩
  rw [heq, run_bind_of_ok hrun, run_bind_of_ok hread, run_bind_of_ok hrun']
  rfl

/-- What a service that asks for a key has delivered: what is in `R0` when it has
returned. -/
def received (s : Service) (m : Machine ScriptedTerminal) : List Byte :=
  match (serve s).run m with
  | (.ok _, m) => [lowByte (m.registers.read (.general 0))]
  | (.error _, _) => []

theorem delivers_received (hs : s.IsAsking) (m : Machine ScriptedTerminal) :
    Delivers m (received s m) ((serve s).run m).2 := by
  obtain ⟨before, after, hbefore, hafter, heq⟩ := serve_of_isAsking Shows.closed hs
  obtain ⟨c, hrun, hkeys, -⟩ := hbefore m
  rw [received, heq, run_bind_of_ok hrun]
  rcases readKey_cases { m with console := c } with ⟨key, c', hread, hcons⟩ | ⟨f, c', hread, hsame⟩
  · obtain ⟨c'', hrun', hkeys', -⟩ := hafter key { m with console := c' }
    rw [run_bind_of_ok hread, run_bind_of_ok hrun']
    change [lowByte (({ m with console := c'' }.assigned 0 (wordOfByte key)).registers.read
      (.general 0))] ++ c''.terminal.keys = m.keys
    have hr0 : ({ m with console := c'' }.assigned 0 (wordOfByte key)).registers.read
        (.general 0) = wordOfByte key := by
      rw [assigned, Registers.read_write, if_neg Slot.noConfusion, Registers.read_write_self]
    rw [hr0, lowByte_wordOfByte, hkeys']
    exact hcons.symm.trans hkeys
  · rw [run_bind_of_error hread]
    exact hsame.trans hkeys

/-- What is delivered while a string is shown. -/
def deliveredAlong : (bound : Nat) → (address : Word) → Machine ScriptedTerminal → List Byte
  | 0, _ => fun _ => []
  | bound + 1, address =>
    listen address fun w m =>
      if w = 0 then [] else deliveredAlong bound (address + 1) ((showByte (lowByte w)).run m).2

/-- What is delivered while a string of packed characters is shown. -/
def deliveredAlongPacked :
    (bound : Nat) → (address : Word) → Machine ScriptedTerminal → List Byte
  | 0, _ => fun _ => []
  | bound + 1, address =>
    listen address fun w m =>
      if lowByte w = 0 ∨ highByte w = 0 then []
      else
        let m := ((showByte (lowByte w)).run m).2
        deliveredAlongPacked bound (address + 1) ((showByte (highByte w)).run m).2

theorem delivers_showString (bound : Nat) (address : Word) (m : Machine ScriptedTerminal) :
    Delivers m (deliveredAlong bound address m) ((showString bound address).run m).2 := by
  induction bound generalizing m address with
  | zero => rfl
  | succ bound ih =>
    refine delivers_listen address (fun w m₁ => ?_) m
    by_cases hw : w = 0
    · simp only [hw, if_true]
      rfl
    · simp only [hw, if_false]
      exact ((Shows.closed.showByte (lowByte w)).delivers m₁).trans (ih (address + 1) _)

theorem delivers_showPacked (bound : Nat) (address : Word) (m : Machine ScriptedTerminal) :
    Delivers m (deliveredAlongPacked bound address m) ((showPacked bound address).run m).2 := by
  induction bound generalizing m address with
  | zero => rfl
  | succ bound ih =>
    refine delivers_listen address (fun w m₁ => ?_) m
    by_cases hlow : lowByte w = 0
    · simp only [hlow, if_true, true_or]
      rfl
    have hshow := (Shows.closed.showByte (lowByte w)).delivers m₁
    by_cases hhigh : highByte w = 0
    · simp only [hlow, hhigh, if_true, if_false, or_true]
      exact hshow
    · simp only [hlow, hhigh, if_false, or_self]
      exact hshow.trans
        (((Shows.closed.showByte (highByte w)).delivers _).trans (ih (address + 1) _))

/-- What a service delivers. -/
def deliveredBy (s : Service) (m : Machine ScriptedTerminal) : List Byte :=
  match s with
  | .getc | .input => received s m
  | .puts =>
    deliveredAlong (size * (Terminal.keysLeft m.console.terminal + 1))
      (m.registers.read (.general 0)) m
  | .putsp => deliveredAlongPacked size (m.registers.read (.general 0)) m
  | .out | .halt => []

/-- What follows an action that cannot fail does not matter as long as it takes no key. -/
theorem Delivers.bind_shows {a b : Action ScriptedTerminal Unit}
    (ha : Delivers m ks (a.run m).2) (hb : Shows b) :
    Delivers m ks ((a >>= fun _ => b).run m).2 := by
  rw [run_bind]
  rcases hr : a.run m with ⟨e | _, m₁⟩ <;> rw [hr] at ha
  · exact ha
  · have h := ha.trans (hb.delivers m₁)
    rwa [List.append_nil] at h

/-- **Every service delivers the keys it takes.** -/
theorem delivers_serve (s : Service) (m : Machine ScriptedTerminal) :
    Delivers m (deliveredBy s m) ((serve s).run m).2 := by
  cases s with
  | getc => exact delivers_received (s := .getc) trivial m
  | input => exact delivers_received (s := .input) trivial m
  | out => exact (Shows.closed.bind (Shows.closed.showByte _)
      Shows.closed.flush).delivers m
  | puts =>
    rw [run_serve_puts]
    exact (delivers_showString _ _ m).bind_shows Shows.closed.flush
  | putsp =>
    rw [run_serve_putsp]
    exact (delivers_showPacked _ _ m).bind_shows Shows.closed.flush
  | halt =>
    obtain ⟨c, hrun, hkeys, -⟩ := Shows.closed.bind
      (Shows.closed.showText Service.farewell) Shows.closed.flush m
    rw [run_serve_halt hrun]
    exact hkeys

/-! ### Instructions -/

/-- What an instruction delivers. -/
def delivered (i : Instruction) (m : Machine ScriptedTerminal) : List Byte :=
  match i with
  | .ld _ offset | .sti _ offset =>
    listen (m.registers.pc + Field.extended offset) (fun _ _ => []) m
  | .ldr _ base offset =>
    listen (m.registers.read (.general base) + Field.extended offset) (fun _ _ => []) m
  | .ldi _ offset =>
    listen (m.registers.pc + Field.extended offset)
      (fun pointer => listen pointer fun _ _ => []) m
  | .trap s => deliveredBy s (m.called s)
  | _ => []

theorem delivers_of_isSilent {i : Instruction} (h : i.IsSilent) (m : Machine ScriptedTerminal) :
    Delivers m [] ((effect i).run m).2 :=
  congrArg (fun c : Console ScriptedTerminal => c.terminal.keys) (silent_effect h m).2

/-- **Every instruction delivers the keys it takes.** -/
theorem delivers_effect (i : Instruction) (m : Machine ScriptedTerminal) :
    Delivers m (delivered i m) ((effect i).run m).2 := by
  cases i with
  | ld dest offset =>
    rw [run_effect_ld]
    refine delivers_listen _ (fun _ _ => ?_) m
    rfl
  | ldr dest base offset =>
    rw [run_effect_ldr]
    refine delivers_listen _ (fun _ _ => ?_) m
    rfl
  | sti src offset =>
    rw [run_effect_sti]
    refine delivers_listen _ (fun _ _ => ?_) m
    rfl
  | ldi dest offset =>
    rw [run_effect_ldi]
    refine delivers_listen _ (fun pointer => delivers_listen pointer fun _ _ => ?_) m
    rfl
  | trap s =>
    rw [run_effect_trap]
    exact delivers_serve s (m.called s)
  | _ => exact delivers_of_isSilent (by trivial) m

/-- What the fetch of the next word and the instruction it holds deliver. -/
def deliveredNext (m : Machine ScriptedTerminal) : List Byte :=
  listen m.registers.pc
    (fun w m' => delivered (Instruction.decode w)
      ((m'.fetched m.registers.pc).announced m.registers.pc w)) m

theorem keys_settled (m : Machine ScriptedTerminal) (address instruction : Word) :
    (m.settled address instruction).keys = m.keys :=
  congrArg ScriptedTerminal.keys (terminal_settled m address instruction)

/-- **A fetch and the instruction fetched deliver the keys they take**, also if they
fail. -/
theorem delivers_attempt (m : Machine ScriptedTerminal) :
    Delivers m m.deliveredNext (attempt.run m).2 := by
  have hread := delivers_readCell m.registers.pc m
  rw [deliveredNext, listen]
  rcases hr : (readCell m.registers.pc).run m with ⟨e | w, m₁⟩ <;> rw [hr] at hread
  · rw [attempt, run_bind_of_error (run_fetch_of_error hr)]
    exact hread
  · have hfetch : fetch.run m = (.ok (m.registers.pc, w), m₁.fetched m.registers.pc) :=
      run_fetch_of_ok hr
    have heffect := delivers_effect (Instruction.decode w)
      ((m₁.fetched m.registers.pc).announced m.registers.pc w)
    have hkeys : (attempt.run m).2.keys = _ :=
      congrArg ScriptedTerminal.keys (terminal_attempt hfetch)
    refine hread.trans ?_
    rw [Delivers, hkeys]
    exact heffect

end Machine

/-! ### Processors -/

namespace Processor

/-- What a step delivers. -/
def delivered (p : Processor ScriptedTerminal) : List Byte :=
  if p.machine.halted || p.reachedLimit.isSome then [] else p.machine.deliveredNext

/-- What a run delivers. -/
def deliveredIn : (allowance : Nat) → Processor ScriptedTerminal → List Byte
  | 0, _ => []
  | allowance + 1, p =>
    match boundary.run p with
    | (.ok none, p) =>
      match step.run p with
      | (.ok _, q) => p.delivered ++ q.deliveredIn allowance
      | (.error _, _) => p.delivered
    | _ => []

theorem delivers_step (p : Processor ScriptedTerminal) :
    Machine.Delivers p.machine p.delivered (step.run p).2.machine := by
  have hattempt := Machine.delivers_attempt p.machine
  rcases step_cases p with ⟨hr, hs⟩ | ⟨n, hr, hn, hs⟩ | ⟨f, m, hr, hn, ha, hs⟩ |
    ⟨a, w, m, hr, hn, ha, hs⟩
  · rw [hs, delivered, hr]
    rfl
  · rw [hs, delivered, hr, hn]
    rfl
  · rw [ha] at hattempt
    rw [hs, delivered, hr, hn]
    exact hattempt
  · rw [ha] at hattempt
    rw [hs, delivered, hr, hn]
    exact hattempt

theorem keys_boundary (p : Processor ScriptedTerminal) :
    (boundary.run p).2.machine.keys = p.machine.keys := by
  rcases boundary_cases p with ⟨-, hb⟩ | ⟨-, -, hb⟩ | ⟨-, -, hb⟩ <;> rw [hb]
  rfl

/-- **Every run delivers the keys it takes.** -/
theorem delivers_run (allowance : Nat) (p : Processor ScriptedTerminal) :
    Machine.Delivers p.machine (p.deliveredIn allowance) ((run allowance).run p).2.machine := by
  induction allowance generalizing p with
  | zero => exact keys_boundary p
  | succ allowance ih =>
    have hb := keys_boundary p
    rw [run, run_bind, deliveredIn]
    rcases hbound : boundary.run p with ⟨f | _ | trace, p'⟩ <;> rw [hbound] at hb
    · exact hb
    · -- The run goes on: one step, and the run after it.
      have hstart : Machine.Delivers p.machine [] p'.machine := hb
      have hstep := delivers_step p'
      change Machine.Delivers p.machine _
        ((step >>= fun _ => run allowance).run p').2.machine
      rw [run_bind]
      rcases hs : step.run p' with ⟨f | c, q⟩ <;> rw [hs] at hstep
      · simp only [hs]
        exact hstart.trans hstep
      · simp only [hs]
        exact hstart.trans (hstep.trans (ih q))
    · exact hb

/-- What can be done with a machine on a script from outside. -/
inductive Command
  /-- Load an image. -/
  | loadImage (name : String) (bytes : List Byte)
  /-- Load an image from a file. -/
  | loadFile (reader : FileReader) (path : String)
  /-- Carry out one instruction. -/
  | step
  /-- Run. -/
  | run (allowance : Nat)
  /-- Run with interrupts routed to the machine. -/
  | guardedRun (allowance : Nat)
  /-- Set or cancel the interrupt to come. -/
  | interrupt (alarm : Option Alarm)
  /-- Ask for a stop between two instructions. -/
  | requestStop
  /-- Switch the machine off and on again. -/
  | reset
  /-- Read a cell as an instruction does. -/
  | read (address : Word)
  /-- Look into a cell. -/
  | peek (address : Word)
  /-- Replace the content of a cell. -/
  | write (address value : Word)

namespace Command

/-- The processor after a command. -/
def perform (p : Processor ScriptedTerminal) : Command → Processor ScriptedTerminal
  | loadImage name bytes => ((onMachine (Machine.loadImage name bytes)).run p).2
  | loadFile reader path => ((onMachine (Machine.loadFile reader path)).run p).2
  | step => (Processor.step.run p).2
  | run allowance => ((Processor.run allowance).run p).2
  | guardedRun allowance => ((Processor.guardedRun allowance).run p).2
  | interrupt alarm => p.onConsole fun c => { c with alarm }
  | requestStop => p.requestStop
  | reset => p.reset
  | read address => ((onMachine (Machine.readCell address)).run p).2
  | peek address => ((onMachine (Primitive.peek address).perform).run p).2
  | write address value => ((onMachine (Machine.writeCell address value)).run p).2

/-- What a command delivers. -/
def delivered (p : Processor ScriptedTerminal) : Command → List Byte
  | step => p.delivered
  | run allowance => p.deliveredIn allowance
  | guardedRun allowance => (p.guarded true).deliveredIn allowance
  | read address => Machine.listen address (fun _ _ => []) p.machine
  | _ => []

theorem keys_of_loading {α : Type} {a : ∀ (T : Type) [Terminal T], LittleComputer.Action T α}
    (ha : Composed Primitive.IsLoading a) :
    Keeps (fun m => (m.keys, m.console.guarded)) (a ScriptedTerminal) := by
  refine ha.keeps fun α c hc m => ?_
  cases c with
  | note | load => rfl
  | _ => cases hc

/-- **Every command delivers the keys it takes**, and leaves interrupts unrouted if they
were. -/
theorem delivers_perform (c : Command) {p : Processor ScriptedTerminal}
    (h : p.machine.console.guarded = false) :
    Machine.Delivers p.machine (c.delivered p) (c.perform p).machine ∧
      (c.perform p).machine.console.guarded = false := by
  cases c with
  | loadImage name bytes =>
    obtain ⟨hk, hg⟩ := Prod.mk.inj (keys_of_loading (Machine.composed_loadImage name bytes)
      p.machine)
    exact ⟨hk, hg.trans h⟩
  | loadFile reader path =>
    obtain ⟨hk, hg⟩ := Prod.mk.inj (keys_of_loading (Machine.composed_loadFile reader path)
      p.machine)
    exact ⟨hk, hg.trans h⟩
  | step =>
    have hg := congrArg Prod.fst (keeps_step (fun _ => keeps_request) (fun _ => rfl) p)
    exact ⟨delivers_step p, hg.trans h⟩
  | run allowance => exact ⟨delivers_run allowance p, (keeps_guarded_run allowance p).trans h⟩
  | guardedRun allowance => exact ⟨delivers_run allowance (p.guarded true), rfl⟩
  | interrupt alarm => exact ⟨rfl, h⟩
  | requestStop => exact ⟨rfl, h⟩
  | reset => exact ⟨rfl, h⟩
  | read address =>
    have hread := Machine.delivers_listen (f := pure) address
      (fun _ _ => (rfl : Machine.Delivers _ [] _)) p.machine
    rw [bind_pure] at hread
    exact ⟨hread, (congrArg Prod.fst ((Machine.mild_readCell address).plain.keeps
      (fun _ c _ => keeps_request c) p.machine)).trans h⟩
  | peek address => exact ⟨rfl, h⟩
  | write address value => exact ⟨rfl, h⟩

end Command

/-! ### Sequences of commands -/

/-- The processor after some commands. -/
def after (p : Processor ScriptedTerminal) (commands : List Command) :
    Processor ScriptedTerminal :=
  commands.foldl Command.perform p

/-- What is delivered by some commands, one after the other. -/
def deliveredOver (p : Processor ScriptedTerminal) : List Command → List Byte
  | [] => []
  | c :: rest => c.delivered p ++ (c.perform p).deliveredOver rest

theorem delivers_after {p : Processor ScriptedTerminal} (h : p.machine.console.guarded = false)
    (commands : List Command) :
    Machine.Delivers p.machine (p.deliveredOver commands) (p.after commands).machine ∧
      (p.after commands).machine.console.guarded = false := by
  induction commands generalizing p with
  | nil => exact ⟨rfl, h⟩
  | cons c rest ih =>
    obtain ⟨hc, hg⟩ := c.delivers_perform h
    obtain ⟨hrest, hend⟩ := ih hg
    exact ⟨hc.trans hrest, hend⟩

/-- A command that has nothing to do with the keyboard. -/
def Command.IsQuiet : Command → Prop
  | step | run _ | guardedRun _ => False
  | read address => address ≠ keyboardStatus
  | _ => True

/-- A command that has nothing to do with the keyboard delivers nothing. -/
theorem Command.delivered_of_isQuiet {c : Command} (h : c.IsQuiet)
    (p : Processor ScriptedTerminal) : c.delivered p = [] := by
  cases c with
  | read address =>
    simp only [delivered, Machine.listen, Machine.run_readCell_of_ne h]
    rw [Machine.latched, if_neg fun hc => h hc.1]
    rfl
  | step | run | guardedRun => cases h
  | _ => rfl

/-- **Keys are delivered in order, each of them once.** A machine on a script of `keys` is
switched on with any program, and any commands are carried out.

* At that point the keys delivered so far, followed by those still to come, are `keys`. A
  key is delivered if it was found in `R0` when a service that asks for one had returned, or
  in the data register after a read of the status register.
* A command that does not carry out instructions takes no key, unless it is a read of the
  status register.

Whatever the machine, as long as no interrupt can reach it:

* A read of another cell changes nothing at all, and an instruction that reads no cell and
  calls no service takes no key.
* If no key is left, a read of the status register clears it and changes nothing else, and a
  service that asks for a key fails without having touched registers or memory.
* If a key is left, a read of the status register sets its top bit, puts the key into the
  data register, takes it from the script and changes nothing else; and a service that asks
  for a key returns with it in `R0`. -/
theorem keys_are_delivered_in_order (program : Memory) (keys : List Byte) (journal : Journal)
    (limit : Option Int) (tracing : Bool) (depth : Nat) (commands : List Command) :
    let start := launch program { terminal := ({ keys } : ScriptedTerminal), journal } limit
      tracing depth
    let p := start.after commands
    (start.deliveredOver commands ++ p.machine.keys = keys ∧
      p.machine.console.guarded = false ∧
      ∀ c : Command, c.IsQuiet → (c.perform p).machine.keys = p.machine.keys) ∧
    ∀ m : Machine ScriptedTerminal, m.console.guarded = false →
      (∀ address, address ≠ keyboardStatus →
        (Machine.readCell address).run m = (.ok (m.memory.peek address), m)) ∧
      (∀ i : Instruction, i.IsSilent → ((Machine.effect i).run m).2.keys = m.keys) ∧
      (m.keys = [] →
        (Machine.readCell keyboardStatus).run m =
          (.ok 0, { m with memory := m.memory.write keyboardStatus 0 }) ∧
        ∀ s : Service, s.IsAsking → ∃ c, c.terminal.keys = [] ∧
          (Machine.serve s).run m = (.error (.hostIO .inputExhausted), { m with console := c })) ∧
      ∀ key rest, m.keys = key :: rest →
        (Machine.readCell keyboardStatus).run m =
          (.ok keyReady, { m.withKeys rest with
            memory := (m.memory.write keyboardStatus keyReady).write keyboardData
              (wordOfByte key) }) ∧
        ∀ s : Service, s.IsAsking → ∃ c, c.terminal.keys = rest ∧
          (Machine.serve s).run m =
            (.ok (), { m.assigned 0 (wordOfByte key) with console := c }) := by
  intro start p
  obtain ⟨hdelivers, hguarded⟩ := delivers_after (p := start) rfl commands
  refine ⟨⟨hdelivers, hguarded, fun c hc => ?_⟩, fun m h => ⟨fun address ha => ?_, fun i hi => ?_,
    fun hk => ⟨?_, fun s hs => ?_⟩, fun key rest hk => ⟨?_, fun s hs => ?_⟩⟩⟩
  · have hquiet := (c.delivers_perform hguarded).1
    rw [c.delivered_of_isQuiet hc] at hquiet
    exact hquiet
  · exact Machine.run_readCell_of_ne ha m
  · exact Machine.delivers_of_isSilent hi m
  · exact Machine.run_readCell_status_of_nil (Console.spares_of_unguarded h _) hk
  · obtain ⟨c, hrun, hkeys⟩ := Machine.run_serve_of_nil hs h hk
    exact ⟨c, hkeys, hrun⟩
  · exact Machine.run_readCell_status_of_cons (Console.spares_of_unguarded h _)
      (Console.spares_of_unguarded h _) hk
  · obtain ⟨c, hrun, hkeys⟩ := Machine.run_serve_of_cons hs h hk
    exact ⟨c, hkeys, hrun⟩

/-- A processor that will read the status register through a pointer and then ask for a
key. -/
def pollAndAsk : Processor ScriptedTerminal :=
  launch (Memory.cleared.load 0x3000 [0xA001, 0xF020, 0xFE00])
    { terminal := { keys := [0x41, 0x42] } } none false 0

/-- The first key goes to the data register and the second to `R0`; then there is none. -/
theorem keys_of_pollAndAsk :
    let p := pollAndAsk.after [.step, .step]
    pollAndAsk.deliveredOver [.step, .step] = [0x41, 0x42] ∧ p.machine.keys = [] ∧
      p.machine.memory.peek keyboardData = 0x41 ∧
      p.machine.registers.read (.general 0) = 0x42 ∧
      ((Command.write keyboardStatus 0).perform p).machine.keys = [] ∧
      (Machine.readCell keyboardData).run p.machine = (.ok 0x41, p.machine) ∧
      ((Machine.effect (.lea 0 0)).run p.machine).2.keys = [] ∧
      (Machine.readCell keyboardStatus).run p.machine =
        (.ok 0, { p.machine with memory := p.machine.memory.write keyboardStatus 0 }) ∧
      (∃ c, (Machine.serve .getc).run p.machine =
        (.error (.hostIO .inputExhausted), { p.machine with console := c })) ∧
      ((Machine.readCell keyboardStatus).run pollAndAsk.machine).2.keys = [0x42] ∧
      ((Machine.serve .input).run pollAndAsk.machine).2.keys = [0x42] := by
  intro p
  obtain ⟨⟨hdelivers, hguarded, hquiet⟩, hlaws⟩ := keys_are_delivered_in_order
    (Memory.cleared.load 0x3000 [0xA001, 0xF020, 0xFE00]) [0x41, 0x42] Journal.silent none false 0
    [.step, .step]
  have hdelivered : pollAndAsk.deliveredOver [.step, .step] = [0x41, 0x42] := by decide
  have hkeys : p.machine.keys = [] := by
    have h : pollAndAsk.deliveredOver [.step, .step] ++ p.machine.keys = [0x41, 0x42] := hdelivers
    rw [hdelivered] at h
    exact List.append_cancel_left (h.trans (List.append_nil _).symm)
  obtain ⟨hother, hsilent, hnone, -⟩ := hlaws p.machine hguarded
  obtain ⟨-, -, -, hkey⟩ := hlaws pollAndAsk.machine rfl
  obtain ⟨hstatus, hask⟩ := hnone hkeys
  obtain ⟨hready, htake⟩ := hkey 0x41 [0x42] rfl
  refine ⟨hdelivered, hkeys, by decide, by decide,
    (hquiet (.write keyboardStatus 0) trivial).trans hkeys, ?_, ?_, hstatus, ?_, ?_, ?_⟩
  · rw [hother keyboardData (by decide)]
    rfl
  · exact (hsilent (.lea 0 0) trivial).trans hkeys
  · obtain ⟨c, -, hc⟩ := hask .getc trivial
    exact ⟨c, hc⟩
  · rw [hready]
    rfl
  · obtain ⟨c, hc, hrun⟩ := htake .input trivial
    rw [hrun]
    exact hc

end Processor

end LittleComputer
