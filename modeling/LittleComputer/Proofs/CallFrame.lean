import LittleComputer.Proofs.AbandonedWait
import LittleComputer.Proofs.Halting
import LittleComputer.Proofs.LimitedRun
import LittleComputer.Proofs.StringBounds

/-!
# What a call of a service changes

A call of a service is two things one after the other: the link that every trap leaves in `R7`, and
one of six routines, which have little in common. What the routines do is said here once for each
kind, on a script.

* A service that asks for a key shows something, takes the key, shows something, and assigns the key
  to `R0`. If there is no key it has shown something and done nothing else
  (`LittleComputer.Machine.serve_cases_of_isAsking`).
* A service that shows a string reads cells. Only a read of the keyboard status register does more
  than look, and what it changes is the two cells of the keyboard and the keys
  (`LittleComputer.Machine.Onward`). This is carried along the walk through the string, so nothing
  has to be known of the string itself.
* The other two show something.

Put together with the link this is the frame of a call, `LittleComputer.Machine.CallFrame`, and the
main statement is `LittleComputer.Processor.completed_call_has_frame`.
-/

namespace LittleComputer

open Memory

theorem highByte_wordOfByte (b : Byte) : highByte (wordOfByte b) = 0 := by
  apply BitVec.eq_of_toNat_eq
  rw [highByte, BitVec.toNat_ofNat, toNat_wordOfByte, Nat.div_eq_of_lt b.isLt]
  rfl

namespace Machine

/-- Everything shown so far. -/
def output (m : Machine ScriptedTerminal) : List Byte := m.console.terminal.output

variable {m m' m₁ : Machine ScriptedTerminal} {s : Service}

theorem output_strike (m : Machine ScriptedTerminal) (call : Call) :
    (m.console.strike call).2.terminal.output = m.output :=
  congrArg ScriptedTerminal.output (m.console.strike_terminal call)

theorem keeps_output_poll : Keeps output (poll (T := ScriptedTerminal)) := by
  intro m
  rw [run_poll_scripted]
  exact m.output_strike .poll

/-- To take a key shows nothing, and if there is none because the script has ended, none was
there. -/
theorem run_readKey_scripted (m : Machine ScriptedTerminal) :
    (readKey.run m).2.output = m.output ∧
      ∀ reason, (readKey.run m).1 = .error (.hostIO reason) → m.keys = [] := by
  have hrun : readKey.run m = (m.console.read.1, { m with console := m.console.read.2 }) := rfl
  rw [hrun]
  rcases m.console.read_cases with ⟨u, ns, hw, hread⟩ | hread <;> rw [hread]
  · cases hw
    exact ⟨rfl, by rintro reason ⟨⟩⟩
  · cases hkeys : m.console.terminal.keys with
    | nil =>
      refine ⟨?_, fun _ _ => hkeys⟩
      change (ScriptedTerminal.read m.console.terminal).2.1.output = m.output
      rw [ScriptedTerminal.read, hkeys]
      rfl
    | cons key rest =>
      have hanswer : ScriptedTerminal.read m.console.terminal =
          (.ok key, { m.console.terminal with keys := rest }, []) := by
        rw [ScriptedTerminal.read, hkeys]
      refine ⟨?_, fun reason h => ?_⟩
      · change (ScriptedTerminal.read m.console.terminal).2.1.output = m.output
        rw [hanswer]
        rfl
      · change (ScriptedTerminal.read m.console.terminal).1 = _ at h
        rw [hanswer] at h
        cases h

theorem keeps_output_readKey : Keeps output (readKey (T := ScriptedTerminal)) := fun m =>
  m.run_readKey_scripted.1

/-! ### Services that ask for a key -/

/-- An action that returns, and does nothing but show the given bytes. -/
def ShowsBytes (bytes : List Byte) (a : Action ScriptedTerminal Unit) : Prop :=
  ∀ m, ∃ c, a.run m = (.ok (), { m with console := c }) ∧ c.terminal.keys = m.keys ∧
    c.terminal.output = m.output ++ bytes

theorem showsBytes_pure : ShowsBytes [] (pure ()) := fun m =>
  ⟨m.console, rfl, rfl, (List.append_nil _).symm⟩

theorem showsBytes_text (text : String) :
    ShowsBytes (bytesOfText text) (showText text >>= fun _ => flush) := by
  intro m
  obtain ⟨c, hrun, hterminal⟩ := run_showText_flush text m
  rw [ScriptedTerminal.foldl_write] at hterminal
  refine ⟨c.flush, hrun, ?_, ?_⟩
  · change c.terminal.keys = m.keys
    rw [hterminal]
    rfl
  · change c.terminal.output = _
    rw [hterminal]
    simp [ScriptedTerminal.output, output]

theorem showsBytes_byte (b : Byte) : ShowsBytes [b] (showByte b >>= fun _ => flush) := by
  intro m
  obtain ⟨houtput, hkeys⟩ := m.scripted_shows [b]
  exact ⟨(m.console.write b).flush, rfl, hkeys, houtput⟩

end Machine

/-- What a service that asks for a key shows before it does. -/
def Service.opening : Service → List Byte
  | input => bytesOfText prompt
  | _ => []

/-- What a service that asks for a key shows when it has one. -/
def Service.echo : Service → Byte → List Byte
  | input, key => [key]
  | _, _ => []

namespace Machine

variable {m m' m₁ : Machine ScriptedTerminal} {s : Service}

/-- **How a service that asks for a key ends**: it has shown its opening; and then there was a key,
which it has shown and assigned to `R0`, or it has failed and done nothing else. -/
theorem serve_cases_of_isAsking (hs : s.IsAsking) (m : Machine ScriptedTerminal) :
    (∃ key c, (serve s).run m = (.ok (), { m.assigned 0 (wordOfByte key) with console := c }) ∧
      m.keys = key :: c.terminal.keys ∧
      c.terminal.output = m.output ++ s.opening ++ s.echo key) ∨
    ∃ f c, (serve s).run m = (.error f, { m with console := c }) ∧ c.terminal.keys = m.keys ∧
      c.terminal.output = m.output ++ s.opening ∧ ∀ reason, f = .hostIO reason → m.keys = [] := by
  obtain ⟨before, after, hbefore, hafter, heq⟩ :
      ∃ (before : Action ScriptedTerminal Unit) (after : Byte → Action ScriptedTerminal Unit),
        ShowsBytes s.opening before ∧ (∀ key, ShowsBytes (s.echo key) (after key)) ∧
        serve s = before >>= fun _ => readKey >>= fun key =>
          after key >>= fun _ => receiveKey key := by
    cases s with
    | getc =>
      refine ⟨pure (), fun _ => pure (), showsBytes_pure, fun _ => showsBytes_pure, ?_⟩
      simp only [serve, serveWith, pure_bind]
    | input => exact ⟨_, _, showsBytes_text _, showsBytes_byte, serve_input_eq⟩
    | _ => cases hs
  obtain ⟨c, hrun, hkeys, houtput⟩ := hbefore m
  rw [heq, run_bind_of_ok hrun]
  obtain ⟨hshown, hreason⟩ := run_readKey_scripted { m with console := c }
  rcases readKey_cases { m with console := c } with
    ⟨key, c', hread, hcons⟩ | ⟨f, c', hread, hsame⟩ <;> rw [hread] at hshown hreason
  · obtain ⟨c'', hrun', hkeys', houtput'⟩ := hafter key { m with console := c' }
    refine Or.inl ⟨key, c'', ?_, ?_, ?_⟩
    · rw [run_bind_of_ok hread, run_bind_of_ok hrun']
      rfl
    · rw [← hkeys, hkeys']
      exact hcons
    · rw [houtput', ← houtput]
      exact congrArg (· ++ s.echo key) hshown
  · refine Or.inr ⟨f, c', run_bind_of_error hread _, hsame.trans hkeys, hshown.trans houtput, ?_⟩
    rintro reason rfl
    rw [← hkeys]
    exact hreason reason rfl

/-! ### Services that show strings -/

/-- **What the reading and showing of cells changes**: it shows something, and if the keyboard
status register is among the cells that are read, which is what `status` says, it can change the two
cells of the keyboard and take keys. -/
structure Onward (status : Prop) (m m' : Machine ScriptedTerminal) : Prop where
  registers : m'.registers = m.registers
  cells : ∀ a, a ≠ keyboardStatus → a ≠ keyboardData → m'.memory.peek a = m.memory.peek a
  output : m.output <+: m'.output
  untouched : ¬status → m'.memory = m.memory ∧ m'.keys = m.keys

theorem Onward.trans {status status' : Prop} (h : Onward status m m₁) (h' : Onward status' m₁ m') :
    Onward (status ∨ status') m m' where
  registers := h'.registers.trans h.registers
  cells := fun a hs hd => (h'.cells a hs hd).trans (h.cells a hs hd)
  output := h.output.trans h'.output
  untouched := fun hn => by
    obtain ⟨hs, hs'⟩ := not_or.mp hn
    exact ⟨(h'.untouched hs').1.trans (h.untouched hs).1,
      (h'.untouched hs').2.trans (h.untouched hs).2⟩

theorem onward_readCell (address : Word) (m : Machine ScriptedTerminal) :
    Onward (address = keyboardStatus) m ((readCell address).run m).2 where
  registers := Keeps.readCell (fun _ => rfl) (fun _ => rfl) (fun _ _ _ _ => rfl) address m
  cells := fun a hs hd => by
    have hwrite : ∀ b, b = keyboardStatus ∨ b = keyboardData → ∀ w,
        Keeps (fun m : Machine ScriptedTerminal => m.memory.peek a) (writeCell b w) := by
      intro b hb w n
      have hne : b ≠ a := by
        rintro rfl
        exact hb.elim hs hd
      exact (Memory.peek_write n.memory b a w).trans (if_neg hne)
    exact Keeps.readCell (fun _ => rfl) (fun _ => rfl) hwrite address m
  output := by
    have hkeeps := Keeps.readCell keeps_output_poll keeps_output_readKey fun _ _ _ _ => rfl
    exact ⟨[], (List.append_nil _).trans (hkeeps address m).symm⟩
  untouched := fun hne => by
    rw [run_readCell_of_ne hne]
    exact ⟨rfl, rfl⟩

theorem onward_shows (m : Machine ScriptedTerminal) (bytes : List Byte) :
    Onward False m (m.shows bytes) where
  registers := rfl
  cells := fun _ _ _ => rfl
  output := ⟨bytes, (m.scripted_shows bytes).1.symm⟩
  untouched := fun _ => ⟨rfl, (m.scripted_shows bytes).2⟩

/-- To show something of a cell after it has been read changes nothing more. -/
theorem onward_cell {cell : Word → Action ScriptedTerminal Bool}
    (hcell : ∀ a n, ∃ bytes, ((cell a).run n).2 = ((readCell a).run n).2.shows bytes)
    (address : Word) (m : Machine ScriptedTerminal) :
    Onward (address = keyboardStatus) m ((cell address).run m).2 := by
  obtain ⟨bytes, hshows⟩ := hcell address m
  have htrans := (onward_readCell address m).trans (onward_shows _ bytes)
  rwa [or_false, ← hshows] at htrans

/-- **Along a walk** the same holds, for all cells that are read on it. -/
theorem Walk.onward {cell : Word → Action ScriptedTerminal Bool}
    (hcell : ∀ a n, ∃ bytes, ((cell a).run n).2 = ((readCell a).run n).2.shows bytes)
    {address : Word} {visited : List Word} {r : Except Failure Unit}
    (h : Walk cell address m visited r m') : Onward (keyboardStatus ∈ visited) m m' := by
  induction h with
  | @stop address m m' hrun =>
    have hone := onward_cell hcell address m
    rw [hrun] at hone
    rwa [List.mem_singleton, eq_comm]
  | @fail address m m' f hrun =>
    have hone := onward_cell hcell address m
    rw [hrun] at hone
    rwa [List.mem_singleton, eq_comm]
  | @more address m m₁ m' visited r hrun _ ih =>
    have hone := onward_cell hcell address m
    rw [hrun] at hone
    rw [List.mem_cons, eq_comm]
    exact hone.trans ih

end Machine

/-- A service that shows a string, with what it does with one cell of it. -/
inductive Service.ShowsString {T : Type} [Terminal T] : Service → (Word → Action T Bool) → Prop
  | puts : ShowsString .puts Machine.showCell
  | putsp : ShowsString .putsp Machine.showPackedCell

/-- The cells that a call of a service reads when it returns, on the machine that has fetched the
call: those of a string, if the service shows one. -/
def Service.Reads (s : Service) (m : Machine ScriptedTerminal) (visited : List Word) : Prop :=
  ∃ cell m', s.ShowsString cell ∧ Machine.ReadsOut s cell m visited (.ok ()) m'

namespace Machine

variable {m m' m₁ m₂ : Machine ScriptedTerminal} {s : Service} {r : Except Failure Unit}
  {address w : Word}

/-- The keys of the script bound the walk through a string. -/
theorem Walk.length_le_keys {visited : List Word} (h : Walk showCell address m visited r m') :
    visited.length ≤ size * (m.keys.length + 1) := by
  have hlength := h.length_le (fun _ => True) (fun m => m.keys.length)
    (fun _ _ _ _ hrun => ⟨trivial, keys_of_showCell hrun⟩) trivial
  have hdistance := distance_lt address
  rw [Nat.mul_succ]
  omega

/-- **On a script every string is read to its end**, or to where the reading fails. -/
theorem exists_readsOut {cell : Word → Action ScriptedTerminal Bool} (h : s.ShowsString cell)
    (m : Machine ScriptedTerminal) : ∃ visited r m', ReadsOut s cell m visited r m' := by
  cases h with
  | puts =>
    obtain ⟨r, m₁, hends, -⟩ :=
      (m.called .puts).showString_ends_scripted (m.registers.read (.general 0))
    obtain ⟨visited, hwalk⟩ := hends.exists_walk
    exact ⟨visited, r, passedOn r m₁, hwalk.readsOut_puts hwalk.length_le_keys⟩
  | putsp =>
    obtain ⟨r, m₁, hends, -⟩ :=
      (m.called .putsp).showPacked_ends_within (m.registers.read (.general 0))
    obtain ⟨visited, hwalk⟩ := hends.exists_walk
    exact ⟨visited, r, passedOn r m₁, hwalk.readsOut_putsp hwalk.length_le_size⟩

/-- **A string that is shown to its end** changes what its cells allow to be changed. -/
theorem onward_of_showsString {cell : Word → Action ScriptedTerminal Bool} (hs : s.ShowsString cell)
    (h : (effect (.trap s)).run m = (.ok (), m')) :
    ∃ visited, s.Reads m visited ∧ Onward (keyboardStatus ∈ visited) (m.called s) m' := by
  obtain ⟨visited, r, m'', hreads⟩ := exists_readsOut hs m
  cases hreads.run.symm.trans h
  obtain ⟨m₁, hwalk, rfl⟩ := hreads.walk
  have honward : Onward (keyboardStatus ∈ visited) (m.called s) m₁ := by
    cases hs with
    | puts => exact hwalk.onward showCell_shows
    | putsp => exact hwalk.onward showPackedCell_shows
  -- What was shown is passed on, which a script does not notice.
  exact ⟨visited, ⟨cell, _, hs, hreads⟩, honward.registers, honward.cells, honward.output,
    honward.untouched⟩

/-! ### The other services -/

/-- A service that does nothing but show some bytes. -/
theorem run_effect_out (m : Machine ScriptedTerminal) :
    ∃ c, (effect (.trap .out)).run m = (.ok (), { m.called .out with console := c }) ∧
      c.terminal.keys = m.keys ∧
      c.terminal.output = m.output ++ [lowByte (m.registers.read (.general 0))] := by
  obtain ⟨c, hrun, hkeys, houtput⟩ :=
    showsBytes_byte (lowByte ((m.called .out).registers.read (.general 0))) (m.called .out)
  rw [read_called] at houtput
  refine ⟨c, ?_, hkeys, houtput⟩
  rw [run_effect_trap]
  exact hrun

theorem run_effect_halt (m : Machine ScriptedTerminal) :
    ∃ c, (effect (.trap .halt)).run m =
        (.ok (), { m.called .halt with halted := true, console := c }) ∧
      c.terminal.keys = m.keys ∧
      c.terminal.output = m.output ++ bytesOfText Service.farewell := by
  obtain ⟨c, hrun, hkeys, houtput⟩ := showsBytes_text Service.farewell (m.called .halt)
  refine ⟨c.note (.ended ((m.called .halt).cycles + 1)), ?_, hkeys, ?_⟩
  · rw [run_effect_trap, run_serve_halt hrun]
  · exact houtput

/-! ### The frame of a call -/

/-- **What a call of a service leaves as it was, and what every call changes.** `m` is the machine
that is about to fetch the call, which is the word `w`, and `m'` the one that has completed it. -/
structure CallFrame (s : Service) (w : Word) (m m' : Machine ScriptedTerminal) : Prop where
  pc : m'.registers.pc = m.registers.pc + 1
  link : m'.registers.read (.general 7) = m.registers.pc + 1
  others : ∀ r : Reg, r ≠ 0 → r ≠ 7 →
    m'.registers.read (.general r) = m.registers.read (.general r)
  counted : m'.cycles = m.cycles + 1
  halted : m'.halted = true ↔ s = .halt
  cells : ∀ a, a ≠ keyboardStatus → a ≠ keyboardData → m'.memory.peek a = m.memory.peek a
  keyboard : m'.memory ≠ m.memory → ∃ visited, keyboardStatus ∈ visited ∧
    s.Reads ((m.fetched m.registers.pc).announced m.registers.pc w) visited

/-- `R0` and the condition register are as they were. -/
def KeepsResult (m m' : Machine ScriptedTerminal) : Prop :=
  m'.registers.read (.general 0) = m.registers.read (.general 0) ∧
    m'.registers.cond = m.registers.cond

/-- The next key has been taken, it is in `R0`, and the condition register has its flag. -/
structure Receives (key : Byte) (m m' : Machine ScriptedTerminal) : Prop where
  taken : m.keys = key :: m'.keys
  result : m'.registers.read (.general 0) = wordOfByte key
  highByte : highByte (m'.registers.read (.general 0)) = 0
  cond : m'.registers.cond = (Flag.ofWord (m'.registers.read (.general 0))).code

end Machine

/-- **What a call of a service changes of its own**: the result in `R0` and the condition register,
the keys, and what was shown. -/
def Service.Changes (s : Service) (m m' : Machine ScriptedTerminal) : Prop :=
  match s with
  | getc => ∃ key, m.Receives key m' ∧ m'.output = m.output
  | input => ∃ key, m.Receives key m' ∧ m'.output = m.output ++ bytesOfText prompt ++ [key]
  | out => m.KeepsResult m' ∧ m'.keys = m.keys ∧
      m'.output = m.output ++ [lowByte (m.registers.read (.general 0))]
  | puts | putsp => m.KeepsResult m' ∧ m.output <+: m'.output
  | halt => m.KeepsResult m' ∧ m'.keys = m.keys ∧ m'.output = m.output ++ bytesOfText farewell

namespace Machine

variable {m m' m₂ : Machine ScriptedTerminal} {s : Service} {address w : Word}

/-- A call that neither asks for a key nor reads a string only shows something. -/
theorem onward_of_shown {status : Prop} {c : Console ScriptedTerminal} {bytes : List Byte}
    {halted : Bool} (hkeys : c.terminal.keys = m.keys)
    (houtput : c.terminal.output = m.output ++ bytes) :
    Onward status m { m with halted, console := c } where
  registers := rfl
  cells := fun _ _ _ => rfl
  output := ⟨bytes, houtput.symm⟩
  untouched := fun _ => ⟨rfl, hkeys⟩

/-- **A service that does not ask for a key** leaves `R0` and the condition register alone, and
memory and the keys unless it reads the keyboard status register. -/
theorem onward_of_not_isAsking (hs : ¬s.IsAsking) (h : (effect (.trap s)).run m = (.ok (), m')) :
    Onward (∃ visited, keyboardStatus ∈ visited ∧ s.Reads m visited) (m.called s) m' := by
  have hstring : ∀ {cell : Word → Action ScriptedTerminal Bool}, s.ShowsString cell →
      Onward (∃ visited, keyboardStatus ∈ visited ∧ s.Reads m visited) (m.called s) m' := by
    intro cell hcell
    obtain ⟨visited, hreads, honward⟩ := onward_of_showsString hcell h
    refine ⟨honward.registers, honward.cells, honward.output, fun hnone => ?_⟩
    exact honward.untouched fun hmem => hnone ⟨visited, hmem, hreads⟩
  cases s with
  | getc => exact absurd trivial hs
  | input => exact absurd trivial hs
  | puts => exact hstring .puts
  | putsp => exact hstring .putsp
  | out =>
    obtain ⟨c, hrun, hkeys, houtput⟩ := m.run_effect_out
    cases hrun.symm.trans h
    exact onward_of_shown hkeys houtput
  | halt =>
    obtain ⟨c, hrun, hkeys, houtput⟩ := m.run_effect_halt
    cases hrun.symm.trans h
    exact onward_of_shown hkeys houtput

theorem output_settled (m : Machine ScriptedTerminal) (address instruction : Word) :
    (m.settled address instruction).output = m.output :=
  congrArg ScriptedTerminal.output (terminal_settled m address instruction)

/-- The link is in `R7` and the program counter is past the call; no other register has changed. -/
theorem read_linked (m : Machine ScriptedTerminal) (t : Slot) :
    m.linked.registers.read t =
      if t = .pc ∨ t = .general 7 then m.registers.pc + 1 else m.registers.read t := by
  rw [linked, Registers.read_write, Registers.read_write]
  by_cases h7 : t = .general 7
  · rw [if_pos h7.symm, if_pos (Or.inr h7)]
  · by_cases hpc : t = .pc
    · rw [if_neg (Ne.symm h7), if_pos hpc.symm, if_pos (Or.inl hpc)]
    · rw [if_neg (Ne.symm h7), if_neg (Ne.symm hpc), if_neg (not_or.mpr ⟨hpc, h7⟩)]

/-- A call that has been carried out has the frame of a call if it has changed no register but `R0`
and the condition register after the link. -/
theorem callFrame_settled
    (hregisters : ∀ t, t ≠ .general 0 → t ≠ .cond →
      m₂.registers.read t = m.linked.registers.read t)
    (hcycles : m₂.cycles = m.cycles) (hhalted : m₂.halted = true ↔ s = .halt)
    (hcells : ∀ a, a ≠ keyboardStatus → a ≠ keyboardData → m₂.memory.peek a = m.memory.peek a)
    (hkeyboard : m₂.memory ≠ m.memory → ∃ visited, keyboardStatus ∈ visited ∧
      s.Reads ((m.fetched m.registers.pc).announced m.registers.pc w) visited) :
    CallFrame s w m (m₂.settled address w) where
  pc := by
    have hread := hregisters .pc Slot.noConfusion Slot.noConfusion
    rw [read_linked, if_pos (Or.inl rfl)] at hread
    exact hread
  link := by
    have hread := hregisters (.general 7) (by decide) Slot.noConfusion
    rw [read_linked, if_pos (Or.inr rfl)] at hread
    exact hread
  others := fun r h0 h7 => by
    have hread := hregisters (.general r) (fun h => h0 (Slot.general.inj h)) Slot.noConfusion
    rw [read_linked, if_neg] at hread
    · exact hread
    · rintro (h | h)
      · cases h
      · exact h7 (Slot.general.inj h)
  counted := congrArg (· + 1) hcycles
  halted := hhalted
  cells := hcells
  keyboard := hkeyboard

/-- **A call that asks for a key** and returns has the frame of a call, and has taken the key. -/
theorem callFrame_of_isAsking (hs : s.IsAsking) (hcycles : m₂.cycles = m.cycles)
    (hhalted : m₂.halted = true ↔ s = .halt)
    (he : (effect (.trap s)).run ((m.fetched m.registers.pc).announced m.registers.pc w) =
      (.ok (), m₂)) :
    CallFrame s w m (m₂.settled address w) ∧ s.Changes m (m₂.settled address w) := by
  let n : Machine ScriptedTerminal := (m.fetched m.registers.pc).announced m.registers.pc w
  rw [run_effect_trap] at he
  rcases serve_cases_of_isAsking hs (n.called s) with
    ⟨key, c, hserve, hkeys, houtput⟩ | ⟨f, c, hserve, -⟩
  · cases hserve.symm.trans he
    have hzero : ((n.called s).assigned 0 (wordOfByte key)).registers.read (.general 0) =
        wordOfByte key := by
      rw [assigned, Registers.read_write, if_neg Slot.noConfusion, Registers.read_write_self]
    have hregisters : ∀ t, t ≠ .general 0 → t ≠ .cond →
        ((n.called s).assigned 0 (wordOfByte key)).registers.read t =
          m.linked.registers.read t := by
      intro t h0 hcond
      rw [assigned, Registers.read_write, if_neg (Ne.symm hcond), Registers.read_write,
        if_neg (Ne.symm h0)]
      rfl
    have hreceives : m.Receives key
        (settled { (n.called s).assigned 0 (wordOfByte key) with console := c } address w) := by
      refine ⟨?_, hzero, ?_, ?_⟩
      · rw [keys_settled]
        exact hkeys
      · exact (congrArg highByte hzero).trans (highByte_wordOfByte key)
      · exact congrArg (fun w => (Flag.ofWord w).code) hzero.symm
    refine ⟨callFrame_settled hregisters hcycles hhalted (fun _ _ _ => rfl) (fun h => absurd rfl h),
      ?_⟩
    cases s with
    | getc =>
      refine ⟨key, hreceives, ?_⟩
      rw [output_settled]
      exact houtput.trans ((List.append_nil _).trans (List.append_nil _))
    | input =>
      refine ⟨key, hreceives, ?_⟩
      rw [output_settled]
      exact houtput
    | _ => cases hs
  · cases hserve.symm.trans he

/-- **A call that does not ask for a key** and returns has the frame of a call, and has left `R0`
and the condition register as they were. -/
theorem callFrame_of_not_isAsking (hs : ¬s.IsAsking) (hcycles : m₂.cycles = m.cycles)
    (hhalted : m₂.halted = true ↔ s = .halt)
    (he : (effect (.trap s)).run ((m.fetched m.registers.pc).announced m.registers.pc w) =
      (.ok (), m₂)) :
    CallFrame s w m (m₂.settled address w) ∧ s.Changes m (m₂.settled address w) := by
  let n : Machine ScriptedTerminal := (m.fetched m.registers.pc).announced m.registers.pc w
  have honward := onward_of_not_isAsking hs he
  have hregisters : m₂.registers = m.linked.registers := honward.registers
  have hkeeps : m.KeepsResult (m₂.settled address w) := by
    refine ⟨?_, ?_⟩
    · refine (congrArg (Registers.read · (.general 0)) hregisters).trans ?_
      rw [read_linked, if_neg (by decide)]
    · refine (congrArg (Registers.read · .cond) hregisters).trans ?_
      rw [read_linked, if_neg (by decide)]
      rfl
  refine ⟨callFrame_settled (fun t _ _ => by rw [hregisters]) hcycles hhalted honward.cells ?_, ?_⟩
  · intro hmemory
    by_contra hnone
    exact hmemory (honward.untouched hnone).1
  · cases s with
    | getc => exact absurd trivial hs
    | input => exact absurd trivial hs
    | puts | putsp =>
      refine ⟨hkeeps, ?_⟩
      rw [output_settled]
      exact honward.output
    | out =>
      obtain ⟨c, hrun, hkeys, houtput⟩ := n.run_effect_out
      cases hrun.symm.trans he
      refine ⟨hkeeps, (keys_settled _ _ _).trans hkeys, (output_settled _ _ _).trans ?_⟩
      exact houtput
    | halt =>
      obtain ⟨c, hrun, hkeys, houtput⟩ := n.run_effect_halt
      cases hrun.symm.trans he
      exact ⟨hkeeps, (keys_settled _ _ _).trans hkeys, (output_settled _ _ _).trans houtput⟩

/-- **A completed call has the frame of a call.** -/
theorem callFrame_of_attempt (hr : m.halted = false)
    (ha : attempt.run m = (.ok (address, w), m')) (hw : Instruction.decode w = .trap s) :
    CallFrame s w m m' ∧ s.Changes m m' := by
  obtain ⟨m₁, m₂, hf, he, rfl⟩ := attempt_ok ha
  obtain ⟨rfl, rfl⟩ := fetch_of_trap hf hw
  rw [hw] at he
  have hcycles := (composed_effect (.trap s)).keeps (fun _ c hc => keeps_cycles c hc)
    ((m.fetched m.registers.pc).announced m.registers.pc w)
  rw [he] at hcycles
  have hhalts : (Instruction.trap s).Halts ↔ s = .halt := by
    cases s <;> simp [Instruction.Halts]
  have hhalted := (halted_effect_iff he hr).trans hhalts
  by_cases hs : s.IsAsking
  · exact callFrame_of_isAsking hs hcycles hhalted he
  · exact callFrame_of_not_isAsking hs hcycles hhalted he

end Machine

namespace Processor

variable {p : Processor ScriptedTerminal} {a w : Word} {s : Service}

/-- **When a call is completed**: it asks for no key, or one is there. -/
theorem completes_call_iff (hf : p.Fetches a w) (hw : Instruction.decode w = .trap s)
    (hpatient : p.machine.console.IsPatient) :
    (∃ c, (step.run p).1 = .ok c) ↔ (s.IsAsking → p.machine.keys ≠ []) := by
  obtain ⟨hr, hn, m₁, hfetch⟩ := hf
  have houtcome : (∃ c, (step.run p).1 = .ok c) ↔
      (Machine.attempt.run p.machine).1 = .ok (a, w) := by
    rcases ha : Machine.attempt.run p.machine with ⟨f | ⟨a', w'⟩, m⟩
    · rw [run_step_of_error hr hn ha]
      exact iff_of_false (by rintro ⟨c, ⟨⟩⟩) (by rintro ⟨⟩)
    · rw [run_step_of_ok hr hn ha]
      obtain ⟨m₂, m₃, hfetch', -, -⟩ := Machine.attempt_ok ha
      cases hfetch.symm.trans hfetch'
      exact iff_of_true ⟨_, rfl⟩ rfl
  have hsound : p.machine.console.IsSound fun _ => True := ⟨hpatient, trivial⟩
  rw [houtcome]
  by_cases hs : s.IsAsking
  · rw [Machine.outcome_attempt_of_asksForKey ScriptedTerminal.dependable hsound hfetch
      (asksForKey_iff.mpr ⟨s, hw, hs⟩), ScriptedTerminal.upcoming, Machine.keys]
    cases p.machine.console.terminal.keys with
    | nil => exact iff_of_false (by rintro ⟨⟩) fun h => h hs rfl
    | cons key rest => exact iff_of_true rfl fun _ => List.cons_ne_nil key rest
  · have hw' : ¬AsksForKey w := by
      intro hasks
      obtain ⟨s', hw', hs'⟩ := asksForKey_iff.mp hasks
      cases hw.symm.trans hw'
      exact hs hs'
    obtain ⟨-, rfl⟩ := Machine.fetch_of_trap hfetch hw
    have hsound₁ : (p.machine.fetched p.machine.registers.pc).console.IsSound fun _ => True :=
      hsound
    exact iff_of_true (Machine.outcome_attempt_of_not_asksForKey ScriptedTerminal.dependable
      hsound₁ hfetch hw') fun hask => absurd hask hs

/-- **What a completed call of a service changes, and what it leaves as it was.** Let the next step
of a processor on a script fetch a trap with the vector of a service: the machine is running, and
below its limit. Whatever is in its registers, in memory and in the script:

* The trap is fetched from the program counter `a`. If no wait is abandoned, the step completes it
  exactly if the service asks for no key or one is there.
* If the step completes it, the program counter and `R7` are the address after `a`, `R1` to `R6` are
  as they were, and one more instruction is counted. The machine has halted exactly if the service
  is the one that halts. No cell has changed except for the two of the keyboard, and those only if
  the service shows a string and the keyboard status register is among the cells that it reads. The
  fault is what it was.
* A service that asks for a key has put the next key into `R0`, whose high byte is therefore zero,
  and the condition register has the flag of `R0`. The other services have left both as they were.
* What was shown has grown by nothing if the service takes a key without showing it; by the low byte
  of `R0` if it shows that; by the prompt and the key if it prompts for it; and by a line that says
  that the machine halts if it halts it. -/
theorem completed_call_has_frame (hf : p.Fetches a w) (ho : Opcode.ofWord w = .trap)
    (hv : Field.vector w = s.vector) :
    a = p.machine.registers.pc ∧
      (p.machine.console.IsPatient →
        ((∃ c, (step.run p).1 = .ok c) ↔ (s.IsAsking → p.machine.keys ≠ []))) ∧
      ∀ c q, step.run p = (.ok c, q) → c = ⟨p.machine.cycles, a, w⟩ ∧
        Machine.CallFrame s w p.machine q.machine ∧ s.Changes p.machine q.machine ∧
        q.fault = p.fault := by
  have hw := Instruction.decode_eq_trap_iff.mpr ⟨ho, hv⟩
  refine ⟨?_, completes_call_iff hf hw, fun c q hs => ?_⟩
  · obtain ⟨-, -, m₁, hfetch⟩ := hf
    exact (Machine.fetch_of_trap hfetch hw).1
  · obtain ⟨a', w', m, hr, -, ha, rfl, hs'⟩ := step_ok (congrArg Prod.fst hs)
    cases hs.symm.trans hs'
    obtain ⟨-, -, m₁, hfetch⟩ := hf
    obtain ⟨m₂, m₃, hfetch', -, -⟩ := Machine.attempt_ok ha
    cases hfetch.symm.trans hfetch'
    obtain ⟨hframe, hchanges⟩ := Machine.callFrame_of_attempt hr ha hw
    have hdefect : (⟨p.machine.cycles, a, w⟩ : Cycle).defect? = none := by
      rw [Cycle.defect?, Cycle.decoded, hw]
      rfl
    refine ⟨rfl, hframe, hchanges, ?_⟩
    rw [completed, hdefect]
    rfl

/-- The first instruction of this processor asks for a key, and there is one. -/
theorem asking_has_frame :
    ∃ c q, step.run (asking ({ keys := [0x41] } : ScriptedTerminal)) = (.ok c, q) ∧
      q.machine.registers.pc = 0x3001 ∧ q.machine.registers.read (.general 7) = 0x3001 ∧
      q.machine.registers.read (.general 0) = 0x41 ∧ q.machine.keys = [] ∧
      q.machine.output = [] := by
  obtain ⟨ha, hcompletes, hframe⟩ := completed_call_has_frame (s := .getc) (a := 0x3000)
    (w := 0xF020) (p := asking ({ keys := [0x41] } : ScriptedTerminal))
    ⟨rfl, rfl, _, rfl⟩ (by decide) (by decide)
  obtain ⟨c, hc⟩ := (hcompletes Bool.noConfusion).mpr fun _ => List.cons_ne_nil _ _
  obtain ⟨-, hcall, ⟨key, hreceives, houtput⟩, -⟩ := hframe c _ (Prod.ext hc rfl)
  obtain ⟨rfl, hkeys⟩ := List.cons.inj hreceives.taken
  exact ⟨c, _, Prod.ext hc rfl, hcall.pc, hcall.link, hreceives.result, hkeys.symm, houtput⟩

end Processor

end LittleComputer
