import LittleComputer.Proofs.FatalWords
import LittleComputer.Proofs.StringBounds

/-!
# One key for an instruction

An instruction reads up to three cells: the one that it is fetched from, a pointer, and an operand;
one that shows a string reads as many as there are. Each of them can be the keyboard status
register, at which a read polls for a key and takes it. Nevertheless an instruction polls once at
most, and takes one key at most, unless it shows a string of one character a word.

It is so because of what the status register can say. The word read there is zero or has its top bit
set alone (`LittleComputer.Machine.status_of_readCell`), and neither of the two

* is an instruction that reads a cell or calls a service, if it was fetched
  (`LittleComputer.isSilent_of_status`);
* is the address of the status register, if it is a pointer
  (`LittleComputer.Machine.adds_indirect`);
* has a low byte that is not zero, if it is in a string of packed characters
  (`LittleComputer.Machine.Walk.adds`).

The calls are counted by the terminal, which is a `LittleComputer.Tally` of any other. The main
statement is `LittleComputer.Processor.one_key_per_instruction`.
-/

namespace LittleComputer

open Memory

/-! ### What the status register can say -/

/-- **The words that the status register can hold, as instructions**: a branch that is never taken,
and a word with a reserved opcode. -/
theorem decode_of_status :
    Instruction.decode 0 = .br 0 0 ∧ Instruction.decode keyReady = .illegal keyReady ∧
      Opcode.ofWord keyReady = .rti := by
  refine ⟨?_, ?_, ?_⟩ <;> decide

/-- Neither reads a cell or calls a service. -/
theorem isSilent_of_status {w : Word} (h : w = 0 ∨ w = keyReady) :
    (Instruction.decode w).IsSilent := by
  obtain ⟨hzero, hready, -⟩ := decode_of_status
  rcases h with rfl | rfl
  · rw [hzero]
    trivial
  · rw [hready]
    trivial

/-- Neither is the address of the status register. -/
theorem ne_status_of_status {w : Word} (h : w = 0 ∨ w = keyReady) : w ≠ keyboardStatus := by
  rcases h with rfl | rfl <;> decide

namespace Machine

variable {T : Type} [Terminal T] {α β : Type} {m m' m₁ : Machine (Tally T)} {call : Call}
  {n k : Nat} {address w : Word}

/-! ### Counting calls -/

/-- From `m` to `m'` at most `n` calls of a kind were made of the terminal. -/
def Adds (call : Call) (n : Nat) (m m' : Machine (Tally T)) : Prop :=
  m'.calls call ≤ m.calls call + n

omit [Terminal T] in
theorem Adds.of_terminal (h : m'.console.terminal = m.console.terminal) : Adds call 0 m m' :=
  Nat.le_of_eq (congrArg (fun t : Tally T => t.count call) h)

omit [Terminal T] in
theorem Adds.mono (h : Adds call n m m') (hnk : n ≤ k) : Adds call k m m' :=
  Nat.le_trans h (Nat.add_le_add_left hnk _)

omit [Terminal T] in
theorem Adds.trans (h : Adds call n m m₁) (h' : Adds call k m₁ m') : Adds call (n + k) m m' := by
  unfold Adds at *
  omega

omit [Terminal T] in
/-- What makes no call beforehand counts for nothing. -/
theorem Adds.after (h' : Adds call n m₁ m') (h : Adds call 0 m m₁) : Adds call n m m' :=
  (h.trans h').mono (Nat.le_of_eq (Nat.zero_add n))

omit [Terminal T] in
/-- **One action after another**: what the second adds may hang on what the first has returned. -/
theorem adds_bind {a : Action (Tally T) α} {f : α → Action (Tally T) β}
    (ha : Adds call n m (a.run m).2)
    (hf : ∀ x m₁, a.run m = (.ok x, m₁) → Adds call k m₁ ((f x).run m₁).2) :
    Adds call (n + k) m ((a >>= f).run m).2 := by
  rw [run_bind]
  rcases hrun : a.run m with ⟨e | x, m₁⟩ <;> rw [hrun] at ha
  · exact ha.mono (Nat.le_add_right n k)
  · exact ha.trans (hf x m₁ hrun)

theorem adds_poll (call : Call) (m : Machine (Tally T)) :
    Adds call (if call = .poll then 1 else 0) m (poll.run m).2 := by
  rw [run_poll]
  change (m.console.terminal.after .poll _).count call ≤ _
  rw [Tally.count_after]
  split <;> exact Nat.le_refl _

theorem adds_readKey (call : Call) (m : Machine (Tally T)) :
    Adds call (if call = .read then 1 else 0) m (readKey.run m).2 := by
  change m.console.read.2.terminal.count call ≤ m.console.terminal.count call + _
  rcases m.console.read_cases with ⟨u, ns, hw, hr⟩ | hr <;> rw [hr]
  · -- A wait that is abandoned counts for nothing.
    obtain ⟨_, -, heq⟩ := Option.map_eq_some_iff.mp hw
    cases heq
    exact Nat.le_add_right _ _
  · change (m.console.terminal.after .read _).count call ≤ _
    rw [Tally.count_after]
    split <;> exact Nat.le_refl _

/-! ### Reading cells -/

section Reading

variable (hcall : call ≠ .write)

include hcall

theorem adds_latchKey (m : Machine (Tally T)) : Adds call 1 m (latchKey.run m).2 := by
  have hone : (if call = .poll then 1 else 0) + (if call = .read then 1 else 0) ≤ 1 := by
    cases call <;> decide
  refine (adds_bind (adds_poll call m) fun ready m₁ _ => ?_).mono hone
  cases ready with
  | false => exact (Adds.of_terminal rfl).mono (Nat.zero_le _)
  | true =>
    refine (adds_bind (n := 0) (k := if call = .read then 1 else 0) (Adds.of_terminal rfl)
      fun _ m₂ _ => ?_).mono (Nat.le_of_eq (Nat.zero_add _))
    exact adds_bind (k := 0) (adds_readKey call m₂) fun key m₃ _ => Adds.of_terminal rfl

/-- **A read of a cell** polls for a key and takes it only at the status register. -/
theorem adds_readCell (address : Word) (m : Machine (Tally T)) :
    Adds call (if address = keyboardStatus then 1 else 0) m ((readCell address).run m).2 := by
  rw [readCell]
  split
  · exact adds_bind (k := 0) (adds_latchKey hcall m) fun _ m₁ _ => Adds.of_terminal rfl
  · exact Adds.of_terminal rfl

/-- An action that reads one cell and then leaves the console alone. -/
theorem adds_readCell_bind {f : Word → Action (Tally T) β} (address : Word)
    (hf : ∀ w, Aside (f w)) (m : Machine (Tally T)) :
    Adds call 1 m ((readCell address >>= f).run m).2 := by
  have hone : (if address = keyboardStatus then 1 else 0) ≤ 1 := by split <;> decide
  refine (adds_bind (k := 0) (adds_readCell hcall address m) fun w m₁ _ => ?_).mono hone
  obtain ⟨x, m₂, hrun, hconsole⟩ := hf w m₁
  rw [hrun]
  exact Adds.of_terminal (congrArg Console.terminal hconsole)

/-- **A pointer and what it points to** are not both the status register. -/
theorem adds_indirect {f : Word → Action (Tally T) β} (address : Word) (hf : ∀ w, Aside (f w))
    (m : Machine (Tally T)) :
    Adds call 1 m ((readCell address >>= fun pointer => readCell pointer >>= f).run m).2 := by
  have hread := adds_readCell hcall address m
  by_cases ha : address = keyboardStatus
  · rw [if_pos ha] at hread
    refine adds_bind (k := 0) hread fun pointer m₁ hrun => ?_
    rw [ha] at hrun
    have hne := ne_status_of_status (status_of_readCell hrun)
    refine adds_bind (n := 0) (k := 0) ?_ fun w m₂ _ => ?_
    · rw [run_readCell_of_ne hne]
      exact Adds.of_terminal rfl
    · obtain ⟨x, m₃, hrun', hconsole⟩ := hf w m₂
      rw [hrun']
      exact Adds.of_terminal (congrArg Console.terminal hconsole)
  · rw [if_neg ha] at hread
    exact (adds_bind hread fun pointer m₁ _ => adds_readCell_bind hcall pointer hf m₁).mono
      (Nat.le_of_eq (Nat.zero_add 1))

/-! ### Services -/

/-- To show something counts for nothing. -/
theorem adds_shows (m : Machine (Tally T)) (bytes : List Byte) : Adds call 0 m (m.shows bytes) := by
  refine Nat.le_of_eq ?_
  simp only [calls, terminal_shows, Tally.foldl_write, if_neg hcall, Nat.add_zero]

theorem adds_showing :
    ClosedUnderShowing fun a : Action (Tally T) Unit => ∀ m, Adds call 0 m (a.run m).2 where
  pure := fun _ => Adds.of_terminal rfl
  bind := fun ha hb m => adds_bind (n := 0) (k := 0) (ha m) fun _ m₁ _ => hb m₁
  showByte := fun b m => adds_shows hcall m [b]
  flush := fun _ => Nat.le_refl _

/-- **A service that asks for a key** takes one. -/
theorem adds_serve_of_isAsking {s : Service} (hs : s.IsAsking) (m : Machine (Tally T)) :
    Adds call 1 m ((serve s).run m).2 := by
  obtain ⟨before, after, hbefore, hafter, heq⟩ := serve_of_isAsking (adds_showing (T := T) hcall) hs
  have hone : 0 + ((if call = .read then 1 else 0) + (0 + 0)) ≤ 1 := by split <;> decide
  rw [heq]
  refine (adds_bind (hbefore m) fun _ m₁ _ => ?_).mono hone
  refine adds_bind (adds_readKey call m₁) fun key m₂ _ => ?_
  exact adds_bind (hafter key m₂) fun _ m₃ _ => Adds.of_terminal rfl

theorem adds_showPackedCell (address : Word) (m : Machine (Tally T)) :
    Adds call (if address = keyboardStatus then 1 else 0) m ((showPackedCell address).run m).2 := by
  obtain ⟨bytes, hshows⟩ := showPackedCell_shows address m
  rw [hshows]
  exact (adds_readCell hcall address m).trans (adds_shows hcall _ bytes)

/-- **A string of packed characters** reads the status register once at most, because it ends
there. -/
theorem Walk.adds {visited : List Word} {r : Except Failure Unit}
    (h : Walk showPackedCell address m visited r m') : Adds call 1 m m' := by
  have hlast : ∀ {address : Word} {m m' : Machine (Tally T)} {goesOn : Except Failure Bool},
      (showPackedCell address).run m = (goesOn, m') → Adds call 1 m m' := by
    intro address m m' goesOn hrun
    have hcell := adds_showPackedCell hcall address m
    rw [hrun] at hcell
    exact hcell.mono (by split <;> decide)
  induction h with
  | stop hrun => exact hlast hrun
  | fail hrun => exact hlast hrun
  | @more address m m₁ m' visited r hrun _ ih =>
    have hcell := adds_showPackedCell hcall address m
    rw [hrun, if_neg (ne_status_of_showPackedCell hrun)] at hcell
    exact ih.after hcell

/-- **A service** polls for a key once at most and takes one key at most, unless it shows a string
of one character a word. -/
theorem adds_effect_trap {s : Service} (hs : s ≠ .puts) (m : Machine (Tally T)) :
    Adds call 1 m ((effect (.trap s)).run m).2 := by
  have hclosed := adds_showing (T := T) hcall
  have hcalled : Adds call 0 m (m.called s) := Adds.of_terminal rfl
  cases s with
  | getc | input =>
    rw [run_effect_trap]
    exact (adds_serve_of_isAsking hcall (by trivial) _).after hcalled
  | out =>
    rw [run_effect_trap]
    exact (hclosed.bind (hclosed.showByte _) hclosed.flush (m.called .out)).mono (Nat.zero_le 1)
  | puts => exact absurd rfl hs
  | putsp =>
    obtain ⟨visited, r, m', hreads, -⟩ := m.putsp_is_bounded
    obtain ⟨m₁, hwalk, rfl⟩ := hreads.walk
    rw [hreads.run]
    have hpassed : Adds call 0 m₁ (passedOn r m₁) := Nat.le_of_eq (calls_passedOn r m₁ call)
    exact ((hwalk.adds hcall).after hcalled).trans hpassed
  | halt =>
    obtain ⟨c, hrun, -⟩ := run_showText_flush Service.farewell (m.called .halt)
    have hshown := hclosed.bind (hclosed.showText Service.farewell) hclosed.flush (m.called .halt)
    rw [hrun] at hshown
    rw [run_effect_trap, run_serve_halt hrun]
    exact hshown.mono (Nat.zero_le 1)

/-! ### Instructions -/

/-- **An instruction** polls for a key once at most and takes one key at most, unless it calls the
service that shows a string of one character a word. -/
theorem adds_effect {i : Instruction} (hi : i ≠ .trap .puts) (m : Machine (Tally T)) :
    Adds call 1 m ((effect i).run m).2 := by
  have hassign : ∀ (dest : Reg) (w : Word), Aside (assign (T := Tally T) dest w) := fun dest w m =>
    ⟨(), _, run_assign dest w m, rfl⟩
  have hstore : ∀ (src : Reg) (pointer : Word),
      Aside (readSlot (T := Tally T) (.general src) >>= writeCell pointer) := fun src pointer m =>
    ⟨(), _, rfl, rfl⟩
  cases i with
  | ld dest offset =>
    rw [run_effect_ld]
    exact adds_readCell_bind hcall _ (hassign dest) m
  | ldr dest base offset =>
    rw [run_effect_ldr]
    exact adds_readCell_bind hcall _ (hassign dest) m
  | ldi dest offset =>
    rw [run_effect_ldi]
    exact adds_indirect hcall _ (hassign dest) m
  | sti src offset =>
    rw [run_effect_sti]
    exact adds_readCell_bind hcall _ (hstore src) m
  | trap s => exact adds_effect_trap hcall (fun hs => hi (congrArg Instruction.trap hs)) m
  | _ =>
    exact (Adds.of_terminal (congrArg Console.terminal (silent_effect (by trivial) m).2)).mono
      (Nat.zero_le 1)

/-- **A fetch** polls for a key and takes it only from the status register. -/
theorem adds_fetch (m : Machine (Tally T)) :
    Adds call (if m.registers.pc = keyboardStatus then 1 else 0) m (fetch.run m).2 := by
  have hread := adds_readCell hcall m.registers.pc m
  rcases hrun : (readCell m.registers.pc).run m with ⟨f | w, m₁⟩ <;> rw [hrun] at hread
  · rw [run_fetch_of_error hrun]
    exact hread
  · rw [run_fetch_of_ok hrun]
    exact hread

omit hcall in
/-- What comes after the fetch counts for what the effect counts for. -/
theorem adds_attempt_of_fetched (hf : fetch.run m = (.ok (address, w), m₁))
    (he : Adds call k (m₁.announced address w)
      ((effect (Instruction.decode w)).run (m₁.announced address w)).2) :
    Adds call k m₁ (attempt.run m).2 :=
  Adds.trans he (Adds.of_terminal (terminal_attempt hf))

/-- **A fetch and the instruction fetched** poll for a key once at most and take one key at most,
unless the instruction calls the service that shows a string of one character a word. -/
theorem adds_attempt
    (hw : ∀ a w m₁, fetch.run m = (.ok (a, w), m₁) → Instruction.decode w ≠ .trap .puts) :
    Adds call 1 m (attempt.run m).2 := by
  have hfetch := adds_fetch hcall m
  rcases hf : fetch.run m with ⟨f | ⟨a, w⟩, m₁⟩ <;> rw [hf] at hfetch
  · have ha : attempt.run m = (.error f, m₁) := run_bind_of_error hf _
    rw [ha]
    exact hfetch.mono (by split <;> decide)
  · by_cases hpc : m.registers.pc = keyboardStatus
    · -- The key has been taken by the fetch, and the word fetched does not ask for another.
      rw [if_pos hpc] at hfetch
      obtain ⟨rfl, m₀, hread, -⟩ := fetch_ok hf
      rw [hpc] at hread
      have hsilent := silent_effect (isSilent_of_status (status_of_readCell hread))
        (m₁.announced m.registers.pc w)
      have heffect : Adds call 0 (m₁.announced m.registers.pc w) _ :=
        Adds.of_terminal (congrArg Console.terminal hsilent.2)
      exact hfetch.trans (adds_attempt_of_fetched hf heffect)
    · rw [if_neg hpc] at hfetch
      exact (adds_attempt_of_fetched hf (adds_effect hcall (hw a w m₁ hf) _)).after hfetch

end Reading

/-! ### What each read finds -/

section Finds

variable {m m' m₁ : Machine T}

/-- **A fetch from the status register** finds an instruction that neither reads a cell nor calls a
service. -/
theorem fetch_from_status (hpc : m.registers.pc = keyboardStatus)
    (hf : fetch.run m = (.ok (address, w), m₁)) :
    (w = 0 ∧ Instruction.decode w = .br 0 0 ∧
        ∀ n : Machine T, (effect (Instruction.decode w)).run n = (.ok (), n)) ∨
      (w = keyReady ∧ Opcode.ofWord w = .rti ∧
        ∀ n : Machine T, (effect (Instruction.decode w)).run n =
          (.ok (), { n with halted := true })) := by
  obtain ⟨rfl, m₀, hread, -⟩ := fetch_ok hf
  obtain ⟨hzero, hready, hopcode⟩ := decode_of_status
  rw [hpc] at hread
  rcases status_of_readCell hread with rfl | rfl
  · refine Or.inl ⟨rfl, hzero, fun n => ?_⟩
    rw [hzero, run_branch, if_neg]
    simp
  · refine Or.inr ⟨rfl, hopcode, fun n => ?_⟩
    rw [hready]
    rfl

/-- **A pointer from the status register** is not the address of the status register, so what it
points to is looked at, or replaced, and nothing is asked of the terminal. -/
theorem pointer_from_status {offset : BitVec 9} {pointer : Word}
    (haddress : m.registers.pc + Field.extended offset = keyboardStatus)
    (hread : (readCell keyboardStatus).run m = (.ok pointer, m₁)) :
    (pointer = 0 ∨ pointer = keyReady) ∧ pointer ≠ keyboardStatus ∧
      (∀ dest, (effect (.ldi dest offset)).run m =
        (.ok (), m₁.assigned dest (m₁.memory.peek pointer))) ∧
      ∀ src, (effect (.sti src offset)).run m = (.ok (), { m₁ with
        memory := m₁.memory.write pointer (m₁.registers.read (.general src)) }) := by
  have hstatus := status_of_readCell hread
  have hne := ne_status_of_status hstatus
  refine ⟨hstatus, hne, fun dest => ?_, fun src => ?_⟩
  · rw [run_effect_ldi, haddress, run_bind_of_ok hread, run_bind_of_ok (run_readCell_of_ne hne m₁),
      run_assign]
  · rw [run_effect_sti, haddress, run_bind_of_ok hread]
    rfl

/-- **Packed characters stop at the status register**: no cell is read after it. -/
theorem Walk.status_last {visited : List Word} {r : Except Failure Unit}
    (h : Walk showPackedCell address m visited r m') : keyboardStatus ∉ visited.dropLast := by
  induction h with
  | stop hrun => exact List.not_mem_nil
  | fail hrun => exact List.not_mem_nil
  | @more address m m₁ m' visited r hrun rest ih =>
    have hne : visited ≠ [] := by
      rintro rfl
      cases rest
    rw [List.dropLast_cons_of_ne_nil hne, List.mem_cons, not_or]
    exact ⟨Ne.symm (ne_status_of_showPackedCell hrun), ih⟩

end Finds

end Machine

namespace Processor

variable {T : Type} [Terminal T]

/-- What a step adds to the calls of the terminal is what the instruction adds. -/
theorem adds_step {p : Processor (Tally T)} {call : Call} (hcall : call ≠ .write)
    (hw : ∀ a w, p.Fetches a w → Instruction.decode w ≠ .trap .puts) :
    p.machine.Adds call 1 (step.run p).2.machine := by
  rcases step_cases p with ⟨-, hs⟩ | ⟨n, -, -, hs⟩ | ⟨f, m, hr, hn, ha, hs⟩ |
    ⟨a, w, m, hr, hn, ha, hs⟩ <;> rw [hs]
  · exact Nat.le_succ _
  · exact Nat.le_succ _
  · have hattempt := Machine.adds_attempt hcall fun a w m₁ hf => hw a w ⟨hr, hn, m₁, hf⟩
    rwa [ha] at hattempt
  · have hattempt := Machine.adds_attempt hcall fun a w m₁ hf => hw a w ⟨hr, hn, m₁, hf⟩
    rwa [ha] at hattempt

/-- **One key for an instruction.** On any terminal whose calls are counted, and in any state of the
machine:

* A step polls for a key once at most and takes one key at most, whether it completes, fails, or
  does not even begin, unless the word that it fetches is a trap with the vector of the service that
  shows a string of one character a word.
* A word fetched from the keyboard status register is zero, a branch that is never taken and does
  nothing, or has its top bit set alone; that has a reserved opcode and stops the machine. Neither
  reads a cell, and neither asks for a key.
* A pointer that is looked up in the status register, by a load or by a store, is one of these two
  words again and so not the address of the status register; the operand is a plain look into
  memory.
* A call of the service that shows packed characters reads no cell after the status register. -/
theorem one_key_per_instruction (p : Processor (Tally T)) :
    ((∀ a w, p.Fetches a w → ¬(Opcode.ofWord w = .trap ∧ Field.vector w = Service.puts.vector)) →
      (step.run p).2.machine.calls .poll ≤ p.machine.calls .poll + 1 ∧
        (step.run p).2.machine.calls .read ≤ p.machine.calls .read + 1) ∧
    (∀ (m m₁ : Machine T) (a w : Word), m.registers.pc = keyboardStatus →
      Machine.fetch.run m = (.ok (a, w), m₁) → ¬AsksForKey w ∧
        ((w = 0 ∧ Instruction.decode w = .br 0 0 ∧
            ∀ n : Machine T, (Machine.effect (Instruction.decode w)).run n = (.ok (), n)) ∨
          (w = keyReady ∧ Opcode.ofWord w = .rti ∧
            ∀ n : Machine T, (Machine.effect (Instruction.decode w)).run n =
              (.ok (), { n with halted := true })))) ∧
    (∀ (m m₁ : Machine T) (offset : BitVec 9) (pointer : Word),
      m.registers.pc + Field.extended offset = keyboardStatus →
      (Machine.readCell keyboardStatus).run m = (.ok pointer, m₁) →
        (pointer = 0 ∨ pointer = keyReady) ∧ pointer ≠ keyboardStatus ∧
        (∀ dest, (Machine.effect (.ldi dest offset)).run m =
          (.ok (), m₁.assigned dest (m₁.memory.peek pointer))) ∧
        ∀ src, (Machine.effect (.sti src offset)).run m = (.ok (), { m₁ with
          memory := m₁.memory.write pointer (m₁.registers.read (.general src)) })) ∧
    ∀ m : Machine (Tally T), ∃ visited r m',
      Machine.ReadsOut .putsp Machine.showPackedCell m visited r m' ∧
        keyboardStatus ∉ visited.dropLast := by
  refine ⟨fun hputs => ?_, fun m m₁ a w hpc hf => ⟨?_, Machine.fetch_from_status hpc hf⟩,
    fun m m₁ offset pointer haddress hread => Machine.pointer_from_status haddress hread,
    fun m => ?_⟩
  · have hw : ∀ a w, p.Fetches a w → Instruction.decode w ≠ .trap .puts := fun a w hf hw =>
      hputs a w hf (Instruction.decode_eq_trap_iff.mp hw)
    exact ⟨adds_step (by decide) hw, adds_step (by decide) hw⟩
  · intro hasks
    obtain ⟨rfl, m₀, hread, -⟩ := Machine.fetch_ok hf
    obtain ⟨s, hs, -⟩ := asksForKey_iff.mp hasks
    rw [hpc] at hread
    have hsilent := isSilent_of_status (Machine.status_of_readCell hread)
    rw [hs] at hsilent
    exact hsilent
  · obtain ⟨visited, r, m', hreads, -⟩ := m.putsp_is_bounded
    obtain ⟨m₁, hwalk, -⟩ := hreads.walk
    exact ⟨visited, r, m', hreads, hwalk.status_last⟩

/-- A processor that is about to load through a pointer in the keyboard status register. -/
def pointedByStatus : Processor (Tally ScriptedTerminal) :=
  let p := launch (Memory.cleared.write 0xFDFF 0xA200)
    { terminal := { terminal := { keys := [0x41, 0x42] } } } none false 0
  { p with machine := { p.machine with registers := p.machine.registers.write .pc 0xFDFF } }

/-- It polls once and takes one key. -/
theorem one_key_of_pointedByStatus :
    (step.run pointedByStatus).2.machine.calls .poll = 1 ∧
      (step.run pointedByStatus).2.machine.calls .read = 1 := by
  have hputs : ∀ a w, pointedByStatus.Fetches a w →
      ¬(Opcode.ofWord w = .trap ∧ Field.vector w = Service.puts.vector) := by
    rintro a w ⟨-, -, m, hf⟩
    cases hf
    decide
  obtain ⟨hpoll, hread⟩ := (one_key_per_instruction pointedByStatus).1 hputs
  exact ⟨Nat.le_antisymm hpoll (by decide), Nat.le_antisymm hread (by decide)⟩

end Processor

end LittleComputer
