import LittleComputer.Proofs.Reference
import LittleComputer.Proofs.Run

/-!
# The machine follows the instruction set

A step on a scripted terminal does what `LittleComputer.Reference.step` says, seen
through `LittleComputer.Machine.view` (`LittleComputer.Processor.step_follows_reference`).

The way there has three parts. Fields and arithmetic come first: each field of a word is
the residue of a quotient, and each operation of words is one of integers followed by
`LittleComputer.Reference.wrap`. Then there is a law for each way of changing a machine
that an instruction has, which says what it does to the view; loading from a cell
(`LittleComputer.Machine.load_view`) is the one that needs an argument, because it can go
through the keyboard. With these, an instruction is compared line by line.
-/

namespace LittleComputer

open Reference

/-! ### Fields and arithmetic -/

namespace Machine

@[simp] theorem wrap_value (w : Word) : wrap (value w) = value w := by
  rw [← value_wordOf, wordOf_value]

theorem add_wordOf (x : Word) (d : Int) : x + wordOf d = wordOf (value x + d) := by
  have hadd : wordOf (value x + d) = wordOf (value x) + wordOf d := BitVec.ofInt_add (value x) d
  rw [hadd, wordOf_value]

theorem value_add (x y : Word) : value (x + y) = wrap (value x + value y) := by
  rw [← value_wordOf, ← add_wordOf, wordOf_value]

theorem value_and (x y : Word) : value (x &&& y) = both (value x) (value y) := by
  simp [value, both]

theorem both_ne_zero_iff (x y : Word) : both (value x) (value y) ≠ 0 ↔ x &&& y ≠ 0 := by
  rw [← value_and]
  exact not_congr ⟨fun h => value_injective h, fun h => congrArg value h⟩

theorem value_not (x : Word) : value (~~~x) = wrap (-1 - value x) := by
  have hx := x.isLt
  rw [value, value, wrap, BitVec.toNat_not]
  omega

theorem value_sign (x : Word) : value (Flag.ofWord x).code = sign (value x) := by
  have hx : x.toInt = signed 16 (value x) := BitVec.toInt_eq_toNat_bmod x
  have hneg := Flag.ofWord_eq_negative_iff x
  have hzero := Flag.ofWord_eq_zero_iff x
  have hinj : x = 0 ↔ x.toInt = 0 := by
    rw [← BitVec.toInt_inj]
    rfl
  rw [hinj] at hzero
  rw [sign, ← hx]
  cases h : Flag.ofWord x with
  | negative =>
    rw [if_pos (hneg.mp h)]
    rfl
  | zero =>
    have := hzero.mp h
    rw [if_neg (by omega), if_pos this]
    rfl
  | positive =>
    have h₁ : ¬x.toInt < 0 := fun hc => by cases h.symm.trans (hneg.mpr hc)
    have h₂ : ¬x.toInt = 0 := fun hc => by cases h.symm.trans (hzero.mpr hc)
    rw [if_neg h₁, if_neg h₂]
    rfl

theorem extended_extract (w : Word) (n : Nat) :
    Field.extended (w.extractLsb' 0 n) = wordOf (signed n (value w)) := by
  rw [Field.extended, BitVec.signExtend, BitVec.toInt_extractLsb', Nat.shiftRight_zero]
  rfl

theorem offset_eq (x w : Word) (n : Nat) :
    x + Field.extended (w.extractLsb' 0 n) = wordOf (value x + signed n (value w)) := by
  rw [extended_extract, add_wordOf]

theorem extract_reg (w : Word) (k : Nat) :
    w.extractLsb' k 3 = regAt (value w / (Nat.pow 2 k : Nat)) := by
  apply BitVec.eq_of_toNat_eq
  rw [BitVec.extractLsb'_toNat, regAt, BitVec.toNat_ofInt, Nat.shiftRight_eq_div_pow, value,
    Nat.pow_eq]
  omega

theorem dest_eq (w : Word) : Field.dest w = regAt (value w / 512) := extract_reg w 9

theorem src1_eq (w : Word) : Field.src1 w = regAt (value w / 64) := extract_reg w 6

theorem base_eq (w : Word) : Field.base w = regAt (value w / 64) := extract_reg w 6

theorem src2_eq (w : Word) : Field.src2 w = regAt (value w) := by
  rw [← Int.ediv_one (value w)]
  exact extract_reg w 0

/-- A bit of a word is the parity of a quotient. -/
theorem getLsbD_iff (w : Word) (k : Nat) :
    w.getLsbD k = true ↔ value w / (Nat.pow 2 k : Nat) % 2 = 1 := by
  rw [BitVec.getLsbD, Nat.testBit_eq_decide_div_mod_eq, decide_eq_true_eq, value, Nat.pow_eq]
  omega

theorem isImmediate_iff (w : Word) : Field.isImmediate w = true ↔ value w / 32 % 2 = 1 :=
  getLsbD_iff w 5

theorem isLong_iff (w : Word) : Field.isLong w = true ↔ value w / 2048 % 2 = 1 :=
  getLsbD_iff w 11

theorem opcode_eq (w : Word) : (value w / 4096).toNat = (Opcode.ofWord w).code.toNat := by
  have hw := w.isLt
  rw [Opcode.ofWord, Opcode.code_ofCode, Field.opcode, BitVec.extractLsb'_toNat,
    Nat.shiftRight_eq_div_pow, value]
  omega

theorem condition_eq (w : Word) :
    value ((Field.condition w).setWidth 16) = value w / 512 % 8 := by
  rw [Field.condition, value, BitVec.toNat_setWidth, BitVec.extractLsb'_toNat,
    Nat.shiftRight_eq_div_pow, value]
  omega

/-! ### What changes of the machine do to the view -/

section Laws

variable (m : Machine ScriptedTerminal)

theorem regAt_eq_iff (j k : Int) : regAt k = regAt j ↔ j % 8 = k % 8 := by
  rw [regAt, regAt, ← BitVec.toNat_inj, BitVec.toNat_ofInt, BitVec.toNat_ofInt]
  omega

theorem wordOf_eq_iff (a b : Int) : wordOf a = wordOf b ↔ wrap b = wrap a := by
  rw [← value_wordOf, ← value_wordOf]
  exact ⟨fun h => congrArg value h.symm, fun h => (value_injective h).symm⟩

theorem view_writeReg (k : Int) (x : Word) :
    view { m with registers := m.registers.write (.general (regAt k)) x } =
      m.view.set k (value x) := by
  have hreg : ∀ j, value ((m.registers.write (.general (regAt k)) x).read (.general (regAt j))) =
      if j % 8 = k % 8 then value x else value (m.registers.read (.general (regAt j))) := by
    intro j
    simp only [Registers.read_write, Slot.general.injEq, regAt_eq_iff, apply_ite value]
  exact congrArg (fun f => { m.view with reg := f }) (funext hreg)

theorem view_writePC (x : Word) :
    view { m with registers := m.registers.write .pc x } = { m.view with pc := value x } := rfl

theorem view_linked (x : Word) :
    view { m with registers := (m.registers.write (.general 7) m.registers.pc).write .pc x } =
      { m.view.set 7 m.view.pc with pc := value x } :=
  congrArg (fun s : State => { s with pc := value x }) (view_writeReg m 7 m.registers.pc)

theorem view_assigned (k : Int) (x : Word) :
    (m.assigned (regAt k) x).view = m.view.assign k (value x) := by
  rw [State.assign, ← view_writeReg, ← value_sign]
  rfl

theorem view_writeCell (a : Int) (x : Word) :
    view { m with memory := m.memory.write (wordOf a) x } = m.view.store a (value x) := by
  have hcell : ∀ b, value ((m.memory.write (wordOf a) x).peek (wordOf b)) =
      if wrap b = wrap a then value x else value (m.memory.peek (wordOf b)) := by
    intro b
    simp only [Memory.peek_write, wordOf_eq_iff, apply_ite value]
  exact congrArg (fun f => { m.view with cell := f }) (funext hcell)

theorem relative_view (w : Word) (n : Nat) :
    m.registers.pc + Field.extended (w.extractLsb' 0 n) =
      wordOf (m.view.pc + signed n (value w)) := offset_eq m.registers.pc w n

theorem indexed_view (k : Int) (w : Word) (n : Nat) :
    m.registers.read (.general (regAt k)) + Field.extended (w.extractLsb' 0 n) =
      wordOf (m.view.reg k + signed n (value w)) := offset_eq _ w n

end Laws

/-! ### Loading from a cell -/

theorem poll_view (m : Machine ScriptedTerminal) (h : m.console.IsPatient) :
    ∃ m', poll.run m = (.ok !m.view.keys.isEmpty, m') ∧ m'.view = m.view ∧
      m'.console.IsPatient := by
  have hterminal := m.console.strike_terminal .poll
  refine ⟨{ m with console := (m.console.strike .poll).2 }, ?_, ?_, h.strike .poll⟩
  · have hpoll : poll.run m = (.ok !(m.console.strike .poll).2.terminal.keys.isEmpty,
        { m with console := (m.console.strike .poll).2 }) := rfl
    rw [hpoll, hterminal]
    rfl
  · simp only [view, hterminal]

theorem readKey_view (m : Machine ScriptedTerminal) (h : m.console.IsPatient) {key : Byte}
    {rest : List Byte} (hkeys : m.view.keys = key :: rest) :
    ∃ m', readKey.run m = (.ok key, m') ∧ m'.view = { m.view with keys := rest } ∧
      m'.console.IsPatient := by
  obtain ⟨registers, memory, ⟨⟨keys, shown⟩, stop, alarm, guarded, journal⟩, halted, cycles⟩ := m
  obtain rfl : keys = key :: rest := hkeys
  have hrun : ∀ m : Machine ScriptedTerminal,
      readKey.run m = (m.console.read.1, { m with console := m.console.read.2 }) := fun _ => rfl
  refine ⟨⟨registers, memory, ⟨⟨rest, shown⟩, stop, alarm, guarded, journal⟩, halted, cycles⟩,
    ?_, rfl, h⟩
  rw [hrun, Console.read, h.strike_read]
  rfl

/-- **Asking the keyboard.** -/
theorem latchKey_view (m : Machine ScriptedTerminal) (h : m.console.IsPatient) :
    ∃ m', latchKey.run m = (.ok (), m') ∧ m'.view = m.view.askKeyboard ∧
      m'.console.IsPatient := by
  obtain ⟨m₁, hpoll, hview, hpatient⟩ := poll_view m h
  rw [State.askKeyboard]
  cases hkeys : m.view.keys with
  | nil =>
    rw [hkeys] at hpoll
    refine ⟨_, run_bind_of_ok hpoll _, ?_, hpatient⟩
    rw [← hview]
    exact view_writeCell m₁ 0xFE00 0
  | cons key rest =>
    rw [hkeys] at hpoll
    -- The status register is written before the key is taken.
    let m₂ : Machine ScriptedTerminal :=
      { m₁ with memory := m₁.memory.write Memory.keyboardStatus Memory.keyReady }
    have hm₂ : m₂.view = m.view.store 0xFE00 0x8000 := by
      rw [← hview]
      exact view_writeCell m₁ 0xFE00 Memory.keyReady
    have hkeys₂ : m₂.view.keys = key :: rest := by
      rw [hm₂]
      exact hkeys
    obtain ⟨m₃, hread, hview₃, hpatient₃⟩ := readKey_view m₂ hpatient hkeys₂
    refine ⟨{ m₃ with memory := m₃.memory.write Memory.keyboardData (wordOfByte key) }, ?_, ?_,
      hpatient₃⟩
    · refine (run_bind_of_ok hpoll _).trans ?_
      exact run_bind_of_ok (s := m₂) hread _
    · have hwrite := view_writeCell m₃ 0xFE02 (wordOfByte key)
      rw [hview₃, hm₂] at hwrite
      refine hwrite.trans ?_
      rw [value, toNat_wordOfByte]
      rfl

/-- **Loading from a cell** at any address, given as an integer. -/
theorem load_view (m : Machine ScriptedTerminal) (h : m.console.IsPatient) (a : Int) :
    ∃ w m', (readCell (wordOf a)).run m = (.ok w, m') ∧
      m.view.load a = (value w, m'.view) ∧ m'.console.IsPatient := by
  have hstatus : wordOf a = Memory.keyboardStatus ↔ wrap a = 0xFE00 :=
    (wordOf_eq_iff a 0xFE00).trans eq_comm
  rw [readCell, State.load]
  by_cases ha : wrap a = 0xFE00
  · obtain ⟨m', hlatch, hview, hpatient⟩ := latchKey_view m h
    rw [if_pos (hstatus.mpr ha)]
    refine ⟨_, m', run_bind_of_ok hlatch _, ?_, hpatient⟩
    simp only [if_pos ha, ← hview]
    rfl
  · rw [if_neg fun hc => ha (hstatus.mp hc)]
    refine ⟨_, m, rfl, ?_, h⟩
    simp only [if_neg ha]
    rfl

/-! ### Instructions -/

theorem run_effect_of_result {i : Instruction} {k : Int} {x : Word}
    {m m₁ : Machine ScriptedTerminal} (hi : i.target? = some (regAt k))
    (hr : (result i).run m = (.ok x, m₁)) :
    (effect i).run m = (.ok (), m₁.assigned (regAt k) x) := by
  rw [effect_eq_assign hi, run_bind_of_ok hr, run_assign]

/-- An instruction that sets the condition register, once its result is known. -/
theorem follows_of_result {i : Instruction} {k n : Int} {x : Word} {s : State}
    {m m₁ : Machine ScriptedTerminal} (hi : i.target? = some (regAt k))
    (hr : (result i).run m = (.ok x, m₁)) (hs : m₁.view = s) (hx : value x = n) :
    ∃ m', (effect i).run m = (.ok (), m') ∧ some (s.assign k n) = some m'.view := by
  refine ⟨_, run_effect_of_result hi hr, ?_⟩
  rw [view_assigned, hs, hx]

/-- An instruction that stores a register, once its address is known. -/
theorem follows_of_store {i : Instruction} {a k : Int} {m m₁ : Machine ScriptedTerminal}
    (hr : (effect i).run m =
      (writeCell (wordOf a) (m₁.registers.read (.general (regAt k)))).run m₁) :
    ∃ m', (effect i).run m = (.ok (), m') ∧ some (m₁.view.store a (m₁.view.reg k)) = some m'.view :=
  ⟨_, hr, congrArg some (view_writeCell m₁ a _).symm⟩

/-- **An instruction does what the instruction set says**, and it does not fail. -/
theorem effect_view (w : Word) (m : Machine ScriptedTerminal) (h : m.console.IsPatient)
    (hw : Opcode.ofWord w ∉ [.trap, .rti, .res]) :
    ∃ m', (effect (Instruction.decode w)).run m = (.ok (), m') ∧
      Reference.execute (value w) m.view = some m'.view := by
  have hop := opcode_eq w
  cases ho : Opcode.ofWord w <;> rw [ho] at hop hw
  case trap => exact absurd (by decide) hw
  case rti => exact absurd (by decide) hw
  case res => exact absurd (by decide) hw
  all_goals
    simp only [Instruction.decode, ho, Reference.execute, hop, Opcode.code, BitVec.reduceToNat,
      dest_eq, src1_eq, src2_eq, base_eq]
  case add =>
    by_cases hi : Field.isImmediate w = true
    · rw [if_pos hi, State.operand, if_pos ((isImmediate_iff w).mp hi)]
      refine follows_of_result rfl rfl rfl ?_
      rw [Field.imm5, offset_eq, value_wordOf]
      rfl
    · rw [if_neg hi, State.operand, if_neg fun hc => hi ((isImmediate_iff w).mpr hc)]
      exact follows_of_result rfl rfl rfl (value_add _ _)
  case and =>
    by_cases hi : Field.isImmediate w = true
    · rw [if_pos hi, State.operand, if_pos ((isImmediate_iff w).mp hi)]
      refine follows_of_result rfl rfl rfl ?_
      rw [Field.imm5, extended_extract, value_and, value_wordOf]
      rfl
    · rw [if_neg hi, State.operand, if_neg fun hc => hi ((isImmediate_iff w).mpr hc)]
      refine follows_of_result rfl rfl rfl ?_
      rw [value_and, ← wrap_value (m.registers.read (.general (regAt (value w))))]
      rfl
  case not => exact follows_of_result rfl rfl rfl (value_not _)
  case lea =>
    refine follows_of_result rfl rfl rfl ?_
    rw [Field.offset9, offset_eq, value_wordOf]
    rfl
  case ld =>
    obtain ⟨x, m₁, hload, hview, -⟩ := load_view m h (m.view.pc + signed 9 (value w))
    rw [← relative_view] at hload
    rw [hview]
    exact follows_of_result rfl hload rfl rfl
  case ldi =>
    obtain ⟨x, m₁, hload, hview, hpatient⟩ := load_view m h (m.view.pc + signed 9 (value w))
    obtain ⟨y, m₂, hload₂, hview₂, -⟩ := load_view m₁ hpatient (value x)
    rw [← relative_view] at hload
    rw [wordOf_value] at hload₂
    rw [hview]
    simp only [hview₂]
    exact follows_of_result rfl ((run_bind_of_ok hload readCell).trans hload₂) rfl rfl
  case ldr =>
    obtain ⟨x, m₁, hload, hview, -⟩ :=
      load_view m h (m.view.reg (value w / 64) + signed 6 (value w))
    rw [← indexed_view] at hload
    rw [hview]
    exact follows_of_result rfl hload rfl rfl
  case st =>
    refine follows_of_store ?_
    rw [← relative_view]
    rfl
  case sti =>
    obtain ⟨x, m₁, hload, hview, -⟩ := load_view m h (m.view.pc + signed 9 (value w))
    rw [← relative_view] at hload
    rw [hview]
    refine follows_of_store ?_
    rw [wordOf_value]
    exact run_bind_of_ok hload _
  case str =>
    refine follows_of_store ?_
    rw [← indexed_view]
    rfl
  case br =>
    have htaken : (both (value w / 512 % 8) m.view.cond ≠ 0) ↔
        (Field.condition w).setWidth 16 &&& m.registers.cond ≠ 0 := by
      rw [← condition_eq]
      exact both_ne_zero_iff _ _
    refine ⟨_, run_branch _ _ _, ?_⟩
    by_cases hc : (Field.condition w).setWidth 16 &&& m.registers.cond ≠ 0
    · rw [if_pos (htaken.mpr hc), if_pos hc, view_writePC, Field.offset9, relative_view,
        value_wordOf]
    · rw [if_neg fun hd => hc (htaken.mp hd), if_neg hc]
  case jmp => exact ⟨_, rfl, rfl⟩
  case jsr =>
    by_cases hl : Field.isLong w = true
    · rw [if_pos hl, if_pos ((isLong_iff w).mp hl), ← value_wordOf, ← relative_view]
      exact ⟨_, rfl, congrArg some (view_linked m _).symm⟩
    · -- The target is read before the link is written, so it may be the old `R7`.
      rw [if_neg hl, if_neg fun hc => hl ((isLong_iff w).mpr hc)]
      exact ⟨_, rfl, congrArg some (view_linked m _).symm⟩

end Machine

/-! ### Steps -/

theorem Instruction.defect?_decode {w : Word} (h : Opcode.ofWord w ∉ [.trap, .rti, .res]) :
    (Instruction.decode w).defect? = none := by
  unfold Instruction.decode
  cases ho : Opcode.ofWord w <;> rw [ho] at h
  case trap => exact absurd (by decide) h
  case rti => exact absurd (by decide) h
  case res => exact absurd (by decide) h
  case add | and | jsr =>
    dsimp only
    split <;> rfl
  all_goals rfl

theorem Machine.view_announced (m : Machine ScriptedTerminal) (a w : Word) :
    (m.announced a w).view = m.view := rfl

theorem Machine.view_settled (m : Machine ScriptedTerminal) (a w : Word) :
    (m.settled a w).view = { m.view with cycles := m.view.cycles + 1 } := by
  unfold settled
  split <;> rfl

namespace Processor

open Machine

/-- **A step follows the instruction set.** Let a processor on a scripted terminal be
neither halted nor at its limit, and let no wait be abandoned; an interrupt may well come
at another call. Then the cell at its program counter can be read, and if the word `w` in
it is no trap and has an opcode that user programs have, the step returns, and what it
makes of the machine is what `LittleComputer.Reference.step` says: every register, every
cell, the progress, the keys still to come and what was shown are as there. No fault is
recorded. -/
theorem step_follows_reference (p : Processor ScriptedTerminal)
    (hr : p.machine.halted = false) (hn : p.reachedLimit = none)
    (hc : p.machine.console.IsPatient) :
    ∃ w m, (readCell p.machine.registers.pc).run p.machine = (.ok w, m) ∧
      (Opcode.ofWord w ∉ [.trap, .rti, .res] →
        ∃ q, step.run p = (.ok ⟨p.machine.cycles, p.machine.registers.pc, w⟩, q) ∧
          Reference.step p.machine.view = some q.machine.view ∧ q.fault = p.fault) := by
  obtain ⟨w, m₁, hread, hload, hpatient⟩ := load_view p.machine hc (value p.machine.registers.pc)
  rw [wordOf_value] at hread
  refine ⟨w, m₁, hread, fun hw => ?_⟩
  have hfetch := run_fetch_of_ok hread
  -- The instruction finds the program counter past itself.
  have hview : ({ m₁ with registers := m₁.registers.write .pc (p.machine.registers.pc + 1) } :
      Machine ScriptedTerminal).view = { m₁.view with pc := wrap (p.machine.view.pc + 1) } := by
    rw [view_writePC, value_add]
    rfl
  obtain ⟨m₂, heffect, hexecute⟩ := effect_view w
    ({ m₁ with registers := m₁.registers.write .pc (p.machine.registers.pc + 1) }.announced
      p.machine.registers.pc w) hpatient hw
  rw [view_announced, hview] at hexecute
  have hattempt := run_attempt_of_fetched hfetch
  rw [heffect] at hattempt
  refine ⟨_, run_step_of_ok hr hn hattempt, ?_, ?_⟩
  · have hload : p.machine.view.load p.machine.view.pc = (value w, m₁.view) := hload
    rw [Reference.step, hload, completed, view_settled]
    simp only [hexecute, Option.map_some]
  · have hdefect := Instruction.defect?_decode hw
    simp [completed, Cycle.defect?, Cycle.decoded, hdefect]

/-- A processor about to load `R1` through a pointer to the keyboard status register,
while a key is there. -/
def keyboardPointer : Processor ScriptedTerminal :=
  let p : Processor ScriptedTerminal := powerOn { terminal := { keys := [0x41] } } (some 1) false 0
  { p with machine := { p.machine with
    memory := p.machine.memory.load 0x3000 [0xA201, 0x0000, 0xFE00] } }

/-- Loading through the pointer takes the key, although no instruction asks for one. -/
theorem step_of_keyboardPointer :
    keyboardPointer.machine.halted = false ∧ keyboardPointer.reachedLimit = none ∧
      keyboardPointer.machine.console.IsPatient ∧
      ∃ q, step.run keyboardPointer = (.ok ⟨0, 0x3000, 0xA201⟩, q) ∧
        Reference.step keyboardPointer.machine.view = some q.machine.view ∧
        q.machine.view.keys = [] ∧ q.machine.view.cell 0xFE02 = 0x41 ∧
        q.machine.view.reg 1 = 0x8000 ∧ q.machine.view.cond = 4 := by
  have hpatient : keyboardPointer.machine.console.IsPatient := fun h => nomatch h
  obtain ⟨w, m, hread, hstep⟩ := step_follows_reference keyboardPointer rfl rfl hpatient
  obtain rfl : w = 0xA201 := Except.ok.inj (congrArg Prod.fst hread).symm
  obtain ⟨q, hq, href, -⟩ := hstep (by decide)
  obtain rfl : q = (step.run keyboardPointer).2 := (congrArg Prod.snd hq).symm
  exact ⟨rfl, rfl, hpatient, _, hq, href, by decide, by decide, by decide, by decide⟩

end Processor

end LittleComputer
