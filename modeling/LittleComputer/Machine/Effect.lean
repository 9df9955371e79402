import LittleComputer.Machine.Execute

/-!
# What the instructions do

`LittleComputer.Machine.perform` asks for its operands by name, because operations
can be called with operands from outside. An instruction has its operands as
fields, and `LittleComputer.Machine.effect` is what remains when they are filled
in: no operand is looked up, no register is designated by a number, and nothing
can go wrong but what goes wrong in a service. It says

* which registers and cells are read, and in which order;
* what is computed from them, as an operation of words;
* where the result goes, and whether the condition register follows it, in which
  case the result is put in place by `LittleComputer.Machine.assign`.

Offsets count from the program counter at the time of the execution, which is
already past the instruction. The main statement is
`LittleComputer.Machine.execute_eq`: to carry out an instruction is its effect,
and one more instruction counted.
-/

namespace LittleComputer.Machine

variable {T : Type}

/-! ### Registers by number -/

@[simp] theorem readRegister_toNat (r : Reg) :
    readRegister (T := T) r.toNat = readSlot (.general r) := by
  simp only [readRegister, Slot.ofIndex?_toNat]

@[simp] theorem writeRegister_toNat (r : Reg) (w : Word) :
    writeRegister (T := T) r.toNat w = writeSlot (.general r) w := by
  simp only [writeRegister, Slot.ofIndex?_toNat]

/-- The word that a register holds after a write is the one that was written, so
its flag can be taken beforehand. -/
@[simp] theorem writeResult_toNat (r : Reg) (w : Word) :
    writeResult (T := T) r.toNat w = assign r w := by
  funext m
  simp only [writeResult, writeRegister_toNat, setFlags, readRegister_toNat, assign]
  change (Except.ok (), _) = (Except.ok (), _)
  simp

/-- The condition field of a branch as a word. -/
theorem wordOf_condition (c : BitVec 3) : wordOf (c.toNat : Int) = c.setWidth 16 := by
  revert c
  decide

/-- Operands are told apart by their names alone. -/
theorem operand_beq (a b : Operand) : (a == b) = decide (a = b) := rfl

/-! ### Effects -/

variable [Terminal T]

/-- The address at a distance from the program counter. -/
def relativeTo (distance : Word) : Action T Word := return (← readSlot .pc) + distance

/-- The address at a distance from the one in a register. -/
def indexedBy (base : Reg) (distance : Word) : Action T Word :=
  return (← readSlot (.general base)) + distance

/-- What an instruction does. -/
def effect : Instruction → Action T Unit
  | .addReg dest src1 src2 => do
    let x ← readSlot (.general src1)
    let y ← readSlot (.general src2)
    assign dest (x + y)
  | .addImm dest src1 imm => do
    let x ← readSlot (.general src1)
    assign dest (x + Field.extended imm)
  | .andReg dest src1 src2 => do
    let x ← readSlot (.general src1)
    let y ← readSlot (.general src2)
    assign dest (x &&& y)
  | .andImm dest src1 imm => do
    let x ← readSlot (.general src1)
    assign dest (x &&& Field.extended imm)
  | .not dest src => do
    let x ← readSlot (.general src)
    assign dest (~~~x)
  | .br cond offset => do
    if cond.setWidth 16 &&& (← readSlot .cond) ≠ 0 then
      writeSlot .pc (← relativeTo (Field.extended offset))
  | .jmp base => do
    writeSlot .pc (← readSlot (.general base))
  | .jsr offset => do
    let pc ← readSlot .pc
    writeSlot (.general 7) pc
    writeSlot .pc (pc + Field.extended offset)
  | .jsrr base => do
    let target ← readSlot (.general base)
    writeSlot (.general 7) (← readSlot .pc)
    writeSlot .pc target
  | .ld dest offset => do
    let value ← readCell (← relativeTo (Field.extended offset))
    assign dest value
  | .ldi dest offset => do
    let pointer ← readCell (← relativeTo (Field.extended offset))
    let value ← readCell pointer
    assign dest value
  | .ldr dest base offset => do
    let value ← readCell (← indexedBy base (Field.extended offset))
    assign dest value
  | .lea dest offset => do
    assign dest (← relativeTo (Field.extended offset))
  | .st src offset => do
    let address ← relativeTo (Field.extended offset)
    writeCell address (← readSlot (.general src))
  | .sti src offset => do
    let pointer ← readCell (← relativeTo (Field.extended offset))
    writeCell pointer (← readSlot (.general src))
  | .str src base offset => do
    let address ← indexedBy base (Field.extended offset)
    writeCell address (← readSlot (.general src))
  | .trap service => do
    writeSlot (.general 7) (← readSlot .pc)
    note (.called service)
    serve service
  | .illegal _ => modify fun m => { m with halted := true }

/-- **The operands of an instruction are those that its operation asks for.** -/
theorem perform_operandOf (i : Instruction) :
    perform (T := T) (operandOf i) i.operation = effect i := by
  cases i with
  | jmp base =>
    simp only [Instruction.operation]
    split <;> simp [perform, effect, operandOf, Instruction.operand?, Instruction.operands]
  | _ =>
    simp [Instruction.operation, perform, effect, operandOf, Instruction.operand?,
      Instruction.operands, List.lookup_cons, operand_beq, perform.relative, perform.indexed,
      relativeTo, indexedBy, wordOf_condition, dispatch]

/-- **To carry out an instruction is its effect, and one more instruction counted.** -/
theorem execute_eq (i : Instruction) :
    execute (T := T) i = (do
      effect i
      countCycle) := by
  rw [execute, perform_operandOf]

end LittleComputer.Machine
