import LittleComputer.Machine.Routine

/-!
# What the operations do

An operation asks for its operands by name, one by one, in the order in which it
needs them (`LittleComputer.Machine.perform`). An instruction has all operands
that its operation asks for, so carrying it out never fails for want of one
(`LittleComputer.Machine.execute`); an operation called by name with operands
supplied from outside can fail half way.

The program counter points past the instruction while it is carried out, so
offsets count from the next instruction. All arithmetic wraps, because it is that
of words. An operation that computes or loads sets the condition register by the
word it has put into its destination.
-/

namespace LittleComputer.Machine

variable {T : Type} [Terminal T]

/-- Put a result into the register with a given number and set the condition
register by what the register then holds. -/
def writeResult (dest : Int) (value : Word) : Action T Unit := do
  writeRegister dest value
  setFlags dest

/-- Carry out an operation whose operands are supplied by `arg`. -/
def perform (arg : Operand → Action T Int) : Operation → Action T Unit
  | .addReg => do
    let dest ← arg .dest
    let x ← readRegister (← arg .src1)
    let y ← readRegister (← arg .src2)
    writeResult dest (x + y)
  | .addImm => do
    let dest ← arg .dest
    let x ← readRegister (← arg .src1)
    let y := wordOf (← arg .imm)
    writeResult dest (x + y)
  | .andReg => do
    let dest ← arg .dest
    let x ← readRegister (← arg .src1)
    let y ← readRegister (← arg .src2)
    writeResult dest (x &&& y)
  | .andImm => do
    let dest ← arg .dest
    let x ← readRegister (← arg .src1)
    let y := wordOf (← arg .imm)
    writeResult dest (x &&& y)
  | .not => do
    let dest ← arg .dest
    let x ← readRegister (← arg .src)
    writeResult dest (~~~x)
  | .ld => do
    let dest ← arg .dest
    let value ← readCell (← relative)
    writeResult dest value
  | .ldi => do
    -- The pointer is read before the destination is asked for.
    let pointer ← readCell (← relative)
    let dest ← arg .dest
    let value ← readCell pointer
    writeResult dest value
  | .ldr => do
    let dest ← arg .dest
    let value ← readCell (← indexed)
    writeResult dest value
  | .lea => do
    let dest ← arg .dest
    writeResult dest (← relative)
  | .st => do
    let address ← relative
    let value ← readRegister (← arg .src)
    writeCell address value
  | .sti => do
    let pointer ← readCell (← relative)
    let value ← readRegister (← arg .src)
    writeCell pointer value
  | .str => do
    let address ← indexed
    let value ← readRegister (← arg .src)
    writeCell address value
  | .br => do
    let cond ← arg .cond
    if wordOf cond &&& (← readSlot .cond) ≠ 0 then
      writeSlot .pc (← relative)
  | .jmp | .ret => do
    writeSlot .pc (← readRegister (← arg .base))
  | .jsr => do
    let pc ← readSlot .pc
    writeSlot (.general 7) pc
    writeSlot .pc (pc + wordOf (← arg .offset))
  | .jsrr => do
    -- The base may be `R7` itself, so it is read before the link is written.
    let target ← readRegister (← arg .base)
    writeSlot (.general 7) (← readSlot .pc)
    writeSlot .pc target
  | .trap => do
    writeSlot (.general 7) (← readSlot .pc)
    dispatch (← arg .vector)
  | .invalid => modify fun m => { m with halted := true }
where
  /-- The program counter plus the operand `offset`. -/
  relative : Action T Word := do
    let pc ← readSlot .pc
    return pc + wordOf (← arg .offset)
  /-- The register given by the operand `base` plus the operand `offset`. -/
  indexed : Action T Word := do
    let base ← readRegister (← arg .base)
    return base + wordOf (← arg .offset)

/-- The supply of operands by name; asking for one that is not there fails. -/
def supply (operands : String → Option Int) (o : Operand) : Action T Int :=
  match operands o.name with
  | some value => return value
  | none => throw (.misuse (.missingOperand o.name))

/-- One more instruction has been carried out. -/
def countCycle : Action T Unit := modify fun m => { m with cycles := m.cycles + 1 }

/-- The supply of the operands of an instruction. -/
def operandOf (i : Instruction) (o : Operand) : Action T Int :=
  match i.operand? o with
  | some value => return value
  | none => throw (.misuse (.missingOperand o.name))

/-- Carry out an instruction and count it. -/
def execute (i : Instruction) : Action T Unit := do
  perform (operandOf i) i.operation
  countCycle

/-- Fetch the word at the program counter and advance the counter past it. -/
def fetch : Action T (Word × Word) := do
  let address ← readSlot .pc
  let instruction ← readCell address
  writeSlot .pc (address + 1)
  return (address, instruction)

end LittleComputer.Machine
