import LittleComputer.Field
import LittleComputer.Service

/-!
# Instructions

An instruction in the form in which it is carried out: its operand fields at
their own widths, with the mode bits of the word already interpreted. Words that
are no instruction of a user program – the return from interrupt, the reserved
opcode, a trap without a service – are kept whole as
`LittleComputer.Instruction.illegal`.

Reports name an instruction by the key of its operation
(`LittleComputer.Operation.key`) and list its operands by name, with immediate
values and offsets sign-extended to words (`LittleComputer.Instruction.operands`).
-/

namespace LittleComputer

open Text

/-! ### Opcodes -/

/-- The sixteen opcodes. -/
inductive Opcode
  | br | add | ld | st | jsr | and | ldr | str | rti | not | ldi | sti | jmp | res | lea | trap
  deriving DecidableEq, Repr

namespace Opcode

/-- The opcodes in the order of their codes. -/
def all : List Opcode :=
  [br, add, ld, st, jsr, and, ldr, str, rti, not, ldi, sti, jmp, res, lea, trap]

/-- The code of an opcode. -/
def code : Opcode → BitVec 4
  | br => 0 | add => 1 | ld => 2 | st => 3 | jsr => 4 | and => 5 | ldr => 6 | str => 7
  | rti => 8 | not => 9 | ldi => 10 | sti => 11 | jmp => 12 | res => 13 | lea => 14 | trap => 15

/-- The name of an opcode. -/
def name : Opcode → String
  | br => "BR" | add => "ADD" | ld => "LD" | st => "ST"
  | jsr => "JSR" | and => "AND" | ldr => "LDR" | str => "STR"
  | rti => "RTI" | not => "NOT" | ldi => "LDI" | sti => "STI"
  | jmp => "JMP" | res => "RES" | lea => "LEA" | trap => "TRAP"

/-- The opcode with a given code. -/
def ofCode (c : BitVec 4) : Opcode :=
  match c.toNat with
  | 0 => br | 1 => add | 2 => ld | 3 => st | 4 => jsr | 5 => and | 6 => ldr | 7 => str
  | 8 => rti | 9 => not | 10 => ldi | 11 => sti | 12 => jmp | 13 => res | 14 => lea | _ => trap

/-- The opcode of a word. -/
def ofWord (w : Word) : Opcode := ofCode (Field.opcode w)

@[simp] theorem ofCode_code (o : Opcode) : ofCode o.code = o := by cases o <;> rfl

@[simp] theorem code_ofCode (c : BitVec 4) : (ofCode c).code = c := by
  revert c
  decide

end Opcode

/-! ### Instructions -/

/-- An instruction with its operand fields. -/
inductive Instruction
  /-- `dest := src1 + src2`. -/
  | addReg (dest src1 src2 : Reg)
  /-- `dest := src1 + imm`. -/
  | addImm (dest src1 : Reg) (imm : BitVec 5)
  /-- `dest := src1 and src2`, bit by bit. -/
  | andReg (dest src1 src2 : Reg)
  /-- `dest := src1 and imm`, bit by bit. -/
  | andImm (dest src1 : Reg) (imm : BitVec 5)
  /-- `dest := not src`, bit by bit. -/
  | not (dest src : Reg)
  /-- Branch by `offset` if the condition register has a flag of `cond`. -/
  | br (cond : BitVec 3) (offset : BitVec 9)
  /-- Jump to the address in `base`. -/
  | jmp (base : Reg)
  /-- Call the subroutine at `offset`. -/
  | jsr (offset : BitVec 11)
  /-- Call the subroutine at the address in `base`. -/
  | jsrr (base : Reg)
  /-- Load the cell at `offset`. -/
  | ld (dest : Reg) (offset : BitVec 9)
  /-- Load the cell whose address is in the cell at `offset`. -/
  | ldi (dest : Reg) (offset : BitVec 9)
  /-- Load the cell at `offset` from the address in `base`. -/
  | ldr (dest base : Reg) (offset : BitVec 6)
  /-- Load the address of the cell at `offset`. -/
  | lea (dest : Reg) (offset : BitVec 9)
  /-- Store into the cell at `offset`. -/
  | st (src : Reg) (offset : BitVec 9)
  /-- Store into the cell whose address is in the cell at `offset`. -/
  | sti (src : Reg) (offset : BitVec 9)
  /-- Store into the cell at `offset` from the address in `base`. -/
  | str (src base : Reg) (offset : BitVec 6)
  /-- Call a service. -/
  | trap (service : Service)
  /-- A word that is no instruction of a user program. -/
  | illegal (raw : Word)
  deriving DecidableEq, Repr

/-- Why a word is no instruction of a user program. -/
inductive Defect
  /-- Its opcode is reserved, or not available to user programs. -/
  | unsupported (opcode : Opcode)
  /-- It is a trap, but its vector belongs to no service. -/
  | unknownVector (vector : Byte)
  deriving DecidableEq, Repr

namespace Defect

/-- What is wrong with a word that is no instruction. -/
def ofWord (w : Word) : Defect :=
  if Opcode.ofWord w = .trap then unknownVector (Field.vector w)
  else unsupported (Opcode.ofWord w)

/-- The wording of a defect. -/
def message : Defect → String
  | unsupported opcode => "unsupported opcode " ++ opcode.name
  | unknownVector vector => "unknown trap vector 0x" ++ hex 2 vector.toNat

end Defect

/-! ### Operations and named operands -/

/-- What an instruction does, without its operands. -/
inductive Operation
  | addReg | addImm | andReg | andImm | not
  | ld | ldi | ldr | lea | st | sti | str
  | br | jmp | ret | jsr | jsrr | trap | invalid
  deriving DecidableEq, Repr

namespace Operation

/-- The operations: computing, moving data, transferring control, and the one
that every word without a meaning stands for. -/
def all : List Operation :=
  [addReg, addImm, andReg, andImm, not, ld, ldi, ldr, lea, st, sti, str,
    br, jmp, ret, jsr, jsrr, trap, invalid]

/-- The key by which an operation is known in reports and tables. -/
def key : Operation → String
  | addReg => "OP_ADD_REG"
  | addImm => "OP_ADD_IMM"
  | andReg => "OP_AND_REG"
  | andImm => "OP_AND_IMM"
  | not => "OP_NOT"
  | ld => "OP_LD"
  | ldi => "OP_LDI"
  | ldr => "OP_LDR"
  | lea => "OP_LEA"
  | st => "OP_ST"
  | sti => "OP_STI"
  | str => "OP_STR"
  | br => "OP_BR"
  | jmp => "OP_JMP"
  | ret => "OP_RET"
  | jsr => "OP_JSR"
  | jsrr => "OP_JSRR"
  | trap => "OP_TRAP"
  | invalid => "OP_INVALID"

/-- The operation with a given key. -/
def ofKey? (key : String) : Option Operation := all.find? fun op => op.key = key

end Operation

/-- The name of an operand. -/
inductive Operand
  | dest | src1 | src2 | src | imm | cond | offset | base | vector | raw
  deriving DecidableEq, Repr

/-- The spelling of an operand's name. -/
def Operand.name : Operand → String
  | dest => "dest"
  | src1 => "src1"
  | src2 => "src2"
  | src => "src"
  | imm => "imm"
  | cond => "cond"
  | offset => "offset"
  | base => "base"
  | vector => "vector"
  | raw => "raw"

namespace Instruction

/-- The operation of an instruction. Jumping to the address in `R7` is the return
from a subroutine and has a key of its own. -/
def operation : Instruction → Operation
  | addReg .. => .addReg
  | addImm .. => .addImm
  | andReg .. => .andReg
  | andImm .. => .andImm
  | not .. => .not
  | br .. => .br
  | jmp base => if base = 7 then .ret else .jmp
  | jsr .. => .jsr
  | jsrr .. => .jsrr
  | ld .. => .ld
  | ldi .. => .ldi
  | ldr .. => .ldr
  | lea .. => .lea
  | st .. => .st
  | sti .. => .sti
  | str .. => .str
  | trap .. => .trap
  | illegal .. => .invalid

/-- The operands of an instruction by name, in the order in which reports list
them. Immediate values and offsets appear as the words they extend to. -/
def operands : Instruction → List (Operand × Nat)
  | addReg dest src1 src2 | andReg dest src1 src2 =>
    [(.dest, dest.toNat), (.src1, src1.toNat), (.src2, src2.toNat)]
  | addImm dest src1 imm | andImm dest src1 imm =>
    [(.dest, dest.toNat), (.src1, src1.toNat), (.imm, (Field.extended imm).toNat)]
  | not dest src => [(.dest, dest.toNat), (.src, src.toNat)]
  | br cond offset => [(.cond, cond.toNat), (.offset, (Field.extended offset).toNat)]
  | jmp base | jsrr base => [(.base, base.toNat)]
  | jsr offset => [(.offset, (Field.extended offset).toNat)]
  | ld dest offset | ldi dest offset | lea dest offset =>
    [(.dest, dest.toNat), (.offset, (Field.extended offset).toNat)]
  | st src offset | sti src offset =>
    [(.src, src.toNat), (.offset, (Field.extended offset).toNat)]
  | ldr dest base offset =>
    [(.dest, dest.toNat), (.base, base.toNat), (.offset, (Field.extended offset).toNat)]
  | str src base offset =>
    [(.src, src.toNat), (.base, base.toNat), (.offset, (Field.extended offset).toNat)]
  | trap service => [(.vector, service.vector.toNat)]
  | illegal raw => [(.raw, raw.toNat)]

/-- The operand of an instruction with a given name, if it has one. -/
def operand? (i : Instruction) (o : Operand) : Option Nat := i.operands.lookup o

/-- What makes a word no instruction, if it is none. -/
def defect? : Instruction → Option Defect
  | illegal raw => some (Defect.ofWord raw)
  | _ => none

/-- The operands as reports show them: names in quotation marks, each followed by
its value, all between braces. -/
def operandText (i : Instruction) : String :=
  let entry := fun (o : Operand × Nat) => "'" ++ o.1.name ++ "': " ++ toString o.2
  "\x7b" ++ ", ".intercalate (i.operands.map entry) ++ "\x7d"

end Instruction

end LittleComputer
