import LittleComputer.Instruction.Basic

/-!
# From words to instructions

`LittleComputer.Instruction.decode` reads the instruction that a word holds. It
is total: a word that holds none is read as `LittleComputer.Instruction.illegal`.
`LittleComputer.Instruction.encode` goes the other way and leaves every bit that
the format ignores at the value that the format prescribes for it.
-/

namespace LittleComputer.Instruction

/-- The instruction that a word holds. -/
def decode (w : Word) : Instruction :=
  let dest := Field.dest w
  let src1 := Field.src1 w
  match Opcode.ofWord w with
  | .add =>
    if Field.isImmediate w then addImm dest src1 (Field.imm5 w)
    else addReg dest src1 (Field.src2 w)
  | .and =>
    if Field.isImmediate w then andImm dest src1 (Field.imm5 w)
    else andReg dest src1 (Field.src2 w)
  | .not => not dest src1
  | .br => br (Field.condition w) (Field.offset9 w)
  | .jmp => jmp (Field.base w)
  | .jsr => if Field.isLong w then jsr (Field.offset11 w) else jsrr (Field.base w)
  | .ld => ld dest (Field.offset9 w)
  | .ldi => ldi dest (Field.offset9 w)
  | .lea => lea dest (Field.offset9 w)
  | .st => st dest (Field.offset9 w)
  | .sti => sti dest (Field.offset9 w)
  | .ldr => ldr dest (Field.base w) (Field.offset6 w)
  | .str => str dest (Field.base w) (Field.offset6 w)
  | .trap =>
    match Service.ofVector? (Field.vector w).toNat with
    | some service => trap service
    | none => illegal w
  | .rti | .res => illegal w

/-- A word from its opcode and the number in its other twelve bits. -/
def form (opcode : Opcode) (rest : Nat) : Word :=
  BitVec.ofNat 16 (opcode.code.toNat * 4096 + rest)

/-- A word that holds an instruction. Bits that the format ignores are zero, but
for the low six bits of a complement, which are ones. -/
def encode : Instruction → Word
  | addReg dest src1 src2 => form .add (dest.toNat * 512 + src1.toNat * 64 + src2.toNat)
  | addImm dest src1 imm => form .add (dest.toNat * 512 + src1.toNat * 64 + 32 + imm.toNat)
  | andReg dest src1 src2 => form .and (dest.toNat * 512 + src1.toNat * 64 + src2.toNat)
  | andImm dest src1 imm => form .and (dest.toNat * 512 + src1.toNat * 64 + 32 + imm.toNat)
  | not dest src => form .not (dest.toNat * 512 + src.toNat * 64 + 63)
  | br cond offset => form .br (cond.toNat * 512 + offset.toNat)
  | jmp base => form .jmp (base.toNat * 64)
  | jsr offset => form .jsr (2048 + offset.toNat)
  | jsrr base => form .jsr (base.toNat * 64)
  | ld dest offset => form .ld (dest.toNat * 512 + offset.toNat)
  | ldi dest offset => form .ldi (dest.toNat * 512 + offset.toNat)
  | ldr dest base offset => form .ldr (dest.toNat * 512 + base.toNat * 64 + offset.toNat)
  | lea dest offset => form .lea (dest.toNat * 512 + offset.toNat)
  | st src offset => form .st (src.toNat * 512 + offset.toNat)
  | sti src offset => form .sti (src.toNat * 512 + offset.toNat)
  | str src base offset => form .str (src.toNat * 512 + base.toNat * 64 + offset.toNat)
  | trap service => form .trap service.vector.toNat
  | illegal raw => raw

end LittleComputer.Instruction
