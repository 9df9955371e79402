import LittleComputer.Failure
import LittleComputer.Word

/-!
# The fields of an instruction word

Bits 15 to 12 of a word are its opcode; the other twelve hold operand fields
whose layout depends on the opcode. Every accessor returns a bit vector of the
field's own width, so a field cannot be confused with a word, and its signed
reading is the sign extension of that vector.

`LittleComputer.signExtend` is sign extension for numbers of any size, of which
the field is the low part. Bits above the field are *kept* when the sign bit is
clear and swallowed when it is set.
-/

namespace LittleComputer

/-! ### Sign extension -/

/-- Whether the sign bit `width - 1` of a number is set. -/
def hasSign (value : Int) (width : Nat) : Bool := (value >>> (width - 1)) % 2 = 1

/-- The word in which the sign bit `width - 1` of a number is repeated in every
bit from `width` upwards, if that bit is set; the residue of the number itself,
if it is clear. -/
def signExtend (value : Int) (width : Nat) : Word :=
  if hasSign value width then wordOf value ||| BitVec.allOnes 16 <<< min width 16
  else wordOf value

/-- The greatest width that a sign is extended from where nothing else is said: a memory of
32 gibibytes does not hold the bits in between of a greater one. -/
def greatestWidth : Nat := Nat.pow 2 38

/-- The greatest width at which the bits in between can be counted, in digits of 30
bits, by a number of 61 bits that leaves room for a header. -/
def countableWidth : Nat := 30 * (Nat.pow 2 61 - 8)

/-- Sign extension from a field whose width is any integer, where `memory` is the greatest
width of which memory holds the bits in between; a field without bits has no sign, and a
sign that is clear needs no room. -/
def signExtend? (value width : Int) (memory : Nat := greatestWidth) : Except Failure Word :=
  if width ≤ 0 then .error (.misuse .nonpositiveWidth)
  else if !hasSign value width.toNat || width ≤ (min memory countableWidth : Nat) then
    .ok (signExtend value width.toNat)
  else if width ≤ countableWidth then .error (.misuse .widthBeyondMemory)
  else .error (.misuse .widthBeyondCount)

/-! ### The accessors -/

namespace Field

/-- The opcode, bits 15 to 12. -/
def opcode (w : Word) : BitVec 4 := w.extractLsb' 12 4

/-- The destination register, or the source of a store: bits 11 to 9. -/
def dest (w : Word) : Reg := w.extractLsb' 9 3

/-- The first source register, bits 8 to 6. -/
def src1 (w : Word) : Reg := w.extractLsb' 6 3

/-- The base register, in the place of the first source. -/
def base (w : Word) : Reg := src1 w

/-- The second source register, bits 2 to 0. -/
def src2 (w : Word) : Reg := w.extractLsb' 0 3

/-- Whether the second operand is an immediate value: bit 5. -/
def isImmediate (w : Word) : Bool := w.getLsbD 5

/-- Whether a subroutine is called relative to the program counter: bit 11. -/
def isLong (w : Word) : Bool := w.getLsbD 11

/-- The flags on which a branch is taken, bits 11 to 9, in the layout of the
condition register. -/
def condition (w : Word) : BitVec 3 := w.extractLsb' 9 3

/-- The trap vector, bits 7 to 0. -/
def vector (w : Word) : Byte := w.extractLsb' 0 8

/-- The immediate value, bits 4 to 0. -/
def imm5 (w : Word) : BitVec 5 := w.extractLsb' 0 5

/-- The offset to a base register, bits 5 to 0. -/
def offset6 (w : Word) : BitVec 6 := w.extractLsb' 0 6

/-- The offset to the program counter, bits 8 to 0. -/
def offset9 (w : Word) : BitVec 9 := w.extractLsb' 0 9

/-- The long offset to the program counter, bits 10 to 0. -/
def offset11 (w : Word) : BitVec 11 := w.extractLsb' 0 11

/-- The signed reading of a field as a word. -/
def extended {n : Nat} (field : BitVec n) : Word := field.signExtend 16

end Field

end LittleComputer
