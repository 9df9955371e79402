/-!
# Words, bytes and register numbers

The machine computes with sixteen-bit words. Everything it stores is a word, an
address is a word, and all arithmetic wraps modulo `2 ^ 16`, which is the
arithmetic of `BitVec 16`; no operation of the library masks anything by hand.

Numbers that come from outside – a value typed by a user, an operand given by
name – are unbounded integers. They become words through
`LittleComputer.wordOf`, which keeps the residue modulo `2 ^ 16`.
-/

namespace LittleComputer

/-- A word: the content of a memory cell or a register, or an address. -/
abbrev Word := BitVec 16

/-- A byte: a key of the keyboard or a character of the display. -/
abbrev Byte := BitVec 8

/-- The number of one of the eight general registers. -/
abbrev Reg := BitVec 3

/-- The word congruent to an integer modulo `2 ^ 16`. -/
def wordOf (value : Int) : Word := BitVec.ofInt 16 value

/-- The byte congruent to an integer modulo `2 ^ 8`. -/
def byteOf (value : Int) : Byte := BitVec.ofInt 8 value

/-- The low byte of a word, which is what the display shows of it. -/
def lowByte (w : Word) : Byte := BitVec.ofNat 8 w.toNat

/-- The high byte of a word. -/
def highByte (w : Word) : Byte := BitVec.ofNat 8 (w.toNat / 256)

/-- The word with a given high and low byte. -/
def joinBytes (high low : Byte) : Word := BitVec.ofNat 16 (256 * high.toNat + low.toNat)

/-- The word that holds a byte in its low half and zero in its high half. -/
def wordOfByte (b : Byte) : Word := BitVec.ofNat 16 b.toNat

@[simp] theorem wordOf_natCast_toNat (w : Word) : wordOf (w.toNat : Int) = w := by
  simp [wordOf]

@[simp] theorem toNat_joinBytes (high low : Byte) :
    (joinBytes high low).toNat = 256 * high.toNat + low.toNat := by
  rw [joinBytes, BitVec.toNat_ofNat]
  omega

@[simp] theorem lowByte_joinBytes (high low : Byte) : lowByte (joinBytes high low) = low := by
  apply BitVec.eq_of_toNat_eq
  rw [lowByte, BitVec.toNat_ofNat, toNat_joinBytes]
  omega

@[simp] theorem highByte_joinBytes (high low : Byte) : highByte (joinBytes high low) = high := by
  apply BitVec.eq_of_toNat_eq
  rw [highByte, BitVec.toNat_ofNat, toNat_joinBytes]
  omega

@[simp] theorem joinBytes_highByte_lowByte (w : Word) :
    joinBytes (highByte w) (lowByte w) = w := by
  apply BitVec.eq_of_toNat_eq
  rw [toNat_joinBytes, highByte, lowByte, BitVec.toNat_ofNat, BitVec.toNat_ofNat]
  omega

@[simp] theorem toNat_wordOfByte (b : Byte) : (wordOfByte b).toNat = b.toNat := by
  rw [wordOfByte, BitVec.toNat_ofNat]
  omega

@[simp] theorem lowByte_wordOfByte (b : Byte) : lowByte (wordOfByte b) = b := by
  apply BitVec.eq_of_toNat_eq
  rw [lowByte, BitVec.toNat_ofNat, toNat_wordOfByte]
  omega

end LittleComputer
