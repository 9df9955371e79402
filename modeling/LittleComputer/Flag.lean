import LittleComputer.Word

/-!
# Condition flags

The machine remembers the sign of the last result in a condition register that
holds one of three one-hot codes: 4 for negative, 2 for zero, 1 for positive.
The codes have the layout of the three condition bits of a branch, so a branch
is taken exactly when its bits and the register have a bit in common.

`LittleComputer.Flag.ofWord` is the flag of a result; `LittleComputer.Flag.ofCode?`
reads a code back, and `LittleComputer.Flag.ofCode?_code` says that nothing is
lost on the way.
-/

namespace LittleComputer

/-- The sign of a result. -/
inductive Flag
  | negative
  | zero
  | positive
  deriving DecidableEq, Repr

namespace Flag

/-- The code of a flag in the condition register. -/
def code : Flag → Word
  | negative => 4
  | zero => 2
  | positive => 1

/-- The flag of a word read as a signed number. -/
def ofWord (w : Word) : Flag :=
  if w = 0 then zero else if w.msb then negative else positive

/-- The flag that a number encodes, if it encodes one. -/
def ofCode? (code : Int) : Option Flag :=
  if code = 4 then some negative
  else if code = 2 then some zero
  else if code = 1 then some positive
  else none

/-- The letter that stands for a flag in reports. -/
def letter : Flag → String
  | negative => "N"
  | zero => "Z"
  | positive => "P"

/-- The letter of the flag with a given code; a question mark for a number that
encodes no flag. -/
def letterOf (code : Int) : String := ((ofCode? code).map letter).getD "?"

@[simp] theorem ofCode?_code (f : Flag) : ofCode? f.code.toNat = some f := by
  cases f <;> rfl

/-- The flag of a word is zero exactly when the word is. -/
theorem ofWord_eq_zero_iff (w : Word) : ofWord w = zero ↔ w = 0 := by
  unfold ofWord
  split
  · simp_all
  · split <;> simp_all

/-- The flag of a word is negative exactly when its signed value is. -/
theorem ofWord_eq_negative_iff (w : Word) : ofWord w = negative ↔ w.toInt < 0 := by
  by_cases hw : w = 0
  · simp [ofWord, hw]
  · simp only [ofWord, hw, if_false, BitVec.msb_eq_toInt, decide_eq_true_eq]
    split <;> simp_all

end Flag

end LittleComputer
