/-!
# Rounded decimals

A number written with a decimal point or an exponent is not kept as it is written
but as the nearest number of 53 binary digits; of two that are equally near, the
one whose last digit is even. Very small numbers have fewer digits, because no
digit has a place value below `2 ^ -1074`. A number that is rounded to `2 ^ 1024` or
more is infinite.

`LittleComputer.Text.Binary.ofDecimal?` is that rounding, computed exactly on natural
numbers from `LittleComputer.Text.roundQuotient`, and
`LittleComputer.Text.Binary.wholePart` is what remains without the places behind the
point. Rounding comes first, so a number just below an integer can have that integer
as its whole part.
-/

namespace LittleComputer.Text

/-! ### Rounding a quotient -/

/-- The natural number nearest to a quotient, of two the even one. -/
def roundQuotient (num den : Nat) : Nat :=
  let q := num / den
  let twice := 2 * (num % den)
  if twice < den || (twice = den && q % 2 = 0) then q else q + 1

/-- **The rounded quotient is at most half a unit too great.** -/
theorem two_mul_roundQuotient_le (num den : Nat) :
    2 * (roundQuotient num den * den) ≤ 2 * num + den := by
  have h := Nat.div_add_mod num den
  rw [Nat.mul_comm] at h
  simp only [roundQuotient]
  split
  · omega
  · rw [Nat.add_mul]
    simp_all only [Bool.or_eq_true, decide_eq_true_eq, not_or]
    omega

/-- **The rounded quotient is at most half a unit too small.** -/
theorem two_mul_le_roundQuotient (num : Nat) {den : Nat} (hden : 0 < den) :
    2 * num ≤ 2 * (roundQuotient num den * den) + den := by
  have h := Nat.div_add_mod num den
  have hr := Nat.mod_lt num hden
  rw [Nat.mul_comm] at h
  simp only [roundQuotient]
  split
  · next hc =>
    simp only [Bool.or_eq_true, Bool.and_eq_true, decide_eq_true_eq] at hc
    omega
  · rw [Nat.add_mul]
    omega

/-! ### Numbers of 53 binary digits -/

/-- The number `digits * 2 ^ exponent`. -/
structure Binary where
  /-- The binary digits, as a natural number. -/
  digits : Nat
  /-- The place of the last of them. -/
  exponent : Int
  deriving DecidableEq, Repr

namespace Binary

/-- How many binary digits a number has. -/
def precision : Nat := 53

/-- The lowest place of a digit. -/
def lowestPlace : Int := -1074

/-- The place that no digit reaches. -/
def topPlace : Nat := 1024

/-- The place of the first binary digit of a quotient of positive numbers. -/
def firstPlace (num den : Nat) : Int :=
  let place : Int := (num.log2 : Int) - den.log2
  let reaches :=
    if 0 ≤ place then den <<< place.toNat ≤ num else den ≤ num <<< (-place).toNat
  if reaches then place else place - 1

/-- The number nearest to a quotient of positive numbers, however great. -/
def ofQuotient (num den : Nat) : Binary :=
  let exponent := max (firstPlace num den - (precision - 1)) lowestPlace
  { exponent
    digits :=
      if 0 ≤ exponent then roundQuotient num (den <<< exponent.toNat)
      else roundQuotient (num <<< (-exponent).toNat) den }

/-- The whole part. -/
def wholePart (b : Binary) : Nat :=
  if 0 ≤ b.exponent then b.digits <<< b.exponent.toNat else b.digits >>> (-b.exponent).toNat

/-- The number nearest to `mantissa * 10 ^ exponent`; nothing if that is infinite. -/
def ofDecimal? (mantissa : Nat) (exponent : Int) : Option Binary :=
  let size : Int := (Nat.toDigits 10 mantissa).length + exponent
  -- Far off the range nothing need be computed: the powers of ten could be huge.
  if mantissa = 0 || size < -330 then some ⟨0, lowestPlace⟩
  else if 310 < size then none
  else
    let b := ofQuotient (mantissa * Nat.pow 10 exponent.toNat) (Nat.pow 10 (-exponent).toNat)
    if b.wholePart < Nat.pow 2 topPlace then some b else none

end Binary

end LittleComputer.Text
