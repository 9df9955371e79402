/-!
# Numerals

The two numeral formats of the machine's texts: hexadecimal with upper-case
digits, padded with zeros on the left, and decimal, padded with blanks on the
left. The sign of a negative number counts towards the width of a hexadecimal
numeral, so `hex 4 (-1)` is `-001`.
-/

namespace LittleComputer.Text

/-- The upper-case hexadecimal digits of a natural number, without padding. -/
def hexDigits (n : Nat) : List Char := (Nat.toDigits 16 n).map Char.toUpper

/-- Hexadecimal text of at least `width` characters, the sign included. Zeros go
between the sign and the digits. -/
def hex (width : Nat) (value : Int) : String :=
  let digits := hexDigits value.natAbs
  let sign := if value < 0 then ['-'] else []
  String.ofList (sign ++ List.replicate (width - sign.length - digits.length) '0' ++ digits)

/-- The four-digit hexadecimal text of a word. -/
def hexWord (w : BitVec 16) : String := hex 4 w.toNat

/-- Decimal text aligned to the right in a field of at least `width` characters. -/
def decimal (width : Nat) (n : Nat) : String :=
  let digits := toString n
  String.ofList (List.replicate (width - digits.length) ' ') ++ digits

/-- A text aligned to the right in a field of at least `width` characters. -/
def alignRight (width : Nat) (text : String) : String :=
  String.ofList (List.replicate (width - text.length) ' ') ++ text

/-- A text aligned to the left in a field of at least `width` characters. -/
def alignLeft (width : Nat) (text : String) : String :=
  text ++ String.ofList (List.replicate (width - text.length) ' ')

/-- A truth value, as every report of the machine writes it. -/
def truth (b : Bool) : String := if b then "True" else "False"

/-- A horizontal rule of `width` equal characters. -/
def rule (c : Char) (width : Nat) : String := String.ofList (List.replicate width c)

end LittleComputer.Text
