/-!
# Reading integers

An integer is written as an optional sign and decimal digits, between which
single underscores may stand; blanks around it do not matter. Leading zeros are
allowed. The digits of every script are digits. The blanks are the six of ASCII
and, above ASCII, all that the Unicode standard, version 14, calls blank. At most
4300 digits are read.
-/

namespace LittleComputer.Text

/-- The code points of the digit zero in the scripts that have decimal digits; the
other nine digits of a script follow its zero. -/
def decimalZeros : List Nat := [
   0x30, 0x660, 0x6f0, 0x7c0, 0x966, 0x9e6, 0xa66, 0xae6, 0xb66, 0xbe6, 0xc66, 0xce6, 0xd66,
   0xde6, 0xe50, 0xed0, 0xf20, 0x1040, 0x1090, 0x17e0, 0x1810, 0x1946, 0x19d0, 0x1a80, 0x1a90,
   0x1b50, 0x1bb0, 0x1c40, 0x1c50, 0xa620, 0xa8d0, 0xa900, 0xa9d0, 0xa9f0, 0xaa50, 0xabf0,
   0xff10, 0x104a0, 0x10d30, 0x11066, 0x110f0, 0x11136, 0x111d0, 0x112f0, 0x11450, 0x114d0,
   0x11650, 0x116c0, 0x11730, 0x118e0, 0x11950, 0x11c50, 0x11d50, 0x11da0, 0x16a60, 0x16ac0,
   0x16b50, 0x1d7ce, 0x1d7d8, 0x1d7e2, 0x1d7ec, 0x1d7f6, 0x1e140, 0x1e2f0, 0x1e950, 0x1fbf0]

/-- The code points above ASCII that are blanks. -/
def wideBlanks : List Nat :=
  [0x85, 0xa0, 0x1680, 0x2000, 0x2001, 0x2002, 0x2003, 0x2004, 0x2005, 0x2006, 0x2007, 0x2008,
    0x2009, 0x200a, 0x2028, 0x2029, 0x202f, 0x205f, 0x3000]

/-- The value of a decimal digit of any script. -/
def digitValue? (c : Char) : Option Nat :=
  (decimalZeros.find? fun first => first ≤ c.toNat && c.toNat < first + 10).map (c.toNat - ·)

/-- Whether a character is a blank around an integer. -/
def isBlank (c : Char) : Bool :=
  c = ' ' || (9 ≤ c.toNat && c.toNat ≤ 13) || wideBlanks.contains c.toNat

/-- The most digits that an integer is read from. -/
def mostDigits : Nat := 4300

/-- The values of a sequence of digits between which single underscores may stand;
nothing if there is no digit or an underscore stands elsewhere. -/
def digitValues? : List Char → Option (List Nat)
  | [] => none
  | [c] => (digitValue? c).map ([·])
  | c :: '_' :: rest => do
    let d ← digitValue? c
    return d :: (← digitValues? rest)
  | c :: rest => do
    let d ← digitValue? c
    return d :: (← digitValues? rest)

/-- The number with the given digits, the most significant first. -/
def ofDigits (digits : List Nat) : Nat := digits.foldl (fun n d => 10 * n + d) 0

/-- The number that a sequence of digits stands for. -/
def natural? (cs : List Char) : Option Nat := do
  let digits ← digitValues? cs
  if digits.length ≤ mostDigits then some (ofDigits digits) else none

/-- The integer that a text stands for, if it stands for one. -/
def integer? (text : String) : Option Int :=
  let trimmed := ((text.toList.dropWhile isBlank).reverse.dropWhile isBlank).reverse
  match trimmed with
  | '-' :: rest => (natural? rest).map fun n => -(n : Int)
  | '+' :: rest => (natural? rest).map fun n => (n : Int)
  | rest => (natural? rest).map fun n => (n : Int)

end LittleComputer.Text
