import LittleComputer.Text.Printable

/-!
# Quoted text

How messages quote a text that was given to the program. It stands between
apostrophes, or between quotation marks if it contains an apostrophe and no
quotation mark. The mark itself and the backslash are escaped with a backslash,
line ends and tabulators by their letters, and every other character that is not
printable by its code in two, four or eight hexadecimal digits.
-/

namespace LittleComputer.Text

/-- A code in lower-case hexadecimal with at least `width` digits. -/
def escapeDigits (width code : Nat) : List Char :=
  let digits := Nat.toDigits 16 code
  List.replicate (width - digits.length) '0' ++ digits

/-- A character as it is written between the given marks. -/
def quoteChar (mark c : Char) : List Char :=
  if c = mark || c = '\\' then ['\\', c]
  else if c = '\n' then ['\\', 'n']
  else if c = '\r' then ['\\', 'r']
  else if c = '\t' then ['\\', 't']
  else if isPrintable c then [c]
  else if c.toNat < 0x100 then '\\' :: 'x' :: escapeDigits 2 c.toNat
  else if c.toNat < 0x10000 then '\\' :: 'u' :: escapeDigits 4 c.toNat
  else '\\' :: 'U' :: escapeDigits 8 c.toNat

/-- The mark that a text is quoted with. -/
def quoteMark (cs : List Char) : Char :=
  if cs.contains '\'' && !cs.contains '"' then '"' else '\''

/-- A text between quotes. -/
def quote (text : String) : String :=
  let cs := text.toList
  let mark := quoteMark cs
  String.ofList (mark :: cs.flatMap (quoteChar mark) ++ [mark])

end LittleComputer.Text
