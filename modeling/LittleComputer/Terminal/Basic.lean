import LittleComputer.Journal

/-!
# Terminals

A machine talks to a keyboard and a display through very few calls: it polls for
a key, waits for one, shows a byte, and asks for what was shown to be passed on.
`LittleComputer.Terminal` is the type class of things that answer these calls.
A terminal is a value: a call returns the terminal as it is afterwards, and the
notices that the call gave rise to.

Waiting is the one call that can be cut short from outside, so a terminal says
beforehand whether a read would have to wait for the host
(`LittleComputer.Terminal.waiting`).
-/

namespace LittleComputer

/-- A terminal: the keyboard and the display of a machine. -/
class Terminal (T : Type) where
  /-- Whether a key is there. A poll never waits and never loses a key; it fails if
  the host does not let the terminal look. -/
  poll : T → Except Failure Bool × T
  /-- Take the next key, waiting for it if need be. -/
  read : T → Except Failure Byte × T × List Notice
  /-- The terminal as it is while a read waits for the host; nothing if a read
  would be answered at once. -/
  waiting : T → Option (T × List Notice)
  /-- Show a byte. -/
  write : T → Byte → T
  /-- Pass on everything shown so far. -/
  flush : T → T × List Notice
  /-- Prepare the terminal for a run. -/
  enter : T → T × List Notice
  /-- Restore what was prepared, after passing on everything shown. -/
  leave : T → T × List Notice
  /-- The number of keys that can still be taken without further input. -/
  keysLeft : T → Nat

/-- The byte of a character: its code, or a question mark if that is no byte. -/
def byteOfChar (c : Char) : Byte := if c.toNat < 256 then BitVec.ofNat 8 c.toNat else 0x3F

/-- The bytes of a text, one for each character. -/
def bytesOfText (text : String) : List Byte := text.toList.map byteOfChar

/-- The character whose code is a given byte. -/
def charOfByte (b : Byte) : Char := Char.ofNat b.toNat

/-- The text with one character for each byte. -/
def textOfBytes (bytes : List Byte) : String := String.ofList (bytes.map charOfByte)

end LittleComputer
