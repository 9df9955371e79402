import LittleComputer.Word

/-!
# Typed lines

What is typed at a terminal reaches a program by way of the terminal's own line
editing, and how much of it depends on the modes of the terminal. In canonical
mode nothing can be read before its line is complete; until then some keys take
back what was typed before them, one makes its successor an ordinary key, and one
marks the end of the input. In any other mode every byte can be read as soon as it
is typed. In both a return key counts as a line end, some keys throw away
everything that was not read yet, and some only hold up the display.

`LittleComputer.InputModes.stroke` says what a byte does in given modes, and
`LittleComputer.Line.type` carries it out. A zero byte with which a line is complete
is the mark of the end of the input; `LittleComputer.Line.take` answers it with no
byte. `LittleComputer.Line.convert` is what a change of the mode does to bytes typed
before it.

There is room for `LittleComputer.Line.capacity` bytes, the last of them for the end
of a line only. When the room is used up, further bytes wait to be typed until
something was read – unless all of it is one line that is being typed, which could
then never be completed: of such a line everything is typed, and the bytes beyond the
room are lost (`LittleComputer.Line.accept`).
-/

namespace LittleComputer

/-! ### Modes -/

/-- The modes of an input that is a terminal. -/
structure InputModes where
  /-- Input is delivered line by line. -/
  canonical : Bool
  /-- Keys are shown as they are typed. -/
  echo : Bool
  /-- Some keys send signals. -/
  signals : Bool
  /-- A return key counts as a line end. -/
  mapsReturn : Bool := true
  /-- Two keys hold up the display and let it go on. -/
  flowControl : Bool := true
  /-- In canonical mode some more keys edit the line. -/
  extended : Bool := true
  /-- All other modes, as one number. None of them changes what can be read. -/
  others : Nat := 0
  deriving DecidableEq, Repr

/-- The modes in which keys are delivered at once and not shown. -/
def InputModes.raw (m : InputModes) : InputModes := { m with canonical := false, echo := false }

/-! ### Keys -/

/-- What a typed byte does. -/
inductive Stroke
  /-- It can be read as any byte can. -/
  | plain (b : Byte)
  /-- It completes the line, with the given byte at its end. -/
  | completes (b : Byte)
  /-- It takes back the byte before it. -/
  | erases
  /-- It takes back the word before it. -/
  | erasesWord
  /-- It takes back the line so far. -/
  | erasesLine
  /-- It makes the byte after it a plain one. -/
  | quotes
  /-- It throws away everything that was not read. -/
  | discards
  /-- It does nothing to the input. -/
  | nothing
  deriving DecidableEq, Repr

/-- The byte at the end of a line. -/
def lineEnd : Byte := 0x0A

/-- The byte that stands for the end of the input. -/
def endMark : Byte := 0x00

/-- What a byte does in given modes. -/
def InputModes.stroke (m : InputModes) (b : Byte) : Stroke :=
  if m.flowControl && (b = 0x11 || b = 0x13) then .nothing
  -- The keys that interrupt, quit and suspend. There is no one to signal to here.
  else if m.signals && (b = 0x03 || b = 0x1C || b = 0x1A) then .discards
  else
    let b := if m.mapsReturn && b = 0x0D then lineEnd else b
    if !m.canonical then .plain b
    else if b = lineEnd then .completes b
    else if b = 0x04 then .completes endMark
    else if b = 0x7F then .erases
    else if b = 0x15 then .erasesLine
    else if m.extended && b = 0x17 then .erasesWord
    else if m.extended && b = 0x16 then .quotes
    -- The key that shows the line once more.
    else if m.extended && m.echo && b = 0x12 then .nothing
    else .plain b

/-- Whether a byte is part of a word: a letter, a digit or a low line, in an
alphabet of 256 characters. -/
def isWordByte (b : Byte) : Bool :=
  let n := b.toNat
  (0x30 ≤ n && n ≤ 0x39) || (0x41 ≤ n && n ≤ 0x5A) || (0x61 ≤ n && n ≤ 0x7A) || n = 0x5F ||
    (0xC0 ≤ n && n ≠ 0xD7 && n ≠ 0xF7)

/-! ### Lines -/

/-- A byte that can be read, and whether a line is complete with it. -/
structure Typed where
  /-- The byte. -/
  byte : Byte
  /-- Whether it is the last of its line. -/
  isLast : Bool := false
  deriving DecidableEq, Repr

/-- Whether a typed byte is the mark of the end of the input. -/
def Typed.isEndMark (t : Typed) : Bool := t.isLast && t.byte = endMark

/-- What was typed and not read yet. -/
structure Line where
  /-- What can be read, in order. -/
  ready : List Typed := []
  /-- The line that is being typed, the latest byte first. -/
  draft : List Byte := []
  /-- Whether the next byte is a plain one whatever it is. -/
  quoting : Bool := false
  /-- The bytes that wait for room, in order. -/
  waiting : List Byte := []
  deriving DecidableEq, Repr

namespace Line

/-- How many bytes there is room for. -/
def capacity : Nat := 4096

/-- How much of the room is used. -/
def size (l : Line) : Nat := l.ready.length + l.draft.length

/-- Put a byte behind what was typed so far. -/
def put (m : InputModes) (l : Line) (b : Byte) : Line :=
  if m.canonical then { l with draft := b :: l.draft }
  else { l with ready := l.ready ++ [{ byte := b }] }

/-- Make the line that is being typed readable, with a byte at its end. -/
def complete (l : Line) (b : Byte) : Line :=
  { l with
    ready := l.ready ++ l.draft.reverse.map ({ byte := · }) ++ [{ byte := b, isLast := true }]
    draft := [] }

/-- Type a byte. -/
def type (m : InputModes) (l : Line) (b : Byte) : Line :=
  if l.quoting then { l with quoting := false }.put m b
  else
    match m.stroke b with
    | .plain b => l.put m b
    | .completes b => l.complete b
    | .erases => { l with draft := l.draft.tail }
    | .erasesWord =>
      -- What separates words goes with the word before it.
      { l with draft := (l.draft.dropWhile fun b => !isWordByte b).dropWhile isWordByte }
    | .erasesLine => { l with draft := [] }
    | .quotes => { l with quoting := true }
    | .discards => { l with ready := [], draft := [] }
    | .nothing => l

/-- Type a byte if there is room for it. A line that is being typed and has all the
room gives up what is more than it may have. -/
def accept (m : InputModes) (l : Line) (b : Byte) : Option Line :=
  if l.size + 1 < capacity then some (l.type m b)
  else if m.canonical && l.ready.isEmpty then
    let l := l.type m b
    if l.ready.isEmpty then some { l with draft := l.draft.drop (l.size + 1 - capacity) }
    else some l
  else none

/-- Type bytes as long as there is room; the others wait. -/
def absorb (m : InputModes) (l : Line) : List Byte → Line
  | [] => { l with waiting := [] }
  | b :: rest =>
    match l.accept m b with
    | some l => absorb m l rest
    | none => { l with waiting := b :: rest }

/-- Type bytes, after those that wait. -/
def feed (m : InputModes) (l : Line) (bytes : List Byte) : Line := l.absorb m (l.waiting ++ bytes)

/-- Take what can be read next: a byte, or no byte at the mark of the end of the
input; nothing if there is neither. In canonical mode a mark is passed over together
with the byte before it, unless a line ended there: behind a part of a line it only
makes that part readable. -/
def takeReady (m : InputModes) (l : Line) : Option (Option Byte × Line) :=
  match l.ready with
  | [] => none
  | t :: rest =>
    if m.canonical then
      if t.isEndMark then some (none, { l with ready := rest })
      else if t.isLast then some (some t.byte, { l with ready := rest })
      else
        match rest with
        | next :: others =>
          some (some t.byte, { l with ready := if next.isEndMark then others else rest })
        | [] => some (some t.byte, { l with ready := [] })
    else some (some t.byte, { l with ready := rest })

/-- Take what can be read next, and type what then has room. -/
def take (m : InputModes) (l : Line) : Option (Option Byte × Line) :=
  (l.takeReady m).map fun (b, l) => (b, l.feed m [])

/-- Mark the last of some bytes as the last of a line. -/
def closeLast : List Typed → List Typed
  | [] => []
  | [t] => [{ t with isLast := true }]
  | t :: rest => t :: closeLast rest

/-- What was typed, in order, as bytes that can be read at once. -/
def released (l : Line) : List Typed :=
  l.ready.map (fun t => { byte := t.byte }) ++ l.draft.reverse.map ({ byte := · })

/-- What was typed, after a change of the modes. Out of canonical mode everything
can be read at once; into canonical mode everything that can be read is one
complete line. -/
def convert (before after : InputModes) (l : Line) : Line :=
  if before.canonical = after.canonical then l
  else
    { ready := if after.canonical then closeLast l.released else l.released
      waiting := l.waiting }

end Line

end LittleComputer
