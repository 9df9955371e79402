import LittleComputer.Terminal.Basic

/-!
# Scripted terminals

The keys of a scripted terminal are given beforehand, and what it shows is
collected. Taking a key from an exhausted script fails.

A script has every answer at hand, so by itself no read from it ever blocks. That
`waiting` answers for it all the same stands for a script whose reads an interrupt
can cut short, as it can a read from a keyboard; a read that is cut short takes
no key. Unless an interrupt comes at a read, `waiting` makes no difference.
-/

namespace LittleComputer

/-- A terminal with prepared keys and a collected display. -/
structure ScriptedTerminal where
  /-- The keys still to come, in order. -/
  keys : List Byte
  /-- The bytes shown so far, the latest first. -/
  shown : List Byte := []

namespace ScriptedTerminal

/-- A terminal that will deliver the characters of a text. -/
def ofText (text : String) : ScriptedTerminal := { keys := bytesOfText text }

/-- Everything shown so far, in order. -/
def output (t : ScriptedTerminal) : List Byte := t.shown.reverse

/-- Whether a key is left. -/
def poll (t : ScriptedTerminal) : Except Failure Bool × ScriptedTerminal :=
  (.ok !t.keys.isEmpty, t)

/-- Take the next key of the script. -/
def read (t : ScriptedTerminal) : Except Failure Byte × ScriptedTerminal × List Notice :=
  match t.keys with
  | [] => (.error (.hostIO .inputExhausted), t, [])
  | key :: rest => (.ok key, { t with keys := rest }, [])

/-- Show a byte. -/
def write (t : ScriptedTerminal) (b : Byte) : ScriptedTerminal := { t with shown := b :: t.shown }

/-- Show the bytes of a text. -/
def writeText (t : ScriptedTerminal) (text : String) : ScriptedTerminal :=
  (bytesOfText text).foldl write t

instance : Terminal ScriptedTerminal where
  poll := poll
  read := read
  waiting t := some (t, [])
  write := write
  flush t := (t, [])
  enter t := (t, [])
  leave t := (t, [])
  keysLeft t := t.keys.length

@[simp] theorem output_write (t : ScriptedTerminal) (b : Byte) :
    (t.write b).output = t.output ++ [b] := by
  simp [write, output]

@[simp] theorem keys_write (t : ScriptedTerminal) (b : Byte) : (t.write b).keys = t.keys := rfl

/-- A key is taken exactly when one is left, and then it is the first. -/
theorem read_eq_ok_iff {t u : ScriptedTerminal} {key : Byte} {ns : List Notice} :
    t.read = (.ok key, u, ns) ↔ t.keys = key :: u.keys ∧ u.shown = t.shown ∧ ns = [] := by
  obtain ⟨keys, shown⟩ := t
  obtain ⟨keys', shown'⟩ := u
  cases keys with
  | nil => simp [read]
  | cons k rest =>
    simp only [read, Prod.mk.injEq, Except.ok.injEq, mk.injEq, List.cons.injEq]
    constructor
    · rintro ⟨rfl, ⟨rfl, rfl⟩, rfl⟩
      exact ⟨⟨rfl, rfl⟩, rfl, rfl⟩
    · rintro ⟨⟨rfl, rfl⟩, rfl, rfl⟩
      exact ⟨rfl, ⟨rfl, rfl⟩, rfl⟩

end ScriptedTerminal

end LittleComputer
