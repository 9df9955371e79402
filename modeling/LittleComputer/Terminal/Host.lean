import LittleComputer.Terminal.Basic
import LittleComputer.Terminal.Line

/-!
# The terminal of the host

The keyboard and the display of the host, as a program sees them: an input, which
is a stream of bytes that ends at some time or a terminal with modes of its own,
and an output that answers each write as it likes – it takes some non-empty part
of the data, or fails. `LittleComputer.Host` is that environment; how it will answer
writes is a field of it, so that statements can be made about every way in which an
output can behave.

`LittleComputer.HostTerminal` is the terminal on top of it. It holds back at most
one key, because finding out whether a key is there can require taking it; it
collects what is shown and passes it on when told to flush and before it waits
for a key; and once a write has failed it shows nothing more. If its input is closed
under it, the key held back can still be taken; after that, asking for a key fails.
-/

namespace LittleComputer

/-! ### The host -/

/-- How an output answers a write. -/
inductive WriteOutcome
  /-- It takes one byte and up to `more` further ones. -/
  | accepts (more : Nat)
  /-- It fails, for a reason in its own words. -/
  | fails (reason : String)
  deriving DecidableEq, Repr

/-- An input. -/
inductive Input
  /-- Bytes that have arrived and were not read, and whether no further one will
  arrive. -/
  | stream (unread : List Byte) (ended : Bool)
  /-- A terminal with its modes and what was typed at it. -/
  | terminal (modes : InputModes) (line : Line)
  deriving DecidableEq, Repr

namespace Input

/-- Take what can be read next: a byte, or no byte at the end of the input; nothing
if there is neither. -/
def take : Input → Option (Option Byte × Input)
  | stream (b :: rest) ended => some (some b, stream rest ended)
  | stream [] true => some (none, stream [] true)
  | stream [] false => none
  | terminal modes line => (line.take modes).map fun (b, line) => (b, terminal modes line)

/-- Further bytes arrive. -/
def feed (bytes : List Byte) : Input → Input
  | stream unread ended => stream (unread ++ bytes) ended
  | terminal modes line => terminal modes (line.feed modes bytes)

/-- No further byte will arrive. A terminal is gone with what was typed at it. -/
def finish : Input → Input
  | stream unread _ => stream unread true
  | terminal .. => stream [] true

/-- The modes, if the input is a terminal. -/
def modes? : Input → Option InputModes
  | stream .. => none
  | terminal modes _ => some modes

/-- Change the modes of a terminal. -/
def setModes (after : InputModes) : Input → Input
  | stream unread ended => stream unread ended
  | terminal before line => terminal after (line.convert before after)

/-- How many times something can be taken at most before more arrives, the end of a
stream not counted. -/
def available : Input → Nat
  | stream unread _ => unread.length
  | terminal _ line => line.size + line.waiting.length

end Input

/-- The input and the output of the host. -/
structure Host where
  /-- The input. -/
  input : Input := .stream [] false
  /-- Whether the input can be read and configured. -/
  isOpen : Bool := true
  /-- The bytes that have reached the output, the latest first. -/
  delivered : List Byte := []
  /-- How the output answers each write, in order. -/
  outcome : Nat → WriteOutcome := fun _ => .accepts 65535
  /-- The number of writes so far. -/
  writes : Nat := 0

namespace Host

/-- The bytes that have reached the output, in order. -/
def output (h : Host) : List Byte := h.delivered.reverse

/-- Further bytes arrive at the input. -/
def feed (h : Host) (bytes : List Byte) : Host := { h with input := h.input.feed bytes }

/-- No further byte will arrive at the input. -/
def finish (h : Host) : Host := { h with input := h.input.finish }

/-- From now on every write fails for the given reason. -/
def breakOutput (h : Host) (reason : String) : Host := { h with outcome := fun _ => .fails reason }

/-- The input is closed: it remains as it is, but cannot be reached any more. -/
def closeInput (h : Host) : Host := { h with isOpen := false }

/-- The modes of the input, if it is a terminal and can be configured. -/
def reachableModes (h : Host) : Option InputModes :=
  if h.isOpen then h.input.modes? else none

/-- Change the modes of the input. -/
def setModes (h : Host) (m : InputModes) : Host := { h with input := h.input.setModes m }

/-- Why the modes of the input cannot be reached. -/
def unreachableReason (h : Host) : String :=
  if h.isOpen then "(5, 'Input/output error')" else "(9, 'Bad file descriptor')"

/-- Write bytes until all are taken or a write fails; `room` more are taken by
the write in progress. The reason of a failure is returned, and the bytes not
taken by then are lost. -/
def send (h : Host) : (room : Nat) → List Byte → Host × Option String
  | _, [] => (h, none)
  | room + 1, b :: rest => send { h with delivered := b :: h.delivered } room rest
  | 0, b :: rest =>
    match h.outcome h.writes with
    | .accepts more =>
      send { h with delivered := b :: h.delivered, writes := h.writes + 1 } more rest
    | .fails reason => ({ h with writes := h.writes + 1 }, some reason)

end Host

/-! ### The terminal -/

/-- A terminal on the input and the output of the host. -/
structure HostTerminal where
  /-- The host. -/
  host : Host
  /-- A key that a poll has taken and no read has delivered. -/
  pending : Option Byte := none
  /-- Whether the end of the input was seen. -/
  ended : Bool := false
  /-- What was shown and not yet passed on, the latest byte first. -/
  buffer : List Byte := []
  /-- Whether a write has failed. -/
  broken : Bool := false
  /-- The modes to restore on leaving. -/
  saved : Option InputModes := none

namespace HostTerminal

/-- Whether a key is there. If none is held back, a byte of the input is taken;
an input that has ended is remembered, and is not asked again. -/
def poll (t : HostTerminal) : Except Failure Bool × HostTerminal :=
  if t.pending.isSome then (.ok true, t)
  else if t.ended then (.ok false, t)
  else if !t.host.isOpen then (.error (.misuse .inputClosed), t)
  else
    match t.host.input.take with
    | some (some b, input) =>
      (.ok true, { t with pending := some b, host := { t.host with input } })
    | some (none, input) => (.ok false, { t with ended := true, host := { t.host with input } })
    | none => (.ok false, t)

/-- Show a byte, unless a write has failed before. -/
def write (t : HostTerminal) (b : Byte) : HostTerminal :=
  if t.broken then t else { t with buffer := b :: t.buffer }

/-- Pass on everything shown so far. Output is best effort: a failure is noted
and the program keeps running. -/
def flush (t : HostTerminal) : HostTerminal × List Notice :=
  if t.buffer.isEmpty then (t, [])
  else
    match t.host.send 0 t.buffer.reverse with
    | (host, none) => ({ t with host, buffer := [] }, [])
    | (host, some reason) =>
      ({ t with host, buffer := [], broken := true }, [.outputFailed reason])

/-- The terminal as it waits: everything shown has been passed on. A key held
back, or the end of the input, is answered at once. -/
def waiting (t : HostTerminal) : Option (HostTerminal × List Notice) :=
  if t.pending.isSome || t.ended then none else some t.flush

/-- Take the next byte of the input. As long as none has arrived, the wait goes on. -/
def take (t : HostTerminal) : Except Failure Byte × HostTerminal :=
  if !t.host.isOpen then (.error (.misuse .inputClosed), t)
  else
    match t.host.input.take with
    | some (some b, input) => (.ok b, { t with host := { t.host with input } })
    | some (none, input) =>
      (.error (.hostIO .endOfInput), { t with ended := true, host := { t.host with input } })
    | none => (.error (.wait .goesOn), t)

/-- Take the next key: the one held back, if there is one, or else a byte of the
input. -/
def read (t : HostTerminal) : Except Failure Byte × HostTerminal × List Notice :=
  match t.pending with
  | some b => (.ok b, { t with pending := none }, [])
  | none =>
    -- Without a key held back, only the end of the input is answered at once.
    match t.waiting with
    | none => (.error (.hostIO .endOfInput), t, [])
    | some (t, notices) => (t.take.1, t.take.2, notices)

/-- Save the modes of the input and have keys delivered at once and not shown. An
input that is no terminal has no modes to change. -/
def enter (t : HostTerminal) : HostTerminal × List Notice :=
  match t.host.reachableModes with
  | none => (t, [.modesKept])
  | some m => ({ t with saved := some m, host := t.host.setModes m.raw }, [])

/-- Pass on everything shown and restore the modes that were saved. -/
def leave (t : HostTerminal) : HostTerminal × List Notice :=
  let (t, notices) := t.flush
  match t.saved with
  | none => (t, notices)
  | some m =>
    let t := { t with saved := none }
    match t.host.reachableModes with
    | some _ => ({ t with host := t.host.setModes m }, notices)
    | none => (t, notices ++ [.restoreFailed t.host.unreachableReason])

/-- Show the bytes of a text. -/
def writeText (t : HostTerminal) (text : String) : HostTerminal :=
  (bytesOfText text).foldl write t

instance : Terminal HostTerminal where
  poll := poll
  read := read
  waiting := waiting
  write := write
  flush := flush
  enter := enter
  leave := leave
  keysLeft t := t.pending.toList.length + t.host.input.available

end HostTerminal

end LittleComputer
