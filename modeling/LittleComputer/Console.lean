import LittleComputer.Terminal.Basic

/-!
# Consoles

A console is the terminal of a machine together with what can reach the machine
from outside while it runs: an interrupt, and the journal in which it leaves its
notices.

An interrupt is something that happens at a certain call of the terminal – the
third poll, the first read – while the run is guarded. At a poll or a write it
only leaves a request to stop, which the machine honours between two
instructions. At a read that waits for the host no such moment would come, so
the wait is abandoned instead and no key is taken. `LittleComputer.Alarm` sets
when the interrupt happens, and `LittleComputer.Console.strike` counts down to
it.

Polls, reads and writes are the calls at which it can happen
(`LittleComputer.Call`). The fourth call that a machine makes of its terminal, to
pass on what was shown, is not one of them, and neither is a moment between two
calls. An interrupt there would do no more than one at a poll or a write does: it
would leave the request to stop, which nobody looks at before the instruction is
complete.
-/

namespace LittleComputer

/-- The calls of a terminal at which an interrupt can happen. -/
inductive Call
  | poll | read | write
  deriving DecidableEq, Repr

/-- An interrupt to come: it happens at the `countdown`-th call of the given kind
from now on, and never if `countdown` is zero. -/
structure Alarm where
  /-- The kind of call that is counted. -/
  on : Call
  /-- The number of calls up to the interrupt, itself included. -/
  countdown : Nat
  deriving DecidableEq, Repr

/-- A terminal with the interrupt to come and the journal of the machine. -/
structure Console (T : Type) where
  /-- The keyboard and the display. -/
  terminal : T
  /-- Whether the machine was asked to stop. -/
  stop : Bool := false
  /-- The interrupt to come, if there is one. -/
  alarm : Option Alarm := none
  /-- Whether interrupts are routed to the machine at present. -/
  guarded : Bool := false
  /-- The notices of the machine. -/
  journal : Journal := Journal.silent

namespace Console

variable {T : Type} [Terminal T]

/-- Whether an interrupt happens at this call, and the console as the call finds
it. An interrupt leaves a request to stop and does not happen again. -/
def strike (c : Console T) (call : Call) : Bool × Console T :=
  if !c.guarded then (false, c)
  else
    match c.alarm with
    | none => (false, c)
    | some a =>
      if a.on ≠ call then (false, c)
      else
        -- A countdown of zero has passed its call already.
        match a.countdown with
        | 0 => (false, c)
        | 1 => (true, { c with alarm := none, stop := true })
        | n + 2 => (false, { c with alarm := some { a with countdown := n + 1 } })

/-- Leave a notice. -/
def note (c : Console T) (n : Notice) : Console T := { c with journal := c.journal.record n }

/-- The console with its terminal replaced after a call that left some notices. -/
def settle (c : Console T) (terminal : T) (notices : List Notice) : Console T :=
  { c with terminal, journal := c.journal.recordAll notices }

/-- Poll for a key. -/
def poll (c : Console T) : Except Failure Bool × Console T :=
  let c := (c.strike .poll).2
  let (ready, terminal) := Terminal.poll c.terminal
  (ready, { c with terminal })

/-- Take the next key. An interrupt during a wait abandons it; during a read that
is answered at once it only leaves the request to stop. -/
def read (c : Console T) : Except Failure Byte × Console T :=
  let (struck, c) := c.strike .read
  -- What was shown is passed on before the wait, even if the wait is then abandoned.
  match struck, Terminal.waiting c.terminal with
  | true, some (terminal, notices) => (.error (.wait .cutShort), c.settle terminal notices)
  | _, _ =>
    let (result, terminal, notices) := Terminal.read c.terminal
    (result, c.settle terminal notices)

/-- Show a byte. -/
def write (c : Console T) (b : Byte) : Console T :=
  let c := (c.strike .write).2
  { c with terminal := Terminal.write c.terminal b }

/-- Pass on everything shown so far. -/
def flush (c : Console T) : Console T :=
  let (terminal, notices) := Terminal.flush c.terminal
  c.settle terminal notices

/-- Prepare the terminal for a run. -/
def enter (c : Console T) : Console T :=
  let (terminal, notices) := Terminal.enter c.terminal
  c.settle terminal notices

/-- Restore what was prepared. -/
def leave (c : Console T) : Console T :=
  let (terminal, notices) := Terminal.leave c.terminal
  c.settle terminal notices

end Console

end LittleComputer
