import LittleComputer.CommandLine.Arguments
import LittleComputer.FileSystem
import LittleComputer.Processor.Report

/-!
# The command line

The program loads the images named on its command line, runs them from the start
address, and says by its exit status how the run ended. What it reports – notices
as far as they were asked for, why an image could not be loaded, how a run ended
badly, the trace or the summary – is one text, apart from what the program on the
machine shows.

The parts are `LittleComputer.CommandLine.powerOn`,
`LittleComputer.CommandLine.loadAll`, `LittleComputer.CommandLine.runGuarded` and
`LittleComputer.CommandLine.conclude`; `LittleComputer.CommandLine.respond` puts them
together.
-/

namespace LittleComputer.CommandLine

/-! ### Exit statuses -/

/-- How the program ends. -/
inductive ExitStatus
  /-- The run ended with the halt service. -/
  | ok
  /-- An image could not be loaded. -/
  | loadError
  /-- The command line is wrong. -/
  | usage
  /-- The run ended with a fault. -/
  | illegalInstruction
  /-- The terminal failed. -/
  | hostIO
  /-- The limit on instructions was reached. -/
  | cycleLimit
  /-- The run was interrupted. -/
  | interrupted
  deriving DecidableEq, Repr

namespace ExitStatus

/-- All exit statuses. -/
def all : List ExitStatus :=
  [ok, loadError, usage, illegalInstruction, hostIO, cycleLimit, interrupted]

/-- The number of an exit status. -/
def code : ExitStatus → Nat
  | ok => 0
  | loadError => 1
  | usage => 2
  | illegalInstruction => 3
  | hostIO => 4
  | cycleLimit => 5
  | interrupted => 130

end ExitStatus

/-! ### Replies -/

/-- What comes of a command line. -/
inductive Reply (T : Type)
  /-- It was wrong. -/
  | refused (error : UsageError)
  /-- The explanation of the options was asked for. -/
  | help
  /-- It was carried out: the exit status, the report, and the processor. -/
  | finished (status : ExitStatus) (report : String) (processor : Processor T)
  /-- It made a request that is not reported but passed on. -/
  | failed (failure : Failure)
  /-- The machine is still running, or still waiting for a key. -/
  | running

/-- The line that reports a usage error. -/
def usageLine (e : UsageError) : String := "lc3: error: " ++ e.message

/-! ### The parts of a session -/

variable {T : Type} [Terminal T]

/-- The least level of the notices that are reported. -/
def threshold (verbosity : Nat) : Level :=
  match verbosity with
  | 0 => .warning
  | 1 => .info
  | _ => .debug

/-- The processor that a request asks for. -/
def powerOn (r : Request) (terminal : T) (alarm : Option Alarm) : Processor T :=
  Processor.powerOn
    { terminal, alarm, journal := { threshold := some (threshold r.verbosity) } }
    r.limit r.trace r.depth

/-- Load images in order. The first that cannot be loaded ends it. -/
def loadAll (read : FileReader) (images : List String) : Processor.Action T Unit :=
  images.forM fun path => do
    let _ ← Processor.onMachine (Machine.loadFile read path)

/-- Load images in order where files are opened one by one, which may do something
besides. It is what `LittleComputer.CommandLine.loadAll` does, and a file is opened when
its turn comes and not before. -/
def loadEach {M : Type → Type} [Monad M] (openFile : String → M (Except Failure (List Byte))) :
    List String → Processor T → M (Except Failure Unit × Processor T)
  | [], p => return (.ok (), p)
  | path :: rest, p => do
    let content ← openFile path
    match (Processor.onMachine (Machine.loadFile (fun _ => content) path)).run p with
    | (.error f, p) => return (.error f, p)
    | (.ok _, p) => loadEach openFile rest p

/-- Run with the terminal prepared, and restore it however the run ends. -/
def runGuarded (allowance : Nat) : Processor.Action T (Option (List TraceEntry)) :=
  ExceptT.mk fun p =>
    let (result, p) := (Processor.guardedRun allowance).run (p.onConsole Console.enter)
    (result, p.onConsole Console.leave)

/-- The exit status and the message that a failure of a run leads to, if it is
one of those that a run can end with. -/
def explain : Failure → Option (ExitStatus × String)
  | f@(.illegalInstruction ..) => some (.illegalInstruction, "\nlc3: " ++ f.message ++ "\n")
  | .interrupted _ | .wait .cutShort => some (.interrupted, "\n")
  | f@(.hostIO _) => some (.hostIO, "\nlc3: terminal error: " ++ f.message ++ "\n")
  | f@(.cycleLimit _) => some (.cycleLimit, "\nlc3: " ++ f.message ++ "\n")
  | _ => none

/-- The notices of a processor as text. -/
def noticeText (p : Processor T) : String :=
  Processor.textOfLines (p.machine.console.journal.entries.map Notice.line)

/-- The trace or the summary, whichever was asked for; the trace contains the
summary. -/
def closingText (r : Request) (p : Processor T) : String :=
  if r.trace then p.traceText else if r.summary then p.summaryText else ""

/-- What comes of a run that ended in none of the ways that are reported. One that was left
while it goes on waiting for a key is still running. -/
def unexplained : Failure → Reply T
  | .wait .goesOn => .running
  | f => .failed f

theorem unexplained_cases (f : Failure) :
    (∀ T : Type, (unexplained f : Reply T) = .running) ∨
      ∀ T : Type, (unexplained f : Reply T) = .failed f := by
  by_cases hwait : f = .wait .goesOn
  · exact Or.inl fun T => by rw [hwait, unexplained]
  · exact Or.inr fun T => by rw [unexplained]; exact hwait

/-- What is reported after a run. -/
def conclude (r : Request) (result : Except Failure Unit) (p : Processor T) : Reply T :=
  match result with
  | .ok () => .finished .ok (noticeText p ++ closingText r p) p
  | .error f =>
    match explain f with
    | some (status, message) => .finished status (noticeText p ++ message ++ closingText r p) p
    | none => unexplained f

/-- What is reported if an image cannot be loaded. -/
def loadFailure (f : Failure) (p : Processor T) : Reply T :=
  match f with
  | .imageLoad path reason =>
    .finished .loadError
      (noticeText p ++ "failed to load image: " ++ path ++ " (" ++ reason ++ ")\n") p
  | _ => .failed f

/-- Carry out a request. -/
def carryOut (r : Request) (read : FileReader) (terminal : T) (alarm : Option Alarm)
    (allowance : Nat) : Reply T :=
  match (loadAll read r.images).run (powerOn r terminal alarm) with
  | (.error f, p) => loadFailure f p
  | (.ok (), p) =>
    match (runGuarded allowance).run p with
    | (.ok none, _) => .running
    | (.ok (some _), p) => conclude r (.ok ()) p
    | (.error f, p) => conclude r (.error f) p

/-- Carry out a command line. -/
def respond (arguments : List String) (read : FileReader) (terminal : T)
    (alarm : Option Alarm) (allowance : Nat) : Reply T :=
  match request arguments with
  | .error .help => .help
  | .error (.usage e) => .refused e
  | .error (.misuse m) => .failed (.misuse m)
  | .ok r => carryOut r read terminal alarm allowance

end LittleComputer.CommandLine
