import LittleComputer.CommandLine.Basic
import LittleComputer.Terminal.Host

/-!
# The program

The command line on the host: image files are read from disk one after the other; if all
images were loaded, standard input is read to its end for keys, and what the program on the
machine shows goes to standard output as the run proceeds. The report goes to standard
error when the run has ended. All decisions are made by `LittleComputer.CommandLine`.
-/

namespace LittleComputer.Program

/-- How many instructions are carried out between two looks at the output. -/
def slice : Nat := 4096

/-- The bytes of an array. -/
def bytesOfArray (bytes : ByteArray) : List Byte := bytes.toList.map UInt8.toBitVec

/-- An array of bytes. -/
def arrayOfBytes (bytes : List Byte) : ByteArray := ⟨(bytes.map UInt8.ofBitVec).toArray⟩

/-- Why the file of an image could not be read. -/
def refusal : IO.Error → HostRefusal
  | .noFileOrDirectory .. => ⟨some ReadError.notFound.message, ""⟩
  | .inappropriateType _ 21 _ => ⟨some ReadError.isDirectory.message, ""⟩
  | .inappropriateType .. => ⟨some ReadError.notDirectory.message, ""⟩
  | .invalidArgument _ _ "name too long" => ⟨some ReadError.nameTooLong.message, ""⟩
  | e => ⟨none, toString e⟩

/-- Read the file of an image. The empty path names the working directory. -/
def readFile (path : String) : IO (Except Failure (List Byte)) := do
  let content ← (IO.FS.readBinFile (if path.isEmpty then "." else path)).toBaseIO
  return HostFiles.read (fun _ => (content.map bytesOfArray).mapError refusal) path

/-- Read standard input to its end. -/
partial def readKeys (input : IO.FS.Stream) (before : ByteArray) : IO ByteArray := do
  let more ← input.read 65536
  if more.isEmpty then return before else readKeys input (before ++ more)

/-- Write what has reached the output of the host since the last time. -/
def passOn (output : IO.FS.Stream) (p : Processor HostTerminal) : IO (Processor HostTerminal) := do
  let host := p.machine.console.terminal.host
  if host.delivered.isEmpty then return p
  output.write (arrayOfBytes host.output)
  output.flush
  return p.onConsole fun c =>
    { c with terminal := { c.terminal with host := { host with delivered := [] } } }

/-- Run until the machine has halted or failed. -/
partial def runOn (output : IO.FS.Stream) (p : Processor HostTerminal) :
    IO (Except Failure Unit × Processor HostTerminal) := do
  let (result, p) := (Processor.guardedRun slice).run p
  let p ← passOn output p
  match result with
  | .ok none => runOn output p
  | .ok (some _) => return (.ok (), p)
  | .error f => return (.error f, p)

/-- Carry out a request: the exit status, and the report on standard error. -/
def carryOutOnHost (r : CommandLine.Request) : IO UInt32 := do
  let report ← IO.getStderr
  let output ← IO.getStdout
  let start := CommandLine.powerOn r ({ host := {} } : HostTerminal) none
  let reply ← match ← CommandLine.loadEach readFile r.images start with
    | (.error f, p) => pure (CommandLine.loadFailure f p)
    | (.ok (), p) => do
      let keys ← readKeys (← IO.getStdin) ByteArray.empty
      let input : Input := .stream (bytesOfArray keys) true
      let p := p.onConsole fun c => { c with terminal := { host := { input } } }
      let (result, p) ← runOn output (p.onConsole Console.enter)
      let p ← passOn output (p.onConsole Console.leave)
      pure (CommandLine.conclude r result p)
  match reply with
  | .finished status text _ =>
    report.putStr text
    return status.code.toUInt32
  | .failed f => throw (IO.userError f.message)
  | _ => return 0

/-- Carry out a command line: the exit status. -/
def run (arguments : List String) : IO UInt32 := do
  match CommandLine.request arguments with
  | .error .help =>
    (← IO.getStdout).putStr CommandLine.helpText
    return 0
  | .error (.usage e) =>
    (← IO.getStderr).putStr (CommandLine.usageLine e ++ "\n")
    return CommandLine.ExitStatus.usage.code.toUInt32
  | .error (.misuse m) => throw (IO.userError m.message)
  | .ok r => carryOutOnHost r

end LittleComputer.Program

/-- The program. -/
def main (arguments : List String) : IO UInt32 := LittleComputer.Program.run arguments
