import LittleComputer.FileSystem
import LittleComputer.Processor.Report
import LittleComputer.Terminal.Scripted
import LittleComputer.Text.Decimal

/-!
# The gallery

Programs run for show: images given by name, or one of three built-in examples,
with the keys typed beforehand and a limit on instructions, so every showing ends.
The result is a page of four texts – what the program displayed, a summary, the
final registers, and the trace of the last instructions.

In the keys, a backslash followed by the letter `n` stands for the return key.
-/

namespace LittleComputer

open Text

namespace Gallery

/-! ### The examples -/

/-- An example: its name and the words of its image, the origin first. -/
structure Example where
  /-- The name. -/
  name : String
  /-- The program. -/
  image : Image

/-- Print a greeting: load the address of the text behind the program, show it,
halt. -/
def helloWorld : Example where
  name := "Hello World"
  image :=
    { origin := 0x3000
      words := [0xE002, 0xF022, 0xF025] ++ (bytesOfText "Hello, World!\n").map wordOfByte ++ [0] }

/-- Read a key with a prompt, show it once more, halt. -/
def echoKey : Example where
  name := "Echo Key"
  image := { origin := 0x3000, words := [0xF023, 0xF021, 0xF025] }

/-- Show the digits from nine to zero and halt. -/
def countDown : Example where
  name := "Count Down"
  image :=
    { origin := 0x3000
      words := [0x5260, 0x1269, 0x2005, 0x1001, 0xF021, 0x127F, 0x07FB, 0xF025, 0x0030] }

/-- All examples. -/
def examples : List Example := [helloWorld, echoKey, countDown]

/-- The example with a given name. -/
def example? (name : String) : Option Example := examples.find? fun e => e.name = name

/-! ### Limits -/

/-- A limit on instructions, as it was entered. -/
inductive Limit
  /-- An integer. -/
  | whole (n : Int)
  /-- `mantissa * 10 ^ exponent`, written with a decimal point or an exponent. -/
  | decimal (mantissa exponent : Int)
  /-- An infinite number. -/
  | infinite
  /-- Something that has no value. -/
  | indeterminate
  deriving DecidableEq, Repr

/-- The limit as an integer: the whole part of the number it was rounded to. -/
def Limit.toInt : Limit → Except Misuse Int
  | whole n => .ok n
  | decimal mantissa exponent =>
    match Binary.ofDecimal? mantissa.natAbs exponent with
    | some b => .ok (mantissa.sign * b.wholePart)
    | none => .error .infinite
  | infinite => .error .infinite
  | indeterminate => .error .indeterminate

/-! ### Showing a program -/

/-- What is shown. -/
inductive Exhibit
  /-- Images read from files, in order. -/
  | files (paths : List String)
  /-- An example, by name; there may be none of that name. -/
  | named (name : Option String)

/-- The exhibit that was chosen: the files if there are any, else the example. -/
def choose (files : List String) (name : Option String) : Exhibit :=
  if files.isEmpty then .named name else .files files

/-- A page of four texts. -/
structure Page where
  /-- What the program displayed. -/
  output : String := ""
  /-- The summary, or why there is nothing to show. -/
  summary : String := ""
  /-- The final registers. -/
  registers : String := ""
  /-- The trace. -/
  trace : String := ""
  deriving DecidableEq, Repr

/-- The page that says only why there is nothing to show. -/
def errorPage (reason : String) : Page := { summary := "Error: " ++ reason }

/-- Keys as they were typed: a backslash and an `n` are one return key. -/
def typed : List Char → List Char
  | '\\' :: 'n' :: rest => '\n' :: typed rest
  | c :: rest => c :: typed rest
  | [] => []

/-- How many entries of the trace are shown. -/
def depth : Nat := 200

/-- The processor that runs an exhibit. -/
def powerOn (keyboard : String) (limit : Int) : Processor ScriptedTerminal :=
  Processor.powerOn
    { terminal := ScriptedTerminal.ofText (String.ofList (typed keyboard.toList)) }
    (some limit) true depth

/-- Load an exhibit. The answer is whether there is one. -/
def load (read : FileReader) : Exhibit → Processor.Action ScriptedTerminal Bool
  | .files paths => do
    paths.forM fun path => do
      let _ ← Processor.onMachine (Machine.loadFile read path)
    return true
  | .named name => do
    match name.bind example? with
    | some e =>
      let _ ← Processor.onMachine (Machine.loadImage e.name e.image.toBytes)
      return true
    | none => return false

/-! ### The page -/

/-- Lines with line ends between them. -/
def joinLines (lines : List String) : String := "\n".intercalate lines

/-- The summary of a run that ended with the given failure, if any. -/
def summaryPart (s : Summary) (failure : Option Failure) : String :=
  joinLines (["EXECUTION SUMMARY", rule '=' 40,
    "Cycles: " ++ toString s.cycles,
    "Halted: " ++ (if s.halted then "Yes" else "No"),
    "PC:     0x" ++ hexWord s.registers.pc] ++
    match failure with
    | none => []
    | some f => if f.message.isEmpty then [] else ["\nRuntime: " ++ f.message])

/-- The final registers and flags. -/
def registersPart (regs : Registers) : String :=
  let register := fun (r : String × Word) =>
    "  " ++ alignRight 4 r.1 ++ ": 0x" ++ hexWord r.2 ++ " " ++ decimal 6 r.2.toNat ++
      (if r.2 = 0 then "" else " *")
  let flag := fun (f : String × Bool) => "  " ++ f.1 ++ ": " ++ truth f.2
  joinLines (["FINAL REGISTERS", rule '=' 30] ++ regs.dump.map register ++
    ["", "FLAGS", rule '-' 30] ++ regs.flags.map flag)

/-- The lines that show an entry of the trace. -/
def entryLines (e : TraceEntry) : List String :=
  let c := e.cycle
  ("[" ++ decimal 6 c.number ++ "] 0x" ++ hexWord c.address ++ ": " ++ hexWord c.instruction ++
    " " ++ alignLeft 5 (Opcode.ofWord c.instruction).name ++ " " ++ c.decoded.operation.key ++
    " " ++ c.decoded.operandText) ::
  match c.defect? with
  | none => []
  | some d => ["         ERROR: " ++ d.message]

/-- The trace. -/
def tracePart (entries : List TraceEntry) : String :=
  joinLines (["EXECUTION TRACE (last " ++ toString entries.length ++ " instructions)",
    rule '=' 60] ++ entries.flatMap entryLines)

/-- The page of a processor whose run ended with the given failure, if any. -/
def page (p : Processor ScriptedTerminal) (failure : Option Failure) : Page where
  output := textOfBytes p.machine.console.terminal.output
  summary := summaryPart p.summary failure
  registers := registersPart p.machine.registers
  trace := tracePart p.trace.toList

/-- Run an exhibit with a limit that is an integer. A failure of the machine or its
surroundings is part of the page; any other is passed on. Nothing is answered if the
machine is still running when the allowance of instructions is used up. -/
def exhibitWithin (read : FileReader) (shown : Exhibit) (keyboard : String) (limit : Int)
    (allowance : Nat) : Except Failure (Option Page) :=
  match (load read shown).run (powerOn keyboard limit) with
  | (.error f, _) => if f.IsReportable then .ok (some (errorPage f.message)) else .error f
  | (.ok false, _) => .ok (some (errorPage "No image provided"))
  | (.ok true, p) =>
    match (Processor.run allowance).run p with
    | (.ok none, _) => .ok none
    | (.ok (some _), p) => .ok (some (page p none))
    | (.error f, p) => if f.IsReportable then .ok (some (page p (some f))) else .error f

/-- Run an exhibit. -/
def exhibit (read : FileReader) (shown : Exhibit) (keyboard : String) (limit : Limit)
    (allowance : Nat) : Except Failure (Option Page) := do
  let limit ← limit.toInt.mapError .misuse
  exhibitWithin read shown keyboard limit allowance

end Gallery

end LittleComputer
