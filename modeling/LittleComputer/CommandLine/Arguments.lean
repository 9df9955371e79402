import LittleComputer.Processor.History
import LittleComputer.Text.Integer
import LittleComputer.Text.Quoted

/-!
# Command-line arguments

A command line names program images and sets options. Options may stand before or
after the images, but the images stand together: once an option has followed them,
further ones are not recognised. A long option may be shortened to any beginning
that fits only one; its value follows it, or stands after an equals sign in the
same argument. Options of one letter may be written together behind one dash, and
an equals sign behind the first of them is passed over. Two dashes alone end the
options. An argument that looks like a negative number, or that contains a blank,
is not an option.

Reading goes in three passes. `LittleComputer.CommandLine.tokens` decides of every
argument what it is; `LittleComputer.CommandLine.consume` then takes the tokens
one by one; `LittleComputer.CommandLine.Draft.request` looks at the numbers that
are left in the end. So an option that fits several is reported before anything
else, all other complaints come in the order of the arguments, and a number that
is replaced by a later one need not be positive.
-/

namespace LittleComputer.CommandLine

open Text

/-! ### Options -/

/-- The options. -/
inductive Switch
  | help | maxCycles | trace | traceDepth | summary | verbose
  deriving DecidableEq, Repr

/-- The spellings of the options, in the order in which they are tried. -/
def spellings : List (String × Switch) :=
  [("-h", .help), ("--help", .help), ("--max-cycles", .maxCycles), ("--trace", .trace),
    ("-t", .trace), ("--trace-depth", .traceDepth), ("--summary", .summary), ("-s", .summary),
    ("--verbose", .verbose), ("-v", .verbose)]

/-- The option with a given spelling. -/
def switch? (spelling : String) : Option Switch := spellings.lookup spelling

/-- The name of an option in messages: its spellings, separated by strokes. -/
def Switch.title (s : Switch) : String :=
  "/".intercalate ((spellings.filter fun entry => entry.2 = s).map Prod.fst)

/-- Whether an option has a value. No option of one letter has. -/
def Switch.takesValue : Switch → Bool
  | .maxCycles | .traceDepth => true
  | _ => false

/-! ### What can be wrong with a command line -/

/-- The explanation of the command line. -/
def helpText : String :=
  "usage: lc3 [options] image-file [image-file ...]\n\n" ++
  "Load program images, in order, and run them.\n\n" ++
  "  -h, --help             show this explanation\n" ++
  "  --max-cycles COUNT     stop after this many instructions\n" ++
  "  -t, --trace            print the last instructions after the run\n" ++
  "  --trace-depth COUNT    how many of them to keep\n" ++
  "  -s, --summary          print the final registers after the run\n" ++
  "  -v, --verbose          report more; twice reports every instruction\n"

/-- What is wrong with a command line. -/
inductive UsageError
  /-- No image was named. -/
  | imagesRequired
  /-- Some arguments are neither options nor images. -/
  | unrecognized (arguments : List String)
  /-- A shortened option fits several. -/
  | ambiguous (argument : String) (fits : List String)
  /-- An option stands without its value. -/
  | missingValue (option : Switch)
  /-- The value of an option is no integer. -/
  | invalidInteger (option : Switch) (text : String)
  /-- An option that has no value was given one. -/
  | needlessValue (option : Switch) (text : String)
  /-- The limit on instructions is not positive. -/
  | limitNotPositive
  /-- The number of trace entries is not positive. -/
  | depthNotPositive
  deriving DecidableEq, Repr

/-- The wording of a usage error. -/
def UsageError.message : UsageError → String
  | imagesRequired => "the following arguments are required: image-file"
  | unrecognized arguments => "unrecognized arguments: " ++ " ".intercalate arguments
  | ambiguous argument fits =>
    "ambiguous option: " ++ argument ++ " could match " ++ ", ".intercalate fits
  | missingValue option => "argument " ++ option.title ++ ": expected one argument"
  | invalidInteger option text =>
    "argument " ++ option.title ++ ": invalid int value: " ++ quote text
  | needlessValue option text =>
    "argument " ++ option.title ++ ": ignored explicit argument " ++ quote text
  | limitNotPositive => "--max-cycles must be positive"
  | depthNotPositive => "--trace-depth must be positive"

/-! ### Tokens -/

/-- What stands in the same argument as an option. -/
inductive Inline
  /-- A value after a long option and an equals sign. -/
  | value (text : String)
  /-- Further letters behind a one-letter option, an equals sign in front of them
  left out. -/
  | letters (letters : List Char)
  deriving DecidableEq, Repr

/-- An argument, as far as it can be understood alone. -/
inductive Token
  /-- The name of an image, or the value of the option before it. -/
  | plain (text : String)
  /-- Two dashes alone. -/
  | mark
  /-- An option. -/
  | option (option : Switch) (inside : Option Inline)
  /-- Something that looks like an option and is none. -/
  | unknown (text : String)
  deriving DecidableEq, Repr

/-- What stands behind an equals sign after a spelling of an option. -/
def Inline.assigned (spelling text : String) : Inline :=
  if spelling.startsWith "--" then .value text else .letters text.toList

/-- The part of a text before its first equals sign and the part after it. -/
def splitAssignment (text : String) : Option (String × String) :=
  let (before, after) := text.toList.span (· ≠ '=')
  match after with
  | [] => none
  | _ :: value => some (String.ofList before, String.ofList value)

/-- Whether a text looks like a negative number: a dash, then digits, among which
may be a point that has digits behind it. A line end may follow. -/
def isNegativeNumber (text : String) : Bool :=
  let isDigit := fun c => (digitValue? c).isSome
  match text.toList with
  | '-' :: rest =>
    let body := if rest.getLast? = some '\n' then rest.dropLast else rest
    match body.span isDigit with
    | (whole, []) => !whole.isEmpty
    | (_, '.' :: places) => !places.isEmpty && places.all isDigit
    | _ => false
  | _ => false

/-- The options that a text may mean, each with its spelling. A text with two
dashes is the beginning of a spelling, up to an equals sign; one with a single
dash is a one-letter option with further letters attached. -/
def candidates (text : String) : List (String × Switch × Option Inline) :=
  match text.toList with
  | '-' :: '-' :: _ =>
    let (start, value) :=
      match splitAssignment text with
      | some (start, value) => (start, some (Inline.value value))
      | none => (text, none)
    (spellings.filter fun entry => start.toList.isPrefixOf entry.1.toList).map
      fun (spelling, s) => (spelling, s, value)
  | '-' :: letter :: letters =>
    (spellings.filter fun entry => entry.1.toList = ['-', letter]).map
      fun (spelling, s) => (spelling, s, some (Inline.letters letters))
  | _ => []

/-- What an argument before two dashes alone is. -/
def classify (text : String) : Except UsageError Token :=
  if !text.startsWith "-" then .ok (.plain text)
  else
    match switch? text with
    | some s => .ok (.option s none)
    | none =>
      if text = "-" then .ok (.plain text)
      else
        match (splitAssignment text).bind fun (start, value) =>
            (switch? start).map fun s => (s, Inline.assigned start value) with
        | some (s, inside) => .ok (.option s (some inside))
        | none =>
          match candidates text with
          | [(_, s, inside)] => .ok (.option s inside)
          | [] =>
            if isNegativeNumber text || text.toList.contains ' ' then .ok (.plain text)
            else .ok (.unknown text)
          | several => .error (.ambiguous text (several.map Prod.fst))

/-- What the arguments are, each by itself. -/
def tokens : List String → Except UsageError (List Token)
  | [] => .ok []
  | "--" :: rest => .ok (.mark :: rest.map .plain)
  | text :: rest => do
    let token ← classify text
    return token :: (← tokens rest)

/-! ### Requests -/

/-- What a command line asks for, apart from its numbers. -/
structure Choices where
  /-- The images to load, in order. -/
  images : List String := []
  /-- Whether the trace is to be printed. -/
  trace : Bool := false
  /-- Whether the summary is to be printed. -/
  summary : Bool := false
  /-- How often more notices were asked for. -/
  verbosity : Nat := 0
  deriving DecidableEq, Repr

/-- The number given as the value of an option. -/
inductive Count
  /-- A number. -/
  | number (n : Int)
  /-- None: two dashes alone stand in its place, and they are dropped here as they
  are elsewhere. -/
  | dropped
  deriving DecidableEq, Repr

/-- What a command line asks for, its numbers as they were given. -/
structure Draft extends Choices where
  /-- How many instructions may be carried out, if there is a limit. -/
  limit : Option Count := none
  /-- How many entries of the trace to keep. -/
  depth : Count := .number 1000
  deriving DecidableEq, Repr

/-- What a command line asks for. -/
structure Request extends Choices where
  /-- How many instructions may be carried out, if there is a limit. -/
  limit : Option Int := none
  /-- How many entries of the trace to keep. -/
  depth : Nat := 1000
  deriving DecidableEq, Repr

/-- Why a command line is not carried out. -/
inductive Refusal
  /-- The explanation of the options was asked for instead. -/
  | help
  /-- The command line is wrong. -/
  | usage (error : UsageError)
  /-- One of its numbers cannot be worked with. -/
  | misuse (misuse : Misuse)
  deriving DecidableEq, Repr

/-- How far the images have been read. -/
inductive ImagesRead
  /-- None was met yet. -/
  | before
  /-- The last token was one of them, or the two dashes among them. -/
  | among
  /-- An option has followed them. -/
  | after
  deriving DecidableEq, Repr

/-- The state of reading a command line. -/
structure Progress where
  /-- What was asked for so far. -/
  draft : Draft := {}
  /-- How far the images have been read. -/
  position : ImagesRead := .before
  /-- The arguments that were not recognised, the latest first. -/
  extras : List String := []

namespace Progress

/-- Take an image, or something in the place of one. -/
def plain (p : Progress) (text : String) : Progress :=
  match p.position with
  | .after => { p with extras := text :: p.extras }
  | _ =>
    { p with
      draft := { p.draft with images := p.draft.images ++ [text] }
      position := .among }

/-- Take two dashes alone. They are dropped among the images. -/
def mark (p : Progress) : Progress :=
  match p.position with
  | .after => { p with extras := "--" :: p.extras }
  | _ => p

/-- Leave the images behind, if any were met. -/
def close (p : Progress) : Progress :=
  match p.position with
  | .among => { p with position := .after }
  | _ => p

/-- Set aside an argument that was not recognised. -/
def setAside (p : Progress) (text : String) : Progress := { p with extras := text :: p.extras }

end Progress

/-- The number that a text gives as the value of an option. -/
def count (option : Switch) (text : String) : Except Refusal Count :=
  if text = "--" then .ok .dropped
  else
    match integer? text with
    | some n => .ok (.number n)
    | none => .error (.usage (.invalidInteger option text))

/-- Set an option that has a value. -/
def setValue (option : Switch) (text : String) (p : Progress) : Except Refusal Progress := do
  let n ← count option text
  match option with
  | .maxCycles => return { p with draft := { p.draft with limit := some n } }
  | .traceDepth => return { p with draft := { p.draft with depth := n } }
  | _ => return p

/-- Set an option that has no value. -/
def setSwitch (option : Switch) (p : Progress) : Except Refusal Progress :=
  match option with
  | .help => .error .help
  | .trace => .ok { p with draft := { p.draft with trace := true } }
  | .summary => .ok { p with draft := { p.draft with summary := true } }
  | .verbose => .ok { p with draft := { p.draft with verbosity := p.draft.verbosity + 1 } }
  | .maxCycles | .traceDepth => .ok p

/-- The options written behind one dash: `option`, then one for each further
letter. From a letter that is no option on, the rest would have to be a value of
the option before it, and no option of one letter has one. -/
def expand (option : Switch) : List Char → Except UsageError (List Switch)
  | [] => .ok [option]
  | letter :: rest =>
    match switch? (String.ofList ['-', letter]) with
    | some next => return option :: (← expand next rest)
    | none => .error (.needlessValue option (String.ofList (letter :: rest)))

/-- Set the options of one argument. Options behind one dash are set only when all
of them are known. -/
def setInline (option : Switch) (inside : Inline) (p : Progress) : Except Refusal Progress :=
  match inside with
  | .value text =>
    if option.takesValue then setValue option text p
    else .error (.usage (.needlessValue option text))
  | .letters [] => .error (.usage (.needlessValue option ""))
  | .letters letters => do
    let options ← (expand option letters).mapError .usage
    options.foldlM (fun p s => setSwitch s p) p

/-- Take the tokens one by one. -/
def consume : List Token → Progress → Except Refusal Progress
  | [], p => .ok p
  | .plain text :: rest, p => consume rest (p.plain text)
  | .mark :: rest, p => consume rest p.mark
  | .unknown text :: rest, p => consume rest (p.close.setAside text)
  | .option s (some inside) :: rest, p => do
    let p ← setInline s inside p.close
    consume rest p
  | [.option s none], p => do
    if s.takesValue then throw (.usage (.missingValue s))
    setSwitch s p.close
  | .option s none :: next :: rest, p => do
    if s.takesValue then
      match next with
      | .plain text =>
        let p ← setValue s text p.close
        consume rest p
      | _ => throw (.usage (.missingValue s))
    else
      let p ← setSwitch s p.close
      consume (next :: rest) p

/-- What a command line asks for, before its numbers are looked at. -/
def parse (arguments : List String) : Except Refusal Draft := do
  let ts ← (tokens arguments).mapError .usage
  let p ← consume ts {}
  if p.draft.images.isEmpty then throw (.usage .imagesRequired)
  if !p.extras.isEmpty then throw (.usage (.unrecognized p.extras.reverse))
  return p.draft

/-- A number that has to be positive. -/
def Count.positive (complaint : UsageError) : Count → Except Refusal Int
  | .number n => if n < 1 then .error (.usage complaint) else .ok n
  | .dropped => .error (.misuse .noNumber)

/-- The request that a draft amounts to: its limit, if there is one, and its number
of trace entries are positive, and a trace can keep so many. -/
def Draft.request (d : Draft) : Except Refusal Request := do
  let limit ← d.limit.mapM (Count.positive .limitNotPositive)
  let depth ← d.depth.positive .depthNotPositive
  let depth ← (History.depth? depth).mapError .misuse
  return { d.toChoices with limit, depth }

/-- What a command line asks for. -/
def request (arguments : List String) : Except Refusal Request := do
  (← parse arguments).request

end LittleComputer.CommandLine
