import LittleComputer.Text.Numeral

/-!
# What can go wrong

Every operation of the library that can fail does so with a
`LittleComputer.Failure`. The first six constructors are the failures of the
machine and its surroundings, which a command line or a report has to present
(`LittleComputer.Failure.IsReportable`); the misuses are for the caller to avoid, and
a wait that an operation was left in is none of its results: it has not come to one.
The wording of all of them is `LittleComputer.Failure.message`.
-/

namespace LittleComputer

open Text

/-- Why the host could not do what the terminal asked of it. -/
inductive HostFault
  /-- The keys of a script have all been delivered. -/
  | inputExhausted
  /-- The input has ended. -/
  | endOfInput
  /-- A reason in the host's own words. -/
  | reported (message : String)
  deriving DecidableEq, Repr

/-- The wording of a host fault. -/
def HostFault.message : HostFault → String
  | inputExhausted => "terminal input exhausted"
  | endOfInput => "end of input"
  | reported message => message

/-- How an operation was left in the middle of a wait for a key. -/
inductive KeyWait
  /-- An interrupt has cut the wait short. -/
  | cutShort
  /-- No key has arrived, and the wait goes on. -/
  | goesOn
  deriving DecidableEq, Repr

/-- A request that no caller should have made. -/
inductive Misuse
  /-- A halted machine was asked for another instruction. -/
  | notRunning
  /-- The table of operations takes no more entries. -/
  | operationsFrozen
  /-- The table of trap routines takes no more entries. -/
  | routinesFrozen
  /-- An operation with this key exists already. -/
  | operationTaken (key : String)
  /-- A trap routine with this vector exists already. -/
  | vectorTaken (vector : Int)
  /-- There is no operation with this key. -/
  | unknownOperation (key : String)
  /-- An operation was not given the operand of this name. -/
  | missingOperand (name : String)
  /-- There is no register with this name. -/
  | unknownRegister (name : String)
  /-- No trap routine has this vector. -/
  | unknownVector (vector : Int)
  /-- The trap routine with this vector has no name to announce it by. -/
  | unnamedVector (vector : Int)
  /-- A register that does not exist was read. -/
  | registerRead
  /-- A register that does not exist was written. -/
  | registerWrite
  /-- A register was asked for by a number of more than 64 bits. -/
  | registerNumberTooLarge
  /-- A sign was to be extended from a field without bits. -/
  | nonpositiveWidth
  /-- A sign was to be extended from a field so wide that memory does not hold the
  number. -/
  | widthBeyondMemory
  /-- A sign was to be extended from a field so wide that the digits of the number
  cannot be counted. -/
  | widthBeyondCount
  /-- A trace was to keep fewer than no entries. -/
  | negativeDepth
  /-- A trace was to keep more entries than can be counted. -/
  | depthTooLarge
  /-- A number was to be compared that was never given. -/
  | noNumber
  /-- An infinite number was to be made an integer. -/
  | infinite
  /-- A number without a value was to be made an integer. -/
  | indeterminate
  /-- A file name contains the character that ends names. -/
  | nulInPath
  /-- The input of the host was asked for a key after it was closed. -/
  | inputClosed
  deriving DecidableEq, Repr

/-- The wording of a misuse. -/
def Misuse.message : Misuse → String
  | notRunning => "CPU is halted"
  | operationsFrozen => "Cannot register primitives: registry is frozen"
  | routinesFrozen => "Cannot register trap routines: table is frozen"
  | operationTaken key => "Primitive already registered: " ++ key
  | vectorTaken vector => "Trap routine already registered: 0x" ++ hex 2 vector
  | unknownOperation key => "Unknown operation key: " ++ key
  | missingOperand name => name
  | unknownRegister name => "Invalid register: " ++ name
  | unknownVector vector => "Unknown trap vector: 0x" ++ hex 2 vector
  | unnamedVector vector => toString vector
  | registerRead => "list index out of range"
  | registerWrite => "list assignment index out of range"
  | registerNumberTooLarge => "cannot fit 'int' into an index-sized integer"
  | nonpositiveWidth => "negative shift count"
  | widthBeyondMemory => ""
  | widthBeyondCount => "too many digits in integer"
  | negativeDepth => "maxlen must be non-negative"
  | depthTooLarge => "Python int too large to convert to C ssize_t"
  | noNumber => "'<' not supported between instances of 'list' and 'int'"
  | infinite => "cannot convert float infinity to integer"
  | indeterminate => "cannot convert float NaN to integer"
  | nulInPath => "embedded null byte"
  | inputClosed => "[Errno 9] Bad file descriptor"

/-- What an operation can fail with. -/
inductive Failure
  /-- An image could not be read, or is malformed. -/
  | imageLoad (path reason : String)
  /-- A word that is no instruction of a user program was fetched. -/
  | illegalInstruction (address instruction : Int) (reason : String)
  /-- The limit on executed instructions was reached. -/
  | cycleLimit (limit : Int)
  /-- The run was stopped between two instructions, with the program counter there. -/
  | interrupted (pc : Option Int)
  /-- The host terminal could not satisfy a request. -/
  | hostIO (fault : HostFault)
  /-- A failure of the machine that has no more specific kind. -/
  | general (message : String)
  /-- There is no outcome: the operation was left in the middle of a wait for a key. -/
  | wait (wait : KeyWait)
  /-- A request that no caller should have made. -/
  | misuse (misuse : Misuse)
  deriving DecidableEq, Repr

namespace Failure

/-- A wait for a key that an operation was left in, in either way. -/
@[match_pattern]
abbrev waitAbandoned {w : KeyWait} : Failure := wait w

/-- The wording of a failure. -/
def message : Failure → String
  | imageLoad path reason => path ++ ": " ++ reason
  | illegalInstruction address instruction reason =>
    "illegal instruction 0x" ++ hex 4 instruction ++ " at 0x" ++ hex 4 address ++ ": " ++ reason
  | cycleLimit limit => "Max cycles (" ++ toString limit ++ ") exceeded"
  | interrupted none => "execution interrupted"
  | interrupted (some pc) => "execution interrupted at PC=0x" ++ hex 4 pc
  | hostIO fault => fault.message
  | general message => message
  | waitAbandoned => ""
  | misuse m => m.message

/-- The failures of the machine and its surroundings, which whoever runs a
program has to be told about. -/
def IsReportable : Failure → Prop
  | waitAbandoned => False
  | misuse _ => False
  | _ => True

instance : DecidablePred IsReportable := fun f => by
  cases f <;> unfold IsReportable <;> infer_instance

end Failure

end LittleComputer
