import LittleComputer.Console
import LittleComputer.Memory
import LittleComputer.Registers

/-!
# The machine

A machine is its registers, its memory, the console it talks to, and two facts
about its progress: whether it has halted and how many instructions it has
carried out. What it does are `LittleComputer.Action`s: they change the machine,
and they can fail, in which case everything done before the failure remains done.

The one read that does more than look is
`LittleComputer.Machine.readCell` at the keyboard status register: it polls the
terminal, and a key that has arrived is taken and stored in the data register.
-/

namespace LittleComputer

open Text

/-- A machine on a terminal of type `T`. -/
structure Machine (T : Type) where
  /-- The registers. -/
  registers : Registers
  /-- The memory. -/
  memory : Memory
  /-- The terminal, and what reaches the machine from outside. -/
  console : Console T
  /-- Whether the machine has stopped. -/
  halted : Bool := false
  /-- The number of instructions carried out. -/
  cycles : Nat := 0

/-- Something a machine does: it may change the machine and it may fail, and a
failure does not undo what was changed. -/
abbrev Action (T : Type) := ExceptT Failure (StateM (Machine T))

/-- The registers and the progress of a machine at some moment. -/
structure Snapshot where
  /-- The registers. -/
  registers : Registers
  /-- Whether the machine has stopped. -/
  halted : Bool
  /-- The number of instructions carried out. -/
  cycles : Nat

namespace Machine

variable {T : Type} [Terminal T]

/-- A machine with all registers and cells zero. -/
def cleared (console : Console T) : Machine T :=
  { registers := Registers.cleared, memory := Memory.cleared, console }

/-- A machine that has just been switched on. -/
def powerOn (console : Console T) : Machine T :=
  { registers := Registers.powerOn, memory := Memory.cleared, console }

/-- What a machine looks like at present, without its memory. -/
def snapshot (m : Machine T) : Snapshot := ⟨m.registers, m.halted, m.cycles⟩

/-- One line of text on the state of a machine. -/
def summaryLine (m : Machine T) : String :=
  let register := fun (r : String × Word) => r.1 ++ "=0x" ++ hexWord r.2
  let general := " ".intercalate ((m.registers.dump.take 8).map register)
  "[Cycle " ++ toString m.cycles ++ "] PC=0x" ++ hexWord m.registers.pc ++ " " ++ general ++
    " COND=" ++ Flag.letterOf m.registers.cond.toNat ++ (if m.halted then " HALTED" else "")

/-! ### The console -/

/-- Poll for a key. -/
def poll : Action T Bool :=
  ExceptT.mk fun m => (m.console.poll.1, { m with console := m.console.poll.2 })

/-- Take the next key. -/
def readKey : Action T Byte :=
  ExceptT.mk fun m => (m.console.read.1, { m with console := m.console.read.2 })

/-- Show a byte. -/
def showByte (b : Byte) : Action T Unit :=
  modify fun m => { m with console := m.console.write b }

/-- Show the bytes of a text, one after the other. -/
def showText (text : String) : Action T Unit := (bytesOfText text).forM showByte

/-- Pass on everything shown so far. -/
def flush : Action T Unit := modify fun m => { m with console := m.console.flush }

/-- Leave a notice. -/
def note (n : Notice) : Action T Unit := modify fun m => { m with console := m.console.note n }

/-! ### Registers and memory -/

/-- The content of a register. -/
def readSlot (s : Slot) : Action T Word := return (← get).registers.read s

/-- Replace the content of a register. -/
def writeSlot (s : Slot) (value : Word) : Action T Unit :=
  modify fun m => { m with registers := m.registers.write s value }

/-- What is wrong with a number that no register has: its size, if it has more than
64 bits, and otherwise the misuse it was meant for. -/
def wrongNumber (index : Int) (otherwise : Misuse) : Misuse :=
  if -(Nat.pow 2 63 : Int) ≤ index ∧ index < Nat.pow 2 63 then otherwise
  else .registerNumberTooLarge

/-- The content of the register with a given number. -/
def readRegister (index : Int) : Action T Word :=
  match Slot.ofIndex? index with
  | some s => readSlot s
  | none => throw (.misuse (wrongNumber index .registerRead))

/-- Replace the content of the register with a given number. -/
def writeRegister (index : Int) (value : Word) : Action T Unit :=
  match Slot.ofIndex? index with
  | some s => writeSlot s value
  | none => throw (.misuse (wrongNumber index .registerWrite))

/-- The content of the register with a given name. -/
def getRegister (name : String) : Action T Word :=
  match Slot.ofName? name with
  | some s => readSlot s
  | none => throw (.misuse (.unknownRegister name))

/-- Replace the content of the register with a given name. -/
def setRegister (name : String) (value : Word) : Action T Unit :=
  match Slot.ofName? name with
  | some s => writeSlot s value
  | none => throw (.misuse (.unknownRegister name))

/-- Set the condition register to the flag of the register with a given number. -/
def setFlags (index : Int) : Action T Unit := do
  let value ← readRegister index
  writeSlot .cond (Flag.ofWord value).code

/-- Put a word into a general register and set the condition register to its flag. -/
def assign (dest : Reg) (value : Word) : Action T Unit := do
  writeSlot (.general dest) value
  writeSlot .cond (Flag.ofWord value).code

/-- Replace the content of a cell. -/
def writeCell (address value : Word) : Action T Unit :=
  modify fun m => { m with memory := m.memory.write address value }

/-- What a read of the keyboard status register does first: if a key has arrived,
say so in the status register, and then take the key into the data register;
otherwise clear the status register. -/
def latchKey : Action T Unit := do
  if ← poll then
    writeCell Memory.keyboardStatus Memory.keyReady
    let key ← readKey
    writeCell Memory.keyboardData (wordOfByte key)
  else
    writeCell Memory.keyboardStatus 0

/-- The content of a cell. A read of the keyboard status register asks the
terminal; a read of any other cell has no effect. -/
def readCell (address : Word) : Action T Word := do
  if address = Memory.keyboardStatus then latchKey
  return (← get).memory.peek address

end Machine

end LittleComputer
