import LittleComputer.Machine.Basic

/-!
# What the services do

Each service is a routine that talks to the terminal of the machine. Reading a
key holds up the whole machine until there is one. A string is shown cell by
cell, its cells read as any others are, so a string that runs across the keyboard
status register takes a key on its way. How a cell is read is a parameter of the
services, and `LittleComputer.Machine.serve` fills it in.

Showing a string ends at a zero, and a bound on the number of cells is computed
beforehand. For a string of packed characters one round through memory suffices,
because the status register always ends it. For a string of one character a word
the status register ends it unless a key has arrived, so each key allows one more
round.
-/

namespace LittleComputer.Machine

open Memory

variable {T : Type} [Terminal T]

/-- Put a key into `R0` and set the condition register by it. -/
def receiveKey (key : Byte) : Action T Unit := assign 0 (wordOfByte key)

/-- Show the low bytes of the cells from `address` on, up to a cell that is zero,
reading at most `bound` cells, each of them with `read`. -/
def showStringWith (read : Word → Action T Word) : (bound : Nat) → (address : Word) → Action T Unit
  | 0, _ => return
  | bound + 1, address => do
    let w ← read address
    if w = 0 then return
    showByte (lowByte w)
    showStringWith read bound (address + 1)

/-- Show both bytes of the cells from `address` on, the low byte of each first, up
to a byte that is zero, reading at most `bound` cells, each of them with `read`. -/
def showPackedWith (read : Word → Action T Word) : (bound : Nat) → (address : Word) → Action T Unit
  | 0, _ => return
  | bound + 1, address => do
    let w ← read address
    if lowByte w = 0 then return
    showByte (lowByte w)
    if highByte w = 0 then return
    showByte (highByte w)
    showPackedWith read bound (address + 1)

/-- Carry out a service that reads cells, if it does, with `read`. -/
def serveWith (read : Word → Action T Word) : Service → Action T Unit
  | .getc => do
    let key ← readKey
    receiveKey key
  | .out => do
    showByte (lowByte (← readSlot (.general 0)))
    flush
  | .puts => do
    let m ← get
    showStringWith read (size * (Terminal.keysLeft m.console.terminal + 1))
      (m.registers.read (.general 0))
    flush
  | .input => do
    showText Service.prompt
    flush
    let key ← readKey
    showByte key
    flush
    receiveKey key
  | .putsp => do
    let m ← get
    showPackedWith read size (m.registers.read (.general 0))
    flush
  | .halt => do
    showText Service.farewell
    flush
    modify fun m => { m with halted := true }
    -- The instruction that halts is counted too, but only when it is complete.
    note (.ended ((← get).cycles + 1))

/-- Show a string of one character a word. -/
def showString : (bound : Nat) → (address : Word) → Action T Unit := showStringWith readCell

/-- Show a string of packed characters. -/
def showPacked : (bound : Nat) → (address : Word) → Action T Unit := showPackedWith readCell

/-- Carry out a service. -/
def serve : Service → Action T Unit := serveWith readCell

/-- Carry out the service with a given vector, after announcing it. -/
def dispatch (vector : Int) : Action T Unit :=
  match Service.ofVector? vector with
  | some service => do
    note (.called service)
    serve service
  | none => throw (.misuse (.unknownVector vector))

end LittleComputer.Machine
