import LittleComputer.Machine.Execute
import LittleComputer.Processor.History

/-!
# The processor

A processor drives a machine one instruction at a time: fetch, decode, execute.
It stops the machine at a fault, at the limit on executed instructions, and when
asked to; and it keeps a trace of the latest instructions if it was told to.

`LittleComputer.Processor.step` is one instruction. `LittleComputer.Processor.run`
repeats it until the machine has halted. A run need not end, so it is given an
allowance of instructions and answers `none` when it has used it up and the
machine is still running; a larger allowance continues where a smaller one stops.
-/

namespace LittleComputer

/-! ### Traces -/

/-- One instruction that was carried out. -/
structure Cycle where
  /-- The number of instructions carried out before it. -/
  number : Nat
  /-- The address that it was fetched from. -/
  address : Word
  /-- The word that was fetched. -/
  instruction : Word
  deriving DecidableEq, Repr

namespace Cycle

/-- The instruction that was carried out. -/
def decoded (c : Cycle) : Instruction := Instruction.decode c.instruction

/-- What was wrong with the fetched word, if anything was. -/
def defect? (c : Cycle) : Option Defect := c.decoded.defect?

end Cycle

/-- An entry of a trace: an instruction with the machine before and after it. -/
structure TraceEntry where
  /-- The instruction. -/
  cycle : Cycle
  /-- The machine before the instruction was fetched. -/
  before : Snapshot
  /-- The machine after the instruction. -/
  after : Snapshot

/-! ### Processors -/

/-- A machine with what drives it. -/
structure Processor (T : Type) where
  /-- The machine. -/
  machine : Machine T
  /-- How many instructions may be carried out, if there is a limit. -/
  limit : Option Int := none
  /-- Whether a trace is kept. -/
  tracing : Bool := false
  /-- The trace. -/
  trace : History TraceEntry
  /-- The fault that stopped the machine, if one did. -/
  fault : Option Fault := none

namespace Processor

variable {T : Type} [Terminal T]

/-- Something a processor does. -/
abbrev Action (T : Type) := ExceptT Failure (StateM (Processor T))

/-- How many entries a trace keeps if nothing else is said. -/
def defaultDepth : Nat := 1000

/-- A processor with a machine that has just been switched on. -/
def powerOn (console : Console T) (limit : Option Int) (tracing : Bool) (depth : Nat) :
    Processor T :=
  { machine := Machine.powerOn console, limit, tracing, trace := History.empty depth }

/-- A processor whose trace is to keep a number of entries that may be none that a
trace can keep. -/
def powerOn? (console : Console T) (limit : Option Int) (tracing : Bool) (depth : Int) :
    Except Failure (Processor T) :=
  match History.depth? depth with
  | .ok depth => .ok (powerOn console limit tracing depth)
  | .error m => .error (.misuse m)

/-- Switch the machine off and on again. Only the terminal, the interrupt to come
and the journal outlast it. -/
def reset (p : Processor T) : Processor T :=
  { p with
    machine := Machine.powerOn { p.machine.console with stop := false }
    trace := p.trace.clear
    fault := none }

/-- Let the machine do something. -/
def onMachine {α : Type} (a : LittleComputer.Action T α) : Action T α :=
  ExceptT.mk fun p =>
    let (result, machine) := a.run p.machine
    (result, { p with machine })

/-- The processor with its console changed. -/
def onConsole (p : Processor T) (f : Console T → Console T) : Processor T :=
  { p with machine := { p.machine with console := f p.machine.console } }

/-- Ask for a stop between two instructions. -/
def requestStop (p : Processor T) : Processor T := p.onConsole fun c => { c with stop := true }

/-- Whether the limit on executed instructions has been reached. -/
def reachedLimit (p : Processor T) : Option Int :=
  p.limit.filter fun n => n ≤ (p.machine.cycles : Int)

/-- Stop the machine. -/
def halt : Action T Unit := modify fun p => { p with machine := { p.machine with halted := true } }

/-- Remember a fault. -/
def blame (f : Fault) : Action T Unit := do
  modify fun p => { p with fault := some f }
  onMachine (Machine.note (.faulted f))

/-- Add an instruction to the trace, if one is kept. -/
def remember (cycle : Cycle) (before : Snapshot) : Action T Unit :=
  modify fun p =>
    if p.tracing then
      { p with trace := p.trace.push { cycle, before, after := p.machine.snapshot } }
    else p

/-- Carry out one instruction. -/
def step : Action T Cycle := do
  let p ← get
  if p.machine.halted then throw (.misuse .notRunning)
  if let some n := p.reachedLimit then
    halt
    throw (.cycleLimit n)
  -- The fetch itself can change the machine, so what it was is kept beforehand.
  let before := p.machine.snapshot
  let (address, instruction) ← onMachine Machine.fetch
  let cycle : Cycle := { number := before.cycles, address, instruction }
  onMachine (Machine.note (.fetched address instruction))
  onMachine (Machine.execute cycle.decoded)
  -- The machine has halted by now; what is left is to say why.
  if cycle.defect?.isSome then blame ⟨address, instruction⟩
  remember cycle before
  return cycle

/-- What a run does between two instructions. If the machine has halted, the run
ends with the trace, or with the fault that stopped the machine; if a stop was
asked for, the machine stops here; otherwise there is nothing to do and the run
goes on. -/
def boundary : Action T (Option (List TraceEntry)) := do
  let p ← get
  if p.machine.halted then
    match p.fault with
    | some f => throw f.failure
    | none => return some p.trace.toList
  else if p.machine.console.stop then
    halt
    onMachine (Machine.note (.stopped p.machine.registers.pc))
    throw (.interrupted (some p.machine.registers.pc.toNat))
  else return none

/-- Run until the machine has halted, for at most `allowance` instructions. The
answer is the trace, or nothing if the machine is still running. -/
def run : (allowance : Nat) → Action T (Option (List TraceEntry))
  | 0 => boundary
  | allowance + 1 => do
    match ← boundary with
    | some trace => return some trace
    | none =>
      let _ ← step
      run allowance

/-- The processor with interrupts routed to the machine, or not. -/
def guarded (p : Processor T) (on : Bool) : Processor T :=
  p.onConsole fun c => { c with guarded := on }

/-- Run with interrupts routed to the machine for as long as the run lasts. -/
def guardedRun (allowance : Nat) : Action T (Option (List TraceEntry)) :=
  ExceptT.mk fun p =>
    let (result, p) := (run allowance).run (p.guarded true)
    (result, p.guarded false)

end Processor

end LittleComputer
