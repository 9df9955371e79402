import LittleComputer.Processor.Basic

/-!
# Reports

What a processor says about itself after a run: the trace, instruction by
instruction with what each changed, and a summary of the registers, the flag and
the number of instructions.
-/

namespace LittleComputer

open Text

namespace TraceEntry

/-- The general registers that an instruction changed. -/
def changes (e : TraceEntry) : List (String × Word × Word) :=
  ((e.before.registers.dump.zip e.after.registers.dump).take 8).filterMap fun (old, new) =>
    if old.2 = new.2 then none else some (old.1, old.2, new.2)

/-- Whether an instruction did more to the program counter than advance it. -/
def jumps (e : TraceEntry) : Bool := e.after.registers.pc ≠ e.before.registers.pc + 1

/-- The outcome of an instruction. -/
def status (e : TraceEntry) : String :=
  match e.cycle.defect? with
  | none => "OK"
  | some d => "ERROR: " ++ d.message

/-- An old and a new value. -/
def arrow (old new : String) : String := old ++ " → " ++ new

/-- The lines that report an entry of a trace. -/
def lines (e : TraceEntry) : List String :=
  let c := e.cycle
  let old := e.before.registers
  let new := e.after.registers
  let change := fun (r : String × Word × Word) =>
    r.1 ++ ": " ++ arrow ("0x" ++ hexWord r.2.1) ("0x" ++ hexWord r.2.2)
  ["",
    "[Cycle " ++ toString c.number ++ "] 0x" ++ hexWord c.address ++ ": " ++
      hexWord c.instruction ++ " (" ++ (Opcode.ofWord c.instruction).name ++ ") " ++ e.status,
    "  Decoded Key: " ++ c.decoded.operation.key,
    "  Params: " ++ c.decoded.operandText] ++
  (if e.changes.isEmpty then []
    else ["  Changes: " ++ ", ".intercalate (e.changes.map change)]) ++
  (if old.cond = new.cond then []
    else ["  COND: " ++ arrow (Flag.letterOf old.cond.toNat) (Flag.letterOf new.cond.toNat)]) ++
  (if e.jumps then ["  PC: " ++ arrow ("0x" ++ hexWord old.pc) ("0x" ++ hexWord new.pc)] else [])

end TraceEntry

namespace Processor

variable {T : Type}

/-- The lines of the summary. -/
def summaryLines (p : Processor T) : List String :=
  let m := p.machine
  let register := fun (r : String × Word) => r.1 ++ "=0x" ++ hexWord r.2
  ["  Registers: " ++ " ".intercalate ((m.registers.dump.take 9).map register),
    "  Flags: " ++ Flag.letterOf m.registers.cond.toNat,
    "  Cycles: " ++ toString m.cycles,
    "  Halted: " ++ truth m.halted]

/-- A heading between two rules. -/
def heading (text : String) : List String := [rule '=' 70, text, rule '=' 70]

/-- The lines of the trace, with the summary at the end. -/
def traceLines (p : Processor T) : List String :=
  heading "LC-3 EXECUTION TRACE" ++ p.trace.toList.flatMap TraceEntry.lines ++
    "" :: heading "FINAL STATE" ++ p.summaryLines

/-- A text made of lines, each of which ends with a line end. -/
def textOfLines (lines : List String) : String := String.join (lines.map (· ++ "\n"))

/-- The text of the summary. -/
def summaryText (p : Processor T) : String := textOfLines p.summaryLines

/-- The text of the trace. -/
def traceText (p : Processor T) : String := textOfLines p.traceLines

end Processor

/-- The flags by their letters, each with whether its bit is set in the condition
register. -/
def Registers.flags (regs : Registers) : List (String × Bool) :=
  [Flag.negative, Flag.zero, Flag.positive].map fun f =>
    (f.letter, decide (regs.cond &&& f.code ≠ 0))

/-- A summary of a run as data. -/
structure Summary where
  /-- The number of instructions carried out. -/
  cycles : Nat
  /-- Whether the machine has halted. -/
  halted : Bool
  /-- The registers. -/
  registers : Registers
  /-- The number of entries in the trace. -/
  traceLength : Nat
  /-- The failures to report: that of the fault, if there is one. -/
  errors : List String

/-- The summary of a processor. -/
def Processor.summary {T : Type} (p : Processor T) : Summary where
  cycles := p.machine.cycles
  halted := p.machine.halted
  registers := p.machine.registers
  traceLength := p.trace.latest.length
  errors := p.fault.toList.map fun f => f.failure.message

end LittleComputer
