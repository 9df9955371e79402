import LittleComputer.Processor.Report
import LittleComputer.Proofs.Halting

/-!
# Sessions

A session is everything that is done with a processor from outside after it was switched on: a
list of `LittleComputer.Event`s in any order. An event is a `LittleComputer.Directive`, which may
change something, or an `LittleComputer.Inspection`, which only looks. What all sessions have in
common is proved here, so that a statement about every sequence of operations comes down to
statements about single instructions.

* An inspection changes nothing (`LittleComputer.Processor.state_inspection`).
* What directives do with instructions they do in steps. The processors from which a directive takes
  its steps are its `LittleComputer.Directive.course`; and that a run either stands at a boundary,
  or ends with a step that fails, or completes a step and goes on, is said once, by
  `LittleComputer.Processor.run_induction`.
* What holds after a step, after the machine was stopped, and whenever neither the number of
  instructions nor whether the machine has halted is touched, holds after every directive but a
  reset (`LittleComputer.Processor.IsInvariant.session`).
-/

namespace LittleComputer

/-! ### Access to registers and memory -/

/-- What an operation answers. -/
inductive Answer
  /-- Nothing. -/
  | done
  /-- The content of a cell. -/
  | word (w : Word)
  /-- Where words were loaded to, and how many were stored. -/
  | loaded (origin : Word) (stored : Nat)
  /-- The instruction that a step has carried out. -/
  | stepped (c : Cycle)
  /-- The trace after a run, or nothing if the machine is still running. -/
  | ran (trace : Option (List TraceEntry))

/-- What can be done from outside to the registers and to memory. -/
inductive Access
  /-- Load an image. -/
  | loadImage (name : String) (bytes : List Byte)
  /-- Load an image from a file. -/
  | loadFile (read : FileReader) (path : String)
  /-- Copy words to the cells from an address upwards. -/
  | loadWords (origin : Word) (words : List Word)
  /-- Read a cell as an instruction does. -/
  | readCell (address : Word)
  /-- Replace the content of a cell. -/
  | writeCell (address value : Word)
  /-- Replace the content of the register with a given number. -/
  | writeRegister (index : Int) (value : Word)
  /-- Replace the content of the register with a given name. -/
  | setRegister (name : String) (value : Word)
  /-- Set the condition register to the flag of the register with a given number. -/
  | setFlags (index : Int)

/-- A primitive that neither stops the machine nor counts an instruction. -/
def Primitive.IsIdle (α : Type) (c : Primitive α) : Prop := c.LetsRun ∧ c.IsUncounted

theorem Primitive.IsMild.isIdle {α : Type} {c : Primitive α} (h : c.IsMild) : c.IsIdle :=
  ⟨h.letsRun, h.isPlain.isUncounted⟩

theorem Primitive.IsLoading.isIdle {α : Type} {c : Primitive α} (h : c.IsLoading) : c.IsIdle := by
  cases c with
  | note | load => exact ⟨trivial, trivial⟩
  | _ => cases h

namespace Access

/-- An access as an action of a machine. -/
def perform {T : Type} [Terminal T] : Access → Action T Answer
  | loadImage name bytes => do
    let (origin, stored) ← Machine.loadImage name bytes
    return .loaded origin stored
  | loadFile read path => do
    let (origin, stored) ← Machine.loadFile read path
    return .loaded origin stored
  | loadWords origin words => do
    modify fun m => { m with memory := m.memory.load origin words }
    return .loaded origin (Memory.room origin words.length)
  | readCell address => return .word (← Machine.readCell address)
  | writeCell address value => do
    Machine.writeCell address value
    return .done
  | writeRegister index value => do
    Machine.writeRegister index value
    return .done
  | setRegister name value => do
    Machine.setRegister name value
    return .done
  | setFlags index => do
    Machine.setFlags index
    return .done

/-- **Access neither stops the machine nor counts an instruction.** -/
theorem composed_perform (a : Access) :
    Composed Primitive.IsIdle fun T _ => a.perform (T := T) := by
  have hwrite (s : Slot) (value : Word) :
      Composed Primitive.IsIdle fun T _ => Machine.writeSlot (T := T) s value :=
    .single (.writeSlot s value) ⟨trivial, trivial⟩
  cases a with
  | loadImage name bytes =>
    exact .next ((Machine.composed_loadImage name bytes).mono fun _ _ => Primitive.IsLoading.isIdle)
      fun (origin, stored) => .done _
  | loadFile read path =>
    exact .next ((Machine.composed_loadFile read path).mono fun _ _ => Primitive.IsLoading.isIdle)
      fun (origin, stored) => .done _
  | loadWords origin words =>
    exact .next (.single (.load origin words) ⟨trivial, trivial⟩) fun _ => .done _
  | readCell address =>
    exact .next ((Machine.mild_readCell address).mono fun _ _ => Primitive.IsMild.isIdle)
      fun w => .done _
  | writeCell address value =>
    exact .next (.single (.writeCell address value) ⟨trivial, trivial⟩) fun _ => .done _
  | writeRegister index value =>
    refine .next ?_ fun _ => .done _
    unfold Machine.writeRegister
    cases Slot.ofIndex? index with
    | none => exact .failed _
    | some s => exact hwrite s value
  | setRegister name value =>
    refine .next ?_ fun _ => .done _
    unfold Machine.setRegister
    cases Slot.ofName? name with
    | none => exact .failed _
    | some s => exact hwrite s value
  | setFlags index =>
    refine .next (.next ?_ fun value => hwrite .cond (Flag.ofWord value).code) fun _ => .done _
    unfold Machine.readRegister
    cases Slot.ofIndex? index with
    | none => exact .failed _
    | some s => exact .single (.readSlot s) ⟨trivial, trivial⟩

end Access

/-! ### Directives -/

/-- What can be done with a processor from outside, and may change something. -/
inductive Directive (T : Type)
  /-- Load something, or read or replace a register or a cell. -/
  | access (a : Access)
  /-- Carry out one instruction. -/
  | step
  /-- Run, or go through a part of a run if the allowance is not enough for it. -/
  | run (allowance : Nat)
  /-- Run with interrupts routed to the machine. -/
  | guardedRun (allowance : Nat)
  /-- Ask for a stop between two instructions. -/
  | requestStop
  /-- Set or cancel the interrupt to come. -/
  | interrupt (alarm : Option Alarm)
  /-- Change the terminal: someone types, or looks at what was shown. -/
  | terminal (change : T → T)
  /-- Switch the machine off and on again. -/
  | reset

namespace Directive

variable {T : Type} [Terminal T]

/-- A directive as an action of a processor. -/
def perform : Directive T → Processor.Action T Answer
  | access a => Processor.onMachine a.perform
  | step => return .stepped (← Processor.step)
  | run allowance => return .ran (← Processor.run allowance)
  | guardedRun allowance => return .ran (← Processor.guardedRun allowance)
  | requestStop => do
    modify Processor.requestStop
    return .done
  | interrupt alarm => do
    modify fun p => p.onConsole fun c => { c with alarm }
    return .done
  | terminal change => do
    modify fun p => p.onConsole fun c => { c with terminal := change c.terminal }
    return .done
  | reset => do
    modify Processor.reset
    return .done

/-- The processor after a directive. -/
def after (d : Directive T) (p : Processor T) : Processor T := (d.perform.run p).2

@[simp] theorem after_step (p : Processor T) : step.after p = p.next :=
  congrArg Prod.snd (run_bind_pure Processor.step Answer.stepped p)

@[simp] theorem after_run (allowance : Nat) (p : Processor T) :
    (run allowance).after p = ((Processor.run allowance).run p).2 :=
  congrArg Prod.snd (run_bind_pure (Processor.run allowance) Answer.ran p)

@[simp] theorem after_guardedRun (allowance : Nat) (p : Processor T) :
    (guardedRun allowance).after p = ((run allowance).after (p.guarded true)).guarded false := by
  rw [after_run]
  exact congrArg Prod.snd (run_bind_pure (Processor.guardedRun allowance) Answer.ran p)

end Directive

/-! ### Inspections -/

/-- What can be seen of a processor from outside. -/
inductive Inspection
  /-- Look into a cell. -/
  | cell (address : Word)
  /-- The register with a given number. -/
  | register (index : Int)
  /-- The register with a given name. -/
  | registerNamed (name : String)
  /-- All registers. -/
  | registers
  /-- The condition flags. -/
  | flags
  /-- The registers and the progress of the machine. -/
  | snapshot
  /-- One line of text on the state of the machine. -/
  | summaryLine
  /-- The summary as data. -/
  | summary
  /-- The summary as text. -/
  | summaryText
  /-- The trace as data. -/
  | trace
  /-- The trace as text. -/
  | traceText

/-- What an inspection finds. -/
inductive Finding
  | word (w : Word)
  | registers (contents : List (String × Word))
  | flags (bits : List (String × Bool))
  | snapshot (s : Snapshot)
  | text (t : String)
  | summary (s : Summary)
  | trace (entries : List TraceEntry)

/-- An inspection as an action of a processor. -/
def Inspection.perform {T : Type} : Inspection → Processor.Action T Finding
  | cell address => return .word ((← get).machine.memory.peek address)
  | register index => return .word (← Processor.onMachine (Machine.readRegister index))
  | registerNamed name => return .word (← Processor.onMachine (Machine.getRegister name))
  | registers => return .registers (← get).machine.registers.dump
  | flags => return .flags (← get).machine.registers.flags
  | snapshot => return .snapshot (← get).machine.snapshot
  | summaryLine => return .text (← get).machine.summaryLine
  | summary => return .summary (← get).summary
  | summaryText => return .text (← get).summaryText
  | trace => return .trace (← get).trace.toList
  | traceText => return .text (← get).traceText

/-- **Who only looks changes nothing.** -/
theorem Processor.state_inspection {T : Type} (i : Inspection) (p : Processor T) :
    (i.perform.run p).2 = p := by
  cases i with
  | register index =>
    rw [Inspection.perform, run_bind_pure, run_onMachine]
    unfold Machine.readRegister
    cases Slot.ofIndex? index <;> rfl
  | registerNamed name =>
    rw [Inspection.perform, run_bind_pure, run_onMachine]
    unfold Machine.getRegister
    cases Slot.ofName? name <;> rfl
  | _ => rfl

/-! ### Events -/

/-- What happens in a session. -/
inductive Event (T : Type)
  | directive (d : Directive T)
  | inspection (i : Inspection)

/-- The processor after an event. -/
def Event.after {T : Type} [Terminal T] (p : Processor T) : Event T → Processor T
  | directive d => d.after p
  | inspection i => (i.perform.run p).2

namespace Processor

variable {T : Type}

/-- A processor that was just switched on, before anything was done with it. -/
def switchedOn (terminal : T) (alarm : Option Alarm) (journal : Journal) (limit : Option Int)
    (tracing : Bool) (depth : Nat) : Processor T :=
  powerOn { terminal, alarm, journal } limit tracing depth

variable [Terminal T]

/-- The processor after some events. -/
def afterSession (p : Processor T) (session : List (Event T)) : Processor T :=
  session.foldl Event.after p

/-! ### The course of a directive -/

/-- Whether the next step returns. -/
def stepReturns (p : Processor T) : Bool := (step.run p).1.toBool

/-- The processors from which a run takes its steps, in order. -/
def course : (allowance : Nat) → Processor T → List (Processor T)
  | 0, _ => []
  | allowance + 1, p =>
    match boundary.run p with
    | (.ok none, p) => p :: if p.stepReturns then p.next.course allowance else []
    | _ => []

/-- **What a run comes to, step by step.** Something holds of every run if it does of one that
takes no step and comes to what it finds at its boundary; of one whose first step fails; and of
one whose first step returns, provided that it holds of the rest of the run. -/
theorem run_induction {motive : Nat → Processor T → Prop}
    (boundary : ∀ n p, p.course n = [] → (run n).run p = boundary.run p → motive n p)
    (failed : ∀ n p f, step.run p = (.error f, p.next) → p.course (n + 1) = [p] →
      (run (n + 1)).run p = (.error f, p.next) → motive (n + 1) p)
    (returned : ∀ n p c, step.run p = (.ok c, p.next) → p.course (n + 1) = p :: p.next.course n →
      (run (n + 1)).run p = (run n).run p.next → motive n p.next → motive (n + 1) p)
    (n : Nat) (p : Processor T) : motive n p := by
  induction n generalizing p with
  | zero => exact boundary 0 p rfl rfl
  | succ n ih =>
    rcases boundary_cases p with ⟨hr, hb⟩ | ⟨hr, hs, hb⟩ | ⟨hr, hs, hb⟩
    · refine boundary _ p ?_ ((run_of_halted hr _).trans hb.symm)
      rw [course, hb]
      cases p.ending <;> rfl
    · refine boundary _ p ?_ ((run_of_stop hr hs _).trans hb.symm)
      rw [course, hb]
    · -- The run goes on, and what becomes of it is a matter of its first step.
      have hcourse : p.course (n + 1) = p :: if p.stepReturns then p.next.course n else [] := by
        rw [course, hb]
      have hrun := run_succ_of_running hr hs n
      rcases hstep : step.run p with ⟨f | c, q⟩
      · obtain rfl : p.next = q := by rw [next, hstep]
        rw [hstep] at hrun
        rw [stepReturns, hstep] at hcourse
        exact failed n p f hstep hcourse hrun
      · obtain rfl : p.next = q := by rw [next, hstep]
        rw [hstep] at hrun
        rw [stepReturns, hstep] at hcourse
        exact returned n p c hstep hcourse hrun (ih p.next)

end Processor

/-- The processors from which a directive takes its steps, in order. -/
def Directive.course {T : Type} [Terminal T] : Directive T → Processor T → List (Processor T)
  | step, p => [p]
  | run allowance, p => p.course allowance
  | guardedRun allowance, p => (p.guarded true).course allowance
  | _, _ => []

/-! ### What a session leaves true -/

namespace Processor

variable {T : Type} [Terminal T]

/-- A property that no step and no stop ends, and that hangs on nothing of the machine but the
number of its instructions and whether it has halted. -/
structure IsInvariant (P : Processor T → Prop) : Prop where
  next : ∀ {p}, P p → P p.next
  stopped : ∀ {p}, P p → P p.stopped
  withMachine : ∀ {p : Processor T} {m : Machine T}, P p → m.halted = p.machine.halted →
    m.cycles = p.machine.cycles → P { p with machine := m }

namespace IsInvariant

variable {P : Processor T → Prop} (hP : IsInvariant P) {p : Processor T}

include hP

theorem onConsole (hp : P p) (f : Console T → Console T) : P (p.onConsole f) :=
  hP.withMachine hp rfl rfl

theorem boundary (hp : P p) : P (boundary.run p).2 := by
  rcases boundary_cases p with ⟨-, hb⟩ | ⟨-, -, hb⟩ | ⟨-, -, hb⟩ <;> rw [hb]
  · exact hp
  · exact hP.withMachine (hP.stopped hp) rfl rfl
  · exact hp

theorem run (allowance : Nat) (hp : P p) : P ((Processor.run allowance).run p).2 := by
  refine run_induction (motive := fun n p => P p → P ((Processor.run n).run p).2)
    (fun n p _ hrun hp => ?_) (fun n p f _ _ hrun hp => ?_) (fun n p c _ _ hrun ih hp => ?_)
    allowance p hp
  · rw [hrun]
    exact hP.boundary hp
  · rw [hrun]
    exact hP.next hp
  · rw [hrun]
    exact ih (hP.next hp)

/-- **An invariant survives every directive**, a reset if it does so by itself. -/
theorem directive (hp : P p) (d : Directive T) (hreset : d = .reset → P p.reset) :
    P (d.after p) := by
  cases d with
  | access a =>
    -- An access may touch registers, memory and the console, none of which matters here.
    have hhalted := a.composed_perform.keeps (fun _ c hc => Machine.keeps_halted c hc.1) p.machine
    have hcycles := a.composed_perform.keeps (fun _ c hc => Machine.keeps_cycles c hc.2) p.machine
    exact hP.withMachine hp hhalted hcycles
  | step =>
    rw [Directive.after_step]
    exact hP.next hp
  | run allowance =>
    rw [Directive.after_run]
    exact hP.run allowance hp
  | guardedRun allowance =>
    rw [Directive.after_guardedRun, Directive.after_run]
    exact hP.onConsole (hP.run allowance (hP.onConsole hp _)) _
  | requestStop => exact hP.onConsole hp fun c => { c with stop := true }
  | interrupt alarm => exact hP.onConsole hp fun c => { c with alarm }
  | terminal change => exact hP.onConsole hp fun c => { c with terminal := change c.terminal }
  | reset => exact hreset rfl

/-- **An invariant survives every session.** If the session contains a reset, it has to survive
resets. -/
theorem session (hp : P p) {session : List (Event T)}
    (hreset : .directive .reset ∈ session → ∀ {p}, P p → P p.reset) :
    P (p.afterSession session) := by
  induction session generalizing p with
  | nil => exact hp
  | cons e rest ih =>
    refine ih ?_ fun h => hreset (List.mem_cons_of_mem e h)
    cases e with
    | directive d =>
      refine hP.directive hp d ?_
      rintro rfl
      exact hreset List.mem_cons_self hp
    | inspection i =>
      change P (i.perform.run p).2
      rw [state_inspection]
      exact hp

end IsInvariant

/-- A directive leaves interrupts unrouted if they were. -/
theorem unguarded_after (d : Directive T) {p : Processor T}
    (h : p.machine.console.guarded = false) : (d.after p).machine.console.guarded = false := by
  cases d with
  | access a =>
    have hkeep := a.composed_perform.keeps (fun _ c _ => keeps_request c) p.machine
    exact (congrArg Prod.fst hkeep).trans h
  | step =>
    have hkeep := keeps_step (fun _ => keeps_request) (fun _ => rfl) p
    rw [Directive.after_step]
    exact (congrArg Prod.fst hkeep).trans h
  | run allowance =>
    rw [Directive.after_run]
    exact (keeps_guarded_run allowance p).trans h
  | guardedRun allowance =>
    -- Whatever happens in between, interrupts are not routed to the machine afterwards.
    rw [Directive.after_guardedRun]
    rfl
  | requestStop | interrupt | terminal | reset => exact h

/-- **No interrupt can reach the machine between the directives of a session.** -/
theorem unguarded_afterSession {p : Processor T} (h : p.machine.console.guarded = false)
    (session : List (Event T)) : (p.afterSession session).machine.console.guarded = false := by
  induction session generalizing p with
  | nil => exact h
  | cons e rest ih =>
    refine ih ?_
    cases e with
    | directive d => exact unguarded_after d h
    | inspection i =>
      change (i.perform.run p).2.machine.console.guarded = false
      rw [state_inspection]
      exact h

end Processor

end LittleComputer
