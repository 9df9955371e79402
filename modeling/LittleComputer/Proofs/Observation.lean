import LittleComputer.Proofs.Reporting
import LittleComputer.Proofs.Session

/-!
# Looking on

A machine does the same whether or not anybody looks on. There are two ways of looking. One is
decided on when the machine is switched on: a trace of any depth, and a journal for notices of any
weight. The other is to inspect the machine between two operations. In a machine whose memory can
be read with an effect – a read of the keyboard status register takes a key – neither is without
danger, and a single report that reads where it should look would show here.

What is compared are transcripts: what each directive of a session comes to, and the machine after
it, without what belongs to looking on (`LittleComputer.Processor.transcript`). Processors that
differ in traces and journals alone go through a directive side by side
(`LittleComputer.Processor.SameButReports.directive`), and inspections can be left out of a session
since they change nothing (`LittleComputer.Processor.transcript_eq_of_directives`).

The main statement is `LittleComputer.Processor.observation_changes_nothing`.
-/

namespace LittleComputer

variable {T : Type}

/-! ### Transcripts -/

/-- What an operation answers, without the trace. -/
def Answer.withoutTrace : Answer → Answer
  | ran trace => ran (trace.map fun _ => [])
  | a => a

/-- A machine apart from what is recorded of it: its registers, its memory and its progress, and
the terminal with the keys to come and what was shown. -/
structure Essence (T : Type) where
  registers : Registers
  memory : Memory
  halted : Bool
  cycles : Nat
  fault : Option Fault
  terminal : T
  /-- Whether the machine was asked to stop. -/
  stop : Bool
  /-- The interrupt to come. -/
  alarm : Option Alarm

/-- What there is of a processor apart from its records. -/
def Processor.essence (p : Processor T) : Essence T where
  registers := p.machine.registers
  memory := p.machine.memory
  halted := p.machine.halted
  cycles := p.machine.cycles
  fault := p.fault
  terminal := p.machine.console.terminal
  stop := p.machine.console.stop
  alarm := p.machine.console.alarm

/-- The directives among some events. -/
def directives : List (Event T) → List (Directive T)
  | [] => []
  | .directive d :: rest => d :: directives rest
  | .inspection _ :: rest => directives rest

variable [Terminal T]

/-- What a directive comes to: its answer, without the trace, or its failure. -/
def Directive.outcome (d : Directive T) (p : Processor T) : Except Failure Answer :=
  (d.perform.run p).1.map Answer.withoutTrace

/-- **The transcript of a session**: what each directive comes to, and what there is of the
processor afterwards. -/
def Processor.transcript : Processor T → List (Event T) → List (Except Failure Answer × Essence T)
  | _, [] => []
  | p, .directive d :: rest => (d.outcome p, (d.after p).essence) :: (d.after p).transcript rest
  | p, .inspection i :: rest => (i.perform.run p).2.transcript rest

namespace Processor

variable {p q : Processor T}

/-- **Inspections leave no mark in a transcript.** -/
theorem transcript_eq_of_directives (p : Processor T) (session : List (Event T)) :
    p.transcript session = p.transcript ((directives session).map .directive) := by
  induction session generalizing p with
  | nil => rfl
  | cons e rest ih =>
    cases e with
    | directive d => exact congrArg ((d.outcome p, (d.after p).essence) :: ·) (ih (d.after p))
    | inspection i =>
      rw [transcript, state_inspection]
      exact ih p

/-! ### Side by side -/

omit [Terminal T] in
/-- Records are not of the essence. -/
theorem SameButReports.essence (h : p.SameButReports q) : p.essence = q.essence := by
  obtain ⟨⟨hregisters, hmemory, hhalted, hcycles, hconsole⟩, -, -, -, hfault⟩ := h
  rw [Essence.mk.injEq]
  exact ⟨hregisters, hmemory, hhalted, hcycles, hfault, hconsole.terminal, hconsole.stop,
    hconsole.alarm⟩

theorem SameButReports.access (h : p.SameButReports q) (a : Access) :
    ((onMachine a.perform).run p).1 = ((onMachine a.perform).run q).1 ∧
      ((onMachine a.perform).run p).2.SameButReports ((onMachine a.perform).run q).2 := by
  have hmachine : Simulates Eq (Machine.Alongside Console.SameButJournal)
      (a.perform (T := T)) (a.perform (T := T)) :=
    a.composed_perform.simulates (fun _ => rfl)
      fun _ c _ => Machine.perform_lockStep lockStep_silent c
  obtain ⟨halike, hafter⟩ := onMachine_lockStep hmachine p.untraced q.untraced h
  exact ⟨halike.eq, hafter⟩

theorem SameButReports.step (h : p.SameButReports q) :
    (Processor.step.run p).1 = (Processor.step.run q).1 ∧ p.next.SameButReports q.next := by
  -- Without their traces the two differ in the journal alone, and no step looks at a trace.
  obtain ⟨halike, hafter⟩ := step_lockStep lockStep_silent p.untraced q.untraced h
  rw [run_step_untraced, run_step_untraced] at halike hafter
  exact ⟨halike.eq, hafter⟩

omit [Terminal T] in
/-- To forget the trace of a run and to leave it out of the answer is the same. -/
theorem withoutTrace_ran (r : Except Failure (Option (List TraceEntry))) :
    (r.map Answer.ran).map Answer.withoutTrace = (forgetTrace r).map Answer.ran := by
  cases r <;> rfl

/-- **A directive does the same on both sides**, and tells the same apart from the trace. -/
theorem SameButReports.directive (h : p.SameButReports q) (d : Directive T) :
    d.outcome p = d.outcome q ∧ (d.after p).SameButReports (d.after q) := by
  cases d with
  | access a =>
    obtain ⟨houtcome, hafter⟩ := h.access a
    exact ⟨congrArg (Except.map Answer.withoutTrace) houtcome, hafter⟩
  | step =>
    obtain ⟨houtcome, hafter⟩ := h.step
    rw [Directive.after_step, Directive.after_step]
    refine ⟨?_, hafter⟩
    rw [Directive.outcome, Directive.outcome, Directive.perform, run_bind_pure, run_bind_pure,
      houtcome]
  | run allowance =>
    obtain ⟨houtcome, hafter⟩ := h.run allowance
    rw [Directive.after_run, Directive.after_run]
    refine ⟨?_, hafter⟩
    rw [Directive.outcome, Directive.outcome, Directive.perform, run_bind_pure, run_bind_pure,
      withoutTrace_ran, withoutTrace_ran, houtcome]
  | guardedRun allowance =>
    obtain ⟨houtcome, hafter⟩ := (h.guarded true).run allowance
    rw [Directive.after_guardedRun, Directive.after_guardedRun, Directive.after_run,
      Directive.after_run]
    refine ⟨?_, hafter.guarded false⟩
    rw [Directive.outcome, Directive.outcome, Directive.perform, run_bind_pure, run_bind_pure,
      withoutTrace_ran, withoutTrace_ran, run_guardedRun, run_guardedRun, houtcome]
  | requestStop =>
    exact ⟨rfl, h.onConsole fun hcd => ⟨hcd.terminal, rfl, hcd.alarm, hcd.guarded⟩⟩
  | interrupt alarm =>
    exact ⟨rfl, h.onConsole fun hcd => ⟨hcd.terminal, hcd.stop, rfl, hcd.guarded⟩⟩
  | terminal change =>
    exact ⟨rfl, h.onConsole fun hcd =>
      ⟨congrArg change hcd.terminal, hcd.stop, hcd.alarm, hcd.guarded⟩⟩
  | reset =>
    obtain ⟨⟨-, -, -, -, hconsole⟩, hlimit, -⟩ := h
    exact ⟨rfl, ⟨rfl, rfl, rfl, rfl, hconsole.terminal, rfl, hconsole.alarm, hconsole.guarded⟩,
      hlimit, rfl, rfl, rfl⟩

/-- **What is recorded does not show in a transcript.** -/
theorem SameButReports.transcript (h : p.SameButReports q) (session : List (Event T)) :
    p.transcript session = q.transcript session := by
  induction session generalizing p q with
  | nil => rfl
  | cons e rest ih =>
    cases e with
    | directive d =>
      obtain ⟨houtcome, hafter⟩ := h.directive d
      rw [Processor.transcript, Processor.transcript, houtcome, hafter.essence, ih hafter]
    | inspection i =>
      rw [Processor.transcript, Processor.transcript, state_inspection, state_inspection]
      exact ih h

/-! ### Main statement -/

/-- **Nobody who looks on makes a difference.** On the same terminal, with the same interrupt to
come and under the same limit, two processors are switched on. Whether they keep a trace, how deep
it is, and which notices their journals keep may be different. The same directives are given to
both, in the same order, and before, between and after them there may be any inspections of the
one and any of the other.

* Each directive comes to the same on both sides – to the same failure, or to the same answer apart
  from the trace – and afterwards the two have the same registers, the same memory, the same
  progress and fault, and the same terminal, with the same keys to come and the same shown.
* An inspection changes nothing at all, of whichever processor. -/
theorem observation_changes_nothing (terminal : T) (alarm : Option Alarm) (limit : Option Int)
    (journal journal' : Journal) (tracing tracing' : Bool) (depth depth' : Nat)
    (session session' : List (Event T)) (h : directives session = directives session') :
    (switchedOn terminal alarm journal limit tracing depth).transcript session =
      (switchedOn terminal alarm journal' limit tracing' depth').transcript session' ∧
    ∀ (i : Inspection) (p : Processor T), (i.perform.run p).2 = p := by
  have hstart : (switchedOn terminal alarm journal limit tracing depth).SameButReports
      (switchedOn terminal alarm journal' limit tracing' depth') :=
    ⟨⟨rfl, rfl, rfl, rfl, ⟨rfl, rfl, rfl, rfl⟩⟩, rfl, rfl, rfl, rfl⟩
  refine ⟨?_, state_inspection⟩
  -- Both sessions are cut down to their directives, which they have in common.
  rw [transcript_eq_of_directives, h, hstart.transcript, ← transcript_eq_of_directives]

/-- A look at the keyboard status register takes no key, and what is kept of a run makes no
difference to it: the program polls the keyboard and halts, traced and inspected or not. -/
theorem observation_of_polling :
    let image : Directive ScriptedTerminal :=
      .access (.loadImage "poll" [0x30, 0x00, 0xA0, 0x01, 0xF0, 0x25, 0xFE, 0x00])
    let observed : List (Event ScriptedTerminal) := [.directive image, .inspection (.cell 0xFE00),
      .directive .step, .inspection .traceText, .inspection .snapshot, .directive (.run 5)]
    let unobserved : List (Event ScriptedTerminal) :=
      [.directive image, .directive .step, .directive (.run 5)]
    directives observed = directives unobserved ∧
      (switchedOn { keys := [0x41] } none { threshold := some .debug } none true 3).transcript
          observed =
        (switchedOn { keys := [0x41] } none .silent none false 0).transcript unobserved := by
  intro image observed unobserved
  have h : directives observed = directives unobserved := rfl
  exact ⟨h, (observation_changes_nothing ({ keys := [0x41] } : ScriptedTerminal) none none
    { threshold := some .debug } .silent true false 3 0 observed unobserved h).1⟩

end Processor

end LittleComputer
