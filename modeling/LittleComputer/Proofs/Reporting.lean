import LittleComputer.Proofs.Interchange

/-!
# What is reported and what is done

The options that ask for a report – the trace and its depth, the summary, more notices – have
no say in what happens. A processor that keeps a trace goes as the same processor does without
one (`LittleComputer.Processor.run_untraced`): no step looks at the trace. And a journal is
written to and never read, so consoles that differ in their journals alone go in lock-step
(`LittleComputer.lockStep_silent`).

Put together, two requests for the same images under the same limit come to the same, apart
from the text of the report (`LittleComputer.CommandLine.matches_carryOut`).
-/

namespace LittleComputer

variable {T : Type}

/-! ### Without a trace -/

namespace Processor

/-- The processor without a trace. -/
def untraced (p : Processor T) : Processor T :=
  { p with tracing := false, trace := History.empty 0 }

/-- What is left of the result of a run when the trace is forgotten. -/
def forgetTrace (r : Except Failure (Option (List TraceEntry))) :
    Except Failure (Option (List TraceEntry)) := r.map fun answer => answer.map fun _ => []

/-- Whether a run has come to its end can be told without the trace. -/
theorem isSome_of_forgetTrace {r s : Except Failure (Option (List TraceEntry))}
    (h : forgetTrace r = forgetTrace s) :
    Alike Eq (r.map Option.isSome) (s.map Option.isSome) := by
  have hforget (r : Except Failure (Option (List TraceEntry))) :
      (forgetTrace r).map Option.isSome = r.map Option.isSome := by
    rcases r with f | _ | _ <;> rfl
  refine Alike.of_eq (fun _ => rfl) ?_
  rw [← hforget r, h, hforget s]

theorem ending_untraced (p : Processor T) :
    p.untraced.ending.map some = forgetTrace (p.ending.map some) := by
  rcases p with ⟨machine, limit, tracing, trace, _ | f⟩ <;> rfl

theorem run_boundary_untraced (p : Processor T) :
    boundary.run p.untraced = (forgetTrace (boundary.run p).1, (boundary.run p).2.untraced) := by
  rcases boundary_cases p with ⟨hr, hb⟩ | ⟨hr, hs, hb⟩ | ⟨hr, hs, hb⟩
  · rw [hb, run_boundary_of_halted (p := p.untraced) hr, ending_untraced]
  · rw [hb, run_boundary_of_stop (p := p.untraced) hr hs]
    rfl
  · rw [hb, run_boundary_of_running (p := p.untraced) hr hs]
    rfl

variable [Terminal T]

/-- **No step looks at the trace.** -/
theorem run_step_untraced (p : Processor T) :
    step.run p.untraced = ((step.run p).1, p.next.untraced) := by
  rcases step_cases p with ⟨hr, hs⟩ | ⟨n, hr, hn, hs⟩ | ⟨f, m, hr, hn, ha, hs⟩ |
    ⟨a, w, m, hr, hn, ha, hs⟩ <;> rw [next, hs]
  · exact run_step_of_halted (p := p.untraced) hr
  · exact run_step_of_limit (p := p.untraced) hr hn
  · exact run_step_of_error (p := p.untraced) hr hn ha
  · exact run_step_of_ok (p := p.untraced) hr hn ha

/-- **A run without a trace is the same run**, and it returns no trace. -/
theorem run_untraced (allowance : Nat) (p : Processor T) :
    (run allowance).run p.untraced =
      (forgetTrace ((run allowance).run p).1, ((run allowance).run p).2.untraced) := by
  induction allowance generalizing p with
  | zero => exact run_boundary_untraced p
  | succ allowance ih =>
    rcases boundary_cases p with ⟨hr, -⟩ | ⟨hr, hs, -⟩ | ⟨hr, hs, -⟩
    · rw [run_of_halted hr, run_of_halted (p := p.untraced) hr, ending_untraced]
    · rw [run_of_stop hr hs, run_of_stop (p := p.untraced) hr hs]
      rfl
    · rw [run_succ_of_running hr hs, run_succ_of_running (p := p.untraced) hr hs,
        run_step_untraced]
      rcases hstep : step.run p with ⟨f | c, q⟩
      · simp only [next, hstep]
        rfl
      · simp only [next, hstep]
        exact ih q

end Processor

/-! ### Without a journal -/

namespace Console

/-- Consoles that differ in their journals at most. -/
structure SameButJournal (c d : Console T) : Prop where
  terminal : c.terminal = d.terminal
  stop : c.stop = d.stop
  alarm : c.alarm = d.alarm
  guarded : c.guarded = d.guarded

variable {c d : Console T}

theorem SameButJournal.strike (h : c.SameButJournal d) (call : Call) :
    (c.strike call).1 = (d.strike call).1 ∧
      (c.strike call).2.SameButJournal (d.strike call).2 := by
  obtain ⟨terminal, stop, alarm, guarded, journal⟩ := c
  obtain ⟨_, _, _, _, journal'⟩ := d
  obtain ⟨rfl, rfl, rfl, rfl⟩ := h
  unfold Console.strike
  dsimp only
  split
  · exact ⟨rfl, rfl, rfl, rfl, rfl⟩
  · split
    · exact ⟨rfl, rfl, rfl, rfl, rfl⟩
    · split
      · exact ⟨rfl, rfl, rfl, rfl, rfl⟩
      · split <;> exact ⟨rfl, rfl, rfl, rfl, rfl⟩

theorem SameButJournal.settle (h : c.SameButJournal d) (terminal : T)
    (notices notices' : List Notice) :
    (c.settle terminal notices).SameButJournal (d.settle terminal notices') :=
  ⟨rfl, h.stop, h.alarm, h.guarded⟩

end Console

/-- **Nothing that a console does hangs on its journal.** -/
theorem lockStep_silent [Terminal T] :
    LockStep (S := T) (T := T) Eq Console.SameButJournal where
  same := fun _ => rfl
  keysLeft := fun h => congrArg Terminal.keysLeft h.terminal
  poll := by
    intro c d h
    obtain ⟨-, hstrike⟩ := h.strike .poll
    rw [c.poll_eq, d.poll_eq, h.terminal]
    exact ⟨Alike.of_eq (fun _ => rfl) rfl, { hstrike with terminal := rfl }⟩
  read := by
    intro c d h
    obtain ⟨hstruck, hstrike⟩ := h.strike .read
    rw [Console.read, Console.read]
    rcases hc : c.strike .read with ⟨struck, c'⟩
    rcases hd : d.strike .read with ⟨struck', d'⟩
    rw [hc, hd] at hstruck hstrike
    obtain rfl : struck = struck' := hstruck
    dsimp only at hstrike ⊢
    rw [hstrike.terminal]
    split
    · exact ⟨.error rfl, hstrike.settle _ _ _⟩
    · exact ⟨Alike.of_eq (fun _ => rfl) rfl, hstrike.settle _ _ _⟩
  write := by
    intro c d h b
    obtain ⟨-, hstrike⟩ := h.strike .write
    rw [c.write_eq, d.write_eq, h.terminal]
    exact { hstrike with terminal := rfl }
  flush := by
    intro c d h
    rw [Console.flush, Console.flush, h.terminal]
    exact h.settle _ _ _
  note := fun h _ => ⟨h.terminal, h.stop, h.alarm, h.guarded⟩

/-! ### Requests -/

namespace Processor

/-- Processors that differ in their traces and journals at most, and in whether and how much
of them they keep. -/
def SameButReports (p q : Processor T) : Prop :=
  Alongside Console.SameButJournal p.untraced q.untraced

variable {p q : Processor T}

theorem SameButReports.onConsole (h : p.SameButReports q) {f g : Console T → Console T}
    (hfg : ∀ {c d : Console T}, c.SameButJournal d → (f c).SameButJournal (g d)) :
    (p.onConsole f).SameButReports (q.onConsole g) := Alongside.onConsole h hfg

theorem SameButReports.guarded (h : p.SameButReports q) (on : Bool) :
    (p.guarded on).SameButReports (q.guarded on) :=
  h.onConsole fun hcd => ⟨hcd.terminal, hcd.stop, hcd.alarm, rfl⟩

variable [Terminal T]

/-- **Runs go the same way whatever is traced**, if the consoles go in lock-step and have been
asked to stop on both sides or on neither. -/
theorem untraced_lockStep {R : Console T → Console T → Prop} (h : LockStep Eq R)
    (hstop : ∀ {c d}, R c d → c.stop = d.stop) (hpq : Alongside R p.untraced q.untraced)
    (allowance : Nat) :
    forgetTrace ((run allowance).run p).1 = forgetTrace ((run allowance).run q).1 ∧
      Alongside R ((run allowance).run p).2.untraced ((run allowance).run q).2.untraced := by
  have hrun := run_lockStep h hpq
    (fun k _ => hstop (iterate_lockStep h hpq k).machine.console) allowance
  rw [run_untraced, run_untraced] at hrun
  exact ⟨hrun.1.eq, hrun.2⟩

theorem SameButReports.run (h : p.SameButReports q) (allowance : Nat) :
    forgetTrace ((Processor.run allowance).run p).1 =
        forgetTrace ((Processor.run allowance).run q).1 ∧
      ((Processor.run allowance).run p).2.SameButReports ((Processor.run allowance).run q).2 :=
  untraced_lockStep lockStep_silent Console.SameButJournal.stop h allowance

theorem SameButReports.runGuarded (h : p.SameButReports q) (allowance : Nat) :
    forgetTrace ((CommandLine.runGuarded allowance).run p).1 =
        forgetTrace ((CommandLine.runGuarded allowance).run q).1 ∧
      ((CommandLine.runGuarded allowance).run p).2.SameButReports
        ((CommandLine.runGuarded allowance).run q).2 := by
  have henter : (p.onConsole Console.enter).SameButReports (q.onConsole Console.enter) := by
    refine h.onConsole fun {c d} hcd => ?_
    rw [Console.enter, Console.enter, hcd.terminal]
    exact hcd.settle _ _ _
  obtain ⟨houtcome, hrun⟩ := (henter.guarded true).run allowance
  refine ⟨houtcome, (hrun.guarded false).onConsole fun {c d} hcd => ?_⟩
  rw [Console.leave, Console.leave, hcd.terminal]
  exact hcd.settle _ _ _

end Processor

namespace CommandLine

/-- **Replies that differ in the report at most**: the same exit status, or the same failure,
with a machine that is the same but for the journal. -/
inductive Reply.Matches : Reply T → Reply T → Prop
  | finished {status : ExitStatus} {report report' : String} {p q : Processor T}
    (h : p.SameButReports q) : Matches (.finished status report p) (.finished status report' q)
  | failed (f : Failure) : Matches (.failed f) (.failed f)
  | running : Matches .running .running

theorem matches_conclude (r r' : Request) (a : Except Failure Unit) {p q : Processor T}
    (h : p.SameButReports q) : (conclude r a p).Matches (conclude r' a q) := by
  cases a with
  | ok => exact .finished h
  | error f =>
    simp only [conclude]
    split
    · exact .finished h
    · rcases unexplained_cases f with hreply | hreply <;> rw [hreply]
      · exact .running
      · exact .failed f

theorem matches_loadFailure (f : Failure) {p q : Processor T} (h : p.SameButReports q) :
    (loadFailure f p).Matches (loadFailure f q) := by
  cases f with
  | imageLoad path reason => exact .finished h
  | _ => exact .failed _

/-- **Requests for the same images under the same limit come to the same.** -/
theorem matches_carryOut [Terminal T] {r r' : Request} (himages : r.images = r'.images)
    (hlimit : r.limit = r'.limit) (read : FileReader) (terminal : T) (alarm : Option Alarm)
    (allowance : Nat) :
    (carryOut r read terminal alarm allowance).Matches
      (carryOut r' read terminal alarm allowance) := by
  have hstart : (powerOn r terminal alarm).SameButReports (powerOn r' terminal alarm) :=
    ⟨⟨rfl, rfl, rfl, rfl, ⟨rfl, rfl, rfl, rfl⟩⟩, hlimit, rfl, rfl, rfl⟩
  have hload : ∀ path, Simulates Eq Processor.SameButReports
      (Processor.onMachine (Machine.loadFile (T := T) read path))
      (Processor.onMachine (Machine.loadFile (T := T) read path)) := fun path p q h =>
    Processor.onMachine_lockStep (Machine.loading_lockStep (fun _ => rfl) lockStep_silent.note
      (Machine.composed_loadFile read path)) p.untraced q.untraced h
  rcases carryOut_cases himages read alarm allowance hstart hload fun hpq =>
    (hpq.runGuarded allowance).imp_left Processor.isSome_of_forgetTrace with
    ⟨f, p, q, hpq, hp, hq⟩ | ⟨hp, hq⟩ | ⟨a, b, p, q, hab, hpq, hp, hq⟩ <;> rw [hp, hq]
  · exact matches_loadFailure f hpq
  · exact .running
  · rw [hab.eq]
    exact matches_conclude r r' b hpq

end CommandLine

end LittleComputer
