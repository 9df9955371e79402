import LittleComputer.Proofs.Interchange
import LittleComputer.Proofs.OutputStream

/-!
# A failing output changes nothing

A program cannot tell whether what it shows arrives. Put two machines with the same program side by
side, one on an output that may fail at any write, the other on one that takes every write. Output
is passed on in many places: by a service that shows something, before a read that waits for a key,
when the terminal is left. None of them may let the failure through to the machine, to the order in
which keys are taken, or to the outcome.

The relation that is kept between the two terminals is `LittleComputer.HostTerminal.Trails`. Apart
from the output they are the same. As for the output, they agree to the last byte up to the failure;
from there on the one has nothing in its buffer, what it has delivered is a first part of what the
other has, and the journal has one notice besides, which was made when the write failed. Every call
keeps the relation, so the terminals go abreast (`LittleComputer.abreast_trails`), and everything
that is known of machines in lock-step holds of the two.

The main statement is `LittleComputer.failing_output_changes_nothing`.
-/

namespace LittleComputer

/-! ### One notice more -/

namespace Journal

/-- A journal that is the same as another but for one notice, made at some time and kept if it
reaches the threshold. -/
structure HasBesides (j k : Journal) (n : Notice) : Prop where
  threshold : j.threshold = k.threshold
  entries : ∃ before after, k.entries = before ++ after ∧
    j.entries = before ++ (if k.keeps n then [n] else []) ++ after

variable {j k : Journal} {n : Notice}

theorem hasBesides_record (k : Journal) (n : Notice) : (k.record n).HasBesides k n :=
  ⟨k.threshold_record n, k.entries, [], (List.append_nil _).symm,
    (k.entries_record n).trans (List.append_nil _).symm⟩

theorem HasBesides.record (h : j.HasBesides k n) (m : Notice) :
    (j.record m).HasBesides (k.record m) n := by
  obtain ⟨before, after, hk, hj⟩ := h.entries
  have hkeeps : j.keeps m = k.keeps m := by rw [keeps, keeps, h.threshold]
  refine ⟨?_, before, after ++ (if k.keeps m then [m] else []), ?_, ?_⟩
  · rw [threshold_record, threshold_record, h.threshold]
  · rw [entries_record, hk, List.append_assoc]
  · rw [entries_record, hj, hkeeps, keeps_record, List.append_assoc _ after]

theorem HasBesides.recordAll (h : j.HasBesides k n) (ns : List Notice) :
    (j.recordAll ns).HasBesides (k.recordAll ns) n := by
  induction ns generalizing j k with
  | nil => exact h
  | cons m rest ih => exact ih (h.record m)

end Journal

/-! ### The two terminals beside each other -/

namespace HostTerminal

/-- What has become of the output of a terminal, compared with one whose output has not failed:
nothing has happened to it; or it has failed, and the journal says so. -/
inductive Display (t : HostTerminal) (j : Journal) (u : HostTerminal) : Journal → Prop
  | intact (hbroken : t.broken = false) (hbuffer : t.buffer = u.buffer)
    (hdelivered : t.host.delivered = u.host.delivered) : Display t j u j
  | failed {k : Journal} {reason : String} (hbroken : t.broken = true) (hbuffer : t.buffer = [])
    (hpart : t.host.output <+: u.host.output) (hnoted : j.HasBesides k (.outputFailed reason)) :
    Display t j u k

/-- **A terminal trails another** whose output takes every write: but for the output they are the
same, and what the one has put out is what the other has, up to a failure. -/
structure Trails (t : HostTerminal) (j : Journal) (u : HostTerminal) (k : Journal) : Prop where
  input : SameButOutput t u
  isWilling : u.host.IsWilling
  intact : u.broken = false
  display : Display t j u k

variable {t u t' u' : HostTerminal} {j k : Journal}

theorem Display.output (h : Display t j u k) : t.host.output <+: u.host.output := by
  cases h with
  | intact _ _ hdelivered =>
    rw [Host.output, hdelivered]
    exact List.prefix_rfl
  | failed _ _ hpart => exact hpart

theorem Display.of_sameOutput (h : Display t j u k) (ht : SameOutput t t') (hu : SameOutput u u') :
    Display t' j u' k := by
  cases h with
  | intact hbroken hbuffer hdelivered =>
    refine .intact (ht.broken.trans hbroken) ?_ ?_
    · rw [ht.buffer, hu.buffer, hbuffer]
    · rw [ht.delivered, hu.delivered, hdelivered]
  | failed hbroken hbuffer hpart hnoted =>
    refine .failed (ht.broken.trans hbroken) (ht.buffer.trans hbuffer) ?_ hnoted
    rw [ht.output, hu.output]
    exact hpart

/-- What concerns the keyboard alone does not make a difference to the outputs. -/
theorem Trails.of_sameOutput (h : Trails t j u k) (hinput : SameButOutput t' u')
    (ht : SameOutput t t') (hu : SameOutput u u') : Trails t' j u' k := by
  refine ⟨hinput, fun n => ?_, hu.broken.trans h.intact, h.display.of_sameOutput ht hu⟩
  rw [hu.outcome]
  exact h.isWilling n

theorem Trails.note (h : Trails t j u k) (n : Notice) : Trails t (j.record n) u (k.record n) := by
  refine { h with display := ?_ }
  cases h.display with
  | intact hbroken hbuffer hdelivered => exact .intact hbroken hbuffer hdelivered
  | failed hbroken hbuffer hpart hnoted => exact .failed hbroken hbuffer hpart (hnoted.record n)

theorem Trails.recordAll (h : Trails t j u k) (ns : List Notice) :
    Trails t (j.recordAll ns) u (k.recordAll ns) := by
  induction ns generalizing j k with
  | nil => exact h
  | cons n rest ih => exact ih (h.note n)

theorem Trails.write (h : Trails t j u k) (b : Byte) : Trails (t.write b) j (u.write b) k := by
  have hu : u.write b = { u with buffer := b :: u.buffer } := by
    rw [HostTerminal.write, if_neg (by rw [h.intact]; exact Bool.false_ne_true)]
  refine ⟨h.input.write b, ?_, ?_, ?_⟩ <;> rw [hu]
  · exact h.isWilling
  · exact h.intact
  · cases h.display with
    | intact hbroken hbuffer hdelivered =>
      rw [HostTerminal.write, if_neg (by rw [hbroken]; exact Bool.false_ne_true)]
      exact .intact hbroken (congrArg (b :: ·) hbuffer) hdelivered
    | failed hbroken hbuffer hpart hnoted =>
      rw [HostTerminal.write, if_pos hbroken]
      exact .failed hbroken hbuffer hpart hnoted

/-- An output that takes every write has taken the whole buffer after a flush. -/
theorem flush_of_isWilling (h : u.host.IsWilling) :
    ∃ writes, u.flush = ({ u with
      host := { u.host with delivered := u.buffer ++ u.host.delivered, writes }
      buffer := [] }, []) := by
  have hflush := u.flushes_flush
  generalize u.flush = r at hflush ⊢
  cases hflush with
  | @all writes => exact ⟨writes, rfl⟩
  | @part taken lost last reason _ _ hfails =>
    obtain ⟨more, hmore⟩ := h last
    cases hmore.symm.trans hfails

/-- **When the buffers are passed on**, the one output may fail. Then it falls behind, and the
journal gets the notice that it has besides. -/
theorem Trails.flush (h : Trails t j u k) :
    Trails t.flush.1 (j.recordAll t.flush.2) u.flush.1 (k.recordAll u.flush.2) := by
  have hinput := h.input.flush
  obtain ⟨writes, hu⟩ := flush_of_isWilling h.isWilling
  rw [hu] at hinput ⊢
  refine ⟨hinput, h.isWilling, h.intact, ?_⟩
  cases h.display with
  | failed hbroken hbuffer hpart hnoted =>
    rw [flush_of_nil hbuffer]
    refine .failed hbroken hbuffer (hpart.trans ?_) hnoted
    dsimp only [Host.output]
    rw [List.reverse_append]
    exact List.prefix_append _ _
  | intact hbroken hbuffer hdelivered =>
    have hflush := t.flushes_flush
    generalize t.flush = r at hflush ⊢
    cases hflush with
    | all => exact .intact hbroken rfl (congrArg₂ (· ++ ·) hbuffer hdelivered)
    | @part taken lost last reason hbytes =>
      refine .failed rfl rfl ?_ (j.hasBesides_record (.outputFailed reason))
      dsimp only [Host.output]
      rw [List.reverse_append, List.reverse_append, List.reverse_reverse, ← hbuffer, ← hbytes,
        ← hdelivered, ← List.append_assoc]
      exact List.prefix_append _ _

/-- **A read answers the same on both sides**, and what was shown before it is passed on. -/
theorem Trails.read (h : Trails t j u k) :
    t.read.1 = u.read.1 ∧
      Trails t.read.2.1 (j.recordAll t.read.2.2) u.read.2.1 (k.recordAll u.read.2.2) := by
  obtain ⟨hanswer, hinput⟩ := h.input.read
  refine ⟨hanswer, ?_⟩
  rcases h.input.waiting with ⟨ht, hu⟩ | ⟨ht, hu⟩ <;>
    rcases t.read_cases with ⟨ht', hts, htn⟩ | ⟨ht', htr⟩ <;> cases ht.symm.trans ht' <;>
    rcases u.read_cases with ⟨hu', hus, hun⟩ | ⟨hu', hur⟩ <;> cases hu.symm.trans hu'
  · rw [htn, hun]
    exact h.of_sameOutput hinput hts hus
  · rw [htr, hur] at hinput ⊢
    exact h.flush.of_sameOutput hinput (sameOutput_take _) (sameOutput_take _)

theorem Trails.enter (h : Trails t j u k) :
    Trails t.enter.1 (j.recordAll t.enter.2) u.enter.1 (k.recordAll u.enter.2) := by
  obtain ⟨hnotices, hinput⟩ := h.input.enter
  rw [hnotices]
  exact (h.recordAll u.enter.2).of_sameOutput hinput t.sameOutput_enter.1 u.sameOutput_enter.1

theorem Trails.leave (h : Trails t j u k) :
    Trails t.leave.1 (j.recordAll t.leave.2) u.leave.1 (k.recordAll u.leave.2) := by
  obtain ⟨hinput, ns, ht, hu⟩ := h.input.leave
  rw [ht, hu, Journal.recordAll_append, Journal.recordAll_append]
  exact (h.flush.recordAll ns).of_sameOutput hinput t.sameOutput_leave.1 u.sameOutput_leave.1

end HostTerminal

open HostTerminal in
/-- **A terminal whose output may fail goes abreast of one whose output does not.** -/
theorem abreast_trails : Abreast Eq Trails where
  same := fun _ => rfl
  keysLeft := by
    intro t j u k h
    change t.pending.toList.length + t.host.input.available =
      u.pending.toList.length + u.host.input.available
    rw [h.input.pending, h.input.input]
  poll := by
    intro t j u k h
    obtain ⟨hanswer, hinput⟩ := h.input.poll
    exact ⟨Alike.of_eq (fun _ => rfl) hanswer,
      h.of_sameOutput hinput t.sameOutput_poll u.sameOutput_poll⟩
  waiting := by
    intro t j u k h
    exact h.input.waiting.imp_right fun ⟨ht, hu⟩ => ⟨_, _, _, _, ht, hu, h.flush⟩
  read := fun h => ⟨Alike.of_eq (fun _ => rfl) h.read.1, h.read.2⟩
  write := Trails.write
  flush := Trails.flush
  note := Trails.note

/-! ### What differs in the end -/

namespace Console

/-- **Consoles that differ in what has been delivered**, of which the one has a first part of what
the other has, and in at most one notice, that the output has failed. -/
structure SameButDelivered (c d : Console HostTerminal) : Prop where
  input : HostTerminal.SameButOutput c.terminal d.terminal
  stop : c.stop = d.stop
  alarm : c.alarm = d.alarm
  guarded : c.guarded = d.guarded
  output : c.terminal.host.output <+: d.terminal.host.output
  journal : c.journal.entries = d.journal.entries ∨
    ∃ before after reason, d.journal.entries = before ++ after ∧
      c.journal.entries = before ++ .outputFailed reason :: after

theorem Alongside.sameButDelivered {c d : Console HostTerminal}
    (h : c.Alongside HostTerminal.Trails d) : c.SameButDelivered d := by
  have hdisplay := h.shown.display
  refine ⟨h.shown.input, h.stop, h.alarm, h.guarded, hdisplay.output, ?_⟩
  generalize d.journal = k at hdisplay ⊢
  cases hdisplay with
  | intact => exact Or.inl rfl
  | failed _ _ _ hnoted =>
    obtain ⟨before, after, hk, hj⟩ := hnoted.entries
    split at hj
    · rw [List.append_assoc] at hj
      exact Or.inr ⟨before, after, _, hk, hj⟩
    · rw [List.append_nil, ← hk] at hj
      exact Or.inl hj

end Console

namespace CommandLine

/-- A report that is the same as another, or has a line besides that warns of a failed write. -/
def WarnsBesides (report report' : String) : Prop :=
  report = report' ∨ ∃ before after reason, report' = before ++ after ∧
    report = before ++ ((Notice.outputFailed reason).line ++ "\n") ++ after

theorem WarnsBesides.append {report report' : String} (h : WarnsBesides report report')
    (rest : String) : WarnsBesides (report ++ rest) (report' ++ rest) := by
  rcases h with rfl | ⟨before, after, reason, rfl, rfl⟩
  · exact Or.inl rfl
  · exact Or.inr ⟨before, after ++ rest, reason, String.append_assoc, String.append_assoc⟩

/-- **Replies that differ in what was delivered**, and by at most one warning in the report. -/
inductive Reply.SameButDelivered : Reply HostTerminal → Reply HostTerminal → Prop
  | refused (e : UsageError) : SameButDelivered (.refused e) (.refused e)
  | help : SameButDelivered .help .help
  | finished {status : ExitStatus} {report report' : String} {p q : Processor HostTerminal}
    (hwarns : WarnsBesides report report')
    (hpq : Processor.Alongside Console.SameButDelivered p q) :
    SameButDelivered (.finished status report p) (.finished status report' q)
  | failed (f : Failure) : SameButDelivered (.failed f) (.failed f)
  | running : SameButDelivered .running .running

variable {p q : Processor HostTerminal}

theorem textOfLines_append (lines lines' : List String) :
    Processor.textOfLines (lines ++ lines') =
      Processor.textOfLines lines ++ Processor.textOfLines lines' := by
  rw [Processor.textOfLines, List.map_append, String.join_append]
  rfl

theorem warnsBesides_noticeText (h : Processor.Alongside Console.SameButDelivered p q) :
    WarnsBesides (noticeText p) (noticeText q) := by
  unfold noticeText
  rcases h.machine.console.journal with hsame | ⟨before, after, reason, hq, hp⟩
  · exact Or.inl (by rw [hsame])
  · refine Or.inr ⟨Processor.textOfLines (before.map Notice.line),
      Processor.textOfLines (after.map Notice.line), reason, ?_, ?_⟩
    · rw [hq, List.map_append, textOfLines_append]
    · rw [hp, List.map_append, textOfLines_append, String.append_assoc]
      exact congrArg (_ ++ ·) (textOfLines_append [_] _)

theorem closingText_of_alongside {R : Console HostTerminal → Console HostTerminal → Prop}
    (r : Request) (h : Processor.Alongside R p q) : closingText r p = closingText r q := by
  have hsummary : p.summaryLines = q.summaryLines := by
    rw [Processor.summaryLines, Processor.summaryLines, h.machine.registers, h.machine.cycles,
      h.machine.halted]
  rw [closingText, closingText, Processor.traceText, Processor.traceText, Processor.traceLines,
    Processor.traceLines, Processor.summaryText, Processor.summaryText, hsummary, h.trace]

theorem conclude_sameButDelivered (r : Request) (a : Except Failure Unit)
    (h : Processor.Alongside Console.SameButDelivered p q) :
    (conclude r a p).SameButDelivered (conclude r a q) := by
  have hnotices := warnsBesides_noticeText h
  cases a with
  | ok =>
    rw [conclude, conclude, closingText_of_alongside r h]
    exact .finished (hnotices.append _) h
  | error f =>
    simp only [conclude, closingText_of_alongside r h]
    split
    · exact .finished ((hnotices.append _).append _) h
    · rcases unexplained_cases f with hreply | hreply <;> rw [hreply]
      · exact .running
      · exact .failed f

theorem loadFailure_sameButDelivered (f : Failure)
    (h : Processor.Alongside Console.SameButDelivered p q) :
    (loadFailure f p).SameButDelivered (loadFailure f q) := by
  cases f with
  | imageLoad path reason =>
    rw [loadFailure, loadFailure]
    simp only [String.append_assoc]
    exact .finished ((warnsBesides_noticeText h).append _) h
  | _ => exact .failed _

end CommandLine

/-! ### Main statement -/

open CommandLine Processor in
/-- **A failing output changes nothing but what is delivered.** Let the same program be in the
memory of two machines on a host. The output of the one treats each write as it likes; that of the
other takes `more n` bytes and one in its `n`-th write. For the rest the hosts are the same.

* After any number of steps the two differ in nothing but what has been delivered, of which the one
  has a first part of what the other has, and in at most one notice; and the next step returns the
  same, or fails with the same failure.
* The same holds of a run, and of a guarded run with the terminal prepared before it and left after
  it.
* The program with its command line ends with the same status, and its report has at most one line
  besides, which warns of the failed write. -/
theorem failing_output_changes_nothing (program : Memory) (host : Host) (more : Nat → Nat)
    (alarm : Option Alarm) (guarded : Bool) (journal : Journal) (limit : Option Int)
    (tracing : Bool) (depth : Nat) :
    let intact : Host := { host with outcome := fun n => .accepts (more n) }
    let p := launch program { terminal := ({ host } : HostTerminal), alarm, guarded, journal }
      limit tracing depth
    let q := launch program
      { terminal := ({ host := intact } : HostTerminal), alarm, guarded, journal }
      limit tracing depth
    (∀ k, Alongside Console.SameButDelivered (next^[k] p) (next^[k] q) ∧
      (step.run (next^[k] p)).1 = (step.run (next^[k] q)).1) ∧
    (∀ allowance,
      (((run allowance).run p).1 = ((run allowance).run q).1 ∧
        Alongside Console.SameButDelivered ((run allowance).run p).2 ((run allowance).run q).2) ∧
      ((runGuarded allowance).run p).1 = ((runGuarded allowance).run q).1 ∧
        Alongside Console.SameButDelivered ((runGuarded allowance).run p).2
          ((runGuarded allowance).run q).2) ∧
    ∀ arguments read allowance,
      (respond arguments read ({ host } : HostTerminal) alarm allowance).SameButDelivered
        (respond arguments read ({ host := intact } : HostTerminal) alarm allowance) := by
  intro intact p q
  have hterminal : ∀ j, HostTerminal.Trails { host } j { host := intact } j := fun j =>
    ⟨⟨⟨rfl, rfl, rfl, rfl⟩, rfl⟩, fun n => ⟨more n, rfl⟩, rfl, .intact rfl rfl rfl⟩
  have hlock : LockStep Eq (Console.Alongside HostTerminal.Trails) := abreast_trails.lockStep
  have hdelivered : ∀ {p q}, Alongside (Console.Alongside HostTerminal.Trails) p q →
      Alongside Console.SameButDelivered p q := fun h =>
    h.mono Console.Alongside.sameButDelivered
  have hguarded : ∀ {p q} allowance, Alongside (Console.Alongside HostTerminal.Trails) p q →
      Alike Eq ((runGuarded allowance).run p).1 ((runGuarded allowance).run q).1 ∧
        Alongside (Console.Alongside HostTerminal.Trails) ((runGuarded allowance).run p).2
          ((runGuarded allowance).run q).2 := fun allowance hpq =>
    runGuarded_simulates hlock (fun hcd => hcd.stop) (fun hcd => hcd.settle hcd.shown.enter)
      Console.Alongside.routed (fun hcd => hcd.settle hcd.shown.leave) hpq allowance
  have hstart : Alongside (Console.Alongside HostTerminal.Trails) p q :=
    ⟨⟨rfl, rfl, rfl, rfl, hterminal journal, rfl, rfl, rfl⟩, rfl, rfl, rfl, rfl⟩
  refine ⟨fun k => ?_, fun allowance => ⟨?_, ?_⟩, fun arguments read allowance => ?_⟩
  · have hk := iterate_lockStep hlock hstart k
    exact ⟨hdelivered hk, (step_lockStep hlock _ _ hk).1.eq⟩
  · obtain ⟨halike, hend⟩ := run_lockStep hlock hstart
      (fun k _ => (iterate_lockStep hlock hstart k).machine.console.stop) allowance
    exact ⟨halike.eq, hdelivered hend⟩
  · obtain ⟨halike, hend⟩ := hguarded allowance hstart
    exact ⟨halike.eq, hdelivered hend⟩
  · unfold respond
    cases request arguments with
    | error refusal =>
      cases refusal with
      | help => exact .help
      | usage e => exact .refused e
      | misuse m => exact .failed (.misuse m)
    | ok r =>
      have hpower : Alongside (Console.Alongside HostTerminal.Trails)
          (powerOn r ({ host } : HostTerminal) alarm)
          (powerOn r ({ host := intact } : HostTerminal) alarm) :=
        ⟨⟨rfl, rfl, rfl, rfl, hterminal _, rfl, rfl, rfl⟩, rfl, rfl, rfl, rfl⟩
      have hload (path : String) :
          Simulates Eq (Alongside (Console.Alongside HostTerminal.Trails))
            (onMachine (Machine.loadFile read path)) (onMachine (Machine.loadFile read path)) :=
        onMachine_lockStep (Machine.loading_lockStep (fun _ => rfl) hlock.note
          (Machine.composed_loadFile read path))
      rcases carryOut_cases rfl read alarm allowance hpower hload fun hpq =>
        (hguarded allowance hpq).imp_left fun h => h.map _ with
        ⟨f, p, q, hpq, hp, hq⟩ | ⟨hp, hq⟩ | ⟨a, b, p, q, hab, hpq, hp, hq⟩ <;>
        dsimp only <;> rw [hp, hq]
      · exact loadFailure_sameButDelivered f (hdelivered hpq)
      · exact .running
      · rw [hab.eq]
        exact conclude_sameButDelivered r b (hdelivered hpq)

end LittleComputer
