import LittleComputer.Proofs.CycleLimit
import LittleComputer.Proofs.Simulation

/-!
# When an interrupt takes effect

An interrupt at a poll or at a write leaves a request to stop and nothing else, and the
machine looks for one only between two instructions. So the instruction that the interrupt
falls into is carried out as if nothing had happened, and the run ends after it.

Which instruction that is, is a matter of the run without the interrupt: of how many calls of
the terminal have been made before an instruction, and of how many after it. To count them the
terminal is put into a `LittleComputer.Tally`, which passes every call on. A machine on a
tally goes in lock-step with the machine it was made of
(`LittleComputer.Console.Counted`), and so does a guarded machine to which an interrupt comes
at the `n`-th call (`LittleComputer.Console.Awaits`): the interrupt still to come is at the
call that is missing to the `n`-th, and once there were `n` calls a stop is asked for. The
second of these relations is all that has to be known of interrupts here.

The main statement is `LittleComputer.Processor.interrupt_waits_for_boundary`.
-/

namespace LittleComputer

variable {T : Type} [Terminal T]

/-! ### Counting calls -/

/-- A terminal with the number of its calls. -/
structure Tally (T : Type) where
  /-- The terminal. -/
  terminal : T
  /-- The number of calls of each kind. -/
  count : Call → Nat := fun _ => 0

namespace Tally

/-- One more call, which has left the terminal as it is given. -/
def after (t : Tally T) (call : Call) (terminal : T) : Tally T where
  terminal := terminal
  count k := if k = call then t.count k + 1 else t.count k

instance : Terminal (Tally T) where
  poll t := ((Terminal.poll t.terminal).1, t.after .poll (Terminal.poll t.terminal).2)
  read t :=
    ((Terminal.read t.terminal).1, t.after .read (Terminal.read t.terminal).2.1,
      (Terminal.read t.terminal).2.2)
  waiting t := (Terminal.waiting t.terminal).map fun (u, notices) =>
    ({ t with terminal := u }, notices)
  write t b := t.after .write (Terminal.write t.terminal b)
  flush t :=
    ({ t with terminal := (Terminal.flush t.terminal).1 }, (Terminal.flush t.terminal).2)
  enter t :=
    ({ t with terminal := (Terminal.enter t.terminal).1 }, (Terminal.enter t.terminal).2)
  leave t :=
    ({ t with terminal := (Terminal.leave t.terminal).1 }, (Terminal.leave t.terminal).2)
  keysLeft t := Terminal.keysLeft t.terminal

omit [Terminal T] in
theorem count_after (t : Tally T) (call k : Call) (terminal : T) :
    (t.after call terminal).count k = if k = call then t.count k + 1 else t.count k := rfl

omit [Terminal T] in
theorem count_le_after (t : Tally T) (call k : Call) (terminal : T) :
    t.count k ≤ (t.after call terminal).count k := by
  rw [count_after]
  split
  · exact Nat.le_succ _
  · exact Nat.le_refl _

end Tally

namespace Console

/-- The console with its calls counted. -/
def tallied (c : Console T) : Console (Tally T) :=
  { terminal := { terminal := c.terminal }, stop := c.stop, guarded := c.guarded,
    journal := c.journal }

/-- **A console beside its tally**, with interrupts routed to neither, when there were at
least `least` calls of some kind. -/
structure Counted (call : Call) (least : Nat) (c : Console T) (d : Console (Tally T)) : Prop where
  terminal : c.terminal = d.terminal.terminal
  journal : c.journal = d.journal
  stop : c.stop = d.stop
  unguarded : c.guarded = false
  unguarded' : d.guarded = false
  least : least ≤ d.terminal.count call

/-- **A console to which an interrupt comes at the `n`-th call beside a tally of calls**. As
long as there were fewer, the interrupt comes when as many more are made as are missing, and
no stop was asked for; afterwards there is no interrupt to come, and a stop is asked for. -/
structure Awaits (call : Call) (n : Nat) (c : Console T) (d : Console (Tally T)) : Prop where
  terminal : c.terminal = d.terminal.terminal
  journal : c.journal = d.journal
  guarded : c.guarded = true
  unguarded : d.guarded = false
  alarm : c.alarm = if d.terminal.count call < n then
    some ⟨call, n - d.terminal.count call⟩ else none
  stop : c.stop = decide (n ≤ d.terminal.count call)

variable {call : Call} {n : Nat} {c : Console T} {d : Console (Tally T)}

omit [Terminal T] in
theorem Awaits.spares (h : c.Awaits call n d) {k : Call} (hk : k ≠ call) : c.Spares k := by
  intro _ i ha
  rw [h.alarm] at ha
  split at ha
  · exact hk (congrArg Alarm.on (Option.some.inj ha)).symm
  · cases ha

omit [Terminal T] in
/-- **One more call counts the interrupt down**, or it happens. -/
theorem Awaits.strike (h : c.Awaits call n d) (k : Call) (terminal : T) :
    Awaits call n { (c.strike k).2 with terminal }
      { d with terminal := d.terminal.after k terminal } := by
  have hspares : k ≠ call → c.Spares k := h.spares
  obtain ⟨-, hjournal, hguarded, hunguarded, halarm, hstop⟩ := h
  by_cases hk : k = call
  · subst hk
    have hcount : (d.terminal.after k terminal).count k = d.terminal.count k + 1 := if_pos rfl
    rcases hm : n - d.terminal.count k with _ | _ | i
    · -- There were `n` calls before, and the interrupt is over.
      rw [if_neg (by omega)] at halarm
      rw [decide_eq_true (by omega)] at hstop
      rw [strike_of_quiet halarm]
      refine ⟨rfl, hjournal, hguarded, hunguarded, ?_, ?_⟩
      · rw [hcount, if_neg (by omega)]
        exact halarm
      · rw [hcount, decide_eq_true (by omega)]
        exact hstop
    · rw [if_pos (by omega), hm] at halarm
      rw [strike_of_due hguarded halarm]
      refine ⟨rfl, hjournal, hguarded, hunguarded, ?_, ?_⟩
      · rw [hcount, if_neg (by omega)]
      · rw [hcount, decide_eq_true (by omega)]
    · rw [if_pos (by omega), hm] at halarm
      rw [decide_eq_false (by omega)] at hstop
      rw [strike_of_ahead hguarded halarm]
      have hleft : n - (d.terminal.count k + 1) = i + 1 := by omega
      refine ⟨rfl, hjournal, hguarded, hunguarded, ?_, ?_⟩
      · rw [hcount, if_pos (by omega), hleft]
      · rw [hcount, decide_eq_false (by omega)]
        exact hstop
  · have hcount : (d.terminal.after k terminal).count call = d.terminal.count call :=
      if_neg fun hc => hk hc.symm
    rw [(hspares hk).strike]
    refine ⟨rfl, hjournal, hguarded, hunguarded, ?_, ?_⟩
    · rw [hcount]
      exact halarm
    · rw [hcount]
      exact hstop

end Console

/-! ### Going in lock-step -/

/-- **A console and its tally go in lock-step.** -/
theorem lockStep_counted (call : Call) (least : Nat) :
    LockStep (T := Tally T) Eq (Console.Counted (T := T) call least) where
  same := fun _ => rfl
  keysLeft := fun h => congrArg Terminal.keysLeft h.terminal
  poll := by
    intro c d h
    rw [c.poll_eq, d.poll_eq, (Console.spares_of_unguarded h.unguarded .poll).strike,
      (Console.spares_of_unguarded h.unguarded' .poll).strike, h.terminal]
    refine ⟨Alike.of_eq (fun _ => rfl) rfl, { h with terminal := rfl, least := ?_ }⟩
    exact Nat.le_trans h.least (d.terminal.count_le_after .poll call _)
  read := by
    intro c d h
    rw [(Console.spares_of_unguarded h.unguarded .read).read_eq,
      (Console.spares_of_unguarded h.unguarded' .read).read_eq, h.terminal]
    refine ⟨Alike.of_eq (fun _ => rfl) rfl, { h with terminal := rfl, least := ?_, journal := ?_ }⟩
    · exact congrArg (Journal.recordAll · _) h.journal
    · exact Nat.le_trans h.least (d.terminal.count_le_after .read call _)
  write := by
    intro c d h b
    rw [c.write_eq, d.write_eq, (Console.spares_of_unguarded h.unguarded .write).strike,
      (Console.spares_of_unguarded h.unguarded' .write).strike, h.terminal]
    refine { h with terminal := rfl, least := ?_ }
    exact Nat.le_trans h.least (d.terminal.count_le_after .write call _)
  flush := by
    intro c d h
    have hterminal : Terminal.flush c.terminal = Terminal.flush d.terminal.terminal :=
      congrArg Terminal.flush h.terminal
    rw [Console.flush, hterminal]
    exact { h with
      terminal := rfl, journal := congrArg (Journal.recordAll · _) h.journal }
  note := fun h n => { h with journal := congrArg (Journal.record · n) h.journal }

/-- **A console to which an interrupt comes and a tally go in lock-step.** -/
theorem lockStep_awaits {call : Call} (hcall : call ≠ .read) (n : Nat) :
    LockStep (T := Tally T) Eq (Console.Awaits (T := T) call n) where
  same := fun _ => rfl
  keysLeft := fun h => congrArg Terminal.keysLeft h.terminal
  poll := by
    intro c d h
    have hstrike := h.strike .poll (Terminal.poll d.terminal.terminal).2
    rw [c.poll_eq, d.poll_eq, (Console.spares_of_unguarded h.unguarded .poll).strike, h.terminal]
    exact ⟨Alike.of_eq (fun _ => rfl) rfl, hstrike⟩
  read := by
    intro c d h
    have hspares : c.Spares .read := h.spares hcall.symm
    have hstrike := h.strike .read (Terminal.read d.terminal.terminal).2.1
    rw [hspares.strike] at hstrike
    rw [hspares.read_eq, (Console.spares_of_unguarded h.unguarded .read).read_eq, h.terminal]
    exact ⟨Alike.of_eq (fun _ => rfl) rfl,
      { hstrike with journal := congrArg (Journal.recordAll · _) h.journal }⟩
  write := by
    intro c d h b
    have hstrike := h.strike .write (Terminal.write d.terminal.terminal b)
    rw [c.write_eq, d.write_eq, (Console.spares_of_unguarded h.unguarded .write).strike, h.terminal]
    exact hstrike
  flush := by
    intro c d h
    have hterminal : Terminal.flush c.terminal = Terminal.flush d.terminal.terminal :=
      congrArg Terminal.flush h.terminal
    rw [Console.flush, hterminal]
    exact { h with
      terminal := rfl, journal := congrArg (Journal.recordAll · _) h.journal }
  note := fun h n => { h with journal := congrArg (Journal.record · n) h.journal }

/-! ### Processors with their calls counted -/

namespace Processor

/-- The processor with its calls counted. -/
def tallied (p : Processor T) : Processor (Tally T) where
  machine :=
    { registers := p.machine.registers, memory := p.machine.memory,
      console := p.machine.console.tallied, halted := p.machine.halted,
      cycles := p.machine.cycles }
  limit := p.limit
  tracing := p.tracing
  trace := p.trace
  fault := p.fault

/-- How many calls of a kind are made in the first `k` steps. -/
def calls (call : Call) (p : Processor T) (k : Nat) : Nat :=
  (next^[k] p.tallied).machine.console.terminal.count call

/-- The processor with an interrupt to come at the `n`-th call of a kind. -/
def interruptedAt (call : Call) (n : Nat) (p : Processor T) : Processor T :=
  p.onConsole fun c => { c with alarm := some ⟨call, n⟩ }

/-- The processor of a guarded run, when `count` calls of a kind were made and an interrupt
comes at the `n`-th. -/
def awaiting (call : Call) (n count : Nat) (p : Processor T) : Processor T :=
  p.onConsole fun c => { c with
    guarded := true
    alarm := if count < n then some ⟨call, n - count⟩ else none
    stop := decide (n ≤ count) }

/-- The processor after an interrupt that has left a request to stop. -/
def struck (p : Processor T) : Processor T :=
  p.onConsole fun c => { c with alarm := none, stop := true }

/-- **A guarded run ends** with a result or a failure, and leaves the processor `q`. -/
def GuardedRunEnds (p : Processor T) (r : Except Failure (List TraceEntry)) (q : Processor T) :
    Prop := ∃ allowance, (guardedRun allowance).run p = (r.map some, q)

variable {p q : Processor T} {call : Call} {n : Nat}

omit [Terminal T] in
theorem alongside_tallied (hp : p.IsUndisturbed) (call : Call) :
    Alongside (Console.Counted call 0) p p.tallied :=
  ⟨⟨rfl, rfl, rfl, rfl, rfl, rfl, rfl, hp.unguarded, hp.unguarded, Nat.zero_le _⟩, rfl, rfl, rfl,
    rfl⟩

theorem counted_iterate (hp : p.IsUndisturbed) (call : Call) (k : Nat) :
    Alongside (Console.Counted call 0) (next^[k] p) (next^[k] p.tallied) :=
  iterate_lockStep (lockStep_counted call 0) (alongside_tallied hp call) k

/-- **Calls are never taken back.** -/
theorem calls_mono (hp : p.IsUndisturbed) (call : Call) {i k : Nat} (hik : i ≤ k) :
    p.calls call i ≤ p.calls call k := by
  have hi := counted_iterate hp call i
  -- From the `i`-th step on there were at least as many calls as by then.
  have hfrom : Alongside (Console.Counted call (p.calls call i)) (next^[i] p)
      (next^[i] p.tallied) :=
    { hi with machine := { hi.machine with console :=
        { hi.machine.console with least := Nat.le_refl _ } } }
  have hk := iterate_lockStep (lockStep_counted call _) hfrom (k - i)
  rw [← Function.iterate_add_apply, ← Function.iterate_add_apply, Nat.sub_add_cancel hik] at hk
  exact hk.machine.console.least

omit [Terminal T] in
/-- What goes in lock-step with a tally on either side differs in the console only, and
there in what the tally says. -/
theorem eq_awaiting {g : Processor T} {t : Processor (Tally T)}
    (hp : Alongside (Console.Counted call 0) p t) (hg : Alongside (Console.Awaits call n) g t) :
    g = p.awaiting call n (t.machine.console.terminal.count call) := by
  obtain ⟨⟨registers, memory, console, halted, cycles⟩, limit, tracing, trace, fault⟩ := p
  obtain ⟨⟨registers', memory', console', halted', cycles'⟩, limit', tracing', trace', fault'⟩ := g
  obtain ⟨⟨rfl, rfl, rfl, rfl, hcounted⟩, rfl, rfl, rfl, rfl⟩ := hp
  obtain ⟨⟨rfl, rfl, rfl, rfl, hawaits⟩, rfl, rfl, rfl, rfl⟩ := hg
  have hconsole : console' = { console with
      guarded := true
      alarm := if t.machine.console.terminal.count call < n then
        some ⟨call, n - t.machine.console.terminal.count call⟩ else none
      stop := decide (n ≤ t.machine.console.terminal.count call) } := by
    obtain ⟨terminal, stop, alarm, guarded, journal⟩ := console
    obtain ⟨terminal', stop', alarm', guarded', journal'⟩ := console'
    obtain ⟨rfl, rfl, -, -, -, -⟩ := hcounted
    obtain ⟨rfl, rfl, rfl, -, rfl, rfl⟩ := hawaits
    rfl
  rw [hconsole]
  rfl

omit [Terminal T] in
theorem alongside_awaits (hp : p.IsUndisturbed) (hn : 0 < n) :
    Alongside (Console.Awaits call n) ((p.interruptedAt call n).guarded true) p.tallied :=
  ⟨⟨rfl, rfl, rfl, rfl, rfl, rfl, rfl, hp.unguarded, (if_pos hn).symm,
    hp.unasked.trans (decide_eq_false (Nat.not_le_of_lt hn)).symm⟩, rfl, rfl, rfl, rfl⟩

/-- **As long as the interrupt is waited for, nothing is different, and afterwards only a
stop is asked for.** -/
theorem iterate_interruptedAt (hp : p.IsUndisturbed) (hn : 0 < n) (hcall : call ≠ .read)
    (k : Nat) :
    next^[k] ((p.interruptedAt call n).guarded true) =
        (next^[k] p).awaiting call n (p.calls call k) ∧
      (step.run (next^[k] ((p.interruptedAt call n).guarded true))).1 =
        (step.run (next^[k] p)).1 := by
  have hcounted := counted_iterate hp call k
  have hawaits := iterate_lockStep (lockStep_awaits hcall n) (alongside_awaits hp hn) k
  refine ⟨eq_awaiting hcounted hawaits, ?_⟩
  have h₁ := (step_lockStep (lockStep_counted call 0) _ _ hcounted).1.eq
  have h₂ := (step_lockStep (lockStep_awaits hcall n) _ _ hawaits).1.eq
  exact h₂.trans h₁.symm

theorem completes_interruptedAt (hp : p.IsUndisturbed) (hn : 0 < n) (hcall : call ≠ .read)
    {k : Nat} : ((p.interruptedAt call n).guarded true).Completes k ↔ p.Completes k := by
  refine forall_congr' fun j => forall_congr' fun _ => ?_
  rw [(iterate_interruptedAt hp hn hcall j).2]

/-- No stop is asked for before the `n`-th call. -/
theorem unasked_interruptedAt (hp : p.IsUndisturbed) (hn : 0 < n) (hcall : call ≠ .read)
    {k : Nat} (hk : p.calls call k < n) :
    (next^[k] ((p.interruptedAt call n).guarded true)).machine.console.stop = false := by
  rw [(iterate_interruptedAt hp hn hcall k).1]
  exact decide_eq_false (Nat.not_le_of_lt hk)

/-- A step that makes calls has found the machine running. -/
theorem running_of_calls {k : Nat} (hp : p.IsUndisturbed)
    (h : p.calls call k < p.calls call (k + 1)) : (next^[k] p).machine.halted = false := by
  have hcounted := counted_iterate hp call k
  refine Bool.eq_false_iff.mpr fun hh => ?_
  have hs := run_step_of_halted (hcounted.machine.halted ▸ hh)
  have hsame : p.calls call (k + 1) = p.calls call k := by
    rw [calls, Function.iterate_succ_apply', next, hs]
    rfl
  omega

/-! ### Guarded runs -/

theorem RunEnds.guarded {r : Except Failure (List TraceEntry)}
    (h : RunEnds (p.guarded true) r q) : GuardedRunEnds p r (q.guarded false) := by
  obtain ⟨allowance, ha⟩ := h
  refine ⟨allowance, ?_⟩
  rw [run_guardedRun, ha]

omit [Terminal T] in
theorem guarded_awaiting {count : Nat} (hq : q.machine.console.guarded = false)
    (hn : n ≤ count) : (q.awaiting call n count).guarded false = q.struck := by
  obtain ⟨⟨registers, memory, ⟨terminal, stop, alarm, guarded, journal⟩, halted, cycles⟩, limit,
    tracing, trace, fault⟩ := q
  obtain rfl : guarded = false := hq
  simp only [awaiting, struck, Processor.guarded, onConsole, if_neg (Nat.not_lt_of_le hn),
    decide_eq_true hn]

section Struck

/-! The `n`-th call is made in the step after the `j`-th. -/

variable {j : Nat} (hp : p.IsUndisturbed) (hn : 0 < n) (hcall : call ≠ .read)
  (hlt : p.calls call j < n) (hle : n ≤ p.calls call (j + 1))

include hp hn hcall hlt

/-- Up to that step, and before it, no stop is asked for. -/
theorem unasked_until {i : Nat} (hi : i < j + 1) :
    (next^[i] ((p.interruptedAt call n).guarded true)).machine.console.stop = false :=
  unasked_interruptedAt hp hn hcall
    (Nat.lt_of_le_of_lt (calls_mono hp call (Nat.le_of_lt_succ hi)) hlt)

include hle

/-- An instruction that fails in the run without the interrupt fails in the other. -/
theorem FailsAt.guardedRunEnds {f : Failure} (hf : p.FailsAt j f (next^[j + 1] p)) :
    GuardedRunEnds (p.interruptedAt call n) (.error f) (next^[j + 1] p).struck := by
  obtain ⟨hj, hrunning, hs⟩ := hf
  let g := (p.interruptedAt call n).guarded true
  obtain ⟨hbefore, houtcome⟩ := iterate_interruptedAt hp hn hcall j
  obtain ⟨hafter, -⟩ := iterate_interruptedAt hp hn hcall (j + 1)
  have hrunning' : (next^[j] g).machine.halted = false := by
    rw [hbefore]
    exact hrunning
  have hs' : step.run (next^[j] g) = (.error f, next^[j + 1] g) := by
    rw [hs] at houtcome
    rw [Function.iterate_succ_apply', next]
    exact Prod.ext houtcome rfl
  have hend := RunEnds.of_error hrunning' (unasked_until hp hn hcall hlt (Nat.lt_succ_self j)) hs'
  have hguarded := (RunEnds.of_completes
    (fun i hi => unasked_until hp hn hcall hlt (Nat.lt_succ_of_lt hi))
    ((completes_interruptedAt hp hn hcall).mpr hj) hend).guarded
  rwa [hafter, guarded_awaiting (hp.iterate (j + 1)).unguarded hle] at hguarded

/-- An instruction that halts the machine ends both runs. -/
theorem HaltsAt.guardedRunEnds (hh : p.HaltsAt (j + 1)) :
    GuardedRunEnds (p.interruptedAt call n) (next^[j + 1] p).ending (next^[j + 1] p).struck := by
  obtain ⟨hafter, -⟩ := iterate_interruptedAt hp hn hcall (j + 1)
  have hhalted : (next^[j + 1] ((p.interruptedAt call n).guarded true)).machine.halted = true := by
    rw [hafter]
    exact hh.2
  have hguarded := (RunEnds.of_completes (fun i hi => unasked_until hp hn hcall hlt hi)
    ((completes_interruptedAt hp hn hcall).mpr hh.1) (RunEnds.of_halted hhalted)).guarded
  rwa [hafter, guarded_awaiting (hp.iterate (j + 1)).unguarded hle] at hguarded

/-- After an instruction that is completed and leaves the machine running, the run is
stopped. -/
theorem guardedRunEnds_of_running (hc : p.Completes (j + 1))
    (hr : (next^[j + 1] p).machine.halted = false) :
    GuardedRunEnds (p.interruptedAt call n)
      (.error (.interrupted (some (next^[j + 1] p).machine.registers.pc.toNat)))
      ((next^[j + 1] p).stopped.onConsole fun c =>
        c.note (.stopped (next^[j + 1] p).machine.registers.pc)).struck := by
  obtain ⟨hafter, -⟩ := iterate_interruptedAt hp hn hcall (j + 1)
  let g := (p.interruptedAt call n).guarded true
  have hrunning : (next^[j + 1] g).machine.halted = false := by
    rw [hafter]
    exact hr
  have hstop : (next^[j + 1] g).machine.console.stop = true := by
    rw [hafter]
    exact decide_eq_true hle
  have hguarded := (RunEnds.of_completes (fun i hi => unasked_until hp hn hcall hlt hi)
    ((completes_interruptedAt hp hn hcall).mpr hc) (RunEnds.of_stop hrunning hstop)).guarded
  rw [hafter] at hguarded
  -- The notice of the stop and what the interrupt has left do not touch each other.
  generalize hnoted : (next^[j + 1] p).stopped.onConsole
    (fun c => c.note (.stopped (next^[j + 1] p).machine.registers.pc)) = q'
  have hq' : q'.machine.console.guarded = false := by
    rw [← hnoted]
    exact (hp.iterate (j + 1)).unguarded
  rw [← guarded_awaiting (q := q') hq' hle, ← hnoted]
  exact hguarded

/-- **An interrupt at a poll or a write waits for the end of the instruction it falls
into.** -/
theorem guardedRun_ends_after (hj : p.Completes j) :
    (∃ f, p.FailsAt j f (next^[j + 1] p) ∧
      GuardedRunEnds (p.interruptedAt call n) (.error f) (next^[j + 1] p).struck) ∨
    (p.HaltsAt (j + 1) ∧ GuardedRunEnds (p.interruptedAt call n) (next^[j + 1] p).ending
      (next^[j + 1] p).struck) ∨
    (p.Completes (j + 1) ∧ (next^[j + 1] p).machine.halted = false ∧
      GuardedRunEnds (p.interruptedAt call n)
        (.error (.interrupted (some (next^[j + 1] p).machine.registers.pc.toNat)))
        ((next^[j + 1] p).stopped.onConsole fun c =>
          c.note (.stopped (next^[j + 1] p).machine.registers.pc)).struck) := by
  have hrunning := running_of_calls hp (Nat.lt_of_lt_of_le hlt hle)
  rcases hs : step.run (next^[j] p) with ⟨f | c, q⟩
  · have hfails : p.FailsAt j f (next^[j + 1] p) := by
      refine ⟨hj, hrunning, ?_⟩
      rw [Function.iterate_succ_apply', next, hs]
    exact Or.inl ⟨f, hfails, hfails.guardedRunEnds hp hn hcall hlt hle⟩
  · have hc : p.Completes (j + 1) := completes_succ.mpr ⟨hj, c, by rw [hs]⟩
    cases hh : (next^[j + 1] p).machine.halted with
    | true =>
      have hhalts : p.HaltsAt (j + 1) := ⟨hc, hh⟩
      exact Or.inr (Or.inl ⟨hhalts, hhalts.guardedRunEnds hp hn hcall hlt hle⟩)
    | false =>
      exact Or.inr (Or.inr ⟨hc, rfl, guardedRunEnds_of_running hp hn hcall hlt hle hc hh⟩)

end Struck

omit [Terminal T] in
theorem guarded_awaiting_of_lt {count : Nat} (hq : q.IsUndisturbed) (hn : count < n) :
    (q.awaiting call n count).guarded false =
      q.onConsole fun c => { c with alarm := some ⟨call, n - count⟩ } := by
  obtain ⟨⟨registers, memory, ⟨terminal, stop, alarm, guarded, journal⟩, halted, cycles⟩, limit,
    tracing, trace, fault⟩ := q
  obtain ⟨rfl, rfl⟩ : guarded = false ∧ stop = false := ⟨hq.unguarded, hq.unasked⟩
  simp only [awaiting, Processor.guarded, onConsole, if_pos hn,
    decide_eq_false (Nat.not_le_of_lt hn)]

omit [Terminal T] in
theorem terminal_boundary (p : Processor T) :
    (boundary.run p).2.machine.console.terminal = p.machine.console.terminal := by
  rcases boundary_cases p with ⟨-, hb⟩ | ⟨-, -, hb⟩ | ⟨-, -, hb⟩ <;> rw [hb]
  rfl

/-- Some instruction is the one in which the `n`-th call is made. -/
theorem exists_call (hn : 0 < n) {k : Nat} (hk : p.Completes k)
    (hle : n ≤ p.calls call (k + 1)) :
    ∃ j, p.Completes j ∧ p.calls call j < n ∧ n ≤ p.calls call (j + 1) := by
  induction k with
  | zero => exact ⟨0, hk, hn, hle⟩
  | succ k ih =>
    by_cases hlt : p.calls call (k + 1) < n
    · exact ⟨k + 1, hk, hlt, hle⟩
    · exact ih (hk.mono (Nat.le_succ k)) (Nat.le_of_not_lt hlt)

/-- **Without an `n`-th call there is no interrupt**, and a guarded run is a run. -/
theorem guardedRun_of_never (hp : p.IsUndisturbed) (hn : 0 < n) (hcall : call ≠ .read)
    (hnever : ∀ k, p.Completes k → p.calls call (k + 1) < n) (allowance : Nat) :
    ∃ alarm, (guardedRun allowance).run (p.interruptedAt call n) =
      (((run allowance).run p).1,
        ((run allowance).run p).2.onConsole fun c => { c with alarm }) := by
  have hcalls : ∀ k, p.Completes k → p.calls call k < n := fun k hk =>
    Nat.lt_of_le_of_lt (calls_mono hp call (Nat.le_succ k)) (hnever k hk)
  have htally : ∀ k, p.tallied.Completes k → p.Completes k := by
    intro k hk j hj
    obtain ⟨c, hc⟩ := hk j hj
    have hstep := step_lockStep (lockStep_counted call 0) _ _ (counted_iterate hp call j)
    exact ⟨c, hstep.1.eq.trans hc⟩
  have hfew : ((run allowance).run p.tallied).2.machine.console.terminal.count call < n := by
    obtain ⟨k, hk, -, hend⟩ := run_cases p.tallied allowance
    rcases hend with hb | ⟨f, -, -, hb⟩
    · rw [hb, terminal_boundary]
      exact hcalls k (htally k hk)
    · rw [hb]
      exact hnever k (htally k hk)
  obtain ⟨houtcome, hcounted⟩ := run_lockStep (lockStep_counted call 0) (alongside_tallied hp call)
    (fun k _ => (counted_iterate hp call k).machine.console.stop) allowance
  have hstops : ∀ k, ((p.interruptedAt call n).guarded true).Completes k →
      (next^[k] ((p.interruptedAt call n).guarded true)).machine.console.stop =
        (next^[k] p.tallied).machine.console.stop := by
    intro k hk
    have hcall' := hcalls k ((completes_interruptedAt hp hn hcall).mp hk)
    rw [unasked_interruptedAt hp hn hcall hcall',
      ← (counted_iterate hp call k).machine.console.stop, (hp.iterate k).unasked]
  obtain ⟨houtcome', hawaits⟩ := run_lockStep (lockStep_awaits hcall n) (alongside_awaits hp hn)
    hstops allowance
  refine ⟨some ⟨call,
    n - ((run allowance).run p.tallied).2.machine.console.terminal.count call⟩, ?_⟩
  rw [run_guardedRun, houtcome'.eq.trans houtcome.eq.symm, eq_awaiting hcounted hawaits,
    guarded_awaiting_of_lt (hp.run allowance) hfew]

/-- **An interrupt outside a wait stops a run exactly at the next boundary.** Let nobody ask
the processor `p` to stop, and let an interrupt come in a guarded run of it at the `n`-th
poll or the `n`-th write.

* If this call is made in the instruction after the `j`-th, in the run of `p` without the
  interrupt, then the guarded run comes to the end of that instruction as the other does. If
  the instruction fails or halts the machine, both runs end there in the same way. Otherwise
  the guarded run is stopped there, before the next instruction is fetched and whether or not
  the limit is reached by then; its failure names the program counter at that point. In each
  case it leaves everything, the terminal and the trace included, as `p` has it after that
  instruction, but for the machine being halted if it was stopped, the notice of that, and
  the request to stop.
* If the call is never made in the run of `p`, the guarded run is that run, and only the
  interrupt is still to come at its end, if there is one.

There is no third case. -/
theorem interrupt_waits_for_boundary (hp : p.IsUndisturbed) (call : Call) (hcall : call ≠ .read)
    (n : Nat) (hn : 0 < n) :
    let g := p.interruptedAt call n
    (∀ j, p.Completes j → p.calls call j < n → n ≤ p.calls call (j + 1) →
      let q := next^[j + 1] p
      (∃ f, p.FailsAt j f q ∧ RunEnds p (.error f) q ∧ GuardedRunEnds g (.error f) q.struck) ∨
      (p.HaltsAt (j + 1) ∧ RunEnds p q.ending q ∧ GuardedRunEnds g q.ending q.struck) ∨
      (p.Completes (j + 1) ∧ q.machine.halted = false ∧
        GuardedRunEnds g (.error (.interrupted (some q.machine.registers.pc.toNat)))
          (q.stopped.onConsole fun c => c.note (.stopped q.machine.registers.pc)).struck)) ∧
    ((∀ k, p.Completes k → p.calls call (k + 1) < n) → ∀ allowance, ∃ alarm,
      (guardedRun allowance).run g =
        (((run allowance).run p).1,
          ((run allowance).run p).2.onConsole fun c => { c with alarm })) ∧
    ((∃ j, p.Completes j ∧ p.calls call j < n ∧ n ≤ p.calls call (j + 1)) ∨
      ∀ k, p.Completes k → p.calls call (k + 1) < n) := by
  refine ⟨fun j hj hlt hle => ?_, guardedRun_of_never hp hn hcall, ?_⟩
  · rcases guardedRun_ends_after hp hn hcall hlt hle hj with ⟨f, hf, hg⟩ | ⟨hh, hg⟩ | hstopped
    · exact Or.inl ⟨f, hf, hf.runEnds hp, hg⟩
    · exact Or.inr (Or.inl ⟨hh, hh.runEnds hp, hg⟩)
    · exact Or.inr (Or.inr hstopped)
  · by_cases hmade : ∃ k, p.Completes k ∧ n ≤ p.calls call (k + 1)
    · obtain ⟨k, hk, hle⟩ := hmade
      exact Or.inl (exists_call hn hk hle)
    · exact Or.inr fun k hk => Nat.lt_of_not_le fun hle => hmade ⟨k, hk, hle⟩

/-- A processor that may carry out two instructions, and shows a byte in each. -/
def showTwice : Processor ScriptedTerminal :=
  launch (Memory.cleared.load 0x3000 [0xF021, 0xF021, 0xF021]) { terminal := { keys := [] } }
    (some 2) false 0

/-- The second write is made in the second instruction, so an interrupt there stops the run
after it, although the limit is reached by then. There is no third write. -/
theorem interrupt_of_showTwice :
    GuardedRunEnds (showTwice.interruptedAt .write 2) (.error (.interrupted (some 0x3002)))
        ((next^[2] showTwice).stopped.onConsole fun c => c.note (.stopped 0x3002)).struck ∧
      ∃ alarm, (guardedRun 3).run (showTwice.interruptedAt .write 3) =
        (.error (.cycleLimit 2),
          ((run 3).run showTwice).2.onConsole fun c => { c with alarm }) := by
  have hp : showTwice.IsUndisturbed := ⟨rfl, rfl⟩
  have hcompletes : showTwice.Completes 1 := by
    intro j hj
    obtain rfl : j = 0 := Nat.lt_one_iff.mp hj
    exact ⟨⟨0, 0x3000, 0xF021⟩, rfl⟩
  have hfew : ∀ k, showTwice.Completes k → showTwice.calls .write (k + 1) < 3 := by
    rintro (_ | _ | _ | k) hk
    · decide
    · decide
    · decide
    · -- The third step meets the limit.
      obtain ⟨c, hc⟩ := hk 2 (by omega)
      cases hc
  obtain ⟨hcall, -, -⟩ := interrupt_waits_for_boundary hp .write (by decide) 2 (by decide)
  obtain ⟨-, hnever, -⟩ := interrupt_waits_for_boundary hp .write (by decide) 3 (by decide)
  refine ⟨?_, hnever hfew 3⟩
  rcases hcall 1 hcompletes (by decide) (by decide) with ⟨f, ⟨-, -, hs⟩, -⟩ | ⟨⟨-, hh⟩, -⟩ |
    ⟨-, -, hstopped⟩
  · have hok : (step.run (next^[1] showTwice)).1 = .ok ⟨1, 0x3001, 0xF021⟩ := rfl
    rw [hs] at hok
    cases hok
  · cases hh
  · exact hstopped

end Processor

end LittleComputer
