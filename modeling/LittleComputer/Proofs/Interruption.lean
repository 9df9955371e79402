import LittleComputer.Proofs.FatalWords
import LittleComputer.Proofs.Simulation

/-!
# Steps into which an interrupt may fall

Of an interrupt to come nothing is assumed here: neither the kind of call at which it happens
nor when. On a script a guarded machine then goes as the same machine does unguarded, until
the interrupt comes at a read, where the step gives up (`LittleComputer.Machine.attempt_follows`).
So a step fails as documented or because a wait was abandoned, and
`LittleComputer.Processor.step_outcome` says which of the two.

What the interrupt has done so far can be seen from the console: it is still to come, or it is
over and a stop is asked for (`LittleComputer.Console.Heard`). Along the instructions that are
completed one of the two is the case. Hence the interrupt arrives in a step
(`LittleComputer.Processor.Arrives`) at a read if and only if the step gives up, and at another
call if and only if a stop is asked for after it, where none was before.
-/

namespace LittleComputer

/-! ### What has become of the interrupt -/

namespace Console

/-- A guarded console to which an interrupt at the calls of the kind `on`, if there is one, is
still to come, and nobody has asked for a stop; or the interrupt is over, and it was not at a
read and has left a request to stop. -/
structure Heard (on : Option Call) (c : Console ScriptedTerminal) : Prop where
  guarded : c.guarded = true
  request : (c.alarm.map Alarm.on = on ∧ c.stop = false) ∨
    ∃ call, on = some call ∧ call ≠ .read ∧ c.alarm = none ∧ c.stop = true

/-- A console that has heard an interrupt or not beside one that never does. -/
structure Overhears (on : Option Call) (c d : Console ScriptedTerminal) : Prop where
  terminal : c.terminal = d.terminal
  journal : c.journal = d.journal
  heard : c.Heard on
  unguarded : d.guarded = false

variable {on : Option Call} {c d : Console ScriptedTerminal}

/-- **A call either is a read that is interrupted**, or the interrupt is afterwards still to
come or over. -/
theorem Heard.strike (h : c.Heard on) (call : Call) :
    (call = .read ∧ on = some .read ∧
      c.strike call = (true, { c with alarm := none, stop := true })) ∨
    (call = .read → (c.strike call).1 = false) ∧ (c.strike call).2.Heard on := by
  rcases c.strike_cases call with hs | ⟨-, ha, hs⟩ | ⟨n, -, ha, hs⟩
  · rw [hs]
    exact Or.inr ⟨fun _ => rfl, h⟩
  · obtain ⟨hon, -⟩ | ⟨_, -, -, hnone, -⟩ := h.request
    · rw [ha] at hon
      by_cases hcall : call = .read
      · subst hcall
        exact Or.inl ⟨rfl, hon.symm, hs⟩
      · rw [hs]
        exact Or.inr ⟨fun hc => absurd hc hcall, h.guarded,
          Or.inr ⟨call, hon.symm, hcall, rfl, rfl⟩⟩
    · cases hnone.symm.trans ha
  · obtain ⟨hon, hstop⟩ | ⟨_, -, -, hnone, -⟩ := h.request
    · rw [ha] at hon
      rw [hs]
      exact Or.inr ⟨fun _ => rfl, h.guarded, Or.inl ⟨hon, hstop⟩⟩
    · cases hnone.symm.trans ha

theorem Heard.of_same (h : c.Heard on) {c' : Console ScriptedTerminal}
    (hguarded : c'.guarded = c.guarded) (halarm : c'.alarm = c.alarm) (hstop : c'.stop = c.stop) :
    c'.Heard on := by
  obtain ⟨hg, hr⟩ := h
  rw [← hguarded] at hg
  rw [← halarm, ← hstop] at hr
  exact ⟨hg, hr⟩

theorem read_of_struck {c' : Console ScriptedTerminal} (h : c.strike .read = (true, c')) :
    c.read = (.error (.wait .cutShort), c') := by
  rw [read, h]
  rfl

theorem read_of_not_struck (h : (c.strike .read).1 = false) :
    c.read = ((Terminal.read c.terminal).1, (c.strike .read).2.settle
      (Terminal.read c.terminal).2.1 (Terminal.read c.terminal).2.2) := by
  have hterminal := c.strike_terminal .read
  rw [read]
  rcases hs : c.strike .read with ⟨struck, c'⟩
  rw [hs] at h hterminal
  obtain rfl : struck = false := h
  dsimp only at hterminal ⊢
  rw [hterminal]

/-- **A poll and a write go along**, and so does a read that is not interrupted. -/
theorem Overhears.poll (h : c.Overhears on d) :
    c.poll.1 = d.poll.1 ∧ c.poll.2.Overhears on d.poll.2 := by
  rw [c.poll_eq, d.poll_eq, (spares_of_unguarded h.unguarded .poll).strike, h.terminal]
  obtain ⟨hread, -⟩ | ⟨-, hheard⟩ := h.heard.strike .poll
  · cases hread
  · exact ⟨rfl, rfl, (c.strike_journal .poll).trans h.journal, hheard.of_same rfl rfl rfl,
      h.unguarded⟩

theorem Overhears.write (h : c.Overhears on d) (b : Byte) :
    (c.write b).Overhears on (d.write b) := by
  rw [c.write_eq, d.write_eq, (spares_of_unguarded h.unguarded .write).strike, h.terminal]
  obtain ⟨hread, -⟩ | ⟨-, hheard⟩ := h.heard.strike .write
  · cases hread
  · exact ⟨rfl, (c.strike_journal .write).trans h.journal, hheard.of_same rfl rfl rfl, h.unguarded⟩

theorem Overhears.read (h : c.Overhears on d) :
    (c.read.1 = .error (.wait .cutShort) ∧ on = some .read ∧ c.read.2.alarm = none) ∨
      c.read.1 = d.read.1 ∧ c.read.2.Overhears on d.read.2 := by
  obtain ⟨-, hon, hs⟩ | ⟨hstruck, hheard⟩ := h.heard.strike .read
  · rw [read_of_struck hs]
    exact Or.inl ⟨rfl, hon, rfl⟩
  · rw [read_of_not_struck (hstruck rfl), (spares_of_unguarded h.unguarded .read).read_eq,
      h.terminal]
    refine Or.inr ⟨rfl, rfl, ?_, hheard.of_same rfl rfl rfl, h.unguarded⟩
    exact congrArg (Journal.recordAll · _) ((c.strike_journal .read).trans h.journal)

end Console

/-! ### On the machine -/

namespace Machine

/-- How a step gives up: an interrupt has come at a read, and it is over. -/
def GivesUp (on : Option Call) (f : Failure) (m : Machine ScriptedTerminal) : Prop :=
  f = .wait .cutShort ∧ on = some .read ∧ m.console.alarm = none

variable {on : Option Call}

/-- **A guarded machine goes as it does unguarded**, or gives up at a read. -/
theorem perform_follows {α : Type} (c : Primitive α) :
    Follows (GivesUp on) (Alongside (Console.Overhears on))
      (c.perform (T := ScriptedTerminal)) (c.perform (T := ScriptedTerminal)) := by
  intro m n hmn
  obtain ⟨hterminal, hjournal, hheard, hunguarded⟩ := hmn.console
  cases c with
  | poll =>
    obtain ⟨houtcome, hconsole⟩ := hmn.console.poll
    exact Or.inr ⟨houtcome, { hmn with console := hconsole }⟩
  | readKey =>
    obtain ⟨hf, hon, halarm⟩ | ⟨houtcome, hconsole⟩ := hmn.console.read
    · exact Or.inl ⟨_, _, Prod.ext hf rfl, rfl, hon, halarm⟩
    · exact Or.inr ⟨houtcome, { hmn with console := hconsole }⟩
  | showByte b => exact Or.inr ⟨rfl, { hmn with console := hmn.console.write b }⟩
  | flush =>
    exact Or.inr ⟨rfl, { hmn with
      console := ⟨hterminal, hjournal, hheard.of_same rfl rfl rfl, hunguarded⟩ }⟩
  | note k =>
    have hnoted : m.console.journal.record k = n.console.journal.record k :=
      congrArg (Journal.record · k) hjournal
    exact Or.inr ⟨rfl, { hmn with
      console := ⟨hterminal, hnoted, hheard.of_same rfl rfl rfl, hunguarded⟩ }⟩
  | keysLeft => exact Or.inr ⟨congrArg (fun t => Except.ok (Terminal.keysLeft t)) hterminal, hmn⟩
  | _ =>
    refine Follows.of_simulates (perform_local ?_) m n hmn
    trivial

theorem fetch_follows :
    Follows (GivesUp on) (Alongside (Console.Overhears on))
      (fetch (T := ScriptedTerminal)) (fetch (T := ScriptedTerminal)) :=
  mild_fetch.follows fun _ c _ => perform_follows c

theorem attempt_follows :
    Follows (GivesUp on) (Alongside (Console.Overhears on))
      (attempt (T := ScriptedTerminal)) (attempt (T := ScriptedTerminal)) :=
  composed_attempt.follows fun _ c _ => perform_follows c

end Machine

/-! ### On the processor -/

namespace Processor

/-- The interrupt arrives in the next step, at a call of the given kind: it was to come at one,
and after the step it is not to come any more. -/
def Arrives {T : Type} [Terminal T] (call : Call) (b : Processor T) : Prop :=
  (∃ n, b.machine.console.alarm = some ⟨call, n⟩) ∧ b.next.machine.console.alarm = none

/-- The next step calls a service that asks for a key, and the script has none left. -/
structure OutOfKeys (b : Processor ScriptedTerminal) : Prop where
  asks : ∃ a w, b.Fetches a w ∧ AsksForKey w
  keys : b.machine.keys = []

variable {on : Option Call} {b : Processor ScriptedTerminal}

theorem alongside_unguarded (h : b.machine.console.Heard on) :
    Machine.Alongside (Console.Overhears on) b.machine (b.guarded false).machine :=
  ⟨rfl, rfl, rfl, rfl, rfl, rfl, h, rfl⟩

/-- **A step gives up at a read, or it returns or fails as it does unguarded.** -/
theorem step_follows (h : b.machine.console.Heard on) :
    ((step.run b).1 = .error (.wait .cutShort) ∧ on = some .read ∧
      b.next.machine.console.alarm = none) ∨
    (step.run b).1 = (step.run (b.guarded false)).1 ∧ b.next.machine.console.Heard on := by
  have hattempt := Machine.attempt_follows _ _ (alongside_unguarded h)
  rcases step_cases b with ⟨hr, hs⟩ | ⟨n, hr, hn, hs⟩ | ⟨f, m, hr, hn, ha, hs⟩ |
    ⟨a, w, m, hr, hn, ha, hs⟩
  · rw [next, hs, run_step_of_halted (p := b.guarded false) hr]
    exact Or.inr ⟨rfl, h⟩
  · rw [next, hs, run_step_of_limit (p := b.guarded false) hr hn]
    exact Or.inr ⟨rfl, h⟩
  · rw [next, hs]
    rcases hattempt with ⟨e, m', ha', he, hon, halarm⟩ | ⟨houtcome, hm⟩
    · cases ha.symm.trans ha'
      exact Or.inl ⟨congrArg _ he, hon, halarm⟩
    · rcases hu : Machine.attempt.run (b.guarded false).machine with ⟨r, m'⟩
      rw [ha, hu] at houtcome hm
      obtain rfl : r = .error f := houtcome.symm
      rw [run_step_of_error (p := b.guarded false) hr hn hu]
      exact Or.inr ⟨rfl, hm.console.heard⟩
  · rw [next, hs]
    rcases hattempt with ⟨e, m', ha', -⟩ | ⟨houtcome, hm⟩
    · cases ha.symm.trans ha'
    · rcases hu : Machine.attempt.run (b.guarded false).machine with ⟨r, m'⟩
      rw [ha, hu] at houtcome hm
      obtain rfl : r = .ok (a, w) := houtcome.symm
      rw [run_step_of_ok (p := b.guarded false) hr hn hu]
      exact Or.inr ⟨rfl, hm.console.heard⟩

/-- Unguarded, a step fails as documented. -/
theorem documented_of_unguarded {f : Failure} :
    (step.run (b.guarded false)).1 = .error f ↔
      (b.guarded false).Documented ScriptedTerminal.upcoming f :=
  step_error_iff_of_script Bool.noConfusion f

/-- **A wait is abandoned exactly if the interrupt arrives at a read.** -/
theorem waitAbandoned_iff (h : b.machine.console.Heard on) :
    (step.run b).1 = .error (.wait .cutShort) ↔ b.Arrives .read := by
  constructor
  · intro hf
    rcases step_follows h with ⟨-, hon, halarm⟩ | ⟨houtcome, -⟩
    · obtain ⟨halarm', -⟩ | ⟨call, hcall, hne, -⟩ := h.request
      · obtain ⟨⟨call, n⟩, ha, hcall⟩ := Option.map_eq_some_iff.mp (halarm'.trans hon)
        obtain rfl : call = .read := hcall
        exact ⟨⟨n, ha⟩, halarm⟩
      · exact absurd (Option.some.inj (hcall.symm.trans hon)) hne
    · -- Unguarded no wait is abandoned.
      cases documented_of_unguarded.mp (houtcome.symm.trans hf)
  · rintro ⟨⟨n, ha⟩, halarm⟩
    rcases step_follows h with ⟨hf, -⟩ | ⟨-, hheard⟩
    · exact hf
    · obtain ⟨hon, -⟩ | ⟨_, -, -, hnone, -⟩ := h.request
      · obtain ⟨hon', -⟩ | ⟨call, hcall, hne, -⟩ := hheard.request
        · rw [halarm] at hon'
          rw [ha, ← hon'] at hon
          cases hon
        · rw [ha, hcall] at hon
          exact absurd (Option.some.inj hon).symm hne
      · cases hnone.symm.trans ha

/-- **A stop is asked for after a step exactly if the interrupt arrives at a poll or a write**,
if the step does not give up and no stop was asked for before. -/
theorem stop_next_iff (h : b.machine.console.Heard on) (hstop : b.machine.console.stop = false)
    (hread : ¬b.Arrives .read) :
    b.next.machine.console.stop = true ↔ ∃ call, call ≠ .read ∧ b.Arrives call := by
  have hheard : b.next.machine.console.Heard on := by
    rcases step_follows h with ⟨hf, -⟩ | ⟨-, hheard⟩
    · exact absurd ((waitAbandoned_iff h).mp hf) hread
    · exact hheard
  have hon : b.machine.console.alarm.map Alarm.on = on := by
    obtain ⟨hon, -⟩ | ⟨_, -, -, -, hstop'⟩ := h.request
    · exact hon
    · cases hstop.symm.trans hstop'
  constructor
  · intro hs
    obtain ⟨-, hs'⟩ | ⟨call, hcall, hne, hnone, -⟩ := hheard.request
    · cases hs.symm.trans hs'
    · obtain ⟨⟨call', n⟩, ha, hcall'⟩ := Option.map_eq_some_iff.mp (hon.trans hcall)
      obtain rfl : call' = call := hcall'
      exact ⟨call', hne, ⟨n, ha⟩, hnone⟩
  · rintro ⟨call, -, ⟨n, ha⟩, hnone⟩
    obtain ⟨hon', -⟩ | ⟨_, -, -, -, hs⟩ := hheard.request
    · rw [hnone] at hon'
      rw [ha, ← hon'] at hon
      cases hon
    · exact hs

/-- A script without keys is exhausted. -/
theorem upcoming_eq_error_iff {m : Machine ScriptedTerminal} {reason : HostFault} :
    ScriptedTerminal.upcoming m.console.terminal = some (.error reason) ↔
      m.keys = [] ∧ reason = .inputExhausted := by
  rw [ScriptedTerminal.upcoming, Machine.keys]
  cases m.console.terminal.keys with
  | nil => simp [eq_comm]
  | cons key rest => simp

/-- The fetch of a step that does not give up has the outcome that it has unguarded. -/
theorem fetch_of_not_arrives (h : b.machine.console.Heard on) (hr : b.machine.halted = false)
    (hn : b.reachedLimit = none) (hread : ¬b.Arrives .read) :
    (Machine.fetch.run b.machine).1 = (Machine.fetch.run (b.guarded false).machine).1 := by
  rcases Machine.fetch_follows _ _ (alongside_unguarded h) with ⟨f, m, hf, rfl, -⟩ | ⟨hsame, -⟩
  · -- What gives up in the fetch gives up as a whole.
    have ha : Machine.attempt.run b.machine = (.error (.wait .cutShort), m) :=
      run_bind_of_error hf _
    have hs := run_step_of_error hr hn ha
    exact absurd ((waitAbandoned_iff h).mp (congrArg Prod.fst hs)) hread
  · exact hsame

/-- **A step fails for want of a key exactly if it asks for one in vain**, unless the interrupt
arrives at a read. -/
theorem inputExhausted_iff (h : b.machine.console.Heard on) :
    (step.run b).1 = .error (.hostIO .inputExhausted) ↔ b.OutOfKeys ∧ ¬b.Arrives .read := by
  by_cases hread : b.Arrives .read
  · rw [(waitAbandoned_iff h).mpr hread]
    simp [hread]
  have houtcome : (step.run b).1 = (step.run (b.guarded false)).1 := by
    rcases step_follows h with ⟨hf, -⟩ | ⟨houtcome, -⟩
    · exact absurd ((waitAbandoned_iff h).mp hf) hread
    · exact houtcome
  rw [houtcome, documented_of_unguarded]
  constructor
  · intro hf
    cases hf with
    | noKey hr hl hf hw hkey =>
      have hn : b.reachedLimit = none := reachedLimit_eq_none_iff.mpr hl
      have hfetch := fetch_of_not_arrives h hr hn hread
      rcases hb : Machine.fetch.run b.machine with ⟨r, m'⟩
      rw [hf, hb] at hfetch
      obtain rfl : r = .ok _ := hfetch
      exact ⟨⟨⟨_, _, ⟨hr, hn, m', hb⟩, hw⟩, (upcoming_eq_error_iff.mp hkey).1⟩, hread⟩
  · rintro ⟨⟨⟨a, w, ⟨hr, hn, m, hf⟩, hw⟩, hkeys⟩, -⟩
    obtain ⟨rfl, -⟩ := Machine.fetch_ok hf
    have hfetch := fetch_of_not_arrives h hr hn hread
    rw [hf] at hfetch
    rcases hu : Machine.fetch.run (b.guarded false).machine with ⟨r, m'⟩
    rw [hu] at hfetch
    obtain rfl : r = .ok (b.machine.registers.pc, w) := hfetch.symm
    exact .noKey hr (reachedLimit_eq_none_iff.mp hn) hu hw (upcoming_eq_error_iff.mpr ⟨hkeys, rfl⟩)

/-- **The four ways in which a step of a running machine ends**: it returns, it meets the limit,
it asks for a key in vain, or it is interrupted at a read. -/
theorem step_outcome (h : b.machine.console.Heard on) (hr : b.machine.halted = false) :
    (∃ c, (step.run b).1 = .ok c) ∨ (∃ n, (step.run b).1 = .error (.cycleLimit n)) ∨
      (step.run b).1 = .error (.hostIO .inputExhausted) ∨
      (step.run b).1 = .error (.wait .cutShort) := by
  rcases step_follows h with ⟨hf, -⟩ | ⟨houtcome, -⟩
  · exact Or.inr (Or.inr (Or.inr hf))
  · rcases hu : (step.run (b.guarded false)).1 with f | c
    · rw [hu] at houtcome
      cases documented_of_unguarded.mp hu with
      | halted hh => cases hr.symm.trans hh
      | limit => exact Or.inr (Or.inl ⟨_, houtcome⟩)
      | noKey _ _ _ _ hkey =>
        obtain ⟨-, rfl⟩ := upcoming_eq_error_iff.mp hkey
        exact Or.inr (Or.inr (Or.inl houtcome))
    · exact Or.inl ⟨c, houtcome.trans hu⟩

/-- **A step meets the limit exactly if that is reached.** -/
theorem cycleLimit_iff (h : b.machine.console.Heard on) {n : Int} :
    (step.run b).1 = .error (.cycleLimit n) ↔
      b.machine.halted = false ∧ b.reachedLimit = some n := by
  constructor
  · intro hf
    rcases step_follows h with ⟨hf', -⟩ | ⟨houtcome, -⟩
    · cases hf.symm.trans hf'
    · cases documented_of_unguarded.mp (houtcome.symm.trans hf) with
      | limit hr hl hn => exact ⟨hr, reachedLimit_eq_some_iff.mpr ⟨hl, hn⟩⟩
  · rintro ⟨hr, hn⟩
    rw [run_step_of_limit hr hn]

/-- **Along completed instructions the interrupt is to come or over.** -/
theorem heard_iterate (h : b.machine.console.Heard on) {k : Nat} (hk : b.Completes k) :
    (next^[k] b).machine.console.Heard on := by
  induction k with
  | zero => exact h
  | succ k ih =>
    obtain ⟨hk, c, hc⟩ := completes_succ.mp hk
    rw [Function.iterate_succ_apply']
    rcases step_follows (ih hk) with ⟨hf, -⟩ | ⟨-, hheard⟩
    · cases hc.symm.trans hf
    · exact hheard

end Processor

end LittleComputer
