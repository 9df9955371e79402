import LittleComputer.Proofs.CallFrame

/-!
# What a missing key leaves behind

A service that asks for a key fails if the script has no more. By then the instruction is half
done: it was fetched, the link is in `R7`, and a prompt may have been shown. Nothing of this is
undone, and nothing else has happened. So the machine is one that stands behind the call, with the
count of instructions and the trace of before, and if it goes on it goes on there.

That it can only be such a service is the other half. Any other read of a cell can be one of the
keyboard status register, but that takes a key only after a poll that has found one. So no other
action fails for want of a key (`LittleComputer.Machine.NeverStarves`), not even if an interrupt
abandons a wait.

The main statement is `LittleComputer.Processor.missing_key_leaves_link`.
-/

namespace LittleComputer

open Memory

namespace Machine

variable {α β : Type} {m m' : Machine ScriptedTerminal} {s : Service} {reason : HostFault}

/-! ### What does not fail for want of a key -/

/-- An action that does not fail for want of a key. It may fail because a wait is abandoned. -/
def NeverStarves (a : Action ScriptedTerminal α) : Prop :=
  ∀ m reason, (a.run m).1 ≠ .error (.hostIO reason)

theorem NeverStarves.pure (x : α) : NeverStarves (pure x) := by
  rintro m reason ⟨⟩

theorem NeverStarves.bind {a : Action ScriptedTerminal α} {f : α → Action ScriptedTerminal β}
    (ha : NeverStarves a) (hf : ∀ x, NeverStarves (f x)) : NeverStarves (a >>= f) := by
  intro m reason h
  rw [run_bind] at h
  rcases hrun : a.run m with ⟨e | x, m₁⟩ <;> rw [hrun] at h
  · cases h
    exact ha m reason (congrArg Prod.fst hrun)
  · exact hf x m₁ reason h

theorem Aside.neverStarves {a : Action ScriptedTerminal α} (h : Aside a) : NeverStarves a := by
  intro m reason hf
  obtain ⟨x, m', hrun, -⟩ := h m
  rw [hrun] at hf
  cases hf

/-- **A read of a cell does not fail for want of a key**: it takes one only if there is one. -/
theorem neverStarves_readCell (address : Word) :
    NeverStarves (readCell (T := ScriptedTerminal) address) := by
  intro m reason h
  by_cases ha : address = keyboardStatus
  · subst ha
    have hpoll := run_poll_scripted m
    cases hready : !m.keys.isEmpty with
    | false =>
      rw [hready] at hpoll
      rw [run_readCell_status_of_ok (run_latchKey_of_none hpoll)] at h
      cases h
    | true =>
      rw [hready] at hpoll
      let m₁ : Machine ScriptedTerminal := { m with
        memory := m.memory.write keyboardStatus keyReady
        console := (m.console.strike .poll).2 }
      have hkeys : m₁.keys = m.keys :=
        congrArg ScriptedTerminal.keys (m.console.strike_terminal .poll)
      rcases hread : readKey.run m₁ with ⟨f | key, m₂⟩
      · rw [run_readCell_status_of_error (run_latchKey_of_error hpoll hread)] at h
        cases h
        have hempty := (run_readKey_scripted m₁).2 reason (congrArg Prod.fst hread)
        rw [← hkeys, hempty] at hready
        cases hready
      · rw [run_readCell_status_of_ok (run_latchKey_of_key hpoll hread)] at h
        cases h
  · rw [run_readCell_of_ne ha] at h
    cases h

theorem NeverStarves.closedUnderReading :
    ClosedUnderReading fun α => NeverStarves (α := α) where
  aside := Aside.neverStarves
  readCell := neverStarves_readCell
  bind := NeverStarves.bind

theorem NeverStarves.closedUnderShowing : ClosedUnderShowing NeverStarves where
  pure := .pure ()
  bind := fun ha hb => ha.bind fun _ => hb
  showByte := by rintro b m reason ⟨⟩
  flush := by rintro m reason ⟨⟩

/-- **Only a service that asks for a key fails for want of one.** -/
theorem neverStarves_serve (hs : ¬s.IsAsking) : NeverStarves (serve (T := ScriptedTerminal) s) :=
  NeverStarves.closedUnderReading.serve NeverStarves.closedUnderShowing
    (by rintro n m reason ⟨⟩) hs

/-- **An instruction that fails for want of a key** was a call of a service that asks for one. -/
theorem calls_of_starved (h : attempt.run m = (.error (.hostIO reason), m')) :
    ∃ s : Service, s.IsAsking ∧ m.Calls s ∧
      (serve s).run (((m.fetched m.registers.pc).announced m.registers.pc
        (m.memory.peek m.registers.pc)).called s) = (.error (.hostIO reason), m') := by
  rcases attempt_error h with hf | ⟨a, w, m₁, hf, he⟩
  · exact absurd (congrArg Prod.fst hf) (NeverStarves.closedUnderReading.fetch m reason)
  · by_cases hw : ∃ s, Instruction.decode w = .trap s
    · obtain ⟨s, hw⟩ := hw
      have hcalls := calls_of_fetch hf hw
      cases hf.symm.trans hcalls.run_fetch
      rw [hw, run_effect_trap] at he
      refine ⟨s, ?_, hcalls, he⟩
      by_contra hs
      exact neverStarves_serve hs _ reason (congrArg Prod.fst he)
    · exact absurd (congrArg Prod.fst he) (NeverStarves.closedUnderReading.effect
        (fun s hs => hw ⟨s, hs⟩) (m₁.announced a w) reason)

/-! ### What is left of the call -/

/-- **What a missing key leaves of the machine**: the call is linked, and no more than the opening
of the service has been shown. -/
theorem linked_of_starved (h : attempt.run m = (.error (.hostIO reason), m')) :
    ∃ s : Service, s.IsAsking ∧ m.Calls s ∧ m.keys = [] ∧
      ∃ c, m' = { m.linked with console := c } ∧ c.terminal.keys = [] ∧
        c.terminal.output = m.output ++ s.opening := by
  obtain ⟨s, hs, hcalls, hserve⟩ := calls_of_starved h
  rcases serve_cases_of_isAsking hs (((m.fetched m.registers.pc).announced m.registers.pc
    (m.memory.peek m.registers.pc)).called s) with
    ⟨key, c, hrun, -⟩ | ⟨f, c, hrun, hkeys, houtput, hempty⟩
  · cases hrun.symm.trans hserve
  · cases hrun.symm.trans hserve
    have hnone : m.keys = [] := hempty reason rfl
    exact ⟨s, hs, hcalls, hnone, c, rfl, hkeys.trans hnone, houtput⟩

/-- On a script without keys a fetch finds what is in the cell, or zero if it is the keyboard status
register. -/
theorem fetched_word_of_nil {address w : Word} (hkeys : m.keys = [])
    (h : fetch.run m = (.ok (address, w), m')) :
    w = if address = keyboardStatus then 0 else m.memory.peek address := by
  obtain ⟨-, m₁, hread, -⟩ := fetch_ok h
  split
  · rename_i ha
    by_contra hw
    have htaken := run_readCell_scripted hread hw
    rw [if_pos ha, hkeys, List.length_nil] at htaken
    exact absurd htaken (Nat.not_succ_le_zero _)
  · rename_i ha
    rw [run_readCell_of_ne ha] at hread
    cases hread
    rfl

end Machine

namespace Processor

variable {p q : Processor ScriptedTerminal} {reason : HostFault}

/-- **What a missing key leaves of a processor**: the program counter is past the call and the link
is in `R7`, and everything else is as it was. -/
structure LeavesLink (p q : Processor ScriptedTerminal) : Prop where
  pc : q.machine.registers.pc = p.machine.registers.pc + 1
  link : q.machine.registers.read (.general 7) = p.machine.registers.pc + 1
  registers : ∀ t, t ≠ .pc → t ≠ .general 7 →
    q.machine.registers.read t = p.machine.registers.read t
  memory : q.machine.memory = p.machine.memory
  running : q.machine.halted = false
  cycles : q.machine.cycles = p.machine.cycles
  fault : q.fault = p.fault
  trace : q.trace = p.trace
  settings : q.limit = p.limit ∧ q.tracing = p.tracing
  keys : q.machine.keys = []
  guarded : q.machine.console.guarded = p.machine.console.guarded

/-- **A processor goes on behind a call that has failed**: it is running and below its limit, and
the next instruction that it completes is the one at the address after the call, with the number
that the call would have had. If no wait is abandoned, that instruction is fetched, and it is
completed unless it asks for a key again. -/
structure GoesOnBehind (p q : Processor ScriptedTerminal) : Prop where
  running : q.machine.halted = false
  allowed : q.reachedLimit = none
  next : ∀ c q', step.run q = (.ok c, q') → c.number = p.machine.cycles ∧
    c.address = p.machine.registers.pc + 1 ∧ q'.machine.cycles = p.machine.cycles + 1
  fetches : q.machine.console.IsPatient → ∃ w, q.Fetches (p.machine.registers.pc + 1) w ∧
    (w = if p.machine.registers.pc + 1 = keyboardStatus then 0
      else p.machine.memory.peek (p.machine.registers.pc + 1)) ∧
    (¬AsksForKey w →
      (step.run q).1 = .ok ⟨p.machine.cycles, p.machine.registers.pc + 1, w⟩)

theorem LeavesLink.goesOnBehind (h : p.LeavesLink q) (hn : p.reachedLimit = none) :
    p.GoesOnBehind q where
  running := h.running
  allowed := by rw [reachedLimit, h.settings.1, h.cycles, ← reachedLimit, hn]
  next := by
    intro c q' hs
    obtain ⟨a, w, m, -, -, ha, rfl, hs'⟩ := step_ok (congrArg Prod.fst hs)
    cases hs.symm.trans hs'
    obtain ⟨m₁, m₂, hfetch, -, -⟩ := Machine.attempt_ok ha
    have hcycles := Machine.cycles_attempt q.machine
    rw [ha, h.cycles] at hcycles
    exact ⟨h.cycles, (Machine.fetch_ok hfetch).1.trans h.pc, hcycles⟩
  fetches := by
    intro hpatient
    have hsound : q.machine.console.IsSound fun _ => True := ⟨hpatient, trivial⟩
    have hallowed : q.reachedLimit = none := by
      rw [reachedLimit, h.settings.1, h.cycles, ← reachedLimit, hn]
    obtain ⟨w, m₁, hfetch, hsound₁⟩ := Machine.fetch_of_sound ScriptedTerminal.dependable hsound
    have hword := Machine.fetched_word_of_nil h.keys hfetch
    rw [h.memory, h.pc] at hword
    rw [h.pc] at hfetch
    refine ⟨w, ⟨h.running, hallowed, m₁, hfetch⟩, hword, fun hw => ?_⟩
    have hattempt := Machine.outcome_attempt_of_not_asksForKey ScriptedTerminal.dependable hsound₁
      hfetch hw
    rw [run_step_of_ok h.running hallowed (Prod.ext hattempt rfl), h.cycles]

/-- **What an input failure leaves behind.** If a step of a processor on a script fails for want of
a key, whatever is in its registers and in memory, with a trace or without:

* The machine was running and below its limit, what it has fetched from its program counter `a` is
  a trap that calls a service that asks for a key, and the script had no keys.
* Afterwards the program counter and `R7` are the address after `a`. All other registers, all cells,
  the count of instructions, the fault and the trace are as they were, the machine has not halted,
  and the script has no keys.
* Nothing has been shown by the service that takes a key without showing it, and exactly the prompt
  by the one that prompts for it.
* The processor goes on behind the call, which is not counted. -/
theorem missing_key_leaves_link (h : step.run p = (.error (.hostIO reason), q)) :
    ∃ s w, p.Fetches p.machine.registers.pc w ∧ Opcode.ofWord w = .trap ∧
      Field.vector w = s.vector ∧
      (s = Service.getc ∧ q.machine.output = p.machine.output ∨
        s = Service.input ∧
          q.machine.output = p.machine.output ++ bytesOfText Service.prompt) ∧
      p.machine.keys = [] ∧ p.LeavesLink q ∧ p.GoesOnBehind q := by
  have hguarded : q.machine.console.guarded = p.machine.console.guarded := by
    have hrequest := keeps_step (fun _ => keeps_request) (fun _ => rfl) p
    rw [h] at hrequest
    exact congrArg Prod.fst hrequest
  rcases step_cases p with ⟨-, hs⟩ | ⟨n, -, -, hs⟩ | ⟨f, m, hr, hn, ha, hs⟩ | ⟨a, w, m, -, -, -, hs⟩
  · cases h.symm.trans hs
  · cases h.symm.trans hs
  · cases h.symm.trans hs
    obtain ⟨s, hask, hcalls, hnone, c, rfl, hkeys, houtput⟩ := Machine.linked_of_starved ha
    obtain ⟨ho, hv⟩ := Instruction.decode_eq_trap_iff.mp hcalls.decoded
    have hleaves : p.LeavesLink { p with machine := { p.machine.linked with console := c } } :=
      { pc := rfl
        link := (p.machine.read_linked (.general 7)).trans (if_pos (Or.inr rfl))
        registers := fun t hpc h7 =>
          (p.machine.read_linked t).trans (if_neg (not_or.mpr ⟨hpc, h7⟩))
        memory := rfl
        running := hr
        cycles := rfl
        fault := rfl
        trace := rfl
        settings := ⟨rfl, rfl⟩
        keys := hkeys
        guarded := hguarded }
    refine ⟨s, p.machine.memory.peek p.machine.registers.pc, ⟨hr, hn, _, hcalls.run_fetch⟩, ho, hv,
      ?_, hnone, hleaves, hleaves.goesOnBehind hn⟩
    cases s with
    | getc => exact Or.inl ⟨rfl, houtput.trans (List.append_nil _)⟩
    | input => exact Or.inr ⟨rfl, houtput⟩
    | _ => cases hask
  · cases h.symm.trans hs

/-- A processor that keeps a trace, prompts for a key, and then halts. -/
def promptInVain : Processor ScriptedTerminal :=
  launch (Memory.cleared.load 0x3000 [0xF023, 0xF025]) { terminal := { keys := [] } } none true 4

/-- Its first step fails, and its second carries out the instruction behind the call, as the first
that is counted. -/
theorem missing_key_of_promptInVain :
    ∃ q, step.run promptInVain = (.error (.hostIO .inputExhausted), q) ∧
      q.machine.registers.read (.general 7) = 0x3001 ∧ q.trace = promptInVain.trace ∧
      q.machine.output = bytesOfText Service.prompt ∧
      (step.run q).1 = .ok ⟨0, 0x3001, 0xF025⟩ := by
  have hasks : AsksForKey 0xF023 := ⟨by decide, Or.inr (by decide)⟩
  have houtcome : (step.run promptInVain).1 = .error (.hostIO .inputExhausted) :=
    (step_error_iff_of_script Bool.noConfusion _).mpr (.noKey rfl (by rintro n ⟨⟩) rfl hasks rfl)
  rcases hfails : step.run promptInVain with ⟨r, q⟩
  rw [hfails] at houtcome
  obtain rfl : r = .error (.hostIO .inputExhausted) := houtcome
  obtain ⟨s, w, hfetches, -, hv, houtput, -, hleaves, hgoesOn⟩ := missing_key_leaves_link hfails
  refine ⟨q, rfl, hleaves.link, hleaves.trace, ?_, ?_⟩
  · obtain ⟨m, hfetch⟩ := hfetches.fetched
    obtain rfl : w = 0xF023 := by
      cases hfetch
      rfl
    rcases houtput with ⟨rfl, -⟩ | ⟨-, houtput⟩
    · exact absurd hv (by decide)
    · exact houtput
  · have hunguarded : q.machine.console.guarded = false := hleaves.guarded
    obtain ⟨w', -, rfl, hcompletes⟩ := hgoesOn.fetches fun hg => by cases hunguarded.symm.trans hg
    refine hcompletes ?_
    rintro ⟨-, hvector | hvector⟩
    · exact absurd hvector (by decide)
    · exact absurd hvector (by decide)

end Processor

end LittleComputer
