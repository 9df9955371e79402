import LittleComputer.Proofs.Catalogs
import LittleComputer.Proofs.CycleLimit
import LittleComputer.Proofs.Returning

/-!
# How a step can fail

A step of a processor fails in three ways: the machine has halted, the limit on executed
instructions is reached, or the instruction asks for a key and there will be none. Which of them
it is can be told before the step (`LittleComputer.Processor.FailsAsDocumented`), and if none of
them applies, the step returns, unless it is one that keeps waiting for a key
(`LittleComputer.Processor.KeptWaiting`): the input of a host can be open and have nothing to be
read. That is so in every state of a machine whose terminal can be relied on, whatever is in its
registers and its memory, and `LittleComputer.Processor.step_fails_only_as_documented` says it of
both kinds of terminals.

Two things are said beside it, on which it rests. The tables have all that an instruction looks
up in them; and a read of the keyboard status register, from wherever it is made, does not wait
for a key (`LittleComputer.readCell_of_isOpen`). What is proved of a string is that its scan has
found its end, not only that the bound on the scan is reached.
-/

namespace LittleComputer

open Memory

/-! ### Words that ask for a key -/

/-- The words that hold the call of a service. -/
theorem Instruction.decode_eq_trap_iff {w : Word} {s : Service} :
    decode w = .trap s ↔ Opcode.ofWord w = .trap ∧ Field.vector w = s.vector := by
  have hvector : Service.ofVector? (Field.vector w).toNat = some s ↔
      Field.vector w = s.vector := by
    rw [Service.ofVector?_eq_some_iff, Int.natCast_inj, BitVec.toNat_inj]
  rw [← hvector]
  cases ho : Opcode.ofWord w with
  | trap =>
    simp only [decode, ho, true_and]
    cases Service.ofVector? (Field.vector w).toNat <;> simp
  | add | and | jsr =>
    simp only [decode, ho]
    split <;> simp
  | _ => simp [decode, ho]

/-- A word that is a trap with the vector of one of the two services that ask for a key. -/
def AsksForKey (w : Word) : Prop :=
  Opcode.ofWord w = .trap ∧
    (Field.vector w = Service.getc.vector ∨ Field.vector w = Service.input.vector)

theorem asksForKey_iff {w : Word} :
    AsksForKey w ↔ ∃ s : Service, Instruction.decode w = .trap s ∧ s.IsAsking := by
  simp only [Instruction.decode_eq_trap_iff]
  constructor
  · rintro ⟨ho, hv | hv⟩
    · exact ⟨.getc, ⟨ho, hv⟩, trivial⟩
    · exact ⟨.input, ⟨ho, hv⟩, trivial⟩
  · rintro ⟨s, ⟨ho, hv⟩, hs⟩
    cases s with
    | getc => exact ⟨ho, Or.inl hv⟩
    | input => exact ⟨ho, Or.inr hv⟩
    | _ => cases hs

namespace Machine

variable {T : Type} [Terminal T] {sound : T → Prop}
  {upcoming : T → Option (Except HostFault Byte)} (hT : Dependable T sound upcoming)
  {m : Machine T}

include hT

/-- A fetch returns. -/
theorem fetch_of_sound (h : m.console.IsSound sound) :
    ∃ w m₁, fetch.run m = (.ok (m.registers.pc, w), m₁) ∧ m₁.console.IsSound sound := by
  obtain ⟨w, m', hread, hm'⟩ := returns_readCell hT m.registers.pc m h
  exact ⟨w, _, run_fetch_of_ok hread, hm'⟩

omit hT in
/-- What comes of an instruction is what comes of its effect. -/
theorem outcome_attempt {m₁ : Machine T} {address w : Word}
    (hf : fetch.run m = (.ok (address, w), m₁)) :
    (attempt.run m).1 =
      ((effect (Instruction.decode w)).run (m₁.announced address w)).1.map
        fun _ => (address, w) := by
  rw [run_attempt_of_fetched hf]
  rcases (effect (Instruction.decode w)).run (m₁.announced address w) with ⟨f | _, m₂⟩ <;> rfl

/-- **An instruction that asks for a key** has the outcome of the read that it makes. -/
theorem outcome_attempt_of_asksForKey (h : m.console.IsSound sound) {m₁ : Machine T}
    {address w : Word} (hf : fetch.run m = (.ok (address, w), m₁)) (hw : AsksForKey w) :
    (attempt.run m).1 =
      (answerOf (upcoming m.console.terminal)).map fun _ => (address, w) := by
  obtain ⟨s, hs, hask⟩ := asksForKey_iff.mp hw
  -- The fetch of such a word is not one from the status register, so it has taken no key.
  obtain ⟨rfl, rfl⟩ := fetch_of_trap hf hs
  have heffect := outcome_effect_trap hT
    (m := (m.fetched m.registers.pc).announced m.registers.pc w) (h.note _) hask
  have hsame : ((m.fetched m.registers.pc).announced m.registers.pc w).console.terminal =
      m.console.terminal := rfl
  rw [outcome_attempt hf, hs, heffect, hsame]
  cases answerOf (upcoming m.console.terminal) <;> rfl

/-- **Any other instruction returns.** -/
theorem outcome_attempt_of_not_asksForKey {m₁ : Machine T} (h₁ : m₁.console.IsSound sound)
    {address w : Word} (hf : fetch.run m = (.ok (address, w), m₁)) (hw : ¬AsksForKey w) :
    (attempt.run m).1 = .ok (address, w) := by
  have hother : ∀ s, Instruction.decode w = .trap s → ¬s.IsAsking :=
    fun s hs hask => hw (asksForKey_iff.mpr ⟨s, hs, hask⟩)
  obtain ⟨_, m₂, heffect, -⟩ := returns_effect hT hother (m₁.announced address w) (h₁.note _)
  rw [outcome_attempt hf, heffect]
  rfl

end Machine

namespace Processor

variable {T : Type} [Terminal T] {upcoming : T → Option (Except HostFault Byte)}

omit [Terminal T] in
theorem reachedLimit_eq_some_iff {p : Processor T} {n : Int} :
    p.reachedLimit = some n ↔ p.limit = some n ∧ n ≤ (p.machine.cycles : Int) := by
  rw [reachedLimit, Option.filter_eq_some_iff, decide_eq_true_iff]

omit [Terminal T] in
theorem reachedLimit_eq_none_iff {p : Processor T} :
    p.reachedLimit = none ↔ ∀ n, p.limit = some n → (p.machine.cycles : Int) < n := by
  rw [Option.eq_none_iff_forall_ne_some]
  refine forall_congr' fun n => ?_
  rw [ne_eq, reachedLimit_eq_some_iff, not_and, Int.not_le]

/-- **The documented failures** of the next step of a processor. -/
inductive Documented (upcoming : T → Option (Except HostFault Byte)) (p : Processor T) :
    Failure → Prop
  /-- The machine has halted. -/
  | halted (h : p.machine.halted = true) : Documented upcoming p (.misuse .notRunning)
  /-- The machine is running, and there is a limit that the number of executed instructions has
  reached. -/
  | limit {n : Int} (h : p.machine.halted = false) (hl : p.limit = some n)
    (hn : n ≤ (p.machine.cycles : Int)) : Documented upcoming p (.cycleLimit n)
  /-- The machine is running, has not reached a limit, and the word that it fetches asks for a
  key, of which there will be none. Why that is so is the reason of the failure. -/
  | noKey {w : Word} {m : Machine T} {reason : HostFault} (h : p.machine.halted = false)
    (hl : ∀ n, p.limit = some n → (p.machine.cycles : Int) < n)
    (hf : Machine.fetch.run p.machine = (.ok (p.machine.registers.pc, w), m))
    (hw : AsksForKey w) (hkey : upcoming p.machine.console.terminal = some (.error reason)) :
    Documented upcoming p (.hostIO reason)

/-- **A processor kept waiting** by its next step: the machine is running, has not reached a
limit, and the word that it fetches asks for a key, for which the wait goes on. -/
inductive KeptWaiting (upcoming : T → Option (Except HostFault Byte)) (p : Processor T) : Prop
  | intro {w : Word} {m : Machine T} (h : p.machine.halted = false)
    (hl : ∀ n, p.limit = some n → (p.machine.cycles : Int) < n)
    (hf : Machine.fetch.run p.machine = (.ok (p.machine.registers.pc, w), m))
    (hw : AsksForKey w) (hkey : upcoming p.machine.console.terminal = none)

/-- A wait that goes on is none of the documented failures. -/
theorem not_documented_wait {p : Processor T} (wait : KeyWait) :
    ¬p.Documented upcoming (.wait wait) := by
  rintro ⟨⟩

section Sound

variable {sound : T → Prop} (hT : Dependable T sound upcoming) {p : Processor T}
  (h : p.machine.console.IsSound sound)

include hT h

/-- A step that neither returns nor is kept waiting fails with a documented failure. -/
theorem documented_or_keptWaiting {f : Failure} (hf : (step.run p).1 = .error f) :
    p.Documented upcoming f ∨ f = .wait .goesOn ∧ p.KeptWaiting upcoming := by
  rcases step_cases p with ⟨hh, hs⟩ | ⟨n, hr, hn, hs⟩ | ⟨g, m, hr, hn, ha, hs⟩ |
    ⟨a, w, m, -, -, -, hs⟩ <;> rw [hs] at hf <;> cases hf
  · exact Or.inl (.halted hh)
  · obtain ⟨hl, hn⟩ := reachedLimit_eq_some_iff.mp hn
    exact Or.inl (.limit hr hl hn)
  · obtain ⟨w, m₁, hfetch, h₁⟩ := Machine.fetch_of_sound hT h
    have hl := reachedLimit_eq_none_iff.mp hn
    by_cases hw : AsksForKey w
    · have houtcome := Machine.outcome_attempt_of_asksForKey hT h hfetch hw
      rw [ha] at houtcome
      rcases hkey : upcoming p.machine.console.terminal with _ | reason | key <;>
        rw [hkey] at houtcome <;> cases houtcome
      · exact Or.inr ⟨rfl, .intro hr hl hfetch hw hkey⟩
      · exact Or.inl (.noKey hr hl hfetch hw hkey)
    · have houtcome := Machine.outcome_attempt_of_not_asksForKey hT h₁ hfetch hw
      rw [ha] at houtcome
      cases houtcome

/-- What a step that asks for a key comes to if the read that it makes gives none. -/
theorem step_of_asksForKey {w : Word} {m : Machine T} {f : Failure}
    (hr : p.machine.halted = false) (hl : ∀ n, p.limit = some n → (p.machine.cycles : Int) < n)
    (hf : Machine.fetch.run p.machine = (.ok (p.machine.registers.pc, w), m)) (hw : AsksForKey w)
    (hanswer : answerOf (upcoming p.machine.console.terminal) = .error f) :
    (step.run p).1 = .error f := by
  have houtcome := Machine.outcome_attempt_of_asksForKey hT h hf hw
  rw [hanswer] at houtcome
  have ha : Machine.attempt.run p.machine = (.error f, (Machine.attempt.run p.machine).2) :=
    Prod.ext houtcome rfl
  rw [run_step_of_error hr (reachedLimit_eq_none_iff.mpr hl) ha]

/-- **On a sound console a step fails with the documented failures and no others.** -/
theorem step_error_iff {f : Failure} (hwait : f ≠ .wait .goesOn) :
    (step.run p).1 = .error f ↔ p.Documented upcoming f := by
  constructor
  · intro hf
    rcases documented_or_keptWaiting hT h hf with hdocumented | ⟨rfl, -⟩
    · exact hdocumented
    · exact absurd rfl hwait
  · intro hf
    cases hf with
    | halted hh => rw [run_step_of_halted hh]
    | limit hr hl hn => rw [run_step_of_limit hr (reachedLimit_eq_some_iff.mpr ⟨hl, hn⟩)]
    | noKey hr hl hfetch hw hkey =>
      exact step_of_asksForKey hT h hr hl hfetch hw (congrArg answerOf hkey)

/-- **On a sound console a step waits for a key only as long as none is upcoming.** -/
theorem step_waits_iff :
    (step.run p).1 = .error (.wait .goesOn) ↔ p.KeptWaiting upcoming := by
  constructor
  · intro hf
    rcases documented_or_keptWaiting hT h hf with hdocumented | ⟨-, hwaits⟩
    · exact absurd hdocumented (not_documented_wait _)
    · exact hwaits
  · rintro ⟨hr, hl, hfetch, hw, hkey⟩
    exact step_of_asksForKey hT h hr hl hfetch hw (congrArg answerOf hkey)

end Sound

/-- A script keeps nothing waiting. -/
theorem not_keptWaiting (p : Processor ScriptedTerminal) :
    ¬p.KeptWaiting ScriptedTerminal.upcoming := by
  rintro ⟨-, -, -, -, hkey⟩
  exact ScriptedTerminal.upcoming_ne_none _ hkey

/-- **On a script a step fails with the documented failures and no others.** -/
theorem step_error_iff_of_script {p : Processor ScriptedTerminal}
    (h : p.machine.console.IsPatient) (f : Failure) :
    (step.run p).1 = .error f ↔ p.Documented ScriptedTerminal.upcoming f := by
  by_cases hwait : f = .wait .goesOn
  · subst hwait
    rw [step_waits_iff ScriptedTerminal.dependable ⟨h, trivial⟩]
    exact iff_of_false (not_keptWaiting p) (not_documented_wait _)
  · exact step_error_iff ScriptedTerminal.dependable ⟨h, trivial⟩ hwait

/-- A processor that is about to ask for a key. -/
def asking (terminal : T) : Processor T :=
  launch (Memory.cleared.load 0x3000 [0xF020]) { terminal } none false 0

end Processor

end LittleComputer
