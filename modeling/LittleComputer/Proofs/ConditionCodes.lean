import LittleComputer.Proofs.Run
import LittleComputer.Terminal.Scripted

/-!
# The condition register follows the last result

Of all that a machine can do only `LittleComputer.Machine.assign` touches the
condition register, and it does so last: when a result has been found and nothing can
fail any more. So an instruction that fails part way leaves the condition register
alone, whichever instruction it is, and one that is completed leaves in it the flag of
the word it has written, or leaves it alone as well
(`LittleComputer.Processor.cond_step`).

What was written last is a matter of the past, and no state tells it. It is kept beside
the state instead: `LittleComputer.Processor.Driven p ws` says that `p` can be reached by
loading, stepping and running, with anything happening at the console in between, and
that `ws` are the words written on the way, the latest first. The main statement is
`LittleComputer.Processor.cond_follows_last_result`.
-/

namespace LittleComputer

variable {T : Type}

/-- The flag of the latest of some words, which come latest first. Before there is one it
is that of a zero. -/
def Flag.ofLast : List Word → Flag
  | [] => zero
  | w :: _ => ofWord w

theorem Flag.code_injective : ∀ {f g : Flag}, f.code = g.code → f = g := by
  intro f g h
  cases f <;> cases g <;> first | rfl | cases h

/-- The condition register after an instruction, from what it was and the word that was
written, if one was that it follows. -/
def Flag.condAfter (before : Word) : Option Word → Word
  | some w => (ofWord w).code
  | none => before

/-! ### On the machine -/

namespace Machine

/-- The word that an instruction has left behind for the condition register to follow,
if it is one of those that it follows. -/
def written (m : Machine T) (i : Instruction) : Option Word :=
  i.target?.map fun dest => m.registers.read (.general dest)

theorem cond_writeSlot {s : Slot} (h : s ≠ .cond) (regs : Registers) (value : Word) :
    (regs.write s value).cond = regs.cond := by
  have hread := Registers.read_write regs s .cond value
  rw [if_neg h] at hread
  exact hread

variable [Terminal T]

/-- What is plain does not touch the condition register. -/
theorem keeps_cond {α : Type} (c : Primitive α) (h : c.IsPlain) :
    Keeps (fun m : Machine T => m.registers.cond) c.perform := by
  intro m
  cases c with
  | writeSlot s value => exact cond_writeSlot h m.registers value
  | countCycle => cases h
  | _ => rfl

theorem keeps_cond_of_loading {α : Type} {a : ∀ (T : Type) [Terminal T], Action T α}
    (ha : Composed Primitive.IsLoading a) : Keeps (fun m : Machine T => m.registers.cond) (a T) :=
  ha.keeps fun _ c hc => keeps_cond c hc.isPlain

/-- An effect that fails part way has not touched the condition register. -/
theorem cond_effect_of_error {i : Instruction} {m m' : Machine T} {f : Failure}
    (h : (effect i).run m = (.error f, m')) : m'.registers.cond = m.registers.cond := by
  cases hi : i.target? with
  | none =>
    have hkeep := (plain_effect hi).keeps (fun _ => keeps_cond) m
    rw [h] at hkeep
    exact hkeep
  | some dest =>
    rw [effect_eq_assign hi, run_bind] at h
    have hkeep := (mild_result i).plain.keeps (fun _ => keeps_cond) m
    rcases hr : (result i).run m with ⟨g | value, m₁⟩ <;> rw [hr] at h hkeep
    · cases h
      exact hkeep
    · cases h

/-- **An effect that is carried out to its end** leaves the flag of what it has written. -/
theorem cond_effect_of_ok {i : Instruction} {m m' : Machine T}
    (h : (effect i).run m = (.ok (), m')) :
    m'.registers.cond = Flag.condAfter m.registers.cond (m'.written i) := by
  cases hi : i.target? with
  | none =>
    have hkeep := (plain_effect hi).keeps (fun _ => keeps_cond) m
    rw [h] at hkeep
    rw [written, hi]
    exact hkeep
  | some dest =>
    rw [effect_eq_assign hi, run_bind] at h
    rcases hr : (result i).run m with ⟨g | value, m₁⟩ <;> rw [hr] at h
    · cases h
    · change (assign dest value).run m₁ = _ at h
      rw [run_assign] at h
      cases h
      have hread : (m₁.assigned dest value).registers.read (.general dest) = value := by
        rw [assigned, Registers.read_write, if_neg Slot.noConfusion, Registers.read_write_self]
      simp only [written, hi, Option.map_some, hread]
      rfl

theorem cond_fetch {m m₁ : Machine T} {address instruction : Word}
    (h : fetch.run m = (.ok (address, instruction), m₁)) :
    m₁.registers.cond = m.registers.cond := by
  have hkeep := mild_fetch.plain.keeps (fun _ => keeps_cond) m
  rw [h] at hkeep
  exact hkeep

theorem cond_attempt_of_error {m m' : Machine T} {f : Failure}
    (h : attempt.run m = (.error f, m')) : m'.registers.cond = m.registers.cond := by
  rcases attempt_error h with hf | ⟨a, w, m₁, hf, he⟩
  · have hkeep := mild_fetch.plain.keeps (fun _ => keeps_cond) m
    rw [hf] at hkeep
    exact hkeep
  · have hcond : m₁.registers.cond = m.registers.cond := cond_fetch hf
    exact (cond_effect_of_error he).trans hcond

theorem cond_attempt_of_ok {m m' : Machine T} {address instruction : Word}
    (h : attempt.run m = (.ok (address, instruction), m')) :
    m'.registers.cond =
      Flag.condAfter m.registers.cond (m'.written (Instruction.decode instruction)) := by
  obtain ⟨m₁, m₂, hf, he, rfl⟩ := attempt_ok h
  have hcond : m₁.registers.cond = m.registers.cond := cond_fetch hf
  exact (cond_effect_of_ok he).trans (congrArg (Flag.condAfter · _) hcond)

end Machine

/-! ### Along a run -/

namespace Processor

variable [Terminal T]

/-- The word that the next step writes and the condition register follows, if the step
returns and has carried out an instruction that writes such a word. -/
def written (p : Processor T) : Option Word :=
  match step.run p with
  | (.ok c, q) => q.machine.written c.decoded
  | (.error _, _) => none

/-- The words that a run writes and the condition register follows, the latest first. -/
def writtenIn : (allowance : Nat) → Processor T → List Word
  | 0, _ => []
  | allowance + 1, p =>
    match boundary.run p with
    | (.ok none, p) =>
      match step.run p with
      | (.ok _, q) => q.writtenIn allowance ++ p.written.toList
      | (.error _, _) => []
    | _ => []

/-- **Driven processors**: those that are reached from one that was switched on by
loading images, by steps, and by runs with and without interrupts; each with the words
that were written on the way and that the condition register follows, the latest first.
Between two of these anything may happen at the console: a stop is asked for, an
interrupt is set for some call to come, further keys arrive. -/
inductive Driven : Processor T → List Word → Prop
  | powerOn (console : Console T) (limit : Option Int) (tracing : Bool) (depth : Nat) :
    Driven (powerOn console limit tracing depth) []
  | loadImage {p : Processor T} {ws : List Word} (h : Driven p ws) (name : String)
      (bytes : List Byte) : Driven ((onMachine (Machine.loadImage name bytes)).run p).2 ws
  | loadFile {p : Processor T} {ws : List Word} (h : Driven p ws) (read : FileReader)
      (path : String) : Driven ((onMachine (Machine.loadFile read path)).run p).2 ws
  | step {p : Processor T} {ws : List Word} (h : Driven p ws) :
    Driven (step.run p).2 (p.written.toList ++ ws)
  | run {p : Processor T} {ws : List Word} (h : Driven p ws) (allowance : Nat) :
    Driven ((run allowance).run p).2 (p.writtenIn allowance ++ ws)
  | guardedRun {p : Processor T} {ws : List Word} (h : Driven p ws) (allowance : Nat) :
    Driven ((guardedRun allowance).run p).2 ((p.guarded true).writtenIn allowance ++ ws)
  | console {p : Processor T} {ws : List Word} (h : Driven p ws) (f : Console T → Console T) :
    Driven (p.onConsole f) ws

/-- **What a step makes of the condition register.** -/
theorem cond_step (p : Processor T) :
    (step.run p).2.machine.registers.cond =
      Flag.condAfter p.machine.registers.cond p.written := by
  rcases step_cases p with ⟨-, hs⟩ | ⟨n, -, -, hs⟩ | ⟨f, m, -, -, ha, hs⟩ | ⟨a, w, m, -, -, ha, hs⟩
  · simp only [written, hs]
    rfl
  · simp only [written, hs]
    rfl
  · simp only [written, hs]
    exact Machine.cond_attempt_of_error ha
  · simp only [written, hs]
    exact Machine.cond_attempt_of_ok ha

omit [Terminal T] in
theorem registers_boundary (p : Processor T) :
    (boundary.run p).2.machine.registers = p.machine.registers := by
  rcases boundary_cases p with ⟨-, hb⟩ | ⟨-, -, hb⟩ | ⟨-, -, hb⟩ <;> rw [hb]
  rfl

theorem cond_step_of_ofLast {p : Processor T} {ws : List Word}
    (h : p.machine.registers.cond = (Flag.ofLast ws).code) :
    (step.run p).2.machine.registers.cond = (Flag.ofLast (p.written.toList ++ ws)).code := by
  rw [cond_step, h]
  cases p.written <;> rfl

/-- **What a run makes of the condition register.** -/
theorem cond_run_of_ofLast {p : Processor T} {ws : List Word}
    (h : p.machine.registers.cond = (Flag.ofLast ws).code) (allowance : Nat) :
    ((run allowance).run p).2.machine.registers.cond =
      (Flag.ofLast (p.writtenIn allowance ++ ws)).code := by
  induction allowance generalizing p ws with
  | zero => exact (congrArg Registers.cond (registers_boundary p)).trans h
  | succ allowance ih =>
    have hb := registers_boundary p
    rw [run, run_bind, writtenIn]
    rcases hbound : boundary.run p with ⟨f | _ | trace, p'⟩ <;> rw [hbound] at hb
    · exact (congrArg Registers.cond hb).trans h
    · -- The run goes on: one step, and the run after it.
      have hp' : p'.machine.registers.cond = (Flag.ofLast ws).code :=
        (congrArg Registers.cond hb).trans h
      have hstep := cond_step_of_ofLast hp'
      change ((step >>= fun _ => run allowance).run p').2.machine.registers.cond = _
      rw [run_bind]
      rcases hs : step.run p' with ⟨f | c, q⟩ <;> rw [hs] at hstep
      · -- A step that fails has written nothing.
        have hnone : p'.written = none := by rw [written, hs]
        rw [hnone] at hstep
        simp only [hs]
        exact hstep
      · simpa only [hs, List.append_assoc] using ih hstep
    · exact (congrArg Registers.cond hb).trans h

/-! ### Every driven processor -/

/-- **The condition register of a driven processor is the code of the flag of the word
written last.** -/
theorem Driven.cond {p : Processor T} {ws : List Word} (h : Driven p ws) :
    p.machine.registers.cond = (Flag.ofLast ws).code := by
  induction h with
  | powerOn console limit tracing depth => rfl
  | @loadImage p _ _ name bytes ih =>
    exact (Machine.keeps_cond_of_loading (Machine.composed_loadImage name bytes) p.machine).trans ih
  | @loadFile p _ _ read path ih =>
    exact (Machine.keeps_cond_of_loading (Machine.composed_loadFile read path) p.machine).trans ih
  | step _ ih => exact cond_step_of_ofLast ih
  | run _ allowance ih => exact cond_run_of_ofLast ih allowance
  | @guardedRun p ws _ allowance ih =>
    have hp : (p.guarded true).machine.registers.cond = (Flag.ofLast ws).code := ih
    exact cond_run_of_ofLast hp allowance
  | console _ f ih => exact ih

/-! ### Branches -/

/-- A branch that has been fetched is completed, and it is taken if the condition
register has one of its flags. -/
theorem step_of_branch {p : Processor T} {a w : Word} {m₁ : Machine T} {cond : BitVec 3}
    {offset : BitVec 9} (hr : p.machine.halted = false) (hn : p.reachedLimit = none)
    (hf : Machine.fetch.run p.machine = (.ok (a, w), m₁))
    (hw : Instruction.decode w = .br cond offset) :
    ∃ q, step.run p = (.ok ⟨p.machine.cycles, a, w⟩, q) ∧ q.machine.registers.pc =
      if cond.setWidth 16 &&& p.machine.registers.cond ≠ 0 then a + 1 + Field.extended offset
      else a + 1 := by
  have hcond := Machine.cond_fetch hf
  have hpc : m₁.registers.pc = a + 1 := by
    obtain ⟨-, m', -, rfl⟩ := Machine.fetch_ok hf
    rfl
  have ha := Machine.run_attempt_of_fetched hf
  rw [hw, Machine.run_branch, Machine.announced_registers] at ha
  refine ⟨_, run_step_of_ok hr hn ha, ?_⟩
  rw [← hcond, ← hpc]
  by_cases hc : cond.setWidth 16 &&& m₁.registers.cond ≠ 0
  · rw [if_pos hc, if_pos hc]
    rfl
  · rw [if_neg hc, if_neg hc]
    rfl

/-- **The condition register follows the last result.** In every driven processor

* it holds the code of the flag of the word that was written last by a completed
  instruction that sets it, and that of zero if there has been none; so it always holds
  the code of exactly one flag;
* a step that fails does not change it, and neither does one that has carried out any
  other instruction;
* a branch on all three flags is taken and a branch on none is not, whenever one is
  fetched. -/
theorem cond_follows_last_result {p : Processor T} {ws : List Word} (h : Driven p ws) :
    p.machine.registers.cond = (Flag.ofLast ws).code ∧
    (∃! f : Flag, p.machine.registers.cond = f.code) ∧
    (∀ f q, step.run p = (.error f, q) → q.machine.registers.cond = p.machine.registers.cond) ∧
    (∀ c q, step.run p = (.ok c, q) → c.decoded.target? = none →
      q.machine.registers.cond = p.machine.registers.cond) ∧
    ∀ a w m₁ offset, p.machine.halted = false → p.reachedLimit = none →
      Machine.fetch.run p.machine = (.ok (a, w), m₁) →
      (Instruction.decode w = .br 7 offset → ∃ q, step.run p = (.ok ⟨p.machine.cycles, a, w⟩, q) ∧
        q.machine.registers.pc = a + 1 + Field.extended offset) ∧
      (Instruction.decode w = .br 0 offset → ∃ q, step.run p = (.ok ⟨p.machine.cycles, a, w⟩, q) ∧
        q.machine.registers.pc = a + 1) := by
  have hcond := h.cond
  refine ⟨hcond, ⟨Flag.ofLast ws, hcond, fun g hg => ?_⟩, fun f q hs => ?_, fun c q hs hc => ?_, ?_⟩
  · exact Flag.code_injective (hg.symm.trans hcond)
  · have hstep := cond_step p
    rw [written, hs] at hstep
    exact hstep
  · have hstep := cond_step p
    simp only [written, hs, Machine.written, hc] at hstep
    exact hstep
  · intro a w m₁ offset hr hn hf
    constructor
    · intro hw
      obtain ⟨q, hs, hpc⟩ := step_of_branch hr hn hf hw
      have htaken : (7 : BitVec 3).setWidth 16 &&& p.machine.registers.cond ≠ 0 := by
        rw [hcond]
        cases Flag.ofLast ws <;> decide
      rw [if_pos htaken] at hpc
      exact ⟨q, hs, hpc⟩
    · intro hw
      obtain ⟨q, hs, hpc⟩ := step_of_branch hr hn hf hw
      rw [if_neg (by simp)] at hpc
      exact ⟨q, hs, hpc⟩

/-- A processor that will take one from zero in `R0` and then ask for a key. -/
def minusOne : Processor ScriptedTerminal :=
  ((onMachine (Machine.loadImage "minus one" [0x30, 0x00, 0x10, 0x3F, 0xF0, 0x20])).run
    (powerOn { terminal := { keys := [0x41] } } none false 0)).2

/-- The same processor when it is about to ask for the key. The next read is
interrupted. -/
def awaitingKey : Processor ScriptedTerminal :=
  (step.run minusOne).2.onConsole fun c => { c with alarm := some ⟨.read, 1⟩ }

/-- A wait that is abandoned leaves the condition register at the flag of the minus one
that was written before it, although the link to the service is in `R7`. -/
theorem cond_of_abandonedWait :
    let p := ((guardedRun 3).run awaitingKey).2
    ((guardedRun 3).run awaitingKey).1 = .error (.wait .cutShort) ∧
      p.machine.registers.read (.general 7) = 0x3002 ∧
      Driven p [0xFFFF] ∧ p.machine.registers.cond = Flag.negative.code := by
  have hload : Driven minusOne [] := .loadImage (.powerOn _ _ _ _) _ _
  have hwritten : minusOne.written = some 0xFFFF := by decide
  have hnone : (awaitingKey.guarded true).writtenIn 3 = [] := by decide
  have hstep := hload.step
  rw [hwritten] at hstep
  have hrun := (hstep.console fun c => { c with alarm := some ⟨.read, 1⟩ }).guardedRun 3
  have h : Driven ((guardedRun 3).run awaitingKey).2 [0xFFFF] := by
    rw [← List.nil_append [0xFFFF], ← hnone]
    exact hrun
  exact ⟨rfl, by decide, h, (cond_follows_last_result h).1⟩

end Processor

end LittleComputer
