import LittleComputer.Proofs.Delivery
import LittleComputer.Proofs.Refinement
import LittleComputer.Proofs.StepFailures

/-!
# Words that are no instruction

A word is fatal if it is no instruction of a user program: the return from interrupt, the
reserved opcode, or a trap whose vector belongs to no service. `LittleComputer.IsFatal` says so in
numbers, and a word is decoded as illegal exactly then (`LittleComputer.isFatal_iff`).

The step that fetches a fatal word completes; all it does beside the fetch is to stop the machine
and to remember the fault (`LittleComputer.Processor.faultsAt_of_isFatal`). Since a halted machine
takes no further step, a fault can be told by what the last step has fetched, and nothing else in
the library remembers one. So the run fails with an illegal instruction exactly if it fetches a
fatal word, which is `LittleComputer.Processor.fatal_word_stops_run`.

The word need not be in memory: the keyboard status register reads as a word with the opcode of
the return from interrupt when a key is there. Fetched from that cell, it takes the key with it.
-/

namespace LittleComputer

open Memory

/-! ### Fatal words -/

/-- The fatal words, by their upper four and their lower eight bits: opcode 8 is the return from
interrupt, 13 is reserved, and 15 is the trap, for which there are services with the vectors `x20`
to `x25`. -/
def IsFatal (w : Word) : Prop :=
  w.toNat / 4096 = 8 ∨ w.toNat / 4096 = 13 ∨
    w.toNat / 4096 = 15 ∧ (w.toNat % 256 < 0x20 ∨ 0x25 < w.toNat % 256)

instance : DecidablePred IsFatal := fun w => by
  unfold IsFatal
  infer_instance

/-- The opcode of a word, by its upper four bits. -/
theorem Opcode.ofWord_eq_iff {w : Word} {o : Opcode} :
    Opcode.ofWord w = o ↔ w.toNat / 4096 = o.code.toNat := by
  have hopcode : w.toNat / 4096 = (Opcode.ofWord w).code.toNat := by
    have hvalue := Machine.opcode_eq w
    rw [Machine.value] at hvalue
    omega
  rw [hopcode]
  constructor
  · rintro rfl
    rfl
  · intro h
    rw [← Opcode.ofCode_code o, ← BitVec.eq_of_toNat_eq h, Opcode.ofCode_code]

theorem Field.toNat_vector (w : Word) : (Field.vector w).toNat = w.toNat % 256 := by
  rw [Field.vector, BitVec.extractLsb'_toNat, Nat.shiftRight_zero]

theorem Service.ofVector?_eq_none_iff {v : Nat} :
    Service.ofVector? v = none ↔ v < 0x20 ∨ 0x25 < v := by
  rw [Option.eq_none_iff_forall_ne_some]
  simp only [ne_eq, Service.ofVector?_eq_some_iff, Int.natCast_inj]
  constructor
  · intro h
    -- The vectors of the six services are the numbers in between.
    have h₀ := h .getc
    have h₁ := h .out
    have h₂ := h .puts
    have h₃ := h .input
    have h₄ := h .putsp
    have h₅ := h .halt
    simp only [Service.vector, BitVec.reduceToNat] at h₀ h₁ h₂ h₃ h₄ h₅
    omega
  · rintro h s rfl
    cases s <;> simp [Service.vector] at h

/-- **Fatal words hold no instruction.** -/
theorem decode_of_isFatal {w : Word} (h : IsFatal w) : Instruction.decode w = .illegal w := by
  rcases h with ho | ho | ⟨ho, hv⟩
  · have hrti : Opcode.ofWord w = .rti := Opcode.ofWord_eq_iff.mpr ho
    simp only [Instruction.decode, hrti]
  · have hres : Opcode.ofWord w = .res := Opcode.ofWord_eq_iff.mpr ho
    simp only [Instruction.decode, hres]
  · have htrap : Opcode.ofWord w = .trap := Opcode.ofWord_eq_iff.mpr ho
    rw [← Field.toNat_vector, ← Service.ofVector?_eq_none_iff] at hv
    simp only [Instruction.decode, htrap, hv]

/-- **All other words hold one.** -/
theorem defect?_of_not_isFatal {w : Word} (h : ¬IsFatal w) :
    (Instruction.decode w).defect? = none := by
  by_cases ho : Opcode.ofWord w ∈ [Opcode.trap, .rti, .res]
  · simp only [List.mem_cons, List.not_mem_nil, or_false, Opcode.ofWord_eq_iff] at ho
    rcases ho with htrap | hrti | hres
    · cases hs : Service.ofVector? (Field.vector w).toNat with
      | some s =>
        simp only [Instruction.decode, Opcode.ofWord_eq_iff.mpr htrap, hs]
        rfl
      | none =>
        rw [Service.ofVector?_eq_none_iff, Field.toNat_vector] at hs
        exact absurd (Or.inr (Or.inr ⟨htrap, hs⟩)) h
    · exact absurd (Or.inl hrti) h
    · exact absurd (Or.inr (Or.inl hres)) h
  · exact Instruction.defect?_decode ho

theorem isFatal_iff {w : Word} : IsFatal w ↔ (Instruction.decode w).defect?.isSome = true := by
  by_cases h : IsFatal w
  · rw [decode_of_isFatal h]
    exact iff_of_true h rfl
  · rw [defect?_of_not_isFatal h]
    exact iff_of_false h Bool.false_ne_true

/-! ### Fetching -/

namespace Machine

variable {m m₁ : Machine ScriptedTerminal} {address w : Word}

/-- **A fetch on a script at which no interrupt comes.** From the keyboard status register it
says whether a key is there, and takes it; from any other cell it has no effect on memory and
the keys. What was shown stays as it is. -/
theorem fetch_scripted (hp : m.console.Spares .poll) (hr : m.console.Spares .read)
    (h : fetch.run m = (.ok (address, w), m₁)) :
    address = m.registers.pc ∧ m₁.registers = m.registers.write .pc (address + 1) ∧
      m₁.halted = m.halted ∧ m₁.cycles = m.cycles ∧
      m₁.console.terminal.shown = m.console.terminal.shown ∧
      (address ≠ keyboardStatus → m₁.memory = m.memory ∧ m₁.keys = m.keys) ∧
      (address = keyboardStatus →
        w = 0 ∨ w = keyReady ∧ ∃ key, m.keys = key :: m₁.keys ∧
          m₁.memory =
            (m.memory.write keyboardStatus keyReady).write keyboardData (wordOfByte key)) := by
  obtain ⟨rfl, m', hread, rfl⟩ := fetch_ok h
  by_cases ha : m.registers.pc = keyboardStatus
  · rw [ha] at hread ⊢
    cases hkeys : m.keys with
    | nil =>
      rw [run_readCell_status_of_nil hp hkeys] at hread
      cases hread
      exact ⟨rfl, rfl, rfl, rfl, rfl, fun hc => absurd rfl hc, fun _ => Or.inl rfl⟩
    | cons key rest =>
      rw [run_readCell_status_of_cons hp hr hkeys] at hread
      cases hread
      exact ⟨rfl, rfl, rfl, rfl, rfl, fun hc => absurd rfl hc,
        fun _ => Or.inr ⟨rfl, key, rfl, rfl⟩⟩
  · rw [run_readCell_of_ne ha] at hread
    cases hread
    exact ⟨rfl, rfl, rfl, rfl, rfl, fun _ => ⟨rfl, rfl⟩, fun hc => absurd hc ha⟩

end Machine

namespace Processor

variable {T : Type} [Terminal T]

/-- The next step of a processor fetches the word `w` from the cell at `a`: the machine is
running, the limit is not reached, and the cell can be read. -/
structure Fetches (p : Processor T) (a w : Word) : Prop where
  running : p.machine.halted = false
  allowed : p.reachedLimit = none
  fetched : ∃ m, Machine.fetch.run p.machine = (.ok (a, w), m)

/-- A step that returns has fetched the word that it names. -/
theorem fetches_of_ok {p : Processor T} {c : Cycle} (h : (step.run p).1 = .ok c) :
    p.Fetches c.address c.instruction := by
  obtain ⟨a, w, m, hr, hn, ha, rfl, -⟩ := step_ok h
  obtain ⟨m₁, m₂, hf, -, -⟩ := Machine.attempt_ok ha
  exact ⟨hr, hn, m₁, hf⟩

/-- A step that fetches a fatal word returns. -/
theorem step_of_isFatal {p : Processor T} {a w : Word} (h : p.Fetches a w) (hw : IsFatal w) :
    (step.run p).1 = .ok ⟨p.machine.cycles, a, w⟩ := by
  obtain ⟨hr, hn, m₁, hf⟩ := h
  have hattempt := Machine.run_attempt_of_fetched hf
  rw [decode_of_isFatal hw] at hattempt
  rw [run_step_of_ok hr hn hattempt]

/-- What is wrong with a fatal word. -/
theorem defect?_of_isFatal {w : Word} (hw : IsFatal w) (number : Nat) (a : Word) :
    (⟨number, a, w⟩ : Cycle).defect? = some (Defect.ofWord w) := by
  rw [Cycle.defect?, Cycle.decoded, decode_of_isFatal hw]
  rfl

/-- **What comes of a fatal word** that a processor fetches. The step returns it with what is
wrong with it, and it is remembered as the fault; the machine has halted and counted an
instruction. The program counter is past the word. No other register has changed, nor has what
was shown, and memory and the keys have only if the word was fetched from the keyboard status
register. If there is a trace, it has one more entry. -/
structure FaultsAt (p : Processor ScriptedTerminal) (a w : Word) : Prop where
  address : a = p.machine.registers.pc
  returned : step.run p = (.ok ⟨p.machine.cycles, a, w⟩, p.next)
  defect : (⟨p.machine.cycles, a, w⟩ : Cycle).defect? = some (Defect.ofWord w)
  fault : p.next.fault = some ⟨a, w⟩
  halted : p.next.machine.halted = true
  cycles : p.next.machine.cycles = p.machine.cycles + 1
  registers : p.next.machine.registers = p.machine.registers.write .pc (a + 1)
  output : p.next.machine.console.terminal.output = p.machine.console.terminal.output
  elsewhere : a ≠ keyboardStatus →
    p.next.machine.memory = p.machine.memory ∧ p.next.machine.keys = p.machine.keys
  atStatus : a = keyboardStatus → w = keyReady ∧ ∃ key,
    p.machine.keys = key :: p.next.machine.keys ∧
    p.next.machine.memory =
      (p.machine.memory.write keyboardStatus keyReady).write keyboardData (wordOfByte key)
  trace : p.next.trace =
    if p.tracing then
      p.trace.push ⟨⟨p.machine.cycles, a, w⟩, p.machine.snapshot, p.next.machine.snapshot⟩
    else p.trace

/-- **A fatal word stops the machine.** -/
theorem faultsAt_of_isFatal {p : Processor ScriptedTerminal} (hp : p.IsUndisturbed) {a w : Word}
    (h : p.Fetches a w) (hw : IsFatal w) : p.FaultsAt a w := by
  obtain ⟨hr, hn, m₁, hf⟩ := h
  have hspares := Console.spares_of_unguarded hp.unguarded
  obtain ⟨haddress, hregisters, -, hcycles, hshown, helsewhere, hstatus⟩ :=
    Machine.fetch_scripted (hspares .poll) (hspares .read) hf
  have hdecode := decode_of_isFatal hw
  have hattempt := Machine.run_attempt_of_fetched hf
  rw [hdecode] at hattempt
  have hstep := run_step_of_ok hr hn hattempt
  have hnext : p.next = p.completed _ a w := congrArg Prod.snd hstep
  have hdefect := defect?_of_isFatal hw p.machine.cycles a
  have hzero : ¬IsFatal 0 := by decide
  refine ⟨haddress, ?_, hdefect, ?_, ?_, ?_, ?_, ?_, fun ha => ?_, fun ha => ?_, ?_⟩
  · rw [hnext, hstep]
  · rw [hnext, completed, hdefect]
    rfl
  · rw [hnext]
    rfl
  · rw [hnext]
    exact congrArg (· + 1) hcycles
  · rw [hnext]
    exact hregisters
  · rw [hnext]
    simp only [completed, Machine.settled, hdecode]
    exact congrArg List.reverse hshown
  · rw [hnext]
    simp only [completed, Machine.settled, hdecode]
    exact helsewhere ha
  · rw [hnext]
    simp only [completed, Machine.settled, hdecode]
    exact (hstatus ha).resolve_left fun h => hzero (h ▸ hw)
  · rw [hnext]
    rfl

/-- **Any other word leaves the fault as it is**, whether or not the instruction fails. -/
theorem fault_next {p : Processor T} {a w : Word} (h : p.Fetches a w) (hw : ¬IsFatal w) :
    p.next.fault = p.fault := by
  obtain ⟨hr, hn, m₁, hf⟩ := h
  rcases step_cases p with ⟨hh, -⟩ | ⟨n, -, hn', -⟩ | ⟨f, m, -, -, -, hs⟩ |
    ⟨a', w', m, -, -, ha, hs⟩
  · cases hr.symm.trans hh
  · cases hn.symm.trans hn'
  · rw [next, hs]
  · obtain ⟨m₁', m₂, hf', -, -⟩ := Machine.attempt_ok ha
    cases hf.symm.trans hf'
    rw [next, hs]
    simp [completed, Cycle.defect?, Cycle.decoded, defect?_of_not_isFatal hw]

/-- A halted machine takes no further step. -/
theorem next_of_halted {p : Processor T} (h : p.machine.halted = true) : p.next = p := by
  rw [next, run_step_of_halted h]

/-- **A fault is remembered of a fatal word and of nothing else**, and no step is taken after
it. -/
theorem fault_origin {p : Processor ScriptedTerminal} (hp : p.IsUndisturbed)
    (hfault : p.fault = none) {k : Nat} {f : Fault} (h : (next^[k] p).fault = some f) :
    ∃ j < k, (next^[j] p).Fetches f.address f.instruction ∧ IsFatal f.instruction ∧
      next^[k] p = next^[j + 1] p := by
  induction k with
  | zero => cases hfault.symm.trans h
  | succ k ih =>
    rw [Function.iterate_succ_apply'] at h ⊢
    -- A fault remembered before is that of a halted machine, on which nothing more happens.
    have hbefore : (next^[k] p).fault = some f → ∃ j < k + 1,
        (next^[j] p).Fetches f.address f.instruction ∧ IsFatal f.instruction ∧
          (next^[k] p).next = next^[j + 1] p := by
      intro hk
      obtain ⟨j, hj, hfetches, hfatal, heq⟩ := ih hk
      have hhalted := (faultsAt_of_isFatal (hp.iterate j) hfetches hfatal).halted
      rw [← Function.iterate_succ_apply' next j p, ← heq] at hhalted
      exact ⟨j, Nat.lt_succ_of_lt hj, hfetches, hfatal, (next_of_halted hhalted).trans heq⟩
    rcases step_cases (next^[k] p) with ⟨-, hs⟩ | ⟨n, -, -, hs⟩ | ⟨g, m, -, -, -, hs⟩ |
      ⟨a, w, m, hr, hn, ha, hs⟩
    · exact hbefore (by rwa [next, hs] at h)
    · exact hbefore (by rwa [next, hs] at h)
    · exact hbefore (by rwa [next, hs] at h)
    · have hfetches : (next^[k] p).Fetches a w := fetches_of_ok (congrArg Prod.fst hs)
      by_cases hw : IsFatal w
      · have hf := (faultsAt_of_isFatal (hp.iterate k) hfetches hw).fault
        cases h.symm.trans hf
        exact ⟨k, Nat.lt_succ_self k, hfetches, hw,
          (Function.iterate_succ_apply' next k p).symm⟩
      · exact hbefore ((fault_next hfetches hw).symm.trans h)

/-- An undisturbed step on a script does not fail with an illegal instruction. -/
theorem step_ne_illegalInstruction {p q : Processor ScriptedTerminal} (hp : p.IsUndisturbed)
    {address instruction : Int} {reason : String} :
    step.run p ≠ (.error (.illegalInstruction address instruction reason), q) := by
  intro h
  have hpatient : p.machine.console.IsPatient := fun hg => by cases hp.unguarded.symm.trans hg
  cases (step_error_iff_of_script hpatient _).mp (congrArg Prod.fst h)

/-- **A run fails with an illegal instruction only after a fatal word.** -/
theorem illegalInstruction_origin {p q : Processor ScriptedTerminal} (hp : p.IsUndisturbed)
    (hfault : p.fault = none) {allowance : Nat} {address instruction : Int} {reason : String}
    (h : (run allowance).run p = (.error (.illegalInstruction address instruction reason), q)) :
    ∃ j a w, p.Completes (j + 1) ∧ (next^[j] p).Fetches a w ∧ IsFatal w ∧
      address = a.toNat ∧ instruction = w.toNat ∧ reason = (Defect.ofWord w).message ∧
      q = next^[j + 1] p := by
  obtain ⟨k, hk, -, hend⟩ := run_cases p allowance
  rw [h] at hend
  rcases hend with hb | ⟨f, -, hs, hf⟩
  · rcases boundary_cases (next^[k] p) with ⟨-, hb'⟩ | ⟨-, -, hb'⟩ | ⟨-, -, hb'⟩
    · rw [hb'] at hb
      obtain ⟨hending, rfl⟩ := Prod.mk.inj hb
      cases hf : (next^[k] p).fault with
      | none =>
        rw [ending, hf] at hending
        cases hending
      | some f =>
        rw [ending, hf] at hending
        cases hending
        obtain ⟨j, hj, hfetches, hfatal, heq⟩ := fault_origin hp hfault hf
        exact ⟨j, f.address, f.instruction, hk.mono hj, hfetches, hfatal, rfl, rfl, rfl, heq⟩
    · cases hb.trans hb'
    · cases hb.trans hb'
  · obtain ⟨hf, rfl⟩ := Prod.mk.inj hf
    cases hf
    exact absurd hs (step_ne_illegalInstruction (hp.iterate k))

/-- **A fatal word, and nothing else, stops a run with an illegal instruction.** A processor is
switched on with any program and any keys, and nobody asks it to stop. Let a word be fetched in
the step after the `k`-th.

* If it is fatal, the step does what `LittleComputer.Processor.FaultsAt` lists, and no step is taken
  after it. If the steps before have completed their instructions, the run ends there, and it
  fails with an illegal instruction, with the address and the word.
* If it is not, no fault is remembered.

And there is no other way: a fault is always that of a fatal word fetched in the last step that
was taken, and a run that fails with an illegal instruction has fetched one there. -/
theorem fatal_word_stops_run (program : Memory) (keys : List Byte) (alarm : Option Alarm)
    (journal : Journal) (limit : Option Int) (tracing : Bool) (depth : Nat) :
    let p := launch program { terminal := ({ keys } : ScriptedTerminal), alarm, journal }
      limit tracing depth
    (∀ k a w, (next^[k] p).Fetches a w →
      (IsFatal w →
        (next^[k] p).FaultsAt a w ∧
        step.run (next^[k + 1] p) = (.error (.misuse .notRunning), next^[k + 1] p) ∧
        (p.Completes k → RunEnds p
          (.error (.illegalInstruction a.toNat w.toNat (Defect.ofWord w).message))
          (next^[k + 1] p))) ∧
      (¬IsFatal w → (next^[k + 1] p).fault = none)) ∧
    (∀ k f, (next^[k] p).fault = some f →
      ∃ j < k, (next^[j] p).Fetches f.address f.instruction ∧ IsFatal f.instruction ∧
        next^[k] p = next^[j + 1] p) ∧
    ∀ allowance address instruction reason q,
      (run allowance).run p = (.error (.illegalInstruction address instruction reason), q) →
      ∃ j a w, p.Completes (j + 1) ∧ (next^[j] p).Fetches a w ∧ IsFatal w ∧
        address = a.toNat ∧ instruction = w.toNat ∧ reason = (Defect.ofWord w).message ∧
        q = next^[j + 1] p := by
  intro p
  have hp : p.IsUndisturbed := ⟨rfl, rfl⟩
  refine ⟨fun k a w h => ⟨fun hw => ?_, fun hw => ?_⟩, fun k f => fault_origin hp rfl,
    fun allowance address instruction reason q => illegalInstruction_origin hp rfl⟩
  · have hfaults := faultsAt_of_isFatal (hp.iterate k) h hw
    have hhalted : (next^[k + 1] p).machine.halted = true := by
      rw [Function.iterate_succ_apply']
      exact hfaults.halted
    have hending : (next^[k + 1] p).ending = .error (Fault.failure ⟨a, w⟩) := by
      rw [ending, Function.iterate_succ_apply', hfaults.fault]
    refine ⟨hfaults, run_step_of_halted hhalted, fun hk => ?_⟩
    have hcompletes : p.Completes (k + 1) :=
      completes_succ.mpr ⟨hk, _, congrArg Prod.fst hfaults.returned⟩
    have hends := HaltsAt.runEnds hp ⟨hcompletes, hhalted⟩
    rw [hending] at hends
    exact hends
  · -- An earlier fault would have stopped the machine before.
    rw [Function.iterate_succ_apply', fault_next h hw]
    cases hf : (next^[k] p).fault with
    | none => rfl
    | some f =>
      obtain ⟨j, -, hfetches, hfatal, heq⟩ := fault_origin hp rfl hf
      have hhalted := (faultsAt_of_isFatal (hp.iterate j) hfetches hfatal).halted
      rw [← Function.iterate_succ_apply' next j p, ← heq, h.running] at hhalted
      cases hhalted

/-- A processor that jumps to the keyboard status register while a key is there. -/
def jumpsToKeyboard : Processor ScriptedTerminal :=
  launch (Memory.cleared.load 0x3000 [0x2001, 0xC000, 0xFE00]) { terminal := { keys := [0x41] } }
    none false 0

/-- The word it finds there is fatal: it has the opcode of the return from interrupt. The key is
taken, and the run ends. -/
theorem fault_of_jumpsToKeyboard :
    (next^[2] jumpsToKeyboard).Fetches 0xFE00 0x8000 ∧ IsFatal 0x8000 ∧
      (next^[2] jumpsToKeyboard).FaultsAt 0xFE00 0x8000 ∧
      RunEnds jumpsToKeyboard
        (.error (.illegalInstruction 0xFE00 0x8000 "unsupported opcode RTI"))
        (next^[3] jumpsToKeyboard) ∧
      (next^[1] jumpsToKeyboard).fault = none := by
  obtain ⟨hstep, -, -⟩ := fatal_word_stops_run (Memory.cleared.load 0x3000 [0x2001, 0xC000, 0xFE00])
    [0x41] none Journal.silent none false 0
  have hfetches : (next^[2] jumpsToKeyboard).Fetches 0xFE00 0x8000 := ⟨rfl, rfl, _, rfl⟩
  have hfatal : IsFatal 0x8000 := by decide
  have hcompletes : jumpsToKeyboard.Completes 2 := by
    intro j hj
    rcases j with _ | _ | j
    · exact ⟨⟨0, 0x3000, 0x2001⟩, rfl⟩
    · exact ⟨⟨1, 0x3001, 0xC000⟩, rfl⟩
    · omega
  obtain ⟨hfaults, -, hends⟩ := (hstep 2 _ _ hfetches).1 hfatal
  have hload : (next^[0] jumpsToKeyboard).Fetches 0x3000 0x2001 := ⟨rfl, rfl, _, rfl⟩
  exact ⟨hfetches, hfatal, hfaults, hends hcompletes, (hstep 0 _ _ hload).2 (by decide)⟩

end Processor

end LittleComputer
