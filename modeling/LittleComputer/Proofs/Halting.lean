import LittleComputer.Proofs.FatalWords

/-!
# What stops a machine

An instruction stops the machine if it is there to: the halt service does, and so does a word
that is no instruction. No other instruction does, whatever it reads and writes, because it is
composed of primitives none of which stops the machine.

That the halt service really stops the machine is less than plain, for it shows a text before it
does and leaves a notice afterwards. `LittleComputer.Machine.Stops` carries the stop through what
comes before and after it, so nothing has to be known of either.

Told by the instruction that a step has completed, the machine has halted afterwards exactly if
the word calls the halt service or is fatal (`LittleComputer.Processor.halted_next_iff`), and there
is a fault exactly if it is fatal (`LittleComputer.Processor.fault_next_iff`).
-/

namespace LittleComputer

theorem Instruction.halts_decode_iff {w : Word} :
    (decode w).Halts ↔ decode w = .trap .halt ∨ IsFatal w := by
  rw [isFatal_iff]
  cases decode w with
  | trap s => cases s <;> simp [Halts, defect?]
  | _ => simp [Halts, defect?]

/-! ### Instructions -/

namespace Machine

variable {T : Type} {α β : Type}

theorem keeps_halted [Terminal T] (c : Primitive α) (h : c.LetsRun) :
    Keeps Machine.halted (c.perform (T := T)) := by
  intro m
  cases c with
  | halt => cases h
  | _ => rfl

/-- An action that returns with the machine stopped, if it returns. -/
def Stops (a : Action T α) : Prop := ∀ m x m', a.run m = (.ok x, m') → m'.halted = true

/-- Whatever comes first, the machine is stopped by what follows. -/
theorem Stops.after {a : Action T α} {f : α → Action T β} (hf : ∀ x, Stops (f x)) :
    Stops (a >>= f) := by
  intro m y m' h
  rcases ha : a.run m with ⟨e | x, m₁⟩
  · cases (run_bind_of_error ha f).symm.trans h
  · exact hf x m₁ y m' ((run_bind_of_ok ha f).symm.trans h)

/-- Once it is stopped, what follows leaves it stopped. -/
theorem Stops.before {a : Action T α} {f : α → Action T β} (ha : Stops a)
    (hf : ∀ x, Keeps Machine.halted (f x)) : Stops (a >>= f) := by
  intro m y m' h
  rcases hrun : a.run m with ⟨e | x, m₁⟩
  · cases (run_bind_of_error hrun f).symm.trans h
  · have hkeep := hf x m₁
    rw [(run_bind_of_ok hrun f).symm.trans h] at hkeep
    exact hkeep.trans (ha m x m₁ hrun)

variable [Terminal T]

theorem Stops.halt : Stops (Primitive.halt.perform (T := T)) := by
  intro m x m' h
  cases h
  rfl

theorem stops_serve_halt : Stops (serve (T := T) .halt) := by
  rw [serve_halt]
  refine .after fun _ => .after fun _ => .before .halt fun _ => ?_
  refine (keeps_halted .cycles trivial).bind fun n => ?_
  exact (mild_note (.ended (n + 1))).keeps fun _ c hc => keeps_halted c hc.letsRun

/-- **An instruction that is completed stops the machine exactly if it is there to.** -/
theorem halted_effect_iff {i : Instruction} {m m' : Machine T}
    (h : (effect i).run m = (.ok (), m')) (hr : m.halted = false) :
    m'.halted = true ↔ i.Halts := by
  by_cases hi : i.Halts
  · refine iff_of_true ?_ hi
    match i, hi with
    | .trap .halt, _ =>
      rw [effect_trap] at h
      exact Stops.after (fun _ => stops_serve_halt) m () m' h
    | .illegal raw, _ => exact Stops.halt m () m' h
  · have hkeep := (composed_effect_of_not_halts hi).keeps (fun _ => keeps_halted) m
    rw [h, hr] at hkeep
    rw [hkeep]
    exact iff_of_false Bool.false_ne_true hi

end Machine

/-! ### Steps -/

namespace Processor

variable {T : Type} [Terminal T] {b : Processor T} {c : Cycle}

/-- **A completed instruction leaves the machine halted exactly if it calls the halt service or
its word is fatal.** -/
theorem halted_next_iff (h : (step.run b).1 = .ok c) :
    b.next.machine.halted = true ↔
      Instruction.decode c.instruction = .trap .halt ∨ IsFatal c.instruction := by
  obtain ⟨a, w, m, hr, -, ha, rfl, hs⟩ := step_ok h
  obtain ⟨m₁, m₂, hf, he, rfl⟩ := Machine.attempt_ok ha
  have hkeep := Machine.mild_fetch.keeps
    (fun _ c hc => Machine.keeps_halted c hc.letsRun) b.machine
  rw [hf] at hkeep
  rw [← Instruction.halts_decode_iff, ← Machine.halted_effect_iff he (hkeep.trans hr), next, hs]
  rfl

/-- **A completed instruction leaves a fault exactly if its word is fatal**, if there was none
before. -/
theorem fault_next_iff (h : (step.run b).1 = .ok c) (hfault : b.fault = none) :
    b.next.fault.isSome = true ↔ IsFatal c.instruction := by
  obtain ⟨a, w, m, -, -, -, rfl, hs⟩ := step_ok h
  rw [isFatal_iff, next, hs]
  simp only [completed, Cycle.defect?, Cycle.decoded, hfault]
  split <;> simp [*]

/-- The fault that a fatal word leaves tells where it was fetched and which it is. -/
theorem fault_next_of_isFatal (h : (step.run b).1 = .ok c) (hw : IsFatal c.instruction) :
    b.next.fault = some ⟨c.address, c.instruction⟩ := by
  obtain ⟨a, w, m, -, -, -, rfl, hs⟩ := step_ok h
  rw [next, hs, completed, defect?_of_isFatal hw]
  rfl

/-- A machine that is still running has met no fault. -/
theorem fault_of_running (hfault : b.fault = none) {k : Nat} (hk : b.Completes k)
    (hr : (next^[k] b).machine.halted = false) : (next^[k] b).fault = none := by
  induction k with
  | zero => exact hfault
  | succ k ih =>
    obtain ⟨hk, c, hc⟩ := completes_succ.mp hk
    obtain ⟨a, w, m, hr', -⟩ := step_ok hc
    rw [Function.iterate_succ_apply'] at hr ⊢
    have hfatal : ¬IsFatal c.instruction := fun hw => by
      cases hr.symm.trans ((halted_next_iff hc).mpr (Or.inr hw))
    rw [← Option.not_isSome_iff_eq_none, fault_next_iff hc (ih hk hr')]
    exact hfatal

end Processor

end LittleComputer
