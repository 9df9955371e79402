import LittleComputer.Failure

/-!
# Actions as functions of a state

An action of the library is a computation that may fail over a state that outlives
the failure. To reason about one is to look at the two things that it makes of a
state: its outcome, and the state afterwards. This file has the rules for that –
`LittleComputer.run_bind` above all, which is the only place where the order of two
actions is taken apart – and the properties of actions that are proved by going
through their parts.

`LittleComputer.Keeps` is about one action: something that can be seen of the state
is the same afterwards, whether the action returned or failed.
`LittleComputer.Simulates` is about two actions on states of different types: from
related states they come to related states, with outcomes that differ at most in
why they failed. `LittleComputer.Follows` lets the first of two actions give up on the
way.
-/

namespace LittleComputer

variable {σ τ ε α β γ : Type}

/-! ### Running an action -/

/-- **An action followed by another**: the second starts where the first has left
the state, and is not reached if the first fails. -/
theorem run_bind (a : ExceptT ε (StateM σ) α) (f : α → ExceptT ε (StateM σ) β) (s : σ) :
    (a >>= f).run s =
      match a.run s with
      | (.ok x, s) => (f x).run s
      | (.error e, s) => (.error e, s) := by
  change (ExceptT.bindCont f (a.run s).1).run (a.run s).2 = _
  rcases a.run s with ⟨_ | x, t⟩ <;> rfl

theorem run_bind_of_ok {a : ExceptT ε (StateM σ) α} {s t : σ} {x : α}
    (h : a.run s = (.ok x, t)) (f : α → ExceptT ε (StateM σ) β) :
    (a >>= f).run s = (f x).run t := by
  rw [run_bind, h]

theorem run_bind_of_error {a : ExceptT ε (StateM σ) α} {s t : σ} {e : ε}
    (h : a.run s = (.error e, t)) (f : α → ExceptT ε (StateM σ) β) :
    (a >>= f).run s = (.error e, t) := by
  rw [run_bind, h]

@[simp] theorem run_pure (x : α) (s : σ) :
    (pure x : ExceptT ε (StateM σ) α).run s = (.ok x, s) := rfl

/-- To name the result of an action anew changes nothing else. -/
theorem run_bind_pure (a : ExceptT ε (StateM σ) α) (f : α → β) (s : σ) :
    (a >>= fun x => pure (f x)).run s = ((a.run s).1.map f, (a.run s).2) := by
  rw [run_bind]
  rcases a.run s with ⟨_ | x, t⟩ <;> rfl

@[simp] theorem run_modify (f : σ → σ) (s : σ) :
    (modify f : ExceptT ε (StateM σ) Unit).run s = (.ok (), f s) := rfl

@[simp] theorem run_get (s : σ) : (get : ExceptT ε (StateM σ) σ).run s = (.ok s, s) := rfl

@[simp] theorem run_throw (e : ε) (s : σ) :
    (throw e : ExceptT ε (StateM σ) α).run s = (.error e, s) := rfl

theorem get_bind_get (f : σ → σ → ExceptT ε (StateM σ) β) :
    (get >>= fun s => get >>= f s) = get >>= fun s => f s s := by
  funext s
  rfl

/-! ### What an action leaves alone -/

/-- What `view` shows of the state is the same after an action, whether it returned
or failed. -/
def Keeps (view : σ → γ) (a : ExceptT ε (StateM σ) α) : Prop :=
  ∀ s, view (a.run s).2 = view s

theorem Keeps.pure (view : σ → γ) (x : α) :
    Keeps view (pure x : ExceptT ε (StateM σ) α) := fun _ => rfl

theorem Keeps.bind {view : σ → γ} {a : ExceptT ε (StateM σ) α}
    {f : α → ExceptT ε (StateM σ) β} (ha : Keeps view a) (hf : ∀ x, Keeps view (f x)) :
    Keeps view (a >>= f) := by
  intro s
  have hs := ha s
  rw [run_bind]
  rcases h : a.run s with ⟨e | x, t⟩ <;> rw [h] at hs
  · exact hs
  · exact (hf x t).trans hs

/-! ### Two actions side by side -/

/-- Two outcomes that tell a caller the same: equal results, or failures that are
related by `E`. -/
inductive Alike (E : ε → ε → Prop) : Except ε α → Except ε α → Prop
  | ok (x : α) : Alike E (.ok x) (.ok x)
  | error {e f : ε} (h : E e f) : Alike E (.error e) (.error f)

/-- Equal outcomes tell the same. -/
theorem Alike.of_eq {E : ε → ε → Prop} (hE : ∀ e, E e e) {r s : Except ε α} (h : r = s) :
    Alike E r s := by
  subst h
  cases r with
  | error e => exact .error (hE e)
  | ok x => exact .ok x

theorem Alike.eq {r s : Except ε α} (h : Alike Eq r s) : r = s := by
  cases h with
  | ok x => rfl
  | error h => rw [h]

theorem Alike.map {E : ε → ε → Prop} {r s : Except ε α} (f : α → β) (h : Alike E r s) :
    Alike E (r.map f) (s.map f) := by
  cases h with
  | ok x => exact .ok (f x)
  | error h => exact .error h

/-- From states related by `R` both actions come to states related by `R`, with
outcomes that are alike. -/
def Simulates (E : ε → ε → Prop) (R : σ → τ → Prop) (a : ExceptT ε (StateM σ) α)
    (b : ExceptT ε (StateM τ) α) : Prop :=
  ∀ s t, R s t → Alike E (a.run s).1 (b.run t).1 ∧ R (a.run s).2 (b.run t).2

theorem Simulates.pure (E : ε → ε → Prop) (R : σ → τ → Prop) (x : α) :
    Simulates E R (pure x : ExceptT ε (StateM σ) α) (pure x : ExceptT ε (StateM τ) α) :=
  fun _ _ h => ⟨.ok x, h⟩

theorem Simulates.bind {E : ε → ε → Prop} {R : σ → τ → Prop}
    {a : ExceptT ε (StateM σ) α} {b : ExceptT ε (StateM τ) α}
    {f : α → ExceptT ε (StateM σ) β} {g : α → ExceptT ε (StateM τ) β}
    (hab : Simulates E R a b) (hfg : ∀ x, Simulates E R (f x) (g x)) :
    Simulates E R (a >>= f) (b >>= g) := by
  intro s t hst
  obtain ⟨halike, hrel⟩ := hab s t hst
  rcases ha : a.run s with ⟨e | x, s'⟩ <;> rcases hb : b.run t with ⟨e' | y, t'⟩ <;>
    rw [ha, hb] at halike hrel <;> cases halike
  · rename_i he
    rw [run_bind_of_error ha, run_bind_of_error hb]
    exact ⟨.error he, hrel⟩
  · rw [run_bind_of_ok ha, run_bind_of_ok hb]
    exact hfg x s' t' hrel

/-- From states related by `R` the first action does as the second does, with an equal
outcome, and comes to states related by `R`; or it gives up, with a failure and in a state
that `D` allows. -/
def Follows (D : ε → σ → Prop) (R : σ → τ → Prop) (a : ExceptT ε (StateM σ) α)
    (b : ExceptT ε (StateM τ) α) : Prop :=
  ∀ s t, R s t → (∃ e s', a.run s = (.error e, s') ∧ D e s') ∨
    (a.run s).1 = (b.run t).1 ∧ R (a.run s).2 (b.run t).2

theorem Follows.of_simulates {D : ε → σ → Prop} {R : σ → τ → Prop} {a : ExceptT ε (StateM σ) α}
    {b : ExceptT ε (StateM τ) α} (h : Simulates Eq R a b) : Follows D R a b := fun s t hst =>
  Or.inr ⟨(h s t hst).1.eq, (h s t hst).2⟩

/-- **What gives up in its first part gives up as a whole.** -/
theorem Follows.bind {D : ε → σ → Prop} {R : σ → τ → Prop} {a : ExceptT ε (StateM σ) α}
    {b : ExceptT ε (StateM τ) α} {f : α → ExceptT ε (StateM σ) β}
    {g : α → ExceptT ε (StateM τ) β} (hab : Follows D R a b) (hfg : ∀ x, Follows D R (f x) (g x)) :
    Follows D R (a >>= f) (b >>= g) := by
  intro s t hst
  rcases hab s t hst with ⟨e, s', ha, hD⟩ | ⟨houtcome, hrel⟩
  · exact Or.inl ⟨e, s', run_bind_of_error ha f, hD⟩
  · rcases ha : a.run s with ⟨e | x, s'⟩ <;> rcases hb : b.run t with ⟨e' | y, t'⟩ <;>
      rw [ha, hb] at houtcome hrel <;> cases houtcome
    · rw [run_bind_of_error ha, run_bind_of_error hb]
      exact Or.inr ⟨rfl, hrel⟩
    · rw [run_bind_of_ok ha, run_bind_of_ok hb]
      exact hfg x s' t' hrel

end LittleComputer
