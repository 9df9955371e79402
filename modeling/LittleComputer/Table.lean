/-!
# Tables indexed by bit vectors

A `LittleComputer.Table α n` holds one value for each of the `2 ^ n` bit vectors
of width `n`. It is a perfect binary tree: the lowest bit of an index selects
the left or right half, the remaining bits an entry of that half. A look-up or a
change touches `n` nodes and shares all others with the old table, so a table
can be kept as a value – two states of a machine can be compared, and a state
taken before an instruction costs nothing.

Indices are natural numbers read modulo `2 ^ n`, so every index is valid. The
laws are `LittleComputer.Table.get_set` (what a change does to a look-up) and
`LittleComputer.Table.ext` (a table is determined by its look-ups).
-/

namespace LittleComputer

/-- A table with one entry for each bit vector of width `n`. -/
inductive Table (α : Type) : Nat → Type
  | leaf (value : α) : Table α 0
  | node {n : Nat} (even odd : Table α n) : Table α (n + 1)

namespace Table

variable {α : Type}

/-- A table whose entries are all `value`; its halves are one and the same tree. -/
def replicate : (n : Nat) → α → Table α n
  | 0, value => leaf value
  | n + 1, value =>
    let half := replicate n value
    node half half

/-- The entry at `i`, read modulo the size of the table. -/
def get : {n : Nat} → Table α n → Nat → α
  | 0, leaf value, _ => value
  | _ + 1, node even odd, i => if i % 2 = 0 then get even (i / 2) else get odd (i / 2)

/-- The table with `value` at `i` and every other entry unchanged. -/
def set : {n : Nat} → Table α n → Nat → α → Table α n
  | 0, leaf _, _, value => leaf value
  | _ + 1, node even odd, i, value =>
    if i % 2 = 0 then node (set even (i / 2) value) odd else node even (set odd (i / 2) value)

@[simp] theorem get_replicate (n : Nat) (value : α) (i : Nat) :
    (replicate n value).get i = value := by
  induction n generalizing i with
  | zero => rfl
  | succ n ih => simp only [replicate, get, ih, ite_self]

/-- **A change is seen at its own index and nowhere else**, where indices that give the
same bit vector are the same. -/
theorem get_set {n : Nat} (t : Table α n) (i j : Nat) (value : α) :
    (t.set i value).get j =
      if BitVec.ofNat n i = BitVec.ofNat n j then value else t.get j := by
  simp only [← BitVec.toNat_inj, BitVec.toNat_ofNat]
  induction t generalizing i j with
  | leaf old => simp [set, get, Nat.mod_one]
  | @node n even odd ihe iho =>
    have key : i % 2 ^ (n + 1) = j % 2 ^ (n + 1) ↔
        i % 2 = j % 2 ∧ i / 2 % 2 ^ n = j / 2 % 2 ^ n := by
      rw [Nat.pow_succ, Nat.mul_comm, Nat.mod_mul, Nat.mod_mul]
      omega
    rcases Nat.mod_two_eq_zero_or_one i with hi | hi <;>
      rcases Nat.mod_two_eq_zero_or_one j with hj | hj <;>
      simp [set, get, hi, hj, key, ihe, iho]

/-- Two tables with the same entries are equal. -/
theorem ext {n : Nat} {s t : Table α n} (h : ∀ i, s.get i = t.get i) : s = t := by
  induction s with
  | leaf a =>
    cases t with
    | leaf b => exact congrArg leaf (h 0)
  | node even odd ihe iho =>
    cases t with
    | node even' odd' =>
      have he : even = even' := ihe fun i => by
        have := h (2 * i)
        simpa [get] using this
      have ho : odd = odd' := iho fun i => by
        have := h (2 * i + 1)
        have hdiv : (2 * i + 1) / 2 = i := by omega
        simpa [get, hdiv, Nat.add_mod] using this
      rw [he, ho]

/-- Look-ups do not tell indices apart that give the same bit vector. -/
theorem get_ofNat {n : Nat} (t : Table α n) (i : Nat) :
    t.get (BitVec.ofNat n i).toNat = t.get i := by
  rw [BitVec.toNat_ofNat]
  induction t generalizing i with
  | leaf a => rfl
  | @node n even odd ihe iho =>
    have hmod : i % 2 ^ (n + 1) % 2 = i % 2 :=
      Nat.mod_mod_of_dvd i (Nat.pow_succ 2 n ▸ Nat.dvd_mul_left 2 (2 ^ n))
    have hdiv : i % 2 ^ (n + 1) / 2 = i / 2 % 2 ^ n := by
      rw [Nat.pow_succ, Nat.mul_comm, Nat.mod_mul_right_div_self]
    simp only [get, hmod, hdiv, ihe, iho]

instance {n : Nat} : GetElem (Table α n) (BitVec n) α (fun _ _ => True) where
  getElem t i _ := t.get i.toNat

/-- The table with `value` at the bit vector `i`. -/
def put {n : Nat} (t : Table α n) (i : BitVec n) (value : α) : Table α n := t.set i.toNat value

theorem getElem_def {n : Nat} (t : Table α n) (i : BitVec n) : t[i] = t.get i.toNat := rfl

@[simp] theorem getElem_replicate (n : Nat) (value : α) (i : BitVec n) :
    (replicate n value)[i] = value := get_replicate n value i.toNat

/-- **A change is seen at its own bit vector and nowhere else.** -/
theorem getElem_put {n : Nat} (t : Table α n) (i j : BitVec n) (value : α) :
    (t.put i value)[j] = if i = j then value else t[j] := by
  simp only [getElem_def, put, get_set, BitVec.ofNat_toNat, BitVec.setWidth_eq]

@[simp] theorem getElem_put_self {n : Nat} (t : Table α n) (i : BitVec n) (value : α) :
    (t.put i value)[i] = value := by simp [getElem_put]

/-- Two tables with the same entry at every bit vector are equal. -/
theorem ext_getElem {n : Nat} {s t : Table α n} (h : ∀ i : BitVec n, s[i] = t[i]) : s = t :=
  ext fun i => by
    have := h (BitVec.ofNat n i)
    simpa only [getElem_def, get_ofNat] using this

end Table

end LittleComputer
