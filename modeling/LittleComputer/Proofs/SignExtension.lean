import Mathlib.Data.Int.Bitwise
import LittleComputer.Proofs.Refinement

/-!
# Sign extension of integers

`LittleComputer.signExtend` works on the bits of a number of any size: it adds ones from the width
upwards if the sign bit is set, leaves the number alone if it is clear, and keeps sixteen bits of
what comes out. What it is for is arithmetic: an offset of a few bits becomes a word that can be
added to an address.

The two are the same on the numbers that have no bits above the field, and the step between them
is that a set sign makes the bits above the field irrelevant
(`LittleComputer.signExtend_of_set`): then the word is the one congruent to the signed reading of
the field, `LittleComputer.Field.extended`, which the machine computes with. A clear sign keeps
the bits above the field, so there the statement needs that there are none.

A mask as wide as the field is built on the way, and only for a set sign. So a width that memory
does not hold is refused exactly in that case (`LittleComputer.signExtend?_eq`). How much memory
holds is a matter of the machine, and nothing here depends on it but where the refusals begin; a
width whose digits cannot be counted is refused on every machine. The main statement is
`LittleComputer.sign_extension_within_memory`.
-/

namespace LittleComputer

open Machine Reference

/-! ### The bits of an integer -/

/-- The bits of a residue modulo a power of two are those of the number. -/
theorem getLsbD_ofInt (n : Nat) (v : Int) (k : Nat) :
    (BitVec.ofInt n v).getLsbD k = (decide (k < n) && v.testBit k) := by
  cases v with
  | ofNat m =>
    change (BitVec.ofInt n (m : Int)).getLsbD k = _
    rw [BitVec.ofInt_natCast, BitVec.getLsbD_ofNat]
    rfl
  | negSucc m =>
    rw [BitVec.ofInt_negSucc_eq_not_ofNat, BitVec.getLsbD_not, BitVec.getLsbD_ofNat, Int.testBit]
    cases decide (k < n) <;> rfl

theorem getLsbD_wordOf (v : Int) (k : Nat) :
    (wordOf v).getLsbD k = (decide (k < 16) && v.testBit k) :=
  getLsbD_ofInt 16 v k

theorem testBit_value (w : Word) (k : Nat) : (value w).testBit k = w.getLsbD k := rfl

/-- The sign bit, told without a shift. -/
theorem hasSign_eq_testBit (v : Int) (b : Nat) : hasSign v b = v.testBit (b - 1) := by
  cases v with
  | ofNat m =>
    change decide (((m >>> (b - 1) : Nat) : Int) % 2 = 1) = m.testBit (b - 1)
    rw [Nat.testBit_eq_decide_div_mod_eq, Nat.shiftRight_eq_div_pow]
    exact decide_eq_decide.mpr (by omega)
  | negSucc m =>
    change decide (Int.negSucc (m >>> (b - 1)) % 2 = 1) = !m.testBit (b - 1)
    rw [Nat.testBit_eq_decide_div_mod_eq, Nat.shiftRight_eq_div_pow, ← decide_not]
    exact decide_eq_decide.mpr (by omega)

/-! ### Fields -/

/-- **A field as a word is congruent to its signed reading.** -/
theorem extended_ofInt (b : Nat) (v : Int) :
    Field.extended (BitVec.ofInt b v) = wordOf (signed b v) := by
  rw [Field.extended, BitVec.signExtend, BitVec.toInt_ofInt]
  rfl

/-- The field is still there in the low bits of its word. -/
theorem ofInt_toNat_extended {n : Nat} (hn : n ≤ 16) (field : BitVec n) :
    BitVec.ofInt n (Field.extended field).toNat = field := by
  apply BitVec.eq_of_getLsbD_eq
  intro k hk
  have hk16 : k < 16 := Nat.lt_of_lt_of_le hk hn
  rw [BitVec.ofInt_natCast, BitVec.ofNat_toNat, BitVec.getLsbD_setWidth, Field.extended,
    BitVec.getLsbD_signExtend, if_pos hk, decide_eq_true hk, decide_eq_true hk16]
  rfl

/-- The signed reading of the low bits of a number, by the sign bit. -/
theorem signed_of_testBit {b : Nat} (hb : 0 < b) (v : Int) :
    signed b v = v % 2 ^ b - if v.testBit (b - 1) then 2 ^ b else 0 := by
  have hmsb : (BitVec.ofInt b v).msb = v.testBit (b - 1) := by
    rw [BitVec.msb_eq_getLsbD_last, getLsbD_ofInt, decide_eq_true (Nat.sub_one_lt_of_lt hb),
      Bool.true_and]
  have htoNat : ((BitVec.ofInt b v).toNat : Int) = v % 2 ^ b := by
    have hpow : ((2 ^ b : Nat) : Int) = 2 ^ b := by norm_cast
    have hpos : (0 : Int) < 2 ^ b := Int.pow_pos (by decide)
    rw [BitVec.toNat_ofInt, hpow, Int.toNat_of_nonneg (Int.emod_nonneg v (Int.ne_of_gt hpos))]
  have htoInt : signed b v = (BitVec.ofInt b v).toInt := (BitVec.toInt_ofInt v).symm
  rw [htoInt, BitVec.toInt_eq_msb_cond, hmsb, htoNat]
  split
  · push_cast
    rfl
  · exact (Int.sub_zero _).symm

/-! ### Extending a sign -/

variable {v : Int} {b memory : Nat}

theorem signExtend_of_clear (h : v.testBit (b - 1) = false) : signExtend v b = wordOf v := by
  rw [signExtend, hasSign_eq_testBit, h]
  rfl

/-- A clear sign stays clear. -/
theorem testBit_signExtend_of_clear (h : v.testBit (b - 1) = false) :
    (value (signExtend v b)).testBit (b - 1) = false := by
  rw [signExtend_of_clear h, testBit_value, getLsbD_wordOf, h, Bool.and_false]

/-- From sixteen bits on there is nothing left to fill. -/
theorem signExtend_of_wide (h : 16 ≤ b) (v : Int) : signExtend v b = wordOf v := by
  have hmask : BitVec.allOnes 16 <<< 16 = (0 : Word) := by decide
  have hor : wordOf v ||| (0 : Word) = wordOf v := BitVec.or_zero
  rw [signExtend, Nat.min_eq_right h, hmask, hor, ite_self]

/-- **A set sign leaves nothing of the bits above the field.** -/
theorem signExtend_of_set (hb : 0 < b) (h16 : b ≤ 16) (h : v.testBit (b - 1) = true) :
    signExtend v b = Field.extended (BitVec.ofInt b v) := by
  have hlast : b - 1 < b := Nat.sub_one_lt_of_lt hb
  apply BitVec.eq_of_getLsbD_eq
  intro k hk
  rw [signExtend, hasSign_eq_testBit, if_pos h, Nat.min_eq_left h16, BitVec.getLsbD_or,
    BitVec.getLsbD_shiftLeft, BitVec.getLsbD_allOnes, getLsbD_wordOf, Field.extended,
    BitVec.getLsbD_signExtend, BitVec.msb_eq_getLsbD_last, getLsbD_ofInt, getLsbD_ofInt, h]
  by_cases hkb : k < b
  · simp [hk, hkb]
  · simp [hk, hkb, hlast, Nat.lt_of_le_of_lt (Nat.sub_le k b) hk]

/-- **A number that fits its field becomes the word of its signed reading**, whatever its sign. -/
theorem signExtend_of_fits (hb : 0 < b) (h16 : b ≤ 16) (h0 : 0 ≤ v) (hv : v < 2 ^ b) :
    signExtend v b = Field.extended (BitVec.ofInt b v) := by
  cases hsign : v.testBit (b - 1) with
  | true => exact signExtend_of_set hb h16 hsign
  | false =>
    have hsigned := signed_of_testBit hb v
    rw [hsign, Int.emod_eq_of_lt h0 hv, if_neg Bool.false_ne_true, Int.sub_zero] at hsigned
    rw [signExtend_of_clear hsign, extended_ofInt, hsigned]

/-- The value of a word whose sign was filled in. -/
theorem value_signExtend_of_set (hb : 0 < b) (h16 : b ≤ 16) (h : v.testBit (b - 1) = true) :
    value (signExtend v b) = v % 2 ^ b + 65536 - 2 ^ b := by
  have hpow : (2 : Int) ^ b ≤ 2 ^ 16 := by
    have := Nat.pow_le_pow_right (n := 2) (by decide) h16
    exact_mod_cast this
  have hpos : (0 : Int) < 2 ^ b := Int.pow_pos (by decide)
  have hlow : 0 ≤ v % 2 ^ b := Int.emod_nonneg v (Int.ne_of_gt hpos)
  have hhigh : v % 2 ^ b < 2 ^ b := Int.emod_lt_of_pos v hpos
  rw [signExtend_of_set hb h16 h, extended_ofInt, value_wordOf, signed_of_testBit hb, if_pos h,
    wrap]
  omega

/-- **Nothing is left to extend the second time.** -/
theorem signExtend_idem (hb : 0 < b) (v : Int) :
    signExtend (value (signExtend v b)) b = signExtend v b := by
  rcases Nat.lt_or_ge 16 b with hwide | h16
  · rw [signExtend_of_wide hwide.le, wordOf_value]
  cases hsign : v.testBit (b - 1) with
  | false =>
    have hbit := testBit_signExtend_of_clear hsign
    rw [signExtend_of_clear hsign] at hbit ⊢
    rw [signExtend_of_clear hbit, wordOf_value]
  | true =>
    have hlast : b - 1 < b := Nat.sub_one_lt_of_lt hb
    have hword := signExtend_of_set hb h16 hsign
    have hbit : (value (signExtend v b)).testBit (b - 1) = true := by
      rw [hword, testBit_value, Field.extended, BitVec.getLsbD_signExtend, if_pos hlast,
        getLsbD_ofInt, hsign, decide_eq_true hlast, decide_eq_true (Nat.lt_of_lt_of_le hlast h16)]
      rfl
    rw [signExtend_of_set hb h16 hbit, hword]
    exact congrArg Field.extended (ofInt_toNat_extended h16 _)

/-! ### Widths beyond memory -/

/-- **What is refused**: a sign that is set, with a width whose mask memory does not hold. -/
theorem signExtend?_eq (hb : 0 < b) (v : Int) (memory : Nat) : signExtend? v b memory =
    if b ≤ min memory countableWidth ∨ v.testBit (b - 1) = false then .ok (signExtend v b)
    else .error
      (.misuse (if b ≤ countableWidth then .widthBeyondMemory else .widthBeyondCount)) := by
  have hpos : ¬(b : Int) ≤ 0 := by omega
  rw [signExtend?, if_neg hpos, Int.toNat_natCast, hasSign_eq_testBit]
  simp only [Int.ofNat_le, Bool.or_eq_true, Bool.not_eq_true', decide_eq_true_eq]
  cases v.testBit (b - 1) with
  | false => simp
  | true =>
    simp only [Bool.true_eq_false, false_or, or_false]
    split
    · rfl
    · split <;> rfl

/-- A width that cannot be counted is refused even for the shortest negative number, whatever
memory holds. -/
theorem huge_width_is_refused :
    (fun memory => signExtend? (-1) (10 ^ 30 : Nat) memory) =
      fun _ => .error (.misuse .widthBeyondCount) := by
  have hsign : (-1 : Int).testBit (10 ^ 30 - 1) = true := by
    change (!Nat.testBit 0 (10 ^ 30 - 1)) = true
    rw [Nat.zero_testBit]
    rfl
  have hcount : ¬10 ^ 30 ≤ countableWidth := by decide
  funext memory
  have hroom : ¬10 ^ 30 ≤ min memory countableWidth := fun h => hcount (Nat.le_min.mp h).2
  rw [signExtend?_eq (by decide), hsign, if_neg (not_or.mpr ⟨hroom, Bool.noConfusion⟩),
    if_neg hcount]

/-! ### Main statement -/

/-- **Sign extension within memory**, for every integer `v`, every width `b` of at least a bit, and
however great a width `memory` the masks that memory holds may have.

If the mask of the width fits into memory and can be counted, or the sign bit `b - 1` of `v` is
clear so that none is needed, the outcome is a word `r` from 0 to 65535, and extending it again
changes nothing.

* For a width of at most sixteen, a clear sign leaves the residue of `v`, and a set sign takes the
  residue modulo `2 ^ b` and fills the bits above it.
* So a number that fits a field of `b` bits becomes the word that the machine computes with, the
  only one congruent to the signed reading of the field; added to an address, as an integer or as
  a word, it does what the signed reading does.
* For a greater width the outcome is the residue of `v`.

In all other cases there is no outcome: the mask is refused. -/
theorem sign_extension_within_memory (v : Int) (b memory : Nat) (hb : 0 < b) :
    (b ≤ min memory countableWidth ∨ v.testBit (b - 1) = false →
      ∃ r : Word, signExtend? v b memory = .ok r ∧ (0 ≤ value r ∧ value r ≤ 65535) ∧
        signExtend? (value r) b memory = .ok r ∧
        (b ≤ 16 → v.testBit (b - 1) = false → value r = v % 65536) ∧
        (b ≤ 16 → v.testBit (b - 1) = true → value r = v % 2 ^ b + 65536 - 2 ^ b) ∧
        (b ≤ 16 → 0 ≤ v → v < 2 ^ b →
          r = Field.extended (BitVec.ofInt b v) ∧
          (∀ x : Int, (0 ≤ x ∧ x ≤ 65535) ∧ x % 65536 = signed b v % 65536 ↔ x = value r) ∧
          (∀ a : Int, (a + value r) % 65536 = (a + signed b v) % 65536) ∧
          ∀ a : Word, value (a + r) = (value a + signed b v) % 65536) ∧
        (16 < b → value r = v % 65536)) ∧
    (¬(b ≤ min memory countableWidth ∨ v.testBit (b - 1) = false) → signExtend? v b memory =
      .error (.misuse (if b ≤ countableWidth then .widthBeyondMemory else .widthBeyondCount))) := by
  refine ⟨fun hroom => ⟨signExtend v b, ?_, ?_, ?_, ?_, ?_, ?_, ?_⟩, fun hroom => ?_⟩
  · rw [signExtend?_eq hb, if_pos hroom]
  · have hlt := (signExtend v b).isLt
    rw [value]
    omega
  · -- If no mask was needed the first time, none is needed the second.
    have hagain : b ≤ min memory countableWidth ∨
        (value (signExtend v b)).testBit (b - 1) = false :=
      hroom.imp_right testBit_signExtend_of_clear
    rw [signExtend?_eq hb, if_pos hagain, signExtend_idem hb]
  · intro _ hsign
    rw [signExtend_of_clear hsign, value_wordOf, wrap]
  · exact fun h16 hsign => value_signExtend_of_set hb h16 hsign
  · intro h16 h0 hv
    have hword := signExtend_of_fits hb h16 h0 hv
    have hvalue : value (signExtend v b) = signed b v % 65536 := by
      rw [hword, extended_ofInt, value_wordOf, wrap]
    refine ⟨hword, fun x => ?_, fun a => ?_, fun a => ?_⟩
    · rw [hvalue]
      omega
    · rw [hvalue]
      omega
    · rw [hword, extended_ofInt, add_wordOf, value_wordOf, wrap]
  · intro hwide
    rw [signExtend_of_wide hwide.le, value_wordOf, wrap]
  · rw [signExtend?_eq hb, if_neg hroom]

/-- The immediate value of five bits that stands for minus two, added to an address. -/
theorem sign_extension_of_minusTwo :
    signExtend? 30 5 = .ok 0xFFFE ∧ value ((0x3000 : Word) + 0xFFFE) = 0x2FFE := by
  obtain ⟨r, hr, -, -, -, hset, hfits, -⟩ :=
    (sign_extension_within_memory 30 5 greatestWidth (by decide)).1 (Or.inl (by decide))
  have hword : r = 0xFFFE := value_injective (hset (by decide) (by decide))
  subst hword
  exact ⟨hr, (hfits (by decide) (by decide) (by decide)).2.2.2 0x3000⟩

end LittleComputer
