import Mathlib.Data.List.Basic
import LittleComputer.Proofs.Catalogs
import LittleComputer.Proofs.SignExtension

/-!
# The format of instruction words

The format table of the instructions, told without shifts and masks: a format is a row of boxes
that fill a word from its highest bit to its lowest. Where a box lies is not written down, it
follows from the widths of the boxes to its right (`LittleComputer.Format.span`); so no two boxes
overlap and no bit is left out, and all there is to check of a row is that it fills a word
(`LittleComputer.Operation.span_format`).

Writing a word is putting the contents of the boxes side by side
(`LittleComputer.Format.assemble`). Reading one is comparing the boxes that tell the form and
taking the operands out of the others (`LittleComputer.Format.Fits`,
`LittleComputer.Format.operandsOf`). Both come down to what a word *carries*: which contents the
boxes have, whatever the ignored ones hold (`LittleComputer.Format.Carries`). A word carries given
operands exactly if it agrees with the word written from them on all bits that are not ignored
(`LittleComputer.Format.carries_iff`), by induction on the row.

The table shares no definition with the decoder but the codes of the opcodes. That the decoder
follows it is said in `LittleComputer.Proofs.Decoding`.
-/

namespace LittleComputer

/-! ### Boxes -/

/-- A box of a format. -/
inductive Box
  /-- Bits that tell the form: the opcode, or a mode bit. -/
  | fixed (n : Nat) (bits : BitVec n)
  /-- Bits that nothing is read from, and what the format puts there. -/
  | ignored (n : Nat) (filler : BitVec n)
  /-- The number of a register, or the three flags of a branch. -/
  | register (o : Operand)
  /-- The low bits of a number. -/
  | unsigned (n : Nat) (o : Operand)
  /-- The low bits of a number that is read with its sign. -/
  | signed (n : Nat) (o : Operand)

namespace Box

/-- How many bits a box has. -/
def width : Box → Nat
  | fixed n _ | ignored n _ | unsigned n _ | signed n _ => n
  | register _ => 3

/-- Whether nothing is read from a box. -/
def isIgnored : Box → Bool
  | ignored .. => true
  | fixed .. | register _ | unsigned .. | signed .. => false

/-- What is put into a box. -/
def content (values : Operand → Int) : (b : Box) → BitVec b.width
  | fixed _ bits => bits
  | ignored _ filler => filler
  | register o => BitVec.ofInt 3 (values o)
  | unsigned n o | signed n o => BitVec.ofInt n (values o)

/-- Whether a box may have a content. -/
def Fits : (b : Box) → BitVec b.width → Prop
  | fixed _ bits, x => x = bits
  | ignored .., _ | register _, _ | unsigned .., _ | signed .., _ => True

/-- The operand that is read from the content of a box, if one is. -/
def operand? : (b : Box) → BitVec b.width → Option (Operand × Nat)
  | register o, x | unsigned _ o, x => some (o, x.toNat)
  | signed _ o, x => some (o, (Field.extended x).toNat)
  | fixed .., _ | ignored .., _ => none

/-- The content of a box as a number. -/
def number (values : Operand → Int) : Box → Nat
  | fixed _ bits => bits.toNat
  | ignored _ filler => filler.toNat
  | register o => (BitVec.ofInt 3 (values o)).toNat
  | unsigned n o | signed n o => (BitVec.ofInt n (values o)).toNat

theorem toNat_content (values : Operand → Int) (b : Box) :
    (b.content values).toNat = b.number values := by
  cases b <;> rfl

/-- What is read back of the operands that a box was given, if it was given one: a register as it
was, of other numbers the residue that fits the box, and of a number with a sign the word that is
congruent to its signed reading. -/
def shown? (values : Operand → Int) : Box → Option (Operand × Nat)
  | register o => some (o, (values o).toNat)
  | unsigned n o => some (o, (values o % 2 ^ n).toNat)
  | signed n o => some (o, (Reference.signed n (values o) % 65536).toNat)
  | fixed .. | ignored .. => none

end Box

/-! ### Rows of boxes -/

/-- A format: the boxes of a word from the highest bit down. -/
abbrev Format := List Box

namespace Format

/-- How many bits a row has. -/
def span : Format → Nat
  | [] => 0
  | b :: rest => b.width + span rest

/-- The contents of the boxes, side by side. -/
def assemble (values : Operand → Int) : (f : Format) → BitVec f.span
  | [] => 0#0
  | b :: rest => b.content values ++ assemble values rest

/-- The word that a row makes of operands. -/
def word (f : Format) (values : Operand → Int) : Word := (f.assemble values).setWidth 16

/-- Whether a bit lies in an ignored box. -/
def ignores : Format → Nat → Bool
  | [], _ => false
  | b :: rest, k => if k < span rest then ignores rest k else b.isIgnored

/-- Whether a word has in each box what the box may have. -/
def Fits : Format → Word → Prop
  | [], _ => True
  | b :: rest, w => b.Fits (w.extractLsb' (span rest) b.width) ∧ Fits rest w

/-- The operands that are read from a word. -/
def operandsOf : Format → Word → List (Operand × Nat)
  | [], _ => []
  | b :: rest, w => (b.operand? (w.extractLsb' (span rest) b.width)).toList ++ operandsOf rest w

/-- Whether a word has in each box, but for the ignored ones, what operands put there. -/
def Carries (values : Operand → Int) : Format → Word → Prop
  | [], _ => True
  | b :: rest, w =>
    (b.isIgnored = false → w.extractLsb' (span rest) b.width = b.content values) ∧
      Carries values rest w

/-- The number that the contents of the boxes make. -/
def number (values : Operand → Int) : Format → Nat
  | [] => 0
  | b :: rest => b.number values * 2 ^ span rest + number values rest

variable {values : Operand → Int} {w : Word}

theorem ofInt_toNat {n : Nat} (x : BitVec n) : BitVec.ofInt n x.toNat = x := by
  rw [BitVec.ofInt_natCast, BitVec.ofNat_toNat, BitVec.setWidth_eq]

/-- A part of a word, bit by bit. -/
theorem extractLsb'_eq_iff {k n : Nat} {x : BitVec n} :
    w.extractLsb' k n = x ↔ ∀ j < n, w.getLsbD (k + j) = x.getLsbD j := by
  constructor
  · rintro rfl j hj
    rw [BitVec.getLsbD_extractLsb', decide_eq_true hj, Bool.true_and]
  · intro h
    apply BitVec.eq_of_getLsbD_eq
    intro j hj
    rw [BitVec.getLsbD_extractLsb', decide_eq_true hj, Bool.true_and, h j hj]

/-- The first box lies above the others. -/
theorem getLsbD_assemble_cons (b : Box) (rest : Format) (k : Nat) :
    (assemble values (b :: rest)).getLsbD k =
      if k < span rest then (assemble values rest).getLsbD k
      else (b.content values).getLsbD (k - span rest) :=
  BitVec.getLsbD_append

/-- Side by side is one place value after the other. -/
theorem toNat_assemble : (f : Format) → (f.assemble values).toNat = f.number values
  | [] => rfl
  | b :: rest => by
    have happend : (assemble values (b :: rest)).toNat =
        (b.content values).toNat <<< span rest ||| (assemble values rest).toNat :=
      BitVec.toNat_append _ _
    rw [happend, ← Nat.shiftLeft_add_eq_or_of_lt (BitVec.isLt _), Nat.shiftLeft_eq,
      toNat_assemble rest, b.toNat_content, number]

theorem word_eq (f : Format) : f.word values = BitVec.ofNat 16 (f.number values) := by
  rw [word, ← BitVec.ofNat_toNat, toNat_assemble]

theorem getLsbD_word (f : Format) {k : Nat} (hk : k < 16) :
    (f.word values).getLsbD k = (f.assemble values).getLsbD k := by
  rw [word, BitVec.getLsbD_setWidth, decide_eq_true hk, Bool.true_and]

/-- **What a word carries is told by the bits that are not ignored.** -/
theorem carries_iff (f : Format) : f.Carries values w ↔
    ∀ k < f.span, f.ignores k = false → w.getLsbD k = (f.assemble values).getLsbD k := by
  induction f with
  | nil => exact ⟨fun _ k hk => absurd hk (Nat.not_lt_zero k), fun _ => trivial⟩
  | cons b rest ih =>
    -- the bits of the first box are those from the span of the other boxes upwards
    have hlow : ∀ k < span rest, ignores (b :: rest) k = ignores rest k ∧
        (assemble values (b :: rest)).getLsbD k = (assemble values rest).getLsbD k :=
      fun k hk => ⟨if_pos hk, (getLsbD_assemble_cons b rest k).trans (if_pos hk)⟩
    have hhigh : ∀ j, ignores (b :: rest) (span rest + j) = b.isIgnored ∧
        (assemble values (b :: rest)).getLsbD (span rest + j) = (b.content values).getLsbD j := by
      intro j
      have hj : ¬span rest + j < span rest := Nat.not_lt.mpr (Nat.le_add_right _ j)
      exact ⟨if_neg hj, by rw [getLsbD_assemble_cons, if_neg hj, Nat.add_sub_cancel_left]⟩
    rw [Carries, ih, extractLsb'_eq_iff]
    constructor
    · rintro ⟨hbox, hrest⟩ k hk hignored
      rcases Nat.lt_or_ge k (span rest) with hkrest | hkbox
      · rw [(hlow k hkrest).1] at hignored
        rw [hrest k hkrest hignored, (hlow k hkrest).2]
      · obtain ⟨j, rfl⟩ := Nat.exists_eq_add_of_le hkbox
        rw [(hhigh j).1] at hignored
        rw [span] at hk
        rw [hbox hignored j (by omega), (hhigh j).2]
    · intro h
      refine ⟨fun hignored j hj => ?_, fun k hk hignored => ?_⟩
      · rw [h (span rest + j) (by rw [span]; omega) ((hhigh j).1.trans hignored), (hhigh j).2]
      · rw [h k (by rw [span]; omega) ((hlow k hk).1.trans hignored), (hlow k hk).2]

/-- The operands that are read from a word that carries some are what they became in the boxes. -/
theorem Carries.operandsOf_eq : {f : Format} → f.Carries values w →
    f.operandsOf w = f.filterMap fun b => b.operand? (b.content values)
  | [], _ => rfl
  | b :: rest, ⟨hbox, hrest⟩ => by
    have hread : b.operand? (w.extractLsb' (span rest) b.width) =
        b.operand? (b.content values) := by
      cases b with
      | fixed | ignored => rfl
      | register | unsigned | signed => rw [hbox rfl]
    rw [operandsOf, hread, hrest.operandsOf_eq, List.filterMap_cons]
    cases b.operand? (b.content values) <;> rfl

/-- A word carries the operands that are read from it. -/
theorem carries_of_operandsOf : {f : Format} → f.span ≤ 16 → f.Fits w →
    (∀ operand ∈ f.operandsOf w, values operand.1 = operand.2) → f.Carries values w
  | [], _, _, _ => trivial
  | b :: rest, hspan, ⟨hfits, hrest⟩, hvalues => by
    rw [span] at hspan
    have hwidth : b.width ≤ 16 := by omega
    refine ⟨fun hignored => ?_, carries_of_operandsOf (by omega) hrest fun operand hmem =>
      hvalues operand (List.mem_append_right _ hmem)⟩
    have hread : ∀ operand, b.operand? (w.extractLsb' (span rest) b.width) = some operand →
        values operand.1 = operand.2 := fun operand h =>
      hvalues operand (List.mem_append_left _ (Option.mem_toList.mpr h))
    cases b with
    | fixed n bits => exact hfits
    | ignored => cases hignored
    | register o | unsigned n o =>
      rw [Box.content, hread _ rfl]
      exact (ofInt_toNat _).symm
    | signed n o =>
      rw [Box.content, hread _ rfl]
      exact (ofInt_toNat_extended hwidth _).symm

end Format

/-! ### The table -/

namespace Operation

/-- **The format table.** -/
def format : Operation → Format
  | addReg => [.fixed 4 Opcode.add.code, .register .dest, .register .src1, .fixed 1 0, .ignored 2 0,
      .register .src2]
  | addImm => [.fixed 4 Opcode.add.code, .register .dest, .register .src1, .fixed 1 1,
      .signed 5 .imm]
  | andReg => [.fixed 4 Opcode.and.code, .register .dest, .register .src1, .fixed 1 0, .ignored 2 0,
      .register .src2]
  | andImm => [.fixed 4 Opcode.and.code, .register .dest, .register .src1, .fixed 1 1,
      .signed 5 .imm]
  | not => [.fixed 4 Opcode.not.code, .register .dest, .register .src, .ignored 6 0b111111]
  | br => [.fixed 4 Opcode.br.code, .register .cond, .signed 9 .offset]
  | jmp | ret => [.fixed 4 Opcode.jmp.code, .ignored 3 0, .register .base, .ignored 6 0]
  | jsr => [.fixed 4 Opcode.jsr.code, .fixed 1 1, .signed 11 .offset]
  | jsrr => [.fixed 4 Opcode.jsr.code, .fixed 1 0, .ignored 2 0, .register .base, .ignored 6 0]
  | ld => [.fixed 4 Opcode.ld.code, .register .dest, .signed 9 .offset]
  | ldi => [.fixed 4 Opcode.ldi.code, .register .dest, .signed 9 .offset]
  | lea => [.fixed 4 Opcode.lea.code, .register .dest, .signed 9 .offset]
  | st => [.fixed 4 Opcode.st.code, .register .src, .signed 9 .offset]
  | sti => [.fixed 4 Opcode.sti.code, .register .src, .signed 9 .offset]
  | ldr => [.fixed 4 Opcode.ldr.code, .register .dest, .register .base, .signed 6 .offset]
  | str => [.fixed 4 Opcode.str.code, .register .src, .register .base, .signed 6 .offset]
  | trap => [.fixed 4 Opcode.trap.code, .ignored 4 0, .unsigned 8 .vector]
  | invalid => [.unsigned 16 .raw]

/-- The bits that a form ignores. -/
def ignoredBits : Operation → List Nat
  | addReg | andReg => [4, 3]
  | not => [5, 4, 3, 2, 1, 0]
  | jmp | ret => [11, 10, 9, 5, 4, 3, 2, 1, 0]
  | jsrr => [10, 9, 5, 4, 3, 2, 1, 0]
  | trap => [11, 10, 9, 8]
  | addImm | andImm | br | jsr | ld | ldi | lea | st | sti | ldr | str | invalid => []

/-- Whether operands belong to an operation. The table does not tell a jump from a return, nor a
trap, or a word of any opcode, from a word that is no instruction. -/
def Admits (values : Operand → Int) : Operation → Prop
  | jmp => values .base % 8 ≠ 7
  | ret => values .base % 8 = 7
  | trap => (Service.ofVector? (values .vector % 256)).isSome
  | invalid =>
    let opcode := values .raw / 4096 % 16
    opcode = 8 ∨ opcode = 13 ∨ (opcode = 15 ∧ Service.ofVector? (values .raw % 256) = none)
  | addReg | addImm | andReg | andImm | not | br | jsr | jsrr | ld | ldi | lea | st | sti | ldr
  | str => True

/-- Whether operands that are registers, or the flags of a branch, are numbers from 0 to 7. -/
def InRange (values : Operand → Int) (op : Operation) : Prop :=
  ∀ o, Box.register o ∈ op.format → 0 ≤ values o ∧ values o < 8

/-- **Every row fills a word.** -/
@[simp] theorem span_format (op : Operation) : op.format.span = 16 := by
  cases op <;> rfl

/-- The ignored bits are those of the ignored boxes. -/
theorem mem_ignoredBits_iff (op : Operation) :
    ∀ k < 16, k ∈ op.ignoredBits ↔ op.format.ignores k = true := by
  cases op <;> decide

/-- A word and the word that is written from what it carries differ at most in ignored bits. -/
theorem carries_format_iff (op : Operation) {values : Operand → Int} {w : Word} :
    op.format.Carries values w ↔
      ∀ k < 16, k ∉ op.ignoredBits → w.getLsbD k = (op.format.word values).getLsbD k := by
  simp only [Format.carries_iff, span_format]
  refine forall₂_congr fun k hk => ?_
  rw [op.mem_ignoredBits_iff k hk, Bool.not_eq_true, Format.getLsbD_word _ hk]

/-- **A word that is written from operands carries them.** -/
theorem carries_word (op : Operation) (values : Operand → Int) :
    op.format.Carries values (op.format.word values) :=
  op.carries_format_iff.mpr fun _ _ _ => rfl

/-- What is read back of operands in range. -/
theorem filterMap_content (op : Operation) {values : Operand → Int} (h : op.InRange values) :
    (op.format.filterMap fun b => b.operand? (b.content values)) =
      op.format.filterMap (Box.shown? values) := by
  refine List.filterMap_congr fun b hb => ?_
  cases b with
  | fixed | ignored => rfl
  | register o =>
    obtain ⟨hnonneg, hlt⟩ := h o hb
    have hread : (BitVec.ofInt 3 (values o)).toNat = (values o).toNat := by
      rw [BitVec.toNat_ofInt]
      exact congrArg Int.toNat (Int.emod_eq_of_lt hnonneg hlt)
    exact congrArg (fun x => some (o, x)) hread
  | unsigned n o =>
    have hread : (BitVec.ofInt n (values o)).toNat = (values o % 2 ^ n).toNat := by
      rw [BitVec.toNat_ofInt]
      norm_cast
    exact congrArg (fun x => some (o, x)) hread
  | signed n o =>
    have hread : (Field.extended (BitVec.ofInt n (values o))).toNat =
        (Reference.signed n (values o) % 65536).toNat := by
      rw [extended_ofInt, wordOf, BitVec.toNat_ofInt]
      rfl
    exact congrArg (fun x => some (o, x)) hread

end Operation

/-- The word that the table makes of a key and of operands by name. -/
def Format.rebuild? (key : String) (operands : String → Option Int) : Option Word :=
  (Operation.ofKey? key).map fun op => op.format.word fun o => (operands o.name).getD 0

end LittleComputer
