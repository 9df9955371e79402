import LittleComputer.Proofs.Format

/-!
# Decoding and the format table

`LittleComputer.Instruction.decode` tells the forms apart by opcode and mode bits and takes the
fields out of a word; the format table says which boxes a form has. The two meet in both
directions, and each direction is one case for each opcode or operation.

* What is decoded is what the table finds (`LittleComputer.Instruction.isReadFrom_decode`): the
  word has the form of the operation, the operands are those that its boxes hold, and they belong
  to the operation.
* What the table finds is what is decoded (`LittleComputer.Instruction.operation_decode`): a word
  that carries operands which belong to an operation is decoded to this operation.

The second is needed beside the first because a word is read by a form that is already known, and
says nothing on why another word with the same boxes should be given the same form. With both,
nothing about a word matters but what it carries, and that is told by the bits that its form does
not ignore. The main statement is
`LittleComputer.Instruction.decoding_loses_ignored_bits_only`.
-/

namespace LittleComputer.Instruction

/-! ### Operands as numbers -/

/-- The operands of an instruction as numbers, zero for one that it does not have. -/
def valueOf (i : Instruction) (o : Operand) : Int := (i.supplied o.name).getD 0

/-- No two operands of an instruction have one name. -/
theorem valueOf_of_mem (i : Instruction) :
    ∀ operand ∈ i.operands, i.valueOf operand.1 = operand.2 := by
  have hlookup : ∀ operand ∈ i.operands, i.operand? operand.1 = some operand.2 := by
    cases i <;>
      simp only [operands, List.forall_mem_cons, List.not_mem_nil, false_implies, implies_true,
        and_true] <;>
      first | exact ⟨rfl, rfl, rfl⟩ | exact ⟨rfl, rfl⟩ | rfl
  intro operand hmem
  rw [valueOf, supplied_name, hlookup operand hmem]
  rfl

theorem rebuild?_supplied (i : Instruction) :
    Format.rebuild? i.operation.key i.supplied = some (i.operation.format.word i.valueOf) := by
  rw [Format.rebuild?, Operation.ofKey?_key]
  rfl

/-! ### The boxes that tell the form -/

variable {w : Word}

open Machine

/-- The box of the opcode. -/
theorem ofWord_eq_iff_box {o : Opcode} : Opcode.ofWord w = o ↔ w.extractLsb' 12 4 = o.code := by
  constructor
  · rintro rfl
    exact (Opcode.code_ofCode _).symm
  · intro h
    rw [Opcode.ofWord, Field.opcode, h, Opcode.ofCode_code]

/-- The opcode as a number. -/
theorem ofWord_eq_iff_value {o : Opcode} :
    Opcode.ofWord w = o ↔ value w / 4096 % 16 = o.code.toNat := by
  have hw := w.isLt
  have hvalue : value w / 4096 % 16 = (w.extractLsb' 12 4).toNat := by
    rw [BitVec.extractLsb'_toNat, Nat.shiftRight_eq_div_pow, value]
    omega
  rw [ofWord_eq_iff_box, hvalue, Int.ofNat_inj, BitVec.toNat_inj]

/-- A box of one bit. -/
theorem getLsbD_eq_iff_box {k : Nat} {b : Bool} :
    w.getLsbD k = b ↔ w.extractLsb' k 1 = BitVec.ofBool b := by
  rw [Format.extractLsb'_eq_iff]
  constructor
  · rintro rfl j hj
    obtain rfl : j = 0 := by omega
    cases w.getLsbD k <;> rfl
  · intro h
    have hbit := h 0 Nat.zero_lt_one
    rw [Nat.add_zero] at hbit
    rw [hbit]
    cases b <;> rfl

/-- The vector of a trap as a number. -/
theorem vector_eq (w : Word) : ((Field.vector w).toNat : Int) = value w % 256 := by
  rw [Field.vector, BitVec.extractLsb'_toNat, Nat.shiftRight_zero, value]
  rfl

/-! ### The decoder follows the table -/

/-- What makes an instruction the one that the format table finds in a word. -/
structure IsReadFrom (w : Word) (i : Instruction) : Prop where
  /-- The word has the form of the operation. -/
  fits : i.operation.format.Fits w
  /-- The operands are those that the form says. -/
  operands_eq : i.operands = i.operation.format.operandsOf w
  /-- The operands belong to the operation. -/
  admits : i.operation.Admits i.valueOf

/-- A word that is no instruction stands for itself. -/
theorem isReadFrom_illegal (h : Operation.invalid.Admits (illegal w).valueOf) :
    IsReadFrom w (illegal w) := by
  refine ⟨⟨trivial, trivial⟩, ?_, h⟩
  have hraw : w.extractLsb' 0 16 = w := BitVec.extractLsb'_eq_self
  change [(Operand.raw, w.toNat)] = [(Operand.raw, (w.extractLsb' 0 16).toNat)]
  rw [hraw]

/-- The table does not tell a jump from a return. -/
theorem format_operation_jmp (base : Reg) :
    (jmp base).operation.format = Operation.jmp.format := by
  rw [operation]
  split <;> rfl

/-- A jump is the return from a subroutine if its register is `R7`. -/
theorem isReadFrom_jmp (hop : w.extractLsb' 12 4 = Opcode.jmp.code) :
    IsReadFrom w (jmp (Field.base w)) := by
  refine ⟨?_, ?_, ?_⟩
  · rw [format_operation_jmp]
    exact ⟨hop, trivial, trivial, trivial, trivial⟩
  · rw [format_operation_jmp]
    rfl
  · have hvalue : (jmp (Field.base w)).valueOf .base = (Field.base w).toNat :=
      valueOf_of_mem _ (.base, (Field.base w).toNat) (.head _)
    have hseven : Field.base w = 7 ↔ (jmp (Field.base w)).valueOf .base % 8 = 7 := by
      rw [hvalue, ← BitVec.toNat_inj]
      have := (Field.base w).isLt
      change (Field.base w).toNat = 7 ↔ _
      omega
    by_cases hbase : Field.base w = 7
    · have hret : (jmp (Field.base w)).operation = .ret := if_pos hbase
      rw [hret]
      exact hseven.mp hbase
    · have hjmp : (jmp (Field.base w)).operation = .jmp := if_neg hbase
      rw [hjmp]
      exact fun hc => hbase (hseven.mpr hc)

/-- A trap is an instruction if its vector is that of a service. -/
theorem isReadFrom_trap {service : Service} (hop : w.extractLsb' 12 4 = Opcode.trap.code)
    (hservice : Service.ofVector? (Field.vector w).toNat = some service) :
    IsReadFrom w (trap service) := by
  have hvector : (Field.vector w).toNat = service.vector.toNat :=
    Int.ofNat_inj.mp (Service.ofVector?_eq_some_iff.mp hservice)
  have hvalue : (trap service).valueOf .vector = service.vector.toNat :=
    valueOf_of_mem _ (.vector, service.vector.toNat) (.head _)
  refine ⟨⟨hop, trivial, trivial, trivial⟩, ?_, ?_⟩
  · change [(Operand.vector, service.vector.toNat)] =
      [(Operand.vector, (Field.vector w).toNat)]
    rw [hvector]
  · have hlt := service.vector.isLt
    have hresidue : (service.vector.toNat : Int) % 256 = service.vector.toNat := by omega
    change (Service.ofVector? ((trap service).valueOf .vector % 256)).isSome = true
    rw [hvalue, hresidue, Service.ofVector?_vector]
    rfl

/-- **What is decoded is what the table finds**, opcode by opcode. -/
theorem isReadFrom_decode (w : Word) : IsReadFrom w (decode w) := by
  have hraw : (illegal w).valueOf .raw = value w := valueOf_of_mem _ (.raw, w.toNat) (.head _)
  cases h : Opcode.ofWord w with
  | add | and =>
    have hop := ofWord_eq_iff_box.mp h
    cases hmode : Field.isImmediate w with
    | true =>
      simp only [decode, h, hmode, if_true]
      exact ⟨⟨hop, trivial, trivial, getLsbD_eq_iff_box.mp hmode, trivial, trivial⟩, rfl, trivial⟩
    | false =>
      simp only [decode, h, hmode, Bool.false_eq_true, if_false]
      exact ⟨⟨hop, trivial, trivial, getLsbD_eq_iff_box.mp hmode, trivial, trivial, trivial⟩, rfl,
        trivial⟩
  | not =>
    simp only [decode, h]
    exact ⟨⟨ofWord_eq_iff_box.mp h, trivial, trivial, trivial, trivial⟩, rfl, trivial⟩
  | br | ld | ldi | lea | st | sti =>
    simp only [decode, h]
    exact ⟨⟨ofWord_eq_iff_box.mp h, trivial, trivial, trivial⟩, rfl, trivial⟩
  | ldr | str =>
    simp only [decode, h]
    exact ⟨⟨ofWord_eq_iff_box.mp h, trivial, trivial, trivial, trivial⟩, rfl, trivial⟩
  | jmp =>
    simp only [decode, h]
    exact isReadFrom_jmp (ofWord_eq_iff_box.mp h)
  | jsr =>
    have hop := ofWord_eq_iff_box.mp h
    cases hmode : Field.isLong w with
    | true =>
      simp only [decode, h, hmode, if_true]
      exact ⟨⟨hop, getLsbD_eq_iff_box.mp hmode, trivial, trivial⟩, rfl, trivial⟩
    | false =>
      simp only [decode, h, hmode, Bool.false_eq_true, if_false]
      exact ⟨⟨hop, getLsbD_eq_iff_box.mp hmode, trivial, trivial, trivial, trivial⟩, rfl, trivial⟩
  | trap =>
    cases hservice : Service.ofVector? (Field.vector w).toNat with
    | some service =>
      simp only [decode, h, hservice]
      exact isReadFrom_trap (ofWord_eq_iff_box.mp h) hservice
    | none =>
      simp only [decode, h, hservice]
      refine isReadFrom_illegal (Or.inr (Or.inr ⟨?_, ?_⟩))
      · rw [hraw, ofWord_eq_iff_value.mp h]
        rfl
      · rw [hraw, ← vector_eq, hservice]
  | rti =>
    simp only [decode, h]
    exact isReadFrom_illegal (Or.inl (by rw [hraw, ofWord_eq_iff_value.mp h]; rfl))
  | res =>
    simp only [decode, h]
    exact isReadFrom_illegal (Or.inr (Or.inl (by rw [hraw, ofWord_eq_iff_value.mp h]; rfl)))

/-- A register is `R7` if its number is seven modulo eight. -/
theorem ofInt_eq_seven_iff {v : Int} : (BitVec.ofInt 3 v : Reg) = 7 ↔ v % 8 = 7 := by
  rw [← BitVec.toNat_inj, BitVec.toNat_ofInt]
  change (v % 8).toNat = 7 ↔ v % 8 = 7
  omega

/-- The opcode of a word that carries operands of a form is that of the form. -/
theorem ofWord_of_carries {values : Operand → Int} {o : Opcode} {rest : Format}
    (h : Format.Carries values (.fixed 4 o.code :: rest) w) (hspan : rest.span = 12) :
    Opcode.ofWord w = o := by
  have hbox : w.extractLsb' rest.span 4 = o.code := h.1 rfl
  rw [hspan] at hbox
  exact ofWord_eq_iff_box.mpr hbox

/-- **What the table finds is what is decoded**: a word that carries operands which belong to an
operation is decoded to this operation. -/
theorem operation_decode {op : Operation} {values : Operand → Int}
    (h : op.format.Carries values w) (hadmits : op.Admits values) : (decode w).operation = op := by
  cases op with
  | addReg | andReg =>
    have hop := ofWord_of_carries h rfl
    have hmode : Field.isImmediate w = false := getLsbD_eq_iff_box.mpr (h.2.2.2.1 rfl)
    simp only [decode, hop, hmode, Bool.false_eq_true, if_false, operation]
  | addImm | andImm =>
    have hop := ofWord_of_carries h rfl
    have hmode : Field.isImmediate w = true := getLsbD_eq_iff_box.mpr (h.2.2.2.1 rfl)
    simp only [decode, hop, hmode, if_true, operation]
  | not | br | ld | ldi | lea | st | sti | ldr | str =>
    simp only [decode, ofWord_of_carries h rfl, operation]
  | jsr =>
    have hmode : Field.isLong w = true := getLsbD_eq_iff_box.mpr (h.2.1 rfl)
    simp only [decode, ofWord_of_carries h rfl, hmode, if_true, operation]
  | jsrr =>
    have hmode : Field.isLong w = false := getLsbD_eq_iff_box.mpr (h.2.1 rfl)
    simp only [decode, ofWord_of_carries h rfl, hmode, Bool.false_eq_true, if_false, operation]
  | jmp =>
    have hbase : Field.base w = BitVec.ofInt 3 (values .base) := h.2.2.1 rfl
    simp only [decode, ofWord_of_carries h rfl, operation, hbase, ofInt_eq_seven_iff]
    exact if_neg hadmits
  | ret =>
    have hbase : Field.base w = BitVec.ofInt 3 (values .base) := h.2.2.1 rfl
    simp only [decode, ofWord_of_carries h rfl, operation, hbase, ofInt_eq_seven_iff]
    exact if_pos hadmits
  | trap =>
    have hvector : Field.vector w = BitVec.ofInt 8 (values .vector) := h.2.2.1 rfl
    have hresidue : ((Field.vector w).toNat : Int) = values .vector % 256 := by
      rw [hvector, BitVec.toNat_ofInt]
      exact Int.toNat_of_nonneg (Int.emod_nonneg _ (by decide))
    obtain ⟨service, hservice⟩ := Option.isSome_iff_exists.mp hadmits
    rw [← hresidue] at hservice
    simp only [decode, ofWord_of_carries h rfl, hservice, operation]
  | invalid =>
    have hraw : w = BitVec.ofInt 16 (values .raw) := BitVec.extractLsb'_eq_self.symm.trans (h.1 rfl)
    have hvalue : value w = values .raw % 65536 := by
      rw [hraw]
      exact value_wordOf _
    rcases hadmits with hrti | hres | ⟨htrap, hnone⟩
    · have hop : Opcode.ofWord w = .rti := ofWord_eq_iff_value.mpr (by
        change _ = (8 : Int)
        omega)
      simp only [decode, hop, operation]
    · have hop : Opcode.ofWord w = .res := ofWord_eq_iff_value.mpr (by
        change _ = (13 : Int)
        omega)
      simp only [decode, hop, operation]
    · have hop : Opcode.ofWord w = .trap := ofWord_eq_iff_value.mpr (by
        change _ = (15 : Int)
        omega)
      have hvector : ((Field.vector w).toNat : Int) = values .raw % 256 := by
        rw [vector_eq]
        omega
      rw [← hvector] at hnone
      simp only [decode, hop, hnone, operation]

/-- A word carries the operands that are decoded from it. -/
theorem carries_decode (w : Word) :
    (decode w).operation.format.Carries (decode w).valueOf w := by
  obtain ⟨hfits, hoperands, -⟩ := isReadFrom_decode w
  refine Format.carries_of_operandsOf (Operation.span_format _).le hfits fun operand hmem => ?_
  exact valueOf_of_mem _ operand (hoperands ▸ hmem)

/-- The operands that are decoded from a word are those that it carries, as far as there is room
for them. -/
theorem operands_decode {op : Operation} {values : Operand → Int}
    (h : op.format.Carries values w) (hadmits : op.Admits values) :
    (decode w).operands = op.format.filterMap fun b => b.operand? (b.content values) := by
  rw [(isReadFrom_decode w).operands_eq, operation_decode h hadmits, h.operandsOf_eq]

/-- **Words that differ in ignored bits only are decoded alike.** -/
theorem decode_alike {v w : Word}
    (h : ∀ k < 16, k ∉ (decode w).operation.ignoredBits → v.getLsbD k = w.getLsbD k) :
    (decode v).operation = (decode w).operation ∧ (decode v).operands = (decode w).operands := by
  have hadmits := (isReadFrom_decode w).admits
  have hw := carries_decode w
  have hv : (decode w).operation.format.Carries (decode w).valueOf v :=
    (Operation.carries_format_iff _).mpr fun k hk hmem =>
      (h k hk hmem).trans ((Operation.carries_format_iff _).mp hw k hk hmem)
  exact ⟨operation_decode hv hadmits,
    (operands_decode hv hadmits).trans (operands_decode hw hadmits).symm⟩

/-! ### The encoder follows the table -/

theorem word_eq_form {o : Opcode} {rest : Format} {values : Operand → Int}
    (hspan : rest.span = 12) :
    Format.word (.fixed 4 o.code :: rest) values = form o (rest.number values) := by
  rw [Format.word_eq, Format.number, hspan]
  rfl

/-- **What is encoded is the word that the table makes**, ignored bits included. -/
theorem encode_eq_word (i : Instruction) : encode i = i.operation.format.word i.valueOf := by
  have hvalues := i.valueOf_of_mem
  cases i with
  | addReg | addImm | andReg | andImm | not | br | jsr | jsrr | ld | ldi | lea | st | sti | ldr
  | str | trap =>
    simp only [operands, List.forall_mem_cons] at hvalues
    refine (congrArg (form _) ?_).trans (word_eq_form rfl).symm
    simp (disch := decide) only [Format.number, Box.number, Format.span, Box.width, hvalues,
      Format.ofInt_toNat, ofInt_toNat_extended, BitVec.ofNat_eq_ofNat, BitVec.toNat_ofNat]
    omega
  | jmp base =>
    simp only [operands, List.forall_mem_cons] at hvalues
    rw [format_operation_jmp]
    refine (congrArg (form _) ?_).trans (word_eq_form rfl).symm
    simp only [Format.number, Box.number, Format.span, Box.width, hvalues, Format.ofInt_toNat,
      BitVec.ofNat_eq_ofNat, BitVec.toNat_ofNat]
    omega
  | illegal raw =>
    simp only [operands, List.forall_mem_cons] at hvalues
    have hnumber : Format.number (illegal raw).valueOf [.unsigned 16 .raw] = raw.toNat := by
      simp only [Format.number, Box.number, Format.span, hvalues, Format.ofInt_toNat]
      omega
    rw [Format.word_eq]
    change raw = BitVec.ofNat 16 (Format.number (illegal raw).valueOf [.unsigned 16 .raw])
    rw [hnumber, BitVec.ofNat_toNat, BitVec.setWidth_eq]

/-! ### Main statement -/

/-- **Decoding loses nothing but ignored bits.**

* It looks at an integer modulo `2 ^ 16` only.
* From the key of the operation and the operands by name, the format table makes a word that has
  the bits of the integer, but for those that the form ignores; it is the word that encodes the
  instruction.
* Integers that agree on the other bits are decoded to the same key and the same operands.
* The word that is written from operands of a form is decoded to the key of the form and to these
  operands: registers and flags of a branch as they were given, vectors and words without a meaning
  as residues, and immediate values and offsets as the words that are congruent to the signed
  reading of what fits their boxes. -/
theorem decoding_loses_ignored_bits_only :
    (∀ v w : Int, v % 65536 = w % 65536 → decode (wordOf v) = decode (wordOf w)) ∧
    (∀ w : Int, ∃ r : Word,
      Format.rebuild? (decode (wordOf w)).operation.key (decode (wordOf w)).supplied = some r ∧
      r = encode (decode (wordOf w)) ∧
      ∀ k < 16, k ∉ (decode (wordOf w)).operation.ignoredBits → r.getLsbD k = w.testBit k) ∧
    (∀ v w : Int,
      (∀ k < 16, k ∉ (decode (wordOf w)).operation.ignoredBits → v.testBit k = w.testBit k) →
      (decode (wordOf v)).operation.key = (decode (wordOf w)).operation.key ∧
      (decode (wordOf v)).operands = (decode (wordOf w)).operands) ∧
    ∀ (op : Operation) (values : Operand → Int), op.InRange values → op.Admits values →
      (decode (op.format.word values)).operation.key = op.key ∧
      (decode (op.format.word values)).operands = op.format.filterMap (Box.shown? values) := by
  refine ⟨fun v w hvw => ?_, fun w => ?_, fun v w hvw => ?_, fun op values hrange hadmits => ?_⟩
  · have hword : wordOf v = wordOf w := by
      apply value_injective
      rw [value_wordOf, value_wordOf]
      exact hvw
    rw [hword]
  · refine ⟨_, rebuild?_supplied _, (encode_eq_word _).symm, fun k hk hmem => ?_⟩
    have hcarries := (Operation.carries_format_iff _).mp (carries_decode (wordOf w)) k hk hmem
    rw [← hcarries, getLsbD_wordOf, decide_eq_true hk, Bool.true_and]
  · have hbits : ∀ k < 16, k ∉ (decode (wordOf w)).operation.ignoredBits →
        (wordOf v).getLsbD k = (wordOf w).getLsbD k := fun k hk hmem => by
      rw [getLsbD_wordOf, getLsbD_wordOf, hvw k hk hmem]
    obtain ⟨hop, hoperands⟩ := decode_alike hbits
    exact ⟨congrArg Operation.key hop, hoperands⟩
  · have hcarries := op.carries_word values
    refine ⟨congrArg Operation.key (operation_decode hcarries hadmits), ?_⟩
    rw [operands_decode hcarries hadmits, op.filterMap_content hrange]

/-- Adding minus three to `R2`, and a complement whose ignored bits are flipped. -/
theorem decoding_of_addMinusThree :
    let values : Operand → Int := fun
      | .dest => 1
      | .src1 => 2
      | _ => -3
    (decode (Operation.addImm.format.word values)).operation.key = "OP_ADD_IMM" ∧
      (decode (Operation.addImm.format.word values)).operands =
        [(.dest, 1), (.src1, 2), (.imm, 65533)] ∧
      (decode (wordOf 0x9280)).operands = (decode (wordOf 0x92BF)).operands := by
  intro values
  obtain ⟨-, -, hflip, hform⟩ := decoding_loses_ignored_bits_only
  have hrange : Operation.addImm.InRange values := by
    intro o ho
    simp only [Operation.format, List.mem_cons, List.not_mem_nil, or_false, reduceCtorEq, false_or,
      Box.register.injEq] at ho
    rcases ho with rfl | rfl <;> decide
  obtain ⟨hkey, hoperands⟩ := hform .addImm values hrange trivial
  exact ⟨hkey, hoperands, (hflip 0x9280 0x92BF (by decide)).2⟩

end LittleComputer.Instruction
