import LittleComputer.Machine.Catalog
import LittleComputer.Machine.Effect

/-!
# The tables fit together

An instruction names its operation by a key and its operands by names, a trap names its
service by a vector, and the catalogs are looked up by all three. So there is something that
could go wrong in an instruction that was decoded: a key or a vector could be missing from its
catalog, or an operand that the operation asks for. `LittleComputer.Instruction.Fits` says that
none is, and `LittleComputer.Instruction.fits` that this is so of every instruction, whatever
was added to the catalogs.

That an operation asks for no other operands than it is given is said by leaving the supply
open: whatever a supply does when asked for something else, an operation that is given the
operands of the instruction has its effect (`LittleComputer.Machine.perform_of_supplied`).
-/

namespace LittleComputer

/-! ### Operands and keys -/

/-- An operand that is the number of a general register. -/
def Operand.IsRegister : Operand → Prop
  | dest | src1 | src2 | src | base => True
  | _ => False

theorem Operand.name_injective {a b : Operand} (h : a.name = b.name) : a = b := by
  revert h
  cases a <;> cases b <;> decide

@[simp] theorem Operation.ofKey?_key (op : Operation) : ofKey? op.key = some op := by
  cases op <;> rfl

namespace Instruction

/-- The operands of an instruction as they are supplied to an operation that is called by
its key. -/
def supplied (i : Instruction) (name : String) : Option Int :=
  (i.operands.find? fun operand => operand.1.name = name).map fun operand => operand.2

/-- Looking an operand up by its name is looking it up. -/
theorem supplied_name (i : Instruction) (o : Operand) :
    i.supplied o.name = (i.operand? o).map fun n => (n : Int) := by
  rw [supplied, operand?]
  induction i.operands with
  | nil => rfl
  | cons operand rest ih =>
    obtain ⟨o', n⟩ := operand
    by_cases h : o' = o
    · subst h
      simp
    · have hname : o'.name ≠ o.name := fun hn => h (Operand.name_injective hn)
      have hbeq : (o == o') = false := beq_eq_false_iff_ne.mpr (Ne.symm h)
      simp only [List.find?_cons, List.lookup_cons, hname, hbeq, decide_false]
      exact ih

theorem register_lt (i : Instruction) :
    ∀ operand ∈ i.operands, operand.1.IsRegister → operand.2 < 8 := by
  have hreg : ∀ r : Reg, r.toNat < 8 := fun r => r.isLt
  cases i <;> simp [operands, Operand.IsRegister, hreg]

end Instruction

namespace Machine

variable {T : Type}

/-- The operands of an instruction can be supplied by name. -/
theorem supply_supplied (i : Instruction) (o : Operand) :
    supply (T := T) i.supplied o = operandOf i o := by
  rw [supply, operandOf, i.supplied_name]
  cases i.operand? o <;> rfl

variable [Terminal T]

/-- **An operation asks for nothing but the operands of its instruction.** -/
theorem perform_of_supplied {arg : Operand → Action T Int} {i : Instruction}
    (h : ∀ operand ∈ i.operands, arg operand.1 = pure (operand.2 : Int)) :
    perform arg i.operation = effect i := by
  cases i with
  | jmp base =>
    simp only [Instruction.operands, List.forall_mem_cons] at h
    simp only [Instruction.operation]
    split <;> simp [perform, effect, h]
  | _ =>
    simp only [Instruction.operands, List.forall_mem_cons] at h
    simp [Instruction.operation, perform, effect, h, perform.relative, perform.indexed,
      relativeTo, indexedBy, wordOf_condition, dispatch]

end Machine

/-! ### Catalogs -/

/-- **An instruction is carried out by way of its key** as it is carried out. -/
theorem OperationCatalog.execute_key {T : Type} [Terminal T] (c : OperationCatalog)
    (i : Instruction) : c.execute i.operation.key i.supplied = Machine.execute (T := T) i := by
  rw [execute, Operation.ofKey?_key, Machine.execute, funext (Machine.supply_supplied i)]

theorem OperationCatalog.contains_key (c : OperationCatalog) (op : Operation) :
    c.contains op.key = true := by
  rw [contains, Operation.ofKey?_key]
  rfl

theorem RoutineCatalog.contains_vector (c : RoutineCatalog) (s : Service) :
    c.contains s.vector.toNat = true := by
  rw [contains, Service.ofVector?_vector]
  rfl

/-- A service is announced by its name and carried out by its routine. -/
theorem RoutineCatalog.dispatch_vector {T : Type} [Terminal T] (c : RoutineCatalog)
    (s : Service) :
    c.dispatch (T := T) s.vector.toNat = Machine.note (.called s) >>= fun _ => Machine.serve s := by
  rw [dispatch, Machine.dispatch, Service.ofVector?_vector]
  rfl

/-- **The tables have what an instruction looks up**, whatever was added to them.

* Its key is that of an operation, and to carry out the operation of that key, with the
  operands of the instruction supplied by name, is to carry out the instruction.
* Its operation asks for no operand that the instruction does not have, and those that are
  numbers of registers are below eight.
* If it calls a service, there is a routine for the vector, and a name to announce it by. -/
structure Instruction.Fits (T : Type) [Terminal T] (i : Instruction) : Prop where
  key : ∀ c : OperationCatalog, c.contains i.operation.key = true ∧
    c.execute i.operation.key i.supplied = Machine.execute (T := T) i
  operands : ∀ arg : Operand → Action T Int,
    (∀ operand ∈ i.operands, arg operand.1 = pure (operand.2 : Int)) →
    Machine.perform arg i.operation = Machine.effect i
  registers : ∀ operand ∈ i.operands, operand.1.IsRegister → operand.2 < 8
  vector : ∀ s : Service, i = .trap s → ∀ c : RoutineCatalog,
    c.contains s.vector.toNat = true ∧
    c.dispatch (T := T) s.vector.toNat = Machine.note (.called s) >>= fun _ => Machine.serve s

/-- **The tables have what any instruction looks up.** -/
theorem Instruction.fits (T : Type) [Terminal T] (i : Instruction) : i.Fits T where
  key := fun c => ⟨c.contains_key i.operation, c.execute_key i⟩
  operands := fun _ h => Machine.perform_of_supplied h
  registers := i.register_lt
  vector := fun s _ c => ⟨c.contains_vector s, c.dispatch_vector s⟩

end LittleComputer
