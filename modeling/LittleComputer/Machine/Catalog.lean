import LittleComputer.Machine.Execute

/-!
# Catalogs

Operations can be called by their key and services by their vector. A catalog is
the list of what can be called this way. It holds the built-in entries and is
frozen; a catalog that was thawed takes further ones, but no entry twice.

An operation that was added puts a fixed word into `R0`. A routine that was added
is never run, because a call is announced by the name of its service before
anything else, and only the six services have names.
-/

namespace LittleComputer

/-! ### Operations by key -/

/-- The operations that can be called by key. -/
structure OperationCatalog where
  /-- The added operations: their keys, and the numbers that they put into `R0`. -/
  added : List (String × Int) := []
  /-- Whether the catalog takes no further entries. -/
  frozen : Bool := true

namespace OperationCatalog

/-- All keys, in alphabetical order. -/
def keys (c : OperationCatalog) : List String :=
  (Operation.all.map Operation.key ++ c.added.map Prod.fst).mergeSort

/-- Whether an operation has the given key. -/
def contains (c : OperationCatalog) (key : String) : Bool :=
  (Operation.ofKey? key).isSome || (c.added.lookup key).isSome

/-- The catalog with one more operation. -/
def register (c : OperationCatalog) (key : String) (value : Int) :
    Except Failure OperationCatalog :=
  if c.frozen then .error (.misuse .operationsFrozen)
  else if c.contains key then .error (.misuse (.operationTaken key))
  else .ok { c with added := (key, value) :: c.added }

/-- Carry out the operation with the given key and count it. -/
def execute {T : Type} [Terminal T] (c : OperationCatalog) (key : String)
    (operands : String → Option Int) : Action T Unit :=
  match Operation.ofKey? key, c.added.lookup key with
  | some op, _ => do
    Machine.perform (Machine.supply operands) op
    Machine.countCycle
  | none, some value => do
    Machine.writeSlot (.general 0) (wordOf value)
    Machine.countCycle
  | none, none => throw (.misuse (.unknownOperation key))

end OperationCatalog

/-! ### Routines by vector -/

/-- The trap routines that can be called by vector. -/
structure RoutineCatalog where
  /-- The vectors of the added routines. -/
  added : List Int := []
  /-- Whether the catalog takes no further entries. -/
  frozen : Bool := true

namespace RoutineCatalog

/-- Whether a routine has the given vector. -/
def contains (c : RoutineCatalog) (vector : Int) : Bool :=
  (Service.ofVector? vector).isSome || c.added.contains vector

/-- The catalog with one more routine. -/
def register (c : RoutineCatalog) (vector : Int) : Except Failure RoutineCatalog :=
  if c.frozen then .error (.misuse .routinesFrozen)
  else if c.contains vector then .error (.misuse (.vectorTaken vector))
  else .ok { c with added := vector :: c.added }

/-- Run the routine with the given vector. -/
def dispatch {T : Type} [Terminal T] (c : RoutineCatalog) (vector : Int) : Action T Unit :=
  if (Service.ofVector? vector).isNone && c.added.contains vector then
    throw (.misuse (.unnamedVector vector))
  else Machine.dispatch vector

end RoutineCatalog

end LittleComputer
