import LittleComputer.Instruction.Decode

/-!
# Faults

A fault is a fetched word that is no instruction of a user program, with the
address that it was fetched from. It stops the machine and is reported as an
illegal instruction.
-/

namespace LittleComputer

/-- A word that is no instruction, where it was fetched. -/
structure Fault where
  /-- The address that the word was fetched from. -/
  address : Word
  /-- The word. -/
  instruction : Word
  deriving DecidableEq, Repr

/-- The failure that reports a fault. -/
def Fault.failure (f : Fault) : Failure :=
  .illegalInstruction f.address.toNat f.instruction.toNat (Defect.ofWord f.instruction).message

end LittleComputer
