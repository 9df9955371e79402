import LittleComputer.Word

/-!
# The six services

A trap instruction calls a service of the machine by its vector. There are six,
with the vectors `x20` to `x25`; a trap with any other vector is no instruction.
`LittleComputer.Service.ofVector?_eq_some_iff` says that vectors and services
determine each other.
-/

namespace LittleComputer

/-- A service that a program can call. -/
inductive Service
  /-- Read a key into `R0` without showing it. -/
  | getc
  /-- Show the low byte of `R0`. -/
  | out
  /-- Show the string at the address in `R0`, one character a word. -/
  | puts
  /-- Prompt for a key, read it into `R0` and show it. -/
  | input
  /-- Show the string at the address in `R0`, two characters a word. -/
  | putsp
  /-- Announce the end and stop the machine. -/
  | halt
  deriving DecidableEq, Repr

namespace Service

/-- The services in the order of their vectors. -/
def all : List Service := [getc, out, puts, input, putsp, halt]

/-- The trap vector of a service. -/
def vector : Service → Byte
  | getc => 0x20
  | out => 0x21
  | puts => 0x22
  | input => 0x23
  | putsp => 0x24
  | halt => 0x25

/-- The name by which a service is announced. -/
def name : Service → String
  | getc => "GETC"
  | out => "OUT"
  | puts => "PUTS"
  | input => "IN"
  | putsp => "PUTSP"
  | halt => "HALT"

/-- The service with a given vector. -/
def ofVector? (vector : Int) : Option Service :=
  all.find? fun s => (s.vector.toNat : Int) = vector

/-- What the input service shows before it reads a key. -/
def prompt : String := "Enter a character: "

/-- What the halt service shows. -/
def farewell : String := "HALT\n"

theorem mem_all (s : Service) : s ∈ all := by cases s <;> decide

/-- **A vector calls a service exactly when it is the service's own.** -/
theorem ofVector?_eq_some_iff {v : Int} {s : Service} :
    ofVector? v = some s ↔ v = s.vector.toNat := by
  constructor
  · intro h
    have := List.find?_some h
    exact (of_decide_eq_true this).symm
  · rintro rfl
    cases s <;> rfl

@[simp] theorem ofVector?_vector (s : Service) : ofVector? s.vector.toNat = some s :=
  ofVector?_eq_some_iff.2 rfl

end Service

end LittleComputer
