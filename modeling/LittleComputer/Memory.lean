import LittleComputer.Table
import LittleComputer.Word

/-!
# Memory

65,536 cells of one word each. Two of them belong to the keyboard: its status
register, in which the top bit says that a key has arrived, and its data
register, which holds that key. What is here is the plain storage; that a read
of the status register asks the terminal is a matter for the machine
(`LittleComputer.Machine.readCell`).

Loading copies a list of words to consecutive cells. It stops at the last cell
and does not go on at the first.
-/

namespace LittleComputer

/-- The content of all cells. -/
structure Memory where
  /-- The cells by their address. -/
  cells : Table Word 16

namespace Memory

/-- The number of cells. -/
def size : Nat := 65536

/-- The address of the keyboard status register. -/
def keyboardStatus : Word := 0xFE00

/-- The address of the keyboard data register. -/
def keyboardData : Word := 0xFE02

/-- The content of the status register when a key has arrived. -/
def keyReady : Word := 0x8000

/-- All cells zero. -/
def cleared : Memory := ⟨Table.replicate 16 0⟩

/-- The content of a cell. -/
def peek (m : Memory) (address : Word) : Word := m.cells[address]

/-- The memory with one cell replaced. -/
def write (m : Memory) (address value : Word) : Memory := ⟨m.cells.put address value⟩

/-- Copy words to the cells from `address` upwards, as long as there are cells. -/
def loadFrom (m : Memory) : (address : Nat) → List Word → Memory
  | _, [] => m
  | address, w :: rest =>
    if address < size then (m.write (BitVec.ofNat 16 address) w).loadFrom (address + 1) rest else m

/-- Copy words to the cells from `origin` upwards, up to the last cell. -/
def load (m : Memory) (origin : Word) (words : List Word) : Memory :=
  m.loadFrom origin.toNat words

/-- How many of `count` words find a cell from `origin` upwards. -/
def room (origin : Word) (count : Nat) : Nat := min count (size - origin.toNat)

/-! ### Laws -/

/-- **A write is seen in its own cell and in no other.** -/
theorem peek_write (m : Memory) (a b value : Word) :
    (m.write a value).peek b = if a = b then value else m.peek b :=
  Table.getElem_put m.cells a b value

@[simp] theorem peek_write_self (m : Memory) (a value : Word) :
    (m.write a value).peek a = value := by
  rw [peek_write, if_pos rfl]

@[simp] theorem peek_cleared (a : Word) : cleared.peek a = 0 := Table.getElem_replicate 16 0 a

/-- Memories with the same content in every cell are equal. -/
theorem ext_peek {m n : Memory} (h : ∀ a, m.peek a = n.peek a) : m = n := by
  obtain ⟨cm⟩ := m
  obtain ⟨cn⟩ := n
  exact congrArg mk (Table.ext_getElem h)

/-! ### Inspection -/

/-- The cells from `low` to `high`, both included, with their addresses. -/
def cellsBetween (m : Memory) (low high : Nat) : List (Nat × Word) :=
  (List.range' low (high + 1 - low)).map fun a => (a, m.peek (BitVec.ofNat 16 a))

/-- Group cells into runs of consecutive addresses. -/
def runsOf : List (Nat × Word) → List (Nat × List Word)
  | [] => []
  | (a, w) :: rest =>
    match runsOf rest with
    | (b, ws) :: runs => if b = a + 1 then (a, w :: ws) :: runs else (a, [w]) :: (b, ws) :: runs
    | [] => [(a, [w])]

/-- The cells from `low` to `high` that are not zero, as maximal runs of
consecutive addresses. -/
def nonzeroRuns (m : Memory) (low high : Nat) : List (Nat × List Word) :=
  runsOf ((m.cellsBetween low high).filter fun cell => cell.2 ≠ 0)

/-- The number of cells that are not zero, and the sum of their contents, each
weighted with its address plus one, modulo `2 ^ 32`. -/
def checksum (m : Memory) : Nat × Nat :=
  (m.cellsBetween 0 65535).foldl
    (fun (count, sum) (a, w) =>
      if w = 0 then (count, sum) else (count + 1, (sum + (a + 1) * w.toNat) % Nat.pow 2 32))
    (0, 0)

end Memory

end LittleComputer
