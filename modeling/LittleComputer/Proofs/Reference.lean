import LittleComputer.Machine.Basic
import LittleComputer.Terminal.Scripted

/-!
# The instruction set on integers

What the instructions mean, told without words and bit vectors: a register, a cell or
an address is an integer, everything that is stored is a residue modulo `2 ^ 16`
(`LittleComputer.Reference.wrap`), and an offset is a signed integer that is added to
an address (`LittleComputer.Reference.signed`). The numbers of registers count modulo
eight and addresses modulo `2 ^ 16`, so the fields of an instruction `w` are quotients
of `w`.

`LittleComputer.Reference.execute` has one line for each opcode, and no line for a trap
or for an opcode that user programs do not have. It shares no definition with the
machine. What both have in common is what they work on, and
`LittleComputer.Machine.view` shows a machine as such a state. The view forgets nothing
that an instruction could change (`LittleComputer.Machine.eq_of_view_eq`).
-/

namespace LittleComputer

namespace Reference

/-! ### Integers in place of words -/

/-- The residue of an integer modulo `2 ^ 16`. -/
def wrap (x : Int) : Int := x % 65536

/-- The low `bits` bits of an integer, read as a signed number. -/
def signed (bits : Nat) (x : Int) : Int := Int.bmod x (Nat.pow 2 bits)

/-- The bits that two residues have in common. -/
def both (x y : Int) : Int := ((x.toNat &&& y.toNat : Nat) : Int)

/-- The code of the sign of a residue: four if it is negative, two if it is zero, one if
it is positive. -/
def sign (x : Int) : Int :=
  if signed 16 x < 0 then 4 else if signed 16 x = 0 then 2 else 1

/-! ### States -/

/-- What the instructions work on. -/
structure State where
  /-- The general registers, by their numbers modulo eight. -/
  reg : Int → Int
  /-- The program counter. -/
  pc : Int
  /-- The condition register. -/
  cond : Int
  /-- The cells, by their addresses modulo `2 ^ 16`. -/
  cell : Int → Int
  /-- Whether the machine has stopped. -/
  halted : Bool
  /-- The number of instructions carried out. -/
  cycles : Nat
  /-- The keys still to come. -/
  keys : List Byte
  /-- What has been shown. -/
  output : List Byte

namespace State

/-- Replace the content of a register. -/
def set (s : State) (k v : Int) : State :=
  { s with reg := fun j => if j % 8 = k % 8 then v else s.reg j }

/-- Replace the content of a cell. -/
def store (s : State) (a v : Int) : State :=
  { s with cell := fun b => if wrap b = wrap a then v else s.cell b }

/-- Put a result into a register, and its sign into the condition register. -/
def assign (s : State) (k v : Int) : State := { s.set k v with cond := sign v }

/-- What asking the keyboard does to the cells: the next key, if there is one, is
announced in the status register and taken into the data register; if there is none,
the status register is cleared. -/
def askKeyboard (s : State) : State :=
  match s.keys with
  | [] => s.store 0xFE00 0
  | key :: rest => { (s.store 0xFE00 0x8000).store 0xFE02 key.toNat with keys := rest }

/-- The content of a cell, and the state after it was read: reading the status register
asks the keyboard first. -/
def load (s : State) (a : Int) : Int × State :=
  let s := if wrap a = 0xFE00 then s.askKeyboard else s
  (s.cell a, s)

/-- The second operand of an addition or a conjunction: a number in the instruction, or
the content of a register. -/
def operand (s : State) (w : Int) : Int := if w / 32 % 2 = 1 then signed 5 w else s.reg w

end State

/-! ### Instructions -/

/-- **The instructions**, in a state whose program counter is already past the
instruction `w`. -/
def execute (w : Int) (s : State) : Option State :=
  match (w / 4096).toNat with
  | 0 => -- BR
    if both (w / 512 % 8) s.cond ≠ 0 then some { s with pc := wrap (s.pc + signed 9 w) } else some s
  | 1 => -- ADD
    some (s.assign (w / 512) (wrap (s.reg (w / 64) + s.operand w)))
  | 2 => -- LD
    let (v, s) := s.load (s.pc + signed 9 w)
    some (s.assign (w / 512) v)
  | 3 => -- ST
    some (s.store (s.pc + signed 9 w) (s.reg (w / 512)))
  | 4 => -- JSR and JSRR
    if w / 2048 % 2 = 1 then some { s.set 7 s.pc with pc := wrap (s.pc + signed 11 w) }
    else some { s.set 7 s.pc with pc := s.reg (w / 64) }
  | 5 => -- AND
    some (s.assign (w / 512) (both (s.reg (w / 64)) (wrap (s.operand w))))
  | 6 => -- LDR
    let (v, s) := s.load (s.reg (w / 64) + signed 6 w)
    some (s.assign (w / 512) v)
  | 7 => -- STR
    some (s.store (s.reg (w / 64) + signed 6 w) (s.reg (w / 512)))
  | 9 => -- NOT
    some (s.assign (w / 512) (wrap (-1 - s.reg (w / 64))))
  | 10 => -- LDI
    let (a, s) := s.load (s.pc + signed 9 w)
    let (v, s) := s.load a
    some (s.assign (w / 512) v)
  | 11 => -- STI
    let (a, s) := s.load (s.pc + signed 9 w)
    some (s.store a (s.reg (w / 512)))
  | 12 => -- JMP and RET
    some { s with pc := s.reg (w / 64) }
  | 14 => -- LEA
    some (s.assign (w / 512) (wrap (s.pc + signed 9 w)))
  | _ => none

/-- **One instruction**: load it from the program counter, move the program counter past
it, carry it out, and count it. -/
def step (s : State) : Option State :=
  let (w, t) := s.load s.pc
  (execute w { t with pc := wrap (s.pc + 1) }).map fun t => { t with cycles := t.cycles + 1 }

end Reference

/-! ### Machines as states -/

namespace Machine

open Reference

/-- The residue that a word stands for. -/
def value (w : Word) : Int := w.toNat

/-- The register with a number, counted modulo eight. -/
def regAt (k : Int) : Reg := BitVec.ofInt 3 k

/-- A machine on a scripted terminal, seen as a state of integers. -/
def view (m : Machine ScriptedTerminal) : State where
  reg k := value (m.registers.read (.general (regAt k)))
  pc := value m.registers.pc
  cond := value m.registers.cond
  cell a := value (m.memory.peek (wordOf a))
  halted := m.halted
  cycles := m.cycles
  keys := m.console.terminal.keys
  output := m.console.terminal.output

theorem value_injective {v w : Word} (h : value v = value w) : v = w :=
  BitVec.eq_of_toNat_eq (Int.ofNat_inj.mp h)

@[simp] theorem wordOf_value (w : Word) : wordOf (value w) = w := wordOf_natCast_toNat w

@[simp] theorem value_wordOf (x : Int) : value (wordOf x) = wrap x := by
  have hnonneg : 0 ≤ x % 65536 := Int.emod_nonneg x (by decide)
  rw [value, wordOf, BitVec.toNat_ofInt]
  exact Int.toNat_of_nonneg hnonneg

@[simp] theorem regAt_toNat (r : Reg) : regAt (r.toNat : Int) = r := by simp [regAt]

/-- **The view forgets nothing**: machines that look the same have the same registers,
the same memory, the same progress and the same terminal. -/
theorem eq_of_view_eq {m n : Machine ScriptedTerminal} (h : m.view = n.view) :
    m.registers = n.registers ∧ m.memory = n.memory ∧ m.halted = n.halted ∧
      m.cycles = n.cycles ∧ m.console.terminal = n.console.terminal := by
  have hslots : ∀ s, m.registers.read s = n.registers.read s := by
    intro s
    cases s with
    | general r =>
      have hr := congrFun (congrArg State.reg h) r.toNat
      simp only [view, regAt_toNat] at hr
      exact value_injective hr
    | pc => exact value_injective (congrArg State.pc h)
    | cond => exact value_injective (congrArg State.cond h)
  have hcells : ∀ a, m.memory.peek a = n.memory.peek a := by
    intro a
    have ha := congrFun (congrArg State.cell h) (value a)
    simp only [view, wordOf_value] at ha
    exact value_injective ha
  have hshown : m.console.terminal.shown = n.console.terminal.shown :=
    List.reverse_inj.mp (congrArg State.output h)
  have hkeys : m.console.terminal.keys = n.console.terminal.keys := congrArg State.keys h
  refine ⟨Registers.ext_read hslots, Memory.ext_peek hcells, congrArg State.halted h,
    congrArg State.cycles h, ?_⟩
  revert hkeys hshown
  rcases m.console.terminal with ⟨keys, shown⟩
  rcases n.console.terminal with ⟨keys', shown'⟩
  rintro rfl rfl
  rfl

end Machine

end LittleComputer
