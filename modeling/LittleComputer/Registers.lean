import LittleComputer.Flag
import LittleComputer.Table

/-!
# The register file

Eight general registers `R0` to `R7`, the program counter `PC` and the condition
register `COND`. A `LittleComputer.Slot` designates one of the ten; slots have
names, which are read without regard to case, and numbers, which may also count
from the end: `0` to `7` are the general registers, `8` is `PC`, `9` is `COND`,
and `-1` is `COND` again, down to `-10` for `R0`.

Everything a change does is said by `LittleComputer.Registers.read_write`.
-/

namespace LittleComputer

/-- One of the ten registers. -/
inductive Slot
  | general (r : Reg)
  | pc
  | cond
  deriving DecidableEq, Repr

namespace Slot

/-- The ten slots in their customary order, which is also that of their numbers. -/
def all : List Slot :=
  [general 0, general 1, general 2, general 3, general 4, general 5, general 6, general 7, pc, cond]

/-- The name of a register. -/
def name : Slot → String
  | general r => "R" ++ toString r.toNat
  | pc => "PC"
  | cond => "COND"

/-- The slot with a given number: counted from the front for `0` to `9`, from the
end for `-1` to `-10`, none otherwise. -/
def ofIndex? (index : Int) : Option Slot :=
  let i := if index < 0 then index + 10 else index
  if i < 0 then none
  else if i < 8 then some (general (BitVec.ofNat 3 i.toNat))
  else if i = 8 then some pc
  else if i = 9 then some cond
  else none

/-- The slot with a given name, in upper or lower case. -/
def ofName? (name : String) : Option Slot :=
  all.find? fun slot => slot.name = name.map Char.toUpper

/-- The number of a general register designates it. -/
@[simp] theorem ofIndex?_toNat (r : Reg) : ofIndex? r.toNat = some (general r) := by
  have h := r.isLt
  have h1 : ¬((r.toNat : Int) < 0) := by omega
  have h2 : (r.toNat : Int) < 8 := by omega
  simp [ofIndex?, h1, h2]

theorem mem_all (s : Slot) : s ∈ all := by
  cases s with
  | general r =>
    revert r
    decide
  | pc => decide
  | cond => decide

end Slot

/-- The ten registers. -/
structure Registers where
  /-- The general registers. -/
  general : Table Word 3
  /-- The program counter: the address of the next instruction. -/
  pc : Word
  /-- The condition register: the code of the flag of the last result. -/
  cond : Word

namespace Registers

/-- All registers zero. -/
def cleared : Registers := ⟨Table.replicate 3 0, 0, 0⟩

/-- The first instruction of a program is at this address, whatever was loaded. -/
def start : Word := 0x3000

/-- The registers of a machine that has just been switched on: zero, but for the
program counter at the start address and the condition register at "zero". -/
def powerOn : Registers := { cleared with pc := start, cond := Flag.zero.code }

/-- The content of a register. -/
def read (regs : Registers) : Slot → Word
  | .general r => regs.general[r]
  | .pc => regs.pc
  | .cond => regs.cond

/-- The registers with one of them replaced. -/
def write (regs : Registers) (slot : Slot) (value : Word) : Registers :=
  match slot with
  | .general r => { regs with general := regs.general.put r value }
  | .pc => { regs with pc := value }
  | .cond => { regs with cond := value }

/-- All registers with their names, in order. -/
def dump (regs : Registers) : List (String × Word) :=
  Slot.all.map fun slot => (slot.name, regs.read slot)

/-- **A write is seen in its own register and in no other.** -/
theorem read_write (regs : Registers) (s t : Slot) (value : Word) :
    (regs.write s value).read t = if s = t then value else regs.read t := by
  cases s <;> cases t <;> simp [read, write, Table.getElem_put]

@[simp] theorem read_write_self (regs : Registers) (s : Slot) (value : Word) :
    (regs.write s value).read s = value := by
  rw [read_write, if_pos rfl]

/-- Register files that agree on every slot are equal. -/
theorem ext_read {a b : Registers} (h : ∀ s, a.read s = b.read s) : a = b := by
  obtain ⟨ga, pa, ca⟩ := a
  obtain ⟨gb, pb, cb⟩ := b
  have hg : ga = gb := Table.ext_getElem fun r => h (.general r)
  have hp : pa = pb := h .pc
  have hc : ca = cb := h .cond
  rw [hg, hp, hc]

end Registers

end LittleComputer
