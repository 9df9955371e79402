import LittleComputer.Fault

/-!
# The journal

A machine at work leaves notices: what it fetched, which service it called, what
it loaded, what went wrong with the display. A notice is a value; its weight
(`LittleComputer.Notice.level`), the part of the machine it comes from and its
wording are functions of it. A `LittleComputer.Journal` keeps the notices that
reach its threshold, in the order in which they were made.
-/

namespace LittleComputer

open Text

/-! ### Levels -/

/-- The weight of a notice. -/
inductive Level
  | debug | info | warning | error
  deriving DecidableEq, Repr

namespace Level

/-- The rank of a level: the heavier, the higher. -/
def rank : Level → Nat
  | debug => 0
  | info => 1
  | warning => 2
  | error => 3

/-- The name of a level. -/
def name : Level → String
  | debug => "DEBUG"
  | info => "INFO"
  | warning => "WARNING"
  | error => "ERROR"

end Level

/-! ### Notices -/

/-- Something worth noting. -/
inductive Notice
  /-- A word was fetched and is about to be carried out. -/
  | fetched (address instruction : Word)
  /-- A fault stopped the machine. -/
  | faulted (fault : Fault)
  /-- A run stopped between two instructions because it was asked to. -/
  | stopped (pc : Word)
  /-- A service was called. -/
  | called (service : Service)
  /-- A program ended, after this many instructions. -/
  | ended (instructions : Nat)
  /-- An image has one byte more than whole words. -/
  | oddByte (image : String)
  /-- An image runs past the top of memory by this many words. -/
  | wordsDropped (image : String) (count : Nat)
  /-- An image was loaded. -/
  | loaded (image : String) (words : Nat) (origin : Word)
  /-- The input is no terminal, so its modes were left alone. -/
  | modesKept
  /-- The display failed; nothing more will be shown. -/
  | outputFailed (reason : String)
  /-- The modes of the input could not be restored. -/
  | restoreFailed (reason : String)
  deriving DecidableEq, Repr

namespace Notice

/-- The weight of a notice. -/
def level : Notice → Level
  | fetched .. | called .. | modesKept => .debug
  | faulted .. | stopped .. | ended .. | loaded .. => .info
  | oddByte .. | wordsDropped .. | outputFailed .. => .warning
  | restoreFailed .. => .error

/-- The part of the machine that a notice comes from. -/
def channel : Notice → String
  | fetched .. | faulted .. | stopped .. => "lc3_vm.cpu"
  | called .. | ended .. => "lc3_vm.traps"
  | oddByte .. | wordsDropped .. | loaded .. => "lc3_vm.loader"
  | modesKept | outputFailed .. | restoreFailed .. => "lc3_vm.terminal"

/-- The wording of a notice. -/
def text : Notice → String
  | fetched address instruction =>
    let i := Instruction.decode instruction
    "0x" ++ hexWord address ++ ": " ++ hexWord instruction ++ " " ++ i.operation.key ++ " " ++
      i.operandText
  | faulted fault => fault.failure.message
  | stopped pc => "stop requested at PC=0x" ++ hexWord pc
  | called service => "TRAP " ++ service.name
  | ended n => "HALT after " ++ toString n ++ " instructions"
  | oddByte image => image ++ ": ignoring trailing odd byte"
  | wordsDropped image n => image ++ ": " ++ toString n ++ " words past 0xFFFF dropped"
  | loaded image n origin =>
    "loaded " ++ image ++ ": " ++ toString n ++ " words at 0x" ++ hexWord origin
  | modesKept => "stdin is not a TTY, leaving input mode unchanged"
  | outputFailed reason => "terminal output failed, discarding further output: " ++ reason
  | restoreFailed reason => "failed to restore terminal settings: " ++ reason

/-- The line that reports a notice. -/
def line (n : Notice) : String := n.level.name ++ " " ++ n.channel ++ ": " ++ n.text

end Notice

/-! ### Journals -/

/-- The notices that reached a threshold. -/
structure Journal where
  /-- The least level that is kept; nothing is kept without one. -/
  threshold : Option Level
  /-- The notices kept so far, the latest first. -/
  latest : List Notice := []

namespace Journal

/-- A journal that keeps nothing. -/
def silent : Journal := { threshold := none }

/-- Whether a notice reaches the threshold of a journal. -/
def keeps (j : Journal) (n : Notice) : Bool :=
  match j.threshold with
  | none => false
  | some least => least.rank ≤ n.level.rank

/-- The journal after one more notice. -/
def record (j : Journal) (n : Notice) : Journal :=
  if j.keeps n then { j with latest := n :: j.latest } else j

/-- The journal after some more notices, in order. -/
def recordAll (j : Journal) (ns : List Notice) : Journal := ns.foldl record j

/-- The notices in the order in which they were made. -/
def entries (j : Journal) : List Notice := j.latest.reverse

/-- The journal without its notices. -/
def emptied (j : Journal) : Journal := { j with latest := [] }

theorem threshold_record (j : Journal) (n : Notice) : (j.record n).threshold = j.threshold := by
  unfold record
  split <;> rfl

theorem keeps_record (j : Journal) (m n : Notice) : (j.record m).keeps n = j.keeps n := by
  simp only [keeps, threshold_record]

theorem entries_record (j : Journal) (n : Notice) :
    (j.record n).entries = j.entries ++ if j.keeps n then [n] else [] := by
  unfold record
  split <;> simp [entries, *]

theorem recordAll_append (j : Journal) (ns ns' : List Notice) :
    j.recordAll (ns ++ ns') = (j.recordAll ns).recordAll ns' := List.foldl_append

end Journal

end LittleComputer
