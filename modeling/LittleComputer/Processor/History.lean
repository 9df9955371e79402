import LittleComputer.Failure

/-!
# Histories

A history remembers the latest entries of a growing sequence, as many as its
depth allows. Entries beyond the depth are dropped from time to time and not at
every push, so a push takes constant time on average; they are never visible,
because a history is looked at only through `LittleComputer.History.latest`, and
`LittleComputer.History.latest_push` says that this view is that of a sequence
cut to the depth after each push.
-/

namespace LittleComputer

/-- The latest entries of a sequence. -/
structure History (α : Type) where
  /-- How many entries are remembered. -/
  depth : Nat
  /-- The latest entries first; those beyond the depth are not visible. -/
  recent : List α := []
  /-- How many pushes remain before invisible entries are dropped. -/
  spare : Nat := 0

namespace History

variable {α : Type}

/-- The greatest depth that a history can have. -/
def greatestDepth : Nat := Nat.pow 2 63 - 1

/-- The depth that an integer gives. One beyond the greatest depth, on either side
of zero, is refused for its size before its sign is looked at. -/
def depth? (n : Int) : Except Misuse Nat :=
  if n < -(greatestDepth : Int) - 1 ∨ (greatestDepth : Int) < n then .error .depthTooLarge
  else if n < 0 then .error .negativeDepth
  else .ok n.toNat

/-- A history without entries. -/
def empty (depth : Nat) : History α := { depth }

/-- The remembered entries, the latest first. -/
def latest (h : History α) : List α := h.recent.take h.depth

/-- The remembered entries, the oldest first. -/
def toList (h : History α) : List α := h.latest.reverse

/-- The history after one more entry. -/
def push (h : History α) (x : α) : History α :=
  -- Cutting costs as much as the depth and is due once in `depth + 1` pushes.
  match h.spare with
  | 0 => { h with recent := (x :: h.recent).take h.depth, spare := h.depth }
  | n + 1 => { h with recent := x :: h.recent, spare := n }

/-- The history with all entries forgotten. -/
def clear (h : History α) : History α := empty h.depth

@[simp] theorem depth_push (h : History α) (x : α) : (h.push x).depth = h.depth := by
  unfold push
  split <;> rfl

/-- **A push puts an entry in front and keeps as many as the depth allows.** -/
theorem latest_push (h : History α) (x : α) :
    (h.push x).latest = (x :: h.latest).take h.depth := by
  obtain ⟨depth, recent, spare⟩ := h
  cases depth with
  | zero => cases spare <;> simp [push, latest]
  | succ d => cases spare <;> simp [push, latest, List.take_take]

@[simp] theorem latest_clear (h : History α) : h.clear.latest = [] := by
  simp [clear, empty, latest]

theorem length_latest_le (h : History α) : h.latest.length ≤ h.depth :=
  List.length_take_le h.depth h.recent

end History

end LittleComputer
