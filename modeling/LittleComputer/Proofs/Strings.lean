import LittleComputer.Proofs.Delivery
import LittleComputer.Proofs.ReadLog
import LittleComputer.Proofs.Returning

/-!
# What is read of a string

Neither of the two services that show a string counts the cells that it reads, and nothing says
that there is a zero among them. What a service reads is therefore said beside what it does: a
`LittleComputer.Machine.Walk` has the cells in the order in which they are read, and knows of no
bound. They are the cells that a scan with reads that are logged has in its log in the end
(`LittleComputer.Machine.Walk.run_logged`). `LittleComputer.Machine.ReadsOut` is all this for a call
of a service; the bound that the service computes does not matter as long as it leaves room for the
walk (`LittleComputer.Machine.Walk.readsOut_puts`, `LittleComputer.Machine.Walk.readsOut_putsp`).

What is done with a cell depends on the word that is read there, and only a read of the keyboard
status register has to do with anything but memory. So a stretch of cells without it is gone through
in one go (`LittleComputer.Machine.Walk.through`): the bytes that they hold are shown, and nothing
else is changed.
-/

namespace LittleComputer

open Memory

theorem wordOfByte_ne_zero {b : Byte} (h : b ≠ 0) : wordOfByte b ≠ 0 := by
  intro hw
  rw [← lowByte_wordOfByte b, hw] at h
  exact h rfl

namespace Machine

variable {T : Type}

/-! ### Walks -/

/-- **The cells that a scan reads**: `Walk cell address m visited r m'` says that from the machine
`m` the scan of the cells from `address` on reads the cells `visited`, in this order, and ends with
the outcome `r` and the machine `m'`. A cell stands in the list once for each time that it is
read. -/
inductive Walk (cell : Word → Action T Bool) :
    Word → Machine T → List Word → Except Failure Unit → Machine T → Prop
  | stop {address : Word} {m m' : Machine T} (h : (cell address).run m = (.ok false, m')) :
    Walk cell address m [address] (.ok ()) m'
  | fail {address : Word} {m m' : Machine T} {f : Failure}
    (h : (cell address).run m = (.error f, m')) : Walk cell address m [address] (.error f) m'
  | more {address : Word} {m m₁ m' : Machine T} {visited : List Word} {r : Except Failure Unit}
    (h : (cell address).run m = (.ok true, m₁)) (rest : Walk cell (address + 1) m₁ visited r m') :
    Walk cell address m (address :: visited) r m'

section Walk

variable {cell : Word → Action T Bool} {address : Word} {m m' : Machine T} {visited : List Word}
  {r : Except Failure Unit}

/-- A scan that ends has gone through some cells. -/
theorem Ends.exists_walk (h : Ends cell address m r m') :
    ∃ visited, Walk cell address m visited r m' := by
  induction h with
  | stop h => exact ⟨_, .stop h⟩
  | fail h => exact ⟨_, .fail h⟩
  | more h _ ih =>
    obtain ⟨visited, hwalk⟩ := ih
    exact ⟨_, .more h hwalk⟩

/-- **The cells read are determined** by the machine, and so is how the scan ends. -/
theorem Walk.unique {visited' : List Word} {r' : Except Failure Unit} {m'' : Machine T}
    (h : Walk cell address m visited r m') (h' : Walk cell address m visited' r' m'') :
    visited = visited' ∧ r = r' ∧ m' = m'' := by
  induction h generalizing visited' with
  | stop hrun =>
    cases h' with
    | stop hrun' =>
      cases hrun.symm.trans hrun'
      exact ⟨rfl, rfl, rfl⟩
    | fail hrun' => cases hrun.symm.trans hrun'
    | more hrun' => cases hrun.symm.trans hrun'
  | fail hrun =>
    cases h' with
    | stop hrun' => cases hrun.symm.trans hrun'
    | fail hrun' =>
      cases hrun.symm.trans hrun'
      exact ⟨rfl, rfl, rfl⟩
    | more hrun' => cases hrun.symm.trans hrun'
  | more hrun _ ih =>
    cases h' with
    | stop hrun' => cases hrun.symm.trans hrun'
    | fail hrun' => cases hrun.symm.trans hrun'
    | more hrun' rest' =>
      cases hrun.symm.trans hrun'
      obtain ⟨rfl, hr, hm⟩ := ih rest'
      exact ⟨rfl, hr, hm⟩

/-- **A bound that leaves room for the walk does not matter.** -/
theorem Walk.run_scan (h : Walk cell address m visited r m') {bound : Nat}
    (hbound : visited.length ≤ bound) : (scan cell bound address).run m = (r, m') := by
  induction h generalizing bound with
  | stop h =>
    obtain ⟨bound, rfl⟩ := Nat.exists_eq_add_of_le' hbound
    exact run_bind_of_ok h _
  | fail h =>
    obtain ⟨bound, rfl⟩ := Nat.exists_eq_add_of_le' hbound
    exact run_bind_of_error h _
  | more h _ ih =>
    rw [List.length_cons] at hbound
    obtain ⟨bound, rfl⟩ := Nat.exists_eq_add_of_le' (Nat.le_of_add_left_le hbound)
    exact (run_bind_of_ok h _).trans (ih (Nat.le_of_succ_le_succ hbound))

/-- **The status register bounds a walk**: let `cell` give something away to get past it, as in
`scan_ends_or_fails`. Then the walk does not go on behind the first passage for which there is
nothing left. -/
theorem Walk.length_le (I : Machine T → Prop) (left : Machine T → Nat)
    (hcell : ∀ address m m', I m → (cell address).run m = (.ok true, m') →
      I m' ∧ left m' + (if address = keyboardStatus then 1 else 0) ≤ left m)
    (h : Walk cell address m visited r m') (hm : I m) :
    visited.length ≤ distance address + size * left m + 1 := by
  induction h with
  | stop _ => exact Nat.le_add_left _ _
  | fail _ => exact Nat.le_add_left _ _
  | @more address m m₁ _ _ _ hrun _ ih =>
    obtain ⟨hm₁, hleft⟩ := hcell address m m₁ hm hrun
    have hdescends := distance_descends hleft (Nat.lt_succ_self _)
    exact Nat.succ_le_succ (Nat.le_trans (ih hm₁) hdescends)

end Walk

/-! ### Cells one after the other -/

/-- As many cells as are given, from an address upwards, and from the last address on to the
first. -/
def cellsFrom (address : Word) (count : Nat) : List Word :=
  (List.range count).map fun i => address + BitVec.ofNat 16 i

@[simp] theorem length_cellsFrom (address : Word) (count : Nat) :
    (cellsFrom address count).length = count := by
  simp [cellsFrom]

@[simp] theorem cellsFrom_zero (address : Word) : cellsFrom address 0 = [] := rfl

theorem mem_cellsFrom {address b : Word} {count : Nat} :
    b ∈ cellsFrom address count ↔ ∃ i < count, b = address + BitVec.ofNat 16 i := by
  simp [cellsFrom, eq_comm]

theorem cellsFrom_succ (address : Word) (count : Nat) :
    cellsFrom address (count + 1) = address :: cellsFrom (address + 1) count := by
  rw [cellsFrom, List.range_succ_eq_map, List.map_cons, List.map_map]
  refine congrArg₂ List.cons (BitVec.add_zero _) (List.map_congr_left fun i _ => ?_)
  simp only [Function.comp_apply]
  bv_omega

theorem cellsFrom_succ' (address : Word) (count : Nat) :
    cellsFrom address (count + 1) =
      cellsFrom address count ++ [address + BitVec.ofNat 16 count] := by
  rw [cellsFrom, List.range_succ, List.map_append]
  rfl

/-- Cells among which the status register is not lie before it. -/
theorem le_distance {address : Word} {count : Nat}
    (h : ∀ b ∈ cellsFrom address count, b ≠ keyboardStatus) : count ≤ distance address := by
  by_contra hc
  refine h keyboardStatus (mem_cellsFrom.mpr ⟨distance address, Nat.lt_of_not_le hc, ?_⟩) rfl
  rw [distance, BitVec.ofNat_toNat, BitVec.setWidth_eq, BitVec.add_comm, BitVec.sub_add_cancel]

/-! ### What is done with one cell -/

section Cells

variable [Terminal T]

/-- The machine after bytes were shown, one after the other. -/
def shows (m : Machine T) (bytes : List Byte) : Machine T :=
  { m with console := bytes.foldl Console.write m.console }

@[simp] theorem memory_shows (m : Machine T) (bytes : List Byte) :
    (m.shows bytes).memory = m.memory := rfl

/-- Bytes that are shown reach the terminal, and nothing else is done to it. -/
theorem terminal_shows (m : Machine T) (bytes : List Byte) :
    (m.shows bytes).console.terminal = bytes.foldl Terminal.write m.console.terminal := by
  induction bytes generalizing m with
  | nil => rfl
  | cons b rest ih =>
    refine (ih { m with console := m.console.write b }).trans ?_
    rw [m.console.write_eq]
    rfl

theorem guarded_shows (m : Machine T) (bytes : List Byte) :
    (m.shows bytes).console.guarded = m.console.guarded := by
  induction bytes generalizing m with
  | nil => rfl
  | cons b rest ih =>
    exact (ih { m with console := m.console.write b }).trans (m.console.strike_request .write).1

variable {address w : Word} {m m₁ : Machine T}

/-- What is done with a cell of a string, once it has been read. -/
theorem run_showCell (h : (readCell address).run m = (.ok w, m₁)) :
    (showCell address).run m =
      if w = 0 then (.ok false, m₁) else (.ok true, m₁.shows [lowByte w]) := by
  rw [showCell, run_bind_of_ok h, showLow]
  split <;> rfl

/-- What is done with a cell of packed characters, once it has been read. -/
theorem run_showPackedCell (h : (readCell address).run m = (.ok w, m₁)) :
    (showPackedCell address).run m =
      if lowByte w = 0 then (.ok false, m₁)
      else if highByte w = 0 then (.ok false, m₁.shows [lowByte w])
      else (.ok true, m₁.shows [lowByte w, highByte w]) := by
  rw [showPackedCell, run_bind_of_ok h, showBoth]
  split
  · rfl
  · have hshow : (showByte (lowByte w)).run m₁ = (.ok (), m₁.shows [lowByte w]) := rfl
    rw [run_bind_of_ok hshow]
    split <;> rfl

/-! Of the machine, what is done with one cell is that it is read and that some bytes are shown. -/

theorem showCell_shows (address : Word) (m : Machine T) :
    ∃ bytes, ((showCell address).run m).2 = ((readCell address).run m).2.shows bytes := by
  rcases hread : (readCell address).run m with ⟨f | w, m₁⟩
  · rw [showCell, run_bind_of_error hread]
    exact ⟨[], rfl⟩
  · rw [run_showCell hread]
    split
    · exact ⟨[], rfl⟩
    · exact ⟨_, rfl⟩

theorem showPackedCell_shows (address : Word) (m : Machine T) :
    ∃ bytes, ((showPackedCell address).run m).2 = ((readCell address).run m).2.shows bytes := by
  rcases hread : (readCell address).run m with ⟨f | w, m₁⟩
  · rw [showPackedCell, run_bind_of_error hread]
    exact ⟨[], rfl⟩
  · rw [run_showPackedCell hread]
    split
    · exact ⟨[], rfl⟩
    · split <;> exact ⟨_, rfl⟩

/-- **A stretch of cells that a scan goes through** without more ado: it reads each of them and
shows what it has to show of it, and then goes on from the machine that this leaves. -/
theorem Walk.through {cell : Word → Action T Bool} (bytes : Word → List Byte) {count : Nat}
    {address : Word} {m m' : Machine T} {visited : List Word} {r : Except Failure Unit}
    (hcell : ∀ b ∈ cellsFrom address count, ∀ n : Machine T, n.memory = m.memory →
      (cell b).run n = (.ok true, n.shows (bytes b)))
    (rest : Walk cell (address + BitVec.ofNat 16 count)
      (m.shows ((cellsFrom address count).flatMap bytes)) visited r m') :
    Walk cell address m (cellsFrom address count ++ visited) r m' := by
  induction count generalizing address m with
  | zero => simpa [shows] using rest
  | succ count ih =>
    rw [cellsFrom_succ] at hcell rest ⊢
    have hnext : address + 1 + BitVec.ofNat 16 count = address + BitVec.ofNat 16 (count + 1) := by
      bv_omega
    refine .more (hcell address List.mem_cons_self m rfl) (ih ?_ ?_)
    · intro b hb n hn
      exact hcell b (List.mem_cons_of_mem _ hb) n hn
    · rw [hnext]
      rw [List.flatMap_cons] at rest
      simpa [shows] using rest

end Cells

/-! ### The log of a walk -/

section Log

variable [Terminal T]

theorem mild_showLow (w : Word) : Mild fun T _ => showLow (T := T) w :=
  .ite (fun _ => .done false) fun _ => .next (.single (.showByte (lowByte w)) trivial) fun _ =>
    .done true

theorem mild_showBoth (w : Word) : Mild fun T _ => showBoth (T := T) w := by
  refine .ite (fun _ => .done false) fun _ => ?_
  refine .next (.single (.showByte (lowByte w)) trivial) fun _ => ?_
  refine .ite (fun _ => .done false) fun _ => ?_
  exact .next (.single (.showByte (highByte w)) trivial) fun _ => .done true

/-- **An action on a cell that logs the cell**: beside a log it does what `cell` does, and makes one
entry, the cell. -/
def Logs (entered : Word → Action (Logged T) Bool) (cell : Word → Action T Bool) : Prop :=
  ∀ address m cells, (entered address).run (m.logged cells) =
    (((cell address).run m).1, ((cell address).run m).2.logged (cells ++ [address]))

/-- **To read a cell with a log** and then do something with the word logs the cell. -/
theorem logs_of_mild {showWord : ∀ (T : Type) [Terminal T], Word → Action T Bool}
    (hshow : ∀ w, Mild fun T _ => showWord T w) :
    Logs (T := T) (readLogged · >>= showWord (Logged T)) (readCell · >>= showWord T) := by
  intro address m cells
  rw [run_bind, run_bind, run_readLogged]
  rcases (readCell address).run m with ⟨f | w, m₁⟩
  · rfl
  · exact run_logged (hshow w) m₁ (cells ++ [address])

omit [Terminal T] in
/-- **A walk is what its log says**: a scan with room for the walk that logs each cell does the same
as the scan without a log, and has the cells of the walk in the log in the end. -/
theorem Walk.run_logged {entered : Word → Action (Logged T) Bool} {cell : Word → Action T Bool}
    (hlogs : Logs entered cell) {address : Word} {m m' : Machine T} {visited : List Word}
    {r : Except Failure Unit} (h : Walk cell address m visited r m') {bound : Nat}
    (hbound : visited.length ≤ bound) (cells : List Word) :
    (scan entered bound address).run (m.logged cells) = (r, m'.logged (cells ++ visited)) := by
  induction h generalizing bound cells with
  | @stop address m m' h =>
    obtain ⟨bound, rfl⟩ := Nat.exists_eq_add_of_le' hbound
    have hrun := hlogs address m cells
    rw [h] at hrun
    exact run_bind_of_ok hrun _
  | @fail address m m' f h =>
    obtain ⟨bound, rfl⟩ := Nat.exists_eq_add_of_le' hbound
    have hrun := hlogs address m cells
    rw [h] at hrun
    exact run_bind_of_error hrun _
  | @more address m m₁ m' visited r h _ ih =>
    rw [List.length_cons] at hbound
    obtain ⟨bound, rfl⟩ := Nat.exists_eq_add_of_le' (Nat.le_of_add_left_le hbound)
    have hrun := hlogs address m cells
    rw [h] at hrun
    rw [List.append_cons]
    exact (run_bind_of_ok hrun _).trans (ih (Nat.le_of_succ_le_succ hbound) (cells ++ [address]))

end Log

/-! ### Services that read out a string -/

/-- The machine after a service has passed on what it has shown, if it has come that far. -/
def passedOn [Terminal T] : Except Failure Unit → Machine T → Machine T
  | .ok (), m => { m with console := m.console.flush }
  | .error _, m => m

theorem passedOn_logged [Terminal T] (r : Except Failure Unit) (m : Machine T)
    (cells : List Word) : passedOn r (m.logged cells) = (passedOn r m).logged cells := by
  rcases r with f | _ <;> rfl

/-- **A call of a service that reads out a string**: from the cell to which `R0` points on, it reads
the cells `visited`, in this order, and does with each what `cell` does; if it does not fail by
that, it passes on what it has shown. It ends with the outcome `r` and the machine `m'`. If its
reads are logged where it makes them, it ends in the same way, and the log has the cells `visited`:
these are all the reads that it makes. -/
structure ReadsOut [Terminal T] (s : Service) (cell : Word → Action T Bool) (m : Machine T)
    (visited : List Word) (r : Except Failure Unit) (m' : Machine T) : Prop where
  walk : ∃ m₁, Walk cell (m.registers.read (.general 0)) (m.called s) visited r m₁ ∧
    m' = passedOn r m₁
  run : (effect (.trap s)).run m = (r, m')
  reads : (serveWith readLogged s).run ((m.called s).logged []) = (r, m'.logged visited)

section ReadsOut

variable [Terminal T] {m m₁ : Machine T} {visited : List Word} {r : Except Failure Unit}

omit [Terminal T] in
/-- A call leaves `R0` as it is. -/
theorem read_called (m : Machine T) (s : Service) :
    (m.called s).registers.read (.general 0) = m.registers.read (.general 0) := by
  rw [called, Registers.read_write, if_neg (by decide)]

/-- What was shown is passed on, unless the showing has failed. -/
theorem run_flush_after {a : Action T Unit} (h : a.run m = (r, m₁)) :
    (a >>= fun _ => flush).run m = (r, passedOn r m₁) := by
  rw [run_bind, h]
  rcases r with f | _ <;> rfl

/-- **A walk that the bound of the service leaves room for** is what a call of it reads out: let the
service be a scan, and then pass on what was shown, whether its reads are logged or not. -/
theorem Walk.readsOut {s : Service} {showWord : ∀ (T : Type) [Terminal T], Word → Action T Bool}
    {bound : Nat} (hshow : ∀ w, Mild fun T _ => showWord T w)
    (hserve : (serve s).run (m.called s) =
      (scan (readCell · >>= showWord T) bound (m.registers.read (.general 0)) >>=
        fun _ => flush).run (m.called s))
    (hlogged : (serveWith readLogged s).run ((m.called s).logged []) =
      (scan (readLogged · >>= showWord (Logged T)) bound (m.registers.read (.general 0)) >>=
        fun _ => flush).run ((m.called s).logged []))
    (h : Walk (readCell · >>= showWord T) (m.registers.read (.general 0)) (m.called s) visited r m₁)
    (hbound : visited.length ≤ bound) :
    ReadsOut s (readCell · >>= showWord T) m visited r (passedOn r m₁) := by
  refine ⟨⟨m₁, h, rfl⟩, ?_, ?_⟩
  · rw [run_effect_trap, hserve]
    exact run_flush_after (h.run_scan hbound)
  · rw [hlogged, ← passedOn_logged]
    exact run_flush_after (h.run_logged (logs_of_mild hshow) hbound [])

omit [Terminal T] in
/-- With a log a call leaves `R0` as it is, too. -/
theorem read_called_logged (m : Machine T) (s : Service) (cells : List Word) :
    ((m.called s).logged cells).registers.read (.general 0) = m.registers.read (.general 0) :=
  read_called m s

theorem Walk.readsOut_puts
    (h : Walk showCell (m.registers.read (.general 0)) (m.called .puts) visited r m₁)
    (hbound : visited.length ≤ size * (Terminal.keysLeft m.console.terminal + 1)) :
    ReadsOut .puts showCell m visited r (passedOn r m₁) := by
  refine Walk.readsOut mild_showLow ?_ ?_ h hbound
  · rw [run_serve_puts, read_called, showString_eq]
    rfl
  · rw [run_serveWith_puts, read_called_logged, showStringWith_eq]
    rfl

theorem Walk.readsOut_putsp
    (h : Walk showPackedCell (m.registers.read (.general 0)) (m.called .putsp) visited r m₁)
    (hbound : visited.length ≤ size) :
    ReadsOut .putsp showPackedCell m visited r (passedOn r m₁) := by
  refine Walk.readsOut mild_showBoth ?_ ?_ h hbound
  · rw [run_serve_putsp, read_called, showPacked_eq]
    rfl
  · rw [run_serveWith_putsp, read_called_logged, showPackedWith_eq]

end ReadsOut

end Machine

/-! ### On a script -/

theorem ScriptedTerminal.foldl_write (t : ScriptedTerminal) (bytes : List Byte) :
    bytes.foldl Terminal.write t = { t with shown := bytes.reverse ++ t.shown } := by
  induction bytes generalizing t with
  | nil => rfl
  | cons b rest ih =>
    rw [List.foldl_cons, ih, List.reverse_cons, List.append_assoc]
    rfl

namespace Machine

/-- On a script, what is shown is the output, and it takes no key. -/
theorem scripted_shows (m : Machine ScriptedTerminal) (bytes : List Byte) :
    (m.shows bytes).console.terminal.output = m.console.terminal.output ++ bytes ∧
      (m.shows bytes).keys = m.keys := by
  rw [keys, terminal_shows, ScriptedTerminal.foldl_write]
  refine ⟨?_, rfl⟩
  simp [ScriptedTerminal.output]

/-! ### Machines with a string -/

/-- A machine with a given memory that points to one of its cells. -/
def pointing {T : Type} (memory : Memory) (address : Word) (terminal : T) : Machine T :=
  { registers := Registers.cleared.write (.general 0) address, memory, console := { terminal } }

@[simp] theorem read_pointing {T : Type} (memory : Memory) (address : Word) (terminal : T) :
    (pointing memory address terminal).registers.read (.general 0) = address :=
  Registers.read_write_self Registers.cleared (.general 0) address

end Machine

end LittleComputer
