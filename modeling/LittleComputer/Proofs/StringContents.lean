import LittleComputer.Proofs.Strings

/-!
# What strings show

A string that lies clear of the keyboard status register is plain memory, so what is shown of it can
be read off the memory. The two services read memory differently.

For a string of one character a word, the unit is the word. It is the word that says whether the
string goes on, and its low byte that is shown; so a word with a zero low byte that is not zero
itself shows a zero byte and does not end the string (`LittleComputer.Machine.puts_shows_string`).

For packed characters, the unit is the byte: the cells are one stream of bytes, the low byte of each
cell before the high one (`LittleComputer.Memory.byteFrom`), and what comes before the first zero
byte is shown. There are two places at which a zero byte is looked for, and which of them finds it
depends on whether an even or an odd number of bytes comes before it; apart from that the stream
does not show where one cell ends and the next begins (`LittleComputer.Machine.walk_packed`).
So a byte string that is packed is shown as it was (`LittleComputer.Machine.putsp_undoes_packing`).
-/

namespace LittleComputer

/-! ### Strings in memory -/

namespace Memory

/-- The cells from an address upwards as one stream of bytes, the low byte of each cell before the
high one. -/
def byteFrom (memory : Memory) (address : Word) (i : Nat) : Byte :=
  if i % 2 = 0 then lowByte (memory.peek (address + BitVec.ofNat 16 (i / 2)))
  else highByte (memory.peek (address + BitVec.ofNat 16 (i / 2)))

/-- From an address upwards there are the bytes of a string, each in a cell of its own, and a zero
behind them. -/
def HoldsString (memory : Memory) : (address : Word) → List Byte → Prop
  | address, [] => memory.peek address = 0
  | address, b :: rest =>
    memory.peek address = wordOfByte b ∧ memory.HoldsString (address + 1) rest

/-- From an address upwards there are the bytes of a string, two in a cell, the first in the low
half. A last byte that has a cell for itself has zero in the high half of it; otherwise the low half
of the cell behind the string is zero. -/
def HoldsPacked (memory : Memory) : (address : Word) → List Byte → Prop
  | address, [] => lowByte (memory.peek address) = 0
  | address, [b] => memory.peek address = joinBytes 0 b
  | address, b :: c :: rest =>
    memory.peek address = joinBytes c b ∧ memory.HoldsPacked (address + 1) rest

variable (memory : Memory)

theorem byteFrom_even (address : Word) (i : Nat) :
    memory.byteFrom address (2 * i) = lowByte (memory.peek (address + BitVec.ofNat 16 i)) := by
  rw [byteFrom, if_pos (Nat.mul_mod_right 2 i), Nat.mul_div_cancel_left i Nat.two_pos]

theorem byteFrom_odd (address : Word) (i : Nat) :
    memory.byteFrom address (2 * i + 1) = highByte (memory.peek (address + BitVec.ofNat 16 i)) := by
  have hmod : (2 * i + 1) % 2 ≠ 0 := by omega
  have hdiv : (2 * i + 1) / 2 = i := by omega
  rw [byteFrom, if_neg hmod, hdiv]

theorem byteFrom_zero (address : Word) :
    memory.byteFrom address 0 = lowByte (memory.peek address) := by
  simpa using memory.byteFrom_even address 0

theorem byteFrom_one (address : Word) :
    memory.byteFrom address 1 = highByte (memory.peek address) := by
  simpa using memory.byteFrom_odd address 0

/-- The stream from the next cell on is two bytes behind. -/
theorem byteFrom_succ (address : Word) (i : Nat) :
    memory.byteFrom (address + 1) i = memory.byteFrom address (i + 2) := by
  have hdiv : (i + 2) / 2 = i / 2 + 1 := by omega
  have haddress : address + 1 + BitVec.ofNat 16 (i / 2) =
      address + BitVec.ofNat 16 (i / 2 + 1) := by
    bv_omega
  rw [byteFrom, byteFrom, Nat.add_mod_right, hdiv, haddress]

variable {memory}

/-- **Packed bytes are the stream**, up to a zero. -/
theorem HoldsPacked.byteFrom {address : Word} {s : List Byte} (h : memory.HoldsPacked address s) :
    (List.range s.length).map (memory.byteFrom address) = s ∧
      memory.byteFrom address s.length = 0 := by
  -- Two bytes are taken off at a time, with the cell that they are in.
  induction address, s using HoldsPacked.induct with
  | case1 address => exact ⟨rfl, (memory.byteFrom_zero address).trans h⟩
  | case2 address b =>
    have hlow : memory.byteFrom address 0 = b := by
      rw [byteFrom_zero, h, lowByte_joinBytes]
    have hhigh : memory.byteFrom address 1 = 0 := by
      rw [byteFrom_one, h, highByte_joinBytes]
    exact ⟨congrArg ([·]) hlow, hhigh⟩
  | case3 address b c rest ih =>
    obtain ⟨hcell, hrest⟩ := h
    obtain ⟨hbytes, hend⟩ := ih hrest
    have hlow : memory.byteFrom address 0 = b := by
      rw [byteFrom_zero, hcell, lowByte_joinBytes]
    have hhigh : memory.byteFrom address 1 = c := by
      rw [byteFrom_one, hcell, highByte_joinBytes]
    rw [byteFrom_succ] at hend
    have hnext : memory.byteFrom (address + 1) = fun i => memory.byteFrom address (i + 2) :=
      funext (memory.byteFrom_succ address)
    rw [hnext] at hbytes
    refine ⟨?_, hend⟩
    rw [List.length_cons, List.length_cons, List.range_succ_eq_map, List.range_succ_eq_map,
      List.map_cons, List.map_cons, List.map_cons, List.map_map, List.map_map, hlow]
    exact congrArg₂ (fun x xs => b :: x :: xs) hhigh hbytes

/-- The bytes of a string are the low bytes of its cells, none of which is zero if none of them
is. -/
theorem HoldsString.cells {address : Word} {s : List Byte} (h : memory.HoldsString address s) :
    (Machine.cellsFrom address s.length).map memory.peek = s.map wordOfByte ∧
      memory.peek (address + BitVec.ofNat 16 s.length) = 0 := by
  induction s generalizing address with
  | nil =>
    refine ⟨rfl, ?_⟩
    rw [List.length_nil, BitVec.ofNat_eq_ofNat, BitVec.add_zero]
    exact h
  | cons b rest ih =>
    obtain ⟨hcell, hrest⟩ := h
    obtain ⟨hcells, hend⟩ := ih hrest
    have hnext : address + BitVec.ofNat 16 (rest.length + 1) =
        address + 1 + BitVec.ofNat 16 rest.length := by
      bv_omega
    rw [List.length_cons, Machine.cellsFrom_succ, List.map_cons, List.map_cons, hcells, hcell,
      hnext]
    exact ⟨rfl, hend⟩

end Memory

namespace Machine

open Memory

variable {T : Type} [Terminal T]

/-! ### Calls that only show something -/

/-- **A call that shows bytes and changes nothing else**, apart from the link in `R7`. All that is
done to the terminal is that the bytes are shown, one after the other, and then passed on; in
particular it is not asked for a key. -/
structure OnlyShows (bytes : List Byte) (m m' : Machine T) : Prop where
  memory : m'.memory = m.memory
  registers : ∀ s, s ≠ .general 7 → m'.registers.read s = m.registers.read s
  terminal : m'.console.terminal =
    (Terminal.flush (bytes.foldl Terminal.write m.console.terminal)).1
  halted : m'.halted = m.halted
  cycles : m'.cycles = m.cycles

theorem onlyShows_called (m : Machine T) (s : Service) (bytes : List Byte) :
    OnlyShows bytes m (passedOn (.ok ()) ((m.called s).shows bytes)) where
  memory := rfl
  registers := fun r hr => by
    change (m.registers.write (.general 7) m.registers.pc).read r = m.registers.read r
    rw [Registers.read_write, if_neg (Ne.symm hr)]
  terminal := congrArg (fun t => (Terminal.flush t).1) ((m.called s).terminal_shows bytes)
  halted := rfl
  cycles := rfl

/-- On a script the bytes are at the end of the output afterwards, and no key is missing. -/
theorem OnlyShows.scripted {m m' : Machine ScriptedTerminal} {bytes : List Byte}
    (h : OnlyShows bytes m m') :
    m'.console.terminal.output = m.console.terminal.output ++ bytes ∧ m'.keys = m.keys := by
  obtain ⟨houtput, hkeys⟩ := scripted_shows m bytes
  rw [keys, terminal_shows] at hkeys
  rw [terminal_shows] at houtput
  rw [keys, h.terminal]
  exact ⟨houtput, hkeys⟩

theorem shows_append (m : Machine T) (bytes bytes' : List Byte) :
    m.shows (bytes ++ bytes') = (m.shows bytes).shows bytes' := by
  rw [shows, List.foldl_append]
  rfl

/-- Cells among which the status register is not are not as many as there are cells. -/
theorem length_le_of_clear {address : Word} {count : Nat}
    (h : ∀ b ∈ cellsFrom address count, b ≠ keyboardStatus) : count ≤ size :=
  Nat.le_trans (le_distance h) (Nat.le_of_lt (distance_lt address))

/-! ### One character a word -/

/-- **A string of one character a word** shows the low bytes of its cells and ends at the first cell
that is zero. -/
theorem walk_string {m : Machine T} {address : Word} {count : Nat}
    (hstring : ∀ b ∈ cellsFrom address count, m.memory.peek b ≠ 0)
    (hend : m.memory.peek (address + BitVec.ofNat 16 count) = 0)
    (hclear : ∀ b ∈ cellsFrom address (count + 1), b ≠ keyboardStatus) :
    Walk showCell address m (cellsFrom address (count + 1)) (.ok ())
      (m.shows ((cellsFrom address count).map fun b => lowByte (m.memory.peek b))) := by
  rw [cellsFrom_succ', List.forall_mem_append, List.forall_mem_singleton] at hclear
  rw [cellsFrom_succ', List.map_eq_flatMap]
  refine Walk.through (fun b => [lowByte (m.memory.peek b)]) (fun b hb n hn => ?_) (.stop ?_)
  · rw [run_showCell (run_readCell_of_ne (hclear.1 b hb) n), hn, if_neg (hstring b hb)]
  · rw [run_showCell (run_readCell_of_ne hclear.2 _), memory_shows, hend, if_pos rfl]

/-- A call that shows a string of one character a word reads the cells up to the first that is zero,
shows the low byte of each cell before that one, and changes nothing else. -/
theorem puts_shows_cells {m : Machine T} {address : Word} {count : Nat}
    (haddress : m.registers.read (.general 0) = address)
    (hstring : ∀ b ∈ cellsFrom address count, m.memory.peek b ≠ 0)
    (hend : m.memory.peek (address + BitVec.ofNat 16 count) = 0)
    (hclear : ∀ b ∈ cellsFrom address (count + 1), b ≠ keyboardStatus) :
    ∃ m', ReadsOut .puts showCell m (cellsFrom address (count + 1)) (.ok ()) m' ∧
      OnlyShows ((cellsFrom address count).map fun b => lowByte (m.memory.peek b)) m m' := by
  subst haddress
  have hwalk := walk_string (m := m.called .puts) hstring hend hclear
  refine ⟨_, hwalk.readsOut_puts ?_, onlyShows_called m .puts _⟩
  rw [length_cellsFrom]
  exact Nat.le_trans (length_le_of_clear hclear) (Nat.le_mul_of_pos_right size (Nat.succ_pos _))

/-- **Exactly the string is shown.** Let the cells from the one to which `R0` points on hold a
string: `count` cells that are not zero, and the first that is zero behind them; and let none of
these cells be the keyboard status register. Addresses wrap. Then a call of the service reads these
cells and no other, each once and in order, shows the low byte of each but the last, whatever its
high byte, and changes nothing else: neither memory nor a register except for the link, nor is a key
asked for. -/
theorem puts_shows_string (m : Machine T) (address : Word) (count : Nat)
    (haddress : m.registers.read (.general 0) = address)
    (hstring : ∀ i < count, m.memory.peek (address + BitVec.ofNat 16 i) ≠ 0)
    (hend : m.memory.peek (address + BitVec.ofNat 16 count) = 0)
    (hclear : ∀ i ≤ count, address + BitVec.ofNat 16 i ≠ keyboardStatus) :
    ∃ m', ReadsOut .puts showCell m (cellsFrom address (count + 1)) (.ok ()) m' ∧
      OnlyShows ((List.range count).map fun i =>
        lowByte (m.memory.peek (address + BitVec.ofNat 16 i))) m m' := by
  have hcells : ∀ b ∈ cellsFrom address count, m.memory.peek b ≠ 0 := by
    intro b hb
    obtain ⟨i, hi, rfl⟩ := mem_cellsFrom.mp hb
    exact hstring i hi
  have hall : ∀ b ∈ cellsFrom address (count + 1), b ≠ keyboardStatus := by
    intro b hb
    obtain ⟨i, hi, rfl⟩ := mem_cellsFrom.mp hb
    exact hclear i (Nat.le_of_lt_succ hi)
  obtain ⟨m', hreads, hshows⟩ := puts_shows_cells haddress hcells hend hall
  rw [cellsFrom, List.map_map] at hshows
  exact ⟨m', hreads, hshows⟩

/-- A string that goes on from the last cell to the first. Of its second character only the high
byte is not zero. -/
def wrappingString : Machine ScriptedTerminal :=
  pointing ((Memory.cleared.write 0xFFFF 0x0148).write 0x0000 0x4100) 0xFFFF { keys := [0x2A] }

/-- Such a character is shown as a zero byte, and the string goes on behind it. Both bytes are in
the output in the end, and the key is still to come. -/
theorem shows_of_wrappingString :
    ∃ m', ReadsOut .puts showCell wrappingString [0xFFFF, 0x0000, 0x0001] (.ok ()) m' ∧
      OnlyShows [0x48, 0x00] wrappingString m' ∧
      m'.console.terminal.output = [0x48, 0x00] ∧ m'.keys = [0x2A] := by
  obtain ⟨m', hreads, hshows⟩ :=
    puts_shows_string wrappingString 0xFFFF 2 (by decide) (by decide) (by decide) (by decide)
  obtain ⟨houtput, hkeys⟩ := hshows.scripted
  exact ⟨m', hreads, hshows, houtput, hkeys⟩

/-! ### Packed characters -/

/-- The bytes of some cells are a stretch of the stream. -/
theorem flatMap_cellsFrom (memory : Memory) (address : Word) (count : Nat) :
    ((cellsFrom address count).flatMap fun b =>
      [lowByte (memory.peek b), highByte (memory.peek b)]) =
      (List.range (2 * count)).map (memory.byteFrom address) := by
  induction count with
  | zero => rfl
  | succ count ih =>
    rw [cellsFrom_succ', List.flatMap_append, ih, Nat.mul_succ, List.range_succ, List.range_succ,
      List.map_append, List.map_append, List.append_assoc]
    simp [byteFrom_even, byteFrom_odd]

/-- **Packed characters** show the bytes of the stream before the first zero byte, and end in the
cell that has it. -/
theorem walk_packed {m : Machine T} {address : Word} {count : Nat}
    (hstring : ∀ i < count, m.memory.byteFrom address i ≠ 0)
    (hend : m.memory.byteFrom address count = 0)
    (hclear : ∀ b ∈ cellsFrom address (count / 2 + 1), b ≠ keyboardStatus) :
    Walk showPackedCell address m (cellsFrom address (count / 2 + 1)) (.ok ())
      (m.shows ((List.range count).map (m.memory.byteFrom address))) := by
  obtain ⟨cells, hcells⟩ : ∃ cells, cells = count / 2 := ⟨_, rfl⟩
  rw [← hcells] at hclear ⊢
  rw [cellsFrom_succ', List.forall_mem_append, List.forall_mem_singleton] at hclear
  rw [cellsFrom_succ']
  -- Each cell but the last holds two bytes that are not zero.
  have hcell : ∀ b ∈ cellsFrom address cells, ∀ n : Machine T, n.memory = m.memory →
      (showPackedCell b).run n =
        (.ok true, n.shows [lowByte (m.memory.peek b), highByte (m.memory.peek b)]) := by
    intro b hb n hn
    obtain ⟨i, hi, heq⟩ := mem_cellsFrom.mp hb
    have hlow : lowByte (m.memory.peek b) ≠ 0 := by
      rw [heq, ← byteFrom_even]
      exact hstring _ (by omega)
    have hhigh : highByte (m.memory.peek b) ≠ 0 := by
      rw [heq, ← byteFrom_odd]
      exact hstring _ (by omega)
    rw [run_showPackedCell (run_readCell_of_ne (hclear.1 b hb) n), hn, if_neg hlow, if_neg hhigh]
  refine Walk.through _ hcell (.stop ?_)
  rw [run_showPackedCell (run_readCell_of_ne hclear.2 _), memory_shows, flatMap_cellsFrom]
  -- The zero is in the low half of the last cell or in the high half.
  rcases Nat.mod_two_eq_zero_or_one count with heven | hodd
  · obtain rfl : count = 2 * cells := by omega
    rw [byteFrom_even] at hend
    rw [if_pos hend]
  · obtain rfl : count = 2 * cells + 1 := by omega
    have hlow := hstring (2 * cells) (Nat.lt_succ_self _)
    rw [byteFrom_even] at hlow
    rw [byteFrom_odd] at hend
    rw [if_neg hlow, if_pos hend, List.range_succ, List.map_append, shows_append,
      List.map_singleton, byteFrom_even]

/-- **A call that shows packed characters** shows the bytes of the stream before the first zero
byte, reads no cell behind the one that has it, and changes nothing else. -/
theorem putsp_shows_stream {m : Machine T} {address : Word} {count : Nat}
    (haddress : m.registers.read (.general 0) = address)
    (hstring : ∀ i < count, m.memory.byteFrom address i ≠ 0)
    (hend : m.memory.byteFrom address count = 0)
    (hclear : ∀ b ∈ cellsFrom address (count / 2 + 1), b ≠ keyboardStatus) :
    ∃ m', ReadsOut .putsp showPackedCell m (cellsFrom address (count / 2 + 1)) (.ok ()) m' ∧
      OnlyShows ((List.range count).map (m.memory.byteFrom address)) m m' := by
  subst haddress
  have hwalk := walk_packed (m := m.called .putsp) hstring hend hclear
  refine ⟨_, hwalk.readsOut_putsp ?_, onlyShows_called m .putsp _⟩
  rw [length_cellsFrom]
  exact length_le_of_clear hclear

/-! ### Byte strings -/

variable {s : List Byte} {m : Machine T} {address : Word}

/-- **A byte string that is packed** is shown. -/
theorem putsp_shows_packed (hs : (0 : Byte) ∉ s)
    (haddress : m.registers.read (.general 0) = address) (h : m.memory.HoldsPacked address s)
    (hclear : ∀ b ∈ cellsFrom address (s.length / 2 + 1), b ≠ keyboardStatus) :
    ∃ m', ReadsOut .putsp showPackedCell m (cellsFrom address (s.length / 2 + 1)) (.ok ()) m' ∧
      OnlyShows s m m' := by
  obtain ⟨hbytes, hend⟩ := h.byteFrom
  have hstring : ∀ i < s.length, m.memory.byteFrom address i ≠ 0 := by
    intro i hi hzero
    refine hs ?_
    rw [← hbytes, ← hzero]
    exact List.mem_map_of_mem (List.mem_range.mpr hi)
  have hshows := putsp_shows_stream haddress hstring hend hclear
  rwa [hbytes] at hshows

/-- **A byte string with a cell for each byte** is shown. -/
theorem puts_shows_bytes (hs : (0 : Byte) ∉ s)
    (haddress : m.registers.read (.general 0) = address) (h : m.memory.HoldsString address s)
    (hclear : ∀ b ∈ cellsFrom address (s.length + 1), b ≠ keyboardStatus) :
    ∃ m', ReadsOut .puts showCell m (cellsFrom address (s.length + 1)) (.ok ()) m' ∧
      OnlyShows s m m' := by
  obtain ⟨hcells, hend⟩ := h.cells
  have hstring : ∀ b ∈ cellsFrom address s.length, m.memory.peek b ≠ 0 := by
    intro b hb
    have hmem : m.memory.peek b ∈ s.map wordOfByte := hcells ▸ List.mem_map_of_mem hb
    obtain ⟨c, hc, heq⟩ := List.mem_map.mp hmem
    rw [← heq]
    refine wordOfByte_ne_zero ?_
    rintro rfl
    exact hs hc
  have hbytes : ((cellsFrom address s.length).map fun b => lowByte (m.memory.peek b)) = s := by
    have hlow := congrArg (List.map lowByte) hcells
    rw [List.map_map, List.map_map] at hlow
    refine hlow.trans ?_
    simp [Function.comp_def]
  have hshows := puts_shows_cells haddress hstring hend hclear
  rwa [hbytes] at hshows

/-- **To show packed characters undoes the packing.** Read the cells from the one to which `R0`
points on as one stream of bytes, the low byte of each cell before the high one; addresses wrap.

* If a zero byte comes in the stream before the keyboard status register does, a call of the service
  shows exactly the bytes before the first one. It reads the cells up to the one that has it, each
  once and in order, and no other, and changes nothing.
* So a byte string without a zero is shown as it is, be its length even or odd, when it is packed
  two bytes in a cell; and just the same is shown of it by the other service when it has a cell for
  each byte. -/
theorem putsp_undoes_packing (T : Type) [Terminal T] :
    (∀ (m : Machine T) (address : Word) (count : Nat),
      m.registers.read (.general 0) = address →
      (∀ i < count, m.memory.byteFrom address i ≠ 0) → m.memory.byteFrom address count = 0 →
      (∀ b ∈ cellsFrom address (count / 2 + 1), b ≠ keyboardStatus) →
      ∃ m', ReadsOut .putsp showPackedCell m (cellsFrom address (count / 2 + 1)) (.ok ()) m' ∧
        OnlyShows ((List.range count).map (m.memory.byteFrom address)) m m') ∧
    ∀ s : List Byte, 0 ∉ s →
      (∀ (m : Machine T) (address : Word), m.registers.read (.general 0) = address →
        m.memory.HoldsPacked address s →
        (∀ b ∈ cellsFrom address (s.length / 2 + 1), b ≠ keyboardStatus) →
        ∃ m', ReadsOut .putsp showPackedCell m (cellsFrom address (s.length / 2 + 1)) (.ok ()) m' ∧
          OnlyShows s m m') ∧
      ∀ (m : Machine T) (address : Word), m.registers.read (.general 0) = address →
        m.memory.HoldsString address s →
        (∀ b ∈ cellsFrom address (s.length + 1), b ≠ keyboardStatus) →
        ∃ m', ReadsOut .puts showCell m (cellsFrom address (s.length + 1)) (.ok ()) m' ∧
          OnlyShows s m m' := by
  refine ⟨fun m address count => putsp_shows_stream, fun s hs => ⟨fun m address => ?_,
    fun m address => ?_⟩⟩
  · exact putsp_shows_packed hs
  · exact puts_shows_bytes hs

/-- Three bytes, packed into the last cell and the first. -/
def packedString : Machine ScriptedTerminal :=
  pointing ((Memory.cleared.write 0xFFFF 0x6948).write 0x0000 0x0021) 0xFFFF { keys := [0x2A] }

/-- They are shown as they are, and are the output in the end. -/
theorem shows_of_packedString :
    ∃ m', ReadsOut .putsp showPackedCell packedString [0xFFFF, 0x0000] (.ok ()) m' ∧
      OnlyShows [0x48, 0x69, 0x21] packedString m' ∧
      m'.console.terminal.output = [0x48, 0x69, 0x21] ∧ m'.keys = [0x2A] := by
  have hclear : ∀ b ∈ cellsFrom 0xFFFF 2, b ≠ keyboardStatus := by
    simp [cellsFrom, List.range_succ, keyboardStatus]
  obtain ⟨m', hreads, hshows⟩ :=
    ((putsp_undoes_packing ScriptedTerminal).2 [0x48, 0x69, 0x21] (by decide)).1 packedString
      0xFFFF (by decide) ⟨by decide, (by decide : packedString.memory.peek 0x0000 = 0x0021)⟩ hclear
  obtain ⟨houtput, hkeys⟩ := hshows.scripted
  exact ⟨m', hreads, hshows, houtput, hkeys⟩

end Machine

end LittleComputer
