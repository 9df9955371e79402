import LittleComputer.Proofs.InterruptTiming
import LittleComputer.Proofs.LimitedRun
import LittleComputer.Proofs.Strings

/-!
# How far strings are read

What ends the showing of a string at the latest is the keyboard status register. The word that is
read there is zero or has its top bit set alone. For packed characters that is enough: its low byte
is zero in both cases, so they never get past it, on any terminal
(`LittleComputer.Machine.Walk.packed_bounds`). A string of one character a word gets past it for a
key, and then has a whole round before it; so the keys that are left bound the rounds
(`LittleComputer.Machine.Walk.string_bounds`). That the key may turn up in the string, because it
is put into the data register, makes no difference to either.

The bytes that are shown and the keys that are taken are counted by the terminal: it is a
`LittleComputer.Tally` of another one, which may be any. A memory without a zero shows that the
bounds are reached (`LittleComputer.Machine.putsp_reaches_bound`,
`LittleComputer.Machine.puts_reaches_bound`).

The main statement is `LittleComputer.Machine.strings_end_within_bounds`.
-/

namespace LittleComputer

open Memory

/-! ### Counting what is shown and taken -/

section Counting

variable {T : Type} [Terminal T] {sound : T → Prop} {upcoming : T → Option (Except HostFault Byte)}

/-- Bytes that are shown are counted, and nothing else is. -/
theorem Tally.foldl_write (t : Tally T) (bytes : List Byte) :
    bytes.foldl Terminal.write t =
      { terminal := bytes.foldl Terminal.write t.terminal
        count := fun k => if k = .write then t.count k + bytes.length else t.count k } := by
  induction bytes generalizing t with
  | nil =>
    refine congrArg (Tally.mk t.terminal) (funext fun k => ?_)
    split <;> rfl
  | cons b rest ih =>
    rw [List.foldl_cons, ih]
    refine congrArg (Tally.mk _) (funext fun k => ?_)
    rw [List.length_cons]
    split
    · rename_i hk
      have hwritten : (Terminal.write t b).count k = t.count k + 1 := if_pos hk
      rw [hwritten, Nat.add_assoc, Nat.add_comm 1]
    · exact if_neg ‹_›

/-- **What can be relied on in a terminal can be relied on if its calls are counted.** -/
theorem Dependable.tally (hT : Dependable T sound upcoming) :
    Dependable (Tally T) (fun t => sound t.terminal) (fun t => upcoming t.terminal) where
  poll := by
    intro t h
    rcases hT.poll h with ⟨u, hp, hu⟩ | ⟨u, key, v, hp, hr, hv, hkeys⟩
    · refine Or.inl ⟨t.after .poll u, ?_, hu⟩
      exact congrArg (fun r => (r.1, t.after .poll r.2)) hp
    · refine Or.inr ⟨t.after .poll u, key, (t.after .poll u).after .read v, ?_, ?_, hv, hkeys⟩
      · exact congrArg (fun r => (r.1, t.after .poll r.2)) hp
      · exact congrArg (fun r => (r.1, (t.after .poll u).after .read r.2.1, r.2.2)) hr
  read := fun h => hT.read h
  write := fun b h => hT.write b h
  flush := fun h => hT.flush h

namespace Machine

/-- The number of calls of a kind that were made of the terminal. -/
def calls (m : Machine (Tally T)) (call : Call) : Nat := m.console.terminal.count call

variable {m m' m₁ : Machine (Tally T)} {address w : Word} {visited : List Word}
  {r : Except Failure Unit}

theorem calls_shows (m : Machine (Tally T)) (bytes : List Byte) :
    (m.shows bytes).calls .write = m.calls .write + bytes.length ∧
      (m.shows bytes).calls .read = m.calls .read := by
  simp only [calls, terminal_shows, Tally.foldl_write]
  exact ⟨rfl, rfl⟩

theorem calls_passedOn (r : Except Failure Unit) (m : Machine (Tally T)) (call : Call) :
    (passedOn r m).calls call = m.calls call := by
  rcases r with f | _ <;> rfl

/-! What a read of a cell counts for. -/

theorem calls_poll (m : Machine (Tally T)) :
    (poll.run m).2.calls .write = m.calls .write ∧
      (poll.run m).2.calls .read = m.calls .read := by
  rw [run_poll]
  exact ⟨rfl, rfl⟩

theorem calls_readKey (m : Machine (Tally T)) :
    (readKey.run m).2.calls .write = m.calls .write := by
  change m.console.read.2.terminal.count .write = m.console.terminal.count .write
  rcases m.console.read_cases with ⟨u, ns, hw, hr⟩ | hr
  · obtain ⟨_, -, heq⟩ := Option.map_eq_some_iff.mp hw
    cases heq
    rw [hr]
    rfl
  · rw [hr]
    rfl

/-- **A read of a cell shows nothing.** -/
theorem keeps_writes_readCell (address : Word) :
    Keeps (fun m : Machine (Tally T) => m.calls .write) (readCell address) :=
  Keeps.readCell (fun m => (calls_poll m).1) (fun m => calls_readKey m) (fun _ _ _ _ => rfl) address

theorem calls_write_readCell {a : Except Failure Word} (h : (readCell address).run m = (a, m₁)) :
    m₁.calls .write = m.calls .write := by
  have hkeeps := keeps_writes_readCell address m
  rw [h] at hkeeps
  exact hkeeps

/-! ### Packed characters -/

/-- **A cell of packed characters** shows two bytes at most, and at the status register none, and
does not go on there. -/
theorem calls_showPackedCell {goesOn : Except Failure Bool}
    (h : (showPackedCell address).run m = (goesOn, m')) :
    m'.calls .write ≤ m.calls .write + 2 ∧
      (address = keyboardStatus → goesOn ≠ .ok true ∧ m'.calls .write = m.calls .write) := by
  rcases hread : (readCell address).run m with ⟨f | w, m₁⟩
  · rw [showPackedCell, run_bind_of_error hread] at h
    cases h
    have hsame := calls_write_readCell hread
    exact ⟨Nat.le_add_right_of_le (Nat.le_of_eq hsame), fun _ => ⟨by rintro ⟨⟩, hsame⟩⟩
  · have hsame := calls_write_readCell hread
    rw [run_showPackedCell hread] at h
    refine ⟨?_, ?_⟩
    · split at h
      · cases h
        exact Nat.le_add_right_of_le (Nat.le_of_eq hsame)
      · rw [← hsame]
        split at h <;> cases h <;> rw [(calls_shows m₁ _).1]
        · exact Nat.add_le_add_left (Nat.le_succ 1) _
        · exact Nat.le_refl _
    · rintro rfl
      -- The register is zero or has its top bit set alone.
      have hlow : lowByte w = 0 := by
        rcases status_of_readCell hread with rfl | rfl <;> decide
      rw [if_pos hlow] at h
      cases h
      exact ⟨by rintro ⟨⟩, hsame⟩

/-- Packed characters end at the status register at the latest, on every terminal. -/
theorem Walk.length_le_distance {T : Type} [Terminal T] {address : Word} {m m' : Machine T}
    {visited : List Word} {r : Except Failure Unit}
    (h : Walk showPackedCell address m visited r m') :
    visited.length ≤ distance address + 1 := by
  obtain ⟨left, hleft, hcell⟩ := exists_left_packed T
  have hlength := h.length_le (fun _ => True) left
    (fun address m m' _ hrun => ⟨trivial, hcell address m m' hrun⟩) trivial
  have hnone : size * left m = 0 := by rw [hleft, Nat.mul_zero]
  omega

/-- They take one round through memory at most. -/
theorem Walk.length_le_size {T : Type} [Terminal T] {address : Word} {m m' : Machine T}
    {visited : List Word} {r : Except Failure Unit}
    (h : Walk showPackedCell address m visited r m') : visited.length ≤ size :=
  Nat.le_trans h.length_le_distance (distance_lt address)

/-- **Packed characters end at the status register** at the latest, and what is shown is shown
before it. -/
theorem Walk.packed_bounds (h : Walk showPackedCell address m visited r m') :
    visited.length ≤ distance address + 1 ∧
      m'.calls .write ≤ m.calls .write + 2 * distance address := by
  refine ⟨h.length_le_distance, ?_⟩
  -- Away from the status register the distance to it pays for the two bytes.
  have hlast : ∀ {address : Word} {m m' : Machine (Tally T)} {goesOn : Except Failure Bool},
      (showPackedCell address).run m = (goesOn, m') →
        m'.calls .write ≤ m.calls .write + 2 * distance address := by
    intro address m m' goesOn hrun
    obtain ⟨hwrites, hstatus⟩ := calls_showPackedCell hrun
    by_cases ha : address = keyboardStatus
    · rw [(hstatus ha).2]
      exact Nat.le_add_right _ _
    · have hdistance := distance_succ ha
      omega
  induction h with
  | stop hrun => exact hlast hrun
  | fail hrun => exact hlast hrun
  | more hrun _ ih =>
    obtain ⟨hwrites, -⟩ := calls_showPackedCell hrun
    have hpassed := distance_succ (ne_status_of_showPackedCell hrun)
    omega

/-! ### Characters of one word each -/

/-- **A key that is there is taken**, and counted, unless the wait for it is abandoned. -/
theorem readKey_of_key {key : Byte} {v : Tally T} {notices : List Notice}
    (hr : Terminal.read m.console.terminal = (.ok key, v, notices)) :
    ∃ m₁, readKey.run m = (.error (.wait .cutShort), m₁) ∧ m₁.calls .read = m.calls .read ∨
      readKey.run m = (.ok key, m₁) ∧ m₁.memory = m.memory ∧ m₁.console.terminal = v ∧
        m₁.calls .read = m.calls .read + 1 := by
  have hrun : readKey.run m = (m.console.read.1, { m with console := m.console.read.2 }) := rfl
  refine ⟨{ m with console := m.console.read.2 }, ?_⟩
  rw [hrun]
  rcases m.console.read_cases with ⟨u, ns, hw, hread⟩ | hread
  · obtain ⟨_, -, heq⟩ := Option.map_eq_some_iff.mp hw
    cases heq
    rw [hread]
    exact Or.inl ⟨rfl, rfl⟩
  · have hcount := congrArg (fun r => r.2.1.count .read) hr
    rw [hread, hr]
    exact Or.inr ⟨rfl, rfl, rfl, hcount.symm⟩

/-- **How a read of the status register ends**: no key is there; or one is, and the wait for it is
abandoned; or it is taken. -/
theorem readCell_status_cases (hT : Dependable T sound upcoming)
    (hs : sound m.console.terminal.terminal) :
    ∃ m₁, (readCell keyboardStatus).run m = (.ok 0, m₁) ∧ sound m₁.console.terminal.terminal ∧
        m₁.calls .read = m.calls .read ∨
      (readCell keyboardStatus).run m = (.error (.wait .cutShort), m₁) ∧
        m₁.calls .read = m.calls .read ∨
      (readCell keyboardStatus).run m = (.ok keyReady, m₁) ∧
        sound m₁.console.terminal.terminal ∧
        Terminal.keysLeft m₁.console.terminal < Terminal.keysLeft m.console.terminal ∧
        m₁.calls .read = m.calls .read + 1 := by
  have hpoll := run_poll m
  have hunread := (calls_poll m).2
  rw [hpoll] at hunread
  rcases hT.tally.poll hs with ⟨u, hp, hu⟩ | ⟨u, key, v, hp, hr, hv, hkeys⟩ <;>
    rw [hp] at hpoll hunread
  · have hnone := run_readCell_status_of_ok (run_latchKey_of_none hpoll)
    rw [peek_write_self] at hnone
    exact ⟨_, Or.inl ⟨hnone, hu, hunread⟩⟩
  · let ready : Machine (Tally T) := { m with
      memory := m.memory.write keyboardStatus keyReady
      console := { (m.console.strike .poll).2 with terminal := u } }
    have hready : ready.calls .read = m.calls .read := hunread
    obtain ⟨m₂, ⟨hread, hcount⟩ | ⟨hread, hmemory, rfl, hcount⟩⟩ := readKey_of_key (m := ready) hr
    · exact ⟨m₂, Or.inr (Or.inl ⟨run_readCell_status_of_error (run_latchKey_of_error hpoll hread),
        hcount.trans hready⟩)⟩
    · have hsome := run_readCell_status_of_ok (run_latchKey_of_key hpoll hread)
      have hstatus : m₂.memory.peek keyboardStatus = keyReady := by
        rw [hmemory]
        exact peek_write_self _ _ _
      rw [peek_write, if_neg (by decide), hstatus] at hsome
      exact ⟨_, Or.inr (Or.inr ⟨hsome, hv, hkeys, hcount.trans (congrArg (· + 1) hready)⟩)⟩

/-- **What a read of a cell takes**: no key, or one of the status register, and then the word read
says so. -/
theorem takes_readCell (hT : Dependable T sound upcoming) (hs : sound m.console.terminal.terminal)
    {a : Except Failure Word} (h : (readCell address).run m = (a, m₁)) :
    match a with
    | .error _ => m₁.calls .read = m.calls .read
    | .ok w => sound m₁.console.terminal.terminal ∧
      (w = 0 → m₁.calls .read = m.calls .read) ∧
      (w ≠ 0 → Terminal.keysLeft m₁.console.terminal +
          (if address = keyboardStatus then 1 else 0) ≤ Terminal.keysLeft m.console.terminal ∧
        m₁.calls .read + Terminal.keysLeft m₁.console.terminal ≤
          m.calls .read + Terminal.keysLeft m.console.terminal) := by
  by_cases ha : address = keyboardStatus
  · subst ha
    rw [if_pos rfl]
    obtain ⟨m', ⟨hrun, hsound, hcount⟩ | ⟨hrun, hcount⟩ | ⟨hrun, hsound, hkeys, hcount⟩⟩ :=
      readCell_status_cases hT hs <;> cases hrun.symm.trans h
    · exact ⟨hsound, fun _ => hcount, fun hw => absurd rfl hw⟩
    · exact hcount
    · exact ⟨hsound, fun hw => absurd hw (by decide), fun _ => ⟨hkeys, by omega⟩⟩
  · rw [run_readCell_of_ne ha] at h
    cases h
    refine ⟨hs, fun _ => rfl, fun _ => ⟨?_, Nat.le_refl _⟩⟩
    rw [if_neg ha]
    exact Nat.le_refl _

/-- **A cell of a string** shows one byte if the string goes on behind it, and passes the status
register only for a key; if the string does not go on, it shows nothing and takes nothing. -/
theorem calls_showCell (hT : Dependable T sound upcoming) (hs : sound m.console.terminal.terminal)
    {goesOn : Except Failure Bool} (h : (showCell address).run m = (goesOn, m')) :
    (goesOn = .ok true → sound m'.console.terminal.terminal ∧
      m'.calls .write = m.calls .write + 1 ∧
      Terminal.keysLeft m'.console.terminal + (if address = keyboardStatus then 1 else 0) ≤
        Terminal.keysLeft m.console.terminal ∧
      m'.calls .read + Terminal.keysLeft m'.console.terminal ≤
        m.calls .read + Terminal.keysLeft m.console.terminal) ∧
    (goesOn ≠ .ok true → m'.calls .write = m.calls .write ∧ m'.calls .read = m.calls .read) := by
  rcases hread : (readCell address).run m with ⟨f | w, m₁⟩
  · have htakes := takes_readCell hT hs hread
    rw [showCell, run_bind_of_error hread] at h
    cases h
    exact ⟨by rintro ⟨⟩, fun _ => ⟨calls_write_readCell hread, htakes⟩⟩
  · obtain ⟨hsound, hnone, hsome⟩ := takes_readCell hT hs hread
    rw [run_showCell hread] at h
    split at h
    · cases h
      exact ⟨by rintro ⟨⟩, fun _ => ⟨calls_write_readCell hread, hnone ‹_›⟩⟩
    · cases h
      obtain ⟨hkeys, hreads⟩ := hsome ‹_›
      obtain ⟨hwritten, hunread⟩ := calls_shows m₁ [lowByte w]
      -- To show the byte changes neither what is to come nor how much of it there is.
      obtain ⟨hsound', -, hleft⟩ := hT.tally.write (lowByte w) hsound
      have hterminal := m₁.terminal_shows [lowByte w]
      rw [List.foldl_cons, List.foldl_nil] at hterminal
      refine ⟨fun _ => ⟨?_, ?_, ?_, ?_⟩, fun hc => absurd rfl hc⟩
      · rw [hterminal]
        exact hsound'
      · rw [hwritten, calls_write_readCell hread]
        rfl
      · rw [hterminal, hleft]
        exact hkeys
      · rw [hunread, hterminal, hleft]
        exact hreads

/-- A cell of a string that goes on gives away a key to pass the status register. -/
theorem passes_showCell (hT : Dependable T sound upcoming)
    (hs : sound m.console.terminal.terminal) (h : (showCell address).run m = (.ok true, m')) :
    sound m'.console.terminal.terminal ∧
      Terminal.keysLeft m'.console.terminal + (if address = keyboardStatus then 1 else 0) ≤
        Terminal.keysLeft m.console.terminal := by
  obtain ⟨hsound, -, hkeys, -⟩ := (calls_showCell hT hs h).1 rfl
  exact ⟨hsound, hkeys⟩

/-- **A string ends when the keys have run out**, at the first status register after that at the
latest. The last cell shows nothing, each one before it a byte. -/
theorem Walk.string_bounds (hT : Dependable T sound upcoming)
    (hs : sound m.console.terminal.terminal) (h : Walk showCell address m visited r m') :
    visited.length ≤ distance address + size * Terminal.keysLeft m.console.terminal + 1 ∧
      m'.calls .write + 1 = m.calls .write + visited.length ∧
      m'.calls .read ≤ m.calls .read + Terminal.keysLeft m.console.terminal := by
  refine ⟨?_, ?_⟩
  · exact h.length_le (fun m : Machine (Tally T) => sound m.console.terminal.terminal)
      (fun m => Terminal.keysLeft m.console.terminal) (fun _ _ _ => passes_showCell hT) hs
  · induction h with
    | stop hrun =>
      obtain ⟨hwrites, hreads⟩ := (calls_showCell hT hs hrun).2 (by rintro ⟨⟩)
      rw [hwrites, hreads]
      exact ⟨rfl, Nat.le_add_right _ _⟩
    | fail hrun =>
      obtain ⟨hwrites, hreads⟩ := (calls_showCell hT hs hrun).2 (by rintro ⟨⟩)
      rw [hwrites, hreads]
      exact ⟨rfl, Nat.le_add_right _ _⟩
    | more hrun _ ih =>
      obtain ⟨hsound, hwrites, -, hreads⟩ := (calls_showCell hT hs hrun).1 rfl
      obtain ⟨hwrites', hreads'⟩ := ih hsound
      rw [List.length_cons]
      exact ⟨by omega, by omega⟩

/-- A string that the keys bound goes through some cells and ends. -/
theorem exists_walk_string (hT : Dependable T sound upcoming) (m : Machine (Tally T))
    (hs : sound m.console.terminal.terminal) (address : Word) :
    ∃ visited r m', Walk showCell address m visited r m' := by
  obtain ⟨r, m', hends, -⟩ := scan_ends_or_fails
    (fun m : Machine (Tally T) => sound m.console.terminal.terminal)
    (fun m => Terminal.keysLeft m.console.terminal) (fun _ _ _ => passes_showCell hT) hs
    (Nat.lt_succ_self _)
  obtain ⟨visited, hwalk⟩ := hends.exists_walk
  exact ⟨visited, r, m', hwalk⟩

/-- At a terminal that can be relied on neither of the two services fails. -/
theorem outcome_of_dependable (hT : Dependable T sound upcoming)
    (hs : sound m.console.terminal.terminal) (hpatient : m.console.IsPatient) {s : Service}
    (hasking : ¬s.IsAsking) (h : (effect (.trap s)).run m = (r, m')) : r = .ok () := by
  have hi : ∀ s', Instruction.trap s = .trap s' → ¬s'.IsAsking := by
    rintro s' ⟨⟩
    exact hasking
  obtain ⟨_, m'', hrun, -⟩ := returns_effect hT.tally hi m ⟨hpatient, hs⟩
  exact congrArg Prod.fst (h.symm.trans hrun)

/-- **Packed characters take one round through memory** at most, on every terminal. -/
theorem putsp_is_bounded (m : Machine (Tally T)) :
    ∃ visited r m', ReadsOut .putsp showPackedCell m visited r m' ∧ visited.length ≤ size ∧
      m'.calls .write ≤ m.calls .write + 2 * (size - 1) := by
  obtain ⟨r, m₁, hends, -⟩ :=
    (m.called .putsp).showPacked_ends_within (m.registers.read (.general 0))
  obtain ⟨visited, hwalk⟩ := hends.exists_walk
  obtain ⟨-, hwrites⟩ := hwalk.packed_bounds
  have hdistance := distance_lt (m.registers.read (.general 0))
  have hround := hwalk.length_le_size
  refine ⟨visited, r, passedOn r m₁, hwalk.readsOut_putsp hround, hround, ?_⟩
  rw [calls_passedOn]
  change m₁.calls .write ≤ m.calls .write + _ at hwrites
  omega

/-- **A string of one character a word takes one round for each key**, and one more. -/
theorem puts_is_bounded (hT : Dependable T sound upcoming) (m : Machine (Tally T))
    (hs : sound m.console.terminal.terminal) {k : Nat}
    (hk : Terminal.keysLeft m.console.terminal = k) :
    ∃ visited r m', ReadsOut .puts showCell m visited r m' ∧ visited.length ≤ size * (k + 1) ∧
      m'.calls .write ≤ m.calls .write + (size * (k + 1) - 1) ∧
      m'.calls .read ≤ m.calls .read + k := by
  subst hk
  obtain ⟨visited, r, m₁, hwalk⟩ :=
    exists_walk_string hT (m.called .puts) hs (m.registers.read (.general 0))
  obtain ⟨hlength, hwrites, hkeys⟩ := Walk.string_bounds (m := m.called .puts) hT hs hwalk
  have hdistance := distance_lt (m.registers.read (.general 0))
  have hrounds : visited.length ≤ size * (Terminal.keysLeft m.console.terminal + 1) := by
    refine Nat.le_trans hlength ?_
    change _ + size * Terminal.keysLeft m.console.terminal + 1 ≤ _
    rw [Nat.mul_succ]
    omega
  refine ⟨visited, r, passedOn r m₁, hwalk.readsOut_puts hrounds, hrounds, ?_, ?_⟩
  · rw [calls_passedOn]
    change m₁.calls .write + 1 = m.calls .write + _ at hwrites
    omega
  · rw [calls_passedOn]
    exact hkeys

end Machine

end Counting

/-! ### Strings that reach the bounds -/

namespace Machine

/-- The cells of one round, without the status register at its end. -/
def round : List Word := cellsFrom (keyboardStatus + 1) (size - 1)

theorem length_round : round.length + 1 = size := congrArg (· + 1) (length_cellsFrom _ _)

theorem ne_status_of_mem_round {b : Word} (h : b ∈ round) : b ≠ keyboardStatus := by
  obtain ⟨i, hi, rfl⟩ := mem_cellsFrom.mp h
  unfold size keyboardStatus at *
  bv_omega

/-- **A scan that nothing in memory stops** comes to the status register. -/
theorem Walk.around {T : Type} [Terminal T] {cell : Word → Action T Bool}
    {bytes : Word → List Byte} {m m' : Machine T} {visited : List Word} {r : Except Failure Unit}
    (hcell : ∀ b, b ≠ keyboardStatus → ∀ n : Machine T, n.memory = m.memory →
      (cell b).run n = (.ok true, n.shows (bytes b)))
    (rest : Walk cell keyboardStatus (m.shows (round.flatMap bytes)) visited r m') :
    Walk cell (keyboardStatus + 1) m (round ++ visited) r m' := by
  have hend : keyboardStatus + 1 + BitVec.ofNat 16 (size - 1) = keyboardStatus := by decide
  rw [← hend] at rest
  exact rest.through bytes fun b hb => hcell b (ne_status_of_mem_round hb)

theorem length_flatMap_round (bytes : Word → List Byte) {n : Nat}
    (h : ∀ b, (bytes b).length = n) : (round.flatMap bytes).length = (size - 1) * n := by
  have hconst : round.map (fun b => (bytes b).length) = List.replicate (size - 1) n := by
    rw [List.map_congr_left fun b _ => h b, List.map_const', round, length_cellsFrom]
  rw [List.length_flatMap, hconst, List.sum_replicate_nat]

/-- A scan that nothing in memory stops comes to the status register after one round, with the keys
that there were. -/
theorem exists_round {m : Machine ScriptedTerminal} {cell : Word → Action ScriptedTerminal Bool}
    (bytes : Word → List Byte) {count : Nat} (hbytes : ∀ b, (bytes b).length = count)
    (hcell : ∀ b, b ≠ keyboardStatus → ∀ n : Machine ScriptedTerminal, n.memory = m.memory →
      (cell b).run n = (.ok true, n.shows (bytes b))) :
    ∃ m₁ : Machine ScriptedTerminal, m₁.memory = m.memory ∧ m₁.keys = m.keys ∧
      m₁.console.guarded = m.console.guarded ∧
      m₁.console.terminal.output.length =
        m.console.terminal.output.length + count * (size - 1) ∧
      ∀ visited r m', Walk cell keyboardStatus m₁ visited r m' →
        Walk cell (keyboardStatus + 1) m (round ++ visited) r m' := by
  obtain ⟨houtput, hkeys⟩ := scripted_shows m (round.flatMap bytes)
  refine ⟨m.shows (round.flatMap bytes), memory_shows m _, hkeys, guarded_shows m _, ?_, ?_⟩
  · rw [houtput, List.length_append, length_flatMap_round bytes hbytes, Nat.mul_comm]
  · intro visited r m' rest
    exact rest.around hcell

/-- No cell but the status register could end a string, and no interrupt reaches the machine. -/
structure IsEndless (m : Machine ScriptedTerminal) : Prop where
  unguarded : m.console.guarded = false
  nonzero : ∀ b, b ≠ keyboardStatus → m.memory.peek b ≠ 0

section Endless

variable {m : Machine ScriptedTerminal}

/-- A string without an end comes to the status register after one round. -/
theorem IsEndless.exists_round (h : m.IsEndless) :
    ∃ m₁ : Machine ScriptedTerminal, m₁.IsEndless ∧ m₁.keys = m.keys ∧
      m₁.console.terminal.output.length + 1 = m.console.terminal.output.length + size ∧
      ∀ visited r m', Walk showCell keyboardStatus m₁ visited r m' →
        Walk showCell (keyboardStatus + 1) m (round ++ visited) r m' := by
  have hcell : ∀ b, b ≠ keyboardStatus → ∀ n : Machine ScriptedTerminal, n.memory = m.memory →
      (showCell b).run n = (.ok true, n.shows [lowByte (m.memory.peek b)]) := by
    intro b hb n hn
    rw [run_showCell (run_readCell_of_ne hb n), hn, if_neg (h.nonzero b hb)]
  obtain ⟨m₁, hmemory, hkeys, hguarded, houtput, haround⟩ :=
    Machine.exists_round (fun b => [lowByte (m.memory.peek b)]) (fun _ => rfl) hcell
  refine ⟨m₁, ⟨hguarded.trans h.unguarded, ?_⟩, hkeys, ?_, haround⟩
  · rw [hmemory]
    exact h.nonzero
  · rw [houtput, Nat.one_mul, Nat.add_assoc]
    rfl

/-- **Without a key** the string ends at the status register. -/
theorem IsEndless.walk_of_nil (h : m.IsEndless) (hk : m.keys = []) :
    ∃ m', Walk showCell (keyboardStatus + 1) m (round ++ [keyboardStatus]) (.ok ()) m' ∧
      m'.keys = [] ∧
      m'.console.terminal.output.length + 1 = m.console.terminal.output.length + size := by
  obtain ⟨m₁, h₁, hkeys, houtput, haround⟩ := h.exists_round
  rw [hk] at hkeys
  have hread := run_readCell_status_of_nil (Console.spares_of_unguarded h₁.unguarded .poll) hkeys
  exact ⟨_, haround _ _ _ (.stop (run_showCell hread)), hkeys, houtput⟩

/-- **For a key** the string goes on behind the status register. The key is in the data register
then, which is in the way of the next round. -/
theorem IsEndless.walk_of_cons (h : m.IsEndless) {key : Byte} {rest : List Byte}
    (hk : m.keys = key :: rest) (hkey : key ≠ 0) :
    ∃ m₁ : Machine ScriptedTerminal, m₁.IsEndless ∧ m₁.keys = rest ∧
      m₁.console.terminal.output.length = m.console.terminal.output.length + size ∧
      ∀ visited r m', Walk showCell (keyboardStatus + 1) m₁ visited r m' →
        Walk showCell (keyboardStatus + 1) m (round ++ keyboardStatus :: visited) r m' := by
  obtain ⟨m₁, h₁, hkeys, houtput, haround⟩ := h.exists_round
  rw [hk] at hkeys
  have hread := run_readCell_status_of_cons (Console.spares_of_unguarded h₁.unguarded .poll)
    (Console.spares_of_unguarded h₁.unguarded .read) hkeys
  let m₂ : Machine ScriptedTerminal := { m₁.withKeys rest with
    memory := (m₁.memory.write keyboardStatus keyReady).write keyboardData (wordOfByte key) }
  obtain ⟨houtput₂, hkeys₂⟩ := scripted_shows m₂ [lowByte keyReady]
  have hnonzero : ∀ b, b ≠ keyboardStatus → m₂.memory.peek b ≠ 0 := by
    intro b hb
    change ((m₁.memory.write keyboardStatus keyReady).write keyboardData
      (wordOfByte key)).peek b ≠ 0
    rw [peek_write, peek_write, if_neg (Ne.symm hb)]
    split
    · exact wordOfByte_ne_zero hkey
    · exact h₁.nonzero b hb
  refine ⟨m₂.shows [lowByte keyReady], ⟨?_, hnonzero⟩, hkeys₂, ?_, ?_⟩
  · exact (guarded_shows m₂ _).trans h₁.unguarded
  · rw [houtput₂, List.length_append, List.length_singleton]
    exact houtput
  · intro visited r m' hwalk
    exact haround _ _ _ (.more (run_showCell hread) hwalk)

/-- **A string that only the end of the keys stops** goes through one round for each key, and one
more. -/
theorem IsEndless.exists_walk (h : m.IsEndless) (hkeys : ∀ key ∈ m.keys, key ≠ 0) :
    ∃ visited m', Walk showCell (keyboardStatus + 1) m visited (.ok ()) m' ∧
      visited.length = size * (m.keys.length + 1) ∧ m'.keys = [] ∧
      m'.console.terminal.output.length + 1 =
        m.console.terminal.output.length + size * (m.keys.length + 1) := by
  have hround := length_round
  generalize hks : m.keys = ks at hkeys ⊢
  induction ks generalizing m with
  | nil =>
    obtain ⟨m', hwalk, hnone, houtput⟩ := h.walk_of_nil hks
    rw [List.length_nil, Nat.zero_add, Nat.mul_one]
    refine ⟨_, m', hwalk, ?_, hnone, houtput⟩
    rw [List.length_append, List.length_singleton, hround]
  | cons key rest ih =>
    obtain ⟨m₁, h₁, hks₁, houtput₁, hnext⟩ := h.walk_of_cons hks (hkeys key List.mem_cons_self)
    obtain ⟨visited, m', hwalk, hlength, hnone, houtput⟩ :=
      ih h₁ hks₁ fun k hk => hkeys k (List.mem_cons_of_mem _ hk)
    rw [List.length_cons, Nat.mul_add_one size (rest.length + 1)]
    refine ⟨_, m', hnext _ _ _ hwalk, ?_, hnone, by omega⟩
    rw [List.length_append, List.length_cons, hlength]
    omega

end Endless

/-- A machine that holds the same word in every cell and points to the cell behind the status
register. -/
def filled {T : Type} (w : Word) (terminal : T) : Machine T :=
  pointing ⟨Table.replicate 16 w⟩ (keyboardStatus + 1) terminal

theorem peek_filled {T : Type} (w : Word) (terminal : T) (b : Word) :
    (filled w terminal).memory.peek b = w :=
  Table.getElem_replicate 16 w b

/-- **Packed characters can take the whole round.** -/
theorem putsp_reaches_bound : ∃ (m : Machine ScriptedTerminal) (visited : List Word)
    (m' : Machine ScriptedTerminal), ReadsOut .putsp showPackedCell m visited (.ok ()) m' ∧
      visited.length = size ∧
      m'.console.terminal.output.length = m.console.terminal.output.length + 2 * (size - 1) := by
  let m : Machine ScriptedTerminal := filled 0x0101 { keys := [] }
  have hcell : ∀ b, b ≠ keyboardStatus → ∀ n : Machine ScriptedTerminal,
      n.memory = (m.called .putsp).memory →
        (showPackedCell b).run n = (.ok true, n.shows [0x01, 0x01]) := by
    intro b hb n hn
    have hw : n.memory.peek b = 0x0101 := (congrArg (peek · b) hn).trans (peek_filled _ _ _)
    rw [run_showPackedCell (run_readCell_of_ne hb n), hw]
    rfl
  obtain ⟨m₁, -, hkeys, hguarded, houtput, haround⟩ :=
    exists_round (fun _ => [0x01, 0x01]) (fun _ => rfl) hcell
  have hread := run_readCell_status_of_nil (Console.spares_of_unguarded hguarded .poll) hkeys
  have hwalk := haround _ _ _ (.stop (run_showPackedCell hread))
  have hlength : (round ++ [keyboardStatus]).length = size := by
    rw [List.length_append, List.length_singleton, length_round]
  have haddress : m.registers.read (.general 0) = keyboardStatus + 1 := read_pointing _ _ _
  rw [← haddress] at hwalk
  exact ⟨m, _, _, hwalk.readsOut_putsp (Nat.le_of_eq hlength), hlength, houtput⟩

/-- **A string of one character a word can take all its rounds.** -/
theorem puts_reaches_bound (k : Nat) : ∃ (m : Machine ScriptedTerminal) (visited : List Word)
    (m' : Machine ScriptedTerminal), m.keys.length = k ∧
      ReadsOut .puts showCell m visited (.ok ()) m' ∧ visited.length = size * (k + 1) ∧
      m'.console.terminal.output.length + 1 =
        m.console.terminal.output.length + size * (k + 1) ∧ m'.keys = [] := by
  let m : Machine ScriptedTerminal := filled 0x0101 { keys := List.replicate k 0x41 }
  have hk : m.keys.length = k := List.length_replicate
  have hendless : (m.called .puts).IsEndless := by
    refine ⟨rfl, fun b _ => ?_⟩
    change m.memory.peek b ≠ 0
    rw [peek_filled]
    decide
  have hkeys : ∀ key ∈ (m.called .puts).keys, key ≠ 0 := by
    intro key hkey
    rw [List.eq_of_mem_replicate hkey]
    decide
  obtain ⟨visited, m', hwalk, hlength, hnone, houtput⟩ := hendless.exists_walk hkeys
  have hcalled : (m.called .puts).keys.length = k := hk
  rw [hcalled] at hlength houtput
  have haddress : m.registers.read (.general 0) = keyboardStatus + 1 := read_pointing _ _ _
  rw [← haddress] at hwalk
  refine ⟨m, visited, _, hk, hwalk.readsOut_puts ?_, hlength, houtput, hnone⟩
  change visited.length ≤ size * (m.keys.length + 1)
  rw [hk]
  exact Nat.le_of_eq hlength

end Machine

/-! ### Main statement -/

namespace Machine

/-- **Strings end, and within exact bounds**, whatever is in memory, whatever the terminal and
whatever interrupt may come. The terminal is one whose calls are counted, and for the rest any.

* A call that shows packed characters reads 65,536 cells at most, which is one round through memory,
  and shows two bytes at most for each of them but one.
* If the terminal can be relied on and `k` keys are left, a call that shows a string of one
  character a word reads 65,536 cells at most for each key and as many besides, shows a byte at most
  for each of them but one, and takes `k` keys at most.
* If the terminal can be relied on and no wait is abandoned, both return.
* The bounds cannot be improved: memories without a zero reach them, the second with any number of
  keys. -/
theorem strings_end_within_bounds :
    (∀ (T : Type) [Terminal T] (m : Machine (Tally T)), ∃ visited r m',
      ReadsOut .putsp showPackedCell m visited r m' ∧ visited.length ≤ size ∧
      m'.calls .write ≤ m.calls .write + 2 * (size - 1) ∧
      ∀ sound upcoming, Dependable T sound upcoming → sound m.console.terminal.terminal →
        m.console.IsPatient → r = .ok ()) ∧
    (∀ (T : Type) [Terminal T] sound upcoming, Dependable T sound upcoming →
      ∀ (m : Machine (Tally T)) (k : Nat), sound m.console.terminal.terminal →
        Terminal.keysLeft m.console.terminal = k → ∃ visited r m',
        ReadsOut .puts showCell m visited r m' ∧ visited.length ≤ size * (k + 1) ∧
        m'.calls .write ≤ m.calls .write + (size * (k + 1) - 1) ∧
        m'.calls .read ≤ m.calls .read + k ∧ (m.console.IsPatient → r = .ok ())) ∧
    (∃ (m : Machine ScriptedTerminal) (visited : List Word) (m' : Machine ScriptedTerminal),
      ReadsOut .putsp showPackedCell m visited (.ok ()) m' ∧ visited.length = size ∧
      m'.console.terminal.output.length =
        m.console.terminal.output.length + 2 * (size - 1)) ∧
    ∀ k, ∃ (m : Machine ScriptedTerminal) (visited : List Word) (m' : Machine ScriptedTerminal),
      m.keys.length = k ∧ ReadsOut .puts showCell m visited (.ok ()) m' ∧
      visited.length = size * (k + 1) ∧
      m'.console.terminal.output.length + 1 =
        m.console.terminal.output.length + size * (k + 1) ∧ m'.keys = [] := by
  refine ⟨fun T _ m => ?_, fun T _ sound upcoming hT m k hs hk => ?_, putsp_reaches_bound,
    puts_reaches_bound⟩
  · obtain ⟨visited, r, m', hreads, hlength, hwrites⟩ := m.putsp_is_bounded
    refine ⟨visited, r, m', hreads, hlength, hwrites, ?_⟩
    intro sound upcoming hT hs hpatient
    exact outcome_of_dependable hT hs hpatient (id : ¬Service.putsp.IsAsking) hreads.run
  · obtain ⟨visited, r, m', hreads, hlength, hwrites, hkeys⟩ := puts_is_bounded hT m hs hk
    refine ⟨visited, r, m', hreads, hlength, hwrites, hkeys, fun hpatient => ?_⟩
    exact outcome_of_dependable hT hs hpatient (id : ¬Service.puts.IsAsking) hreads.run

/-- With one key left, a string that nothing in memory stops is over after two rounds. -/
theorem bounds_of_filled :
    let m : Machine (Tally ScriptedTerminal) := filled 0x4141 { terminal := { keys := [0x42] } }
    ∃ visited r m', ReadsOut .puts showCell m visited r m' ∧ visited.length ≤ size * 2 ∧
      m'.calls .write ≤ m.calls .write + (size * 2 - 1) ∧ m'.calls .read ≤ m.calls .read + 1 ∧
      (m.console.IsPatient → r = .ok ()) :=
  strings_end_within_bounds.2.1 ScriptedTerminal (fun _ => True) ScriptedTerminal.upcoming
    ScriptedTerminal.dependable (filled 0x4141 { terminal := { keys := [0x42] } }) 1 trivial rfl

end Machine

end LittleComputer
