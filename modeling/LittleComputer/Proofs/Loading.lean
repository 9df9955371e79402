import LittleComputer.Image
import LittleComputer.Proofs.Action
import LittleComputer.Terminal.Scripted

/-!
# What is in memory after loading

An image is loaded whole or not at all: bytes that do not even hold an origin fail, and
everything else succeeds. What is stored can be told from the bytes alone. Behind the origin
they hold a word for each further pair of bytes, and `LittleComputer.Image.placed?` says which
of these words goes into a given cell, if one does: only cells from the origin upwards get one,
and there are as many as are left to the top of memory.

The loader knows where memory ends in two ways. It cuts off the words that find no cell before
it copies them, and the copying stops at the last cell by itself. Either would do
(`LittleComputer.Memory.load_take`, `LittleComputer.Memory.copied_eq_room`).

Of several images the last one that has a word for a cell decides about the cell, whatever
was loaded before it and whichever of the others fail; this is the main statement,
`LittleComputer.Machine.loading_last_wins`.
-/

namespace LittleComputer

/-! ### Copying words to cells -/

namespace Memory

/-- **Copying words is seen in the cells that get one and in no other.** -/
theorem peek_loadFrom (m : Memory) (address : Nat) (words : List Word) (a : Word) :
    (m.loadFrom address words).peek a =
      if address ≤ a.toNat then words[a.toNat - address]?.getD (m.peek a) else m.peek a := by
  induction words generalizing m address with
  | nil => simp [loadFrom]
  | cons w rest ih =>
    have ha : a.toNat < size := a.isLt
    rw [loadFrom]
    by_cases hsize : address < size
    · have hcell : BitVec.ofNat 16 address = a ↔ a.toNat = address := by
        have hmod : address % 2 ^ 16 = address := Nat.mod_eq_of_lt hsize
        rw [← BitVec.toNat_inj, BitVec.toNat_ofNat, hmod, eq_comm]
      rw [if_pos hsize, ih, peek_write]
      simp only [hcell]
      rcases Nat.lt_trichotomy a.toNat address with hlt | heq | hgt
      · rw [if_neg (by omega), if_neg (by omega), if_neg (by omega)]
      · -- The first word goes here, and the others go further up.
        rw [if_neg (by omega), if_pos heq, if_pos (by omega), heq, Nat.sub_self]
        rfl
      · obtain ⟨i, hi⟩ := Nat.exists_eq_add_of_lt hgt
        have hrest : a.toNat - (address + 1) = i := by omega
        have hall : a.toNat - address = i + 1 := by omega
        rw [if_pos (by omega), if_neg (by omega), if_pos (by omega), hrest, hall]
        rfl
    · rw [if_neg hsize, if_neg (by omega)]

theorem peek_load (m : Memory) (origin : Word) (words : List Word) (a : Word) :
    (m.load origin words).peek a =
      if origin.toNat ≤ a.toNat then words[a.toNat - origin.toNat]?.getD (m.peek a)
      else m.peek a :=
  m.peek_loadFrom origin.toNat words a

/-- **Words that find no cell can as well be cut off before.** -/
theorem load_take (m : Memory) (origin : Word) (words : List Word) :
    m.load origin (words.take (size - origin.toNat)) = m.load origin words := by
  refine ext_peek fun a => ?_
  have ha : a.toNat < size := a.isLt
  rw [peek_load, peek_load]
  by_cases hle : origin.toNat ≤ a.toNat
  · have hlt : a.toNat - origin.toNat < size - origin.toNat := by omega
    rw [if_pos hle, if_pos hle, List.getElem?_take_of_lt hlt]
  · rw [if_neg hle, if_neg hle]

/-- How many words are copied to the cells from `address` upwards before there is no cell
left. -/
def copied : (address : Nat) → List Word → Nat
  | _, [] => 0
  | address, _ :: rest => if address < size then copied (address + 1) rest + 1 else 0

/-- **As many words are copied as there is room for.** -/
theorem copied_eq_room (origin : Word) (words : List Word) :
    copied origin.toNat words = room origin words.length := by
  have hcopied : ∀ address, copied address words = min words.length (size - address) := by
    induction words with
    | nil => simp [copied]
    | cons w rest ih =>
      intro address
      rw [copied, ih, List.length_cons]
      split <;> omega
  exact hcopied origin.toNat

end Memory

/-! ### The words of an image -/

namespace Image

/-- The word in the pair of bytes that `i` pairs stand before, if there is such a pair. -/
def wordAt? (bytes : List Byte) (i : Nat) : Option Word := do
  return joinBytes (← bytes[2 * i]?) (← bytes[2 * i + 1]?)

/-- How many of the words behind the origin find a cell. -/
def storedFrom (bytes : List Byte) (origin : Word) : Nat :=
  min (bytes.length / 2 - 1) (65536 - origin.toNat)

/-- The word that bytes put into a cell when they are loaded, if they put one there: the cell
is then one of those that are stored from the origin upwards, and the word stands as far
behind the origin. -/
def placed? (bytes : List Byte) (a : Word) : Option Word := do
  let origin ← wordAt? bytes 0
  if origin.toNat ≤ a.toNat ∧ a.toNat < origin.toNat + storedFrom bytes origin then
    wordAt? bytes (a.toNat - origin.toNat + 1)
  else none

/-- The notices of loading bytes with an origin. -/
def loadNotices (name : String) (bytes : List Byte) (origin : Word) : List Notice :=
  let dropped := bytes.length / 2 - 1 - storedFrom bytes origin
  (if bytes.length % 2 = 1 then [.oddByte name] else []) ++
    (if 0 < dropped then [.wordsDropped name dropped] else []) ++
    [.loaded name (storedFrom bytes origin) origin]

/-- The notices of an attempt to load bytes. There are none if the bytes hold no origin. -/
def noticesOf (name : String) (bytes : List Byte) : List Notice :=
  (wordAt? bytes 0).elim [] (loadNotices name bytes)

/-- The journal is told of dropped words if there are any, and how many. -/
theorem wordsDropped_mem_loadNotices {name : String} {bytes : List Byte} {origin : Word}
    {count : Nat} : .wordsDropped name count ∈ loadNotices name bytes origin ↔
      storedFrom bytes origin < bytes.length / 2 - 1 ∧
        count = bytes.length / 2 - 1 - storedFrom bytes origin := by
  have hodd : .wordsDropped name count ∉
      if bytes.length % 2 = 1 then [Notice.oddByte name] else [] := by
    split <;> simp
  rw [← Nat.sub_pos_iff_lt]
  simp only [loadNotices, List.append_assoc, List.mem_append, hodd, false_or]
  generalize bytes.length / 2 - 1 - storedFrom bytes origin = dropped
  by_cases hpos : 0 < dropped
  · simp [hpos]
  · simp [hpos]

theorem length_wordsOfBytes : ∀ bytes : List Byte, (wordsOfBytes bytes).length = bytes.length / 2
  | [] => rfl
  | [_] => by simp
  | _ :: _ :: rest => by
    rw [wordsOfBytes_cons_cons, List.length_cons, length_wordsOfBytes rest]
    simp only [List.length_cons]
    omega

theorem getElem?_wordsOfBytes : ∀ (bytes : List Byte) (i : Nat),
    (wordsOfBytes bytes)[i]? = wordAt? bytes i
  | [], _ => rfl
  | [_], i => by cases i <;> rfl
  | _ :: _ :: _, 0 => by
    rw [wordsOfBytes_cons_cons]
    rfl
  | _ :: _ :: rest, i + 1 => by
    rw [wordsOfBytes_cons_cons, List.getElem?_cons_succ, getElem?_wordsOfBytes rest i]
    rfl

theorem storedFrom_cons_cons (high low : Byte) (rest : List Byte) (origin : Word) :
    storedFrom (high :: low :: rest) origin =
      min (wordsOfBytes rest).length (65536 - origin.toNat) := by
  rw [storedFrom, length_wordsOfBytes]
  simp only [List.length_cons]
  omega

theorem placed?_cons_cons (high low : Byte) (rest : List Byte) (a : Word) :
    placed? (high :: low :: rest) a =
      if (joinBytes high low).toNat ≤ a.toNat ∧ a.toNat < (joinBytes high low).toNat +
          storedFrom (high :: low :: rest) (joinBytes high low) then
        (wordsOfBytes rest)[a.toNat - (joinBytes high low).toNat]? else none := by
  rw [getElem?_wordsOfBytes]
  rfl

/-- **What loading puts into a cell.** -/
theorem peek_load (m : Memory) (high low : Byte) (rest : List Byte) (a : Word) :
    (m.load (joinBytes high low) (wordsOfBytes rest)).peek a =
      (placed? (high :: low :: rest) a).getD (m.peek a) := by
  have ha : a.toNat < 65536 := a.isLt
  rw [Memory.peek_load, placed?_cons_cons, storedFrom_cons_cons]
  generalize joinBytes high low = origin
  by_cases hle : origin.toNat ≤ a.toNat
  · by_cases hlt : a.toNat - origin.toNat < (wordsOfBytes rest).length
    · rw [if_pos hle, if_pos (by omega)]
    · -- The words end before the cell.
      rw [if_pos hle, if_neg (by omega), List.getElem?_eq_none (by omega)]
  · rw [if_neg hle, if_neg (by omega)]
    rfl

/-- **The cells that an image covers** are those that are stored. -/
theorem isSome_placed? (high low : Byte) (rest : List Byte) (a : Word) :
    (placed? (high :: low :: rest) a).isSome = true ↔
      (joinBytes high low).toNat ≤ a.toNat ∧ a.toNat <
        (joinBytes high low).toNat + storedFrom (high :: low :: rest) (joinBytes high low) := by
  rw [placed?_cons_cons]
  generalize hs : storedFrom (high :: low :: rest) (joinBytes high low) = s
  rw [storedFrom_cons_cons] at hs
  generalize joinBytes high low = origin at hs ⊢
  split
  · rename_i hcovers
    have hlt : a.toNat - origin.toNat < (wordsOfBytes rest).length := by omega
    rw [List.getElem?_eq_getElem hlt]
    exact iff_of_true rfl hcovers
  · rename_i hcovers
    exact iff_of_false Bool.false_ne_true hcovers

/-- **An odd byte at the end has no effect** on what goes where. -/
theorem placed?_append {bytes : List Byte} (h : bytes.length % 2 = 0) (b : Byte) (a : Word) :
    placed? (bytes ++ [b]) a = placed? bytes a := by
  have hword : ∀ i, wordAt? (bytes ++ [b]) i = wordAt? bytes i := by
    intro i
    unfold wordAt?
    by_cases hi : 2 * i + 1 < bytes.length
    · rw [List.getElem?_append_left (by omega), List.getElem?_append_left hi]
    · have hnone : (bytes ++ [b])[2 * i + 1]? = none := by
        rw [List.getElem?_eq_none]
        rw [List.length_append, List.length_singleton]
        omega
      rw [hnone, List.getElem?_eq_none (l := bytes) (by omega)]
      cases (bytes ++ [b])[2 * i]? <;> cases bytes[2 * i]? <;> rfl
  have hstored : ∀ origin, storedFrom (bytes ++ [b]) origin = storedFrom bytes origin := by
    intro origin
    unfold storedFrom
    rw [List.length_append, List.length_singleton]
    omega
  unfold placed?
  simp only [hword, hstored]

end Image

/-! ### Loading one image -/

namespace Machine

open Image

variable {T : Type}

theorem run_forM_note (notices : List Notice) (m : Machine T) :
    (notices.forM note).run m = (.ok (), { m with
      console := { m.console with journal := m.console.journal.recordAll notices } }) := by
  induction notices generalizing m with
  | nil => rfl
  | cons n rest ih => exact ih { m with console := m.console.note n }

/-- **Bytes without an origin are refused**, and nothing is changed. -/
theorem run_loadImage_of_short {bytes : List Byte} (h : bytes.length < 2) (name : String)
    (m : Machine T) :
    (loadImage name bytes).run m =
      (.error (.imageLoad name "truncated header (missing origin word)"), m) := by
  rcases bytes with _ | ⟨b, _ | ⟨b', rest⟩⟩
  · rfl
  · rfl
  · simp only [List.length_cons] at h
    omega

/-- **All other bytes are loaded.** The words go to memory, the notices to the journal, and
nothing else is changed. -/
theorem run_loadImage (name : String) (high low : Byte) (rest : List Byte) (m : Machine T) :
    (loadImage name (high :: low :: rest)).run m =
      (.ok (joinBytes high low, storedFrom (high :: low :: rest) (joinBytes high low)), { m with
        memory := m.memory.load (joinBytes high low) (wordsOfBytes rest)
        console := { m.console with
          journal := m.console.journal.recordAll
            (loadNotices name (high :: low :: rest) (joinBytes high low)) } }) := by
  have hlength : (wordsOfBytes rest).length = (high :: low :: rest).length / 2 - 1 := by
    rw [length_wordsOfBytes]
    simp only [List.length_cons]
    omega
  have hodd : (high :: low :: rest).length % 2 = rest.length % 2 := by
    simp only [List.length_cons]
    omega
  have hstored : (⟨joinBytes high low, wordsOfBytes rest⟩ : Image).stored =
      storedFrom (high :: low :: rest) (joinBytes high low) := by
    rw [stored, hlength]
    rfl
  simp only [loadImage, parse, hstored, hlength, run_bind_of_ok (run_forM_note _ _), loadNotices,
    hodd]
  generalize (if rest.length % 2 = 1 then [Notice.oddByte name] else []) = odd
  by_cases hdropped : 0 < (high :: low :: rest).length / 2 - 1 -
      storedFrom (high :: low :: rest) (joinBytes high low)
  · simp only [if_pos hdropped, Journal.recordAll, List.foldl_append, List.append_assoc]
    rfl
  · simp only [if_neg hdropped, Journal.recordAll, List.foldl_append, List.append_assoc]
    rfl

/-! ### Loading several images -/

/-- The machine after a sequence of images, each with its name, was loaded one after the other,
whether or not each of them could be. -/
def afterLoading (m : Machine T) (images : List (String × List Byte)) : Machine T :=
  images.foldl (fun m image => ((loadImage image.1 image.2).run m).2) m

/-- What an attempt to load an image does to a machine: memory and the journal may change. -/
theorem loadImage_effect (name : String) (bytes : List Byte) (m : Machine T) :
    ∃ memory journal, ((loadImage name bytes).run m).2 =
        { m with memory, console := { m.console with journal } } ∧
      ∀ a, memory.peek a = (placed? bytes a).getD (m.memory.peek a) := by
  rcases bytes with _ | ⟨high, _ | ⟨low, rest⟩⟩
  · exact ⟨m.memory, m.console.journal, rfl, fun _ => rfl⟩
  · exact ⟨m.memory, m.console.journal, rfl, fun _ => rfl⟩
  · rw [run_loadImage]
    exact ⟨_, _, rfl, peek_load m.memory high low rest⟩

/-- What a sequence of images does to a machine. -/
theorem afterLoading_effect (images : List (String × List Byte)) (m : Machine T) :
    ∃ memory journal, m.afterLoading images =
        { m with memory, console := { m.console with journal } } ∧
      ∀ a, memory.peek a =
        (images.reverse.findSome? fun image => placed? image.2 a).getD (m.memory.peek a) := by
  induction images generalizing m with
  | nil => exact ⟨m.memory, m.console.journal, rfl, fun _ => rfl⟩
  | cons image rest ih =>
    obtain ⟨memory, journal, hfirst, hmemory⟩ := loadImage_effect image.1 image.2 m
    obtain ⟨memory', journal', hrest, hmemory'⟩ := ih ((loadImage image.1 image.2).run m).2
    refine ⟨memory', journal', ?_, fun a => ?_⟩
    · rw [hfirst] at hrest
      change (((loadImage image.1 image.2).run m).2).afterLoading rest = _
      rw [hfirst]
      exact hrest
    · rw [hmemory' a, hfirst, List.reverse_cons, List.findSome?_append]
      change (rest.reverse.findSome? fun image => placed? image.2 a).getD (memory.peek a) = _
      rw [hmemory a]
      -- A later image that has a word for the cell is not asked what this one has.
      cases rest.reverse.findSome? fun image => placed? image.2 a with
      | some w => rfl
      | none => cases hplaced : placed? image.2 a <;> simp [hplaced]

theorem journal_loadImage (name : String) (bytes : List Byte) (m : Machine T) :
    ((loadImage name bytes).run m).2.console.journal =
      m.console.journal.recordAll (noticesOf name bytes) := by
  rcases bytes with _ | ⟨high, _ | ⟨low, rest⟩⟩
  · rfl
  · rfl
  · rw [run_loadImage]
    rfl

/-- **A sequence of images leaves its notices in order.** -/
theorem journal_afterLoading (images : List (String × List Byte)) (m : Machine T) :
    (m.afterLoading images).console.journal =
      m.console.journal.recordAll (images.flatMap fun image => noticesOf image.1 image.2) := by
  induction images generalizing m with
  | nil => rfl
  | cons image rest ih =>
    rw [List.flatMap_cons, Journal.recordAll_append, ← journal_loadImage image.1 image.2 m]
    exact ih ((loadImage image.1 image.2).run m).2

/-- **Of several images the last one that covers a cell decides about it.** From any machine:

* Bytes that hold no origin are refused, and the machine is left as it was.
* All other bytes give their origin and the number `s` of words stored, which is that of the `n`
  words behind the origin or that of the cells from the origin upwards, whichever is less. These
  are the cells that an image covers; each of them gets its word, and no other changes. The
  journal is told how many words were dropped if any were. A byte too many makes no difference
  to memory.
* The loader may cut the words at the end of memory before it copies them, or stop copying
  there: the cells are the same, and so is the number of words copied.
* After any sequence of images every cell holds the word that the last image that covers it
  has for it, and what it held before if there is none. Nothing but memory and the journal has
  changed, and no key was taken, whichever cells were written. -/
theorem loading_last_wins (m : Machine T) :
    (∀ name bytes, bytes.length < 2 → (loadImage name bytes).run m =
      (.error (.imageLoad name "truncated header (missing origin word)"), m)) ∧
    (∀ name bytes, 2 ≤ bytes.length → ∃ origin memory,
      let n := bytes.length / 2 - 1
      let s := min n (65536 - origin.toNat)
      wordAt? bytes 0 = some origin ∧
      (loadImage name bytes).run m = (.ok (origin, s), { m with
        memory
        console := { m.console with
          journal := m.console.journal.recordAll (loadNotices name bytes origin) } }) ∧
      (∀ count, .wordsDropped name count ∈ loadNotices name bytes origin ↔
        s < n ∧ count = n - s) ∧
      (∀ a, memory.peek a = (placed? bytes a).getD (m.memory.peek a)) ∧
      (∀ a, (placed? bytes a).isSome = true ↔
        origin.toNat ≤ a.toNat ∧ a.toNat < origin.toNat + s) ∧
      ∀ a b, bytes.length % 2 = 0 → placed? (bytes ++ [b]) a = placed? bytes a) ∧
    (∀ origin words,
      m.memory.load origin (words.take (65536 - origin.toNat)) = m.memory.load origin words ∧
      Memory.copied origin.toNat (words.take (65536 - origin.toNat)) =
        Memory.copied origin.toNat words ∧
      Memory.copied origin.toNat words = min words.length (65536 - origin.toNat)) ∧
    ∀ images, ∃ memory journal, m.afterLoading images =
        { m with memory, console := { m.console with journal } } ∧
      ∀ a, memory.peek a =
        (images.reverse.findSome? fun image => placed? image.2 a).getD (m.memory.peek a) := by
  refine ⟨fun name bytes h => run_loadImage_of_short h name m, fun name bytes h => ?_,
    fun origin words => ⟨m.memory.load_take origin words, ?_, Memory.copied_eq_room origin words⟩,
    fun images => m.afterLoading_effect images⟩
  · obtain ⟨high, low, rest, rfl⟩ : ∃ high low rest, bytes = high :: low :: rest := by
      rcases bytes with _ | ⟨high, _ | ⟨low, rest⟩⟩
      · cases h
      · simp only [List.length_singleton] at h
        omega
      · exact ⟨high, low, rest, rfl⟩
    exact ⟨joinBytes high low, _, rfl, run_loadImage name high low rest m,
      fun count => wordsDropped_mem_loadNotices, Image.peek_load m.memory high low rest,
      isSome_placed? high low rest, fun a b heven => placed?_append heven b a⟩
  · rw [Memory.copied_eq_room, Memory.copied_eq_room, List.length_take]
    unfold Memory.room Memory.size
    omega

/-- A machine with a key to come. -/
def waitingForImages : Machine ScriptedTerminal := powerOn { terminal := { keys := [0x41] } }

/-- A later image replaces a word of an earlier one, next to the keyboard status register; what
is too short, and the odd byte, change nothing. -/
theorem loading_of_overlapping :
    let m := waitingForImages.afterLoading
      [("first", [0xFE, 0x00, 0x12, 0x34, 0x56, 0x78]), ("short", [0xFE]),
        ("second", [0xFE, 0x01, 0x9A, 0xBC, 0xDE])]
    m.memory.peek 0xFE00 = 0x1234 ∧ m.memory.peek 0xFE01 = 0x9ABC ∧ m.memory.peek 0xFE02 = 0 ∧
      m.console.terminal.keys = [0x41] ∧
      ((loadImage "short" [0xFE]).run waitingForImages).1 =
        .error (.imageLoad "short" "truncated header (missing origin word)") ∧
      ((loadImage "top" [0xFF, 0xFF, 0, 1, 0, 2, 3]).run waitingForImages).1 = .ok (0xFFFF, 1) ∧
      placed? ([0xFF, 0xFF, 0, 1, 0, 2] ++ [3]) 0xFFFF = some 1 := by
  obtain ⟨hshort, hfull, -, hall⟩ := loading_last_wins waitingForImages
  obtain ⟨memory, journal, heq, hmemory⟩ := hall
    [("first", [0xFE, 0x00, 0x12, 0x34, 0x56, 0x78]), ("short", [0xFE]),
      ("second", [0xFE, 0x01, 0x9A, 0xBC, 0xDE])]
  obtain ⟨origin, _, horigin, hrun, -⟩ := hfull "top" [0xFF, 0xFF, 0, 1, 0, 2, 3] (by decide)
  obtain ⟨_, _, -, -, -, -, -, hodd⟩ := hfull "top" [0xFF, 0xFF, 0, 1, 0, 2] (by decide)
  cases horigin
  rw [heq]
  refine ⟨?_, ?_, ?_, rfl, ?_, ?_, (hodd 0xFFFF 3 (by decide)).trans (by decide)⟩
  · exact (hmemory 0xFE00).trans (by decide)
  · exact (hmemory 0xFE01).trans (by decide)
  · refine (hmemory 0xFE02).trans ?_
    have hnone : waitingForImages.memory.peek 0xFE02 = 0 := Memory.peek_cleared 0xFE02
    rw [hnone]
    decide
  · rw [hshort "short" [0xFE] (by decide)]
  · rw [hrun]
    rfl

end Machine

end LittleComputer
