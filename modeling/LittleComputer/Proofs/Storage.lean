import LittleComputer.Proofs.Loading
import LittleComputer.Proofs.Reference
import LittleComputer.Proofs.Returning
import LittleComputer.Proofs.Session

/-!
# Memory as storage

Memory is read, written, looked into and loaded from outside, with addresses and values that are any
integers. Seen that way every cell holds what was put there last, and two cells have something put
there by a read of one of them: the keyboard status register is computed when it is read, and a key
that is there is put into the data register.

What was put where is a matter of the past, so it is taken down beside the calls: a
`LittleComputer.MemoryEvent` is one thing that happens to memory, and
`LittleComputer.Machine.history` lists those of a sequence of calls. An event puts a word into some
cells (`LittleComputer.MemoryEvent.wordAt`), and that is all it does to them
(`LittleComputer.Memory.peek_undergo`). So the content of a cell is the last word that an event of
the history has put there (`LittleComputer.Memory.peek_foldl_undergo`), and what remains is that
each call makes the events that it is said to make (`LittleComputer.MemoryCall.perform_of_sound`).

Loading has its own way to the cells. That it comes to writing the words one by one, up to the last
cell, is `LittleComputer.Memory.load_eq_foldl`.

The main statement is `LittleComputer.Machine.memory_is_storage`.
-/

namespace LittleComputer

open Memory

/-! ### What a terminal has -/

/-- What a read of the keyboard status register gets from a terminal: the key, if one is there, and
the terminal as it is without the key. -/
def Terminal.inquire {T : Type} [Terminal T] (t : T) : Option Byte × T :=
  match Terminal.poll t with
  | (.ok true, u) =>
    match Terminal.read u with
    | (.ok key, v, _) => (some key, v)
    | (.error _, v, _) => (none, v)
  | (_, u) => (none, u)

/-- On a script a key is there if one is left, and it is the next that is taken. -/
theorem ScriptedTerminal.inquire_eq (t : ScriptedTerminal) :
    Terminal.inquire t = (t.keys.head?, { t with keys := t.keys.tail }) := by
  obtain ⟨_ | ⟨key, rest⟩, shown⟩ := t <;> rfl

/-! ### Events -/

/-- What can happen to memory. -/
inductive MemoryEvent
  /-- A value is stored, by a write or by loading. -/
  | stored (address value : Word)
  /-- A read of the keyboard status register finds a key and takes it. -/
  | latched (key : Byte)
  /-- A read of the keyboard status register finds no key. -/
  | unanswered

namespace MemoryEvent

/-- The word that an event puts into a cell, if it puts one there. -/
def wordAt (a : Word) : MemoryEvent → Option Word
  | stored address value => if address = a then some value else none
  | latched key =>
    if a = keyboardStatus then some keyReady
    else if a = keyboardData then some (wordOfByte key)
    else none
  | unanswered => if a = keyboardStatus then some 0 else none

/-- The last word that some events have put into a cell, and zero if there is none. -/
def lastAt (events : List MemoryEvent) (a : Word) : Word :=
  (events.filterMap (wordAt a)).getLast?.getD 0

end MemoryEvent

namespace Memory

/-- The memory to which an event has happened. -/
def undergo (memory : Memory) : MemoryEvent → Memory
  | .stored address value => memory.write address value
  | .latched key => (memory.write keyboardStatus keyReady).write keyboardData (wordOfByte key)
  | .unanswered => memory.write keyboardStatus 0

/-- **An event changes the cells that it puts a word into, and no other.** -/
theorem peek_undergo (memory : Memory) (e : MemoryEvent) (a : Word) :
    (memory.undergo e).peek a = (e.wordAt a).getD (memory.peek a) := by
  cases e with
  | stored address value =>
    rw [undergo, peek_write, MemoryEvent.wordAt]
    split <;> rfl
  | latched key =>
    rw [undergo, peek_write, peek_write, MemoryEvent.wordAt]
    by_cases hs : a = keyboardStatus
    · rw [hs, if_neg (by decide), if_pos rfl, if_pos rfl]
      rfl
    · rw [if_neg hs, if_neg (Ne.symm hs)]
      by_cases hd : a = keyboardData
      · rw [hd, if_pos rfl, if_pos rfl]
        rfl
      · rw [if_neg hd, if_neg (Ne.symm hd)]
        rfl
  | unanswered =>
    rw [undergo, peek_write, MemoryEvent.wordAt]
    simp only [eq_comm]
    split <;> rfl

/-- **A cell holds the last word that was put there.** -/
theorem peek_foldl_undergo (memory : Memory) (events : List MemoryEvent) (a : Word) :
    (events.foldl undergo memory).peek a =
      (events.filterMap (MemoryEvent.wordAt a)).getLast?.getD (memory.peek a) := by
  induction events generalizing memory with
  | nil => rfl
  | cons e rest ih =>
    rw [List.foldl_cons, ih, peek_undergo, ← List.singleton_append, List.filterMap_append,
      List.getLast?_append, Option.getD_or]
    cases h : e.wordAt a <;> simp [h]

/-- In a memory that was clear, it is the last word or zero. -/
theorem peek_foldl_cleared (events : List MemoryEvent) (a : Word) :
    (events.foldl undergo cleared).peek a = MemoryEvent.lastAt events a := by
  rw [peek_foldl_undergo, peek_cleared, MemoryEvent.lastAt]

/-- The words that find a cell from an origin upwards, each behind its address. -/
def placed (origin : Word) (words : List Int) : List (Int × Int) :=
  ((words.take (size - origin.toNat)).zipIdx origin.toNat).map fun p => (p.2, p.1)

theorem wordOf_natCast (i : Nat) : wordOf (i : Int) = BitVec.ofNat 16 i := BitVec.ofInt_natCast 16 i

/-- **To load words is to write them one by one**, from the origin upwards and up to the last
cell. -/
theorem load_eq_foldl (memory : Memory) (origin : Word) (words : List Int) :
    memory.load origin (words.map wordOf) = ((placed origin words).map fun p =>
      MemoryEvent.stored (wordOf p.1) (wordOf p.2)).foldl undergo memory := by
  rw [load, placed]
  generalize origin.toNat = address
  induction words generalizing memory address with
  | nil => simp [loadFrom]
  | cons w rest ih =>
    rw [List.map_cons, loadFrom]
    split
    · rename_i hlt
      obtain ⟨left, hleft⟩ : ∃ left, size - address = left + 1 :=
        Nat.exists_eq_succ_of_ne_zero (Nat.sub_ne_zero_of_lt hlt)
      have hrest : size - (address + 1) = left := by omega
      rw [ih, hrest, hleft, List.take_succ_cons, List.zipIdx_cons, List.map_cons, List.map_cons,
        List.foldl_cons, wordOf_natCast]
      rfl
    · rename_i hge
      rw [Nat.sub_eq_zero_of_le (Nat.le_of_not_lt hge)]
      rfl

end Memory

/-! ### Calls -/

/-- What is done to a memory from outside. Addresses, origins and values are any integers. -/
inductive MemoryCall (T : Type)
  /-- Read a cell as an instruction does. -/
  | read (address : Int)
  /-- Replace the content of a cell. -/
  | write (address value : Int)
  /-- Look into a cell. -/
  | peek (address : Int)
  /-- Copy words to the cells from an address upwards. -/
  | load (origin : Int) (words : List Int)
  /-- Leave memory alone, while something happens at the terminal. -/
  | elsewhere (terminal : T)

namespace MemoryCall

variable {T : Type} [Terminal T]

/-- A call as an action of a machine. -/
def perform : MemoryCall T → Action T Answer
  | read address => return .word (← Machine.readCell (wordOf address))
  | write address value => do
    Machine.writeCell (wordOf address) (wordOf value)
    return .done
  | peek address => return .word ((← get).memory.peek (wordOf address))
  | load origin words => do
    modify fun m => { m with memory := m.memory.load (wordOf origin) (words.map wordOf) }
    return .loaded (wordOf origin) (Memory.room (wordOf origin) words.length)
  | elsewhere terminal => do
    modify fun m => m.withTerminal terminal
    return .done

/-- What a call makes happen to the memory of a machine. -/
def events (m : Machine T) : MemoryCall T → List MemoryEvent
  | read address =>
    if wordOf address = keyboardStatus then
      [(Terminal.inquire m.console.terminal).1.elim .unanswered .latched]
    else []
  | write address value => [.stored (wordOf address) (wordOf value)]
  | load origin words =>
    (placed (wordOf origin) words).map fun p => .stored (wordOf p.1) (wordOf p.2)
  | peek _ | elsewhere _ => []

omit [Terminal T] in
/-- The writes of some words one by one, from an origin upwards and up to the last cell. -/
def writes (origin : Int) (words : List Int) : List (MemoryCall T) :=
  (placed (wordOf origin) words).map fun p => .write p.1 p.2

end MemoryCall

namespace Machine

variable {T : Type} [Terminal T] {sound : T → Prop} {upcoming : T → Option (Except HostFault Byte)}
  {m : Machine T}

/-- The machine after some calls of its memory. -/
def performAll (m : Machine T) (calls : List (MemoryCall T)) : Machine T :=
  calls.foldl (fun m c => (c.perform.run m).2) m

/-- What some calls make happen to the memory of a machine, one after the other. -/
def history (m : Machine T) : List (MemoryCall T) → List MemoryEvent
  | [] => []
  | c :: rest => c.events m ++ history (c.perform.run m).2 rest

/-- **A read of the keyboard status register** finds out whether a key is there. If one is, it says
so and takes that key into the data register; if none is, it says that. -/
theorem run_readCell_status_of_sound (hT : Dependable T sound upcoming)
    (h : m.console.IsSound sound) :
    ∃ c : Console T, c.IsSound sound ∧ c.terminal = (Terminal.inquire m.console.terminal).2 ∧
      (readCell keyboardStatus).run m =
        (.ok (if (Terminal.inquire m.console.terminal).1.isSome then keyReady else 0), { m with
          memory := m.memory.undergo
            ((Terminal.inquire m.console.terminal).1.elim .unanswered .latched)
          console := c }) := by
  have hpoll := run_poll m
  rcases hT.poll h.terminal with ⟨u, hp, hu⟩ | ⟨u, key, v, hp, hr, hv, -⟩ <;> rw [hp] at hpoll
  · have hinquire : Terminal.inquire m.console.terminal = (none, u) := by
      rw [Terminal.inquire, hp]
    rw [hinquire]
    refine ⟨{ (m.console.strike .poll).2 with terminal := u }, h.strike .poll hu, rfl, ?_⟩
    rw [run_readCell_status_of_ok (run_latchKey_of_none hpoll), peek_write_self]
    rfl
  · have hinquire : Terminal.inquire m.console.terminal = (some key, v) := by
      rw [Terminal.inquire, hp]
      dsimp only
      rw [hr]
    rw [hinquire]
    let ready : Machine T := { m with
      memory := m.memory.write keyboardStatus keyReady
      console := { (m.console.strike .poll).2 with terminal := u } }
    have hpatient : ready.console.IsPatient := h.patient.strike .poll
    have hread : readKey.run ready = (.ok key, { ready with
        console := ready.console.settle v [] }) := by
      have hterminal : Terminal.read ready.console.terminal = (.ok key, v, []) := hr
      rw [run_readKey hpatient.spares_read, hterminal]
    refine ⟨ready.console.settle v [], ⟨hpatient, hv⟩, rfl, ?_⟩
    rw [run_readCell_status_of_ok (run_latchKey_of_key hpoll hread), peek_write,
      if_neg (by decide), peek_write_self]
    rfl

end Machine

namespace MemoryCall

variable {T : Type} [Terminal T] {sound : T → Prop} {upcoming : T → Option (Except HostFault Byte)}
  {m : Machine T}

/-- **What a call does to memory are its events**, and it leaves the console sound. -/
theorem perform_of_sound (hT : Dependable T sound upcoming) (h : m.console.IsSound sound)
    (c : MemoryCall T) (hc : ∀ t, c = .elsewhere t → sound t) :
    (c.perform.run m).2.memory = (c.events m).foldl Memory.undergo m.memory ∧
      (c.perform.run m).2.console.IsSound sound := by
  cases c with
  | read address =>
    rw [perform, run_bind_pure, events]
    by_cases ha : wordOf address = keyboardStatus
    · obtain ⟨c, hsound, -, hrun⟩ := Machine.run_readCell_status_of_sound hT h
      rw [ha, hrun, if_pos rfl]
      exact ⟨rfl, hsound⟩
    · rw [Machine.run_readCell_of_ne ha, if_neg ha]
      exact ⟨rfl, h⟩
  | write address value => exact ⟨rfl, h⟩
  | peek address => exact ⟨rfl, h⟩
  | load origin words => exact ⟨m.memory.load_eq_foldl (wordOf origin) words, h⟩
  | elsewhere terminal => exact ⟨rfl, h.patient, hc terminal rfl⟩

end MemoryCall

namespace Machine

variable {T : Type} [Terminal T] {sound : T → Prop} {upcoming : T → Option (Except HostFault Byte)}

/-- **What some calls do to memory is their history.** -/
theorem memory_performAll (hT : Dependable T sound upcoming) {m : Machine T}
    (h : m.console.IsSound sound) {calls : List (MemoryCall T)}
    (hcalls : ∀ t, .elsewhere t ∈ calls → sound t) :
    (m.performAll calls).memory = (m.history calls).foldl Memory.undergo m.memory ∧
      (m.performAll calls).console.IsSound sound := by
  induction calls generalizing m with
  | nil => exact ⟨rfl, h⟩
  | cons c rest ih =>
    obtain ⟨hmemory, hsound⟩ := c.perform_of_sound hT h fun t ht =>
      hcalls t (ht ▸ List.mem_cons_self)
    obtain ⟨hmemory', hsound'⟩ := ih hsound fun t ht => hcalls t (List.mem_cons_of_mem c ht)
    refine ⟨hmemory'.trans ?_, hsound'⟩
    rw [hmemory, history, List.foldl_append]

/-- To write words one by one does nothing but store them. -/
theorem performAll_writes (m : Machine T) (placement : List (Int × Int)) :
    m.performAll (placement.map fun p => .write p.1 p.2) = { m with
      memory := (placement.map fun p =>
        MemoryEvent.stored (wordOf p.1) (wordOf p.2)).foldl Memory.undergo m.memory } := by
  induction placement generalizing m with
  | nil => rfl
  | cons head rest ih => exact ih _

/-- **A memory as storage** to which some events have happened.

* `peek`: looking into a cell gives the last word that was put there, and has no effect; it does not
  poll, not even at the keyboard status register.
* `read`: reading any cell but that register is the same.
* `status`: reading that register says whether the terminal has a key at this moment, whatever was
  put there. If it has one, just that key is taken, and put into the data register.
* `load`: loading words does what writing them one by one does, from the origin upwards and up to
  the last cell, and says how many found a cell. It has nothing to do with the console. -/
structure IsStorage (events : List MemoryEvent) (m : Machine T) : Prop where
  peek : ∀ a : Int, (MemoryCall.peek a).perform.run m =
    (.ok (.word (MemoryEvent.lastAt events (wordOf a))), m)
  read : ∀ a : Int, wordOf a ≠ keyboardStatus → (MemoryCall.read a).perform.run m =
    (.ok (.word (MemoryEvent.lastAt events (wordOf a))), m)
  status : ∀ a : Int, wordOf a = keyboardStatus → ∃ c : Console T,
    (MemoryCall.read a).perform.run m =
      (.ok (.word (if (Terminal.inquire m.console.terminal).1.isSome then keyReady else 0)),
        { m with
          memory := m.memory.undergo
            ((Terminal.inquire m.console.terminal).1.elim .unanswered .latched)
          console := c }) ∧
      c.terminal = (Terminal.inquire m.console.terminal).2
  load : ∀ (o : Int) (words : List Int), (MemoryCall.load o words).perform.run m =
      (.ok (.loaded (wordOf o) (min words.length (size - (wordOf o).toNat))),
        m.performAll (MemoryCall.writes o words)) ∧
    (m.performAll (MemoryCall.writes o words)).console = m.console

theorem isStorage_of_memory (hT : Dependable T sound upcoming) {m : Machine T}
    (h : m.console.IsSound sound) {events : List MemoryEvent}
    (hmemory : m.memory = events.foldl Memory.undergo Memory.cleared) : m.IsStorage events where
  peek := fun a => by
    rw [← peek_foldl_cleared, ← hmemory]
    rfl
  read := fun a ha => by
    rw [← peek_foldl_cleared, ← hmemory, MemoryCall.perform, run_bind_pure,
      run_readCell_of_ne ha]
    rfl
  status := fun a ha => by
    obtain ⟨c, -, hterminal, hrun⟩ := run_readCell_status_of_sound hT h
    refine ⟨c, ?_, hterminal⟩
    rw [MemoryCall.perform, run_bind_pure, ha, hrun]
    rfl
  load := fun o words => by
    rw [MemoryCall.writes, performAll_writes, ← load_eq_foldl]
    exact ⟨rfl, rfl⟩

/-- **Memory is plain storage with one computed cell.** Let a memory be clear at first, and its
terminal one that can be relied on. After any sequence of reads, writes, looks and loads, with any
integers as addresses, origins and values, and whatever happens at the terminal in between:

* Every cell holds the last word that was put there: by a write or by loading; in the data register
  also by the taking of a key; in the status register also by a read of it. It is zero if there is
  none. Looking into a cell gives this word, and so does reading it, unless it is the status
  register; neither has an effect.
* A read of the status register says that a key is there exactly if the terminal has one at this
  moment, and takes that key, and no other, into the data register; if there is none it is zero.
* Loading words is writing them one by one from the origin upwards, up to the last cell.

Integers become words modulo `2 ^ 16`. On a script a key is there if one is left. -/
theorem memory_is_storage (hT : Dependable T sound upcoming) {m : Machine T}
    (hclear : m.memory = Memory.cleared) (h : m.console.IsSound sound)
    (calls : List (MemoryCall T)) (hcalls : ∀ t, .elsewhere t ∈ calls → sound t) :
    (m.performAll calls).IsStorage (m.history calls) ∧
      (∀ x : Int, ((wordOf x).toNat : Int) = x % 65536) ∧
      ∀ t : ScriptedTerminal,
        Terminal.inquire t = (t.keys.head?, { t with keys := t.keys.tail }) := by
  obtain ⟨hmemory, hsound⟩ := memory_performAll hT h hcalls
  rw [hclear] at hmemory
  exact ⟨isStorage_of_memory hT hsound hmemory, value_wordOf,
    ScriptedTerminal.inquire_eq⟩

/-- A write to the status register, words loaded to the last cell and beyond, a write to the data
register, and a read of the status register, under addresses that are not all words. -/
def wrappingCalls : List (MemoryCall ScriptedTerminal) :=
  [.write (-512) 3, .load 0xFFFF [65537, 2], .write 0xFE02 5, .read 0x1FE00]

/-- Of the words loaded the first is in the last cell, and the second in none; the key is in the
data register, and the status register says so until it is read again. -/
theorem storage_of_wrappingCalls :
    ∃ n : Machine ScriptedTerminal,
      n = (cleared { terminal := { keys := [0x41] } }).performAll wrappingCalls ∧
      (MemoryCall.peek (-1)).perform.run n = (.ok (.word 1), n) ∧
      (MemoryCall.read 0x10000).perform.run n = (.ok (.word 0), n) ∧
      (MemoryCall.peek 0xFE02).perform.run n = (.ok (.word 0x41), n) ∧
      (MemoryCall.peek 0xFE00).perform.run n = (.ok (.word 0x8000), n) ∧
      ((MemoryCall.read 0xFE00).perform.run n).1 = .ok (.word 0) := by
  obtain ⟨hstorage, -, -⟩ := memory_is_storage ScriptedTerminal.dependable
    (m := cleared { terminal := { keys := [0x41] } }) rfl ⟨Bool.noConfusion, trivial⟩
    wrappingCalls fun _ _ => trivial
  obtain ⟨c, hstatus, -⟩ := hstorage.status 0xFE00 (by decide)
  refine ⟨_, rfl, hstorage.peek (-1), hstorage.read 0x10000 (by decide), hstorage.peek 0xFE02,
    hstorage.peek 0xFE00, congrArg Prod.fst hstatus⟩

end Machine

end LittleComputer
