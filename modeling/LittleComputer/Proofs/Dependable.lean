import LittleComputer.Proofs.Reading
import LittleComputer.Terminal.Host
import LittleComputer.Terminal.Scripted

/-!
# What a machine relies on in its terminal

A read of a cell must not fail and must not wait, and yet it can be one of the keyboard
status register, which polls for a key and then takes it. That this goes well is a matter of
the terminal: a poll answers, and after a poll that has found a key the key can be taken at
once. `LittleComputer.Dependable` says so, and with it what a read of the terminal will
answer, `upcoming`, which nothing but a poll or a read changes.

A script is dependable (`LittleComputer.ScriptedTerminal.dependable`), and so is the terminal
of a host as long as its input can be reached (`LittleComputer.HostTerminal.dependable`). It is
so because a poll that finds a key holds it back.

The number of keys that can still be taken goes down with each key that is taken this way. On
the host that hangs on what happens to bytes that wait for room in a line: as many are
forgotten at least as are typed (`LittleComputer.Line.volume_take`).
-/

namespace LittleComputer

/-- What a read answers when this is upcoming: a key, or the reason why there will be none. Where
nothing is, the wait for a key goes on. -/
def answerOf : Option (Except HostFault Byte) → Except Failure Byte
  | some answer => answer.mapError .hostIO
  | none => .error (.wait .goesOn)

/-- **What can be relied on** in a terminal that is sound.

* A poll answers. If it finds a key, a read that follows returns it and leaves no notices,
  and there are fewer keys afterwards.
* A read answers what is upcoming.
* To show bytes and to pass them on does not change what is upcoming, nor the number of keys.
-/
structure Dependable (T : Type) [Terminal T] (sound : T → Prop)
    (upcoming : T → Option (Except HostFault Byte)) : Prop where
  poll : ∀ {t : T}, sound t →
    (∃ u, Terminal.poll t = (.ok false, u) ∧ sound u) ∨
    ∃ u key v, Terminal.poll t = (.ok true, u) ∧ Terminal.read u = (.ok key, v, []) ∧ sound v ∧
      Terminal.keysLeft v < Terminal.keysLeft t
  read : ∀ {t : T}, sound t →
    (Terminal.read t).1 = answerOf (upcoming t) ∧ sound (Terminal.read t).2.1
  write : ∀ {t : T} (b : Byte), sound t → sound (Terminal.write t b) ∧
    upcoming (Terminal.write t b) = upcoming t ∧
    Terminal.keysLeft (Terminal.write t b) = Terminal.keysLeft t
  flush : ∀ {t : T}, sound t → sound (Terminal.flush t).1 ∧
    upcoming (Terminal.flush t).1 = upcoming t

/-! ### Scripts -/

namespace ScriptedTerminal

/-- What a read will answer: the next key of the script. -/
def upcoming (t : ScriptedTerminal) : Option (Except HostFault Byte) :=
  match t.keys with
  | [] => some (.error .inputExhausted)
  | key :: _ => some (.ok key)

/-- A script keeps no read waiting. -/
theorem upcoming_ne_none (t : ScriptedTerminal) : t.upcoming ≠ none := by
  unfold upcoming
  split <;> exact Option.some_ne_none _

/-- **A script is dependable.** -/
theorem dependable : Dependable ScriptedTerminal (fun _ => True) upcoming where
  poll := by
    rintro ⟨_ | ⟨key, rest⟩, shown⟩ -
    · exact Or.inl ⟨_, rfl, trivial⟩
    · exact Or.inr ⟨_, key, ⟨rest, shown⟩, rfl, rfl, trivial, Nat.lt_succ_self rest.length⟩
  read := by
    rintro ⟨_ | ⟨key, rest⟩, shown⟩ - <;> exact ⟨rfl, trivial⟩
  write := fun _ _ => ⟨trivial, rfl, rfl⟩
  flush := fun _ => ⟨trivial, rfl⟩

end ScriptedTerminal

/-! ### Typed lines -/

namespace Line

variable {l l' : Line} {m : InputModes}

/-- How much of a line can still be read, at most. -/
def volume (l : Line) : Nat := l.size + l.waiting.length

theorem size_put (m : InputModes) (l : Line) (b : Byte) : (l.put m b).size = l.size + 1 := by
  unfold put
  split
  · simp only [size, List.length_cons]
    omega
  · simp only [size, List.length_append, List.length_singleton]
    omega

/-- A byte that is typed takes one place at most. -/
theorem size_type_le (m : InputModes) (l : Line) (b : Byte) : (l.type m b).size ≤ l.size + 1 := by
  unfold type
  split
  · exact Nat.le_of_eq (size_put m _ b)
  · cases m.stroke b with
    | plain b => exact Nat.le_of_eq (size_put m l b)
    | completes b =>
      simp only [complete, size, List.length_append, List.length_map, List.length_reverse,
        List.length_singleton, List.length_nil]
      omega
    | erases =>
      simp only [size, List.length_tail]
      omega
    | erasesWord =>
      have h₁ := (l.draft.dropWhile_sublist fun b => !isWordByte b).length_le
      have h₂ := ((l.draft.dropWhile fun b => !isWordByte b).dropWhile_sublist
        isWordByte).length_le
      simp only [size]
      omega
    | erasesLine =>
      simp only [size, List.length_nil]
      omega
    | quotes => exact Nat.le_succ l.size
    | discards =>
      simp only [size, List.length_nil]
      omega
    | nothing => exact Nat.le_succ l.size

theorem size_accept_le {b : Byte} (h : l.accept m b = some l') : l'.size ≤ l.size + 1 := by
  have htype := size_type_le m l b
  unfold accept at h
  split at h
  · cases h
    exact htype
  · split at h
    · dsimp only at h
      split at h
      · cases h
        simp only [size, List.length_drop] at htype ⊢
        omega
      · cases h
        exact htype
    · cases h

theorem volume_absorb_le (m : InputModes) (l : Line) (bytes : List Byte) :
    (l.absorb m bytes).volume ≤ l.size + bytes.length := by
  -- A byte that is typed moves from those to come to the line; the first without room stays.
  induction bytes generalizing l with
  | nil => exact Nat.le_refl _
  | cons b rest ih =>
    rw [absorb]
    cases h : l.accept m b with
    | none => exact Nat.le_refl _
    | some l' =>
      have hsize := size_accept_le h
      have hrest := ih l'
      simp only [List.length_cons]
      omega

/-- What is taken from what can be read leaves less of it, and what waits as it is. -/
theorem size_takeReady {b : Option Byte} (h : l.takeReady m = some (b, l')) :
    l'.size < l.size ∧ l'.waiting = l.waiting := by
  obtain ⟨ready, draft, quoting, waiting⟩ := l
  cases ready with
  | nil => cases h
  | cons t rest =>
    have hrest : ∀ (kept : List Typed), kept.length ≤ rest.length →
        (⟨kept, draft, quoting, waiting⟩ : Line).size <
          (⟨t :: rest, draft, quoting, waiting⟩ : Line).size := by
      intro kept hkept
      simp only [size, List.length_cons]
      omega
    unfold takeReady at h
    dsimp only at h
    split at h
    · split at h
      · cases h
        exact ⟨hrest rest (Nat.le_refl _), rfl⟩
      · split at h
        · cases h
          exact ⟨hrest rest (Nat.le_refl _), rfl⟩
        · split at h
          · -- A mark behind a part of a line goes with the byte before it.
            rename_i next others
            cases h
            refine ⟨hrest _ ?_, rfl⟩
            split
            · exact Nat.le_succ others.length
            · exact Nat.le_refl _
          · cases h
            exact ⟨hrest [] (Nat.zero_le _), rfl⟩
    · cases h
      exact ⟨hrest rest (Nat.le_refl _), rfl⟩

/-- **With every byte that is taken a line gets smaller.** -/
theorem volume_take {b : Option Byte} (h : l.take m = some (b, l')) : l'.volume < l.volume := by
  obtain ⟨⟨b', l₁⟩, hready, heq⟩ := Option.map_eq_some_iff.mp h
  obtain ⟨hsize, hwaiting⟩ := size_takeReady hready
  obtain ⟨-, rfl⟩ := Prod.mk.inj heq
  -- The room that was made is given to the bytes that wait, which were counted before.
  have habsorb := volume_absorb_le m l₁ (l₁.waiting ++ [])
  rw [List.append_nil, hwaiting] at habsorb
  rw [feed, List.append_nil, hwaiting]
  simp only [volume] at habsorb ⊢
  omega

end Line

/-! ### The terminal of a host -/

theorem Input.available_take {i j : Input} {b : Byte} (h : i.take = some (some b, j)) :
    j.available < i.available := by
  cases i with
  | stream unread ended =>
    cases unread with
    | nil => cases ended <;> cases h
    | cons key rest =>
      cases h
      exact Nat.lt_succ_self rest.length
  | terminal modes line =>
    obtain ⟨⟨b', line'⟩, htake, heq⟩ := Option.map_eq_some_iff.mp h
    cases heq
    exact Line.volume_take htake

/-- To pass on bytes does not touch the input. -/
theorem Host.send_input (h : Host) (room : Nat) (bytes : List Byte) :
    (h.send room bytes).1.input = h.input ∧ (h.send room bytes).1.isOpen = h.isOpen := by
  induction bytes generalizing h room with
  | nil =>
    rw [send]
    exact ⟨rfl, rfl⟩
  | cons b rest ih =>
    cases room with
    | succ room => exact ih { h with delivered := b :: h.delivered } room
    | zero =>
      unfold send
      split
      · rename_i more _
        exact ih { h with delivered := b :: h.delivered, writes := h.writes + 1 } more
      · exact ⟨rfl, rfl⟩

namespace HostTerminal

/-- What a read will answer: the key held back, or else what the input has next. If it has
nothing, neither a key nor its end, the read goes on waiting. -/
def upcoming (t : HostTerminal) : Option (Except HostFault Byte) :=
  match t.pending with
  | some key => some (.ok key)
  | none =>
    if t.ended then some (.error .endOfInput)
    else
      match t.host.input.take with
      | some (some key, _) => some (.ok key)
      | some (none, _) => some (.error .endOfInput)
      | none => none

/-- What two terminals have in common that differ at most in what they have shown. -/
structure SameInput (t u : HostTerminal) : Prop where
  pending : u.pending = t.pending
  ended : u.ended = t.ended
  input : u.host.input = t.host.input
  isOpen : u.host.isOpen = t.host.isOpen

theorem SameInput.upcoming {t u : HostTerminal} (h : SameInput t u) : u.upcoming = t.upcoming := by
  rw [HostTerminal.upcoming, HostTerminal.upcoming, h.pending, h.ended, h.input]

theorem sameInput_write (t : HostTerminal) (b : Byte) : SameInput t (t.write b) := by
  unfold write
  split <;> exact ⟨rfl, rfl, rfl, rfl⟩

theorem sameInput_flush (t : HostTerminal) : SameInput t t.flush.1 := by
  unfold flush
  split
  · exact ⟨rfl, rfl, rfl, rfl⟩
  · obtain ⟨hinput, hopen⟩ := t.host.send_input 0 t.buffer.reverse
    split <;> rename_i heq <;> rw [heq] at hinput hopen <;> exact ⟨rfl, rfl, hinput, hopen⟩

/-- What the input answers is what a read of it was to answer. -/
theorem take_of_open {t : HostTerminal} (hp : t.pending = none) (he : t.ended = false)
    (ho : t.host.isOpen = true) :
    t.take.1 = answerOf t.upcoming ∧ t.take.2.host.isOpen = true := by
  simp only [take, upcoming, hp, he, ho, Bool.not_true, Bool.false_eq_true, if_false]
  rcases t.host.input.take with _ | ⟨_ | b, input⟩
  · exact ⟨rfl, ho⟩
  · exact ⟨rfl, rfl⟩
  · exact ⟨rfl, rfl⟩

/-- A poll that finds a key holds it back. -/
theorem pending_of_poll {t u : HostTerminal} (h : t.poll = (.ok true, u)) :
    ∃ key, u.pending = some key := by
  refine Option.isSome_iff_exists.mp ?_
  unfold poll at h
  split at h
  · cases h
    assumption
  · split at h
    · cases h
    · split at h
      · cases h
      · split at h <;> cases h
        rfl

/-- A poll finds no key, or it finds one that a read then takes. -/
theorem poll_cases {t : HostTerminal} (hopen : t.host.isOpen = true) :
    (∃ u, t.poll = (.ok false, u) ∧ u.host.isOpen = true) ∨
    ∃ u key v, t.poll = (.ok true, u) ∧ u.read = (.ok key, v, []) ∧ v.host.isOpen = true ∧
      Terminal.keysLeft v < Terminal.keysLeft t := by
  rcases hp : t.pending with _ | key
  · cases he : t.ended with
    | true =>
      refine Or.inl ⟨t, ?_, hopen⟩
      rw [poll, hp, he]
      rfl
    | false =>
      rcases hi : t.host.input.take with _ | ⟨_ | key, input⟩
      · refine Or.inl ⟨t, ?_, hopen⟩
        rw [poll, hp, he, hopen, hi]
        rfl
      · refine Or.inl ⟨{ t with ended := true, host := { t.host with input } }, ?_, hopen⟩
        rw [poll, hp, he, hopen, hi]
        rfl
      · -- The key is held back, and the read that follows takes it from there.
        refine Or.inr ⟨{ t with pending := some key, host := { t.host with input } }, key,
          { t with host := { t.host with input } }, ?_, ?_, hopen, ?_⟩
        · rw [poll, hp, he, hopen, hi]
          rfl
        · rw [read, hp]
        · have hless := Input.available_take hi
          change t.pending.toList.length + input.available <
            t.pending.toList.length + t.host.input.available
          exact Nat.add_lt_add_left hless _
  · refine Or.inr ⟨t, key, { t with pending := none }, ?_, ?_, hopen, ?_⟩
    · rw [poll, hp]
      rfl
    · rw [read, hp]
    · change 0 + t.host.input.available < t.pending.toList.length + t.host.input.available
      rw [hp]
      exact Nat.add_lt_add_right Nat.zero_lt_one _

/-- A read answers what was upcoming. -/
theorem read_eq_upcoming {t : HostTerminal} (hopen : t.host.isOpen = true) :
    t.read.1 = answerOf t.upcoming ∧ t.read.2.1.host.isOpen = true := by
  rcases hp : t.pending with _ | key
  · cases he : t.ended with
    | true =>
      have hwaiting : t.waiting = none := by rw [waiting, hp, he]; rfl
      have hupcoming : t.upcoming = some (.error .endOfInput) := by rw [upcoming, hp, he]; rfl
      rw [read, hp, hwaiting, hupcoming]
      exact ⟨rfl, hopen⟩
    | false =>
      -- What is passed on before the read changes nothing of what it will answer.
      have hwaiting : t.waiting = some t.flush := by rw [waiting, hp, he]; rfl
      have hsame := sameInput_flush t
      rw [read, hp, hwaiting, ← hsame.upcoming]
      exact take_of_open (hsame.pending.trans hp) (hsame.ended.trans he)
        (hsame.isOpen.trans hopen)
  · have hupcoming : t.upcoming = some (.ok key) := by rw [upcoming, hp]
    rw [read, hp, hupcoming]
    exact ⟨rfl, hopen⟩

/-- **The terminal of a host is dependable** as long as its input can be reached. -/
theorem dependable : Dependable HostTerminal (fun t => t.host.isOpen = true) upcoming where
  poll := poll_cases
  read := read_eq_upcoming
  write := by
    intro t b hopen
    have hsame := sameInput_write t b
    refine ⟨hsame.isOpen.trans hopen, hsame.upcoming, ?_⟩
    change (t.write b).pending.toList.length + (t.write b).host.input.available = _
    rw [hsame.pending, hsame.input]
    rfl
  flush := by
    intro t hopen
    have hsame := sameInput_flush t
    exact ⟨hsame.isOpen.trans hopen, hsame.upcoming⟩

end HostTerminal

end LittleComputer
