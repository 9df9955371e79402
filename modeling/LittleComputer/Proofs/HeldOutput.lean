import LittleComputer.Proofs.CycleLimit
import LittleComputer.Proofs.OutputStream
import LittleComputer.Proofs.Returning
import LittleComputer.Proofs.Tape

/-!
# No output is held back

What is shown is collected in a buffer, and it is for the services to pass it on. Nothing else
does: not the end of an instruction, nor a failure, nor an interrupt. So it has to be seen of each
way through each service that it comes by a flush after it has shown something.

Actions are told apart by what they do to the tape of a terminal (`LittleComputer.Taped`). Those
that read cells leave the output alone (`LittleComputer.Taped.Unshown`): a poll that finds a key is
followed by a read that does not wait. Those that show something do not wait either
(`LittleComputer.Taped.SameWaits`), and if everything is passed on afterwards, nothing is held back.
A read passes everything on before it waits, so it holds nothing back however it ends. Each service
is made up of such actions, and holds nothing back (`LittleComputer.Machine.settles_serve`); the two
that ask for a key wait for it, if there is none, with everything shown by then passed on
(`LittleComputer.Machine.waits_serve`).

There is one way in which an instruction can end elsewhere, and it takes an input that has been
closed under the terminal: a string can run across the keyboard status register, and then the poll
there fails. The main statement has this case apart; with an input that is open nothing of the kind
happens.

What is true while a read waits is a matter of the terminal alone: a wait begins with a flush, and
the tape accounts for what was delivered by then (`LittleComputer.Taped.Accounts`).

The main statement is `LittleComputer.Processor.no_output_is_held_back`.
-/

namespace LittleComputer

open Memory

/-! ### What the tape accounts for -/

namespace HostTerminal

theorem isOpen_poll (t : HostTerminal) : t.poll.2.host.isOpen = t.host.isOpen := by
  unfold poll
  repeat' split
  all_goals rfl

end HostTerminal

namespace Taped

/-- **The account of a tape**: what has become of the bytes shown since it was put in; and when a
read waited, nothing shown by then was in the buffer any more. -/
structure Accounts (before : List Byte) (t : Taped HostTerminal) : Prop where
  conveys : t.terminal.Conveys (before ++ t.shown)
  waits : ∀ w ∈ t.waits, w.terminal.buffer = [] ∧ w.terminal.Conveys (before ++ w.shown)

variable {before : List Byte} {t t' t'' : Taped HostTerminal}

/-- **A wait begins with a flush**, so it finds everything passed on. -/
theorem Accounts.waited (h : Accounts before t) : Accounts before t.waited := by
  rcases t.terminal.waiting_cases with hw | hw
  · rw [waited_of_none hw]
    exact h
  · rw [waited_of_some hw]
    refine ⟨h.conveys, fun w hmem => ?_⟩
    rcases List.mem_cons.mp hmem with rfl | hmem
    · exact ⟨t.terminal.buffer_flush, h.conveys.flush⟩
    · exact h.waits w hmem

/-- The terminal as it waits: the wait is on the tape, and everything is passed on. -/
theorem eq_of_waiting {u : Taped HostTerminal} {ns : List Notice}
    (h : Terminal.waiting t = some (u, ns)) :
    u = { t.waited with terminal := t.terminal.flush.1 } := by
  change (t.terminal.waiting).map _ = _ at h
  rcases t.terminal.waiting_cases with hw | hw <;> rw [hw] at h <;> cases h
  rfl

theorem shown_waited (t : Taped HostTerminal) : t.waited.shown = t.shown := by
  unfold waited
  split <;> rfl

theorem isKept_accounts (before : List Byte) : IsKept (Accounts before) where
  poll := fun {t} h => ⟨h.conveys.of_sameOutput t.terminal.sameOutput_poll, h.waits⟩
  waiting := by
    intro t u ns h hu
    rw [eq_of_waiting hu]
    refine ⟨?_, h.waited.waits⟩
    dsimp only
    rw [shown_waited]
    exact h.conveys.flush
  read := by
    intro t h
    refine ⟨?_, h.waited.waits⟩
    change t.terminal.read.2.1.Conveys (before ++ t.waited.shown)
    rw [shown_waited]
    rcases t.terminal.read_cases with ⟨-, hsame, -⟩ | ⟨-, hread⟩
    · exact h.conveys.of_sameOutput hsame
    · rw [hread]
      exact h.conveys.flush.of_sameOutput t.terminal.flush.1.sameOutput_take
  write := by
    intro t h b
    refine ⟨?_, h.waits⟩
    change (t.terminal.write b).Conveys (before ++ (t.shown ++ [b]))
    rw [← List.append_assoc]
    exact h.conveys.write b
  flush := fun h => ⟨h.conveys.flush, h.waits⟩

/-- **An input stays open.** -/
theorem isKept_isOpen :
    IsKept fun t : Taped HostTerminal => t.terminal.host.isOpen = true where
  poll := fun {t} h => (HostTerminal.isOpen_poll t.terminal).trans h
  waiting := by
    intro t u ns h hu
    rw [eq_of_waiting hu]
    exact (HostTerminal.sameInput_flush t.terminal).isOpen.trans h
  read := fun h => (HostTerminal.read_eq_upcoming h).2
  write := fun {t} h b => (HostTerminal.sameInput_write t.terminal b).isOpen.trans h
  flush := fun {t} h => (HostTerminal.sameInput_flush t.terminal).isOpen.trans h

/-! ### What an action does to the tape -/

/-- Nothing is shown, nothing passed on, and no read waits. -/
structure Unshown (t t' : Taped HostTerminal) : Prop where
  waits : t'.waits = t.waits
  output : HostTerminal.SameOutput t.terminal t'.terminal

/-- No read waits. -/
def SameWaits (t t' : Taped HostTerminal) : Prop := t'.waits = t.waits

theorem Unshown.refl (t : Taped HostTerminal) : Unshown t t := ⟨rfl, .refl _⟩

theorem Unshown.trans (h : Unshown t t') (h' : Unshown t' t'') : Unshown t t'' :=
  ⟨h'.waits.trans h.waits, h.output.trans h'.output⟩

end Taped

namespace Machine

variable {α β : Type} {m : Machine (Taped HostTerminal)}

/-- A failure that comes of an input that was closed. -/
def ClosedInput (f : Failure) (m : Machine (Taped HostTerminal)) : Prop :=
  f = .misuse .inputClosed ∧ m.console.terminal.terminal.host.isOpen = false

/-- An action that does to the tape what `P` allows, and fails only if the input is closed. -/
def Within (P : Taped HostTerminal → Taped HostTerminal → Prop)
    (a : Action (Taped HostTerminal) α) : Prop :=
  ∀ m, P m.console.terminal (a.run m).2.console.terminal ∧
    ∀ f, (a.run m).1 = .error f → ClosedInput f (a.run m).2

section Within

variable {P Q : Taped HostTerminal → Taped HostTerminal → Prop}
  {a : Action (Taped HostTerminal) α}

theorem Within.aside (hrefl : ∀ t, P t t) (ha : Aside a) : Within P a := by
  intro m
  obtain ⟨x, m', hrun, hsame⟩ := ha m
  rw [hrun]
  dsimp only
  rw [hsame]
  exact ⟨hrefl _, fun f hf => nomatch hf⟩

theorem Within.bind (htrans : ∀ t t' t'', P t t' → P t' t'' → P t t'')
    {f : α → Action (Taped HostTerminal) β} (ha : Within P a) (hf : ∀ x, Within P (f x)) :
    Within P (a >>= f) := by
  intro m
  obtain ⟨hP, hfails⟩ := ha m
  rcases hrun : a.run m with ⟨e | x, m₁⟩ <;> rw [hrun] at hP hfails
  · rw [run_bind_of_error hrun]
    refine ⟨hP, ?_⟩
    rintro _ ⟨⟩
    exact hfails e rfl
  · rw [run_bind_of_ok hrun]
    exact ⟨htrans _ _ _ hP (hf x m₁).1, (hf x m₁).2⟩

theorem Within.mono (hPQ : ∀ {t t'}, P t t' → Q t t') (ha : Within P a) : Within Q a :=
  fun m => ⟨hPQ (ha m).1, (ha m).2⟩

end Within

/-- A poll fails only if the input is closed. -/
theorem poll_fails {t u : HostTerminal} {f : Failure} (h : t.poll = (.error f, u)) :
    f = .misuse .inputClosed ∧ u.host.isOpen = false := by
  unfold HostTerminal.poll at h
  split at h
  · cases h
  · split at h
    · cases h
    · split at h
      · rename_i hclosed
        cases h
        exact ⟨rfl, by rwa [Bool.not_eq_true'] at hclosed⟩
      · split at h <;> cases h

/-- A key that is held back is taken without a wait, and nothing is passed on. -/
theorem readKey_of_pending {key : Byte} (h : m.console.terminal.terminal.pending = some key) :
    (readKey.run m).1 = .ok key ∧
      Taped.Unshown m.console.terminal (readKey.run m).2.console.terminal := by
  have hwaiting : m.console.terminal.terminal.waiting = none := by
    rw [HostTerminal.waiting, h]
    rfl
  have hread : m.console.terminal.terminal.read =
      (.ok key, { m.console.terminal.terminal with pending := none }, []) := by
    rw [HostTerminal.read, h]
  have hwaiting' : Terminal.waiting m.console.terminal = none := congrArg (Option.map _) hwaiting
  have hread' : Terminal.read m.console.terminal = (.ok key, { m.console.terminal with
      terminal := { m.console.terminal.terminal with pending := none } }, []) := by
    change (m.console.terminal.terminal.read.1,
      { m.console.terminal.waited with terminal := m.console.terminal.terminal.read.2.1 },
      m.console.terminal.terminal.read.2.2) = _
    rw [Taped.waited_of_none hwaiting, hread]
  change m.console.read.1 = .ok key ∧ Taped.Unshown _ m.console.read.2.terminal
  rw [Console.read_of_not_waiting hwaiting', hread']
  exact ⟨rfl, rfl, rfl, rfl, rfl, rfl, rfl⟩

/-- **A read of a cell shows nothing and does not wait.** -/
theorem within_readCell (address : Word) : Within Taped.Unshown (readCell address) := by
  intro m
  by_cases ha : address = keyboardStatus
  · subst ha
    have hpoll := run_poll m
    have hsame := m.console.terminal.terminal.sameOutput_poll
    rcases hp : m.console.terminal.terminal.poll with ⟨a, u⟩
    have hp' : Terminal.poll m.console.terminal =
        (a, { m.console.terminal with terminal := u }) :=
      congrArg (fun r => (r.1, { m.console.terminal with terminal := r.2 })) hp
    rw [hp] at hsame
    rw [hp'] at hpoll
    dsimp only at hsame hpoll
    rcases a with f | _ | _
    · rw [run_readCell_status_of_error (run_bind_of_error hpoll _)]
      refine ⟨⟨rfl, hsame⟩, ?_⟩
      rintro _ ⟨⟩
      exact poll_fails hp
    · rw [run_readCell_status_of_ok (run_latchKey_of_none hpoll)]
      exact ⟨⟨rfl, hsame⟩, fun f hf => nomatch hf⟩
    · -- The key is held back, so the read that follows is answered at once.
      obtain ⟨key, hpending⟩ := HostTerminal.pending_of_poll hp
      let ready : Machine (Taped HostTerminal) := { m with
        memory := m.memory.write keyboardStatus keyReady
        console := { (m.console.strike .poll).2 with
          terminal := { m.console.terminal with terminal := u } } }
      obtain ⟨hanswer, hread⟩ := readKey_of_pending (m := ready) hpending
      have hrun : readKey.run ready = (.ok key, (readKey.run ready).2) := Prod.ext hanswer rfl
      have hpolled : Taped.Unshown m.console.terminal ready.console.terminal := ⟨rfl, hsame⟩
      rw [run_readCell_status_of_ok (run_latchKey_of_key hpoll hrun)]
      exact ⟨hpolled.trans hread, fun f hf => nomatch hf⟩
  · rw [run_readCell_of_ne ha]
    exact ⟨.refl _, fun f hf => nomatch hf⟩

/-- **What reads cells and calls no service** shows nothing and does not wait. -/
theorem closedUnderReading_within :
    ClosedUnderReading (T := Taped HostTerminal) fun _ => Within Taped.Unshown where
  aside := Within.aside Taped.Unshown.refl
  readCell := within_readCell
  bind := fun ha hf => ha.bind (fun _ _ _ h h' => h.trans h') hf

/-! ### Showing -/

theorem sameWaits_trans (t t' t'' : Taped HostTerminal) (h : Taped.SameWaits t t')
    (h' : Taped.SameWaits t' t'') : Taped.SameWaits t t'' := h'.trans h

/-- **To show something is not to wait.** -/
theorem closedUnderShowing_within : ClosedUnderShowing (Within Taped.SameWaits) where
  pure := .aside (fun _ => rfl) fun m => ⟨(), m, rfl, rfl⟩
  bind := fun ha hb => ha.bind sameWaits_trans fun _ => hb
  showByte := by
    intro b m
    refine ⟨?_, fun f hf => nomatch hf⟩
    change Taped.SameWaits m.console.terminal (m.console.write b).terminal
    rw [m.console.write_eq]
    rfl
  flush := fun _ => ⟨rfl, fun _ hf => nomatch hf⟩

/-- **To read a cell is not to wait** either. -/
theorem closedUnderReading_sameWaits :
    ClosedUnderReading (T := Taped HostTerminal) fun _ => Within Taped.SameWaits where
  aside := Within.aside fun _ => rfl
  readCell := fun address => (within_readCell address).mono fun h => h.waits
  bind := fun ha hf => ha.bind sameWaits_trans hf

/-! ### Holding nothing back -/

/-- An action that holds nothing back if nothing was held back before, unless it fails because the
input is closed. -/
def Settles (a : Action (Taped HostTerminal) α) : Prop :=
  ∀ m, m.console.terminal.terminal.buffer = [] →
    (a.run m).2.console.terminal.terminal.buffer = [] ∨
      ∃ f, (a.run m).1 = .error f ∧ ClosedInput f (a.run m).2

section Settles

variable {P : Taped HostTerminal → Taped HostTerminal → Prop} {a : Action (Taped HostTerminal) α}

theorem Settles.bind {f : α → Action (Taped HostTerminal) β} (ha : Settles a)
    (hf : ∀ x, Settles (f x)) : Settles (a >>= f) := by
  intro m hm
  have hsettled := ha m hm
  rcases hrun : a.run m with ⟨e | x, m₁⟩ <;> rw [hrun] at hsettled
  · rw [run_bind_of_error hrun]
    rcases hsettled with hempty | ⟨_, ⟨⟩, hclosed⟩
    · exact Or.inl hempty
    · exact Or.inr ⟨e, rfl, hclosed⟩
  · rw [run_bind_of_ok hrun]
    rcases hsettled with hempty | ⟨_, ⟨⟩, -⟩
    exact hf x m₁ hempty

theorem Within.settles (ha : Within Taped.Unshown a) : Settles a :=
  fun m hm => Or.inl ((ha m).1.output.buffer.trans hm)

/-- **What is shown and then passed on is not held back.** -/
theorem Within.settles_flush (ha : Within P a) : Settles (a >>= fun _ => flush) := by
  intro m hm
  rcases hrun : a.run m with ⟨f | _, m₁⟩
  · rw [run_bind_of_error hrun]
    have hfails := (ha m).2 f
    rw [hrun] at hfails
    exact Or.inr ⟨f, rfl, hfails rfl⟩
  · rw [run_bind_of_ok hrun]
    exact Or.inl (HostTerminal.buffer_flush _)

end Settles

/-- **What a read does to the tape**: it is answered at once and passes on nothing; or everything is
passed on, and it waits. -/
theorem readKey_tape (m : Machine (Taped HostTerminal)) :
    let t := m.console.terminal
    let t' := (readKey.run m).2.console.terminal
    (t.terminal.waiting = none ∧ t'.waits = t.waits ∧
      HostTerminal.SameOutput t.terminal t'.terminal) ∨
    t.terminal.waiting = some t.terminal.flush ∧
      t'.waits = ⟨t.terminal.flush.1, t.shown⟩ :: t.waits ∧
      HostTerminal.SameOutput t.terminal.flush.1 t'.terminal := by
  intro t t'
  have hread : Terminal.read t =
      (t.terminal.read.1, { t.waited with terminal := t.terminal.read.2.1 },
        t.terminal.read.2.2) := rfl
  have ht' : t' = m.console.read.2.terminal := rfl
  rcases t.terminal.read_cases with ⟨hw, hsame, -⟩ | ⟨hw, htaken⟩
  · have hnone : Terminal.waiting t = none := congrArg (Option.map _) hw
    rw [ht', Console.read_of_not_waiting hnone, hread, Taped.waited_of_none hw]
    exact Or.inl ⟨hw, rfl, hsame⟩
  · refine Or.inr ⟨hw, ?_⟩
    have hwaiting : Terminal.waiting t =
        some ({ t.waited with terminal := t.terminal.flush.1 }, t.terminal.flush.2) :=
      congrArg (Option.map _) hw
    have hterminal := m.console.strike_terminal .read
    rw [ht', Console.read]
    rcases hs : m.console.strike .read with ⟨struck, c⟩
    rw [hs] at hterminal
    dsimp only at hterminal ⊢
    rw [hterminal, show Terminal.waiting m.console.terminal = _ from hwaiting,
      show Terminal.read m.console.terminal = _ from hread, Taped.waited_of_some hw, htaken]
    -- Whether the wait is abandoned or not, it has begun.
    cases struck with
    | true => exact ⟨rfl, .refl _⟩
    | false => exact ⟨rfl, HostTerminal.sameOutput_take _⟩

/-- **A read holds nothing back**, however it ends. -/
theorem settles_readKey : Settles readKey := by
  intro m hm
  rcases readKey_tape m with ⟨-, -, hsame⟩ | ⟨-, -, hsame⟩
  · exact Or.inl (hsame.buffer.trans hm)
  · exact Or.inl (hsame.buffer.trans (HostTerminal.buffer_flush _))

theorem settles_receiveKey (key : Byte) : Settles (receiveKey key) :=
  (Within.aside Taped.Unshown.refl (silent_assign 0 (wordOfByte key)).aside).settles

theorem settles_note (n : Notice) : Settles (note n) := fun _ hm => Or.inl hm

/-! ### Services -/

/-- **A service holds nothing back.** -/
theorem settles_serve (s : Service) : Settles (serve s) := by
  have hreading := closedUnderReading_sameWaits
  have hshowing := closedUnderShowing_within
  cases s with
  | getc => exact settles_readKey.bind settles_receiveKey
  | out =>
    have hread := Within.aside Taped.Unshown.refl (aside_readSlot (.general 0))
    exact hread.settles.bind fun w => (hshowing.showByte (lowByte w)).settles_flush
  | puts =>
    intro m
    rw [run_serve_puts]
    exact (hreading.showString hshowing.showByte _ _).settles_flush m
  | input =>
    rw [serve_input_eq]
    refine (hshowing.showText Service.prompt).settles_flush.bind fun _ => ?_
    refine settles_readKey.bind fun key => ?_
    exact (hshowing.showByte key).settles_flush.bind fun _ => settles_receiveKey key
  | putsp =>
    intro m
    rw [run_serve_putsp]
    exact (hreading.showPacked hshowing.showByte _ _).settles_flush m
  | halt =>
    intro m _
    obtain ⟨c, hflushed, -⟩ := run_showText_flush Service.farewell m
    rw [run_serve_halt hflushed]
    exact Or.inl (HostTerminal.buffer_flush _)

/-- **A service that asks for no key does not wait.** -/
theorem within_serve {s : Service} (hs : ¬s.IsAsking) : Within Taped.SameWaits (serve s) :=
  closedUnderReading_sameWaits.serve closedUnderShowing_within
    (fun _ _ => ⟨rfl, fun _ hf => nomatch hf⟩) hs

/-- What a service shows before it asks for a key. -/
def announcement : Service → List Byte
  | .input => bytesOfText Service.prompt
  | _ => []

/-- What an action does to the tape that shows some bytes and then waits, if there is no key. -/
def WaitsAfter (bytes : List Byte) (t t' : Taped HostTerminal) : Prop :=
  if t.terminal.waiting.isSome then ∃ u, t'.waits = ⟨u, t.shown ++ bytes⟩ :: t.waits
  else t'.waits = t.waits

/-- A read waits if there is no key, and what follows does not. -/
theorem waits_readKey {f : Byte → Action (Taped HostTerminal) α}
    (hf : ∀ key, Within Taped.SameWaits (f key)) (m : Machine (Taped HostTerminal)) :
    WaitsAfter [] m.console.terminal ((readKey >>= f).run m).2.console.terminal := by
  have hwaits : ((readKey >>= f).run m).2.console.terminal.waits =
      (readKey.run m).2.console.terminal.waits := by
    rcases hrun : readKey.run m with ⟨e | key, m₁⟩
    · rw [run_bind_of_error hrun]
    · rw [run_bind_of_ok hrun]
      exact (hf key m₁).1
  unfold WaitsAfter
  rw [hwaits, List.append_nil]
  rcases readKey_tape m with ⟨hnone, hread, -⟩ | ⟨hsome, hread, -⟩
  · rw [hnone]
    exact hread
  · rw [hsome]
    exact ⟨_, hread⟩

/-- **A service that asks for a key waits for it**, if there is none, once it has shown what it
shows first. -/
theorem waits_serve {s : Service} (hs : s.IsAsking) (m : Machine (Taped HostTerminal)) :
    WaitsAfter (announcement s) m.console.terminal ((serve s).run m).2.console.terminal := by
  have hshowing := closedUnderShowing_within
  have hreceive : ∀ key, Within Taped.SameWaits (receiveKey key) := fun key =>
    .aside (fun _ => rfl) (silent_assign 0 (wordOfByte key)).aside
  cases s with
  | getc => exact waits_readKey hreceive m
  | input =>
    obtain ⟨c, hflushed, hterminal⟩ := run_showText_flush Service.prompt m
    let m₁ : Machine (Taped HostTerminal) := { m with console := c.flush }
    have hafter := waits_readKey (fun key =>
      (hshowing.bind (hshowing.showByte key) hshowing.flush).bind sameWaits_trans fun _ =>
        hreceive key) m₁
    rw [serve_input_eq, run_bind_of_ok hflushed]
    have hprompted : m₁.console.terminal = { m.console.terminal with
        terminal := ((bytesOfText Service.prompt).foldl HostTerminal.write
          m.console.terminal.terminal).flush.1
        shown := m.console.terminal.shown ++ bytesOfText Service.prompt } := by
      change (Terminal.flush c.terminal).1 = _
      rw [hterminal, Taped.foldl_write]
      rfl
    -- Neither the prompt nor its delivery has anything to do with the keys.
    have hinput := (HostTerminal.sameButOutput_foldl_write m.console.terminal.terminal
      (bytesOfText Service.prompt)).trans (HostTerminal.sameButOutput_flush _)
    unfold WaitsAfter at hafter ⊢
    rw [hprompted, List.append_nil] at hafter
    rwa [hinput.isSome_waiting]
  | _ => cases hs

/-! ### Instructions -/

/-- What reads cells and calls no service holds nothing back. -/
theorem closedUnderReading_settles :
    ClosedUnderReading (T := Taped HostTerminal) fun _ => Settles where
  aside := fun ha => (Within.aside Taped.Unshown.refl ha).settles
  readCell := fun address => (within_readCell address).settles
  bind := Settles.bind

theorem settles_effect (i : Instruction) : Settles (effect i) := by
  by_cases htrap : ∃ s, i = .trap s
  · obtain ⟨s, rfl⟩ := htrap
    intro m
    rw [run_effect_trap]
    exact settles_serve s (m.called s)
  · exact closedUnderReading_settles.effect (not_exists.mp htrap)

/-- **An instruction holds nothing back**, whether it is completed or fails part way. -/
theorem settles_attempt : Settles attempt := by
  have hreading := closedUnderReading_settles
  have hcount : Settles countCycle := hreading.aside fun m => ⟨(), _, rfl, rfl⟩
  have hpure : ∀ r : Word × Word, Settles (pure r) := fun r =>
    hreading.aside fun m => ⟨r, m, rfl, rfl⟩
  refine hreading.fetch.bind fun (address, instruction) => ?_
  refine (settles_note _).bind fun _ => ?_
  refine Settles.bind ?_ fun _ => ?_
  · rw [execute_eq]
    exact (settles_effect _).bind fun _ => hcount
  · split
    · exact (settles_note _).bind fun _ => hpure _
    · exact hpure _

/-- A call of a service that asks for a key waits for it, if there is none. -/
theorem waits_attempt {m : Machine (Taped HostTerminal)} {s : Service} (h : m.Calls s)
    (hs : s.IsAsking) :
    WaitsAfter (announcement s) m.console.terminal (attempt.run m).2.console.terminal := by
  rw [terminal_attempt h.run_fetch, h.decoded, run_effect_trap]
  exact waits_serve hs
    (((m.fetched m.registers.pc).announced _ (m.memory.peek m.registers.pc)).called s)

/-- No other instruction waits. -/
theorem sameWaits_attempt {m : Machine (Taped HostTerminal)} (h : ∀ s, m.Calls s → ¬s.IsAsking) :
    Taped.SameWaits m.console.terminal (attempt.run m).2.console.terminal := by
  have hreading := closedUnderReading_within
  have hfetch := (hreading.fetch m).1.waits
  rcases hf : fetch.run m with ⟨f | ⟨address, w⟩, m₁⟩ <;> rw [hf] at hfetch
  · rw [attempt, run_bind_of_error hf]
    exact hfetch
  · rw [terminal_attempt hf]
    refine Eq.trans ?_ hfetch
    by_cases htrap : ∃ s, Instruction.decode w = .trap s
    · obtain ⟨s, hw⟩ := htrap
      rw [hw, run_effect_trap]
      exact (within_serve (h s (calls_of_fetch hf hw)) _).1
    · exact (hreading.effect (not_exists.mp htrap) _).1.waits

end Machine

/-! ### Steps -/

namespace Processor

/-- The next step is going to wait for a key: it calls a service that asks for one, and there is
none, nor was the end of the input seen. -/
structure AwaitsKey (p : Processor HostTerminal) (s : Service) : Prop where
  running : p.machine.halted = false
  below : p.reachedLimit = none
  calls : p.machine.Calls s
  asking : s.IsAsking
  unanswered : p.machine.console.terminal.waiting.isSome

/-- **A step attempts an instruction, or has nothing to do with the terminal.** -/
theorem terminal_next {T : Type} [Terminal T] (p : Processor T) :
    (next p).machine.console.terminal = p.machine.console.terminal ∧
        ¬(p.machine.halted = false ∧ p.reachedLimit = none) ∨
      p.machine.halted = false ∧ p.reachedLimit = none ∧
        (next p).machine.console.terminal =
          (Machine.attempt.run p.machine).2.console.terminal ∧
        ∀ f, (Machine.attempt.run p.machine).1 = .error f → (step.run p).1 = .error f := by
  rw [next]
  rcases step_cases p with ⟨hhalted, hs⟩ | ⟨n, hrunning, hn, hs⟩ | ⟨f, m, hrunning, hn, ha, hs⟩ |
    ⟨a, w, m, hrunning, hn, ha, hs⟩ <;> rw [hs]
  · refine Or.inl ⟨rfl, ?_⟩
    rintro ⟨hrunning, -⟩
    cases hhalted.symm.trans hrunning
  · refine Or.inl ⟨rfl, ?_⟩
    rintro ⟨-, hbelow⟩
    cases hn.symm.trans hbelow
  · rw [ha]
    refine Or.inr ⟨hrunning, hn, rfl, ?_⟩
    rintro _ ⟨⟩
    rfl
  · rw [ha]
    refine Or.inr ⟨hrunning, hn, rfl, ?_⟩
    rintro _ ⟨⟩

variable (b : Processor (Taped HostTerminal))

theorem calls_untaped (s : Service) : b.untaped.machine.Calls s ↔ b.machine.Calls s :=
  ⟨fun h => ⟨h.notStatus, h.decoded⟩, fun h => ⟨h.notStatus, h.decoded⟩⟩

/-- **A step holds nothing back**, unless it fails because the input is closed. -/
theorem settles_next (h : b.machine.console.terminal.terminal.buffer = []) :
    (next b).machine.console.terminal.terminal.buffer = [] ∨
      (step.run b).1 = .error (.misuse .inputClosed) ∧
        (next b).machine.console.terminal.terminal.host.isOpen = false := by
  rcases b.terminal_next with ⟨hterminal, -⟩ | ⟨-, -, hterminal, hfails⟩ <;> rw [hterminal]
  · exact Or.inl h
  · rcases Machine.settles_attempt b.machine h with hempty | ⟨_, hf, rfl, hclosed⟩
    · exact Or.inl hempty
    · exact Or.inr ⟨hfails _ hf, hclosed⟩

/-- **A step waits exactly if it is going to**, and what was shown by then was shown before, but for
what the service shows first. -/
theorem waits_next :
    (∀ s, b.untaped.AwaitsKey s → ∃ u, (next b).machine.console.terminal.waits =
      ⟨u, b.machine.console.terminal.shown ++ Machine.announcement s⟩ ::
        b.machine.console.terminal.waits) ∧
    ((∀ s, ¬b.untaped.AwaitsKey s) →
      (next b).machine.console.terminal.waits = b.machine.console.terminal.waits) := by
  rcases b.terminal_next with ⟨hterminal, hidle⟩ | ⟨hrunning, hbelow, hterminal, -⟩ <;>
    rw [hterminal]
  · exact ⟨fun s hs => absurd ⟨hs.running, hs.below⟩ hidle, fun _ => rfl⟩
  · refine ⟨fun s hs => ?_, fun hnone => ?_⟩
    · have hwaits := Machine.waits_attempt ((b.calls_untaped s).mp hs.calls) hs.asking
      have hunanswered : b.machine.console.terminal.terminal.waiting.isSome := hs.unanswered
      rwa [Machine.WaitsAfter, if_pos hunanswered] at hwaits
    · by_cases hcalls : ∃ s, b.machine.Calls s ∧ s.IsAsking
      · obtain ⟨s, hs, hasking⟩ := hcalls
        have hwaits := Machine.waits_attempt hs hasking
        have hcalls := (b.calls_untaped s).mpr hs
        have hanswered : ¬b.machine.console.terminal.terminal.waiting.isSome := fun hw =>
          hnone s ⟨hrunning, hbelow, hcalls, hasking, hw⟩
        rwa [Machine.WaitsAfter, if_neg hanswered] at hwaits
      · exact Machine.sameWaits_attempt fun s hs hasking => hcalls ⟨s, hs, hasking⟩

/-- **Any number of steps hold nothing back**, unless one fails because the input is closed. -/
theorem settles_iterate (h : b.machine.console.terminal.terminal.buffer = []) (k : Nat) :
    (next^[k] b).machine.console.terminal.terminal.buffer = [] ∨
      ∃ j < k, (step.run (next^[j] b)).1 = .error (.misuse .inputClosed) ∧
        (next^[j + 1] b).machine.console.terminal.terminal.host.isOpen = false := by
  induction k with
  | zero => exact Or.inl h
  | succ k ih =>
    rcases ih with hempty | ⟨j, hj, hfails⟩
    · rw [Function.iterate_succ_apply']
      rcases settles_next _ hempty with hempty' | ⟨hfails, hclosed⟩
      · exact Or.inl hempty'
      · refine Or.inr ⟨k, Nat.lt_succ_self k, hfails, ?_⟩
        rwa [Function.iterate_succ_apply']
    · exact Or.inr ⟨j, Nat.lt_succ_of_lt hj, hfails⟩

/-- **No output is held back.** Let a processor whose terminal holds nothing back take any number of
steps, each of which returns or fails, and let a tape be kept of them, which makes no difference to
what happens.

* As long as the input is open, the terminal holds nothing back.
* If the input was closed under the terminal, it holds nothing back either, unless one of the steps
  has failed because of that.
* In both cases what was shown and is not held back has reached the output: all of it, or if a write
  has failed, a first part of it.
* While a wait for a key lasted, nothing was held back, whether the input was open or not, and what
  was shown by then had reached the output in the same way.
* If the next step is going to wait for a key, it waits once, when all that was shown so far has
  been shown and what the service shows first; and otherwise it does not wait. -/
theorem no_output_is_held_back (p : Processor HostTerminal)
    (hbuffer : p.machine.console.terminal.buffer = []) (k : Nat) :
    let b := next^[k] p.taped
    let t := b.machine.console.terminal
    let before := p.machine.console.terminal.host.output
    b.untaped = next^[k] p ∧
    (p.machine.console.terminal.host.isOpen = true → t.terminal.buffer = []) ∧
    (p.machine.console.terminal.host.isOpen = false → t.terminal.buffer = [] ∨
      ∃ j < k, (step.run (next^[j] p)).1 = .error (.misuse .inputClosed)) ∧
    t.terminal.Conveys (before ++ t.shown) ∧
    (∀ w ∈ t.waits, w.terminal.buffer = [] ∧ w.terminal.Conveys (before ++ w.shown)) ∧
    (∀ s, (next^[k] p).AwaitsKey s → ∃ u, (next b).machine.console.terminal.waits =
      ⟨u, t.shown ++ Machine.announcement s⟩ :: t.waits) ∧
    ((∀ s, ¬(next^[k] p).AwaitsKey s) → (next b).machine.console.terminal.waits = t.waits) := by
  intro b t before
  have huntaped : b.untaped = next^[k] p := p.untaped_iterate k
  have haccounts : Taped.Accounts before t := by
    refine p.holds_iterate (Taped.isKept_accounts before) ⟨?_, fun _ hw => nomatch hw⟩ k
    rw [List.append_nil]
    exact HostTerminal.conveys_of_nil hbuffer
  have hsettles := settles_iterate p.taped hbuffer k
  refine ⟨huntaped, fun hopen => ?_, fun _ => ?_, haccounts.conveys, haccounts.waits, ?_⟩
  · rcases hsettles with hempty | ⟨j, -, -, hclosed⟩
    · exact hempty
    · -- An open input stays open, so no step has failed because it was closed.
      have hstays := p.holds_iterate Taped.isKept_isOpen hopen (j + 1)
      cases hstays.symm.trans hclosed
  · rcases hsettles with hempty | ⟨j, hj, hfails, -⟩
    · exact Or.inl hempty
    · exact Or.inr ⟨j, hj, (p.step_taped j).symm.trans hfails⟩
  · rw [← huntaped]
    exact waits_next b

/-- A processor that is about to ask for a key with the input service, on a terminal with one key to
come. -/
def promptsOnce : Processor HostTerminal :=
  launch (Memory.cleared.load 0x3000 [0xF023])
    { terminal := { host := { input := .stream [0x41] true } } } none false 0

/-- This processor waits once, with the prompt shown and passed on, and holds nothing back after the
step. -/
theorem nothing_held_back_of_promptsOnce :
    promptsOnce.machine.console.terminal.buffer = [] ∧
      (∃ w, (next promptsOnce.taped).machine.console.terminal.waits = [w] ∧
        w.shown = bytesOfText Service.prompt ∧ w.terminal.buffer = []) ∧
      (next promptsOnce.taped).machine.console.terminal.terminal.buffer = [] := by
  have hbuffer : promptsOnce.machine.console.terminal.buffer = [] := rfl
  have hawaits : promptsOnce.AwaitsKey .input :=
    ⟨rfl, rfl, ⟨by decide, by decide⟩, trivial, rfl⟩
  obtain ⟨-, -, -, -, -, hwaits, -⟩ := no_output_is_held_back promptsOnce hbuffer 0
  obtain ⟨u, hu⟩ := hwaits .input hawaits
  obtain ⟨-, hempty, -, -, hall, -⟩ := no_output_is_held_back promptsOnce hbuffer 1
  rw [Function.iterate_zero_apply] at hu
  rw [Function.iterate_one] at hall hempty
  refine ⟨hbuffer, ⟨_, hu, rfl, (hall _ ?_).1⟩, hempty rfl⟩
  rw [hu]
  exact List.mem_singleton_self _

end Processor

end LittleComputer
