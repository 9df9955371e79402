import LittleComputer.Proofs.Dependable

/-!
# Actions that return

On a console whose terminal can be relied on, and at which no wait is abandoned
(`LittleComputer.Console.IsSound`), most of what a machine does returns
(`LittleComputer.Machine.Returns`): it does not fail, and it leaves the console sound. That is
closed under doing one thing after another, so the only real case is a read of the keyboard
status register (`LittleComputer.Machine.run_readCell_of_sound`), and the only exceptions are
the two services that ask for a key (`LittleComputer.Machine.outcome_serve_of_isAsking`), which
fail when there is no key and none will come, and do not come to an end as long as they wait.

The services that show strings go on until a cell tells them to stop, and the bounds with
which they are carried out must not stop them earlier. Both are a `LittleComputer.Machine.scan`,
and a scan that passes the status register only with a key in hand ends or fails
(`LittleComputer.Machine.Ends`): from one passage to the next it takes one round through memory,
and the keys run out (`LittleComputer.Machine.scan_ends_or_fails`). If none of the cells makes it
fail, it comes to its `LittleComputer.Machine.End`.
-/

namespace LittleComputer

open Memory

variable {T : Type} {sound : T → Prop} {upcoming : T → Option (Except HostFault Byte)}

/-! ### Sound consoles -/

namespace Console

/-- A console with a sound terminal, at which no wait is abandoned. -/
structure IsSound (sound : T → Prop) (c : Console T) : Prop where
  patient : c.IsPatient
  terminal : sound c.terminal

/-- A sound console at which a read will answer `answer`. -/
structure Expects (sound : T → Prop) (upcoming : T → Option (Except HostFault Byte))
    (answer : Option (Except HostFault Byte)) (c : Console T) : Prop where
  isSound : c.IsSound sound
  answer : upcoming c.terminal = answer

theorem IsSound.expects {c : Console T} (h : c.IsSound sound) :
    c.Expects sound upcoming (upcoming c.terminal) := ⟨h, rfl⟩

theorem IsSound.note {c : Console T} (h : c.IsSound sound) (n : Notice) :
    (c.note n).IsSound sound := ⟨h.patient, h.terminal⟩

/-- A call that strikes the console and changes the terminal leaves it sound if it leaves
the terminal sound. -/
theorem IsSound.strike {c : Console T} (h : c.IsSound sound) (call : Call) {t : T} (ht : sound t) :
    ({ (c.strike call).2 with terminal := t } : Console T).IsSound sound :=
  ⟨h.patient.strike call, ht⟩

end Console

namespace Machine

variable {α β : Type}

/-! ### Returning -/

/-- An action that returns from every machine whose console meets a condition, and leaves a
console that meets it. -/
def Returns (I : Console T → Prop) (a : Action T α) : Prop :=
  ∀ m, I m.console → ∃ x m', a.run m = (.ok x, m') ∧ I m'.console

section Returns

variable {I : Console T → Prop} {a : Action T α}

theorem Returns.pure (x : α) : Returns I (pure x : Action T α) := fun m h => ⟨x, m, rfl, h⟩

theorem Returns.bind {f : α → Action T β} (ha : Returns I a) (hf : ∀ x, Returns I (f x)) :
    Returns I (a >>= f) := by
  intro m h
  obtain ⟨x, m₁, hrun, h₁⟩ := ha m h
  rw [run_bind_of_ok hrun]
  exact hf x m₁ h₁

/-- An action without the console returns under every condition on the console. -/
theorem Silent.returns {a : Action T Unit} (h : Silent a) : Returns I a := fun m hm =>
  ⟨(), (a.run m).2, Prod.ext (h m).1 rfl, (h m).2 ▸ hm⟩

/-- An action that returns from every sound machine, leaves it sound, and does not change what
a read will answer. -/
def Harmless (sound : T → Prop) (upcoming : T → Option (Except HostFault Byte))
    (a : Action T α) : Prop :=
  ∀ answer, Returns (Console.Expects sound upcoming answer) a

theorem Harmless.returns (h : Harmless sound upcoming a) : Returns (Console.IsSound sound) a := by
  intro m hm
  obtain ⟨x, m', hrun, hm'⟩ := h _ m hm.expects
  exact ⟨x, m', hrun, hm'.isSound⟩

theorem silent_assign (dest : Reg) (value : Word) : Silent (assign (T := T) dest value) :=
  fun _ => ⟨rfl, rfl⟩

theorem returns_readSlot (s : Slot) : Returns I (readSlot s) := fun m h => ⟨_, m, rfl, h⟩

end Returns

/-! ### Scans -/

/-- Go through the cells from `address` on, doing with each what `cell` does, as long as that
says to go on, but through at most `bound` cells. -/
def scan (cell : Word → Action T Bool) : (bound : Nat) → (address : Word) → Action T Unit
  | 0, _ => return
  | bound + 1, address => do
    if ← cell address then scan cell bound (address + 1)

/-- **The end of a scan**: `End cell address m m'` says that from the machine `m` the scan of
the cells from `address` on comes to one where it is told to stop, with the machine `m'`. It
knows of no bound. -/
inductive End (cell : Word → Action T Bool) : Word → Machine T → Machine T → Prop
  | stop {address : Word} {m m' : Machine T} (h : (cell address).run m = (.ok false, m')) :
    End cell address m m'
  | more {address : Word} {m m₁ m' : Machine T} (h : (cell address).run m = (.ok true, m₁))
    (rest : End cell (address + 1) m₁ m') : End cell address m m'

/-- **How a scan ends**: `Ends cell address m r m'` says that from the machine `m` the scan of
the cells from `address` on comes to one where it is told to stop, or to one where it fails,
with the outcome `r` and the machine `m'`. It knows of no bound. -/
inductive Ends (cell : Word → Action T Bool) :
    Word → Machine T → Except Failure Unit → Machine T → Prop
  | stop {address : Word} {m m' : Machine T} (h : (cell address).run m = (.ok false, m')) :
    Ends cell address m (.ok ()) m'
  | fail {address : Word} {m m' : Machine T} {f : Failure}
    (h : (cell address).run m = (.error f, m')) : Ends cell address m (.error f) m'
  | more {address : Word} {m m₁ m' : Machine T} {r : Except Failure Unit}
    (h : (cell address).run m = (.ok true, m₁)) (rest : Ends cell (address + 1) m₁ r m') :
    Ends cell address m r m'

/-- A scan ends in one way at most. -/
theorem Ends.unique {cell : Word → Action T Bool} {address : Word} {m m' m'' : Machine T}
    {r r' : Except Failure Unit}
    (h : Ends cell address m r m') (h' : Ends cell address m r' m'') : r = r' ∧ m' = m'' := by
  induction h with
  | stop hrun =>
    cases h' with
    | stop hrun' =>
      cases hrun.symm.trans hrun'
      exact ⟨rfl, rfl⟩
    | fail hrun' => cases hrun.symm.trans hrun'
    | more hrun' => cases hrun.symm.trans hrun'
  | fail hrun =>
    cases h' with
    | stop hrun' => cases hrun.symm.trans hrun'
    | fail hrun' =>
      cases hrun.symm.trans hrun'
      exact ⟨rfl, rfl⟩
    | more hrun' => cases hrun.symm.trans hrun'
  | more hrun _ ih =>
    cases h' with
    | stop hrun' => cases hrun.symm.trans hrun'
    | fail hrun' => cases hrun.symm.trans hrun'
    | more hrun' rest' =>
      cases hrun.symm.trans hrun'
      exact ih rest'

/-- A scan in which every cell returns comes to its end, if it ends. -/
theorem Ends.end_of_returns {I : Machine T → Prop} {cell : Word → Action T Bool}
    (hcell : ∀ address m, I m → ∃ goesOn m', (cell address).run m = (.ok goesOn, m') ∧ I m')
    {address : Word} {m m' : Machine T} {r : Except Failure Unit}
    (h : Ends cell address m r m') (hm : I m) : r = .ok () ∧ End cell address m m' ∧ I m' := by
  induction h with
  | @stop address m m' hrun =>
    obtain ⟨_, _, hrun', hm'⟩ := hcell address m hm
    cases hrun.symm.trans hrun'
    exact ⟨rfl, .stop hrun, hm'⟩
  | @fail address m m' f hrun =>
    obtain ⟨_, _, hrun', -⟩ := hcell address m hm
    cases hrun.symm.trans hrun'
  | @more address m m₁ m' r hrun _ ih =>
    obtain ⟨_, _, hrun', hm₁⟩ := hcell address m hm
    cases hrun.symm.trans hrun'
    obtain ⟨hr, hend, hm'⟩ := ih hm₁
    exact ⟨hr, .more hrun hend, hm'⟩

/-- How many cells there are from an address up to the status register. -/
def distance (address : Word) : Nat := (keyboardStatus - address).toNat

theorem distance_lt (address : Word) : distance address < size := (keyboardStatus - address).isLt

theorem distance_succ {address : Word} (h : address ≠ keyboardStatus) :
    distance (address + 1) + 1 = distance address := by
  unfold distance keyboardStatus at *
  bv_omega

/-- A cell passed brings the status register closer; and if it is the status register, a whole
round is ahead, but there is less left by one. -/
theorem distance_descends {address : Word} {left left₁ bound : Nat}
    (h : left₁ + (if address = keyboardStatus then 1 else 0) ≤ left)
    (hbound : distance address + size * left < bound + 1) :
    distance (address + 1) + size * left₁ < bound := by
  by_cases ha : address = keyboardStatus
  · rw [if_pos ha] at h
    have hround := Nat.mul_le_mul_left size h
    have hdistance := distance_lt (address + 1)
    rw [Nat.mul_succ] at hround
    omega
  · rw [if_neg ha, Nat.add_zero] at h
    have hround := Nat.mul_le_mul_left size h
    have hdistance := distance_succ ha
    omega

/-- **A scan ends or fails** if it has to give something away to pass the status register: let
`cell`, when it goes on, leave a machine that meets a condition if it is carried out on one that
does, and let there not be more left than before, and at the status register less. Then one round
through memory for each that is left, and one more, are enough. -/
theorem scan_ends_or_fails (I : Machine T → Prop) (left : Machine T → Nat)
    {cell : Word → Action T Bool}
    (hcell : ∀ address m m', I m → (cell address).run m = (.ok true, m') →
      I m' ∧ left m' + (if address = keyboardStatus then 1 else 0) ≤ left m)
    {bound : Nat} {address : Word} {m : Machine T} (hm : I m)
    (hbound : distance address + size * left m < bound) :
    ∃ r m', Ends cell address m r m' ∧ (scan cell bound address).run m = (r, m') := by
  -- Each cell passed lowers `distance address + size * left m` by one at least.
  induction bound generalizing address m with
  | zero => exact absurd hbound (Nat.not_lt_zero _)
  | succ bound ih =>
    rcases hrun : (cell address).run m with ⟨f | goesOn, m₁⟩
    · exact ⟨.error f, m₁, .fail hrun, run_bind_of_error hrun _⟩
    · rw [scan, run_bind_of_ok hrun]
      cases goesOn with
      | false => exact ⟨.ok (), m₁, .stop hrun, rfl⟩
      | true =>
        obtain ⟨hm₁, hleft⟩ := hcell address m m₁ hm hrun
        obtain ⟨r, m', hends, hrest⟩ := ih hm₁ (distance_descends hleft hbound)
        exact ⟨r, m', .more hrun hends, hrest⟩

/-- **How a scan ends does not depend on the bound**, once that is large enough. -/
theorem scan_ends_within (left : Machine T → Nat) {cell : Word → Action T Bool}
    (hcell : ∀ address m m', (cell address).run m = (.ok true, m') →
      left m' + (if address = keyboardStatus then 1 else 0) ≤ left m)
    (m : Machine T) (address : Word) :
    ∃ r m', Ends cell address m r m' ∧
      ∀ bound, distance address + size * left m < bound →
        (scan cell bound address).run m = (r, m') := by
  have hgoesOn : ∀ address m m', True → (cell address).run m = (.ok true, m') →
      True ∧ left m' + (if address = keyboardStatus then 1 else 0) ≤ left m :=
    fun address m m' _ hrun => ⟨trivial, hcell address m m' hrun⟩
  obtain ⟨r, m', hend, -⟩ :=
    scan_ends_or_fails (fun _ => True) left hgoesOn trivial (Nat.lt_succ_self _)
  refine ⟨r, m', hend, fun bound hbound => ?_⟩
  obtain ⟨r', m'', hend', hrun⟩ := scan_ends_or_fails (fun _ => True) left hgoesOn trivial hbound
  obtain ⟨rfl, rfl⟩ := hend.unique hend'
  exact hrun

/-- **A scan ends** under the same conditions if `cell` returns from every machine that meets
the condition. -/
theorem scan_ends (I : Machine T → Prop) (left : Machine T → Nat) {cell : Word → Action T Bool}
    (hcell : ∀ address m, I m → ∃ goesOn m', (cell address).run m = (.ok goesOn, m') ∧ I m' ∧
      (goesOn = true → left m' + (if address = keyboardStatus then 1 else 0) ≤ left m))
    {bound : Nat} {address : Word} {m : Machine T} (hm : I m)
    (hbound : distance address + size * left m < bound) :
    ∃ m', End cell address m m' ∧ (scan cell bound address).run m = (.ok (), m') ∧ I m' := by
  have hgoesOn : ∀ address m m', I m → (cell address).run m = (.ok true, m') →
      I m' ∧ left m' + (if address = keyboardStatus then 1 else 0) ≤ left m := by
    intro address m m' hm hrun
    obtain ⟨goesOn, m₁, hrun', hm₁, hleft⟩ := hcell address m hm
    cases hrun.symm.trans hrun'
    exact ⟨hm₁, hleft rfl⟩
  have hreturns : ∀ address m, I m →
      ∃ goesOn m', (cell address).run m = (.ok goesOn, m') ∧ I m' := by
    intro address m hm
    obtain ⟨goesOn, m', hrun, hm', -⟩ := hcell address m hm
    exact ⟨goesOn, m', hrun, hm'⟩
  obtain ⟨r, m', hends, hrun⟩ := scan_ends_or_fails I left hgoesOn hm hbound
  obtain ⟨rfl, hend, hm'⟩ := hends.end_of_returns hreturns hm
  exact ⟨m', hend, hrun, hm'⟩

variable [Terminal T]

/-- Show the low byte of a word and go on, unless the word is zero. -/
def showLow (w : Word) : Action T Bool := do
  if w = 0 then return false
  showByte (lowByte w)
  return true

/-- Show both bytes of a word and go on, unless one of them is zero; a byte behind a zero is
not shown. -/
def showBoth (w : Word) : Action T Bool := do
  if lowByte w = 0 then return false
  showByte (lowByte w)
  if highByte w = 0 then return false
  showByte (highByte w)
  return true

/-- Read a cell, show its low byte and go on, unless the cell is zero. -/
def showCell (address : Word) : Action T Bool := readCell address >>= showLow

/-- Read a cell, show both of its bytes and go on, unless one of them is zero. -/
def showPackedCell (address : Word) : Action T Bool := readCell address >>= showBoth

/-! The loops of the services are scans, in whichever way they read a cell. -/

theorem showStringWith_eq (read : Word → Action T Word) (bound : Nat) (address : Word) :
    showStringWith read bound address = scan (read · >>= showLow) bound address := by
  induction bound generalizing address with
  | zero => rfl
  | succ bound ih =>
    rw [showStringWith, scan, bind_assoc]
    refine congrArg (read address >>= ·) (funext fun w => ?_)
    rw [showLow]
    split
    · rfl
    · simp only [bind_assoc, pure_bind, if_true, ih]

theorem showPackedWith_eq (read : Word → Action T Word) (bound : Nat) (address : Word) :
    showPackedWith read bound address = scan (read · >>= showBoth) bound address := by
  induction bound generalizing address with
  | zero => rfl
  | succ bound ih =>
    rw [showPackedWith, scan, bind_assoc]
    refine congrArg (read address >>= ·) (funext fun w => ?_)
    rw [showBoth]
    split
    · rfl
    · rw [bind_assoc]
      refine congrArg (showByte (lowByte w) >>= ·) (funext fun _ => ?_)
      split
      · rfl
      · simp only [bind_assoc, pure_bind, if_true, ih]

theorem showString_eq (bound : Nat) (address : Word) :
    showString (T := T) bound address = scan showCell bound address :=
  showStringWith_eq readCell bound address

theorem showPacked_eq (bound : Nat) (address : Word) :
    showPacked (T := T) bound address = scan showPackedCell bound address :=
  showPackedWith_eq readCell bound address

/-! ### On a sound console -/

variable (hT : Dependable T sound upcoming) {m : Machine T}

include hT

theorem run_showByte_of_sound (h : m.console.IsSound sound) (b : Byte) :
    ∃ m', (showByte b).run m = (.ok (), m') ∧ m'.console.IsSound sound ∧
      upcoming m'.console.terminal = upcoming m.console.terminal ∧
      Terminal.keysLeft m'.console.terminal = Terminal.keysLeft m.console.terminal := by
  obtain ⟨hsound, hupcoming, hkeys⟩ := hT.write b h.terminal
  refine ⟨{ m with console := m.console.write b }, rfl, ?_⟩
  rw [m.console.write_eq]
  exact ⟨h.strike .write hsound, hupcoming, hkeys⟩

/-- **To show something is harmless.** -/
theorem harmless_showing : ClosedUnderShowing (T := T) (Harmless sound upcoming) where
  pure := fun _ => Returns.pure ()
  bind := fun ha hb answer => (ha answer).bind fun _ => hb answer
  showByte := fun b answer m h => by
    obtain ⟨m', hrun, hsound, hupcoming, -⟩ := run_showByte_of_sound hT h.isSound b
    exact ⟨(), m', hrun, hsound, hupcoming.trans h.answer⟩
  flush := fun answer m h => by
    obtain ⟨hsound, hupcoming⟩ := hT.flush h.isSound.terminal
    exact ⟨(), _, rfl, ⟨h.isSound.patient, hsound⟩, hupcoming.trans h.answer⟩

/-- **A read of a cell returns.** Unless the word read is zero, there are not more keys left
than before, and after a read of the status register there are fewer. -/
theorem run_readCell_of_sound (h : m.console.IsSound sound) (address : Word) :
    ∃ w m', (readCell address).run m = (.ok w, m') ∧ m'.console.IsSound sound ∧
      (w ≠ 0 → Terminal.keysLeft m'.console.terminal +
        (if address = keyboardStatus then 1 else 0) ≤ Terminal.keysLeft m.console.terminal) := by
  by_cases ha : address = keyboardStatus
  · subst ha
    have hpoll := run_poll m
    rcases hT.poll h.terminal with ⟨u, hp, hu⟩ | ⟨u, key, v, hp, hr, hv, hkeys⟩ <;>
      rw [hp] at hpoll
    · -- Without a key the word read is zero, and nothing is to be shown of the keys left.
      exact ⟨_, _, run_readCell_status_of_ok (run_latchKey_of_none hpoll),
        h.strike .poll hu, fun hw => absurd (Memory.peek_write_self ..) hw⟩
    · let ready : Machine T := { m with
        memory := m.memory.write keyboardStatus keyReady
        console := { (m.console.strike .poll).2 with terminal := u } }
      have hpatient : ready.console.IsPatient := h.patient.strike .poll
      have hread : readKey.run ready = (.ok key, { ready with
          console := ready.console.settle v [] }) := by
        have hterminal : Terminal.read ready.console.terminal = (.ok key, v, []) := hr
        rw [run_readKey hpatient.spares_read, hterminal]
      refine ⟨_, _, run_readCell_status_of_ok (run_latchKey_of_key hpoll hread),
        ⟨hpatient, hv⟩, fun _ => ?_⟩
      rw [if_pos rfl]
      exact hkeys
  · refine ⟨_, m, run_readCell_of_ne ha m, h, fun _ => ?_⟩
    rw [if_neg ha]
    exact Nat.le_refl _

theorem returns_readCell (address : Word) :
    Returns (Console.IsSound sound) (readCell (T := T) address) := by
  intro m h
  obtain ⟨w, m', hrun, h', -⟩ := run_readCell_of_sound hT h address
  exact ⟨w, m', hrun, h'⟩

/-- **A string of one character a word ends**: it passes the status register only by taking a
key. -/
theorem showString_ends (h : m.console.IsSound sound) (address : Word) :
    ∃ m', End showCell address m m' ∧
      (showString (size * (Terminal.keysLeft m.console.terminal + 1)) address).run m =
        (.ok (), m') ∧
      m'.console.IsSound sound := by
  rw [showString_eq]
  refine scan_ends (fun m => m.console.IsSound sound)
    (fun m => Terminal.keysLeft m.console.terminal) (fun address m hm => ?_) h ?_
  · obtain ⟨w, m₁, hread, hm₁, hkeys⟩ := run_readCell_of_sound hT hm address
    rw [showCell, run_bind_of_ok hread, showLow]
    split
    · exact ⟨false, m₁, rfl, hm₁, Bool.noConfusion⟩
    · obtain ⟨m₂, hshow, hm₂, -, hsame⟩ := run_showByte_of_sound hT hm₁ (lowByte w)
      rw [run_bind_of_ok hshow]
      refine ⟨true, m₂, rfl, hm₂, fun _ => ?_⟩
      rw [hsame]
      exact hkeys ‹w ≠ 0›
  · have hdistance := distance_lt address
    rw [Nat.mul_succ]
    omega

/-- **A string of packed characters ends** at the status register at the latest: the low byte
there is always zero. -/
theorem showPacked_ends (h : m.console.IsSound sound) {bound : Nat} {address : Word}
    (hbound : distance address < bound) :
    ∃ m', End showPackedCell address m m' ∧ (showPacked bound address).run m = (.ok (), m') ∧
      m'.console.IsSound sound := by
  rw [showPacked_eq]
  refine scan_ends (fun m => m.console.IsSound sound) (fun _ => 0) (fun address m hm => ?_) h
    (by rwa [Nat.mul_zero, Nat.add_zero])
  obtain ⟨w, m₁, hread, hm₁, -⟩ := run_readCell_of_sound hT hm address
  rw [showPackedCell, run_bind_of_ok hread, showBoth]
  split
  · exact ⟨false, m₁, rfl, hm₁, Bool.noConfusion⟩
  · rename_i hlow
    -- The status register is zero or has its top bit set alone, so it has stopped the scan.
    have haddress : address ≠ keyboardStatus := by
      rintro rfl
      rcases status_of_readCell hread with rfl | rfl <;> exact hlow (by decide)
    obtain ⟨m₂, hfirst, hm₂, -⟩ := run_showByte_of_sound hT hm₁ (lowByte w)
    rw [run_bind_of_ok hfirst]
    split
    · exact ⟨false, m₂, rfl, hm₂, Bool.noConfusion⟩
    · obtain ⟨m₃, hsecond, hm₃, -⟩ := run_showByte_of_sound hT hm₂ (highByte w)
      rw [run_bind_of_ok hsecond]
      exact ⟨true, m₃, rfl, hm₃, fun _ => Nat.le_refl 0⟩

/-! ### Services and instructions -/

/-- **A service that asks for a key** has the outcome of the read that it makes: it returns if a
key is upcoming, fails if none will come, and otherwise is left waiting. -/
theorem outcome_serve_of_isAsking (h : m.console.IsSound sound) {s : Service} (hs : s.IsAsking) :
    ((serve s).run m).1 =
      (answerOf (upcoming m.console.terminal)).map fun _ => () := by
  obtain ⟨before, after, hbefore, hafter, heq⟩ := serve_of_isAsking (harmless_showing hT) hs
  -- What is shown before the read does not change what it will answer.
  obtain ⟨_, m₁, hrun, h₁⟩ := hbefore _ m h.expects
  obtain ⟨hanswer, hsound⟩ := hT.read h₁.isSound.terminal
  have hread := run_readKey h₁.isSound.patient.spares_read
  rw [hanswer, h₁.answer] at hread
  rw [heq, run_bind_of_ok hrun]
  cases hkey : answerOf (upcoming m.console.terminal) with
  | error f =>
    rw [hkey] at hread
    rw [run_bind_of_error hread]
    rfl
  | ok key =>
    rw [hkey] at hread
    have hreceive := silent_assign (T := T) 0 (wordOfByte key)
    let m₂ : Machine T := { m₁ with
      console := m₁.console.settle (Terminal.read m₁.console.terminal).2.1
        (Terminal.read m₁.console.terminal).2.2 }
    have h₂ : m₂.console.IsSound sound := ⟨h₁.isSound.patient, hsound⟩
    obtain ⟨_, m₃, hrun₃, -⟩ := ((hafter key).returns.bind fun _ => hreceive.returns) m₂ h₂
    rw [run_bind_of_ok hread]
    exact congrArg Prod.fst hrun₃

/-- **Every other service returns.** -/
theorem returns_serve {s : Service} (hs : ¬s.IsAsking) :
    Returns (Console.IsSound sound) (serve (T := T) s) := by
  have hshowing := harmless_showing hT
  have hflush : Returns (Console.IsSound sound) (flush (T := T)) := hshowing.flush.returns
  cases s with
  | getc | input => exact absurd trivial hs
  | out =>
    exact (returns_readSlot _).bind fun _ => (hshowing.showByte _).returns.bind fun _ => hflush
  | puts =>
    intro m h
    obtain ⟨m', -, hrun, h'⟩ := showString_ends hT h (m.registers.read (.general 0))
    rw [run_serve_puts, run_bind_of_ok hrun]
    exact hflush m' h'
  | putsp =>
    intro m h
    obtain ⟨m', -, hrun, h'⟩ := showPacked_ends hT h
      (distance_lt (m.registers.read (.general 0)))
    rw [run_serve_putsp, run_bind_of_ok hrun]
    exact hflush m' h'
  | halt =>
    refine (hshowing.showText _).returns.bind fun _ => hflush.bind fun _ => fun m h => ?_
    exact ⟨(), _, rfl, h.note _⟩

theorem closedUnderReading_returns :
    ClosedUnderReading (T := T) fun _ => Returns (Console.IsSound sound) where
  aside := fun ha m h => by
    obtain ⟨x, m', hrun, hsame⟩ := ha m
    exact ⟨x, m', hrun, hsame ▸ h⟩
  readCell := returns_readCell hT
  bind := Returns.bind

/-- **An instruction returns** unless it calls a service that asks for a key. -/
theorem returns_effect {i : Instruction} (hi : ∀ s, i = .trap s → ¬s.IsAsking) :
    Returns (Console.IsSound sound) (effect (T := T) i) := by
  by_cases htrap : ∃ s, i = .trap s
  · obtain ⟨s, rfl⟩ := htrap
    intro m h
    rw [run_effect_trap]
    exact returns_serve hT (hi s rfl) (m.called s) (h.note _)
  · exact (closedUnderReading_returns hT).effect (not_exists.mp htrap)

/-- A call of a service that asks for a key has the outcome of the read that it makes. -/
theorem outcome_effect_trap (h : m.console.IsSound sound) {s : Service} (hs : s.IsAsking) :
    ((effect (.trap s)).run m).1 =
      (answerOf (upcoming m.console.terminal)).map fun _ => () := by
  rw [run_effect_trap]
  exact outcome_serve_of_isAsking hT (m := m.called s) (h.note _) hs

end Machine

end LittleComputer
