import LittleComputer.Gallery
import LittleComputer.Proofs.Delivery
import LittleComputer.Proofs.StepFailures

/-!
# Runs that end

A run on a script ends if there is a limit on executed instructions, whatever is in memory, in
the registers and in the script, and whether or not an interrupt comes. Two loops have to end
for that.

The outer one is the run itself. An instruction that is completed is counted, so no more than
the limit leaves are completed (`LittleComputer.Processor.Completes.le_limit`).

The inner one is the showing of a string, which no limit bounds: a string has no length of its
own, memory has no last cell, and there may be no zero in it. The measure is the distance to the
keyboard status register together with the keys still to come. A scan reads that register once
a round; it takes a key there, or it finds a zero and ends, or an interrupt ends it
(`LittleComputer.Machine.run_readCell_scripted`). So it comes to an end without a bound
(`LittleComputer.Machine.scan_ends_within`), and all bounds large enough agree with it; the
bounds that the services compute are.
-/

namespace LittleComputer

open Memory

/-! ### Strings on a script -/

namespace Machine

variable {m m' : Machine ScriptedTerminal} {w : Word}

/-- **A read of a cell takes a key at most.** Unless the word read is zero, a read of the status
register has taken one. -/
theorem run_readCell_scripted {address : Word} (h : (readCell address).run m = (.ok w, m'))
    (hw : w ≠ 0) :
    m'.keys.length + (if address = keyboardStatus then 1 else 0) ≤ m.keys.length := by
  have hdelivers := delivers_readCell address m
  rw [h] at hdelivers
  have hlength := congrArg List.length hdelivers
  rw [List.length_append] at hlength
  by_cases ha : address = keyboardStatus
  · subst ha
    obtain rfl : w = keyReady := (status_of_readCell h).resolve_left hw
    rw [latched, if_pos ⟨rfl, rfl⟩, List.length_singleton] at hlength
    rw [if_pos rfl]
    omega
  · rw [if_neg ha]
    omega

/-- To show a byte takes no key. -/
theorem keys_of_showByte {b : Byte} (h : (showByte b).run m = (.ok (), m')) : m'.keys = m.keys := by
  have hkeys := (Shows.closed.showByte b).delivers m
  rw [h] at hkeys
  exact hkeys

theorem keys_of_showCell {address : Word} (h : (showCell address).run m = (.ok true, m')) :
    m'.keys.length + (if address = keyboardStatus then 1 else 0) ≤ m.keys.length := by
  rcases hread : (readCell address).run m with ⟨f | w, m₁⟩
  · rw [showCell, run_bind_of_error hread] at h
    cases h
  · rw [showCell, run_bind_of_ok hread, showLow] at h
    split at h
    · cases h
    · have hshow : (showByte (lowByte w)).run m₁ = (.ok (), m') := by
        cases h
        rfl
      rw [keys_of_showByte hshow]
      exact run_readCell_scripted hread ‹w ≠ 0›

/-- The status register stops the showing of packed characters. -/
theorem ne_status_of_showPackedCell {T : Type} [Terminal T] {m m' : Machine T} {address : Word}
    (h : (showPackedCell address).run m = (.ok true, m')) : address ≠ keyboardStatus := by
  rintro rfl
  rcases hread : (readCell keyboardStatus).run m with ⟨f | w, m₁⟩
  · rw [showPackedCell, run_bind_of_error hread] at h
    cases h
  · rw [showPackedCell, run_bind_of_ok hread, showBoth] at h
    have hlow : lowByte w = 0 := by
      rcases status_of_readCell hread with rfl | rfl <;> decide
    rw [if_pos hlow] at h
    cases h

/-- There is nothing to give away for packed characters: they never pass the status register. -/
theorem exists_left_packed (T : Type) [Terminal T] :
    ∃ left : Machine T → Nat, (∀ m, left m = 0) ∧ ∀ address m m',
      (showPackedCell address).run m = (.ok true, m') →
        left m' + (if address = keyboardStatus then 1 else 0) ≤ left m := by
  refine ⟨fun _ => 0, fun _ => rfl, fun address m m' h => ?_⟩
  simp only [if_neg (ne_status_of_showPackedCell h), Nat.le_refl]

/-- **A string ends**, from every machine and every cell, and the bound matters no more once it
exceeds the cells up to the status register and one round for each key. -/
theorem showString_ends_scripted (m : Machine ScriptedTerminal) (address : Word) :
    ∃ r m', Ends showCell address m r m' ∧
      ∀ bound, distance address + size * m.keys.length < bound →
        (showString bound address).run m = (r, m') := by
  obtain ⟨r, m', hend, hrun⟩ := scan_ends_within (fun m : Machine ScriptedTerminal => m.keys.length)
    (fun _ _ _ => keys_of_showCell) m address
  refine ⟨r, m', hend, fun bound hbound => ?_⟩
  rw [showString_eq, hrun bound hbound]

/-- **A string of packed characters ends** too, at the first status register at the latest, and on
every terminal. -/
theorem showPacked_ends_within {T : Type} [Terminal T] (m : Machine T) (address : Word) :
    ∃ r m', Ends showPackedCell address m r m' ∧ ∀ bound, distance address < bound →
      (showPacked bound address).run m = (r, m') := by
  obtain ⟨left, hleft, hcell⟩ := exists_left_packed T
  obtain ⟨r, m', hend, hrun⟩ := scan_ends_within left hcell m address
  refine ⟨r, m', hend, fun bound hbound => ?_⟩
  rw [showPacked_eq]
  refine hrun bound ?_
  rw [hleft, Nat.mul_zero, Nat.add_zero]
  exact hbound

end Machine

/-! ### Runs under a limit -/

namespace Processor

variable {T : Type} [Terminal T] {p q : Processor T} {n : Int}

/-- **No more instructions are completed than the limit leaves.** -/
theorem Completes.le_limit (hn : p.limit = some n) {k : Nat} (hk : p.Completes k) :
    k ≤ (n - p.machine.cycles).toNat := by
  cases k with
  | zero => exact Nat.zero_le _
  | succ k =>
    obtain ⟨hk, c, hc⟩ := completes_succ.mp hk
    obtain ⟨a, w, m, -, hlimit, -, -, -⟩ := step_ok hc
    have hlt := reachedLimit_eq_none_iff.mp hlimit n ((limit_iterate p k).trans hn)
    rw [hk.cycles] at hlt
    omega

/-- A run whose allowance is used up has completed as many instructions. -/
theorem completes_of_run_none {allowance : Nat} (h : (run allowance).run p = (.ok none, q)) :
    p.Completes allowance := by
  induction allowance generalizing p with
  | zero => exact completes_zero p
  | succ allowance ih =>
    rcases boundary_cases p with ⟨hr, -⟩ | ⟨hr, hs, -⟩ | ⟨hr, hs, -⟩
    · rw [run_of_halted hr] at h
      cases hend : p.ending <;> rw [hend] at h <;> cases h
    · rw [run_of_stop hr hs] at h
      cases h
    · rw [run_succ_of_running hr hs] at h
      rcases hstep : step.run p with ⟨f | c, p'⟩ <;> rw [hstep] at h
      · cases h
      · have hnext : p.next = p' := by rw [next, hstep]
        rw [← hnext] at h
        exact completes_succ'.mpr ⟨⟨c, by rw [hstep]⟩, ih h⟩

/-- A run has counted the instructions that it has completed. -/
theorem cycles_run (p : Processor T) (allowance : Nat) :
    ∃ k, p.Completes k ∧
      ((run allowance).run p).2.machine.cycles = p.machine.cycles + k := by
  obtain ⟨k, hk, -, hend⟩ := run_cases p allowance
  refine ⟨k, hk, ?_⟩
  rcases hend with hb | ⟨f, -, hs, hrun⟩
  · rw [hb, ← hk.cycles, cycles_boundary]
  · rw [hrun, ← hk.cycles]
    exact cycles_of_step_error hs

/-- **A run under a limit ends** before its allowance is used up, if that exceeds what the limit
leaves. -/
theorem run_ends_of_limit (hn : p.limit = some n) :
    ∃ (r : Except Failure (List TraceEntry)) (q : Processor T) (k : Nat),
    p.Completes k ∧ q.machine.cycles = p.machine.cycles + k ∧
      ∀ allowance, (n - p.machine.cycles).toNat < allowance →
        (run allowance).run p = (r.map some, q) := by
  obtain ⟨k, hk, hcycles⟩ := cycles_run p ((n - p.machine.cycles).toNat + 1)
  rcases hrun : (run ((n - p.machine.cycles).toNat + 1)).run p with ⟨f | _ | trace, q⟩ <;>
    rw [hrun] at hcycles
  · exact ⟨.error f, q, k, hk, hcycles, fun _ h => run_of_le (r := .error f) h hrun⟩
  · have hle := (completes_of_run_none hrun).le_limit hn
    omega
  · exact ⟨.ok trace, q, k, hk, hcycles, fun _ h => run_of_le (r := .ok trace) h hrun⟩

end Processor

/-! ### The gallery -/

namespace Gallery

/-- Loading does not touch the limit. -/
theorem keeps_limit_load (read : FileReader) (shown : Exhibit) :
    Keeps (Processor.limit (T := ScriptedTerminal)) (load read shown) := by
  have hmachine : ∀ {α : Type} (a : Action ScriptedTerminal α),
      Keeps Processor.limit (Processor.onMachine a) := fun _ _ => rfl
  cases shown with
  | files paths =>
    refine Keeps.bind ?_ fun _ => Keeps.pure _ true
    induction paths with
    | nil => exact Keeps.pure _ ()
    | cons path rest ih =>
      exact Keeps.bind (Keeps.bind (hmachine _) fun _ => Keeps.pure _ ()) fun _ => ih
  | named name =>
    simp only [load]
    cases name.bind example? with
    | none => exact Keeps.pure _ false
    | some e => exact Keeps.bind (hmachine _) fun _ => Keeps.pure _ true

/-- **Every showing with an integer as limit ends**: an allowance that exceeds the limit is
enough. -/
theorem exhibitWithin_ends (read : FileReader) (shown : Exhibit) (keyboard : String) (limit : Int) :
    ∃ answer : Except Failure Page, ∀ allowance, limit.toNat < allowance →
      exhibitWithin read shown keyboard limit allowance = answer.map some := by
  have hlimit := keeps_limit_load read shown (powerOn keyboard limit)
  unfold exhibitWithin
  rcases hload : (load read shown).run (powerOn keyboard limit) with ⟨f | shows, p⟩ <;>
    rw [hload] at hlimit
  · by_cases hf : f.IsReportable
    · exact ⟨.ok (errorPage f.message), fun _ _ => if_pos hf⟩
    · exact ⟨.error f, fun _ _ => if_neg hf⟩
  · cases shows with
    | false => exact ⟨.ok (errorPage "No image provided"), fun _ _ => rfl⟩
    | true =>
      obtain ⟨r, q, k, -, -, hrun⟩ := Processor.run_ends_of_limit (p := p) hlimit
      have henough : ∀ allowance, limit.toNat < allowance →
          (Processor.run allowance).run p = (r.map some, q) :=
        fun allowance h => hrun allowance (by omega)
      cases r with
      | ok trace => exact ⟨.ok (page q none), fun allowance h => by simp only [henough _ h]; rfl⟩
      | error f =>
        by_cases hf : f.IsReportable
        · refine ⟨.ok (page q (some f)), fun allowance h => ?_⟩
          simp only [henough _ h]
          exact if_pos hf
        · refine ⟨.error f, fun allowance h => ?_⟩
          simp only [henough _ h]
          exact if_neg hf

/-- **Every showing ends.** -/
theorem exhibit_ends (read : FileReader) (shown : Exhibit) (keyboard : String) (limit : Limit) :
    ∃ (answer : Except Failure Page) (enough : Nat), ∀ allowance, enough < allowance →
      exhibit read shown keyboard limit allowance = answer.map some := by
  cases hn : limit.toInt with
  | error m =>
    refine ⟨.error (.misuse m), 0, fun allowance _ => ?_⟩
    rw [exhibit, hn]
    rfl
  | ok n =>
    obtain ⟨answer, hanswer⟩ := exhibitWithin_ends read shown keyboard n
    refine ⟨answer, n.toNat, fun allowance h => ?_⟩
    rw [exhibit, hn, ← hanswer allowance h]
    rfl

end Gallery

/-! ### Main statement -/

namespace Processor

/-- **Under a limit a run on a script always ends.**

* Whatever is in memory and in the registers, whichever keys are to come, and whether or not an
  interrupt comes: with the limit `n` a run returns or fails, and it has completed by then no
  more instructions than the limit leaves. No larger allowance makes a difference.
* A string comes to its end, wherever it starts and whatever is in memory, and a larger bound on
  the cells that are looked at makes no difference once it exceeds the distance to the status
  register and one round through memory for each key to come. Without keys, this is to say, the
  status register is the last cell. A string of packed characters does not pass it at all. The
  bounds that the two services compute exceed that.
* The gallery has a page for everything that can be shown, or fails, whatever is typed and
  whatever the limit is. -/
theorem limited_run_ends :
    (∀ (p : Processor ScriptedTerminal) (n : Int), p.limit = some n →
      ∃ (r : Except Failure (List TraceEntry)) (q : Processor ScriptedTerminal) (k : Nat),
        k ≤ (n - p.machine.cycles).toNat ∧ p.Completes k ∧
        q.machine.cycles = p.machine.cycles + k ∧
        ∀ allowance, (n - p.machine.cycles).toNat < allowance →
          (run allowance).run p = (r.map some, q)) ∧
    (∀ (m : Machine ScriptedTerminal) (address : Word),
      (∃ r m', Machine.Ends Machine.showCell address m r m' ∧
        ∀ bound, Machine.distance address + size * m.keys.length < bound →
          (Machine.showString bound address).run m = (r, m')) ∧
      (∃ r m', Machine.Ends Machine.showPackedCell address m r m' ∧
        ∀ bound, Machine.distance address < bound →
          (Machine.showPacked bound address).run m = (r, m')) ∧
      Machine.distance address + size * m.keys.length <
        size * (Terminal.keysLeft m.console.terminal + 1) ∧
      Machine.distance address < size) ∧
    ∀ read shown keyboard limit, ∃ (answer : Except Failure Gallery.Page) (enough : Nat),
      ∀ allowance, enough < allowance →
        Gallery.exhibit read shown keyboard limit allowance = answer.map some := by
  refine ⟨fun p n hn => ?_, fun m address => ?_, Gallery.exhibit_ends⟩
  · obtain ⟨r, q, k, hk, hcycles, hrun⟩ := run_ends_of_limit hn
    exact ⟨r, q, k, hk.le_limit hn, hk, hcycles, hrun⟩
  · have hdistance := Machine.distance_lt address
    have hkeys : Terminal.keysLeft m.console.terminal = m.keys.length := rfl
    refine ⟨m.showString_ends_scripted address, m.showPacked_ends_within address, ?_, hdistance⟩
    rw [hkeys, Nat.mul_succ]
    omega

/-- A processor that shows a string without an end over and over: every cell holds the call of
the service that shows strings, and the string starts at the first cell. -/
def showsForever : Processor ScriptedTerminal :=
  launch ⟨Table.replicate 16 0xF022⟩ { terminal := { keys := [0x41, 0x42] } } (some 3) false 0

/-- Its run ends under the limit, after three instructions at most. -/
theorem limited_run_of_showsForever :
    ∃ (r : Except Failure (List TraceEntry)) (q : Processor ScriptedTerminal) (k : Nat), k ≤ 3 ∧
      showsForever.Completes k ∧ q.machine.cycles = k ∧
      ∀ allowance, 3 < allowance → (run allowance).run showsForever = (r.map some, q) := by
  obtain ⟨r, q, k, hle, hk, hcycles, hrun⟩ := limited_run_ends.1 showsForever 3 rfl
  exact ⟨r, q, k, hle, hk, hcycles.trans (Nat.zero_add k), hrun⟩

end Processor

end LittleComputer
