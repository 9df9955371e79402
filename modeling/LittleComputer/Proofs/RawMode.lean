import LittleComputer.Proofs.OutputStream
import LittleComputer.Proofs.Refusals
import LittleComputer.Proofs.Run

/-!
# Raw mode and back

While a program runs, the terminal of the host hands over keys one by one and does not show them,
and afterwards everything is to be as it was. Entering the terminal saves its modes and switches off two
of them; leaving it sets what was saved. What was saved is out of sight in between. It has to
outlast whatever is called there, and leaving first passes on what was shown, which may fail.

All that this is about is the `LittleComputer.HostTerminal.Posture` of a terminal: whether its input
can be reached, the modes of the input, and what was saved. A terminal that is used as it should be
has one of two postures (`LittleComputer.HostTerminal.standing`). Entering and leaving lead from one
to the other, and no other call touches the posture at all
(`LittleComputer.HostTerminal.posture_perform`). So an induction on what happens tells the modes at
any time from whether the terminal was left since it was last entered
(`LittleComputer.HostTerminal.posture_after`). A machine neither enters nor leaves the terminal; it
is the command line that does, around a whole run, so every run ends with the modes that it began
with.

Only if the input is closed meanwhile are the modes out of reach, and stay so. Leaving notes this
once and forgets what was saved.

The main statement is `LittleComputer.HostTerminal.raw_mode_is_undone`.
-/

namespace LittleComputer

/-! ### Postures -/

theorem Input.modes?_take {i j : Input} {b : Option Byte} (h : i.take = some (b, j)) :
    j.modes? = i.modes? := by
  cases i with
  | stream unread ended =>
    rcases unread with _ | ⟨c, rest⟩ <;> cases ended <;> cases h <;> rfl
  | terminal modes line =>
    obtain ⟨⟨c, line'⟩, -, hj⟩ := Option.map_eq_some_iff.mp h
    cases hj
    rfl

theorem Input.modes?_setModes {i : Input} {m : InputModes} (h : i.modes? = some m)
    (after : InputModes) : (i.setModes after).modes? = some after := by
  cases i with
  | stream => cases h
  | terminal => rfl

theorem Input.modes?_feed (i : Input) (bytes : List Byte) : (i.feed bytes).modes? = i.modes? := by
  cases i <;> rfl

namespace HostTerminal

/-- **What entering and leaving a terminal are about.** -/
structure Posture where
  /-- Whether the input can be reached. -/
  isOpen : Bool
  /-- The modes of the input, if it is a terminal. -/
  modes : Option InputModes
  /-- The modes to restore on leaving. -/
  saved : Option InputModes

/-- The posture of a terminal. -/
def posture (t : HostTerminal) : Posture := ⟨t.host.isOpen, t.host.input.modes?, t.saved⟩

/-- The posture of a terminal that has these modes as long as nobody uses it: inside, between
entering and leaving, and outside. -/
def standing (modes : InputModes) : (inside : Bool) → Posture
  | true => ⟨true, some modes.raw, some modes⟩
  | false => ⟨true, some modes, none⟩

variable {t u : HostTerminal} {modes : InputModes} {inside : Bool}

theorem reachableModes_of_standing (h : t.posture = standing modes inside) :
    t.host.reachableModes = some (if inside then modes.raw else modes) := by
  cases inside with
  | true | false =>
    obtain ⟨hopen, hmodes, -⟩ := Posture.mk.inj h
    rw [Host.reachableModes, if_pos hopen]
    exact hmodes

/-! ### What does not concern the posture -/

theorem SameButOutput.posture (h : SameButOutput t u) : u.posture = t.posture := by
  rw [HostTerminal.posture, h.isOpen, h.input, h.saved]
  rfl

theorem posture_flush (t : HostTerminal) : t.flush.1.posture = t.posture :=
  (sameButOutput_flush t).posture

theorem posture_poll (t : HostTerminal) : t.poll.2.posture = t.posture := by
  unfold poll
  split
  · rfl
  · split
    · rfl
    · split
      · rfl
      · split <;> rename_i htake
        · exact congrArg (Posture.mk _ · _) (Input.modes?_take htake)
        · exact congrArg (Posture.mk _ · _) (Input.modes?_take htake)
        · rfl

theorem posture_take (t : HostTerminal) : t.take.2.posture = t.posture := by
  unfold take
  split
  · rfl
  · split <;> rename_i htake
    · exact congrArg (Posture.mk _ · _) (Input.modes?_take htake)
    · exact congrArg (Posture.mk _ · _) (Input.modes?_take htake)
    · rfl

theorem posture_of_waiting {ns : List Notice} (h : t.waiting = some (u, ns)) :
    u.posture = t.posture := by
  rw [eq_flush_of_waiting h]
  exact posture_flush t

theorem posture_read (t : HostTerminal) : t.read.2.1.posture = t.posture := by
  unfold read
  cases t.pending with
  | some b => rfl
  | none =>
    rcases hw : t.waiting with _ | ⟨u, ns⟩
    · rfl
    · exact (posture_take u).trans (posture_of_waiting hw)

/-! ### Entering and leaving -/

/-- **Entering leads inside.** -/
theorem posture_enter (h : t.posture = standing modes false) :
    t.enter.1.posture = standing modes true := by
  have hreach := reachableModes_of_standing h
  obtain ⟨hopen, hmodes, -⟩ := Posture.mk.inj h
  rw [enter, hreach]
  change Posture.mk t.host.isOpen (t.host.input.setModes modes.raw).modes? (some modes) = _
  rw [hopen, Input.modes?_setModes hmodes]
  rfl

/-- **Leaving leads outside**, whether or not the terminal was entered, and it notes nothing of
that. -/
theorem posture_leave (h : t.posture = standing modes inside) :
    t.leave.1.posture = standing modes false ∧ t.leave.2 = t.flush.2 := by
  have hflush := (posture_flush t).trans h
  have hreach := reachableModes_of_standing hflush
  unfold leave
  generalize t.flush = r at hflush hreach ⊢
  obtain ⟨u, ns⟩ := r
  obtain ⟨hopen, hmodes, hsaved⟩ := Posture.mk.inj hflush
  dsimp only at hopen hmodes hsaved hreach ⊢
  cases inside with
  | false =>
    rw [hsaved]
    exact ⟨hflush, rfl⟩
  | true =>
    rw [hsaved]
    dsimp only
    rw [hreach]
    refine ⟨?_, rfl⟩
    change Posture.mk u.host.isOpen (u.host.input.setModes modes).modes? none = _
    rw [hopen, Input.modes?_setModes hmodes]
    rfl

/-! ### Any sequence of happenings -/

/-- Whether the terminal is entered after a happening, if it is known whether it was before. -/
def Happening.turn : Happening → Bool → Bool
  | enter, _ => true
  | leave, _ => false
  | _, inside => inside

/-- Nothing can be learnt of the modes, or changed about them, afterwards. -/
def Happening.CutsOff : Happening → Prop
  | finish | closeInput => True
  | _ => False

/-- Whether the terminal was entered and not left since. -/
def isInside (happenings : List Happening) : Bool :=
  happenings.foldl (fun inside e => e.turn inside) false

/-- Entering and leaving alternate, as far as it matters to the modes: the terminal is not entered
again before it is left. -/
def Alternates : (inside : Bool) → List Happening → Prop
  | _, [] => True
  | inside, e :: rest => (e = .enter → inside = false) ∧ Alternates (e.turn inside) rest

theorem alternates_of_append {before after : List Happening}
    (h : Alternates inside (before ++ after)) : Alternates inside before := by
  induction before generalizing inside with
  | nil => trivial
  | cons e rest ih => exact ⟨h.1, ih h.2⟩

theorem after_append (t : HostTerminal) (before after : List Happening) :
    t.after (before ++ after) = (t.after before).after after := by
  induction before generalizing t with
  | nil => rfl
  | cons e rest ih => exact ih _

/-- The terminal is neither entered nor left, and its input remains what it is. -/
def Happening.IsIdle : Happening → Prop
  | enter | leave | finish | closeInput => False
  | _ => True

/-- **What is called in between does not concern the posture.** -/
theorem posture_perform_of_isIdle (t : HostTerminal) {e : Happening} (h : e.IsIdle) :
    (e.perform t).2.1.posture = t.posture := by
  cases e with
  | enter | leave | finish | closeInput => cases h
  | write char => exact (sameButOutput_write t _).posture
  | writeText text => exact (sameButOutput_foldl_write t _).posture
  | flush => exact posture_flush t
  | poll => exact posture_poll t
  | read => exact posture_read t
  | readInterrupted =>
    dsimp only [Happening.perform]
    rcases hw : t.waiting with _ | ⟨u, ns⟩
    · exact posture_read t
    · exact posture_of_waiting hw
  | arrive bytes => exact congrArg (Posture.mk _ · _) (Input.modes?_feed t.host.input bytes)

/-- **What happens keeps to the two postures.** -/
theorem posture_perform (h : t.posture = standing modes inside) {e : Happening}
    (hcut : ¬e.CutsOff) (hturn : e = .enter → inside = false) :
    (e.perform t).2.1.posture = standing modes (e.turn inside) := by
  have hidle := posture_perform_of_isIdle t (e := e)
  cases e with
  | enter =>
    obtain rfl := hturn rfl
    exact posture_enter h
  | leave => exact (posture_leave h).1
  | finish | closeInput => exact absurd trivial hcut
  | _ => exact (hidle trivial).trans h

/-- **So does any sequence of happenings.** -/
theorem posture_after (h : t.posture = standing modes inside) {happenings : List Happening}
    (hcut : ∀ e ∈ happenings, ¬e.CutsOff) (halternates : Alternates inside happenings) :
    (t.after happenings).posture =
      standing modes (happenings.foldl (fun inside e => e.turn inside) inside) := by
  induction happenings generalizing t inside with
  | nil => exact h
  | cons e rest ih =>
    rw [List.forall_mem_cons] at hcut
    exact ih (posture_perform h hcut.1 halternates.1) hcut.2 halternates.2

/-! ### Out of reach -/

/-- Leaving a terminal whose input is closed: what was saved is forgotten. -/
theorem leave_of_closed (h : t.host.isOpen = false) :
    (t.saved = none → t.leave = t.flush) ∧
    (∀ m, t.saved = some m → t.leave = ({ t.flush.1 with saved := none },
      t.flush.2 ++ [.restoreFailed "(9, 'Bad file descriptor')"])) := by
  have hflush := sameButOutput_flush t
  rw [← hflush.saved]
  have hclosed := hflush.isOpen.trans h
  unfold leave
  generalize t.flush = r at hclosed ⊢
  obtain ⟨u, ns⟩ := r
  dsimp only at hclosed ⊢
  refine ⟨fun hsaved => ?_, fun m hsaved => ?_⟩
  · rw [hsaved]
  · have hreach : u.host.reachableModes = none := by
      rw [Host.reachableModes, hclosed]
      rfl
    have hreason : u.host.unreachableReason = "(9, 'Bad file descriptor')" := by
      rw [Host.unreachableReason, hclosed]
      rfl
    rw [hsaved]
    dsimp only
    rw [hreach, hreason]

/-- **A closed input stays closed**, and nothing but leaving touches what was saved. -/
theorem saved_perform_of_closed (h : t.host.isOpen = false) {e : Happening}
    (he : e ≠ .leave ∨ t.saved = none) :
    (e.perform t).2.1.host.isOpen = false ∧ (e.perform t).2.1.saved = t.saved := by
  have hidle := posture_perform_of_isIdle t (e := e)
  cases e with
  | enter =>
    have hreach : t.host.reachableModes = none := by
      rw [Host.reachableModes, h]
      rfl
    have henter : t.enter = (t, [.modesKept]) := by rw [enter, hreach]
    dsimp only [Happening.perform]
    rw [henter]
    exact ⟨h, rfl⟩
  | leave =>
    have hsaved := he.resolve_left fun hne => hne rfl
    have hflush := sameButOutput_flush t
    dsimp only [Happening.perform]
    rw [(leave_of_closed h).1 hsaved]
    exact ⟨hflush.isOpen.trans h, hflush.saved⟩
  | finish => exact ⟨h, rfl⟩
  | closeInput => exact ⟨rfl, rfl⟩
  | _ =>
    obtain ⟨hopen, -, hsaved⟩ := Posture.mk.inj (hidle trivial)
    exact ⟨hopen.trans h, hsaved⟩

theorem saved_after_of_closed (h : t.host.isOpen = false) (happenings : List Happening)
    (he : (∀ e ∈ happenings, e ≠ .leave) ∨ t.saved = none) :
    (t.after happenings).host.isOpen = false ∧ (t.after happenings).saved = t.saved := by
  induction happenings generalizing t with
  | nil => exact ⟨h, rfl⟩
  | cons e rest ih =>
    rw [List.forall_mem_cons] at he
    obtain ⟨hopen, hsaved⟩ := saved_perform_of_closed h (he.imp_left And.left)
    obtain ⟨hopen', hsaved'⟩ := ih hopen (he.imp And.right hsaved.trans)
    exact ⟨hopen', hsaved'.trans hsaved⟩

/-! ### Runs -/

end HostTerminal

open HostTerminal

/-- **A machine does not touch the posture of its terminal.** -/
theorem Primitive.keeps_posture {α : Type} (c : Primitive α) :
    Keeps (fun m : Machine HostTerminal => m.console.terminal.posture) c.perform := by
  intro m
  cases c with
  | poll =>
    change m.console.poll.2.terminal.posture = _
    rw [m.console.poll_eq]
    exact posture_poll _
  | readKey =>
    change m.console.read.2.terminal.posture = _
    rcases m.console.terminal_read with hread | ⟨ns, hwaiting⟩
    · rw [hread]
      exact posture_read _
    · exact posture_of_waiting hwaiting
  | showByte b =>
    change (m.console.write b).terminal.posture = _
    rw [m.console.write_eq]
    exact (sameButOutput_write _ b).posture
  | flush => exact posture_flush _
  | _ => rfl

namespace Processor

variable {modes : InputModes}

/-- The posture of the terminal of a processor. -/
def posture (p : Processor HostTerminal) : Posture := p.machine.console.terminal.posture

theorem keeps_posture_step : Keeps posture (step (T := HostTerminal)) :=
  keeps_step (fun _ => Primitive.keeps_posture) fun _ => rfl

theorem keeps_posture_run (allowance : Nat) :
    Keeps posture (run (T := HostTerminal) allowance) := by
  refine keeps_run (fun p => ?_) keeps_posture_step allowance
  rcases boundary_cases p with ⟨-, hb⟩ | ⟨-, -, hb⟩ | ⟨-, -, hb⟩ <;> rw [hb]
  rfl

theorem posture_iterate (p : Processor HostTerminal) (k : Nat) :
    (next^[k] p).posture = p.posture := by
  induction k with
  | zero => rfl
  | succ k ih =>
    rw [Function.iterate_succ_apply']
    exact (keeps_posture_step _).trans ih

end Processor

namespace CommandLine

open Processor

variable {modes : InputModes} {p : Processor HostTerminal}

/-- **A run ends with the modes that it began with**, whatever it comes to. -/
theorem posture_runGuarded (h : p.posture = standing modes false) (allowance : Nat) :
    ((runGuarded allowance).run p).2.posture = standing modes false := by
  have hinside : ((p.onConsole Console.enter).guarded true).posture = standing modes true :=
    posture_enter h
  have hrun := (keeps_posture_run allowance _).trans hinside
  exact (posture_leave hrun).1

theorem posture_loadAll (read : FileReader) (images : List String) (p : Processor HostTerminal) :
    ((loadAll read images).run p).2.posture = p.posture := by
  rw [run_loadAll]
  obtain ⟨memory, journal, hafter, -⟩ :=
    p.machine.afterLoading_effect (contents read (accepted read images))
  rw [Processor.posture, hafter]
  rfl

theorem eq_of_conclude {r : Request} {result : Except Failure Unit}
    {q : Processor HostTerminal} {status : ExitStatus} {report : String}
    (h : conclude r result p = .finished status report q) : q = p := by
  unfold conclude at h
  split at h
  · cases h
    rfl
  · split at h
    · cases h
      rfl
    · rename_i f _ _
      rcases unexplained_cases f with hreply | hreply <;> rw [hreply] at h <;> cases h

theorem eq_of_loadFailure {f : Failure} {q : Processor HostTerminal} {status : ExitStatus}
    {report : String} (h : loadFailure f p = .finished status report q) : q = p := by
  unfold loadFailure at h
  split at h
  · cases h
    rfl
  · cases h

/-- **Every reply with an exit status leaves the modes as they were.** -/
theorem posture_respond {arguments : List String} {read : FileReader} {terminal : HostTerminal}
    (h : terminal.posture = standing modes false) {alarm : Option Alarm} {allowance : Nat}
    {status : ExitStatus} {report : String} {q : Processor HostTerminal}
    (hreply : respond arguments read terminal alarm allowance = .finished status report q) :
    q.posture = standing modes false := by
  unfold respond at hreply
  split at hreply
  · cases hreply
  · cases hreply
  · cases hreply
  · rename_i r _
    have hload : ((loadAll read r.images).run (powerOn r terminal alarm)).2.posture =
        standing modes false := (posture_loadAll read r.images _).trans h
    unfold carryOut at hreply
    rcases hp : (loadAll read r.images).run (powerOn r terminal alarm) with ⟨f | _, p⟩ <;>
      rw [hp] at hreply hload
    · rw [eq_of_loadFailure hreply]
      exact hload
    · have hrun := posture_runGuarded hload allowance
      rcases hp' : (runGuarded allowance).run p with ⟨f | _ | _, p'⟩ <;>
        simp only [hp'] at hreply hrun
      · rw [eq_of_conclude hreply]
        exact hrun
      · cases hreply
      · rw [eq_of_conclude hreply]
        exact hrun

end CommandLine

namespace HostTerminal

/-! ### Main statement -/

theorem posture_opened (modes : InputModes) (line : Line) (outcome : Nat → WriteOutcome) :
    (opened (.terminal modes line) true outcome).posture = standing modes false := rfl

open CommandLine Processor

/-- **The modes of the terminal are restored, however it is left.** Let the input be a terminal in
any modes, and let the output fail at any write, or at none. Let anything happen, in any order, but
let the terminal not be entered again before it is left.

* Let the input be neither closed nor gone. Inside, after entering, keys are delivered at once and
  not shown, and all other modes are as they were, also while a read waits. Outside, all modes are
  as they were. Leaving leads there, and notes nothing but a write that has failed.
* Leaving does not fail.
* Let the input be closed between entering and leaving. Then leaving notes that the modes were not
  restored, and forgets them. Whatever happens afterwards, to leave the terminal again is only to
  pass on what was shown.
* Let a program be run by the command line where nobody uses the terminal. After each number of
  steps the modes are those of inside. The result of the run is what it is without the terminal
  being left behind it, and whatever it is, afterwards all modes are as they were. So they are with
  every exit status. -/
theorem raw_mode_is_undone (modes : InputModes) (line : Line) (outcome : Nat → WriteOutcome)
    {happenings : List Happening} (h : Alternates false happenings) :
    let t := (opened (.terminal modes line) true outcome).after happenings
    let raw : InputModes := { modes with canonical := false, echo := false }
    let now := if isInside happenings then raw else modes
    ((∀ e ∈ happenings, ¬e.CutsOff) →
      t.host.reachableModes = some now ∧
      (∀ u ns, t.waiting = some (u, ns) → u.host.reachableModes = some now) ∧
      t.leave.1.host.reachableModes = some modes ∧ t.leave.2 = t.flush.2) ∧
    (Happening.leave.perform t).1 = .ok .done ∧
    (∀ before between, happenings = before ++ .closeInput :: between →
      (∀ e ∈ before, ¬e.CutsOff) → isInside before = true → (∀ e ∈ between, e ≠ .leave) →
      t.leave = ({ t.flush.1 with saved := none },
        t.flush.2 ++ [.restoreFailed "(9, 'Bad file descriptor')"]) ∧
      ∀ more, (t.leave.1.after more).leave = (t.leave.1.after more).flush) ∧
    ((∀ e ∈ happenings, ¬e.CutsOff) → isInside happenings = false →
      (∀ p : Processor HostTerminal, p.machine.console.terminal = t →
        let entered := p.onConsole Console.enter
        (∀ k, (next^[k] (entered.guarded true)).machine.console.terminal.host.reachableModes =
          some raw) ∧
        ∀ allowance, ∃ q,
          (runGuarded allowance).run p = (((guardedRun allowance).run entered).1, q) ∧
          q.machine.console.terminal.host.reachableModes = some modes) ∧
      ∀ arguments read alarm allowance status report q,
        respond arguments read t alarm allowance = .finished status report q →
        q.machine.console.terminal.host.reachableModes = some modes) := by
  intro t raw now
  have hopened := posture_opened modes line outcome
  refine ⟨fun hcut => ?_, rfl, ?_, fun hcut houtside => ?_⟩
  · have hposture : t.posture = standing modes (isInside happenings) :=
      posture_after hopened hcut h
    obtain ⟨hleave, hnotices⟩ := posture_leave hposture
    exact ⟨reachableModes_of_standing hposture,
      fun u ns hu => reachableModes_of_standing ((posture_of_waiting hu).trans hposture),
      reachableModes_of_standing hleave, hnotices⟩
  · rintro before between rfl hcut hinside hbetween
    let u := (opened (.terminal modes line) true outcome).after before
    have hposture : u.posture = standing modes true := by
      rw [← hinside]
      exact posture_after hopened hcut (alternates_of_append h)
    have hafter : t = ({ u with host := u.host.closeInput } : HostTerminal).after between :=
      after_append _ before _
    obtain ⟨hclosed, hsaved⟩ := saved_after_of_closed
      (t := ({ u with host := u.host.closeInput } : HostTerminal)) rfl between (Or.inl hbetween)
    rw [← hafter] at hclosed hsaved
    have hmodes : t.saved = some modes := hsaved.trans (congrArg Posture.saved hposture)
    have hleave := (leave_of_closed hclosed).2 modes hmodes
    refine ⟨hleave, fun more => ?_⟩
    have hleft : t.leave.1.host.isOpen = false := by
      rw [hleave]
      exact (sameButOutput_flush t).isOpen.trans hclosed
    have hforgotten : t.leave.1.saved = none := by rw [hleave]
    obtain ⟨hclosed', hsaved'⟩ := saved_after_of_closed hleft more (Or.inr hforgotten)
    exact (leave_of_closed hclosed').1 (hsaved'.trans hforgotten)
  · have hposture : t.posture = standing modes false := by
      rw [← houtside]
      exact posture_after hopened hcut h
    refine ⟨?_, fun arguments read alarm allowance status report q hreply =>
      reachableModes_of_standing (posture_respond hposture hreply)⟩
    intro p hp entered
    have hoff : p.posture = standing modes false := by
      rw [Processor.posture, hp]
      exact hposture
    refine ⟨fun k => ?_, fun allowance =>
      ⟨_, rfl, reachableModes_of_standing (posture_runGuarded hoff allowance)⟩⟩
    have hon : (entered.guarded true).posture = standing modes true := posture_enter hoff
    exact reachableModes_of_standing ((posture_iterate _ k).trans hon)

/-- The usual modes of a terminal. -/
def usualModes : InputModes := { canonical := true, echo := true, signals := true }

/-- A terminal is entered, something is shown on it, and a key arrives. -/
def usedOnce : List Happening := [.enter, .write 0x48, .arrive [0x41], .poll]

/-- On an output that fails. The modes are restored, and if they cannot be, that is noted behind the
failed write. -/
theorem raw_mode_of_failingOutput :
    let start := opened (.terminal usualModes {}) true fun _ => .fails "full"
    let t := start.after usedOnce
    t.host.reachableModes = some { canonical := false, echo := false, signals := true } ∧
      t.leave.1.host.reachableModes = some usualModes ∧ t.leave.2 = [.outputFailed "full"] ∧
      (start.after (usedOnce ++ [.closeInput])).leave.2 =
        [.outputFailed "full", .restoreFailed "(9, 'Bad file descriptor')"] := by
  intro start t
  have halternates : Alternates false (usedOnce ++ [.closeInput]) :=
    ⟨fun _ => rfl, by rintro ⟨⟩, by rintro ⟨⟩, by rintro ⟨⟩, by rintro ⟨⟩, trivial⟩
  have hcut : ∀ e ∈ usedOnce, ¬e.CutsOff := by
    simp [usedOnce, Happening.CutsOff]
  obtain ⟨hmodes, -⟩ := raw_mode_is_undone usualModes {} (fun _ => .fails "full")
    (alternates_of_append halternates)
  obtain ⟨-, -, hclosed, -⟩ := raw_mode_is_undone usualModes {} (fun _ => .fails "full") halternates
  obtain ⟨hinside, -, houtside, hnotices⟩ := hmodes hcut
  obtain ⟨hleave, -⟩ := hclosed usedOnce [] rfl hcut rfl (List.forall_mem_nil _)
  refine ⟨hinside, houtside, hnotices.trans (by decide), ?_⟩
  rw [hleave]
  decide

end HostTerminal

end LittleComputer
