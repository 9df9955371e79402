import LittleComputer.Proofs.Dependable

/-!
# Output as a stream

What is shown on the terminal of a host goes into a buffer, from the buffer to the output when it
is passed on, and it gets there in as many pieces as the output likes to take. At some time a
write may fail. Then what was in the buffer is lost, the failure is noted, and from there on
nothing is collected any more.

All this is one piece of bookkeeping, `LittleComputer.HostTerminal.Conveys`: as long as no write
has failed, the bytes in the output and those in the buffer are what was written, in this order;
after a failure the output holds a first part of it and the buffer nothing. Beside it
`LittleComputer.HostTerminal.Warned` keeps account of the writes and the warnings. Only the passing
on of the buffer is a matter of the output, and there `LittleComputer.Host.sends_send` says what can
come of it: everything is taken, or a first part of it and then a write fails.

What a call answers, and what becomes of the keyboard, has nothing to do with the output
(`LittleComputer.HostTerminal.SameButOutput`). So no call fails because the output does.

The main statement is `LittleComputer.HostTerminal.output_is_ordered_stream`.
-/

namespace LittleComputer

/-! ### Writes -/

namespace Host

/-- The writes from the `first`-th on, up to the `last`-th and without it, are all taken, if only
in part. -/
def Accepts (h : Host) (first last : Nat) : Prop :=
  ∀ n, first ≤ n → n < last → ∃ more, h.outcome n = .accepts more

/-- **What can come of bytes that are passed on**: every write is taken, and with the last of them
all bytes have reached the output; or a write fails, and then a first part of them has. -/
inductive Sends (h : Host) (bytes : List Byte) : Host × Option String → Prop
  | all {writes : Nat} (haccepts : h.Accepts h.writes writes) :
    Sends h bytes ({ h with delivered := bytes.reverse ++ h.delivered, writes }, none)
  | part {taken lost : List Byte} {last : Nat} {reason : String} (hbytes : taken ++ lost = bytes)
    (haccepts : h.Accepts h.writes last) (hfails : h.outcome last = .fails reason) :
    Sends h bytes
      ({ h with delivered := taken.reverse ++ h.delivered, writes := last + 1 }, some reason)

variable {h : Host} {r : Host × Option String} {b : Byte} {rest : List Byte}

theorem Accepts.trans {first mid last : Nat} (h₁ : h.Accepts first mid)
    (h₂ : h.Accepts mid last) : h.Accepts first last := by
  intro n hfirst hlast
  by_cases hmid : n < mid
  · exact h₁ n hfirst hmid
  · exact h₂ n (Nat.le_of_not_lt hmid) hlast

theorem accepts_succ {n more : Nat} (hn : h.outcome n = .accepts more) : h.Accepts n (n + 1) := by
  intro k hle hlt
  obtain rfl : k = n := by omega
  exact ⟨more, hn⟩

/-- A byte that was taken comes before the others, in the same write or in one more. -/
theorem Sends.cons {writes : Nat} (haccepts : h.Accepts h.writes writes)
    (hr : ({ h with delivered := b :: h.delivered, writes } : Host).Sends rest r) :
    h.Sends (b :: rest) r := by
  cases hr with
  | all haccepts' =>
    have hall : h.Sends (b :: rest) _ := .all (haccepts.trans haccepts')
    rw [List.reverse_cons, List.append_assoc] at hall
    exact hall
  | @part taken lost last reason hbytes haccepts' hfails =>
    have hbytes' : (b :: taken) ++ lost = b :: rest := congrArg (b :: ·) hbytes
    have hpart := Sends.part hbytes' (haccepts.trans haccepts') hfails
    rw [List.reverse_cons, List.append_assoc] at hpart
    exact hpart

theorem sends_send (h : Host) (room : Nat) (bytes : List Byte) :
    h.Sends bytes (h.send room bytes) := by
  have hnone (h : Host) : h.Accepts h.writes h.writes := fun n hle hlt => by omega
  induction bytes generalizing h room with
  | nil =>
    rw [send]
    exact .all (hnone h)
  | cons b rest ih =>
    cases room with
    | succ room =>
      rw [send]
      exact .cons (hnone h) (ih { h with delivered := b :: h.delivered } room)
    | zero =>
      rw [send]
      split
      · rename_i more hmore
        exact .cons (accepts_succ hmore) (ih _ more)
      · rename_i reason hfails
        exact .part (List.nil_append _) (hnone h) hfails

end Host

/-! ### Bookkeeping -/

/-- A notice that a write has failed. -/
def Notice.isOutputFailed : Notice → Bool
  | outputFailed _ => true
  | _ => false

namespace HostTerminal

/-- **What can come of a buffer that is passed on**: all of it has reached the output, or a first
part of it and then a write has failed, which is noted. In either case nothing is left in the
buffer. -/
inductive Flushes (t : HostTerminal) : HostTerminal × List Notice → Prop
  | all {writes : Nat} (haccepts : t.host.Accepts t.host.writes writes) :
    Flushes t ({ t with
      host := { t.host with delivered := t.buffer ++ t.host.delivered, writes }
      buffer := [] }, [])
  | part {taken lost : List Byte} {last : Nat} {reason : String}
    (hbytes : taken ++ lost = t.buffer.reverse) (haccepts : t.host.Accepts t.host.writes last)
    (hfails : t.host.outcome last = .fails reason) :
    Flushes t ({ t with
      host := { t.host with delivered := taken.reverse ++ t.host.delivered, writes := last + 1 }
      buffer := []
      broken := true }, [.outputFailed reason])

theorem flush_of_nil {t : HostTerminal} (hbuffer : t.buffer = []) : t.flush = (t, []) := by
  rw [flush, hbuffer]
  rfl

theorem flushes_flush (t : HostTerminal) : t.Flushes t.flush := by
  by_cases hempty : t.buffer = []
  · have hall : t.Flushes _ := .all (fun n hle hlt => absurd hlt (Nat.not_lt.mpr hle))
    rw [hempty, List.nil_append] at hall
    rw [flush_of_nil hempty]
    rw [← hempty] at hall
    exact hall
  · rw [flush, if_neg fun h => hempty (List.isEmpty_iff.mp h)]
    have hsends := t.host.sends_send 0 t.buffer.reverse
    generalize t.host.send 0 t.buffer.reverse = r at hsends ⊢
    cases hsends with
    | all haccepts =>
      rw [List.reverse_reverse]
      exact .all haccepts
    | part hbytes haccepts hfails => exact .part hbytes haccepts hfails

theorem buffer_flush (t : HostTerminal) : t.flush.1.buffer = [] := by
  have hflush := t.flushes_flush
  generalize t.flush = r at hflush ⊢
  cases hflush with
  | all | part => rfl

/-- **What has become of the bytes that were written**:

* either no write has failed, and what has reached the output and what is in the buffer is what
  was written;
* or a write has failed, nothing is in the buffer, and a first part of what was written has reached
  the output. -/
inductive Conveys (t : HostTerminal) (written : List Byte) : Prop
  | intact (hbroken : t.broken = false) (hwritten : t.host.output ++ t.buffer.reverse = written)
  | failed (hbroken : t.broken = true) (hbuffer : t.buffer = [])
    (hpart : t.host.output <+: written)

/-- **What was warned of**: every write was taken, and nothing was warned of; or the last write has
failed, after all others were taken, and that was warned of once. -/
inductive Warned (t : HostTerminal) : (warnings : List Notice) → Prop
  | intact (hbroken : t.broken = false) (haccepts : t.host.Accepts 0 t.host.writes) : Warned t []
  | failed {last : Nat} {reason : String} (hbroken : t.broken = true)
    (hlast : t.host.writes = last + 1) (haccepts : t.host.Accepts 0 last)
    (hfails : t.host.outcome last = .fails reason) : Warned t [.outputFailed reason]

/-- **The account of an output**, with `written` shown so far and `warnings` given of it. -/
structure Account (t : HostTerminal) (written : List Byte) (warnings : List Notice) : Prop where
  conveys : t.Conveys written
  warned : t.Warned warnings

/-- Terminals that differ in their keyboards at most. -/
structure SameOutput (t u : HostTerminal) : Prop where
  delivered : u.host.delivered = t.host.delivered
  outcome : u.host.outcome = t.host.outcome
  writes : u.host.writes = t.host.writes
  buffer : u.buffer = t.buffer
  broken : u.broken = t.broken

variable {t u v : HostTerminal} {bytes : List Byte} {warned : List Notice}

theorem SameOutput.refl (t : HostTerminal) : SameOutput t t := ⟨rfl, rfl, rfl, rfl, rfl⟩

theorem SameOutput.trans (h : SameOutput t u) (h' : SameOutput u v) : SameOutput t v :=
  ⟨h'.delivered.trans h.delivered, h'.outcome.trans h.outcome, h'.writes.trans h.writes,
    h'.buffer.trans h.buffer, h'.broken.trans h.broken⟩

theorem SameOutput.output (h : SameOutput t u) : u.host.output = t.host.output :=
  congrArg List.reverse h.delivered

/-! What has become of the bytes. -/

theorem conveys_of_nil (hbuffer : t.buffer = []) : t.Conveys t.host.output := by
  cases hbroken : t.broken with
  | false =>
    refine .intact hbroken ?_
    rw [hbuffer, List.reverse_nil, List.append_nil]
  | true => exact .failed hbroken hbuffer List.prefix_rfl

/-- The keyboard is no matter of the output. -/
theorem Conveys.of_sameOutput (h : t.Conveys bytes) (hu : SameOutput t u) : u.Conveys bytes := by
  cases h with
  | intact hbroken hwritten =>
    refine .intact (hu.broken.trans hbroken) ?_
    rw [hu.output, hu.buffer, hwritten]
  | failed hbroken hbuffer hpart =>
    refine .failed (hu.broken.trans hbroken) (hu.buffer.trans hbuffer) ?_
    rw [hu.output]
    exact hpart

/-- What reaches the output is a first part of what was written. -/
theorem Conveys.output_prefix (h : t.Conveys bytes) : t.host.output <+: bytes := by
  cases h with
  | intact _ hwritten => exact ⟨_, hwritten⟩
  | failed _ _ hpart => exact hpart

/-- As long as no write has failed and nothing is in the buffer, everything that was written has
reached the output. -/
theorem Conveys.output_eq (h : t.Conveys bytes) (hbuffer : t.buffer = [])
    (hbroken : t.broken = false) : t.host.output = bytes := by
  cases h with
  | intact _ hwritten =>
    rw [hbuffer, List.reverse_nil, List.append_nil] at hwritten
    exact hwritten
  | failed hfailed => cases hbroken.symm.trans hfailed

/-- After a failure nothing is in the buffer. -/
theorem Conveys.buffer_eq (h : t.Conveys bytes) (hbroken : t.broken = true) :
    t.buffer = [] := by
  cases h with
  | intact hintact => cases hbroken.symm.trans hintact
  | failed _ hbuffer => exact hbuffer

/-- **A byte that is shown is written**, even if it is not collected any more. -/
theorem Conveys.write (h : t.Conveys bytes) (b : Byte) : (t.write b).Conveys (bytes ++ [b]) := by
  cases h with
  | intact hbroken hwritten =>
    rw [HostTerminal.write, if_neg (by rw [hbroken]; exact Bool.false_ne_true)]
    refine .intact hbroken ?_
    change t.host.output ++ (b :: t.buffer).reverse = bytes ++ [b]
    rw [List.reverse_cons, ← List.append_assoc, hwritten]
  | failed hbroken hbuffer hpart =>
    rw [HostTerminal.write, if_pos hbroken]
    exact .failed hbroken hbuffer (hpart.trans (List.prefix_append bytes [b]))

/-- **What is passed on reaches the output in order**, up to a failure. -/
theorem Conveys.flush (h : t.Conveys bytes) : t.flush.1.Conveys bytes := by
  cases h with
  | failed hbroken hbuffer hpart =>
    rw [flush_of_nil hbuffer]
    exact .failed hbroken hbuffer hpart
  | intact hbroken hwritten =>
    have hflush := t.flushes_flush
    generalize t.flush = r at hflush ⊢
    cases hflush with
    | all =>
      refine .intact hbroken ?_
      change (t.buffer ++ t.host.delivered).reverse ++ [] = bytes
      rw [List.append_nil, List.reverse_append]
      exact hwritten
    | @part taken lost last reason hbytes =>
      refine .failed rfl rfl ?_
      change (taken.reverse ++ t.host.delivered).reverse <+: bytes
      rw [List.reverse_append, List.reverse_reverse, ← hwritten, ← hbytes, ← List.append_assoc]
      exact List.prefix_append _ lost

/-! What was warned of. -/

theorem Warned.of_same (h : t.Warned warned) (hwrites : u.host.writes = t.host.writes)
    (houtcome : u.host.outcome = t.host.outcome) (hbroken : u.broken = t.broken) :
    u.Warned warned := by
  have haccepts : ∀ {n}, t.host.Accepts 0 n → u.host.Accepts 0 n := by
    intro n hn k hle hlt
    rw [houtcome]
    exact hn k hle hlt
  cases h with
  | intact hintact hall =>
    refine .intact (hbroken.trans hintact) ?_
    rw [hwrites]
    exact haccepts hall
  | failed hfailed hlast hall hfails =>
    refine .failed (hbroken.trans hfailed) (hwrites.trans hlast) (haccepts hall) ?_
    rw [houtcome]
    exact hfails

/-! The account as a whole. -/

theorem Account.of_sameOutput (h : t.Account bytes warned) (hu : SameOutput t u) :
    u.Account bytes warned :=
  ⟨h.conveys.of_sameOutput hu, h.warned.of_same hu.writes hu.outcome hu.broken⟩

theorem write_same (t : HostTerminal) (b : Byte) :
    (t.write b).host = t.host ∧ (t.write b).broken = t.broken := by
  unfold write
  split <;> exact ⟨rfl, rfl⟩

theorem Account.foldl_write (h : t.Account bytes warned) (more : List Byte) :
    (more.foldl HostTerminal.write t).Account (bytes ++ more) warned := by
  induction more generalizing t bytes with
  | nil =>
    rw [List.append_nil]
    exact h
  | cons b rest ih =>
    rw [List.append_cons]
    obtain ⟨hhost, hbroken⟩ := t.write_same b
    exact ih ⟨h.conveys.write b,
      h.warned.of_same (congrArg Host.writes hhost) (congrArg Host.outcome hhost) hbroken⟩

/-- **A failure is warned of when it happens.** -/
theorem Account.flush (h : t.Account bytes warned) :
    t.flush.1.Account bytes (warned ++ t.flush.2) := by
  refine ⟨h.conveys.flush, ?_⟩
  cases h.warned with
  | failed hbroken hlast haccepts hfails =>
    rw [flush_of_nil (h.conveys.buffer_eq hbroken), List.append_nil]
    exact .failed hbroken hlast haccepts hfails
  | intact hbroken haccepts =>
    have hflush := t.flushes_flush
    generalize t.flush = r at hflush ⊢
    cases hflush with
    | all hall => exact .intact hbroken (haccepts.trans hall)
    | part _ hall hfails => exact .failed rfl rfl (haccepts.trans hall) hfails

/-- A read waits with everything passed on, if it waits at all. -/
theorem waiting_cases (t : HostTerminal) : t.waiting = none ∨ t.waiting = some t.flush := by
  unfold waiting
  split
  · exact Or.inl rfl
  · exact Or.inr rfl

theorem eq_flush_of_waiting {ns : List Notice} (h : t.waiting = some (u, ns)) :
    u = t.flush.1 := by
  rcases t.waiting_cases with hw | hw
  · cases h.symm.trans hw
  · exact congrArg Prod.fst (Option.some.inj (h.symm.trans hw))

/-! ### Going on -/

/-- What has reached the output of one host is a first part of what has reached that of the other,
which answers writes as the one does. -/
structure Continues (h h' : Host) : Prop where
  outcome : h'.outcome = h.outcome
  output : h.output <+: h'.output

theorem Continues.trans {h h' h'' : Host} (h₁ : Continues h h') (h₂ : Continues h' h'') :
    Continues h h'' := ⟨h₂.outcome.trans h₁.outcome, h₁.output.trans h₂.output⟩

theorem SameOutput.continues (h : SameOutput t u) : Continues t.host u.host :=
  ⟨h.outcome, h.output ▸ List.prefix_rfl⟩

theorem continues_flush (t : HostTerminal) : Continues t.host t.flush.1.host := by
  have hflush := t.flushes_flush
  generalize t.flush = r at hflush ⊢
  -- However much of the bytes was taken, it was put behind what was there.
  cases hflush with
  | all | part =>
    refine ⟨rfl, ?_⟩
    dsimp only [Host.output]
    rw [List.reverse_append]
    exact List.prefix_append _ _

theorem host_foldl_write (t : HostTerminal) (bytes : List Byte) :
    (bytes.foldl write t).host = t.host := by
  induction bytes generalizing t with
  | nil => rfl
  | cons b rest ih => exact (ih (t.write b)).trans (t.write_same b).1

theorem foldl_write_of_broken (hbroken : t.broken = true) (bytes : List Byte) :
    bytes.foldl write t = t := by
  induction bytes with
  | nil => rfl
  | cons b rest ih =>
    rw [List.foldl_cons, write, if_pos hbroken]
    exact ih

/-! ### What does not concern the output -/

theorem sameOutput_poll (t : HostTerminal) : SameOutput t t.poll.2 := by
  unfold poll
  split
  · exact .refl t
  · split
    · exact .refl t
    · split
      · exact .refl t
      · split <;> exact ⟨rfl, rfl, rfl, rfl, rfl⟩

theorem sameOutput_take (t : HostTerminal) : SameOutput t t.take.2 := by
  unfold take
  split
  · exact .refl t
  · split <;> exact ⟨rfl, rfl, rfl, rfl, rfl⟩

/-- To prepare the terminal does not concern the output. -/
theorem sameOutput_enter (t : HostTerminal) :
    SameOutput t t.enter.1 ∧ t.enter.2.filter Notice.isOutputFailed = [] := by
  unfold enter
  split
  · exact ⟨.refl t, rfl⟩
  · exact ⟨⟨rfl, rfl, rfl, rfl, rfl⟩, rfl⟩

/-- To leave the terminal passes on what was shown, and for the rest does not concern the
output. -/
theorem sameOutput_leave (t : HostTerminal) :
    SameOutput t.flush.1 t.leave.1 ∧ t.leave.2.filter Notice.isOutputFailed =
      t.flush.2.filter Notice.isOutputFailed := by
  unfold leave
  rcases t.flush with ⟨u, ns⟩
  dsimp only
  split
  · exact ⟨.refl u, rfl⟩
  · split
    · exact ⟨⟨rfl, rfl, rfl, rfl, rfl⟩, rfl⟩
    · refine ⟨⟨rfl, rfl, rfl, rfl, rfl⟩, ?_⟩
      rw [List.filter_append]
      exact List.append_nil _

/-- **A read** answers at once, or takes what it answers after everything was passed on. -/
theorem read_cases (t : HostTerminal) :
    (t.waiting = none ∧ SameOutput t t.read.2.1 ∧ t.read.2.2 = []) ∨
    t.waiting = some t.flush ∧ t.read = (t.flush.1.take.1, t.flush.1.take.2, t.flush.2) := by
  unfold read
  cases hp : t.pending with
  | some key =>
    refine Or.inl ⟨?_, ⟨rfl, rfl, rfl, rfl, rfl⟩, rfl⟩
    rw [waiting, hp]
    rfl
  | none =>
    dsimp only
    rcases t.waiting_cases with hw | hw <;> rw [hw]
    · exact Or.inl ⟨rfl, .refl t, rfl⟩
    · exact Or.inr ⟨rfl, rfl⟩

/-- Nothing but a failed write is noted when the buffer is passed on. -/
theorem filter_flush (t : HostTerminal) :
    t.flush.2.filter Notice.isOutputFailed = t.flush.2 := by
  have hflush := t.flushes_flush
  generalize t.flush = r at hflush ⊢
  cases hflush with
  | all | part => rfl

/-! ### What does not hang on the output -/

/-- Terminals that differ in their outputs at most, and in what they have collected for them. -/
structure SameButOutput (t u : HostTerminal) : Prop extends SameInput t u where
  saved : u.saved = t.saved

theorem sameButOutput_write (t : HostTerminal) (b : Byte) : SameButOutput t (t.write b) :=
  ⟨sameInput_write t b, by unfold write; split <;> rfl⟩

theorem sameButOutput_flush (t : HostTerminal) : SameButOutput t t.flush.1 := by
  have hflush := t.flushes_flush
  generalize t.flush = r at hflush ⊢
  cases hflush with
  | all | part => exact ⟨⟨rfl, rfl, rfl, rfl⟩, rfl⟩

theorem SameButOutput.symm (h : SameButOutput t u) : SameButOutput u t :=
  ⟨⟨h.pending.symm, h.ended.symm, h.input.symm, h.isOpen.symm⟩, h.saved.symm⟩

theorem SameButOutput.trans (h : SameButOutput t u) (h' : SameButOutput u v) : SameButOutput t v :=
  ⟨⟨h'.pending.trans h.pending, h'.ended.trans h.ended, h'.input.trans h.input,
    h'.isOpen.trans h.isOpen⟩, h'.saved.trans h.saved⟩

theorem sameButOutput_foldl_write (t : HostTerminal) (bytes : List Byte) :
    SameButOutput t (bytes.foldl HostTerminal.write t) := by
  induction bytes generalizing t with
  | nil => exact ⟨⟨rfl, rfl, rfl, rfl⟩, rfl⟩
  | cons b rest ih => exact (sameButOutput_write t b).trans (ih (t.write b))

theorem SameButOutput.write (h : SameButOutput t u) (b : Byte) :
    SameButOutput (t.write b) (u.write b) :=
  ((sameButOutput_write t b).symm.trans h).trans (sameButOutput_write u b)

theorem SameButOutput.foldl_write (h : SameButOutput t u) (bytes : List Byte) :
    SameButOutput (bytes.foldl HostTerminal.write t) (bytes.foldl HostTerminal.write u) :=
  ((sameButOutput_foldl_write t bytes).symm.trans h).trans (sameButOutput_foldl_write u bytes)

theorem SameButOutput.flush (h : SameButOutput t u) : SameButOutput t.flush.1 u.flush.1 :=
  ((sameButOutput_flush t).symm.trans h).trans (sameButOutput_flush u)

/-- **A poll answers the same whatever the output.** -/
theorem SameButOutput.poll (h : SameButOutput t u) :
    t.poll.1 = u.poll.1 ∧ SameButOutput t.poll.2 u.poll.2 := by
  unfold HostTerminal.poll
  rw [h.pending, h.ended, h.isOpen, h.input]
  split
  · exact ⟨rfl, h⟩
  · split
    · exact ⟨rfl, h⟩
    · split
      · exact ⟨rfl, h⟩
      · split
        · exact ⟨rfl, ⟨⟨rfl, rfl, rfl, h.isOpen⟩, h.saved⟩⟩
        · exact ⟨rfl, ⟨⟨rfl, rfl, rfl, h.isOpen⟩, h.saved⟩⟩
        · exact ⟨rfl, h⟩

theorem SameButOutput.take (h : SameButOutput t u) :
    t.take.1 = u.take.1 ∧ SameButOutput t.take.2 u.take.2 := by
  unfold HostTerminal.take
  rw [h.isOpen, h.input]
  split
  · exact ⟨rfl, h⟩
  · split
    · exact ⟨rfl, ⟨⟨h.pending, h.ended, rfl, h.isOpen⟩, h.saved⟩⟩
    · exact ⟨rfl, ⟨⟨h.pending, rfl, rfl, h.isOpen⟩, h.saved⟩⟩
    · exact ⟨rfl, h⟩

/-- **Whether a read waits is no matter of the output**, and it waits with everything passed
on. -/
theorem SameButOutput.waiting (h : SameButOutput t u) :
    (t.waiting = none ∧ u.waiting = none) ∨
      t.waiting = some t.flush ∧ u.waiting = some u.flush := by
  unfold HostTerminal.waiting
  rw [h.pending, h.ended]
  split
  · exact Or.inl ⟨rfl, rfl⟩
  · exact Or.inr ⟨rfl, rfl⟩

theorem SameButOutput.isSome_waiting (h : SameButOutput t u) :
    t.waiting.isSome = u.waiting.isSome := by
  rcases h.waiting with ⟨ht, hu⟩ | ⟨ht, hu⟩ <;> rw [ht, hu]
  rfl

/-- **A read answers the same whatever the output.** -/
theorem SameButOutput.read (h : SameButOutput t u) :
    t.read.1 = u.read.1 ∧ SameButOutput t.read.2.1 u.read.2.1 := by
  unfold HostTerminal.read
  rw [h.pending]
  cases t.pending with
  | some key => exact ⟨rfl, ⟨⟨rfl, h.ended, h.input, h.isOpen⟩, h.saved⟩⟩
  | none =>
    dsimp only
    rcases h.waiting with ⟨ht, hu⟩ | ⟨ht, hu⟩ <;> rw [ht, hu]
    · exact ⟨rfl, h⟩
    · exact h.flush.take

theorem SameButOutput.enter (h : SameButOutput t u) :
    t.enter.2 = u.enter.2 ∧ SameButOutput t.enter.1 u.enter.1 := by
  unfold HostTerminal.enter Host.reachableModes
  rw [h.isOpen, h.input]
  split
  · exact ⟨rfl, h⟩
  · rename_i m _
    refine ⟨rfl, ⟨⟨h.pending, h.ended, ?_, h.isOpen⟩, rfl⟩⟩
    exact congrArg (Input.setModes m.raw) h.input

/-- **The modes are restored whatever the output.** What is noted beyond a failed write is the
same. -/
theorem SameButOutput.leave (h : SameButOutput t u) :
    SameButOutput t.leave.1 u.leave.1 ∧
      ∃ ns, t.leave.2 = t.flush.2 ++ ns ∧ u.leave.2 = u.flush.2 ++ ns := by
  have hflush := h.flush
  unfold HostTerminal.leave
  generalize t.flush = r at hflush ⊢
  generalize u.flush = s at hflush ⊢
  obtain ⟨t', nt⟩ := r
  obtain ⟨u', nu⟩ := s
  dsimp only at hflush ⊢
  rw [hflush.saved]
  cases t'.saved with
  | none => exact ⟨hflush, [], (List.append_nil _).symm, (List.append_nil _).symm⟩
  | some m =>
    dsimp only [Host.reachableModes, Host.unreachableReason]
    rw [hflush.isOpen, hflush.input]
    split
    · refine ⟨⟨⟨hflush.pending, hflush.ended, ?_, hflush.isOpen⟩, rfl⟩, [],
        (List.append_nil _).symm, (List.append_nil _).symm⟩
      exact congrArg (Input.setModes m) hflush.input
    · exact ⟨⟨⟨hflush.pending, hflush.ended, hflush.input, hflush.isOpen⟩, rfl⟩, _, rfl, rfl⟩

/-! ### What happens at a terminal -/

/-- What a call of the terminal answers. -/
inductive Response
  /-- Nothing. -/
  | done
  /-- Whether a key is there. -/
  | ready (found : Bool)
  /-- A key. -/
  | key (b : Byte)

/-- What happens at a terminal: it is called, or something comes of its input. -/
inductive Happening
  /-- Show the byte congruent to an integer. -/
  | write (char : Int)
  /-- Show the bytes of a text. -/
  | writeText (text : String)
  /-- Pass on everything shown so far. -/
  | flush
  /-- Ask whether a key is there. -/
  | poll
  /-- Take the next key. -/
  | read
  /-- Take the next key, but be interrupted if that means to wait. -/
  | readInterrupted
  /-- Prepare the terminal for a run. -/
  | enter
  /-- Pass on everything shown and restore what was prepared. -/
  | leave
  /-- Further bytes arrive. -/
  | arrive (bytes : List Byte)
  /-- No further byte will arrive. -/
  | finish
  /-- The input is closed. -/
  | closeInput

namespace Happening

/-- What comes of a happening: an answer, the terminal afterwards, and the notices. -/
def perform (t : HostTerminal) :
    Happening → Except Failure Response × HostTerminal × List Notice
  | write char => (.ok .done, t.write (byteOf char), [])
  | writeText text => (.ok .done, t.writeText text, [])
  | flush => (.ok .done, t.flush)
  | poll => (t.poll.1.map .ready, t.poll.2, [])
  | read => (t.read.1.map .key, t.read.2)
  | readInterrupted =>
    match t.waiting with
    | some waits => (.error (.wait .cutShort), waits)
    | none => (t.read.1.map .key, t.read.2)
  | enter => (.ok .done, t.enter)
  | leave => (.ok .done, t.leave)
  | arrive bytes => (.ok .done, { t with host := t.host.feed bytes }, [])
  | finish => (.ok .done, { t with host := t.host.finish }, [])
  | closeInput => (.ok .done, { t with host := t.host.closeInput }, [])

/-- The bytes that are shown. -/
def shown : Happening → List Byte
  | write char => [byteOf char]
  | writeText text => bytesOfText text
  | _ => []

end Happening

/-- Until it waits a read does not concern the output; and when it waits, everything has been
passed on. -/
theorem sameOutput_read (t : HostTerminal) :
    (SameOutput t t.read.2.1 ∧ t.read.2.2.filter Notice.isOutputFailed = []) ∨
      SameOutput t.flush.1 t.read.2.1 ∧ t.read.2.2.filter Notice.isOutputFailed = t.flush.2 := by
  rcases t.read_cases with ⟨-, hsame, hns⟩ | ⟨hwaiting, hread⟩
  · rw [hns]
    exact Or.inl ⟨hsame, rfl⟩
  · rw [hread]
    exact Or.inr ⟨sameOutput_take t.flush.1, filter_flush t⟩

/-- **All that can happen to an output**: bytes are shown, or what was shown is passed on. -/
theorem output_cases (t : HostTerminal) (e : Happening) :
    (SameOutput (e.shown.foldl write t) (e.perform t).2.1 ∧
      (e.perform t).2.2.filter Notice.isOutputFailed = []) ∨
    (e.shown = [] ∧ SameOutput t.flush.1 (e.perform t).2.1 ∧
      (e.perform t).2.2.filter Notice.isOutputFailed = t.flush.2) := by
  have hread : (SameOutput t t.read.2.1 ∧ t.read.2.2.filter Notice.isOutputFailed = []) ∨
      ([] : List Byte) = [] ∧ SameOutput t.flush.1 t.read.2.1 ∧
        t.read.2.2.filter Notice.isOutputFailed = t.flush.2 :=
    t.sameOutput_read.imp_right fun h => ⟨rfl, h⟩
  cases e with
  | write | writeText => exact Or.inl ⟨.refl _, rfl⟩
  | flush => exact Or.inr ⟨rfl, .refl _, filter_flush t⟩
  | poll => exact Or.inl ⟨sameOutput_poll t, rfl⟩
  | read => exact hread
  | readInterrupted =>
    dsimp only [Happening.perform]
    rcases t.waiting_cases with hw | hw <;> rw [hw]
    · exact hread
    · exact Or.inr ⟨rfl, .refl _, filter_flush t⟩
  | enter => exact Or.inl (sameOutput_enter t)
  | leave =>
    obtain ⟨hsame, hns⟩ := sameOutput_leave t
    exact Or.inr ⟨rfl, hsame, hns.trans (filter_flush t)⟩
  | arrive | finish | closeInput => exact Or.inl ⟨⟨rfl, rfl, rfl, rfl, rfl⟩, rfl⟩

/-- **The account is kept whatever happens.** -/
theorem Account.perform (h : t.Account bytes warned) (e : Happening) :
    (e.perform t).2.1.Account (bytes ++ e.shown)
      (warned ++ (e.perform t).2.2.filter Notice.isOutputFailed) := by
  rcases t.output_cases e with ⟨hsame, hns⟩ | ⟨hshown, hsame, hns⟩
  · rw [hns, List.append_nil]
    exact (h.foldl_write e.shown).of_sameOutput hsame
  · rw [hns, hshown, List.append_nil]
    exact h.flush.of_sameOutput hsame

/-- **What has reached the output stays there**, and more comes behind it. -/
theorem continues_perform (t : HostTerminal) (e : Happening) :
    Continues t.host (e.perform t).2.1.host := by
  rcases t.output_cases e with ⟨hsame, -⟩ | ⟨-, hsame, -⟩
  · have hcontinues := hsame.continues
    rw [host_foldl_write] at hcontinues
    exact hcontinues
  · exact (continues_flush t).trans hsame.continues

/-- **After a failure nothing concerns the output any more.** -/
theorem sameOutput_perform_of_broken (hbroken : t.broken = true) (hbuffer : t.buffer = [])
    (e : Happening) : SameOutput t (e.perform t).2.1 := by
  rcases t.output_cases e with ⟨hsame, -⟩ | ⟨-, hsame, -⟩
  · rw [foldl_write_of_broken hbroken] at hsame
    exact hsame
  · rw [flush_of_nil hbuffer] at hsame
    exact hsame

/-- **What happens is the same whatever the output.** -/
theorem SameButOutput.perform (h : SameButOutput t u) (e : Happening) :
    (e.perform t).1 = (e.perform u).1 ∧ SameButOutput (e.perform t).2.1 (e.perform u).2.1 := by
  obtain ⟨hanswer, hread⟩ := h.read
  cases e with
  | write char => exact ⟨rfl, h.write _⟩
  | writeText text => exact ⟨rfl, h.foldl_write (bytesOfText text)⟩
  | flush => exact ⟨rfl, h.flush⟩
  | poll => exact ⟨congrArg (Except.map Response.ready) h.poll.1, h.poll.2⟩
  | read => exact ⟨congrArg (Except.map Response.key) hanswer, hread⟩
  | readInterrupted =>
    dsimp only [Happening.perform]
    rcases h.waiting with ⟨ht, hu⟩ | ⟨ht, hu⟩ <;> rw [ht, hu]
    · exact ⟨congrArg (Except.map Response.key) hanswer, hread⟩
    · exact ⟨rfl, h.flush⟩
  | enter => exact ⟨rfl, h.enter.2⟩
  | leave => exact ⟨rfl, h.leave.1⟩
  | arrive bytes =>
    exact ⟨rfl, ⟨⟨h.pending, h.ended, congrArg (Input.feed bytes) h.input, h.isOpen⟩, h.saved⟩⟩
  | finish =>
    exact ⟨rfl, ⟨⟨h.pending, h.ended, congrArg Input.finish h.input, h.isOpen⟩, h.saved⟩⟩
  | closeInput => exact ⟨rfl, ⟨⟨h.pending, h.ended, h.input, rfl⟩, h.saved⟩⟩

/-! ### Any sequence of happenings -/

/-- The terminal after some happenings. -/
def after (t : HostTerminal) : List Happening → HostTerminal
  | [] => t
  | e :: rest => (e.perform t).2.1.after rest

/-- What each of some happenings answers. -/
def answers (t : HostTerminal) : List Happening → List (Except Failure Response)
  | [] => []
  | e :: rest => (e.perform t).1 :: (e.perform t).2.1.answers rest

/-- The notices that some happenings leave of the output. -/
def warnings (t : HostTerminal) : List Happening → List Notice
  | [] => []
  | e :: rest =>
    (e.perform t).2.2.filter Notice.isOutputFailed ++ (e.perform t).2.1.warnings rest

/-- The bytes that some happenings show, in order. -/
def written (happenings : List Happening) : List Byte := happenings.flatMap Happening.shown

theorem Account.after (h : t.Account bytes warned) (happenings : List Happening) :
    (t.after happenings).Account (bytes ++ written happenings)
      (warned ++ t.warnings happenings) := by
  induction happenings generalizing t bytes warned with
  | nil =>
    rw [written, List.flatMap_nil, List.append_nil, warnings, List.append_nil]
    exact h
  | cons e rest ih =>
    rw [written, List.flatMap_cons, warnings, ← List.append_assoc, ← List.append_assoc]
    exact ih (h.perform e)

theorem continues_after (t : HostTerminal) (happenings : List Happening) :
    Continues t.host (t.after happenings).host := by
  induction happenings generalizing t with
  | nil => exact ⟨rfl, List.prefix_rfl⟩
  | cons e rest ih => exact (continues_perform t e).trans (ih _)

theorem sameOutput_after_of_broken (hbroken : t.broken = true) (hbuffer : t.buffer = [])
    (happenings : List Happening) : SameOutput t (t.after happenings) := by
  induction happenings generalizing t with
  | nil => exact .refl t
  | cons e rest ih =>
    have hsame := sameOutput_perform_of_broken hbroken hbuffer e
    exact hsame.trans (ih (hsame.broken.trans hbroken) (hsame.buffer.trans hbuffer))

theorem SameButOutput.answers (h : SameButOutput t u) (happenings : List Happening) :
    t.answers happenings = u.answers happenings := by
  induction happenings generalizing t u with
  | nil => rfl
  | cons e rest ih =>
    obtain ⟨hanswer, hafter⟩ := h.perform e
    rw [HostTerminal.answers, HostTerminal.answers, hanswer, ih hafter]

/-! ### Main statement -/

/-- A terminal on a host that nothing has happened at. -/
def opened (input : Input) (isOpen : Bool) (outcome : Nat → WriteOutcome) : HostTerminal :=
  { host := { input, isOpen, outcome } }

theorem account_opened (input : Input) (isOpen : Bool) (outcome : Nat → WriteOutcome) :
    (opened input isOpen outcome).Account [] [] :=
  ⟨conveys_of_nil rfl, .intact rfl fun n _ hlt => absurd hlt (Nat.not_lt_zero n)⟩

/-- **The output is one stream in order, and it fails once.** Whatever happens at a terminal, in
whatever order, and whatever the output makes of each write:

* What has reached the output is a first part of what was written. It is never taken back, and
  what comes later comes behind it.
* As long as no write has failed, it is all of what was written: when the buffer has been passed
  on, when the terminal has been left, and while a read waits.
* Once a write has failed, nothing reaches the output any more, and nothing more is tried.
* What each call answers is what it answers on any other output, so none fails because of the
  output.
* Either no write has failed and none was warned of; or the last write has failed, it was the
  first to fail, and it was warned of once. -/
theorem output_is_ordered_stream (input : Input) (isOpen : Bool) (outcome : Nat → WriteOutcome)
    (happenings : List Happening) :
    let start := opened input isOpen outcome
    let t := start.after happenings
    (t.host.output <+: written happenings ∧
      ∀ more, t.host.output <+: (t.after more).host.output) ∧
    (∀ u, u = t.flush.1 ∨ u = t.leave.1 ∨ (∃ ns, t.waiting = some (u, ns)) →
      u.broken = false → u.host.output = written happenings) ∧
    (t.broken = true → ∀ more, (t.after more).host.output = t.host.output ∧
      (t.after more).host.writes = t.host.writes) ∧
    (∀ outcome', start.answers happenings =
      (opened input isOpen outcome').answers happenings) ∧
    ((t.broken = false ∧ (∀ n < t.host.writes, ∃ more, outcome n = .accepts more) ∧
        start.warnings happenings = []) ∨
      ∃ last reason, t.broken = true ∧ t.host.writes = last + 1 ∧
        (∀ n < last, ∃ more, outcome n = .accepts more) ∧ outcome last = .fails reason ∧
        start.warnings happenings = [.outputFailed reason]) := by
  intro start t
  have haccount : t.Account (written happenings) (start.warnings happenings) :=
    (account_opened input isOpen outcome).after happenings
  have houtcome : t.host.outcome = outcome := (continues_after start happenings).outcome
  have hconveys := haccount.conveys
  refine ⟨⟨hconveys.output_prefix, fun more => (continues_after t more).output⟩, ?_, ?_, ?_, ?_⟩
  · rintro u (rfl | rfl | ⟨ns, hwaiting⟩) hbroken
    · exact hconveys.flush.output_eq t.buffer_flush hbroken
    · obtain ⟨hsame, -⟩ := sameOutput_leave t
      exact (hconveys.flush.of_sameOutput hsame).output_eq
        (hsame.buffer.trans t.buffer_flush) hbroken
    · obtain rfl := eq_flush_of_waiting hwaiting
      exact hconveys.flush.output_eq t.buffer_flush hbroken
  · intro hbroken more
    have hsame := sameOutput_after_of_broken hbroken (hconveys.buffer_eq hbroken) more
    exact ⟨hsame.output, hsame.writes⟩
  · intro outcome'
    have hstart : SameButOutput start (opened input isOpen outcome') :=
      ⟨⟨rfl, rfl, rfl, rfl⟩, rfl⟩
    exact hstart.answers happenings
  · rw [← houtcome]
    have hwarned := haccount.warned
    generalize start.warnings happenings = warned at hwarned ⊢
    cases hwarned with
    | intact hbroken haccepts =>
      exact Or.inl ⟨hbroken, fun n hn => haccepts n (Nat.zero_le n) hn, rfl⟩
    | @failed last reason hbroken hlast haccepts hfails =>
      exact Or.inr ⟨last, reason, hbroken, hlast, fun n hn => haccepts n (Nat.zero_le n) hn,
        hfails, rfl⟩

/-- An output that takes one byte and then fails. Of the two bytes that were written the first has
reached it, the failure was warned of once, and what is written later is lost. -/
theorem output_is_ordered_stream_one_byte :
    let outcome := fun n => if n = 0 then WriteOutcome.accepts 0 else .fails "full"
    let happenings := [Happening.write 0x48, .write 0x16F, .flush]
    let t := (opened (.stream [] false) true outcome).after happenings
    t.broken = true ∧ t.host.output = [0x48] ∧ written happenings = [0x48, 0x6F] ∧
      (t.after [.write 0x21, .flush]).host.output = [0x48] ∧
      (opened (.stream [] false) true outcome).warnings happenings = [.outputFailed "full"] := by
  intro outcome happenings t
  obtain ⟨-, -, hbroken, -, -⟩ :=
    output_is_ordered_stream (.stream [] false) true outcome happenings
  have hfailed : t.broken = true := by decide
  have houtput : t.host.output = [0x48] := by decide
  refine ⟨hfailed, houtput, by decide, ?_, by decide⟩
  rw [← houtput]
  exact (hbroken hfailed [.write 0x21, .flush]).1

end HostTerminal

end LittleComputer
