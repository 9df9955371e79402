import LittleComputer.Proofs.Abreast
import LittleComputer.Proofs.CycleLimit
import LittleComputer.Terminal.Host
import LittleComputer.Terminal.Scripted

/-!
# A host and a script in each other's place

A host whose input holds some keys and then ends, and whose output takes every write, is
to a machine what a script of these keys is. The two are in different shape: the host
has the keys in its input, but for one that a poll may have taken, and what is shown is in
part in a buffer and in part delivered; the script has a list of keys and a list of bytes.
`LittleComputer.HostTerminal.Mirrors` puts the shapes beside each other. Every call keeps
it (`LittleComputer.lockStep_mirrors`), and the answers are the same but for the wording
of the failure that there is no further key.

So everything that is known of machines in lock-step holds of a machine on a host and one
on a script, whatever the pieces are in which the output takes what is written. The main
statement is `LittleComputer.host_interchangeable_with_script`.
-/

namespace LittleComputer

/-- Failures that differ at most in how they say that there is no further key. -/
inductive Failure.SameCause : Failure → Failure → Prop
  | refl (f : Failure) : SameCause f f
  | noFurtherKey : SameCause (.hostIO .endOfInput) (.hostIO .inputExhausted)

/-! ### Passing on -/

namespace Host

/-- An output that takes every write, if only in part. -/
def IsWilling (h : Host) : Prop := ∀ n, ∃ more, h.outcome n = .accepts more

/-- **A willing output takes all bytes in the end**, whatever it takes at once. -/
theorem send_of_isWilling {h : Host} (hw : h.IsWilling) (room : Nat) (bytes : List Byte) :
    ∃ writes, h.send room bytes =
      ({ h with delivered := bytes.reverse ++ h.delivered, writes }, none) := by
  induction bytes generalizing h room with
  | nil => exact ⟨h.writes, by rw [send]; rfl⟩
  | cons b rest ih =>
    cases room with
    | zero =>
      obtain ⟨more, hmore⟩ := hw h.writes
      have hw' : ({ h with delivered := b :: h.delivered, writes := h.writes + 1 } :
          Host).IsWilling := hw
      obtain ⟨writes, hsend⟩ := ih hw' more
      refine ⟨writes, ?_⟩
      simp only [send, hmore, hsend, List.reverse_cons, List.append_assoc, List.singleton_append]
    | succ room =>
      have hw' : ({ h with delivered := b :: h.delivered } : Host).IsWilling := hw
      obtain ⟨writes, hsend⟩ := ih hw' room
      refine ⟨writes, ?_⟩
      simp only [send, hsend, List.reverse_cons, List.append_assoc, List.singleton_append]

end Host

/-! ### The two terminals beside each other -/

namespace HostTerminal

/-- **A terminal on the host mirrors a script**: its input can be read and is a stream
that has ended, its output takes every write and has not failed, and

* the key held back, if there is one, and what is unread are the keys to come, of which
  there are none once the end was seen;
* what was delivered and what is in the buffer is what was shown. -/
structure Mirrors (t : HostTerminal) (s : ScriptedTerminal) : Prop where
  isOpen : t.host.isOpen = true
  isWilling : t.host.IsWilling
  intact : t.broken = false
  unsaved : t.saved = none
  keys : ∃ unread, t.host.input = .stream unread true ∧ t.pending.toList ++ unread = s.keys
  ended : t.ended = true → s.keys = []
  shown : t.buffer ++ t.host.delivered = s.shown

variable {t : HostTerminal} {s : ScriptedTerminal}

/-- A flush moves the buffer to what was delivered, and does nothing else that counts. -/
theorem Mirrors.flush (h : Mirrors t s) :
    Mirrors t.flush.1 s ∧ t.flush.2 = [] ∧ t.flush.1.buffer = [] ∧
      t.flush.1.pending = t.pending ∧ t.flush.1.ended = t.ended := by
  unfold HostTerminal.flush
  by_cases hb : t.buffer.isEmpty = true
  · rw [if_pos hb]
    exact ⟨h, rfl, List.isEmpty_iff.mp hb, rfl, rfl⟩
  · rw [if_neg hb]
    obtain ⟨writes, hsend⟩ := Host.send_of_isWilling h.isWilling 0 t.buffer.reverse
    simp only [hsend, List.reverse_reverse]
    exact ⟨{ h with shown := h.shown }, trivial, trivial, trivial, trivial⟩

/-- **A poll answers the same on both sides.** On the host it takes what it finds: a
key, which it holds back, or the end. -/
theorem Mirrors.poll (h : Mirrors t s) : t.poll.1 = s.poll.1 ∧ Mirrors t.poll.2 s := by
  obtain ⟨unread, hinput, hkeys⟩ := h.keys
  have hscript : s.poll.1 = .ok !s.keys.isEmpty := rfl
  rw [hscript, ← hkeys]
  cases hp : t.pending with
  | some key =>
    have hpoll : t.poll = (.ok true, t) := by simp [HostTerminal.poll, hp]
    rw [hpoll]
    exact ⟨rfl, h⟩
  | none =>
    rw [hp] at hkeys
    cases he : t.ended with
    | true =>
      have hpoll : t.poll = (.ok false, t) := by simp [HostTerminal.poll, hp, he]
      have hnone : unread = [] := hkeys.trans (h.ended he)
      rw [hpoll, hnone]
      exact ⟨rfl, h⟩
    | false =>
      cases unread with
      | nil =>
        have hpoll : t.poll = (.ok false, { t with
            ended := true
            host := { t.host with input := .stream [] true } }) := by
          simp [HostTerminal.poll, hp, he, h.isOpen, hinput, Input.take]
        rw [hpoll]
        exact ⟨rfl, { h with keys := ⟨[], rfl, hp ▸ hkeys⟩, ended := fun _ => hkeys.symm }⟩
      | cons key rest =>
        have hpoll : t.poll = (.ok true, { t with
            pending := some key
            host := { t.host with input := .stream rest true } }) := by
          simp [HostTerminal.poll, hp, he, h.isOpen, hinput, Input.take]
        rw [hpoll]
        refine ⟨rfl, { h with keys := ⟨rest, rfl, hkeys⟩, ended := fun hc => ?_ }⟩
        cases he.symm.trans hc

theorem Mirrors.write (h : Mirrors t s) (b : Byte) : Mirrors (t.write b) (s.write b) := by
  unfold HostTerminal.write
  rw [if_neg (by rw [h.intact]; exact Bool.false_ne_true)]
  exact { h with shown := congrArg (b :: ·) h.shown }

theorem Mirrors.take (h : Mirrors t s) (hp : t.pending = none) (he : t.ended = false) :
    Alike Failure.SameCause t.take.1 s.read.1 ∧ Mirrors t.take.2 s.read.2.1 := by
  obtain ⟨unread, hinput, hkeys⟩ := h.keys
  rw [hp] at hkeys
  cases unread with
  | nil =>
    have hnone : s.keys = [] := hkeys.symm
    have hread : s.read = (.error (.hostIO .inputExhausted), s, []) := by
      rw [ScriptedTerminal.read, hnone]
    have htake : t.take = (.error (.hostIO .endOfInput), { t with
        ended := true
        host := { t.host with input := .stream [] true } }) := by
      simp [HostTerminal.take, h.isOpen, hinput, Input.take]
    rw [htake, hread]
    exact ⟨.error .noFurtherKey, { h with keys := ⟨[], rfl, hp ▸ hkeys⟩, ended := fun _ => hnone }⟩
  | cons key rest =>
    have hsome : s.keys = key :: rest := hkeys.symm
    have hread : s.read = (.ok key, { s with keys := rest }, []) := by
      rw [ScriptedTerminal.read, hsome]
    have htake : t.take = (.ok key, { t with
        host := { t.host with input := .stream rest true } }) := by
      simp [HostTerminal.take, h.isOpen, hinput, Input.take]
    rw [htake, hread]
    refine ⟨.ok key, { h with keys := ⟨rest, rfl, ?_⟩, ended := fun hc => ?_ }⟩
    · rw [hp]
      rfl
    · cases he.symm.trans hc

/-- **A read answers the same on both sides**, but for the wording if there is no further
key. -/
theorem Mirrors.read (h : Mirrors t s) :
    Alike Failure.SameCause t.read.1 s.read.1 ∧ Mirrors t.read.2.1 s.read.2.1 := by
  unfold HostTerminal.read
  cases hp : t.pending with
  | some key =>
    obtain ⟨unread, hinput, hkeys⟩ := h.keys
    rw [hp] at hkeys
    have hsome : s.keys = key :: unread := hkeys.symm
    unfold ScriptedTerminal.read
    rw [hsome]
    refine ⟨.ok key, { h with keys := ⟨unread, hinput, rfl⟩, ended := fun hc => ?_ }⟩
    cases hsome.symm.trans (h.ended hc)
  | none =>
    cases he : t.ended with
    | true =>
      have hwaiting : t.waiting = none := by simp [HostTerminal.waiting, he]
      have hread : s.read = (.error (.hostIO .inputExhausted), s, []) := by
        rw [ScriptedTerminal.read, h.ended he]
      rw [hwaiting, hread]
      exact ⟨.error .noFurtherKey, h⟩
    | false =>
      -- The read waits for the host, and passes on before it does.
      have hwaiting : t.waiting = some t.flush := by simp [HostTerminal.waiting, hp, he]
      obtain ⟨hflush, -, -, hpending, hended⟩ := h.flush
      rw [hwaiting]
      exact hflush.take (hpending.trans hp) (hended.trans he)

/-- Preparing the terminal of the host finds no modes to change. -/
theorem Mirrors.enter (h : Mirrors t s) : Mirrors t.enter.1 s := by
  obtain ⟨unread, hinput, -⟩ := h.keys
  have henter : t.enter = (t, [.modesKept]) := by
    simp [HostTerminal.enter, Host.reachableModes, h.isOpen, hinput, Input.modes?]
  rw [henter]
  exact h

/-- **Once the terminal of the host is left, everything shown was delivered.** -/
theorem Mirrors.leave (h : Mirrors t s) : Mirrors t.leave.1 s ∧ t.leave.1.buffer = [] := by
  obtain ⟨hflush, -, hbuffer, -, -⟩ := h.flush
  have hleave : t.leave = t.flush := by
    simp [HostTerminal.leave, hflush.unsaved]
  rw [hleave]
  exact ⟨hflush, hbuffer⟩

theorem Mirrors.output (h : Mirrors t s) (hb : t.buffer = []) : t.host.output = s.output := by
  have hshown := h.shown
  rw [hb] at hshown
  exact congrArg List.reverse hshown

end HostTerminal

/-! ### Consoles -/

namespace Console

/-- Consoles whose terminals mirror each other, to which no interrupt comes. -/
structure Mirrors (c : Console HostTerminal) (d : Console ScriptedTerminal) : Prop where
  terminal : c.terminal.Mirrors d.terminal
  stop : c.stop = d.stop
  quiet : c.alarm = none
  quiet' : d.alarm = none

/-- Consoles that mirror each other while nothing waits in the buffer of the host. -/
structure Settled (c : Console HostTerminal) (d : Console ScriptedTerminal) : Prop
    extends Mirrors c d where
  delivered : c.terminal.buffer = []

theorem Mirrors.leave {c : Console HostTerminal} {d : Console ScriptedTerminal}
    (h : c.Mirrors d) : c.leave.Settled d.leave := by
  obtain ⟨hleave, hbuffer⟩ := h.terminal.leave
  exact ⟨⟨hleave, h.stop, h.quiet, h.quiet'⟩, hbuffer⟩

theorem Settled.output {c : Console HostTerminal} {d : Console ScriptedTerminal}
    (h : c.Settled d) : c.terminal.host.output = d.terminal.output :=
  h.terminal.output h.delivered

end Console

/-- **A host and a script go in lock-step.** -/
theorem lockStep_mirrors : LockStep Failure.SameCause Console.Mirrors where
  same := .refl
  keysLeft := by
    intro c d h
    obtain ⟨unread, hinput, hkeys⟩ := h.terminal.keys
    change c.terminal.pending.toList.length + c.terminal.host.input.available =
      d.terminal.keys.length
    rw [hinput, ← hkeys, List.length_append]
    rfl
  poll := by
    intro c d h
    obtain ⟨hanswer, hmirrors⟩ := h.terminal.poll
    unfold Console.poll
    rw [Console.strike_of_quiet h.quiet, Console.strike_of_quiet h.quiet']
    exact ⟨Alike.of_eq .refl hanswer, hmirrors, h.stop, h.quiet, h.quiet'⟩
  read := by
    intro c d h
    obtain ⟨hanswer, hmirrors⟩ := h.terminal.read
    unfold Console.read
    rw [Console.strike_of_quiet h.quiet, Console.strike_of_quiet h.quiet']
    exact ⟨hanswer, hmirrors, h.stop, h.quiet, h.quiet'⟩
  write := by
    intro c d h b
    unfold Console.write
    rw [Console.strike_of_quiet h.quiet, Console.strike_of_quiet h.quiet']
    exact ⟨h.terminal.write b, h.stop, h.quiet, h.quiet'⟩
  flush := fun h => ⟨h.terminal.flush.1, h.stop, h.quiet, h.quiet'⟩
  note := fun h _ => ⟨h.terminal, h.stop, h.quiet, h.quiet'⟩

/-! ### Runs and command lines -/

/-- A terminal on a host whose input holds some keys and ends after them, and whose
output takes `more n` bytes and one in its `n`-th write. -/
def HostTerminal.fed (keys : List Byte) (more : Nat → Nat) : HostTerminal :=
  { host := { input := .stream keys true, outcome := fun n => .accepts (more n) } }

theorem HostTerminal.mirrors_fed (keys : List Byte) (more : Nat → Nat) :
    (fed keys more).Mirrors { keys } :=
  ⟨rfl, fun n => ⟨more n, rfl⟩, rfl, rfl, ⟨keys, rfl, rfl⟩, (fun h => nomatch h), rfl⟩

namespace Processor

/-- **What a machine on a host and one on a script have in common**: the registers, the
memory, the progress and the fault; the keys still to come, where on the host the key
held back stands before what is unread; and what was shown, which on the host has been
delivered once the terminal is left. -/
structure Agrees (p : Processor HostTerminal) (q : Processor ScriptedTerminal) : Prop where
  registers : p.machine.registers = q.machine.registers
  memory : p.machine.memory = q.machine.memory
  halted : p.machine.halted = q.machine.halted
  cycles : p.machine.cycles = q.machine.cycles
  fault : p.fault = q.fault
  keys : ∃ unread, p.machine.console.terminal.host.input = .stream unread true ∧
    p.machine.console.terminal.pending.toList ++ unread = q.machine.console.terminal.keys
  output : p.machine.console.leave.terminal.host.output = q.machine.console.terminal.output

variable {p : Processor HostTerminal} {q : Processor ScriptedTerminal}

theorem Alongside.agrees (h : Alongside Console.Mirrors p q) : p.Agrees q :=
  ⟨h.machine.registers, h.machine.memory, h.machine.halted, h.machine.cycles, h.fault,
    h.machine.console.terminal.keys, h.machine.console.leave.output⟩

/-- **A guarded run with the terminal prepared and left** ends in the same way on both
sides, with everything delivered. -/
theorem runGuarded_lockStep (h : Alongside Console.Mirrors p q) (allowance : Nat) :
    Alike Failure.SameCause ((CommandLine.runGuarded allowance).run p).1
        ((CommandLine.runGuarded allowance).run q).1 ∧
      Alongside Console.Settled ((CommandLine.runGuarded allowance).run p).2
        ((CommandLine.runGuarded allowance).run q).2 :=
  runGuarded_simulates lockStep_mirrors (fun hcd => hcd.stop)
    (fun hcd => ⟨hcd.terminal.enter, hcd.stop, hcd.quiet, hcd.quiet'⟩)
    (fun hcd _ => ⟨hcd.terminal, hcd.stop, hcd.quiet, hcd.quiet'⟩) (fun hcd => hcd.leave) h
    allowance

end Processor

namespace CommandLine

/-- What can be seen of a reply from outside: how the program ends, and what has reached
its output. -/
inductive Observed
  | refused (error : UsageError)
  | help
  | finished (status : ExitStatus) (output : List Byte)
  | failed (failure : Failure)
  | running

/-- What can be seen of a reply, where `output` is what a terminal has put out. -/
def Reply.observed {T : Type} (output : T → List Byte) : Reply T → Observed
  | .refused e => .refused e
  | .help => .help
  | .finished status _ p => .finished status (output p.machine.console.terminal)
  | .failed f => .failed f
  | .running => .running

theorem explain_of_sameCause {e f : Failure} (h : e.SameCause f) :
    (explain e).map Prod.fst = (explain f).map Prod.fst ∧ (explain e = none → e = f) := by
  cases h with
  | refl => exact ⟨rfl, fun _ => rfl⟩
  | noFurtherKey => exact ⟨rfl, fun h => nomatch h⟩

theorem observed_conclude (r : Request) {p : Processor HostTerminal}
    {q : Processor ScriptedTerminal} (h : Processor.Alongside Console.Settled p q)
    {a b : Except Failure Unit} (hab : Alike Failure.SameCause a b) :
    (conclude r a p).observed (fun t => t.host.output) =
      (conclude r b q).observed ScriptedTerminal.output := by
  cases hab with
  | ok => exact congrArg (Observed.finished .ok) h.machine.console.output
  | @error e f hef =>
    obtain ⟨hstatus, hpassed⟩ := explain_of_sameCause hef
    simp only [conclude]
    cases he : explain e with
    | none =>
      rw [← hpassed he, he]
      rcases unexplained_cases e with hreply | hreply <;> simp only [hreply, Reply.observed]
    | some x =>
      rw [he] at hstatus
      obtain ⟨y, hy, hxy⟩ := Option.map_eq_some_iff.mp hstatus.symm
      rw [hy]
      simp only [Reply.observed, h.machine.console.output, hxy]

theorem observed_loadFailure (f : Failure) {p : Processor HostTerminal}
    {q : Processor ScriptedTerminal} (h : Processor.Alongside Console.Settled p q) :
    (loadFailure f p).observed (fun t => t.host.output) =
      (loadFailure f q).observed ScriptedTerminal.output := by
  cases f with
  | imageLoad path reason => exact congrArg (Observed.finished .loadError) h.machine.console.output
  | _ => rfl

theorem observed_carryOut (r : Request) (read : FileReader) (keys : List Byte)
    (more : Nat → Nat) (allowance : Nat) :
    (carryOut r read (HostTerminal.fed keys more) none allowance).observed
        (fun t => t.host.output) =
      (carryOut r read ({ keys } : ScriptedTerminal) none allowance).observed
        ScriptedTerminal.output := by
  have hstart : Processor.Alongside Console.Settled (powerOn r (HostTerminal.fed keys more) none)
      (powerOn r ({ keys } : ScriptedTerminal) none) :=
    ⟨⟨rfl, rfl, rfl, rfl, ⟨HostTerminal.mirrors_fed keys more, rfl, rfl, rfl⟩, rfl⟩, rfl, rfl, rfl,
      rfl⟩
  have hload (path : String) : Simulates Eq (Processor.Alongside Console.Settled)
      (Processor.onMachine (Machine.loadFile read path))
      (Processor.onMachine (Machine.loadFile read path)) :=
    Processor.onMachine_lockStep (Machine.loading_lockStep (fun _ => rfl)
      (fun h n => { h with toMirrors := lockStep_mirrors.note h.toMirrors n })
      (Machine.composed_loadFile read path))
  rcases carryOut_cases rfl read none allowance hstart hload fun hpq =>
    (Processor.runGuarded_lockStep (hpq.mono Console.Settled.toMirrors) allowance).imp_left
      fun h => h.map _ with
    ⟨f, p, q, hpq, hp, hq⟩ | ⟨hp, hq⟩ | ⟨a, b, p, q, hab, hpq, hp, hq⟩ <;> rw [hp, hq]
  · exact observed_loadFailure f hpq
  · rfl
  · exact observed_conclude r hpq hab

end CommandLine

/-! ### Main statement -/

open CommandLine Processor in
/-- **A host and a script can stand in for each other.** Let a program be in the memory
of two machines. One is on a host whose input holds `keys` and has ended, and whose output
takes `more n` bytes and one in its `n`-th write; the other is on a script of the same
keys. Neither is interrupted.

* After any number of steps the two have in common what
  `LittleComputer.Processor.Agrees` lists, and the next step returns the same on both
  sides, or fails on both for the same reason; only the wording differs if there is no
  further key.
* The same holds of a guarded run with the terminal prepared before it and left after it;
  and what the output of the host has received by then is what the script has shown.
* The program with its command line ends with the same status on both, and puts out the
  same. -/
theorem host_interchangeable_with_script (program : Memory) (keys : List Byte) (more : Nat → Nat)
    (journal : Journal) (guarded : Bool) (limit : Option Int) (tracing : Bool) (depth : Nat) :
    let host := launch program { terminal := HostTerminal.fed keys more, guarded, journal }
      limit tracing depth
    let script := launch program { terminal := ({ keys } : ScriptedTerminal), guarded, journal }
      limit tracing depth
    (∀ k, (next^[k] host).Agrees (next^[k] script) ∧
      Alike Failure.SameCause (step.run (next^[k] host)).1 (step.run (next^[k] script)).1) ∧
    (∀ allowance,
      Alike Failure.SameCause ((runGuarded allowance).run host).1
        ((runGuarded allowance).run script).1 ∧
      ((runGuarded allowance).run host).2.Agrees ((runGuarded allowance).run script).2 ∧
      ((runGuarded allowance).run host).2.machine.console.terminal.host.output =
        ((runGuarded allowance).run script).2.machine.console.terminal.output) ∧
    ∀ arguments read allowance,
      (respond arguments read (HostTerminal.fed keys more) none allowance).observed
          (fun t => t.host.output) =
        (respond arguments read ({ keys } : ScriptedTerminal) none allowance).observed
          ScriptedTerminal.output := by
  intro host script
  have hstart : Alongside Console.Mirrors host script :=
    ⟨⟨rfl, rfl, rfl, rfl, ⟨HostTerminal.mirrors_fed keys more, rfl, rfl, rfl⟩⟩, rfl, rfl, rfl, rfl⟩
  refine ⟨fun k => ?_, fun allowance => ?_, fun arguments read allowance => ?_⟩
  · have hk := iterate_lockStep lockStep_mirrors hstart k
    exact ⟨hk.agrees, (step_lockStep lockStep_mirrors _ _ hk).1⟩
  · obtain ⟨halike, hend⟩ := runGuarded_lockStep hstart allowance
    exact ⟨halike, (hend.mono Console.Settled.toMirrors).agrees, hend.machine.console.output⟩
  · unfold respond
    split
    · rfl
    · rfl
    · rfl
    · exact observed_carryOut _ read keys more allowance

end LittleComputer
