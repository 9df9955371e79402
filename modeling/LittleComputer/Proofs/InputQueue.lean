import LittleComputer.Proofs.OutputStream
import LittleComputer.Proofs.Reading

/-!
# Input as a queue

Whether a key is there cannot be found out without taking it: an input that has ended can be read
too, and only the read tells the two apart. So the terminal of a host has three places in which the
state of its input is kept – what is unread, the key that a poll holds back, and that the end was
seen – and keys go from the first to the second and from either to the machine, at the times that
the machine chooses, while others arrive.

All the same it is one queue, `LittleComputer.HostTerminal.Queues`: the key held back stands at its
head, what is unread behind it, and once the end was seen it is empty. A poll leaves the queue as it
is, and moves its head to the place where a key is held back; a read takes the head. A read of the
keyboard status register is the one after the other, and puts the key into the data register. So
for each `LittleComputer.InputEvent` what was handed out and what is left are what was there and
what came (`LittleComputer.Machine.Queues.event`), and by induction this holds of any sequence of
them, as long as nothing comes after the end.

The main statement is `LittleComputer.Machine.input_is_lossless_queue`.
-/

namespace LittleComputer

open Memory

/-! ### The queue of a terminal -/

namespace HostTerminal

/-- **The keys to come from a terminal**, in order: the one held back, then those that are unread.
If the end was seen there are none, and no further one will arrive. -/
structure Queues (t : HostTerminal) (keys : List Byte) (closed : Bool) : Prop where
  isOpen : t.host.isOpen = true
  input : ∃ unread, t.host.input = .stream unread closed ∧ t.pending.toList ++ unread = keys
  ended : t.ended = true → keys = [] ∧ closed = true

variable {t u : HostTerminal} {keys : List Byte} {closed : Bool}

theorem Queues.of_sameInput (h : t.Queues keys closed) (hu : SameInput t u) :
    u.Queues keys closed := by
  obtain ⟨unread, hinput, hkeys⟩ := h.input
  refine ⟨hu.isOpen.trans h.isOpen, ⟨unread, hu.input.trans hinput, ?_⟩, ?_⟩
  · rw [hu.pending, hkeys]
  · rw [hu.ended]
    exact h.ended

/-- **A poll answers whether the queue has a key**, and holds back its head. -/
theorem Queues.poll (h : t.Queues keys closed) :
    t.poll.1 = .ok !keys.isEmpty ∧ t.poll.2.Queues keys closed ∧
      t.poll.2.pending = keys.head? := by
  obtain ⟨unread, hinput, hkeys⟩ := h.input
  rcases hp : t.pending with _ | key
  · rw [hp] at hkeys
    obtain rfl : unread = keys := hkeys
    rcases he : t.ended
    · -- The input is asked; what it gives is held back, and its end is remembered.
      rcases unread with _ | ⟨key, rest⟩
      · rcases closed
        · have hpoll : t.poll = (.ok false, t) := by
            simp [HostTerminal.poll, hp, he, h.isOpen, hinput, Input.take]
          rw [hpoll]
          exact ⟨rfl, h, hp⟩
        · have hpoll : t.poll = (.ok false, { t with
              ended := true
              host := { t.host with input := .stream [] true } }) := by
            simp [HostTerminal.poll, hp, he, h.isOpen, hinput, Input.take]
          rw [hpoll]
          exact ⟨rfl, ⟨h.isOpen, ⟨[], rfl, by rw [hp]; rfl⟩, fun _ => ⟨rfl, rfl⟩⟩, hp⟩
      · have hpoll : t.poll = (.ok true, { t with
            pending := some key
            host := { t.host with input := .stream rest closed } }) := by
          simp [HostTerminal.poll, hp, he, h.isOpen, hinput, Input.take]
        rw [hpoll]
        refine ⟨rfl, ⟨h.isOpen, ⟨rest, rfl, rfl⟩, fun hended => ?_⟩, rfl⟩
        cases he.symm.trans hended
    · obtain ⟨rfl, -⟩ := h.ended he
      have hpoll : t.poll = (.ok false, t) := by simp [HostTerminal.poll, hp, he]
      rw [hpoll]
      exact ⟨rfl, h, hp⟩
  · rw [hp] at hkeys
    have hpoll : t.poll = (.ok true, t) := by simp [HostTerminal.poll, hp]
    rw [hpoll, hp, ← hkeys]
    exact ⟨rfl, hkeys ▸ h, rfl⟩

/-- What a read answers: the head of the queue. If there is none, it fails once none will come, and
goes on waiting before that. -/
def answer (keys : List Byte) (closed : Bool) : Except Failure Byte :=
  match keys with
  | key :: _ => .ok key
  | [] => .error (if closed then .hostIO .endOfInput else .wait .goesOn)

theorem Queues.take (h : t.Queues keys closed) (hp : t.pending = none) (he : t.ended = false) :
    t.take.1 = answer keys closed ∧ t.take.2.Queues keys.tail closed := by
  obtain ⟨unread, hinput, hkeys⟩ := h.input
  rw [hp] at hkeys
  obtain rfl : unread = keys := hkeys
  rcases unread with _ | ⟨key, rest⟩
  · rcases closed
    · have htake : t.take = (.error (.wait .goesOn), t) := by
        simp [HostTerminal.take, h.isOpen, hinput, Input.take]
      rw [htake]
      exact ⟨rfl, h⟩
    · have htake : t.take = (.error (.hostIO .endOfInput), { t with
          ended := true
          host := { t.host with input := .stream [] true } }) := by
        simp [HostTerminal.take, h.isOpen, hinput, Input.take]
      rw [htake]
      exact ⟨rfl, h.isOpen, ⟨[], rfl, by rw [hp]; rfl⟩, fun _ => ⟨rfl, rfl⟩⟩
  · have htake : t.take = (.ok key, { t with
        host := { t.host with input := .stream rest closed } }) := by
      simp [HostTerminal.take, h.isOpen, hinput, Input.take]
    rw [htake]
    refine ⟨rfl, h.isOpen, ⟨rest, rfl, by rw [hp]; rfl⟩, fun hended => ?_⟩
    cases he.symm.trans hended

/-- **A read takes the head of the queue**, wherever it is. -/
theorem Queues.read (h : t.Queues keys closed) :
    t.read.1 = answer keys closed ∧ t.read.2.1.Queues keys.tail closed := by
  rcases hp : t.pending with _ | key
  · rcases he : t.ended
    · -- What is passed on before the read does not concern the queue.
      have hwaiting : t.waiting = some t.flush := by rw [waiting, hp, he]; rfl
      have hsame := sameInput_flush t
      rw [HostTerminal.read, hp, hwaiting]
      exact (h.of_sameInput hsame).take (hsame.pending.trans hp) (hsame.ended.trans he)
    · obtain ⟨rfl, rfl⟩ := h.ended he
      have hwaiting : t.waiting = none := by rw [waiting, hp, he]; rfl
      rw [HostTerminal.read, hp, hwaiting]
      exact ⟨rfl, h⟩
  · obtain ⟨unread, hinput, hkeys⟩ := h.input
    rw [hp] at hkeys
    obtain rfl : key :: unread = keys := hkeys
    rw [HostTerminal.read, hp]
    refine ⟨rfl, h.isOpen, ⟨unread, hinput, rfl⟩, fun hended => ?_⟩
    cases (h.ended hended).1

end HostTerminal

/-! ### What happens at an input -/

/-- What happens at the input of a machine: something comes of it, or it is asked. -/
inductive InputEvent
  /-- Further bytes arrive. -/
  | arrive (bytes : List Byte)
  /-- No further byte will arrive. -/
  | finish
  /-- Ask whether a key is there. -/
  | poll
  /-- Take the next key. -/
  | readKey
  /-- Read the keyboard status register. -/
  | readStatus
  deriving DecidableEq

namespace InputEvent

/-- The bytes that arrive. -/
def fed : InputEvent → List Byte
  | arrive bytes => bytes
  | _ => []

/-- The machine after an event. -/
def after (m : Machine HostTerminal) : InputEvent → Machine HostTerminal
  | arrive bytes =>
    m.withTerminal { m.console.terminal with host := m.console.terminal.host.feed bytes }
  | finish => m.withTerminal { m.console.terminal with host := m.console.terminal.host.finish }
  | poll => (Machine.poll.run m).2
  | readKey => (Machine.readKey.run m).2
  | readStatus => ((Machine.readCell keyboardStatus).run m).2

/-- The keys that an event hands out: the one that a read returns, or the one that a read of the
status register has put into the data register. -/
def handed (m : Machine HostTerminal) : InputEvent → List Byte
  | readKey => (Machine.readKey.run m).1.toOption.toList
  | readStatus =>
    match (Machine.readCell keyboardStatus).run m with
    | (.ok w, m) => if w = keyReady then [lowByte (m.memory.peek keyboardData)] else []
    | (.error _, _) => []
  | _ => []

/-- Nothing arrives after the end. -/
def Orderly (events : List InputEvent) : Prop :=
  events.Pairwise fun e later => e = finish → later.fed = []

end InputEvent

namespace Machine

/-- The machine after some events. -/
def afterEvents (m : Machine HostTerminal) (events : List InputEvent) : Machine HostTerminal :=
  events.foldl InputEvent.after m

/-- The keys that some events hand out, in order. -/
def handed (m : Machine HostTerminal) : List InputEvent → List Byte
  | [] => []
  | e :: rest => e.handed m ++ (e.after m).handed rest

/-- The terminal of a machine queues some keys, and no interrupt comes to the machine. -/
structure Queues (m : Machine HostTerminal) (keys : List Byte) (closed : Bool) : Prop where
  quiet : m.console.alarm = none
  terminal : m.console.terminal.Queues keys closed

variable {m : Machine HostTerminal} {keys : List Byte} {closed : Bool}

/-! ### One event -/

theorem Queues.poll (h : m.Queues keys closed) :
    (poll.run m).1 = .ok !keys.isEmpty ∧ (poll.run m).2.Queues keys closed ∧
      (poll.run m).2.console.terminal.pending = keys.head? := by
  obtain ⟨hanswer, hqueues, hpending⟩ := h.terminal.poll
  rw [run_poll, Console.strike_of_quiet h.quiet]
  exact ⟨hanswer, ⟨h.quiet, hqueues⟩, hpending⟩

theorem Queues.readKey (h : m.Queues keys closed) :
    (readKey.run m).1 = HostTerminal.answer keys closed ∧
      (readKey.run m).2.Queues keys.tail closed := by
  obtain ⟨hanswer, hqueues⟩ := h.terminal.read
  have hspares : m.console.Spares .read := by
    intro _ n halarm
    cases h.quiet.symm.trans halarm
  rw [run_readKey hspares]
  exact ⟨hanswer, h.quiet, hqueues⟩

/-- **A read of the status register** says whether the queue has a key, and if it has, puts the
first into the data register. -/
theorem Queues.readStatus (h : m.Queues keys closed) :
    ∃ m', (readCell keyboardStatus).run m = (.ok (if keys.isEmpty then 0 else keyReady), m') ∧
      m'.Queues keys.tail closed ∧
      ∀ key ∈ keys.head?, m'.memory.peek keyboardData = wordOfByte key := by
  obtain ⟨hready, hpolled, -⟩ := h.poll
  rcases hp : Machine.poll.run m with ⟨a, m₁⟩
  rw [hp] at hready hpolled
  obtain rfl : a = .ok !keys.isEmpty := hready
  rcases keys with _ | ⟨key, rest⟩
  · have hrun := run_readCell_status_of_ok (run_latchKey_of_none hp)
    rw [peek_write_self] at hrun
    refine ⟨_, hrun, ⟨hpolled.quiet, hpolled.terminal⟩, ?_⟩
    intro key hkey
    cases hkey
  · let m' : Machine HostTerminal :=
      { m₁ with memory := m₁.memory.write keyboardStatus keyReady }
    have hqueues : m'.Queues (key :: rest) closed := ⟨hpolled.quiet, hpolled.terminal⟩
    obtain ⟨hanswer, htaken⟩ := hqueues.readKey
    rcases hr : Machine.readKey.run m' with ⟨b, m₂⟩
    rw [hr] at hanswer htaken
    obtain rfl : b = .ok key := hanswer
    have hmemory : m₂.memory = m'.memory := congrArg (fun r => r.2.memory) hr.symm
    have hrun := run_readCell_status_of_ok (run_latchKey_of_key hp hr)
    rw [peek_write, if_neg (by decide), hmemory, peek_write_self] at hrun
    refine ⟨_, hrun, ⟨htaken.quiet, htaken.terminal⟩, ?_⟩
    intro key' hkey'
    cases hkey'
    exact peek_write_self _ _ _

/-- **What was handed out and what is left** is what was there and what came. -/
theorem Queues.event (h : m.Queues keys closed) (e : InputEvent)
    (horderly : closed = true → e.fed = []) :
    ∃ left, (e.after m).Queues left (closed || decide (e = .finish)) ∧
      e.handed m ++ left = keys ++ e.fed := by
  have hkept (e : InputEvent) (he : e ≠ .finish) : (closed || decide (e = .finish)) = closed := by
    rw [decide_eq_false he, Bool.or_false]
  cases e with
  | arrive bytes =>
    obtain ⟨unread, hinput, hkeys⟩ := h.terminal.input
    refine ⟨keys ++ bytes, ⟨h.quiet, h.terminal.isOpen, ⟨unread ++ bytes, ?_, ?_⟩, ?_⟩, rfl⟩
    · change m.console.terminal.host.input.feed bytes = _
      rw [hinput, Input.feed]
      simp
    · change m.console.terminal.pending.toList ++ (unread ++ bytes) = keys ++ bytes
      rw [← List.append_assoc, hkeys]
    · -- After the end was seen no byte can arrive any more.
      intro hended
      obtain ⟨rfl, rfl⟩ := h.terminal.ended hended
      exact ⟨horderly rfl, rfl⟩
  | finish =>
    obtain ⟨unread, hinput, hkeys⟩ := h.terminal.input
    refine ⟨keys, ⟨h.quiet, h.terminal.isOpen, ⟨unread, ?_, hkeys⟩, ?_⟩, (List.append_nil _).symm⟩
    · change m.console.terminal.host.input.finish = _
      rw [hinput, Input.finish]
      simp
    · intro hended
      obtain ⟨rfl, rfl⟩ := h.terminal.ended hended
      exact ⟨rfl, rfl⟩
  | poll =>
    refine ⟨keys, ?_, (List.append_nil _).symm⟩
    rw [hkept .poll (by decide)]
    exact h.poll.2.1
  | readKey =>
    obtain ⟨hanswer, htaken⟩ := h.readKey
    refine ⟨keys.tail, ?_, ?_⟩
    · rw [hkept .readKey (by decide)]
      exact htaken
    · rw [InputEvent.handed, hanswer]
      rcases keys with _ | ⟨key, rest⟩
      · rfl
      · exact (List.append_nil (key :: rest)).symm
  | readStatus =>
    obtain ⟨m', hrun, htaken, hdata⟩ := h.readStatus
    refine ⟨keys.tail, ?_, ?_⟩
    · rw [hkept .readStatus (by decide), InputEvent.after, hrun]
      exact htaken
    · rw [InputEvent.handed, hrun]
      rcases keys with _ | ⟨key, rest⟩
      · rfl
      · have hkey : lowByte (m'.memory.peek keyboardData) = key := by
          rw [hdata key rfl, lowByte_wordOfByte]
        dsimp only [List.isEmpty_cons, List.tail_cons]
        rw [if_neg Bool.false_ne_true, if_pos rfl, hkey]
        exact (List.append_nil (key :: rest)).symm

/-! ### Any sequence of events -/

/-- **Over any sequence of events** what was handed out and what is left is what was there and what
came. -/
theorem Queues.events (h : m.Queues keys closed) {events : List InputEvent}
    (horderly : InputEvent.Orderly events) (hclosed : closed = true → ∀ e ∈ events, e.fed = []) :
    ∃ left, (m.afterEvents events).Queues left (closed || decide (.finish ∈ events)) ∧
      m.handed events ++ left = keys ++ events.flatMap InputEvent.fed := by
  induction events generalizing m keys closed with
  | nil =>
    refine ⟨keys, ?_, (List.append_nil _).symm⟩
    rw [show (closed || decide (InputEvent.finish ∈ [])) = closed from Bool.or_false _]
    exact h
  | cons e rest ih =>
    obtain ⟨hfirst, hrest⟩ := List.pairwise_cons.mp horderly
    obtain ⟨between, hbetween, hhanded⟩ :=
      h.event e fun hc => hclosed hc e List.mem_cons_self
    obtain ⟨left, hleft, hhanded'⟩ := ih hbetween hrest fun hc e' he' => by
      rcases Bool.or_eq_true_iff.mp hc with hc | hc
      · exact hclosed hc e' (List.mem_cons_of_mem e he')
      · exact hfirst e' he' (of_decide_eq_true hc)
    refine ⟨left, ?_, ?_⟩
    · rw [Bool.or_assoc] at hleft
      have hmem : (decide (e = .finish) || decide (.finish ∈ rest)) =
          decide (.finish ∈ e :: rest) := by
        rw [← Bool.decide_or]
        exact decide_eq_decide.mpr (by rw [List.mem_cons, eq_comm])
      rw [hmem] at hleft
      exact hleft
    · rw [handed, List.append_assoc, hhanded', ← List.append_assoc, hhanded, List.flatMap_cons,
        List.append_assoc]

/-- **Polls do not add up**: after any number of them one key is held back, the head of the
queue. -/
theorem Queues.polls (h : m.Queues keys closed) (n : Nat) :
    let m' := m.afterEvents (List.replicate (n + 1) .poll)
    m'.Queues keys closed ∧ m'.console.terminal.pending = keys.head? := by
  induction n generalizing m with
  | zero => exact h.poll.2
  | succ n ih => exact ih h.poll.2.1

/-- Where a queue is: its head is held back, or nothing is, and the rest is unread. -/
theorem Queues.unread_eq (h : m.Queues keys closed) (hp : m.console.terminal.pending = keys.head?) :
    m.console.terminal.host.input = .stream keys.tail closed := by
  obtain ⟨unread, hinput, hkeys⟩ := h.terminal.input
  rw [hp] at hkeys
  rcases keys with _ | ⟨key, rest⟩
  · rw [hinput, show unread = [] from hkeys]
    rfl
  · rw [hinput, show unread = rest from List.tail_eq_of_cons_eq hkeys]
    rfl

/-! ### Main statement -/

/-- The machine with a new terminal on an input that nothing has come of yet. No interrupt will
come to it. -/
def listening (m : Machine HostTerminal) (outcome : Nat → WriteOutcome) : Machine HostTerminal :=
  { m with console := { m.console with
      terminal := HostTerminal.opened (.stream [] false) true outcome
      alarm := none } }

/-- **The input is a queue that loses nothing.** Whatever happens at the input of a machine, in
whatever order, as long as nothing arrives after the end, let the queue be the key held back, if
there is one, and then what is unread.

* What was handed out and then the queue is what has arrived.
* A poll answers whether the queue is empty, and after any number of polls its head is held back and
  the rest is unread. So a poll takes one byte of the input at most, and none if a key is held back
  already.
* A read answers the head of the queue, and if there is none, that the input has ended, or else that
  no key has arrived yet. A read of the status register answers whether there is a head, and puts it
  into the data register.
* If the end was seen, there was an end, and nothing of the queue was lost to it. And once there was
  an end and the queue is empty, whatever happens later, a poll finds no key and a read fails. -/
theorem input_is_lossless_queue (m : Machine HostTerminal) (outcome : Nat → WriteOutcome)
    (events : List InputEvent) (horderly : InputEvent.Orderly events) :
    let start := m.listening outcome
    let m' := start.afterEvents events
    let closed := decide (.finish ∈ events)
    ∃ unread, m'.console.terminal.host.input = .stream unread closed ∧
      let queue := m'.console.terminal.pending.toList ++ unread
      start.handed events ++ queue = events.flatMap InputEvent.fed ∧
      ((poll.run m').1 = .ok !queue.isEmpty ∧
        ∀ n, let polled := m'.afterEvents (List.replicate (n + 1) .poll)
          polled.console.terminal.pending = queue.head? ∧
            polled.console.terminal.host.input = .stream queue.tail closed) ∧
      ((readKey.run m').1 = HostTerminal.answer queue closed ∧
        ∃ m'', (readCell keyboardStatus).run m' =
            (.ok (if queue.isEmpty then 0 else keyReady), m'') ∧
          ∀ key ∈ queue.head?, m''.memory.peek keyboardData = wordOfByte key) ∧
      (m'.console.terminal.ended = true → queue = [] ∧ .finish ∈ events) ∧
      ∀ later, InputEvent.Orderly (events ++ later) → .finish ∈ events → queue = [] →
        (poll.run (m'.afterEvents later)).1 = .ok false ∧
          (readKey.run (m'.afterEvents later)).1 = .error (.hostIO .endOfInput) := by
  intro start m' closed
  have hstart : start.Queues [] false :=
    ⟨rfl, rfl, ⟨[], rfl, rfl⟩, fun h => absurd h Bool.false_ne_true⟩
  obtain ⟨keys, hqueues, hhanded⟩ := hstart.events horderly fun h => absurd h Bool.false_ne_true
  rw [Bool.false_or] at hqueues
  obtain ⟨unread, hinput, hkeys⟩ := hqueues.terminal.input
  refine ⟨unread, hinput, ?_⟩
  intro queue
  obtain rfl : queue = keys := hkeys
  refine ⟨hhanded, ⟨hqueues.poll.1, fun n => ?_⟩, ⟨hqueues.readKey.1, ?_⟩, ?_, ?_⟩
  · obtain ⟨hpolled, hpending⟩ := hqueues.polls n
    exact ⟨hpending, hpolled.unread_eq hpending⟩
  · obtain ⟨m'', hrun, -, hdata⟩ := hqueues.readStatus
    exact ⟨m'', hrun, hdata⟩
  · intro hended
    obtain ⟨hempty, hclosed⟩ := hqueues.terminal.ended hended
    exact ⟨hempty, of_decide_eq_true hclosed⟩
  · intro later hlater hfinish hempty
    obtain ⟨-, horderly', hacross⟩ := List.pairwise_append.mp hlater
    have hnothing : ∀ e ∈ later, e.fed = [] := fun e he => hacross .finish hfinish e he rfl
    obtain ⟨left, hleft, hrest⟩ := hqueues.events horderly' fun _ => hnothing
    -- Nothing was left, and nothing has come since.
    have hnone : left = [] := by
      rw [hempty, List.nil_append, List.flatMap_eq_nil_iff.mpr hnothing] at hrest
      exact (List.append_eq_nil_iff.mp hrest).2
    rw [hnone, decide_eq_true hfinish, Bool.true_or] at hleft
    exact ⟨hleft.poll.1, hleft.readKey.1⟩

/-- A key is held back by a poll before another arrives and the input ends. The first goes to the
data register, the second to a read, and then there is none. -/
theorem queue_of_twoKeys :
    let events : List InputEvent :=
      [.arrive [0x61], .poll, .arrive [0x62], .finish, .readStatus, .readKey]
    let start : Machine HostTerminal :=
      (cleared { terminal := { host := {} } }).listening fun _ => .accepts 0
    InputEvent.Orderly events ∧ start.handed events = [0x61, 0x62] ∧
      (readKey.run ((start.afterEvents events).afterEvents [.poll])).1 =
        .error (.hostIO .endOfInput) := by
  intro events start
  have horderly : InputEvent.Orderly events := by
    unfold InputEvent.Orderly
    decide
  have horderly' : InputEvent.Orderly (events ++ [.poll]) := by
    unfold InputEvent.Orderly
    decide
  have hall : start.handed events = [0x61, 0x62] := by decide
  obtain ⟨unread, -, hhanded, -, -, -, hlater⟩ := input_is_lossless_queue
    (cleared { terminal := { host := {} } }) (fun _ => .accepts 0) events horderly
  rw [hall] at hhanded
  have hempty := List.append_cancel_left (hhanded.trans (List.append_nil _).symm)
  exact ⟨horderly, hall, (hlater [.poll] horderly' (by decide) hempty).2⟩

end Machine

end LittleComputer
