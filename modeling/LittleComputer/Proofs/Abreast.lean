import LittleComputer.CommandLine.Basic
import LittleComputer.Proofs.Simulation

/-!
# Terminals abreast

`LittleComputer.LockStep` asks for a relation between consoles. Most of what a console does has
nothing to do with the terminal in it: it counts down to the interrupt to come, and it hands the
notices of a call to the journal. Here that part is done once. What is left to know is a relation
between terminals, each with the journal that its notices go to, which every call keeps:
`LittleComputer.Abreast`. Consoles with such terminals, to which the same interrupt comes, are
`LittleComputer.Console.Alongside` each other, and they go in lock-step
(`LittleComputer.Abreast.lockStep`).

From there it is not far to the whole program. A run with the terminal prepared before it and left
after it goes the same way on both sides (`LittleComputer.Processor.runGuarded_simulates`), and so
does what a request comes to: the same image cannot be loaded on either side, neither run has come
to its end, or both have, in ways that are alike (`LittleComputer.CommandLine.carryOut_cases`).
-/

namespace LittleComputer

variable {S T : Type} {E : Failure → Failure → Prop} {R : S → Journal → T → Journal → Prop}

/-! ### Consoles -/

namespace Console

/-- Consoles to which the same comes from outside, with terminals and journals that are related. -/
structure Alongside (R : S → Journal → T → Journal → Prop) (c : Console S) (d : Console T) :
    Prop where
  shown : R c.terminal c.journal d.terminal d.journal
  stop : c.stop = d.stop
  alarm : c.alarm = d.alarm
  guarded : c.guarded = d.guarded

variable {c : Console S} {d : Console T}

/-- **An interrupt that is to come to both consoles** happens at the same call, and leaves both as
it left the one. -/
theorem Alongside.strike (h : c.Alongside R d) (call : Call) :
    ∃ struck stop alarm, c.strike call = (struck, { c with stop, alarm }) ∧
      d.strike call = (struck, { d with stop, alarm }) := by
  obtain ⟨terminal, stop, alarm, guarded, journal⟩ := c
  obtain ⟨terminal', _, _, _, journal'⟩ := d
  obtain ⟨-, rfl, rfl, rfl⟩ := h
  unfold Console.strike
  dsimp only
  split
  · exact ⟨false, stop, alarm, rfl, rfl⟩
  · split
    · exact ⟨false, stop, none, rfl, rfl⟩
    · split
      · exact ⟨false, stop, _, rfl, rfl⟩
      · split
        · exact ⟨false, stop, _, rfl, rfl⟩
        · exact ⟨true, true, none, rfl, rfl⟩
        · exact ⟨false, stop, _, rfl, rfl⟩

theorem Alongside.settle (h : c.Alongside R d) {t : S} {u : T} {ns ns' : List Notice}
    (hR : R t (c.journal.recordAll ns) u (d.journal.recordAll ns')) :
    (c.settle t ns).Alongside R (d.settle u ns') := ⟨hR, h.stop, h.alarm, h.guarded⟩

theorem Alongside.routed (h : c.Alongside R d) (on : Bool) :
    ({ c with guarded := on } : Console S).Alongside R { d with guarded := on } :=
  ⟨h.shown, h.stop, h.alarm, rfl⟩

end Console

variable [Terminal S] [Terminal T]

/-- **What makes two terminals go abreast**: they are related, together with their journals, and
what a console asks of both keeps them related and has answers that are alike. Either both wait for
a key or neither does. -/
structure Abreast (E : Failure → Failure → Prop) (R : S → Journal → T → Journal → Prop) :
    Prop where
  /-- Equal failures are alike. -/
  same : ∀ e, E e e
  keysLeft : ∀ {t j u k}, R t j u k → Terminal.keysLeft t = Terminal.keysLeft u
  poll : ∀ {t j u k}, R t j u k → Alike E (Terminal.poll t).1 (Terminal.poll u).1 ∧
    R (Terminal.poll t).2 j (Terminal.poll u).2 k
  waiting : ∀ {t j u k}, R t j u k → (Terminal.waiting t = none ∧ Terminal.waiting u = none) ∨
    ∃ t' ns u' ns', Terminal.waiting t = some (t', ns) ∧ Terminal.waiting u = some (u', ns') ∧
      R t' (j.recordAll ns) u' (k.recordAll ns')
  read : ∀ {t j u k}, R t j u k → Alike E (Terminal.read t).1 (Terminal.read u).1 ∧
    R (Terminal.read t).2.1 (j.recordAll (Terminal.read t).2.2)
      (Terminal.read u).2.1 (k.recordAll (Terminal.read u).2.2)
  write : ∀ {t j u k}, R t j u k → ∀ b, R (Terminal.write t b) j (Terminal.write u b) k
  flush : ∀ {t j u k}, R t j u k →
    R (Terminal.flush t).1 (j.recordAll (Terminal.flush t).2)
      (Terminal.flush u).1 (k.recordAll (Terminal.flush u).2)
  note : ∀ {t j u k}, R t j u k → ∀ n, R t (j.record n) u (k.record n)

/-- **Consoles with terminals that go abreast go in lock-step.** -/
theorem Abreast.lockStep (h : Abreast E R) : LockStep E (Console.Alongside R) where
  same := h.same
  keysLeft := fun hcd => h.keysLeft hcd.shown
  poll := by
    intro c d hcd
    obtain ⟨struck, stop, alarm, hc, hd⟩ := hcd.strike .poll
    obtain ⟨halike, hR⟩ := h.poll hcd.shown
    rw [c.poll_eq, d.poll_eq, hc, hd]
    exact ⟨halike, hR, rfl, rfl, hcd.guarded⟩
  read := by
    intro c d hcd
    obtain ⟨struck, stop, alarm, hc, hd⟩ := hcd.strike .read
    obtain ⟨halike, hR⟩ := h.read hcd.shown
    unfold Console.read
    rw [hc, hd]
    -- The wait is abandoned on both sides or on neither.
    rcases h.waiting hcd.shown with ⟨ht, hu⟩ | ⟨t', ns, u', ns', ht, hu, hR'⟩ <;>
      dsimp only <;> rw [ht, hu]
    · rcases struck <;> exact ⟨halike, hR, rfl, rfl, hcd.guarded⟩
    · rcases struck
      · exact ⟨halike, hR, rfl, rfl, hcd.guarded⟩
      · exact ⟨.error (h.same _), hR', rfl, rfl, hcd.guarded⟩
  write := by
    intro c d hcd b
    obtain ⟨struck, stop, alarm, hc, hd⟩ := hcd.strike .write
    rw [c.write_eq, d.write_eq, hc, hd]
    exact ⟨h.write hcd.shown b, rfl, rfl, hcd.guarded⟩
  flush := fun hcd => hcd.settle (h.flush hcd.shown)
  note := fun hcd n => ⟨h.note hcd.shown n, hcd.stop, hcd.alarm, hcd.guarded⟩

/-! ### Runs with the terminal prepared -/

/-- **A guarded run with the terminal prepared and left** goes the same way on both sides, if the
consoles go in lock-step and have been asked to stop on both sides or on neither. -/
theorem Processor.runGuarded_simulates {R R' : Console S → Console T → Prop} (h : LockStep E R)
    (hstop : ∀ {c d}, R c d → c.stop = d.stop) (henter : ∀ {c d}, R c d → R c.enter d.enter)
    (hguarded : ∀ {c d}, R c d → ∀ on, R { c with guarded := on } { d with guarded := on })
    (hleave : ∀ {c d}, R c d → R' c.leave d.leave) {p : Processor S} {q : Processor T}
    (hpq : Processor.Alongside R p q) (allowance : Nat) :
    Alike E ((CommandLine.runGuarded allowance).run p).1
        ((CommandLine.runGuarded allowance).run q).1 ∧
      Processor.Alongside R' ((CommandLine.runGuarded allowance).run p).2
        ((CommandLine.runGuarded allowance).run q).2 := by
  have hstart : Processor.Alongside R ((p.onConsole Console.enter).guarded true)
      ((q.onConsole Console.enter).guarded true) :=
    (hpq.onConsole henter).onConsole fun hcd => hguarded hcd true
  obtain ⟨halike, hrun⟩ := run_lockStep h hstart
    (fun k _ => hstop (iterate_lockStep h hstart k).machine.console) allowance
  exact ⟨halike, (hrun.onConsole fun hcd => hguarded hcd false).onConsole hleave⟩

/-! ### Requests -/

namespace CommandLine

/-- **What the loading of each image keeps related, the loading of all keeps related**, and it
ends in the same way. -/
theorem loadAll_simulates {R : Processor S → Processor T → Prop} (read : FileReader)
    (h : ∀ path, Simulates Eq R (Processor.onMachine (Machine.loadFile read path))
      (Processor.onMachine (Machine.loadFile read path))) (images : List String) :
    Simulates Eq R (loadAll read images) (loadAll read images) := by
  induction images with
  | nil => exact Simulates.pure Eq _ ()
  | cons path rest ih =>
    have hnext := (h path).bind fun _ => Simulates.pure Eq _ ()
    exact hnext.bind fun _ => ih

/-- **What two requests for the same images come to**, if loading keeps the processors related, and
a run from related processors ends in ways that are alike: the same failure to load an image on
both sides, or the machine is still running on both, or a conclusion on both. -/
theorem carryOut_cases {R R' : Processor S → Processor T → Prop} {r r' : Request}
    (himages : r.images = r'.images) (read : FileReader) {t : S} {u : T} (alarm : Option Alarm)
    (allowance : Nat) (hstart : R (powerOn r t alarm) (powerOn r' u alarm))
    (hload : ∀ path, Simulates Eq R (Processor.onMachine (Machine.loadFile read path))
      (Processor.onMachine (Machine.loadFile read path)))
    (hrun : ∀ {p q}, R p q →
      Alike E (((runGuarded allowance).run p).1.map Option.isSome)
          (((runGuarded allowance).run q).1.map Option.isSome) ∧
        R' ((runGuarded allowance).run p).2 ((runGuarded allowance).run q).2) :
    (∃ f p q, R p q ∧ carryOut r read t alarm allowance = loadFailure f p ∧
      carryOut r' read u alarm allowance = loadFailure f q) ∨
    (carryOut r read t alarm allowance = .running ∧
      carryOut r' read u alarm allowance = .running) ∨
    ∃ a b p q, Alike E a b ∧ R' p q ∧ carryOut r read t alarm allowance = conclude r a p ∧
      carryOut r' read u alarm allowance = conclude r' b q := by
  obtain ⟨hloading, hloaded⟩ := loadAll_simulates read hload r.images _ _ hstart
  unfold carryOut
  rw [← himages]
  rcases hp : (loadAll read r.images).run (powerOn r t alarm) with ⟨f | _, p⟩ <;>
  rcases hq : (loadAll read r.images).run (powerOn r' u alarm) with ⟨g | _, q⟩ <;>
  rw [hp, hq] at hloading hloaded <;> cases hloading
  · rename_i hfg
    exact Or.inl ⟨g, p, q, hloaded, by rw [hfg], rfl⟩
  · obtain ⟨hends, hended⟩ := hrun hloaded
    rcases hp' : (runGuarded allowance).run p with ⟨f | _ | _, p'⟩ <;>
    rcases hq' : (runGuarded allowance).run q with ⟨g | _ | _, q'⟩ <;>
    rw [hp', hq'] at hends hended <;> cases hends <;> refine Or.inr ?_
    · rename_i hfg
      exact Or.inr ⟨_, _, p', q', .error hfg, hended, by simp only [hp'], by simp only [hq']⟩
    · exact Or.inl ⟨by simp only [hp'], by simp only [hq']⟩
    · exact Or.inr ⟨_, _, p', q', .ok (), hended, by simp only [hp'], by simp only [hq']⟩

end CommandLine

end LittleComputer
