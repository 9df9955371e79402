import LittleComputer.Proofs.Delivery
import LittleComputer.Proofs.Dependable

/-!
# What an abandoned wait leaves behind

An interrupt that comes while a service waits for a key abandons the wait, and with it the
instruction that has called the service. Nothing of what was done before is undone: the
program counter is past the instruction, and the link to it is in `R7`. So the machine is not
as it was when the instruction was about to be fetched, and if it goes on it goes on after the
call, without a key.

These two registers are all (`LittleComputer.Processor.abandoned_call`): the other
registers, memory, the count of instructions and the input are those of the boundary before the
instruction. What is meant by the input depends on the terminal. All that the argument needs is
that it is left alone by what a service does before it has its key, which is to show something
and to wait (`LittleComputer.Terminal.IsLeftByWait`). On a script it is the keys
(`LittleComputer.Processor.abandonedWait_leaves_link`), on a host the input and the key held back
(`LittleComputer.Processor.hostWait_leaves_link`).
-/

namespace LittleComputer

/-! ### What a wait leaves alone -/

/-- **A relation that a wait keeps**, between a terminal and what becomes of it: it holds as long
as bytes are shown, what was shown is passed on, and a read waits. And no read of the terminal
says of itself that it was cut short. -/
structure Terminal.IsLeftByWait {T : Type} [Terminal T] (R : T → T → Prop) : Prop where
  refl : ∀ t : T, R t t
  trans : ∀ {t u v : T}, R t u → R u v → R t v
  write : ∀ (t : T) (b : Byte), R t (Terminal.write t b)
  flush : ∀ t : T, R t (Terminal.flush t).1
  waiting : ∀ {t u : T} {notices : List Notice}, Terminal.waiting t = some (u, notices) → R t u
  read : ∀ t : T, (Terminal.read t).1 ≠ .error (.wait .cutShort)

/-- A wait leaves the keys of a script alone. -/
theorem ScriptedTerminal.isLeftByWait :
    Terminal.IsLeftByWait fun t u : ScriptedTerminal => u.keys = t.keys where
  refl := fun _ => rfl
  trans := fun htu huv => huv.trans htu
  write := keys_write
  flush := fun _ => rfl
  waiting := by
    rintro t u ns h
    cases h
    rfl
  read := by
    rintro ⟨_ | ⟨key, rest⟩, shown⟩ h <;> cases h

/-- As long as nothing arrives, a read at a host waits; it is not cut short by that. -/
theorem HostTerminal.read_ne_cutShort (t : HostTerminal) :
    t.read.1 ≠ .error (.wait .cutShort) := by
  have htake : ∀ u : HostTerminal, u.take.1 ≠ .error (.wait .cutShort) := by
    intro u h
    unfold take at h
    split at h
    · cases h
    · split at h <;> cases h
  unfold read
  split
  · exact nofun
  · split
    · exact nofun
    · exact htake _

/-- A wait leaves the input of a host alone, and the key held back. -/
theorem HostTerminal.isLeftByWait : Terminal.IsLeftByWait HostTerminal.SameInput where
  refl := fun _ => ⟨rfl, rfl, rfl, rfl⟩
  trans := fun htu huv => ⟨huv.pending.trans htu.pending, huv.ended.trans htu.ended,
    huv.input.trans htu.input, huv.isOpen.trans htu.isOpen⟩
  write := sameInput_write
  flush := sameInput_flush
  waiting := by
    intro t u ns h
    -- What a wait does to the terminal is to pass on what was shown.
    change t.waiting = some (u, ns) at h
    unfold waiting at h
    split at h
    · cases h
    · obtain rfl : t.flush.1 = u := congrArg Prod.fst (Option.some.inj h)
      exact sameInput_flush t
  read := read_ne_cutShort

namespace Machine

/-- The machine with the program counter past the instruction that it points to, and the link
to the next one in `R7`. -/
def linked {T : Type} (m : Machine T) : Machine T :=
  { m with
    registers :=
      (m.registers.write .pc (m.registers.pc + 1)).write (.general 7) (m.registers.pc + 1) }

variable {T : Type} [Terminal T] {R : T → T → Prop} {m m₁ m' : Machine T} {s : Service}
  {address w : Word}

/-- Showing something keeps what a wait keeps. -/
theorem closedUnderShowing_isLeftByWait (hR : Terminal.IsLeftByWait R) :
    ClosedUnderShowing fun a : Action T Unit => ∀ m, ∃ c,
      a.run m = (.ok (), { m with console := c }) ∧ R m.console.terminal c.terminal where
  pure := fun m => ⟨m.console, rfl, hR.refl _⟩
  bind := by
    intro a b ha hb m
    obtain ⟨c, hrun, hc⟩ := ha m
    obtain ⟨c', hrun', hc'⟩ := hb { m with console := c }
    exact ⟨c', (run_bind_of_ok hrun _).trans hrun', hR.trans hc hc'⟩
  showByte := by
    intro b m
    refine ⟨m.console.write b, rfl, ?_⟩
    rw [m.console.write_eq]
    exact hR.write _ b
  flush := fun m => ⟨m.console.flush, rfl, hR.flush _⟩

/-- A wait that is abandoned has done nothing but wait. -/
theorem readKey_abandoned (hR : Terminal.IsLeftByWait R)
    (h : readKey.run m = (.error (.wait .cutShort), m')) :
    ∃ c, m' = { m with console := c } ∧ R m.console.terminal c.terminal := by
  have hrun : readKey.run m = (m.console.read.1, { m with console := m.console.read.2 }) := rfl
  obtain ⟨hcut, rfl⟩ := Prod.mk.inj (hrun.symm.trans h)
  refine ⟨m.console.read.2, rfl, ?_⟩
  rcases m.console.read_cases with ⟨u, ns, hw, hread⟩ | hread
  · rw [hread]
    exact hR.waiting hw
  · rw [hread] at hcut
    exact absurd hcut (hR.read _)

/-- A service that asks for a key and is abandoned has done nothing but show something. -/
theorem serve_abandoned (hR : Terminal.IsLeftByWait R) (hs : s.IsAsking)
    (h : (serve s).run m = (.error (.wait .cutShort), m')) :
    ∃ c, m' = { m with console := c } ∧ R m.console.terminal c.terminal := by
  obtain ⟨before, after, hbefore, hafter, heq⟩ :=
    serve_of_isAsking (closedUnderShowing_isLeftByWait hR) hs
  obtain ⟨c, hrun, hc⟩ := hbefore m
  rw [heq, run_bind_of_ok hrun] at h
  rcases hread : readKey.run { m with console := c } with ⟨f | key, m₁⟩
  · rw [run_bind_of_error hread] at h
    cases h
    obtain ⟨c', rfl, hc'⟩ := readKey_abandoned hR hread
    exact ⟨c', rfl, hR.trans hc hc'⟩
  · -- With a key in hand the service does not fail any more.
    obtain ⟨c', hrun', -⟩ := hafter key m₁
    rw [run_bind_of_ok hread, run_bind_of_ok hrun'] at h
    cases h

/-- **A call of a service that asks for a key, when it is abandoned**, leaves the program counter
past the call and the link in `R7`, and otherwise has only shown something. -/
theorem attempt_abandoned (hR : Terminal.IsLeftByWait R)
    (h : attempt.run m = (.error (.wait .cutShort), m'))
    (hf : fetch.run m = (.ok (address, w), m₁)) (hw : Instruction.decode w = .trap s)
    (hs : s.IsAsking) :
    ∃ c, m' = { m.linked with console := c } ∧ R m.console.terminal c.terminal := by
  obtain ⟨rfl, rfl⟩ := fetch_of_trap hf hw
  rcases attempt_error h with hf' | ⟨a, w', m₂, hf', he⟩
  · cases hf.symm.trans hf'
  · cases hf.symm.trans hf'
    rw [hw, run_effect_trap] at he
    obtain ⟨c, rfl, hc⟩ := serve_abandoned hR hs he
    exact ⟨c, rfl, hc⟩

end Machine

namespace Processor

variable {T : Type} [Terminal T]

omit [Terminal T] in
/-- No wait is abandoned between two instructions. -/
theorem boundary_ne_waitAbandoned (p q : Processor T) :
    boundary.run p ≠ (.error (.wait .cutShort), q) := by
  intro h
  rcases boundary_cases p with ⟨-, hb⟩ | ⟨-, -, hb⟩ | ⟨-, -, hb⟩
  · rw [hb, ending] at h
    cases hfault : p.fault <;> rw [hfault] at h <;> cases h
  · cases hb.symm.trans h
  · cases hb.symm.trans h

/-- **A run that ends because a wait was abandoned** has completed some instructions, and then the
next one was attempted and the wait abandoned in it. -/
theorem guardedRun_abandoned {p q : Processor T} {allowance : Nat}
    (h : (guardedRun allowance).run p = (.error (.wait .cutShort), q)) :
    ∃ k b m, b = next^[k] (p.guarded true) ∧ (p.guarded true).Completes k ∧
      b.machine.halted = false ∧ b.machine.console.stop = false ∧
      step.run b = (.error (.wait .cutShort), { b with machine := m }) ∧
      Machine.attempt.run b.machine = (.error (.wait .cutShort), m) ∧
      q = ({ b with machine := m } : Processor T).guarded false := by
  rw [run_guardedRun] at h
  rcases hrun : (run allowance).run (p.guarded true) with ⟨r, q'⟩
  rw [hrun] at h
  obtain ⟨rfl, rfl⟩ := Prod.mk.inj h
  obtain ⟨k, hk, -, hend⟩ := run_cases (p.guarded true) allowance
  rw [hrun] at hend
  rcases hend with hb | ⟨f, hb, hs, heq⟩
  · exact absurd hb.symm (boundary_ne_waitAbandoned _ q')
  · obtain ⟨hf, hq'⟩ := Prod.mk.inj heq
    cases hf
    rw [← hq'] at hs
    obtain ⟨hrunning, hunasked⟩ := running_of_boundary hb
    -- The step has not failed because the machine had halted or the limit was reached.
    rcases step_cases (next^[k] (p.guarded true)) with ⟨-, hs'⟩ | ⟨n, -, -, hs'⟩ |
      ⟨f, m, -, -, ha, hs'⟩ | ⟨a, w, m, -, -, -, hs'⟩
    · cases hs.symm.trans hs'
    · cases hs.symm.trans hs'
    · cases hs.symm.trans hs'
      exact ⟨k, _, m, rfl, hk, hrunning, hunasked, hs', ha, rfl⟩
    · cases hs.symm.trans hs'

/-- **What a call leaves that was abandoned**: the program counter is past the call, the link is in
`R7`, and what a wait leaves alone is as it was. -/
theorem abandoned_call {R : T → T → Prop} (hR : Terminal.IsLeftByWait R) {b : Processor T}
    {m m₁ : Machine T} {s : Service} {address w : Word}
    (ha : Machine.attempt.run b.machine = (.error (.wait .cutShort), m)) (hs : s.IsAsking)
    (hf : Machine.fetch.run b.machine = (.ok (address, w), m₁))
    (hw : Instruction.decode w = .trap s) :
    ∃ c, ({ b with machine := m } : Processor T).guarded false =
        { b with machine := { b.machine.linked with console := c } } ∧
      R b.machine.console.terminal c.terminal ∧ m.registers.pc ≠ b.machine.registers.pc := by
  obtain ⟨c, rfl, hc⟩ := Machine.attempt_abandoned hR ha hf hw hs
  refine ⟨{ c with guarded := false }, rfl, hc, ?_⟩
  change b.machine.registers.pc + 1 ≠ b.machine.registers.pc
  generalize b.machine.registers.pc = pc
  bv_omega

/-- **At the terminal of a host** an abandoned wait leaves the link of the call behind. Let a
guarded run end because a wait was abandoned. It has completed some number of instructions, and
the wait was abandoned in the next step. If what that step has fetched is a call of a service that
asks for a key, then the run leaves the machine as it was before that step but for three things:
the program counter is past the call, the address there is also in `R7`, and the console has
changed, but has the same input and holds back the same key, if it holds back one. -/
theorem hostWait_leaves_link {p q : Processor HostTerminal} {allowance : Nat}
    (h : (guardedRun allowance).run p = (.error (.wait .cutShort), q)) :
    ∃ k b, b = next^[k] (p.guarded true) ∧ (p.guarded true).Completes k ∧
      b.machine.halted = false ∧ b.machine.console.stop = false ∧
      (step.run b).1 = .error (.wait .cutShort) ∧
      ∀ s : Service, s.IsAsking → ∀ address w m₁,
        Machine.fetch.run b.machine = (.ok (address, w), m₁) →
        Instruction.decode w = .trap s →
        ∃ c, q = { b with machine := { b.machine.linked with console := c } } ∧
          HostTerminal.SameInput b.machine.console.terminal c.terminal ∧
          q.machine.registers.pc ≠ b.machine.registers.pc := by
  obtain ⟨k, b, m, hb, hk, hrunning, hunasked, hstep, ha, rfl⟩ := guardedRun_abandoned h
  refine ⟨k, b, hb, hk, hrunning, hunasked, congrArg Prod.fst hstep, ?_⟩
  intro s hs address w m₁ hf hw
  exact abandoned_call HostTerminal.isLeftByWait ha hs hf hw

/-- A host at which nothing was typed, and a program that is about to ask for a key there. The
first read is interrupted. -/
example : ((guardedRun 1).run (launch (Memory.cleared.load 0x3000 [0xF020])
    { terminal := { host := {} : HostTerminal }, alarm := some ⟨.read, 1⟩ } none false 0)).1 =
      .error (.wait .cutShort) := rfl

/-- **An abandoned wait leaves the link of the call behind.** Let a guarded run end because a
wait was abandoned. It has completed some number of instructions, the machine was running
then and not asked to stop, and the wait was abandoned in the next step. If what that step
has fetched is a call of a service that asks for a key, then the run leaves the machine as it
was before that step but for three things: the program counter is past the call, the address
there is also in `R7`, and the console has changed, but has the same keys to come. So the
program counter is not what it was. -/
theorem abandonedWait_leaves_link {p q : Processor ScriptedTerminal} {allowance : Nat}
    (h : (guardedRun allowance).run p = (.error (.wait .cutShort), q)) :
    ∃ k b, b = next^[k] (p.guarded true) ∧ (p.guarded true).Completes k ∧
      b.machine.halted = false ∧ b.machine.console.stop = false ∧
      (step.run b).1 = .error (.wait .cutShort) ∧
      ∀ s : Service, s.IsAsking → ∀ address w m₁,
        Machine.fetch.run b.machine = (.ok (address, w), m₁) →
        Instruction.decode w = .trap s →
        ∃ c, q = { b with machine := { b.machine.linked with console := c } } ∧
          c.terminal.keys = b.machine.keys ∧
          q.machine.registers.pc ≠ b.machine.registers.pc := by
  obtain ⟨k, b, m, hb, hk, hrunning, hunasked, hstep, ha, rfl⟩ := guardedRun_abandoned h
  refine ⟨k, b, hb, hk, hrunning, hunasked, congrArg Prod.fst hstep, ?_⟩
  intro s hs address w m₁ hf hw
  exact abandoned_call ScriptedTerminal.isLeftByWait ha hs hf hw

/-- A processor that is about to ask for a key. The first read is interrupted. -/
def askInVain : Processor ScriptedTerminal :=
  launch (Memory.cleared.load 0x3000 [0xF020])
    { terminal := { keys := [0x41] }, alarm := some ⟨.read, 1⟩ } none false 0

/-- The wait of this processor is abandoned, and the link is left in `R7`. -/
theorem abandonedWait_of_askInVain :
    ∃ c, ((guardedRun 1).run askInVain).2 =
        { askInVain with machine := { askInVain.machine.linked with console := c } } ∧
      c.terminal.keys = [0x41] := by
  have habandoned : (guardedRun 1).run askInVain =
      (.error (.wait .cutShort), ((guardedRun 1).run askInVain).2) := rfl
  obtain ⟨k, b, hb, hk, -, -, -, hleaves⟩ := abandonedWait_leaves_link habandoned
  have hzero : k = 0 := by
    -- The very first step fails, so no instruction was completed.
    by_contra hne
    obtain ⟨c, hc⟩ := hk 0 (Nat.pos_of_ne_zero hne)
    cases hc
  subst hzero
  obtain rfl : b = askInVain.guarded true := hb
  obtain ⟨c, hq, hkeys, -⟩ := hleaves .getc trivial 0x3000 0xF020 _ rfl rfl
  exact ⟨c, hq, hkeys⟩

/-- After an abandoned wait the registers need not be those of any boundary between two
instructions that the run has come to. -/
theorem abandonedWait_not_at_boundary :
    ¬∀ (p q : Processor ScriptedTerminal) (allowance : Nat),
      (guardedRun allowance).run p = (.error (.wait .cutShort), q) →
      ∃ k, (p.guarded true).Completes k ∧
        q.machine.registers = (next^[k] (p.guarded true)).machine.registers := by
  intro h
  obtain ⟨k, hk, hregisters⟩ := h askInVain ((guardedRun 1).run askInVain).2 1 rfl
  cases k with
  | zero =>
    have hpc := congrArg Registers.pc hregisters
    revert hpc
    decide
  | succ k =>
    obtain ⟨c, hc⟩ := hk 0 (Nat.succ_pos k)
    cases hc

end Processor

end LittleComputer
