import LittleComputer.Proofs.Refusals
import LittleComputer.Proofs.WrittenLimits

/-!
# The gallery and the command line

A program can be run in two ways: by the gallery, which makes a page of it, and by a command line,
which ends with an exit status and a report. They have little in common but the processor. The
gallery keeps a trace and no journal, catches every failure in the same manner, and lets the run go
unguarded; a command line keeps what it is asked to keep, routes interrupts to the machine, and
tells the failures apart.

None of this changes the run. What a processor traces has no part in what it does
(`LittleComputer.Processor.run_untraced`), nor has its journal; and where no interrupt comes, it
makes no difference whether one would be heard (`LittleComputer.lockStep_quiet`). So the two
processors stay on the same course (`LittleComputer.Processor.SameCourse`), from the loading of the
files to the end of the run, which the limit brings about if nothing else does. There are three
ways in which a run can fail without an interrupt (`LittleComputer.Processor.run_failure`), and both
sides have the same message for each of them (`LittleComputer.Gallery.lead_of_failure`).

What the page and the reply then have in common is `LittleComputer.Gallery.Agrees`, and
`LittleComputer.Gallery.gallery_agrees_with_commandLine` is the main statement. It needs a limit
that a command line can name: with too many digits it is refused, while the gallery runs the
program (`LittleComputer.Gallery.disagrees_of_too_many_digits`).
-/

namespace LittleComputer

variable {T : Type}

/-! ### Left alone -/

namespace Console

/-- Consoles with the same terminal, to neither of which an interrupt comes. -/
structure SameTerminal (c d : Console T) : Prop where
  terminal : c.terminal = d.terminal
  stop : c.stop = d.stop
  quiet : c.alarm = none
  quiet' : d.alarm = none

variable {c d : Console T}

theorem SameTerminal.settle (h : c.SameTerminal d) (terminal : T) (notices notices' : List Notice) :
    (c.settle terminal notices).SameTerminal (d.settle terminal notices') :=
  ⟨rfl, h.stop, h.quiet, h.quiet'⟩

end Console

/-- **Where no interrupt comes, it does not matter whether it would be routed to the machine.** -/
theorem lockStep_quiet [Terminal T] : LockStep (S := T) (T := T) Eq Console.SameTerminal where
  same := fun _ => rfl
  keysLeft := fun h => congrArg Terminal.keysLeft h.terminal
  poll := by
    intro c d h
    rw [c.poll_eq, d.poll_eq, Console.strike_of_quiet h.quiet, Console.strike_of_quiet h.quiet',
      h.terminal]
    exact ⟨Alike.of_eq (fun _ => rfl) rfl, rfl, h.stop, h.quiet, h.quiet'⟩
  read := by
    intro c d h
    rw [(Console.spares_of_quiet h.quiet .read).read_eq,
      (Console.spares_of_quiet h.quiet' .read).read_eq, h.terminal]
    exact ⟨Alike.of_eq (fun _ => rfl) rfl, h.settle _ _ _⟩
  write := by
    intro c d h b
    rw [c.write_eq, d.write_eq, Console.strike_of_quiet h.quiet,
      Console.strike_of_quiet h.quiet', h.terminal]
    exact ⟨rfl, h.stop, h.quiet, h.quiet'⟩
  flush := by
    intro c d h
    rw [Console.flush, Console.flush, h.terminal]
    exact h.settle _ _ _
  note := fun h _ => ⟨h.terminal, h.stop, h.quiet, h.quiet'⟩

namespace Processor

/-- Processors that have come equally far on the same terminal, and to which no interrupt comes.
They may differ in what they trace and report. -/
def SameCourse (p q : Processor T) : Prop :=
  Alongside Console.SameTerminal p.untraced q.untraced

variable {p q : Processor T}

theorem sameCourse_of_machine (h : Machine.Alongside Console.SameTerminal p.machine q.machine)
    (hlimit : p.limit = q.limit) (hfault : p.fault = q.fault) : p.SameCourse q :=
  ⟨h, hlimit, rfl, rfl, hfault⟩

theorem sameCourse_powerOn {c d : Console T} (h : c.SameTerminal d) (limit : Option Int)
    (tracing tracing' : Bool) (depth depth' : Nat) :
    (powerOn c limit tracing depth).SameCourse (powerOn d limit tracing' depth') :=
  sameCourse_of_machine ⟨rfl, rfl, rfl, rfl, h⟩ rfl rfl

/-- Nothing hangs on whether interrupts are routed to the machine. -/
theorem SameCourse.guarded (h : p.SameCourse q) (on : Bool) : p.SameCourse (q.guarded on) :=
  sameCourse_of_machine { h.machine with console := ⟨h.machine.console.terminal,
    h.machine.console.stop, h.machine.console.quiet, h.machine.console.quiet'⟩ } h.limit h.fault

theorem SameCourse.run [Terminal T] (h : p.SameCourse q) (allowance : Nat) :
    forgetTrace ((Processor.run allowance).run p).1 =
        forgetTrace ((Processor.run allowance).run q).1 ∧
      ((Processor.run allowance).run p).2.SameCourse ((Processor.run allowance).run q).2 :=
  untraced_lockStep lockStep_quiet Console.SameTerminal.stop h allowance

/-- Loading goes the same way on both. -/
theorem SameCourse.load [Terminal T] (read : FileReader) (images : List String) :
    Simulates Eq SameCourse (CommandLine.loadAll (T := T) read images)
      (CommandLine.loadAll (T := T) read images) :=
  CommandLine.loadAll_simulates read (fun path p q h =>
    onMachine_lockStep (Machine.loading_lockStep (fun _ => rfl) lockStep_quiet.note
      (Machine.composed_loadFile read path)) p.untraced q.untraced h) images

/-! ### How a run can fail -/

/-- A failure is told without the trace. -/
theorem error_of_forgetTrace {f : Failure} {r : Except Failure (Option (List TraceEntry))}
    (h : forgetTrace (.error f) = forgetTrace r) : r = .error f := by
  cases r <;> cases h
  rfl

/-- That a run has come to its end is told without the trace. -/
theorem ok_of_forgetTrace {trace : List TraceEntry}
    {r : Except Failure (Option (List TraceEntry))}
    (h : forgetTrace (.ok (some trace)) = forgetTrace r) : ∃ trace', r = .ok (some trace') := by
  rcases r with _ | _ | trace' <;> cases h
  exact ⟨trace', rfl⟩

/-- **A run to which no interrupt comes**, and that nobody has asked to stop, fails in one of three
ways. -/
theorem run_failure {p q : Processor ScriptedTerminal} (hquiet : p.machine.console.alarm = none)
    (hstop : p.machine.console.stop = false) {allowance : Nat} {f : Failure}
    (h : (run allowance).run p = (.error f, q)) :
    (∃ address instruction reason, f = .illegalInstruction address instruction reason) ∨
      f = .hostIO .inputExhausted ∨ ∃ n, f = .cycleLimit n := by
  -- The run is as good as an unguarded one, and that one fails only as documented.
  obtain ⟨g, hg, hfails⟩ : ∃ g : Processor ScriptedTerminal, g.IsUndisturbed ∧
      ((run allowance).run g).1 = .error f := by
    have hcourse : p.SameCourse (p.guarded false) :=
      sameCourse_of_machine ⟨rfl, rfl, rfl, rfl, ⟨rfl, rfl, hquiet, hquiet⟩⟩ rfl rfl
    obtain ⟨houtcome, -⟩ := hcourse.run allowance
    rw [h] at houtcome
    exact ⟨p.guarded false, ⟨rfl, hstop⟩, error_of_forgetTrace houtcome⟩
  obtain ⟨k, -, -, hend⟩ := run_cases g allowance
  obtain ⟨hunguarded, hunasked⟩ := hg.iterate k
  rcases hend with hb | ⟨f', hb, hs, hrun⟩
  · rw [hb] at hfails
    rcases boundary_cases (next^[k] g) with ⟨-, hb⟩ | ⟨-, hstopped, -⟩ | ⟨-, -, hb⟩
    · rw [hb, ending] at hfails
      rcases hfault : (next^[k] g).fault with _ | fault <;> rw [hfault] at hfails <;> cases hfails
      exact Or.inl ⟨_, _, _, rfl⟩
    · cases hunasked.symm.trans hstopped
    · rw [hb] at hfails
      cases hfails
  · rw [hrun] at hfails
    cases hfails
    obtain ⟨hrunning, -⟩ := running_of_boundary hb
    have hpatient : (next^[k] g).machine.console.IsPatient :=
      fun hguarded => absurd (hunguarded.symm.trans hguarded) Bool.false_ne_true
    cases (step_error_iff_of_script hpatient f).mp (congrArg Prod.fst hs) with
    | halted hh => cases hrunning.symm.trans hh
    | limit => exact Or.inr (Or.inr ⟨_, rfl⟩)
    | noKey _ _ _ _ hkey =>
      obtain ⟨-, rfl⟩ := upcoming_eq_error_iff.mp hkey
      exact Or.inr (Or.inl rfl)

end Processor

/-! ### Pages and replies -/

namespace Gallery

open Text CommandLine

/-- What stands in front of the message of a run that has failed, by its exit status. -/
def lead? : ExitStatus → Option String
  | .illegalInstruction | .cycleLimit => some "\nlc3: "
  | .hostIO => some "\nlc3: terminal error: "
  | _ => none

/-- **A page agrees with the reply to a command line**: with the exit status, the report, and the
processor that is left. -/
structure Agrees (read : FileReader) (r : Request) (page : Page) (status : ExitStatus)
    (report : String) (q : Processor ScriptedTerminal) : Prop where
  /-- The page says why there is nothing to show exactly if an image could not be loaded. -/
  refused_iff : (∃ reason, page = errorPage reason) ↔ status = .loadError
  /-- Then both name the first image that cannot be loaded, and the same reason. -/
  refused : status = .loadError → ∃ path reason, FirstRefused read r.images path reason ∧
    page = errorPage (path ++ ": " ++ reason) ∧
    report = noticeText q ++ "failed to load image: " ++ path ++ " (" ++ reason ++ ")\n"
  /-- Otherwise the page shows what the program has displayed, and the registers and the flags
  that it has left. -/
  shown : status ≠ .loadError → page.output = textOfBytes q.machine.console.terminal.output ∧
    page.registers = registersPart q.machine.registers
  /-- The summary is the bare one exactly if the run has ended with the halt service. -/
  halted_iff : status ≠ .loadError → (page.summary = summaryPart q.summary none ↔ status = .ok)
  /-- If it has not, the summary ends with the message of the report. -/
  failed : status ≠ .loadError → status ≠ .ok → ∃ lead message, lead? status = some lead ∧
    page.summary = summaryPart q.summary none ++ "\n\nRuntime: " ++ message ∧
    report = noticeText q ++ (lead ++ message ++ "\n") ++ closingText r q

/-- The page agrees with a reply, which has an exit status. -/
def Page.AgreesWith (page : Page) (read : FileReader) (r : Request)
    (reply : Reply ScriptedTerminal) : Prop :=
  ∃ status report q, reply = .finished status report q ∧ Agrees read r page status report q

/-! #### Texts -/

/-- A message is the last line of the summary. -/
theorem summaryPart_some (s : Summary) {f : Failure} (h : f.message ≠ "") :
    summaryPart s (some f) = summaryPart s none ++ "\n\nRuntime: " ++ f.message := by
  have hmessage : f.message.isEmpty = false := by
    rw [← Bool.not_eq_true, String.isEmpty_iff]
    exact h
  have hbreak : "\n\nRuntime: " = "\n" ++ "\nRuntime: " := rfl
  simp only [summaryPart, hmessage, Bool.false_eq_true, if_false, List.append_nil, joinLines]
  rw [String.intercalate_append_of_ne_nil (List.cons_ne_nil _ _) (List.cons_ne_nil _ _),
    String.intercalate_singleton, hbreak]
  simp only [String.append_assoc]

/-- A summary with a message is not the bare one. -/
theorem summaryPart_some_ne (s : Summary) {f : Failure} (h : f.message ≠ "") :
    summaryPart s (some f) ≠ summaryPart s none := by
  rw [summaryPart_some s h]
  intro heq
  have hlength := congrArg String.length heq
  simp only [String.length_append] at hlength
  have hline : "\n\nRuntime: ".length = 11 := by decide
  omega

/-- A page that shows a run is not one that says why there is none. -/
theorem page_ne_errorPage (p : Processor ScriptedTerminal) (failure : Option Failure)
    (reason : String) : page p failure ≠ errorPage reason := by
  intro h
  have hlines := congrArg (String.length ∘ Page.registers) h
  dsimp only [Function.comp_apply, page, errorPage] at hlines
  rw [registersPart, joinLines, List.append_assoc, List.append_assoc, List.cons_append,
    String.intercalate_cons_of_ne_nil
      (List.append_ne_nil_of_left_ne_nil (List.cons_ne_nil _ _) _)] at hlines
  simp only [String.length_append] at hlines
  have hheading : "FINAL REGISTERS".length = 15 := by decide
  have hempty : "".length = 0 := rfl
  omega

/-- Where no backslash is followed by an `n`, the keys are as they were typed. -/
theorem typed_of_plain {cs : List Char} (h : ¬['\\', 'n'] <:+: cs) : typed cs = cs := by
  fun_induction typed cs with
  | case1 rest ih => exact absurd ⟨[], rest, rfl⟩ h
  | case2 c rest hne ih => rw [ih fun hsub => h (hsub.trans (List.suffix_cons c rest).isInfix)]
  | case3 => rfl

/-! #### Each of the endings -/

section Endings

variable {read : FileReader} {r : Request} {p q : Processor ScriptedTerminal}

theorem agrees_of_refused {path reason : String}
    (h : FirstRefused read r.images path reason) :
    Agrees read r (errorPage (path ++ ": " ++ reason)) .loadError
      (noticeText q ++ "failed to load image: " ++ path ++ " (" ++ reason ++ ")\n") q where
  refused_iff := ⟨fun _ => rfl, fun _ => ⟨_, rfl⟩⟩
  refused := fun _ => ⟨path, reason, h, rfl, rfl⟩
  shown := fun hne => absurd rfl hne
  halted_iff := fun hne => absurd rfl hne
  failed := fun hne => absurd rfl hne

variable (h : p.SameCourse q)

include h

/-- The page is written from what both processors have in common. -/
theorem page_of_sameCourse (failure : Option Failure) :
    (page p failure).output = textOfBytes q.machine.console.terminal.output ∧
      (page p failure).registers = registersPart q.machine.registers ∧
      (page p failure).summary = summaryPart q.summary failure := by
  obtain ⟨⟨hregisters, -, hhalted, hcycles, hconsole⟩, -, -, -, -⟩ := h
  refine ⟨congrArg (fun t => textOfBytes (ScriptedTerminal.output t)) hconsole.terminal,
    congrArg registersPart hregisters, ?_⟩
  -- The summary that is shown says nothing of the trace and of the fault.
  have hsummary : p.summary = { q.summary with
      traceLength := p.trace.latest.length
      errors := p.fault.toList.map fun f => f.failure.message } := by
    have hregisters' : p.machine.registers = q.machine.registers := hregisters
    have hhalted' : p.machine.halted = q.machine.halted := hhalted
    have hcycles' : p.machine.cycles = q.machine.cycles := hcycles
    simp only [Processor.summary, hregisters', hhalted', hcycles']
  rw [page, hsummary]
  rfl

theorem agrees_of_halted (report : String) : Agrees read r (page p none) .ok report q where
  refused_iff := ⟨fun ⟨reason, hpage⟩ => absurd hpage (page_ne_errorPage p none reason),
    by rintro ⟨⟩⟩
  refused := by rintro ⟨⟩
  shown := fun _ => ⟨(page_of_sameCourse h none).1, (page_of_sameCourse h none).2.1⟩
  halted_iff := fun _ => ⟨fun _ => rfl, fun _ => (page_of_sameCourse h none).2.2⟩
  failed := fun _ hne => absurd rfl hne

theorem agrees_of_failed {f : Failure} {status : ExitStatus} {lead : String}
    (hlead : lead? status = some lead) (hmessage : f.message ≠ "") :
    Agrees read r (page p (some f)) status
      (noticeText q ++ (lead ++ f.message ++ "\n") ++ closingText r q) q := by
  obtain ⟨houtput, hregisters, hsummary⟩ := page_of_sameCourse h (some f)
  have hok : status ≠ .ok := by
    rintro rfl
    cases hlead
  have hload : status ≠ .loadError := by
    rintro rfl
    cases hlead
  exact {
    refused_iff := ⟨fun ⟨reason, hpage⟩ => absurd hpage (page_ne_errorPage p (some f) reason),
      fun hs => absurd hs hload⟩
    refused := fun hs => absurd hs hload
    shown := fun _ => ⟨houtput, hregisters⟩
    halted_iff := fun _ => ⟨fun hbare =>
        absurd (hsummary.symm.trans hbare) (summaryPart_some_ne q.summary hmessage),
      fun hs => absurd hs hok⟩
    failed := fun _ _ =>
      ⟨lead, f.message, hlead, hsummary.trans (summaryPart_some q.summary hmessage), rfl⟩ }

end Endings

/-- **A run that fails without an interrupt** fails with a message that both front ends know. -/
theorem lead_of_failure {f : Failure}
    (h : (∃ address instruction reason, f = .illegalInstruction address instruction reason) ∨
      f = .hostIO .inputExhausted ∨ ∃ n, f = .cycleLimit n) :
    ∃ status lead, lead? status = some lead ∧
      explain f = some (status, lead ++ f.message ++ "\n") ∧ f.message ≠ "" ∧ f.IsReportable := by
  obtain ⟨address, instruction, reason, rfl⟩ | rfl | ⟨n, rfl⟩ := h
  · have hmessage : (Failure.illegalInstruction address instruction reason).message =
        "illegal instruction 0x" ++ hex 4 instruction ++ " at 0x" ++ hex 4 address ++ ": " ++
          reason := rfl
    refine ⟨.illegalInstruction, "\nlc3: ", rfl, rfl, fun hempty => ?_, trivial⟩
    rw [hmessage] at hempty
    simp at hempty
  · exact ⟨.hostIO, "\nlc3: terminal error: ", rfl, rfl, by decide, trivial⟩
  · have hmessage : (Failure.cycleLimit n).message = "Max cycles (" ++ toString n ++ ") exceeded" :=
      rfl
    refine ⟨.cycleLimit, "\nlc3: ", rfl, rfl, fun hempty => ?_, trivial⟩
    rw [hmessage] at hempty
    simp at hempty

/-! ### The same run twice -/

/-- The files of an exhibit are loaded as the images of a command line are. -/
theorem run_load_files (read : FileReader) (files : List String)
    (p : Processor ScriptedTerminal) : (load read (.files files)).run p =
      (((loadAll read files).run p).1.map fun _ => true, ((loadAll read files).run p).2) :=
  run_bind_pure (loadAll read files) (fun _ => true) p

variable {read : FileReader} {files : List String} {keyboard : String} {n : Int} {r : Request}
  {p p' q : Processor ScriptedTerminal} {allowance : Nat}

/-- Both processors start on the same course. -/
theorem sameCourse_of_typed (htyped : typed keyboard.toList = keyboard.toList)
    (hlimit : r.limit = some n) :
    (powerOn keyboard n).SameCourse
      (CommandLine.powerOn r (ScriptedTerminal.ofText keyboard) none) := by
  have hkeys : String.ofList (typed keyboard.toList) = keyboard := by
    rw [htyped, String.ofList_toList]
  rw [powerOn, CommandLine.powerOn, hkeys, hlimit]
  refine Processor.sameCourse_powerOn ?_ _ _ _ _ _
  exact ⟨rfl, rfl, rfl, rfl⟩

section Loading

variable (htyped : typed keyboard.toList = keyboard.toList) (hlimit : r.limit = some n)

include htyped hlimit

/-- **A file that is refused on one side is refused on the other.** -/
theorem carryOut_of_refused {path reason : String}
    (hp : (loadAll read r.images).run (powerOn keyboard n) = (.error (.imageLoad path reason), p))
    (hrefused : FirstRefused read r.images path reason) :
    (errorPage (path ++ ": " ++ reason)).AgreesWith read r
      (carryOut r read (ScriptedTerminal.ofText keyboard) none allowance) := by
  obtain ⟨halike, -⟩ :=
    Processor.SameCourse.load read r.images _ _ (sameCourse_of_typed htyped hlimit)
  rcases hq : (loadAll read r.images).run
    (CommandLine.powerOn r (ScriptedTerminal.ofText keyboard) none) with ⟨result, q⟩
  rw [hp, hq] at halike
  obtain rfl : .error (.imageLoad path reason) = result := halike.eq
  refine ⟨.loadError, _, q, ?_, agrees_of_refused hrefused⟩
  rw [carryOut, hq]
  rfl

/-- **Files that are loaded on one side are loaded on the other.** -/
theorem loaded_of_loaded
    (hp : (loadAll read r.images).run (powerOn keyboard n) = (.ok (), p)) :
    ∃ q, (loadAll read r.images).run
        (CommandLine.powerOn r (ScriptedTerminal.ofText keyboard) none) = (.ok (), q) ∧
      p.SameCourse q := by
  obtain ⟨halike, hcourse⟩ :=
    Processor.SameCourse.load read r.images _ _ (sameCourse_of_typed htyped hlimit)
  rcases hq : (loadAll read r.images).run
    (CommandLine.powerOn r (ScriptedTerminal.ofText keyboard) none) with ⟨result, q⟩
  rw [hp, hq] at halike hcourse
  obtain rfl : .ok () = result := halike.eq
  exact ⟨q, rfl, hcourse⟩

end Loading

section Running

/-! The files are loaded on both sides. -/

variable {t : ScriptedTerminal} (hpq : p.SameCourse q)
  (hq : (loadAll read r.images).run (CommandLine.powerOn r t none) = (.ok (), q))

include hpq hq

theorem carryOut_of_halted {trace : List TraceEntry}
    (hrun : (Processor.run allowance).run p = (.ok (some trace), p')) :
    (page p' none).AgreesWith read r (carryOut r read t none allowance) := by
  obtain ⟨halike, hcourse⟩ := (hpq.guarded true).run allowance
  have hcarry := carryOut_of_loaded hq allowance
  rcases hrun' : (Processor.run allowance).run (q.guarded true) with ⟨result, q'⟩
  rw [hrun, hrun'] at halike hcourse
  obtain ⟨trace', rfl⟩ := Processor.ok_of_forgetTrace halike
  rw [hrun'] at hcarry
  exact ⟨_, _, _, hcarry, agrees_of_halted (hcourse.guarded false) _⟩

theorem carryOut_of_failed {f : Failure} {status : ExitStatus} {lead : String}
    (hrun : (Processor.run allowance).run p = (.error f, p')) (hlead : lead? status = some lead)
    (hexplain : explain f = some (status, lead ++ f.message ++ "\n")) (hmessage : f.message ≠ "") :
    (page p' (some f)).AgreesWith read r (carryOut r read t none allowance) := by
  obtain ⟨halike, hcourse⟩ := (hpq.guarded true).run allowance
  have hcarry := carryOut_of_loaded hq allowance
  rcases hrun' : (Processor.run allowance).run (q.guarded true) with ⟨result, q'⟩
  rw [hrun, hrun'] at halike hcourse
  obtain rfl := Processor.error_of_forgetTrace halike
  rw [hrun'] at hcarry
  simp only [conclude, hexplain] at hcarry
  exact ⟨_, _, _, hcarry, agrees_of_failed (hcourse.guarded false) hlead hmessage⟩

end Running

/-- The run of the gallery starts where loading has left the machine: nobody has asked it to stop,
and the limit will end it. -/
theorem run_of_loaded (hp : (loadAll read files).run (powerOn keyboard n) = (.ok (), p))
    (hallowance : n.toNat < allowance) :
    p.machine.console.stop = false ∧ ∃ (result : Except Failure (List TraceEntry))
      (p' : Processor ScriptedTerminal),
        (Processor.run allowance).run p = (result.map some, p') := by
  have hkeep := keeps_progress read files (powerOn keyboard n)
  rw [hp] at hkeep
  simp only [progress, Prod.mk.injEq] at hkeep
  obtain ⟨hlimit, -, -, hcycles, hstop⟩ := hkeep
  have hzero : p.machine.cycles = 0 := hcycles
  obtain ⟨result, p', k, -, -, hrun⟩ := Processor.run_ends_of_limit (n := n) hlimit
  exact ⟨hstop, result, p', hrun allowance (by omega)⟩

/-- **The gallery shows files, and what a command line comes to that asks for the same files under
the same limit agrees with the page.** -/
theorem exhibitWithin_agrees (hread : ∀ path ∈ files, read.Explains path)
    (htyped : typed keyboard.toList = keyboard.toList) (hallowance : n.toNat < allowance) :
    ∃ page, exhibitWithin read (.files files) keyboard n allowance = .ok (some page) ∧
      ∀ r : Request, r.images = files → r.limit = some n →
        page.AgreesWith read r
          (carryOut r read (ScriptedTerminal.ofText keyboard) none allowance) := by
  have houtcome := outcome_loadAll read files (powerOn keyboard n)
  rw [exhibitWithin, run_load_files]
  rcases hp : (loadAll read files).run (powerOn keyboard n) with ⟨f | _, p⟩ <;>
    rw [hp] at houtcome
  · rcases hfirst : files.findSome? (refusal? read) with _ | f' <;> rw [hfirst] at houtcome <;>
      cases houtcome
    obtain ⟨path, reason, rfl, hrefused⟩ := firstRefused_of_findSome? hread hfirst
    refine ⟨errorPage (path ++ ": " ++ reason), rfl, ?_⟩
    rintro r rfl hlimit
    exact carryOut_of_refused htyped hlimit hp hrefused
  · obtain ⟨hstop, result, p', hrun⟩ := run_of_loaded hp hallowance
    rcases result with f | trace
    · -- Any request will do to see that no interrupt comes.
      obtain ⟨_, -, hcourse⟩ :=
        loaded_of_loaded (r := requested { images := files } (some n) 0) htyped rfl hp
      have hquiet : p.machine.console.alarm = none := hcourse.machine.console.quiet
      obtain ⟨status, lead, hlead, hexplain, hmessage, hreportable⟩ :=
        lead_of_failure (Processor.run_failure hquiet hstop hrun)
      refine ⟨page p' (some f), ?_, ?_⟩
      · simp only [Except.map, hrun, if_pos hreportable]
      · rintro r rfl hlimit
        obtain ⟨q, hq, hpq⟩ := loaded_of_loaded htyped hlimit hp
        exact carryOut_of_failed hpq hq hrun hlead hexplain hmessage
    · refine ⟨page p' none, ?_, ?_⟩
      · simp only [Except.map, hrun]
      · rintro r rfl hlimit
        obtain ⟨q, hq, hpq⟩ := loaded_of_loaded htyped hlimit hp
        exact carryOut_of_halted hpq hq hrun

/-! ### Main statement -/

/-- **The gallery and the command line run programs alike.** Let some files be shown, at least one,
whose names are not read as options, and let the reader account for those that it cannot read, as
a directory tree does for all names without the character that ends them. Let the keys be typed
without a backslash that an `n` follows, and let the limit be positive, with no more digits than a
command line may have.

Then the gallery does not fail but makes a page, once the allowance exceeds the limit. No interrupt
comes to the command line; it names the limit and then the files. It ends with an exit status, and
the page agrees with that, with the report, and with the processor that is left:

* The page says why there is nothing to show if and only if the status is that of a loading error,
  and both name the same file, the first that cannot be loaded, with the same reason.
* Otherwise the page shows what the program has displayed. The number of instructions, the program
  counter, the registers and the flags on it are those that are left.
* Its summary has no message if and only if the status is 0. Otherwise the status is 3, 4 or 5, and
  the message is the one that the report has for it.

Another command line that asks for the same files and the same limit agrees with the page just so,
whatever it says of the trace, the summary and the notices, and however it is written. -/
theorem gallery_agrees_with_commandLine {read : FileReader} {files : List String}
    {keyboard : String} {n : Nat} (hfiles : files ≠ []) (hnames : ∀ path ∈ files, IsName path)
    (hread : ∀ path ∈ files, read.Explains path) (hkeys : ¬['\\', 'n'] <:+: keyboard.toList)
    (hn : 1 ≤ n) (hdigits : (toString n).length ≤ mostDigits) (name : Option String)
    {allowance : Nat} (hallowance : n < allowance) :
    let terminal := ScriptedTerminal.ofText keyboard
    ∃ page, exhibit read (choose files name) keyboard (.whole n) allowance = .ok (some page) ∧
      page.AgreesWith read (requested { images := files } (some n) 1000)
        (respond (limited n files) read terminal none allowance) ∧
      ∀ arguments choices depth, Asks arguments choices (some n) depth →
        depth ≤ History.greatestDepth → choices.images = files →
        page.AgreesWith read (requested choices (some n) depth)
          (respond arguments read terminal none allowance) := by
  intro terminal
  have hchoose : choose files name = .files files := by
    rw [choose, List.isEmpty_eq_false_iff.mpr hfiles]
    rfl
  have henough : (n : Int).toNat < allowance := by rwa [Int.toNat_natCast]
  obtain ⟨page, hpage, hagrees⟩ := exhibitWithin_agrees hread (typed_of_plain hkeys) henough
  have hevery : ∀ arguments choices depth, Asks arguments choices (some (n : Int)) depth →
      depth ≤ History.greatestDepth → choices.images = files →
      page.AgreesWith read (requested choices (some n) depth)
        (respond arguments read terminal none allowance) := by
    intro arguments choices depth hasks hle himages
    rw [respond_of_asks hasks hle]
    exact hagrees _ himages rfl
  refine ⟨page, ?_, ?_, hevery⟩
  · rw [hchoose]
    exact hpage
  · exact hevery _ _ _ (asks_of_limited hnames hn hdigits hfiles) (by decide) rfl

/-- Of all files there is one that holds a program, which takes a key and shows it. -/
def echoImage : FileReader := fun path =>
  if path = "a.obj" then .ok [0x30, 0x00, 0xF0, 0x20, 0xF0, 0x21]
  else .error (.imageLoad path "No such file or directory")

/-- What the command line asks for that gives this program two instructions. -/
def echoRequest : Request := requested { images := ["a.obj"] } (some 2) 1000

/-- A processor with this program, and with a key for it to take. -/
def echoes : Processor ScriptedTerminal :=
  ((loadAll echoImage ["a.obj"]).run
    (CommandLine.powerOn echoRequest (ScriptedTerminal.ofText "x") none)).2

/-- The program has shown its key when it reaches the limit, and the gallery and the command line
say so. Where a second file is missing, they say that. -/
theorem agreement_of_echoImage :
    (∃ page q, exhibit echoImage (choose ["a.obj"] none) "x" (.whole 2) 3 = .ok (some page) ∧
      respond ["--max-cycles", "2", "a.obj"] echoImage (ScriptedTerminal.ofText "x") none 3 =
        .finished .cycleLimit (noticeText q ++ ("\nlc3: " ++ "Max cycles (2) exceeded" ++ "\n") ++
          closingText echoRequest q) q ∧
      page.output = "x" ∧ page.registers = registersPart q.machine.registers ∧
      page.summary = summaryPart q.summary none ++ "\n\nRuntime: " ++ "Max cycles (2) exceeded") ∧
    exhibit echoImage (choose ["a.obj", "b.obj"] none) "x" (.whole 2) 3 =
        .ok (some (errorPage "b.obj: No such file or directory")) ∧
      ∃ report q, respond ["--max-cycles", "2", "a.obj", "b.obj"] echoImage
        (ScriptedTerminal.ofText "x") none 3 = .finished .loadError report q := by
  have hread : ∀ path ∈ ["a.obj", "b.obj"], echoImage.Explains path := by
    intro path _ f hf
    rw [echoImage] at hf
    split at hf <;> cases hf
    exact ⟨_, rfl⟩
  have hnames : ∀ path ∈ ["a.obj", "b.obj"], IsName path := by
    simp only [List.forall_mem_cons, List.not_mem_nil, false_implies, implies_true, and_true]
    exact ⟨isName_of_head (by decide), isName_of_head (by decide)⟩
  have hkeys : ¬['\\', 'n'] <:+: "x".toList := by decide
  have hdigits : (toString 2).length ≤ mostDigits := by decide
  have hallowance : 2 < 3 := Nat.lt_succ_self 2
  refine ⟨?_, ?_⟩
  · have hname : ∀ path ∈ ["a.obj"], IsName path :=
      List.forall_mem_singleton.mpr (hnames _ List.mem_cons_self)
    obtain ⟨page, hpage, ⟨status, report, q, hreply, hagrees⟩, -⟩ :=
      gallery_agrees_with_commandLine (List.cons_ne_nil _ _) hname
        (List.forall_mem_singleton.mpr (hread _ List.mem_cons_self)) hkeys (Nat.le_succ 1) hdigits
        none hallowance
    -- The command line comes to the limit, with the key shown.
    obtain ⟨q', hrun, hshown⟩ : ∃ q', (Processor.run 3).run (echoes.guarded true) =
        (.error (.cycleLimit 2), q') ∧ q'.machine.console.terminal.output = [0x78] := ⟨_, rfl, rfl⟩
    have hloaded : (loadAll echoImage echoRequest.images).run
        (CommandLine.powerOn echoRequest (ScriptedTerminal.ofText "x") none) =
          (.ok (), echoes) := rfl
    have hcarry := carryOut_of_loaded hloaded 3
    rw [hrun] at hcarry
    have hlimit : (Failure.cycleLimit 2).message = "Max cycles (2) exceeded" := by decide
    have hasks := asks_of_limited hname (Nat.le_succ 1) hdigits (List.cons_ne_nil _ _)
    have hlimited := (respond_of_asks hasks (by decide) echoImage
      (ScriptedTerminal.ofText "x") none 3).trans hcarry
    simp only [conclude, explain, hlimit] at hlimited
    cases hlimited.symm.trans hreply
    obtain ⟨houtput, hregisters⟩ := hagrees.shown (by decide)
    obtain ⟨lead, message, hlead, hsummary, hreport⟩ := hagrees.failed (by decide) (by decide)
    cases hlead
    -- Both messages stand between the notices and the closing text.
    obtain rfl : "Max cycles (2) exceeded" = message := by
      have hline := (String.append_right_inj _).mp ((String.append_left_inj _).mp hreport)
      exact (String.append_right_inj _).mp ((String.append_left_inj _).mp hline)
    refine ⟨page, _, hpage, hlimited, ?_, hregisters, hsummary⟩
    have hshown' : (q'.guarded false).machine.console.terminal.output = [0x78] := hshown
    rw [houtput, hshown']
    decide
  · have hmissing : exhibit echoImage (choose ["a.obj", "b.obj"] none) "x" (.whole 2) 3 =
        .ok (some (errorPage "b.obj: No such file or directory")) := rfl
    obtain ⟨page, hpage, ⟨status, report, q, hreply, hagrees⟩, -⟩ :=
      gallery_agrees_with_commandLine (List.cons_ne_nil _ _) hnames hread hkeys (Nat.le_succ 1)
        hdigits none hallowance
    cases hmissing.symm.trans hpage
    obtain rfl := hagrees.refused_iff.mp ⟨_, rfl⟩
    exact ⟨hmissing, report, q, hreply⟩

/-- **With a limit of too many digits** the gallery shows its page, and a command line is refused:
there is no exit status that the page could agree with. -/
theorem disagrees_of_too_many_digits :
    (∃ page, exhibit haltingImage (choose ["a.obj"] none) ""
      (.whole (Nat.pow 10 mostDigits)) (Nat.pow 10 mostDigits + 1) = .ok (some page)) ∧
    ¬∀ (read : FileReader) (files : List String) (keyboard : String) (n : Nat)
      (name : Option String) (allowance : Nat), files ≠ [] → (∀ path ∈ files, IsName path) →
      (∀ path ∈ files, read.Explains path) → ¬['\\', 'n'] <:+: keyboard.toList → 1 ≤ n →
      n < allowance → ∃ page,
        exhibit read (choose files name) keyboard (.whole n) allowance = .ok (some page) ∧
          page.AgreesWith read (requested { images := files } (some n) 1000)
            (respond (limited n files) read (ScriptedTerminal.ofText keyboard) none allowance) := by
  -- No step may work the number out, so the exponent gets a name before the number does.
  generalize hk : mostDigits = k
  have hdigits : mostDigits < (toString (Nat.pow 10 k)).length := hk ▸ lt_length_toString_pow k
  have hpos : 1 ≤ Nat.pow 10 k := Nat.one_le_pow k 10 (by decide)
  generalize Nat.pow 10 k = n at hdigits hpos ⊢
  have hnames : ∀ path ∈ ["a.obj"], IsName path := by
    intro path hpath
    rw [List.mem_singleton.mp hpath]
    exact isName_of_head (by decide)
  have hread : ∀ path ∈ ["a.obj"], haltingImage.Explains path := by
    rintro path - f ⟨⟩
  have henough : (n : Int).toNat < n + 1 := by
    rw [Int.toNat_natCast]
    exact Nat.lt_succ_self n
  refine ⟨?_, fun h => ?_⟩
  · have htyped : typed "".toList = "".toList := rfl
    obtain ⟨page, hpage, -⟩ := exhibitWithin_agrees hread htyped henough
    exact ⟨page, hpage⟩
  · obtain ⟨page, -, status, report, q, hreply, -⟩ := h haltingImage ["a.obj"] "" n none (n + 1)
      (List.cons_ne_nil _ _) hnames hread (by decide) hpos (Nat.lt_succ_self n)
    rw [respond_of_too_many_digits hnames hdigits] at hreply
    cases hreply

end Gallery

end LittleComputer
