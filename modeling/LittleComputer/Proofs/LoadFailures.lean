import LittleComputer.Proofs.ExitStatus
import LittleComputer.Proofs.Refusals

/-!
# Loading comes before the run

The images of a command line are loaded one after the other, and the machine runs when all of them
are. If one is refused, those in front of it are in memory already; still nothing has begun that
would have to be undone. The reply is made from the processor as loading has left it, and this is
the processor that was switched on but for two things: the cells that the images in front cover, and
the notices of their loading (`LittleComputer.CommandLine.IsPoised`). No terminal is called on the
way, so it does not matter which one it is: one that kept a record of its calls would show none.

That later images are not opened cannot be seen in the processor. It is said of the loading that
opens files one by one, `LittleComputer.CommandLine.loadEach`: in any monad its effects are those of
opening the images up to the first that is refused, and its result is that of loading from files
that are known beforehand (`LittleComputer.CommandLine.loadEach_eq`).

All this is behind the check of the trace depth, and a depth that no history can have is not
reported but passed on, before any image is looked at. The main statement is
`LittleComputer.CommandLine.load_failure_prevents_run`.
-/

namespace LittleComputer

/-! ### The reasons of a host -/

/-- **Why a file of a host cannot be loaded**: the host refuses it and says why, or it does not hold
an origin. -/
theorem refusal_of_files (files : HostFiles) {path : String}
    (h : path.toList.contains '\x00' = false) :
    refusal? files.read path =
      match files path with
      | .error e => some (.imageLoad path e.wording)
      | .ok bytes =>
        if bytes.length < 2 then some (.imageLoad path "truncated header (missing origin word)")
        else none := by
  rw [refusal?, HostFiles.read, if_neg (by rw [h]; exact Bool.false_ne_true)]
  rcases files path with e | bytes <;> rfl

namespace CommandLine

open Processor

variable {T : Type} [Terminal T] {read : FileReader}

/-! ### The images that are opened -/

/-- The images of a list up to the first that is refused, itself included. -/
def opened (read : FileReader) (images : List String) : List String :=
  accepted read images ++ (images.find? fun path => (refusal? read path).isSome).toList

theorem opened_cons (read : FileReader) (path : String) (rest : List String) :
    opened read (path :: rest) =
      path :: if (refusal? read path).isSome then [] else opened read rest := by
  rw [opened, accepted, List.takeWhile_cons, List.find?_cons]
  cases refusal? read path <;> rfl

theorem opened_of_loaded {images : List String}
    (h : ∀ path ∈ images, refusal? read path = none) : opened read images = images := by
  have hnone : images.find? (fun path => (refusal? read path).isSome) = none := by
    refine List.find?_eq_none.mpr fun path hpath => ?_
    rw [h path hpath]
    exact Bool.false_ne_true
  rw [opened, accepted_of_loaded h, hnone]
  exact List.append_nil images

theorem opened_of_refused {before : List String}
    (h : ∀ earlier ∈ before, refusal? read earlier = none) {path : String} {f : Failure}
    (hpath : refusal? read path = some f) (after : List String) :
    opened read (before ++ path :: after) = before ++ [path] := by
  have hfind : (before ++ path :: after).find? (fun path => (refusal? read path).isSome) =
      some path := by
    refine List.find?_eq_some_iff_append.mpr ⟨?_, before, after, rfl, fun earlier hearlier => ?_⟩
    · rw [hpath]
      rfl
    · rw [h earlier hearlier]
      rfl
  rw [opened, accepted_of_refused h hpath, hfind]
  rfl

/-- **Opening files one by one** has the effects of opening those that are loaded and the first that
is refused, in order and once each, and the result of loading without such effects. -/
theorem loadEach_eq {M : Type → Type} [Monad M] [LawfulMonad M] (visit : String → M Unit)
    (read : FileReader) (images : List String) (p : Processor T) :
    loadEach (fun path => do visit path; return read path) images p = (do
      (opened read images).forM visit
      return (loadAll read images).run p) := by
  induction images generalizing p with
  | nil =>
    have hnil : opened read [] = [] := rfl
    rw [hnil, List.forM_eq_forM, List.forM_nil, pure_bind]
    rfl
  | cons path rest ih =>
    have hread : Machine.loadFile (T := T) (fun _ => read path) path =
        Machine.loadFile read path := rfl
    rw [loadEach, bind_assoc, opened_cons, List.forM_eq_forM, List.forM_cons, bind_assoc,
      ← List.forM_eq_forM]
    refine bind_congr fun _ => ?_
    rw [pure_bind, hread]
    rcases hrefusal : refusal? read path with _ | f
    · obtain ⟨_, _, -, -, hload⟩ := Machine.run_loadFile_of_loaded hrefusal p.machine
      rw [run_loadAll_cons_of_ok hload, run_onMachine_of_ok hload]
      exact ih _
    · have hload := Machine.run_loadFile_of_refused hrefusal p.machine
      rw [run_loadAll_cons_of_error hload, run_onMachine_of_error hload, Option.isSome_some,
        if_pos rfl, List.forM_eq_forM, List.forM_nil, pure_bind]

/-! ### The processor that loading leaves -/

/-- **A processor in front of its first instruction**, when a request was made and files with this
content were loaded in order. -/
structure IsPoised (r : Request) (terminal : T) (alarm : Option Alarm)
    (images : List (String × List Byte)) (p : Processor T) : Prop where
  /-- Nothing has changed since the machine was switched on but memory and the journal: no
  instruction was carried out, and the terminal and the interrupt to come are as they were. -/
  untouched : ∃ memory journal, let start := powerOn r terminal alarm
    p = { start with
      machine := { start.machine with memory, console := { start.machine.console with journal } } }
  /-- The program begins at the start address. -/
  pc : p.machine.registers.pc = 0x3000
  /-- A cell has the word that the last image has for it that has one, or else it is zero. -/
  cells : ∀ a, p.machine.memory.peek a =
    (images.reverse.findSome? fun image => Image.placed? image.2 a).getD 0
  /-- The journal has the notices of loading. -/
  journal : p.machine.console.journal =
    Journal.recordAll { threshold := some (threshold r.verbosity) }
      (images.flatMap fun image => Image.noticesOf image.1 image.2)

omit [Terminal T] in
theorem isPoised_afterLoading (r : Request) (terminal : T) (alarm : Option Alarm)
    (images : List (String × List Byte)) :
    IsPoised r terminal alarm images
      { powerOn r terminal alarm with
        machine := (powerOn r terminal alarm).machine.afterLoading images } := by
  obtain ⟨memory, journal, hafter, hcells⟩ :=
    (powerOn r terminal alarm).machine.afterLoading_effect images
  have hjournal := Machine.journal_afterLoading images (powerOn r terminal alarm).machine
  refine ⟨⟨memory, journal, ?_⟩, ?_, fun a => ?_, hjournal⟩
  · dsimp only
    rw [hafter]
  · dsimp only
    rw [hafter]
    rfl
  · have hzero : (powerOn r terminal alarm).machine.memory.peek a = 0 := Memory.peek_cleared a
    dsimp only
    rw [hafter, ← hzero]
    exact hcells a

/-! ### Loading the images of a request -/

/-- **Loading that opens files one by one opens these**, once each and in order, and comes to this
result. -/
def Opens (read : FileReader) (images : List String) (start : Processor T) (paths : List String)
    (result : Except Failure Unit × Processor T) : Prop :=
  ∀ (M : Type → Type) [Monad M] [LawfulMonad M] (visit : String → M Unit),
    loadEach (fun path => do visit path; return read path) images start = do
      paths.forM visit
      return result

variable {r : Request} (terminal : T) (alarm : Option Alarm)

/-- Images of which none is refused are all opened and loaded. -/
theorem loading_of_accepted (h : ∀ path ∈ r.images, refusal? read path = none) : ∃ p,
    IsPoised r terminal alarm (contents read r.images) p ∧
    (loadAll read r.images).run (powerOn r terminal alarm) = (.ok (), p) ∧
    Opens read r.images (powerOn r terminal alarm) r.images (.ok (), p) := by
  have hnone : r.images.findSome? (refusal? read) = none := List.findSome?_eq_none_iff.mpr h
  have hrun := run_loadAll read r.images (powerOn r terminal alarm)
  rw [hnone, accepted_of_loaded h] at hrun
  refine ⟨_, isPoised_afterLoading r terminal alarm _, hrun, ?_⟩
  intro M _ _ visit
  rw [loadEach_eq, opened_of_loaded h, hrun]
  rfl

/-- Of images one of which is refused, those in front of it are loaded, and it is the last that is
opened. -/
theorem loading_of_refused {before after : List String} {path : String} {f : Failure}
    (himages : r.images = before ++ path :: after)
    (h : ∀ earlier ∈ before, refusal? read earlier = none)
    (hpath : refusal? read path = some f) : ∃ p,
    IsPoised r terminal alarm (contents read before) p ∧
    (loadAll read r.images).run (powerOn r terminal alarm) = (.error f, p) ∧
    Opens read r.images (powerOn r terminal alarm) (before ++ [path]) (.error f, p) := by
  have hsome : r.images.findSome? (refusal? read) = some f :=
    List.findSome?_eq_some_iff.mpr ⟨before, path, after, himages, hpath, h⟩
  have hrun := run_loadAll read r.images (powerOn r terminal alarm)
  rw [hsome, himages, accepted_of_refused h hpath] at hrun
  refine ⟨_, isPoised_afterLoading r terminal alarm _, ?_, ?_⟩
  · rw [himages]
    exact hrun
  · intro M _ _ visit
    rw [himages, loadEach_eq, opened_of_refused h hpath, hrun]
    rfl

/-! ### Main statement -/

/-- **The machine runs when all images are loaded, and not otherwise.** Let a command line be parsed
and name a positive limit, if any, and a positive number of trace entries; let no name of an image
contain the character that ends names. Let the files be those of any host, and let the terminal and
the interrupt to come be arbitrary.

* If the number of trace entries is greater than the greatest depth of a history, the program fails
  before it looks at an image.
* If no image is refused, all of them are opened in order, and the machine runs with what they have
  put into memory, from the start address and not from an origin of theirs.
* Otherwise there is a first image that is refused, which is the last that is opened. The exit
  status is that of a loading error. The report has the notices of the images in front of it, then
  the name of this image and the reason that it is refused for, and neither a trace nor a summary.
  The processor is as loading the images in front has left it. So no instruction was carried out;
  the terminal was not prepared, and no key was taken from it and nothing shown on it; and no
  interrupt was routed to the machine. -/
theorem load_failure_prevents_run {arguments : List String} {choices : Choices}
    {limit : Option Int} {depth : Int} (h : Asks arguments choices limit depth) (files : HostFiles)
    (hnames : ∀ path ∈ choices.images, path.toList.contains '\x00' = false) (allowance : Nat) :
    let read := files.read
    let r := requested choices limit depth
    let reply := respond arguments read terminal alarm allowance
    (History.greatestDepth < depth → reply = .failed (.misuse .depthTooLarge)) ∧
    (depth ≤ History.greatestDepth →
      ((∀ path ∈ choices.images, refusal? read path = none) ∧
        ∃ p, IsPoised r terminal alarm (contents read choices.images) p ∧
          Opens read choices.images (powerOn r terminal alarm) choices.images (.ok (), p) ∧
          reply = match (runGuarded allowance).run p with
            | (.ok none, _) => .running
            | (.ok (some _), q) => conclude r (.ok ()) q
            | (.error f, q) => conclude r (.error f) q) ∨
      ∃ before path after reason p, choices.images = before ++ path :: after ∧
        (∀ earlier ∈ before, refusal? read earlier = none) ∧
        refusal? read path = some (.imageLoad path reason) ∧
        IsPoised r terminal alarm (contents read before) p ∧
        Opens read choices.images (powerOn r terminal alarm) (before ++ [path])
          (.error (.imageLoad path reason), p) ∧
        reply = .finished .loadError
          (noticeText p ++ "failed to load image: " ++ path ++ " (" ++ reason ++ ")\n") p) := by
  intro read r reply
  refine ⟨fun hlt => ?_, fun hle => ?_⟩
  · change respond arguments read terminal alarm allowance = _
    rw [respond, request_of_asks h, if_neg (Int.not_le.mpr hlt)]
  · have hreply : reply = carryOut r read terminal alarm allowance := by
      change respond arguments read terminal alarm allowance = _
      rw [respond, request_of_asks h, if_pos hle]
    rcases hfirst : choices.images.findSome? (refusal? read) with _ | f
    · have hloaded := List.findSome?_eq_none_iff.mp hfirst
      obtain ⟨p, hpoised, hrun, hopens⟩ := loading_of_accepted terminal alarm (r := r) hloaded
      refine Or.inl ⟨hloaded, p, hpoised, hopens, ?_⟩
      rcases hend : (runGuarded allowance).run p with ⟨f | _ | _, q⟩ <;>
        simp only [hreply, carryOut, hrun, hend]
    · obtain ⟨path, reason, rfl, before, after, himages, hbefore, hpath⟩ :=
        firstRefused_of_findSome? (fun path hpath => files.explains_read (hnames path hpath)) hfirst
      obtain ⟨p, hpoised, hrun, hopens⟩ :=
        loading_of_refused terminal alarm (r := r) himages hbefore hpath
      refine Or.inr ⟨before, path, after, reason, p, himages, hbefore, hpath, hpoised, hopens, ?_⟩
      rw [hreply, carryOut, hrun]
      rfl

/-- Of all files of a host there are two. The one holds a program that halts at once, the other too
little for an image. -/
def twoFiles : HostFiles := fun path =>
  if path = "a.obj" then .ok [0x40, 0x00, 0xF0, 0x25]
  else if path = "c.obj" then .ok [0x30]
  else .error ⟨some ReadError.notFound.message, ""⟩

/-- The second of three images is missing. The first is in memory and the third is not looked at,
though it could not be loaded either; the trace that is asked for is not printed, and the key that
is there is not taken. -/
theorem load_failure_of_secondImage :
    let reply := respond ["-t", "a.obj", "b.obj", "c.obj"] twoFiles.read
      ({ keys := [0x41] } : ScriptedTerminal) (some ⟨.read, 1⟩) 5
    ∃ p, reply = .finished .loadError
        "failed to load image: b.obj (No such file or directory)\n" p ∧
      p.machine.memory.peek 0x4000 = 0xF025 ∧ p.machine.registers.pc = 0x3000 ∧
      p.machine.cycles = 0 ∧ p.machine.console.terminal.keys = [0x41] := by
  intro reply
  have hasks : Asks ["-t", "a.obj", "b.obj", "c.obj"]
      { images := ["a.obj", "b.obj", "c.obj"], trace := true } none 1000 :=
    asks_of_parse (by decide +kernel) (by rintro n ⟨⟩) (by decide)
  obtain ⟨-, hends⟩ := load_failure_prevents_run ({ keys := [0x41] } : ScriptedTerminal)
    (some ⟨.read, 1⟩) hasks twoFiles (by decide) 5
  have hfirst : refusal? twoFiles.read "a.obj" = none := by decide +kernel
  have hsecond : refusal? twoFiles.read "b.obj" =
      some (.imageLoad "b.obj" "No such file or directory") := by decide +kernel
  rcases hends (by decide) with ⟨hloaded, -⟩ |
    ⟨before, path, after, reason, p, himages, hbefore, hpath, hpoised, -, hreply⟩
  · cases hsecond.symm.trans (hloaded "b.obj" (by decide))
  · rcases before with _ | ⟨a, _ | ⟨b, before⟩⟩
    · obtain ⟨rfl, -⟩ := List.cons.inj himages
      cases hfirst.symm.trans hpath
    · obtain ⟨rfl, htail⟩ := List.cons.inj himages
      obtain ⟨rfl, -⟩ := List.cons.inj htail
      cases hsecond.symm.trans hpath
      obtain ⟨⟨memory, journal, heq⟩, hpc, hcells, hjournal⟩ := hpoised
      have hnotices : noticeText p = "" := by
        rw [noticeText, hjournal]
        decide +kernel
      refine ⟨p, ?_, (hcells 0x4000).trans (by decide +kernel), hpc, ?_, ?_⟩
      · rw [hnotices] at hreply
        exact hreply
      · rw [heq]
        rfl
      · rw [heq]
        rfl
    · obtain ⟨-, htail⟩ := List.cons.inj himages
      obtain ⟨rfl, -⟩ := List.cons.inj htail
      cases hsecond.symm.trans (hbefore _ (List.mem_cons_of_mem _ List.mem_cons_self))

/-- **With a trace that is to be too long** a missing image is not reported: the program fails
before it looks for it, and there is no exit status. -/
theorem load_failure_unreported_of_too_deep :
    ¬∀ (arguments : List String) (choices : Choices) (limit : Option Int) (depth : Int)
      (files : HostFiles) (terminal : ScriptedTerminal) (alarm : Option Alarm) (allowance : Nat),
      Asks arguments choices limit depth →
      (∀ path ∈ choices.images, path.toList.contains '\x00' = false) →
      (∃ path reason, FirstRefused files.read choices.images path reason) →
      ∃ report q, respond arguments files.read terminal alarm allowance =
        .finished .loadError report q := by
  intro hall
  have hasks : Asks ["--trace-depth", "9223372036854775808", "a.obj"] { images := ["a.obj"] } none
      9223372036854775808 := asks_of_parse (by decide +kernel) (by rintro n ⟨⟩) (by decide)
  let files : HostFiles := fun _ => .error ⟨some ReadError.notFound.message, ""⟩
  obtain ⟨report, q, hreply⟩ := hall _ _ _ _ files { keys := [] } none 0 hasks (by decide)
    ⟨"a.obj", ReadError.notFound.message, [], [], rfl, List.forall_mem_nil _, by decide +kernel⟩
  rw [respond, request_of_asks hasks, if_neg (by decide)] at hreply
  cases hreply

end CommandLine

end LittleComputer
