import LittleComputer.Proofs.GalleryAgreement
import LittleComputer.Proofs.LoadFailures

/-!
# Files that hold no image

An image is asked for by a path, and many things can be wrong with the file that the path names: it
is not there, it is a directory, its name is too long, the host has reasons of its own, or the bytes
that it hands out are too few. All of them come to the same: the failure names the path and gives a
reason, and the machine is as it was (`LittleComputer.HostFiles.Lacks`). Both front ends know this
failure, and say so.

There is one way past it. A path with the character that ends names cannot be put to a host at all.
This is found out before the host is asked, and it is a misuse, which no front end reports
(`LittleComputer.refusal_of_nul`). Since a list of images comes down to the first of them that is
refused, what the front ends answer depends on the path of that image and on no other
(`LittleComputer.Answers`). The main statement is
`LittleComputer.unreadable_files_are_reported`.
-/

namespace LittleComputer

variable {T : Type} [Terminal T] {files : HostFiles} {path : String}

/-! ### One file -/

/-- **Why there is no image in a file of a host.** -/
inductive HostFiles.Lacks (files : HostFiles) (path : String) : String → Prop
  /-- The host refuses the file, for this reason. -/
  | refused {e : HostRefusal} (h : files path = .error e) : Lacks files path e.wording
  /-- The bytes of the file do not hold an origin. -/
  | tooShort {bytes : List Byte} (h : files path = .ok bytes) (hshort : bytes.length < 2) :
    Lacks files path "truncated header (missing origin word)"

/-- **The image in a file of a host is loaded.** The answer is its origin and the number of words
stored. Its words go where the bytes of the file put them; nothing else is changed but for the
notices of this. -/
def Machine.Loads (m : Machine T) (files : HostFiles) (path : String) : Prop :=
  ∃ bytes origin memory, files path = .ok bytes ∧ Image.wordAt? bytes 0 = some origin ∧
    (loadFile files.read path).run m =
      (.ok (origin, Image.storedFrom bytes origin), { m with
        memory
        console := { m.console with
          journal := m.console.journal.recordAll (Image.loadNotices path bytes origin) } }) ∧
    ∀ a, memory.peek a = (Image.placed? bytes a).getD (m.memory.peek a)

theorem refusal_of_nul (files : HostFiles) (h : path.toList.contains '\x00' = true) :
    refusal? files.read path = some (.misuse .nulInPath) := by
  rw [refusal?, HostFiles.read, if_pos h]

/-- **What a file is refused for** that can be put to a host. -/
theorem refusal_iff_lacks (h : path.toList.contains '\x00' = false) {f : Failure} :
    refusal? files.read path = some f ↔
      ∃ reason, files.Lacks path reason ∧ f = .imageLoad path reason := by
  rw [refusal_of_files files h]
  constructor
  · intro hf
    rcases hfile : files path with e | bytes <;> rw [hfile] at hf
    · cases hf
      exact ⟨_, .refused hfile, rfl⟩
    · dsimp only at hf
      by_cases hshort : bytes.length < 2
      · rw [if_pos hshort] at hf
        cases hf
        exact ⟨_, .tooShort hfile hshort, rfl⟩
      · rw [if_neg hshort] at hf
        cases hf
  · rintro ⟨_, hfile | ⟨hfile, hshort⟩, rfl⟩ <;> rw [hfile]
    exact if_pos hshort

theorem HostFiles.ok_of_read {bytes : List Byte} (h : files.read path = .ok bytes) :
    files path = .ok bytes := by
  unfold HostFiles.read at h
  split at h
  · cases h
  · rcases hfile : files path with e | bytes' <;> rw [hfile] at h <;> cases h
    rfl

theorem Machine.loads_of_loaded (h : refusal? files.read path = none) (m : Machine T) :
    m.Loads files path := by
  obtain ⟨bytes, origin, hread, horigin, hrun⟩ := run_loadFile_of_loaded h m
  obtain ⟨memory, journal, hafter, hcells⟩ := m.afterLoading_effect [(path, bytes)]
  have hjournal := journal_afterLoading [(path, bytes)] m
  rw [hafter] at hrun hjournal
  have hnotices : [(path, bytes)].flatMap (fun image => Image.noticesOf image.1 image.2) =
      Image.loadNotices path bytes origin := by
    rw [List.flatMap_singleton, Image.noticesOf, horigin]
    rfl
  rw [hnotices] at hjournal
  obtain rfl : journal = _ := hjournal
  refine ⟨bytes, origin, memory, HostFiles.ok_of_read hread, horigin, hrun, fun a => ?_⟩
  have hcell := hcells a
  rw [List.reverse_singleton, List.findSome?_singleton] at hcell
  exact hcell

/-! ### The front ends -/

open CommandLine Gallery

/-- **How the front ends answer when these images are asked for**: what comes of every command line
that names them, with positive numbers and a depth that a history can have, and what page the
gallery makes of them, whatever the keys and the limit. -/
structure Answers (T : Type) [Terminal T] (read : FileReader) (images : List String)
    (reply : Reply T → Prop) (page : Except Failure (Option Page)) : Prop where
  commandLine : ∀ (arguments : List String) (choices : Choices) (limit : Option Int) (depth : Int),
    Asks arguments choices limit depth → depth ≤ History.greatestDepth → choices.images = images →
    ∀ (terminal : T) (alarm : Option Alarm) (allowance : Nat),
      reply (respond arguments read terminal alarm allowance)
  gallery : ∀ (keyboard : String) (limit : Limit) (n : Int) (name : Option String)
    (allowance : Nat), limit.toInt = .ok n →
      exhibit read (choose images name) keyboard limit allowance = page

/-- **What is refused first decides about the answers.** -/
theorem answers_of_refused {read : FileReader} {before : List String} {f : Failure}
    (h : ∀ earlier ∈ before, refusal? read earlier = none) (hpath : refusal? read path = some f)
    (after : List String) :
    Answers T read (before ++ path :: after) (fun reply => ∃ p, reply = loadFailure f p)
      (if f.IsReportable then .ok (some (errorPage f.message)) else .error f) where
  commandLine arguments choices limit depth hasks hle himages terminal alarm allowance := by
    obtain ⟨p, -, hrun, -⟩ := loading_of_refused terminal alarm
      (r := requested choices limit depth) himages h hpath
    refine ⟨p, ?_⟩
    rw [respond, request_of_asks hasks, if_pos hle]
    dsimp only
    rw [carryOut, hrun]
  gallery keyboard limit n name allowance hlimit := by
    have hchoose : choose (before ++ path :: after) name = .files (before ++ path :: after) := by
      rw [choose, List.isEmpty_eq_false_iff.mpr (List.append_ne_nil_of_right_ne_nil _
        (List.cons_ne_nil _ _))]
      rfl
    have hfirst : (before ++ path :: after).findSome? (refusal? read) = some f :=
      List.findSome?_eq_some_iff.mpr ⟨before, path, after, rfl, hpath, h⟩
    rw [hchoose, exhibit, hlimit]
    change exhibitWithin read _ keyboard n allowance = _
    rw [exhibitWithin, run_load_files, run_loadAll, hfirst]
    rfl

/-! ### Main statement -/

/-- **Every file that holds no image is reported, unless its path cannot be put to a host.** Let the
files be those of any host, and let them be read by any path.

* If the path does not contain the character that ends names, the image in the file is loaded, or
  the loading fails with the path and a reason, and the machine is as it was. The reason is the one
  that the host has, or that there is no origin in the bytes.
* In the latter case, wherever the path stands in a list of images, provided that those in front of
  it are loaded: the exit status of the command line is that of a loading error, and the report and
  the page of the gallery name the path and the reason.
* If the path contains the character, nothing is asked of the host, and nothing is loaded. The
  failure is a misuse, and both front ends fail with it. -/
theorem unreadable_files_are_reported (T : Type) [Terminal T] (files : HostFiles) (path : String) :
    (path.toList.contains '\x00' = false →
      (∀ m : Machine T, m.Loads files path ∨ ∃ reason, files.Lacks path reason ∧
        (Machine.loadFile files.read path).run m = (.error (.imageLoad path reason), m)) ∧
      ∀ reason, files.Lacks path reason → ∀ before after,
        (∀ earlier ∈ before, refusal? files.read earlier = none) →
        Answers T files.read (before ++ path :: after)
          (fun reply => ∃ p, reply = .finished .loadError
            (noticeText p ++ "failed to load image: " ++ path ++ " (" ++ reason ++ ")\n") p)
          (.ok (some (errorPage (path ++ ": " ++ reason))))) ∧
    (path.toList.contains '\x00' = true →
      (∀ m : Machine T, (Machine.loadFile files.read path).run m =
        (.error (.misuse .nulInPath), m)) ∧
      ∀ before after, (∀ earlier ∈ before, refusal? files.read earlier = none) →
        Answers T files.read (before ++ path :: after)
          (fun reply => reply = .failed (.misuse .nulInPath)) (.error (.misuse .nulInPath))) := by
  refine ⟨fun h => ⟨fun m => ?_, fun reason hlacks before after hbefore => ?_⟩,
    fun h => ⟨fun m => ?_, fun before after hbefore => ?_⟩⟩
  · rcases hrefusal : refusal? files.read path with _ | f
    · exact Or.inl (Machine.loads_of_loaded hrefusal m)
    · obtain ⟨reason, hlacks, rfl⟩ := (refusal_iff_lacks h).mp hrefusal
      exact Or.inr ⟨reason, hlacks, Machine.run_loadFile_of_refused hrefusal m⟩
  · exact answers_of_refused hbefore ((refusal_iff_lacks h).mpr ⟨reason, hlacks, rfl⟩) after
  · exact Machine.run_loadFile_of_refused (refusal_of_nul files h) m
  · obtain ⟨hreply, hpage⟩ :=
      answers_of_refused (T := T) hbefore (refusal_of_nul files h) after
    refine ⟨fun arguments choices limit depth hasks hle himages terminal alarm allowance => ?_,
      hpage⟩
    obtain ⟨p, hp⟩ :=
      hreply arguments choices limit depth hasks hle himages terminal alarm allowance
    exact hp

/-- A machine that nothing was loaded into. -/
def emptyMachine : Machine ScriptedTerminal := Machine.powerOn { terminal := { keys := [] } }

/-- A missing file is told apart from one that cannot be asked for. -/
theorem unreadable_of_missingFile :
    (Machine.loadFile twoFiles.read "b.obj").run emptyMachine =
        (.error (.imageLoad "b.obj" "No such file or directory"), emptyMachine) ∧
      exhibit twoFiles.read (choose ["a.obj", "b.obj"] none) "" (.whole 5) 6 =
        .ok (some (errorPage "b.obj: No such file or directory")) ∧
      (Machine.loadFile twoFiles.read "a.obj\x00").run emptyMachine =
        (.error (.misuse .nulInPath), emptyMachine) := by
  have hname : "b.obj".toList.contains '\x00' = false := by decide
  have hnul : "a.obj\x00".toList.contains '\x00' = true := by decide
  have hmissing : twoFiles "b.obj" = .error ⟨some "No such file or directory", ""⟩ := by
    rw [twoFiles, if_neg (by decide), if_neg (by decide)]
    rfl
  have hfirst : ∀ earlier ∈ ["a.obj"], refusal? twoFiles.read earlier = none := by decide +kernel
  obtain ⟨hone, hevery⟩ :=
    (unreadable_files_are_reported ScriptedTerminal twoFiles "b.obj").1 hname
  obtain ⟨hnone, -⟩ :=
    (unreadable_files_are_reported ScriptedTerminal twoFiles "a.obj\x00").2 hnul
  have hanswers := hevery _ (.refused hmissing) ["a.obj"] [] hfirst
  refine ⟨?_, hanswers.gallery "" (.whole 5) 5 none 6 rfl, hnone emptyMachine⟩
  rcases hone emptyMachine with ⟨bytes, _, _, hbytes, -⟩ | ⟨reason, hlacks, hrun⟩
  · cases hmissing.symm.trans hbytes
  · rcases hlacks with he | ⟨hbytes, -⟩
    · cases hmissing.symm.trans he
      exact hrun
    · cases hmissing.symm.trans hbytes

/-- **A path that cannot be put to a host** is no loading error. -/
theorem unreported_of_nulInPath :
    ¬∀ (files : HostFiles) (path : String) (m : Machine ScriptedTerminal), m.Loads files path ∨
      ∃ reason, (Machine.loadFile files.read path).run m = (.error (.imageLoad path reason), m) := by
  intro hall
  have hnul : "a\x00b".toList.contains '\x00' = true := by decide
  have hrun := Machine.run_loadFile_of_refused (refusal_of_nul twoFiles hnul) emptyMachine
  rcases hall twoFiles "a\x00b" emptyMachine with ⟨_, _, _, -, -, hloads, -⟩ | ⟨reason, hfails⟩
  · cases hrun.symm.trans hloads
  · cases hrun.symm.trans hfails

end LittleComputer
