import LittleComputer.CommandLine.Basic
import LittleComputer.Proofs.Loading
import LittleComputer.Proofs.Step

/-!
# Images that cannot be loaded

Whether the image in a file can be loaded is a matter of the file alone: nothing may be there to
be read, or too few bytes for an origin (`LittleComputer.refusal?`). Neither memory nor what was
loaded before has a part in it. So a list of images is cut at the first that is refused. Those in
front of it are loaded, and its refusal is what the loading ends with
(`LittleComputer.CommandLine.run_loadAll`).

What is read comes from outside. All that is asked of it is that it accounts for what it cannot
read by the path and a reason (`LittleComputer.FileReader.Explains`), as a directory tree does for
all paths without the character that ends names (`LittleComputer.FileSystem.explains_read`).
-/

namespace LittleComputer

/-! ### One image -/

/-- Why the image in the file that a path names cannot be loaded, if it cannot. -/
def refusal? (read : FileReader) (path : String) : Option Failure :=
  match read path with
  | .error f => some f
  | .ok bytes =>
    if bytes.length < 2 then some (.imageLoad path "truncated header (missing origin word)")
    else none

/-- Whatever cannot be read under this path is accounted for by the path and a reason. -/
def FileReader.Explains (read : FileReader) (path : String) : Prop :=
  ∀ f, read path = .error f → ∃ reason, f = .imageLoad path reason

/-- What a host is asked for and refuses is accounted for. -/
theorem HostFiles.explains_read (files : HostFiles) {path : String}
    (h : path.toList.contains '\x00' = false) : FileReader.Explains files.read path := by
  intro f hf
  rw [HostFiles.read, if_neg (by rw [h]; exact Bool.false_ne_true)] at hf
  split at hf
  · cases hf
  · cases hf
    exact ⟨_, rfl⟩

/-- A directory tree accounts for what cannot be read. -/
theorem FileSystem.explains_read (fs : FileSystem) {path : String}
    (h : path.toList.contains '\x00' = false) : FileReader.Explains fs.read path :=
  fs.files.explains_read h

/-- **An image that is refused is refused by its path**, with a reason. -/
theorem explained_of_refusal {read : FileReader} {path : String} (h : read.Explains path)
    {f : Failure} (hf : refusal? read path = some f) : ∃ reason, f = .imageLoad path reason := by
  unfold refusal? at hf
  split at hf
  · rename_i f' hread
    obtain rfl := Option.some.inj hf
    exact h f' hread
  · split at hf
    · exact ⟨_, (Option.some.inj hf).symm⟩
    · cases hf

namespace Machine

open Image

variable {T : Type} [Terminal T] {read : FileReader} {path : String}

/-- **A file that is refused leaves the machine as it was.** -/
theorem run_loadFile_of_refused {f : Failure} (h : refusal? read path = some f) (m : Machine T) :
    (loadFile read path).run m = (.error f, m) := by
  unfold refusal? at h
  unfold loadFile
  rcases hread : read path with f' | bytes <;> rw [hread] at h
  · cases h
    rfl
  · dsimp only at h ⊢
    by_cases hshort : bytes.length < 2
    · rw [if_pos hshort] at h
      cases h
      exact run_loadImage_of_short hshort path m
    · rw [if_neg hshort] at h
      cases h

/-- **A file that is not refused is loaded**, as the image that its bytes hold. -/
theorem run_loadFile_of_loaded (h : refusal? read path = none) (m : Machine T) :
    ∃ bytes origin, read path = .ok bytes ∧ wordAt? bytes 0 = some origin ∧
      (loadFile read path).run m =
        (.ok (origin, storedFrom bytes origin), m.afterLoading [(path, bytes)]) := by
  unfold refusal? at h
  unfold loadFile
  rcases hread : read path with f | bytes <;> rw [hread] at h
  · cases h
  · dsimp only at h ⊢
    rcases bytes with _ | ⟨high, _ | ⟨low, rest⟩⟩
    · cases h
    · cases h
    · have hafter : m.afterLoading [(path, high :: low :: rest)] =
          ((loadImage path (high :: low :: rest)).run m).2 := rfl
      refine ⟨_, joinBytes high low, rfl, rfl, ?_⟩
      rw [hafter, run_loadImage]

end Machine

/-! ### Several images -/

/-- The image in the file that `path` names is the first of a list that cannot be loaded, for the
given reason. -/
def FirstRefused (read : FileReader) (images : List String) (path reason : String) : Prop :=
  ∃ before after, images = before ++ path :: after ∧
    (∀ earlier ∈ before, refusal? read earlier = none) ∧
    refusal? read path = some (.imageLoad path reason)

/-- What a list of images is refused for is what the first of them is that is refused. -/
theorem firstRefused_of_findSome? {read : FileReader} {images : List String}
    (h : ∀ path ∈ images, read.Explains path) {f : Failure}
    (hf : images.findSome? (refusal? read) = some f) :
    ∃ path reason, f = .imageLoad path reason ∧ FirstRefused read images path reason := by
  obtain ⟨before, path, after, himages, hpath, hbefore⟩ := List.findSome?_eq_some_iff.mp hf
  have hmem : path ∈ images := by
    rw [himages]
    exact List.mem_append_right before List.mem_cons_self
  obtain ⟨reason, rfl⟩ := explained_of_refusal (h path hmem) hpath
  exact ⟨path, reason, rfl, before, after, himages, hbefore, hpath⟩

/-- The files of a list that can be read, each with what it holds. -/
def contents (read : FileReader) (images : List String) : List (String × List Byte) :=
  images.filterMap fun path => (read path).toOption.map fun bytes => (path, bytes)

/-- The images of a list in front of the first that is refused. -/
def accepted (read : FileReader) (images : List String) : List String :=
  images.takeWhile fun path => (refusal? read path).isNone

section Accepted

variable {read : FileReader} {before : List String}
  (h : ∀ earlier ∈ before, refusal? read earlier = none)

include h

theorem accepted_append (rest : List String) :
    accepted read (before ++ rest) = before ++ accepted read rest := by
  refine List.takeWhile_append_of_pos fun earlier hearlier => ?_
  rw [h earlier hearlier]
  rfl

theorem accepted_of_loaded : accepted read before = before := by
  have happend := accepted_append h []
  have hnil : accepted read [] = [] := rfl
  rwa [hnil, List.append_nil] at happend

theorem accepted_of_refused {path : String} {f : Failure} (hpath : refusal? read path = some f)
    (after : List String) : accepted read (before ++ path :: after) = before := by
  rw [accepted_append h, accepted, List.takeWhile_cons, hpath]
  exact List.append_nil before

end Accepted

namespace CommandLine

variable {T : Type} [Terminal T]

section Loading

variable {read : FileReader} {path : String} {p : Processor T} {m : Machine T}

theorem run_loadAll_cons_of_ok {x : Word × Nat}
    (h : (Machine.loadFile read path).run p.machine = (.ok x, m)) (rest : List String) :
    (loadAll read (path :: rest)).run p = (loadAll read rest).run { p with machine := m } :=
  run_bind_of_ok (run_bind_of_ok (Processor.run_onMachine_of_ok h) fun _ => pure ()) fun _ =>
    loadAll read rest

theorem run_loadAll_cons_of_error {f : Failure}
    (h : (Machine.loadFile read path).run p.machine = (.error f, m)) (rest : List String) :
    (loadAll read (path :: rest)).run p = (.error f, { p with machine := m }) :=
  run_bind_of_error (run_bind_of_error (Processor.run_onMachine_of_error h) fun _ => pure ())
    fun _ => loadAll read rest

end Loading

/-- **The loading of several images** loads those in front of the first that is refused, and ends
with its refusal, or without one. -/
theorem run_loadAll (read : FileReader) (images : List String) (p : Processor T) :
    (loadAll read images).run p =
      ((images.findSome? (refusal? read)).elim (.ok ()) .error,
        { p with machine := p.machine.afterLoading (contents read (accepted read images)) }) := by
  induction images generalizing p with
  | nil => rfl
  | cons path rest ih =>
    rw [List.findSome?_cons, accepted, List.takeWhile_cons]
    rcases hrefusal : refusal? read path with _ | f
    · obtain ⟨bytes, origin, hread, -, hload⟩ :=
        Machine.run_loadFile_of_loaded hrefusal p.machine
      rw [run_loadAll_cons_of_ok hload, ih]
      simp only [contents, Option.isNone_none, if_true, List.filterMap_cons, hread]
      rfl
    · exact run_loadAll_cons_of_error (Machine.run_loadFile_of_refused hrefusal p.machine) rest

theorem outcome_loadAll (read : FileReader) (images : List String) (p : Processor T) :
    ((loadAll read images).run p).1 =
      (images.findSome? (refusal? read)).elim (.ok ()) .error :=
  congrArg Prod.fst (run_loadAll read images p)

end CommandLine

end LittleComputer
