import LittleComputer.Image

/-!
# Files

The files that a program image can be read from: a directory tree, made by writing
files and directories one after the other. A path is resolved from the working
directory name by name; empty names and single dots are left out of it beforehand, so
`a//b`, `./a/b` and `a/b/` all name the same file, and the empty path names the
working directory itself. Two dots lead to the directory above, and a name before
them has to be that of a directory.

Above the working directory there are directories only, and what was written there;
the way back down is not known.

Programs that load images do not depend on this tree but on a
`LittleComputer.FileReader`, of which `LittleComputer.FileSystem.read` is one. It is
what `LittleComputer.HostFiles.read` makes of the tree, and would make of any other
host that hands out files: whatever the host refuses is a failure to load the image,
and a path that cannot even be put to the host is a misuse.
-/

namespace LittleComputer

/-- What a name in a directory stands for. -/
inductive FileNode
  /-- A file with its content. -/
  | file (bytes : List Byte)
  /-- A directory. -/
  | directory

/-- A place in a directory tree, as seen from the working directory: first the way
up, if there is one, as names of two dots, or one stroke for the way up to the end;
then the names on the way down. -/
abbrev Place := List String

/-- A directory tree: the place of each entry and the entry, the latest first. -/
structure FileSystem where
  /-- The files and directories. Where there are several at one place, the first is
  there. -/
  entries : List (Place × FileNode) := []

/-- Why a file cannot be read. -/
inductive ReadError
  | notFound | isDirectory | notDirectory | nameTooLong
  deriving DecidableEq, Repr

/-- The wording of a reading error. -/
def ReadError.message : ReadError → String
  | notFound => "No such file or directory"
  | isDirectory => "Is a directory"
  | notDirectory => "Not a directory"
  | nameTooLong => "File name too long"

/-! ### Readers -/

/-- A source of files: the content of the file that a path names, or why there is
none. -/
abbrev FileReader := String → Except Failure (List Byte)

/-- Why a host does not hand out a file. -/
structure HostRefusal where
  /-- The reason by itself, if the host names one. -/
  reason : Option String
  /-- All that the host has to say. -/
  text : String
  deriving DecidableEq, Repr

/-- The reason that is given for a refusal: the one that the host names, or else all
that it has to say. -/
def HostRefusal.wording (e : HostRefusal) : String :=
  match e.reason with
  | some reason => if reason.isEmpty then e.text else reason
  | none => e.text

/-- The files of a host: the content of the file that a path names, or its refusal. -/
abbrev HostFiles := String → Except HostRefusal (List Byte)

/-- Read files from a host. A path with the character that ends names cannot be put
to it. -/
def HostFiles.read (files : HostFiles) : FileReader := fun path =>
  if path.toList.contains '\x00' then .error (.misuse .nulInPath)
  else
    match files path with
    | .ok bytes => .ok bytes
    | .error e => .error (.imageLoad path e.wording)

namespace FileSystem

/-- The longest name of a file, in bytes. -/
def longestName : Nat := 255

/-- The longest path, in bytes. -/
def longestPath : Nat := 4095

/-- The names on a path. Empty names and single dots are left out. -/
def names (path : String) : List String :=
  (path.splitOn "/").filter fun name => name ≠ "" && name ≠ "."

/-- How many strokes a path begins with, as far as they matter: two stay two, more
are one. -/
def leadingStrokes (path : String) : Nat :=
  match (path.toList.takeWhile (· = '/')).length with
  | 0 => 0
  | 2 => 2
  | _ => 1

/-- The length of a path in bytes, without what is left out of it. -/
def length (path : String) : Nat :=
  leadingStrokes path + ("/".intercalate (names path)).utf8ByteSize

/-- The directory above a place. There is none above the end of the way up. -/
def above (place : Place) : Place :=
  match place.getLast? with
  | none | some ".." => place ++ [".."]
  | some "/" => place
  | some _ => place.dropLast

/-- Whether a place is the working directory or above it. -/
def isUpward (place : Place) : Bool := place = ["/"] || place.all (· = "..")

/-- The place that a name leads to. -/
def step (place : Place) (name : String) : Place :=
  if name = ".." then above place else place ++ [name]

/-- What is at a place. -/
def node? (fs : FileSystem) (place : Place) : Option FileNode :=
  if isUpward place then some .directory else fs.entries.lookup place

/-! ### Making a tree -/

/-- The tree with a directory at a place where there was nothing. -/
def makeDirectory (fs : FileSystem) (place : Place) : FileSystem :=
  if (fs.node? place).isSome then fs else { entries := (place, .directory) :: fs.entries }

/-- Write a node to where names lead from a place, and make the directories on the
way. A file takes the place of one that was there; no file can be written where two
dots lead. -/
def writeAt (fs : FileSystem) (node : FileNode) : Place → List String → FileSystem
  | _, [] => fs
  | place, [name] =>
    match node with
    | .directory => fs.makeDirectory (step place name)
    | .file _ =>
      if name = ".." then fs else { entries := (step place name, node) :: fs.entries }
  | place, name :: rest =>
    (fs.makeDirectory (step place name)).writeAt node (step place name) rest

/-- Where a path starts: at the end of the way up if it begins with a stroke, else at
the working directory. -/
def start (path : String) : Place := if leadingStrokes path = 0 then [] else ["/"]

/-- A directory tree from the paths of its entries, written in order. -/
def ofList (entries : List (String × FileNode)) : FileSystem :=
  entries.foldl (fun fs (path, node) => fs.writeAt node (start path) (names path)) {}

/-! ### Reading -/

/-- Resolve names one by one from a place. -/
def resolve (fs : FileSystem) : Place → List String → Except ReadError FileNode
  | place, [] => (fs.node? place).elim (.error .notFound) .ok
  | place, name :: rest =>
    match fs.node? place with
    | none => .error .notFound
    | some (.file _) => .error .notDirectory
    | some .directory =>
      if longestName < name.utf8ByteSize then .error .nameTooLong
      else fs.resolve (step place name) rest

/-- The node that a path names. -/
def find (fs : FileSystem) (path : String) : Except ReadError FileNode :=
  if longestPath < length path then .error .nameTooLong
  else fs.resolve (start path) (names path)

/-- The tree as the files of a host. A directory has no content to hand out. -/
def files (fs : FileSystem) : HostFiles := fun path =>
  match fs.find path with
  | .ok (.file bytes) => .ok bytes
  | .ok .directory => .error ⟨some ReadError.isDirectory.message, ""⟩
  | .error e => .error ⟨some e.message, ""⟩

/-- The content of the file that a path names. -/
def read (fs : FileSystem) : FileReader := fs.files.read

end FileSystem

/-- Load the image in the file that a path names. -/
def Machine.loadFile {T : Type} [Terminal T] (read : FileReader) (path : String) :
    Action T (Word × Nat) :=
  match read path with
  | .ok bytes => Machine.loadImage path bytes
  | .error failure => throw failure

end LittleComputer
