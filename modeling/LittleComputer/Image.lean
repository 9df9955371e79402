import LittleComputer.Machine.Basic

/-!
# Program images

An image is a sequence of bytes: pairs of them are words, the high byte first.
The first word is the origin, and the others are loaded to consecutive cells from
there on. Words that would run past the last cell are dropped, and so is an odd
byte at the end; both are worth a notice. Anything of at least two bytes is an
image (`LittleComputer.Image.parse`).

`LittleComputer.Image.toBytes` writes an image.
-/

namespace LittleComputer

/-- A program image: where it goes, and what goes there. -/
structure Image where
  /-- The address of the first word. -/
  origin : Word
  /-- The words. -/
  words : List Word
  deriving DecidableEq, Repr

namespace Image

/-- The words that pairs of bytes stand for, in front of which stand those of
`before` in reverse order. An odd byte at the end is dropped. -/
def pairBytes : (before : List Word) → List Byte → List Word
  | before, high :: low :: rest => pairBytes (joinBytes high low :: before) rest
  | before, _ => before.reverse

/-- The words that pairs of bytes stand for. -/
def wordsOfBytes (bytes : List Byte) : List Word := pairBytes [] bytes

/-- The two bytes of a word, the high one first. -/
def bytesOfWord (w : Word) : List Byte := [highByte w, lowByte w]

/-- The image that bytes hold. Fewer than two bytes do not even hold an origin. -/
def parse (name : String) : List Byte → Except Failure (Image × List Notice)
  | high :: low :: rest =>
    .ok (⟨joinBytes high low, wordsOfBytes rest⟩,
      if rest.length % 2 = 1 then [.oddByte name] else [])
  | _ => .error (.imageLoad name "truncated header (missing origin word)")

/-- The bytes of an image. -/
def toBytes (i : Image) : List Byte := (i.origin :: i.words).flatMap bytesOfWord

/-- The number of words that find a cell. -/
def stored (i : Image) : Nat := Memory.room i.origin i.words.length

/-- The name of an image that was given none. -/
def anonymous : String := "<image>"

/-! ### Laws -/

theorem pairBytes_eq : ∀ (before : List Word) (bytes : List Byte),
    pairBytes before bytes = before.reverse ++ wordsOfBytes bytes
  | before, [] => by simp [wordsOfBytes, pairBytes]
  | before, [_] => by simp [wordsOfBytes, pairBytes]
  | before, high :: low :: rest => by
    have h := pairBytes_eq (joinBytes high low :: before) rest
    have h' := pairBytes_eq [joinBytes high low] rest
    simp only [wordsOfBytes, pairBytes] at h h' ⊢
    rw [h, h']
    simp

@[simp] theorem wordsOfBytes_nil : wordsOfBytes [] = [] := rfl

@[simp] theorem wordsOfBytes_singleton (b : Byte) : wordsOfBytes [b] = [] := rfl

@[simp] theorem wordsOfBytes_cons_cons (high low : Byte) (rest : List Byte) :
    wordsOfBytes (high :: low :: rest) = joinBytes high low :: wordsOfBytes rest := by
  change pairBytes [joinBytes high low] rest = _
  rw [pairBytes_eq]
  rfl

end Image

namespace Machine

variable {T : Type} [Terminal T]

/-- Load an image given as bytes. The answer is its origin and the number of
words stored. -/
def loadImage (name : String) (bytes : List Byte) : Action T (Word × Nat) :=
  match Image.parse name bytes with
  | .error failure => throw failure
  | .ok (image, notices) => do
    notices.forM note
    let dropped := image.words.length - image.stored
    if 0 < dropped then note (.wordsDropped name dropped)
    modify fun m => { m with memory := m.memory.load image.origin image.words }
    note (.loaded name image.stored image.origin)
    return (image.origin, image.stored)

end Machine

end LittleComputer
