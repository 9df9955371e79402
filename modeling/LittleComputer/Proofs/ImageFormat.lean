import LittleComputer.Proofs.Loading

/-!
# Images as bytes

An image is written word by word, the high byte of each first, and it is read pair by pair. The
writer knows how many words there are and the reader does not: it takes what bytes there are, and
a last byte without a partner is no word. So bytes hold an image exactly if they are those of the
image, with one byte more or none behind them, and the notices that reading leaves say which
(`LittleComputer.Image.parse_eq_ok_iff`). Both directions come down to the words behind the origin,
where they are inductions on the words and on the pairs.

The main statement is `LittleComputer.Image.format_round_trips`.
-/

namespace LittleComputer.Image

/-! ### Words and pairs of bytes -/

/-- **Pairs of bytes give back the words they were made of**, whether or not a byte is left over. -/
theorem wordsOfBytes_flatMap (words : List Word) (odd : Option Byte) :
    wordsOfBytes (words.flatMap bytesOfWord ++ odd.toList) = words := by
  induction words with
  | nil => cases odd <;> rfl
  | cons w rest ih =>
    change wordsOfBytes (highByte w :: lowByte w :: (rest.flatMap bytesOfWord ++ odd.toList)) = _
    rw [wordsOfBytes_cons_cons, joinBytes_highByte_lowByte, ih]

theorem length_flatMap_bytesOfWord (words : List Word) :
    (words.flatMap bytesOfWord).length = 2 * words.length := by
  induction words with
  | nil => rfl
  | cons w rest ih =>
    rw [List.flatMap_cons, List.length_append, ih, List.length_cons]
    exact (Nat.add_comm 2 _).trans (Nat.mul_succ 2 rest.length).symm

/-- **Words give back the bytes they were made of**, up to the byte that is left over. -/
theorem exists_flatMap_wordsOfBytes : ∀ bytes : List Byte, ∃ odd : Option Byte,
    bytes = (wordsOfBytes bytes).flatMap bytesOfWord ++ odd.toList
  | [] => ⟨none, rfl⟩
  | [b] => ⟨some b, rfl⟩
  | high :: low :: rest => by
    obtain ⟨odd, hrest⟩ := exists_flatMap_wordsOfBytes rest
    refine ⟨odd, ?_⟩
    rw [wordsOfBytes_cons_cons, List.flatMap_cons, List.append_assoc, ← hrest, bytesOfWord,
      highByte_joinBytes, lowByte_joinBytes]
    rfl

/-- A byte is left over exactly if the number of bytes is odd. -/
theorem odd_length_iff (words : List Word) (odd : Option Byte) :
    (words.flatMap bytesOfWord ++ odd.toList).length % 2 = 1 ↔ odd.isSome = true := by
  rw [List.length_append, length_flatMap_bytesOfWord]
  cases odd with
  | none => simp
  | some b => simp

/-! ### Reading and writing -/

/-- What is noted of the byte behind an image, if there is one. -/
def noticesOfOdd (name : String) (odd : Option Byte) : List Notice :=
  if odd.isSome then [.oddByte name] else []

variable {name : String} {bytes : List Byte} {i : Image} {ns : List Notice}

/-- **What is read as an image**: its bytes, and at most one byte more, which is noted. -/
theorem parse_eq_ok_iff : parse name bytes = .ok (i, ns) ↔
    ∃ odd : Option Byte, bytes = i.toBytes ++ odd.toList ∧ ns = noticesOfOdd name odd := by
  obtain ⟨origin, words⟩ := i
  constructor
  · intro h
    rcases bytes with _ | ⟨high, _ | ⟨low, rest⟩⟩
    · cases h
    · cases h
    · obtain ⟨odd, hrest⟩ := exists_flatMap_wordsOfBytes rest
      have hodd := odd_length_iff (wordsOfBytes rest) odd
      rw [← hrest] at hodd
      obtain ⟨himage, rfl⟩ := Prod.mk.inj (Except.ok.inj h)
      obtain ⟨rfl, rfl⟩ := Image.mk.inj himage
      refine ⟨odd, ?_, ?_⟩
      · rw [toBytes, List.flatMap_cons, List.append_assoc, ← hrest, bytesOfWord,
          highByte_joinBytes, lowByte_joinBytes]
        rfl
      · simp only [noticesOfOdd, hodd]
  · rintro ⟨odd, rfl, rfl⟩
    change parse name (highByte origin :: lowByte origin ::
      (words.flatMap bytesOfWord ++ odd.toList)) = _
    simp only [parse, joinBytes_highByte_lowByte, wordsOfBytes_flatMap, odd_length_iff,
      noticesOfOdd]

/-- **What is not read as an image**: too few bytes for an origin. -/
theorem parse_eq_error_iff {f : Failure} : parse name bytes = .error f ↔
    bytes.length < 2 ∧ f = .imageLoad name "truncated header (missing origin word)" := by
  rcases bytes with _ | ⟨high, _ | ⟨low, rest⟩⟩
  · exact ⟨fun h => ⟨Nat.zero_lt_two, (Except.error.inj h).symm⟩, fun ⟨_, hf⟩ => congrArg _ hf.symm⟩
  · exact ⟨fun h => ⟨Nat.one_lt_two, (Except.error.inj h).symm⟩, fun ⟨_, hf⟩ => congrArg _ hf.symm⟩
  · constructor
    · rintro ⟨⟩
    · rintro ⟨hlength, -⟩
      simp only [List.length_cons] at hlength
      omega

/-- The words of an image that was read, its origin included, are those that the bytes hold pair by
pair. -/
theorem wordAt?_of_parse (h : parse name bytes = .ok (i, ns)) (k : Nat) :
    (i.origin :: i.words)[k]? = wordAt? bytes k := by
  obtain ⟨odd, rfl, -⟩ := parse_eq_ok_iff.mp h
  rw [← getElem?_wordsOfBytes, toBytes, wordsOfBytes_flatMap]

/-! ### Main statement -/

/-- **Reading and writing images undo each other.**

* What is written of an origin and any words is read as this origin and these words, and nothing
  is noted.
* One byte more behind it, whichever it is, makes no difference but that it is noted.
* At least two bytes are always read as an image. Its words, the origin first, are those that the
  pairs of bytes hold, the high byte first; and what is written of it is what was read, without the
  last byte if their number was odd.
* Only no byte at all and a single byte are refused, by the name of the image. -/
theorem format_round_trips (name : String) :
    (∀ origin words, parse name (toBytes ⟨origin, words⟩) = .ok (⟨origin, words⟩, [])) ∧
    (∀ origin words b,
      parse name (toBytes ⟨origin, words⟩ ++ [b]) = .ok (⟨origin, words⟩, [.oddByte name])) ∧
    (∀ bytes : List Byte, 2 ≤ bytes.length → ∃ origin words,
      parse name bytes = .ok (⟨origin, words⟩,
        if bytes.length % 2 = 1 then [.oddByte name] else []) ∧
      (∀ k, (origin :: words)[k]? = wordAt? bytes k) ∧
      toBytes ⟨origin, words⟩ = if bytes.length % 2 = 1 then bytes.dropLast else bytes) ∧
    ∀ (bytes : List Byte) (f : Failure), parse name bytes = .error f ↔
      (bytes.length = 0 ∨ bytes.length = 1) ∧
        f = .imageLoad name "truncated header (missing origin word)" := by
  refine ⟨fun origin words => ?_, fun origin words b => ?_, fun bytes hlength => ?_,
    fun bytes f => ?_⟩
  · exact parse_eq_ok_iff.mpr ⟨none, (List.append_nil _).symm, rfl⟩
  · exact parse_eq_ok_iff.mpr ⟨some b, rfl, rfl⟩
  · rcases hparse : parse name bytes with f | ⟨⟨origin, words⟩, ns⟩
    · obtain ⟨hshort, -⟩ := parse_eq_error_iff.mp hparse
      exact absurd hshort (Nat.not_lt.mpr hlength)
    · have hwords := wordAt?_of_parse hparse
      obtain ⟨odd, rfl, rfl⟩ := parse_eq_ok_iff.mp hparse
      have hodd : (toBytes ⟨origin, words⟩ ++ odd.toList).length % 2 = 1 ↔ odd.isSome = true :=
        odd_length_iff (origin :: words) odd
      refine ⟨origin, words, ?_, hwords, ?_⟩
      · simp only [hodd, noticesOfOdd]
      · cases odd with
        | none => rw [if_neg fun h => Bool.false_ne_true (hodd.mp h), Option.toList_none,
            List.append_nil]
        | some b => rw [if_pos (hodd.mpr rfl), Option.toList_some, List.dropLast_concat]
  · rw [parse_eq_error_iff]
    refine and_congr_left fun _ => ?_
    omega

/-- Three words, the last of which the reader sees only half of. -/
theorem round_trip_of_halfWord :
    let bytes : List Byte := [0x30, 0x00, 0xF0, 0x25, 0xAB]
    parse "half" bytes = .ok (⟨0x3000, [0xF025]⟩, [.oddByte "half"]) ∧
      toBytes ⟨0x3000, [0xF025]⟩ = [0x30, 0x00, 0xF0, 0x25] := by
  intro bytes
  obtain ⟨-, -, hread, -⟩ := format_round_trips "half"
  obtain ⟨origin, words, hparse, -, hbytes⟩ := hread bytes (by decide)
  have hparse' : parse "half" bytes = .ok (⟨0x3000, [0xF025]⟩, [.oddByte "half"]) := rfl
  obtain ⟨rfl, rfl⟩ := Image.mk.inj (Prod.mk.inj (Except.ok.inj (hparse.symm.trans hparse'))).1
  exact ⟨hparse', hbytes.trans (if_pos (by decide))⟩

end LittleComputer.Image
