import LittleComputer.Proofs.ExitStatus

/-!
# Limits that are written out

A limit on executed instructions reaches the program as a text. Written in decimal digits it is
read again as the number that it was, if these are no more than
`LittleComputer.Text.mostDigits`; a number with more digits is not read at all
(`LittleComputer.Text.integer?_toString`).

So a command line that gives a limit and then the names of images
(`LittleComputer.CommandLine.limited`) asks for just that
(`LittleComputer.CommandLine.asks_of_limited`) – as long as the limit can be written with that
many digits. Beyond, it is refused, whatever the images are
(`LittleComputer.CommandLine.respond_of_too_many_digits`).
-/

namespace LittleComputer

namespace Text

/-! ### Digits -/

theorem digitValue?_digitChar {d : Nat} (h : d < 10) : digitValue? d.digitChar = some d := by
  revert d
  decide +kernel

/-- A digit is none of the characters that mean something else around a number. -/
theorem digitChar_ne {d : Nat} (h : d < 10) :
    d.digitChar ≠ '_' ∧ d.digitChar ≠ '-' ∧ d.digitChar ≠ '+' ∧ isBlank d.digitChar = false := by
  revert d
  decide +kernel

/-- Digits are read one by one. -/
theorem digitValues?_digitChar : ∀ {ds : List Nat}, ds ≠ [] → (∀ d ∈ ds, d < 10) →
    digitValues? (ds.map Nat.digitChar) = some ds
  | [], h, _ => absurd rfl h
  | [d], _, hds => by
    simp [digitValues?, digitValue?_digitChar (hds d (List.mem_singleton_self d))]
  | d :: e :: ds, _, hds => by
    have hd : d < 10 := hds d List.mem_cons_self
    have he : e < 10 := hds e (by simp)
    have hrest := digitValues?_digitChar (List.cons_ne_nil e ds)
      fun x hx => hds x (List.mem_cons_of_mem d hx)
    simp only [List.map_cons] at hrest ⊢
    rw [digitValues?, digitValue?_digitChar hd, hrest]
    · rfl
    · exact fun h => List.cons_ne_nil _ _ h
    · exact fun _ h => (digitChar_ne he).1 (List.cons.inj h).1

/-- **The digits of a number, the most significant first.** -/
theorem exists_digits (n : Nat) : ∃ ds : List Nat,
    Nat.toDigits 10 n = ds.map Nat.digitChar ∧ (∀ d ∈ ds, d < 10) ∧ ofDigits ds = n := by
  induction n using Nat.strongRecOn with
  | _ n ih =>
    by_cases hn : n < 10
    · exact ⟨[n], by rw [Nat.toDigits_of_lt_base hn]; rfl, by simpa using hn, Nat.zero_add n⟩
    · obtain ⟨ds, hdigits, hlt, hvalue⟩ := ih (n / 10) (by omega)
      refine ⟨ds ++ [n % 10], ?_, ?_, ?_⟩
      · rw [Nat.toDigits_of_base_le (by decide) (by omega), hdigits, List.map_append]
        rfl
      · intro d hd
        rcases List.mem_append.mp hd with hd | hd
        · exact hlt d hd
        · rw [List.mem_singleton.mp hd]
          exact Nat.mod_lt n (by decide)
      · rw [ofDigits, List.foldl_append, ← ofDigits, hvalue]
        exact Nat.div_add_mod n 10

/-! ### Numbers -/

theorem natural?_toDigits (n : Nat) : natural? (Nat.toDigits 10 n) =
    if (Nat.toDigits 10 n).length ≤ mostDigits then some n else none := by
  obtain ⟨ds, hdigits, hlt, hvalue⟩ := exists_digits n
  have hne : ds ≠ [] := by
    rintro rfl
    exact Nat.toDigits_ne_nil hdigits
  rw [natural?, hdigits, digitValues?_digitChar hne hlt, List.length_map, Option.bind_eq_bind,
    Option.bind_some, hvalue]

theorem toList_toString (n : Nat) : (toString n).toList = Nat.toDigits 10 n := by
  rw [Nat.toString_eq_ofList_toDigits, String.toList_ofList]

/-- No sign and no blank is among the digits of a number. -/
theorem ne_of_mem_toString {n : Nat} {c : Char} (h : c ∈ (toString n).toList) :
    c ≠ '-' ∧ c ≠ '+' ∧ isBlank c = false := by
  obtain ⟨ds, hdigits, hlt, -⟩ := exists_digits n
  rw [toList_toString, hdigits] at h
  obtain ⟨d, hd, rfl⟩ := List.mem_map.mp h
  exact (digitChar_ne (hlt d hd)).2

/-- Where no blank is, none is dropped. -/
theorem dropWhile_isBlank {cs : List Char} (h : ∀ c ∈ cs, isBlank c = false) :
    cs.dropWhile isBlank = cs := by
  cases cs with
  | nil => rfl
  | cons c cs => rw [List.dropWhile_cons, h c List.mem_cons_self, if_neg Bool.false_ne_true]

/-- **A number that is written out is read again**, if it does not have too many digits. -/
theorem integer?_toString (n : Nat) : integer? (toString n) =
    if (toString n).length ≤ mostDigits then some (n : Int) else none := by
  have hblank : ∀ c ∈ (toString n).toList, isBlank c = false := fun c hc =>
    (ne_of_mem_toString hc).2.2
  have htrimmed : (((toString n).toList.dropWhile isBlank).reverse.dropWhile isBlank).reverse =
      (toString n).toList := by
    rw [dropWhile_isBlank hblank, dropWhile_isBlank, List.reverse_reverse]
    exact fun c hc => hblank c (List.mem_reverse.mp hc)
  have hnatural := natural?_toDigits n
  rw [← toList_toString, String.length_toList] at hnatural
  rw [integer?, htrimmed]
  split
  · -- There is no sign in front of the digits.
    rename_i rest hsign
    exact absurd rfl (ne_of_mem_toString (hsign ▸ List.mem_cons_self)).1
  · rename_i rest hsign
    exact absurd rfl (ne_of_mem_toString (hsign ▸ List.mem_cons_self)).2.1
  · rw [hnatural]
    split <;> rfl

/-- A power of ten has more digits than its exponent. -/
theorem lt_length_toString_pow (k : Nat) : k < (toString (Nat.pow 10 k)).length := by
  cases k with
  | zero => decide
  | succ k =>
    rw [← String.length_toList, toList_toString, ← Nat.not_le,
      Nat.length_toDigits_le_iff (by decide) (Nat.succ_pos k)]
    exact Nat.lt_irrefl _

end Text

namespace CommandLine

open Text

/-! ### The command line -/

/-- The command line that gives a limit and then the names of images. -/
def limited (n : Nat) (images : List String) : List String := "--max-cycles" :: toString n :: images

/-- A text that is not read as an option, nor as the end of the options. -/
def IsName (text : String) : Prop := text ≠ "--" ∧ classify text = .ok (.plain text)

/-- What does not begin with a dash is a name. -/
theorem isName_of_head {text : String} (h : text.toList.head? ≠ some '-') : IsName text := by
  have hdash : ∀ {rest : List Char}, text.toList ≠ '-' :: rest := fun htext =>
    h (congrArg List.head? htext)
  have hstart : text.startsWith "-" = false := by
    rw [String.startsWith_string_eq_false_iff]
    rintro ⟨rest, hrest⟩
    exact hdash hrest.symm
  refine ⟨fun hmark => hdash (congrArg String.toList hmark), ?_⟩
  rw [classify, hstart]
  rfl

theorem tokens_of_ne {text : String} (h : text ≠ "--") (rest : List String) :
    tokens (text :: rest) = do return (← classify text) :: (← tokens rest) := by
  rw [tokens]
  exact h

theorem tokens_of_names {images : List String} (h : ∀ path ∈ images, IsName path) :
    tokens images = .ok (images.map .plain) := by
  induction images with
  | nil => rfl
  | cons path rest ih =>
    obtain ⟨hne, hplain⟩ := h path List.mem_cons_self
    rw [tokens_of_ne hne, hplain, ih fun p hp => h p (List.mem_cons_of_mem path hp)]
    rfl

/-- Digits are not read as an option. -/
theorem isName_toString (n : Nat) : IsName (toString n) :=
  isName_of_head fun h => (ne_of_mem_toString (List.mem_of_head? h)).1 rfl

theorem classify_maxCycles : classify "--max-cycles" = .ok (.option .maxCycles none) := by
  have hstart : "--max-cycles".startsWith "-" = true := by
    rw [String.startsWith_string_iff]
    decide
  have hswitch : switch? "--max-cycles" = some .maxCycles := by decide
  rw [classify, hstart, hswitch]
  rfl

theorem tokens_limited (n : Nat) {images : List String} (h : ∀ path ∈ images, IsName path) :
    tokens (limited n images) =
      .ok (.option .maxCycles none :: .plain (toString n) :: images.map .plain) := by
  obtain ⟨hne, hplain⟩ := isName_toString n
  rw [limited, tokens_of_ne (by decide), classify_maxCycles, tokens_of_ne hne, hplain,
    tokens_of_names h]
  rfl

/-- **Names are taken as the images**, in their order. -/
theorem consume_names : ∀ (images : List String) (p : Progress), p.position ≠ .after →
    ∃ position, consume (images.map .plain) p =
      .ok { p with draft := { p.draft with images := p.draft.images ++ images }, position }
  | [], p, _ => ⟨p.position, by rw [List.append_nil]; rfl⟩
  | path :: rest, p, h => by
    obtain ⟨draft, position, extras⟩ := p
    have hplain : Progress.plain ⟨draft, position, extras⟩ path =
        ⟨{ draft with images := draft.images ++ [path] }, .among, extras⟩ := by
      cases position with
      | before | among => rfl
      | after => exact absurd rfl h
    obtain ⟨position', hrest⟩ := consume_names rest
      ⟨{ draft with images := draft.images ++ [path] }, .among, extras⟩ (by rintro ⟨⟩)
    refine ⟨position', ?_⟩
    rw [List.map_cons, consume, hplain, hrest, List.append_assoc]
    rfl

/-! ### What is asked for -/

theorem count_toString (option : Switch) (n : Nat) : count option (toString n) =
    if (toString n).length ≤ mostDigits then .ok (.number n)
    else .error (.usage (.invalidInteger option (toString n))) := by
  rw [count, if_neg (isName_toString n).1, integer?_toString]
  by_cases hdigits : (toString n).length ≤ mostDigits
  · simp only [if_pos hdigits]
  · simp only [if_neg hdigits]

variable {n : Nat} {images : List String} (himages : ∀ path ∈ images, IsName path)

include himages

/-- **A limit and names are what is asked for**, and nothing else. -/
theorem asks_of_limited (hn : 1 ≤ n) (hdigits : (toString n).length ≤ mostDigits)
    (hne : images ≠ []) :
    Asks (limited n images) { images } (some n) 1000 := by
  have hcount := count_toString .maxCycles n
  rw [if_pos hdigits] at hcount
  obtain ⟨position, hnames⟩ := consume_names images
    { draft := { limit := some (.number n) } } (by rintro ⟨⟩)
  have hconsume : consume (.option .maxCycles none :: .plain (toString n) :: images.map .plain) {} =
      consume (images.map .plain) { draft := { limit := some (.number n) } } := by
    rw [consume, setValue, hcount]
    rfl
  have hempty : images.isEmpty = false := List.isEmpty_eq_false_iff.mpr hne
  have hparse : parse (limited n images) = .ok { images, limit := some (.number n) } := by
    rw [parse, tokens_limited n himages]
    change (consume _ {} >>= _) = _
    rw [hconsume, hnames]
    change (if images.isEmpty then _ else _) = _
    rw [hempty]
    rfl
  refine ⟨hparse, fun m hm => ?_, by decide⟩
  cases hm
  exact_mod_cast hn

/-- **A limit of too many digits is refused**, whatever the images are. -/
theorem respond_of_too_many_digits {T : Type} [Terminal T]
    (hdigits : mostDigits < (toString n).length) (read : FileReader) (terminal : T)
    (alarm : Option Alarm) (allowance : Nat) :
    respond (limited n images) read terminal alarm allowance =
      .refused (.invalidInteger .maxCycles (toString n)) := by
  have hcount := count_toString .maxCycles n
  rw [if_neg (Nat.not_le.mpr hdigits)] at hcount
  have hrequest : request (limited n images) =
      .error (.usage (.invalidInteger .maxCycles (toString n))) := by
    rw [request, parse, tokens_limited n himages]
    change ((consume _ {} >>= _) >>= _) = _
    rw [consume, setValue, hcount]
    rfl
  rw [respond, hrequest]

end CommandLine

end LittleComputer
