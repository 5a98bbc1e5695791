import ReleasePublisher.Proofs.Json.Tokens
import ReleasePublisher.Proofs.Toml.Tokens

/-!
# Strings and names in whatever way they are spelled

A string between double quotes is one token, and each of its characters is read in whatever way it is spelled:
as it stands, by the letter of an escape, or by its number in two, four or eight digits. A name is such a
string, or stands without quotes.

## Main definitions

* `Toml.Spells c cs`, `Toml.IsSpelling s t`: the ways to spell a character and a string
* `Toml.IsNameText name t`: the ways to write a name

## Main results

* `Toml.IsSpelling.isToken`, `Toml.IsSpelling.readText_eq`: a string is one token, from which it is read
* `Toml.IsNameText.exists_token`: a name is one token, from which it is read
-/

namespace ReleasePublisher.Toml

open Json (IsHexDigit)

variable {c : Char} {piece rest t : List Char} {name s : String} {start i n : Nat}

/-! ### Characters in strings -/

/-- The letters of the short escapes, with the characters that they stand for. -/
def shortEscapes : List (Char × Char) :=
  [('b', '\x08'), ('e', '\x1b'), ('f', '\x0c'), ('n', '\n'), ('r', '\r'), ('t', '\t'), ('\\', '\\'), ('"', '"')]

/-- The letters of the numbered escapes, with how many digits they have. -/
def numberedEscapes : List (Char × Nat) :=
  [('x', 2), ('u', 4), ('U', 8)]

/-- Hexadecimal digits that state a number. -/
def AreHexDigits (n : Nat) (ds : List Char) : Prop :=
  ∃ ks, List.Forall₂ IsHexDigit ds ks ∧ ks.foldl (fun v k => v * 16 + k) 0 = n

/-- **The ways to spell a character** in a string: as it is, by a letter, or by its number. -/
inductive Spells (c : Char) : List Char → Prop
  | plain (hquote : c ≠ '"') (hbackslash : c ≠ '\\') (hvisible : 0x20 ≤ c.toNat ∨ c = '\t')
      (hdelete : c.toNat ≠ 0x7F) : Spells c [c]
  | short {letter : Char} (h : (letter, c) ∈ shortEscapes) : Spells c ['\\', letter]
  | numbered {letter : Char} {ds : List Char} (h : (letter, ds.length) ∈ numberedEscapes)
      (hds : AreHexDigits c.toNat ds) : Spells c ('\\' :: letter :: ds)

/-- **The ways to spell a string** between double quotes. -/
def IsSpelling (s : String) (t : List Char) : Prop :=
  ∃ pieces, List.Forall₂ Spells s.toList pieces ∧ t = '"' :: (pieces.flatten ++ ['"'])

/-- **The ways to write a name**: without quotes, or as a string. -/
def IsNameText (name : String) (t : List Char) : Prop :=
  (t = name.toList ∧ t ≠ [] ∧ ∀ c ∈ t, isBareChar c = true) ∨ IsSpelling name t

theorem value?_of_isHexDigit {d : Char} {k : Nat} (h : IsHexDigit d k) : Hex.value? d = some k := by
  have hdigits : ∀ k < 16, Hex.value? (Hex.lowerDigit k) = some k ∧ Hex.value? (Hex.upperDigit k) = some k := by
    decide
  obtain ⟨hk, rfl | rfl⟩ := h
  · exact (hdigits k hk).1
  · exact (hdigits k hk).2

theorem foldl_of_isHexDigit {ds : List Char} {ks : List Nat} (h : List.Forall₂ IsHexDigit ds ks) (v : Nat) :
    ds.foldl (fun v c => v * 16 + (Hex.value? c).getD 0) v = ks.foldl (fun v k => v * 16 + k) v := by
  induction h generalizing v with
  | nil => rfl
  | cons hd _ ih => rw [List.foldl_cons, List.foldl_cons, value?_of_isHexDigit hd, Option.getD_some, ih]

theorem isSome_value?_of_mem {ds : List Char} {ks : List Nat} (h : List.Forall₂ IsHexDigit ds ks) :
    ∀ d ∈ ds, (Hex.value? d).isSome = true := by
  induction h with
  | nil => simp
  | cons hd _ ih => simpa [value?_of_isHexDigit hd] using ih

/-- A character is read from its number. -/
theorem numberedChar_eq {ds : List Char} (h : AreHexDigits c.toNat ds) (i : Nat) (rest : List Char) :
    numberedChar ds.length i (ds ++ rest) = .ok c := by
  obtain ⟨ks, hks, hvalue⟩ := h
  -- No character has the number of a surrogate.
  have hvalid : c.toNat < 0xD800 ∨ 0xDFFF < c.toNat ∧ c.toNat ≤ 0x10FFFF := by
    have := Utf8.toNat_bounds c
    omega
  have hall := List.takeWhile_eq_self_iff.mpr (isSome_value?_of_mem hks)
  simp only [numberedChar, List.take_left, hall, Nat.lt_irrefl, if_false]
  rw [foldl_of_isHexDigit hks, hvalue, Char.ofNat_toNat]
  simp [hvalid]

/-! ### Where a string ends -/

theorem basicLength_cons (hquote : c ≠ '"') (hbackslash : c ≠ '\\') (hbreak : c ≠ '\n') (rest : List Char) :
    basicLength (c :: rest) = basicLength rest + 1 := by
  rw [basicLength]
  · simp [hquote, hbreak]
  · intro _ h
    exact absurd h hbackslash
  · intro _ h
    exact absurd h hbackslash

theorem basicLength_backslash (hquote : c ≠ '"') (hbackslash : c ≠ '\\') (rest : List Char) :
    basicLength ('\\' :: c :: rest) = basicLength (c :: rest) + 1 := by
  rw [basicLength]
  · simp
  · intro _ _ h
    exact absurd (List.cons.inj h).1 hbackslash
  · intro _ _ h
    exact absurd (List.cons.inj h).1 hquote

/-- A hexadecimal digit does not end a string. -/
theorem ne_of_isHexDigit {d : Char} {k : Nat} (h : IsHexDigit d k) : d ≠ '"' ∧ d ≠ '\\' ∧ d ≠ '\n' := by
  have hvalue : (Hex.value? d).isSome = true := by
    rw [value?_of_isHexDigit h]
    rfl
  refine ⟨?_, ?_, ?_⟩
  all_goals
    rintro rfl
    revert hvalue
    decide

theorem basicLength_digits {ds : List Char} {ks : List Nat} (h : List.Forall₂ IsHexDigit ds ks)
    (rest : List Char) : basicLength (ds ++ rest) = basicLength rest + ds.length := by
  induction h with
  | nil => rfl
  | cons hd _ ih =>
    obtain ⟨hquote, hbackslash, hbreak⟩ := ne_of_isHexDigit hd
    rw [List.cons_append, basicLength_cons hquote hbackslash hbreak, ih, List.length_cons, Nat.add_assoc]

theorem numberedEscapes_facts : ∀ e ∈ numberedEscapes,
    simpleEscape? e.1 = none ∧ escapeDigits? e.1 = some e.2 ∧ e.1 ≠ '"' ∧ e.1 ≠ '\\' ∧ e.1 ≠ '\n' := by
  decide

theorem shortEscapes_facts : ∀ e ∈ shortEscapes, simpleEscape? e.1 = some e.2 ∧ e.1 ≠ '\n' := by
  decide

namespace Spells

/-- **A string does not end in a character**, in whatever way it is spelled. -/
theorem basicLength_append (h : Spells c piece) (rest : List Char) :
    basicLength (piece ++ rest) = basicLength rest + piece.length := by
  cases h with
  | plain hquote hbackslash hvisible =>
    refine basicLength_cons hquote hbackslash ?_ rest
    rintro rfl
    revert hvisible
    decide
  | @short letter h =>
    obtain ⟨-, hbreak⟩ := shortEscapes_facts _ h
    -- A quote or a backslash is taken along with the backslash before it.
    by_cases hbackslash : letter = '\\'
    · subst hbackslash
      exact basicLength.eq_2 rest
    by_cases hquote : letter = '"'
    · subst hquote
      exact basicLength.eq_3 rest
    · rw [List.cons_append, List.cons_append, basicLength_backslash hquote hbackslash,
        List.nil_append, basicLength_cons hquote hbackslash hbreak]
      rfl
  | numbered h hds =>
    obtain ⟨-, -, hquote, hbackslash, hbreak⟩ := numberedEscapes_facts _ h
    obtain ⟨ks, hks, -⟩ := hds
    rw [List.cons_append, List.cons_append, basicLength_backslash hquote hbackslash,
      basicLength_cons hquote hbackslash hbreak, basicLength_digits hks]
    rfl

/-- **A character is read** from each of its spellings. -/
theorem unescape_append (h : Spells c piece) (i : Nat) (rest : List Char) :
    unescape false i (piece ++ rest) = (unescape false (i + piece.length) rest).map (c :: ·) := by
  cases h with
  | plain hquote hbackslash hvisible hdelete =>
    have hcontrol : isControl c = false := by
      obtain hvisible | rfl := hvisible
      · simp [isControl, hdelete, Nat.not_lt.mpr hvisible]
      · rfl
    rw [List.cons_append, unescape]
    simp [hbackslash, hcontrol]
  | short h =>
    obtain ⟨hletter, -⟩ := shortEscapes_facts _ h
    rw [List.cons_append, List.cons_append, unescape]
    simp [hletter]
  | @numbered letter ds h hds =>
    obtain ⟨hsimple, hdigits, -⟩ := numberedEscapes_facts _ h
    rw [List.cons_append, List.cons_append, unescape]
    simp [hsimple, hdigits, numberedChar_eq hds, Nat.add_assoc, Nat.add_comm 2]

/-- No spelling of a character begins with a quote. -/
theorem exists_cons (h : Spells c piece) : ∃ d ds, piece = d :: ds ∧ d ≠ '"' := by
  cases h with
  | plain hquote => exact ⟨c, [], rfl, hquote⟩
  | short => exact ⟨_, _, rfl, by decide⟩
  | numbered => exact ⟨_, _, rfl, by decide⟩

end Spells

section Pieces

variable {chars : List Char} {pieces : List (List Char)}

theorem basicLength_pieces (h : List.Forall₂ Spells chars pieces) (rest : List Char) :
    basicLength (pieces.flatten ++ '"' :: rest) = pieces.flatten.length + 1 := by
  induction h with
  | nil => rw [List.flatten_nil, List.nil_append, basicLength.eq_4] <;> simp
  | cons hc _ ih =>
    rw [List.flatten_cons, List.append_assoc, hc.basicLength_append, ih, List.length_append]
    omega

/-- Behind the opening quote of a string, no two quotes come first: it is not one of several lines. -/
theorem take_pieces_ne (h : List.Forall₂ Spells chars pieces) (hrest : Ends rest) :
    (pieces.flatten ++ '"' :: rest).take 2 ≠ ['"', '"'] := by
  intro htake
  cases h with
  | nil =>
    -- An empty string has its closing quote there, and no other quote behind it.
    cases rest with
    | nil => cases htake
    | cons d rest =>
      obtain rfl : d = '"' := by simpa using htake
      exact absurd (hrest '"' rfl) (by decide)
  | cons hc =>
    obtain ⟨d, ds, rfl, hd⟩ := hc.exists_cons
    exact hd (List.cons.inj htake).1

theorem unescape_pieces (h : List.Forall₂ Spells chars pieces) (i : Nat) :
    unescape false i pieces.flatten = .ok chars := by
  induction h generalizing i with
  | nil => rw [List.flatten_nil, unescape]
  | cons hc _ ih =>
    rw [List.flatten_cons, hc.unescape_append, ih]
    rfl

end Pieces

/-! ### Strings -/

namespace IsSpelling

theorem exists_cons (h : IsSpelling s t) : ∃ u, t = '"' :: u := by
  obtain ⟨pieces, -, rfl⟩ := h
  exact ⟨_, rfl⟩

/-- **A string is one token.** -/
theorem isToken (h : IsSpelling s t) (hrest : Ends rest) : IsToken .basic t rest := by
  obtain ⟨pieces, hpieces, rfl⟩ := h
  refine ⟨'"', _, rfl, ?_⟩
  have hshort := take_pieces_ne hpieces hrest
  rw [List.append_assoc, List.singleton_append, List.length_append, List.length_singleton,
    ← basicLength_pieces hpieces rest, tokenShape]
  simp only [beq_iff_eq, hshort, if_false]

/-- **A string is read** from its token. -/
theorem readText_eq (h : IsSpelling s t) (start : Nat) : readText ⟨.basic, t, start⟩ = .ok s := by
  obtain ⟨pieces, hpieces, rfl⟩ := h
  have hbetween : between 1 '"' ('"' :: (pieces.flatten ++ ['"'])) = some pieces.flatten := by
    simp [between]
  simp [readText, hbetween, unescape_pieces hpieces, Except.map]

theorem readScalar_eq (h : IsSpelling s t) (start : Nat) :
    readScalar ⟨.basic, t, start⟩ = .ok (.text s) := by
  simp [readScalar, h.readText_eq, Except.map]

end IsSpelling

/-! ### Names -/

/-- **A name is one token**, from which it is read. -/
theorem IsNameText.exists_token (h : IsNameText name t) (hrest : Ends rest) :
    ∃ kind, IsToken kind t rest ∧ ∀ start,
      isName ⟨kind, t, start⟩ = true ∧ readName ⟨kind, t, start⟩ = .ok name := by
  rcases h with ⟨rfl, hne, hbare⟩ | h
  · refine ⟨.bare, isToken_bare hne hbare hrest, fun start => ⟨rfl, ?_⟩⟩
    have hnone : name.toList.findIdx? (!isBareChar ·) = none := by
      simpa [List.findIdx?_eq_none_iff] using hbare
    simp [readName, hne, hnone]
  · exact ⟨.basic, h.isToken hrest, fun start => ⟨rfl, h.readText_eq start⟩⟩

end ReleasePublisher.Toml
