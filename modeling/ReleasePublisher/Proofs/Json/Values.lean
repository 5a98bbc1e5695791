import ReleasePublisher.Proofs.Json.Items

/-!
# Readers of values

Whatever the reader of values takes is a value as the grammar has it, so that a text from which a value is
read is a JSON document. The readers for the fields of records take a text or a number exactly where the
reader of values finds one.

## Main results

* `Json.reads_value`: the reader of values takes values
* `Json.isDocument_of_parse`: a text from which a value is read is a document
* `Json.natural_read_eq_ok_iff`, `Json.text_read_eq_ok_iff`, `Json.optionalText_read_eq_ok_iff`,
  `Json.readMany_eq_ok_iff`: readers of fields
-/

namespace ReleasePublisher.Json

variable {depth : Nat} {s rest : Bytes}

/-! ### Values -/

/-- Where a value is read, it holds no other, or it is a list, or an object. -/
theorem value_cases {v : Json} (h : value depth s = .ok (v, rest)) :
    (∃ b t, skipBlank s = b :: t ∧ scalar b t = .ok (v, rest)) ∨
    (∃ d t vs, depth = d + 1 ∧ skipBlank s = 0x5B :: t ∧ listBody (value d) t = .ok (vs, rest) ∧
      v = .array vs) ∨
    ∃ d t ms, depth = d + 1 ∧ skipBlank s = 0x7B :: t ∧ objectBody (value d) t = .ok (ms, rest) ∧
      v = .object ms := by
  rw [value] at h
  split at h
  · cases h
  · rename_i b t hs
    split at h
    · rename_i hb
      obtain rfl := eq_of_beq hb
      split at h
      · cases h
      · rename_i d
        obtain ⟨⟨vs, r⟩, hr, he⟩ := map_eq_ok.mp h
        cases he
        exact .inr (.inl ⟨d, t, vs, rfl, hs, hr, rfl⟩)
    · split at h
      · rename_i hb
        obtain rfl := eq_of_beq hb
        split at h
        · cases h
        · rename_i d
          obtain ⟨⟨ms, r⟩, hr, he⟩ := map_eq_ok.mp h
          cases he
          exact .inr (.inr ⟨d, t, ms, rfl, hs, hr, rfl⟩)
      · exact .inl ⟨b, t, hs, h⟩

/-- **The reader of values takes values**, however deeply they may be nested. -/
theorem reads_value (depth : Nat) : Reads (value depth) := by
  induction depth with
  | zero =>
    intro s v rest h
    rcases value_cases h with ⟨b, t, hs, hv⟩ | ⟨d, _, _, hd, _⟩ | ⟨d, _, _, hd, _⟩
    · exact .scalar hs (skipScalar_of_scalar hv)
    · cases hd
    · cases hd
  | succ depth ih =>
    intro s v rest h
    rcases value_cases h with ⟨b, t, hs, hv⟩ | ⟨d, t, vs, hd, hs, hvs, -⟩ | ⟨d, t, ms, hd, hs, hms, -⟩
    · exact .scalar hs (skipScalar_of_scalar hv)
    · cases hd
      obtain ⟨ts, hts, -⟩ := (listBody_eq_ok_iff ih).mp hvs
      exact hts.spans_value hs
    · cases hd
      obtain ⟨ms', hms', -⟩ := objectBody_of_eq_ok ih hms
      exact hms'.spans_value hs

/-- A value that holds no other is read in the same way at any depth. -/
theorem value_eq_scalar {b : UInt8} {t : Bytes} (hs : skipBlank s = b :: t)
    (hlist : b ≠ 0x5B) (hobject : b ≠ 0x7B) : value depth s = scalar b t := by
  rw [value]
  simp [hs, hlist, hobject]

theorem value_eq_text_iff {t : String} :
    value depth s = .ok (.text t, rest) ↔
      ∃ q, skipBlank s = 0x22 :: q ∧ textBody q = .ok (t, rest) := by
  constructor
  · intro h
    rcases value_cases h with ⟨b, q, hs, hv⟩ | ⟨_, _, _, -, -, -, hv⟩ | ⟨_, _, _, -, -, -, hv⟩
    · obtain ⟨rfl, hq⟩ := scalar_eq_text_iff.mp hv
      exact ⟨q, hs, hq⟩
    · cases hv
    · cases hv
  · rintro ⟨q, hs, hq⟩
    rw [value_eq_scalar hs (by decide) (by decide)]
    exact scalar_eq_text_iff.mpr ⟨rfl, hq⟩

theorem value_eq_null_iff :
    value depth s = .ok (.null, rest) ↔
      ∃ t, skipBlank s = 0x6E :: t ∧ word [0x75, 0x6C, 0x6C] t = .ok rest := by
  constructor
  · intro h
    rcases value_cases h with ⟨b, t, hs, hv⟩ | ⟨_, _, _, -, -, -, hv⟩ | ⟨_, _, _, -, -, -, hv⟩
    · obtain ⟨rfl, ht⟩ := scalar_eq_null_iff.mp hv
      exact ⟨t, hs, ht⟩
    · cases hv
    · cases hv
  · rintro ⟨t, hs, ht⟩
    rw [value_eq_scalar hs (by decide) (by decide)]
    exact scalar_eq_null_iff.mpr ⟨rfl, ht⟩

theorem value_eq_number_iff {n : JsonNumber} :
    value depth s = .ok (.number n, rest) ↔
      (∃ t, skipBlank s = 0x2D :: t ∧ numeral false t = .ok (n, rest)) ∨
        ∃ b t, skipBlank s = b :: t ∧ isDigit b = true ∧ numeral true (b :: t) = .ok (n, rest) := by
  have hbracket : isDigit 0x5B = false ∧ isDigit 0x7B = false := by decide
  constructor
  · intro h
    rcases value_cases h with ⟨b, t, hs, hv⟩ | ⟨_, _, _, -, -, -, hv⟩ | ⟨_, _, _, -, -, -, hv⟩
    · rcases scalar_eq_number_iff.mp hv with ⟨rfl, hn⟩ | ⟨hd, hn⟩
      · exact .inl ⟨t, hs, hn⟩
      · exact .inr ⟨b, t, hs, hd, hn⟩
    · cases hv
    · cases hv
  · rintro (⟨t, hs, hn⟩ | ⟨b, t, hs, hd, hn⟩)
    · rw [value_eq_scalar hs (by decide) (by decide)]
      exact scalar_eq_number_iff.mpr (.inl ⟨rfl, hn⟩)
    · rw [value_eq_scalar hs]
      · exact scalar_eq_number_iff.mpr (.inr ⟨hd, hn⟩)
      · rintro rfl
        exact absurd hd (by simp [hbracket.1])
      · rintro rfl
        exact absurd hd (by simp [hbracket.2])

/-! ### Whole texts -/

variable {α : Type} {item : Bytes → Result α}

theorem wholeText_eq_ok_iff {a : α} :
    wholeText item s = .ok a ↔ ∃ rest, item s = .ok (a, rest) ∧ skipBlank rest = [] := by
  unfold wholeText
  cases hs : item s with
  | error f => simp
  | ok x =>
    rcases x with ⟨a', rest⟩
    cases hr : skipBlank rest with
    | nil => simp [hr]
    | cons b t => simp [hr]

/-- A document is passed over as a whole. -/
theorem isDocument_iff : IsDocument s ↔ ∃ rest, skipValue s = .ok rest ∧ skipBlank rest = [] := by
  simp only [IsDocument, skipValue_eq_ok_iff]

/-- A text that is read as a whole is a document. -/
theorem isDocument_of_wholeText (hitem : Reads item) {a : α} (h : wholeText item s = .ok a) :
    IsDocument s := by
  obtain ⟨rest, hs, hrest⟩ := wholeText_eq_ok_iff.mp h
  exact ⟨rest, hitem _ _ _ hs, hrest⟩

/-- **A text from which a value is read is a document.** -/
theorem isDocument_of_parse {v : Json} (h : parse s = .ok v) : IsDocument s :=
  isDocument_of_wholeText (reads_value _) h

/-! ### Readers of fields -/

theorem readText_eq_ok_iff {expected t : String} :
    readText expected s = .ok (t, rest) ↔ value depth s = .ok (.text t, rest) := by
  rw [value_eq_text_iff]
  unfold readText
  cases hs : skipBlank s with
  | nil => simp
  | cons b q =>
    by_cases hb : b = 0x22
    · simp [hb]
    · simp [hb]

/-- A number that is read where a natural one is asked for is handed on if it is one. -/
theorem checkedNatural_eq_ok_iff {n : Nat} (x : Result JsonNumber) :
    (match x with
      | .error f => .error f
      | .ok (.natural n, rest) => .ok (n, rest)
      | .ok (.negative n, rest) =>
        .error (.before (.invalidValue (foundNumber (.negative n)) "u64") rest)
      | .ok (.real bits, rest) =>
        .error (.before (.invalidType (foundNumber (.real bits)) "u64") rest) : Result Nat) =
      .ok (n, rest) ↔ x = .ok (.natural n, rest) := by
  rcases x with f | ⟨n | n | bits, r⟩ <;> simp

theorem readNatural_eq_ok_iff {n : Nat} :
    readNatural s = .ok (n, rest) ↔ value depth s = .ok (.number (.natural n), rest) := by
  rw [value_eq_number_iff]
  have hdigit : isDigit 0x2D = false := by decide
  unfold readNatural
  cases hs : skipBlank s with
  | nil => simp
  | cons b t =>
    dsimp only
    by_cases hb : b = 0x2D
    · rw [if_pos (beq_iff_eq.mpr hb)]
      refine (checkedNatural_eq_ok_iff _).trans ?_
      simp [hb, hdigit]
    · rw [if_neg (by simpa using hb)]
      by_cases hd : isDigit b = true
      · rw [if_pos hd]
        refine (checkedNatural_eq_ok_iff _).trans ?_
        simp [hb, hd]
      · rw [if_neg hd]
        simp [hb, hd]

theorem natural_read_eq_ok_iff (depth : Nat) {name : String} {fallback : Option Nat} {d : Datum} :
    (Field.natural name fallback).read s = .ok (d, rest) ↔
      ∃ n, d = .count n ∧ value depth s = .ok (.number (.natural n), rest) := by
  have hread : (Field.natural name fallback).read s =
      (readNatural s).map fun x => (.count x.1, x.2) := rfl
  rw [hread, map_eq_ok]
  constructor
  · rintro ⟨⟨n, r⟩, hn, he⟩
    cases he
    exact ⟨n, rfl, readNatural_eq_ok_iff.mp hn⟩
  · rintro ⟨n, rfl, hn⟩
    exact ⟨(n, rest), readNatural_eq_ok_iff.mpr hn, rfl⟩

theorem readText_map_eq_ok_iff (depth : Nat) {expected : String} {d : Datum} :
    ((readText expected s).map fun (t, s) => (Datum.text t, s)) = .ok (d, rest) ↔
      ∃ t, d = .text t ∧ value depth s = .ok (.text t, rest) := by
  rw [map_eq_ok]
  constructor
  · rintro ⟨⟨t, r⟩, ht, he⟩
    cases he
    exact ⟨t, rfl, readText_eq_ok_iff.mp ht⟩
  · rintro ⟨t, rfl, ht⟩
    exact ⟨(t, rest), readText_eq_ok_iff.mpr ht, rfl⟩

theorem text_read_eq_ok_iff (depth : Nat) {name : String} {d : Datum} :
    (Field.text name).read s = .ok (d, rest) ↔
      ∃ t, d = .text t ∧ value depth s = .ok (.text t, rest) :=
  readText_map_eq_ok_iff depth

theorem optionalText_read_eq_ok_iff (depth : Nat) {name expected : String} {d : Datum} :
    (Field.optionalText name expected).read s = .ok (d, rest) ↔
      d = .absent ∧ value depth s = .ok (.null, rest) ∨
        ∃ t, d = .text t ∧ value depth s = .ok (.text t, rest) := by
  have htext : ((readText expected s).map fun (t, s) => (Datum.text t, s)) = .ok (d, rest) ↔
      ∃ t, d = .text t ∧ value depth s = .ok (.text t, rest) := readText_map_eq_ok_iff depth
  rw [value_eq_null_iff, ← htext]
  simp only [Field.optionalText, readOptional]
  cases hs : skipBlank s with
  | nil => simp
  | cons b t =>
    by_cases hb : b = 0x6E
    · -- What begins with this letter is no text.
      subst hb
      have hnot : readText expected s = .error (mistyped expected 0x6E t) := by
        simp [readText, hs]
      cases hw : word [0x75, 0x6C, 0x6C] t with
      | error f => simp [hnot, hw, Except.map]
      | ok r => simp [hnot, hw, Except.map, eq_comm]
    · simp [hb]

theorem readMany_eq_ok_iff (hitem : Reads item) {as : List α} :
    readMany item s = .ok (as, rest) ↔
      ∃ t ts, skipBlank s = 0x5B :: t ∧ Elements true t ts rest ∧ List.Forall₂ (Gives item) ts as := by
  unfold readMany
  cases hs : skipBlank s with
  | nil => simp
  | cons b t =>
    by_cases hb : b = 0x5B
    · subst hb
      simp [listBody_eq_ok_iff hitem]
    · simp [hb]

end ReleasePublisher.Json
