import ReleasePublisher.Proofs.Json.Rendering
import Mathlib.Data.List.TakeWhile

/-!
# The syntax of JSON texts

A JSON text is built up from its pieces: words, numbers and strings, and brackets around texts with commas
between them. Blanks may stand around each piece. Documents, which are told from the text that is left behind
their pieces, are built up in this way.

## Main definitions

* `Json.IsString t`, `Json.IsNumeral t`: strings with their quotes, and numbers without a sign
* `Json.IsWellFormed t`: JSON texts

## Main results

* `Json.IsDocument.isWellFormed`: a document is a JSON text
-/

namespace ReleasePublisher.Json

variable {s t rest gap : Bytes}

/-! ### JSON texts -/

/-- A hexadecimal digit of either case. -/
def IsHexByte (b : UInt8) : Prop :=
  0x30 ≤ b ∧ b ≤ 0x39 ∨ 0x41 ≤ b ∧ b ≤ 0x46 ∨ 0x61 ≤ b ∧ b ≤ 0x66

/-- **A piece of a string**: a byte that stands for itself, or an escape. -/
inductive IsStringPiece : Bytes → Prop
  | plain {b : UInt8} (hquote : b ≠ 0x22) (hbackslash : b ≠ 0x5C) (hcontrol : 0x20 ≤ b) :
    IsStringPiece [b]
  | short {b : UInt8} (h : b ∈ [0x22, 0x5C, 0x2F, 0x62, 0x66, 0x6E, 0x72, 0x74]) :
    IsStringPiece [0x5C, b]
  | numbered {ds : Bytes} (hlength : ds.length = 4) (h : ∀ d ∈ ds, IsHexByte d) :
    IsStringPiece (0x5C :: 0x75 :: ds)

/-- **A string** with its quotes. -/
def IsString (t : Bytes) : Prop :=
  ∃ pieces : List Bytes, (∀ p ∈ pieces, IsStringPiece p) ∧ t = 0x22 :: (pieces.flatten ++ [0x22])

/-- At least one digit. -/
def AreDigits (ds : Bytes) : Prop :=
  ds ≠ [] ∧ ∀ d ∈ ds, 0x30 ≤ d ∧ d ≤ 0x39

/-- The digits before the point, where no zero leads others. -/
def IsWhole (t : Bytes) : Prop :=
  t = [0x30] ∨ AreDigits t ∧ t.head? ≠ some 0x30

/-- The decimal places with their point. -/
def IsFraction (t : Bytes) : Prop :=
  t = [] ∨ ∃ ds, AreDigits ds ∧ t = 0x2E :: ds

/-- The exponent with its letter and its sign. -/
def IsExponent (t : Bytes) : Prop :=
  t = [] ∨ ∃ letter sign ds, letter ∈ [0x65, 0x45] ∧ sign ∈ [[], [0x2B], [0x2D]] ∧ AreDigits ds ∧
    t = letter :: (sign ++ ds)

/-- **A number** without a sign. -/
def IsNumeral (t : Bytes) : Prop :=
  ∃ whole fraction exponent, IsWhole whole ∧ IsFraction fraction ∧ IsExponent exponent ∧
    t = whole ++ (fraction ++ exponent)

/-- What stands before the text of an item: a member has its name and a colon there. -/
def Bracket.Labels : Bracket → Bytes → Prop
  | list, label => label = []
  | object, label => ∃ before name after, AreBlank before ∧ AreBlank after ∧ IsString name ∧
      label = before ++ (name ++ (after ++ [0x3A]))

/-- **A JSON text.** -/
inductive IsWellFormed : Bytes → Prop
  | padded {before t after : Bytes} (hbefore : AreBlank before) (hafter : AreBlank after)
      (h : IsWellFormed t) : IsWellFormed (before ++ (t ++ after))
  | null : IsWellFormed [0x6E, 0x75, 0x6C, 0x6C]
  | true : IsWellFormed [0x74, 0x72, 0x75, 0x65]
  | false : IsWellFormed [0x66, 0x61, 0x6C, 0x73, 0x65]
  | numeral {t : Bytes} (h : IsNumeral t) : IsWellFormed t
  | negative {t : Bytes} (h : IsNumeral t) : IsWellFormed (0x2D :: t)
  | string {t : Bytes} (h : IsString t) : IsWellFormed t
  /-- A bracket around items, each a label and a text. -/
  | bracket (top : Bracket) {items : List (Bytes × Bytes)} {gap : Bytes} (hgap : AreBlank gap)
      (hlabel : ∀ i ∈ items, top.Labels i.1) (h : ∀ i ∈ items, IsWellFormed i.2) :
      IsWellFormed (top.opening ::
        (List.intercalate [0x2C] (items.map fun i => i.1 ++ i.2) ++ (gap ++ [top.closing])))

/-! ### Blanks and words -/

/-- Blanks stand before what is left when blanks are passed over. -/
theorem exists_eq_append_skipBlank (s : Bytes) : ∃ gap, AreBlank gap ∧ s = gap ++ skipBlank s := by
  refine ⟨s.takeWhile isSpace, fun _ hb => List.mem_takeWhile_imp hb, ?_⟩
  exact List.takeWhile_append_dropWhile.symm

theorem eq_append_of_word {w : Bytes} (h : word w s = .ok rest) : s = w ++ rest := by
  induction w generalizing s with
  | nil => exact Except.ok.inj h
  | cons b w ih =>
    cases s with
    | nil => cases h
    | cons c s =>
      rw [word] at h
      split at h
      · rename_i hc
        rw [ih h, eq_of_beq hc, List.cons_append]
      · cases h

/-! ### Strings -/

theorem isHexByte_of_value? {b : UInt8} (h : (Hex.value? (Char.ofNat b.toNat)).isSome = true) :
    IsHexByte b := by
  refine Utf8.forall_byte (P := fun b => (Hex.value? (Char.ofNat b.toNat)).isSome = true →
    0x30 ≤ b ∧ b ≤ 0x39 ∨ 0x41 ≤ b ∧ b ≤ 0x46 ∨ 0x61 ≤ b ∧ b ≤ 0x66) ?_ b h
  decide +kernel

/-- A number is read from four hexadecimal digits. -/
theorem exists_digits_of_fourDigits {n : Nat} (h : fourDigits s = .ok n) :
    ∃ ds : Bytes, ds.length = 4 ∧ (∀ d ∈ ds, IsHexByte d) ∧ s = ds ++ s.drop 4 := by
  unfold fourDigits at h
  split at h
  · rename_i a b c d rest
    split at h
    · rename_i ds hds
      refine ⟨[a, b, c, d], rfl, ?_, rfl⟩
      have hdigits : ∀ x ∈ [a, b, c, d], (Hex.value? (Char.ofNat x.toNat)).isSome = true := by
        simp only [List.mapM_cons, List.mapM_nil, Option.bind_eq_bind, Option.bind_eq_some_iff] at hds
        obtain ⟨w, hw, _, ⟨x, hx, _, ⟨y, hy, _, ⟨z, hz, -⟩, -⟩, -⟩, -⟩ := hds
        simp [hw, hx, hy, hz]
      exact fun x hx => isHexByte_of_value? (hdigits x hx)
    · cases h
  · cases h

theorem mem_of_simpleEscape? {b : UInt8} (h : (simpleEscape? b).isSome = true) :
    b ∈ [0x22, 0x5C, 0x2F, 0x62, 0x66, 0x6E, 0x72, 0x74] := by
  unfold simpleEscape? at h
  grind

/-- What is passed over as a string is made of its pieces. -/
theorem exists_pieces_of_skipText (h : skipText s = .ok rest) :
    ∃ pieces : List Bytes, (∀ p ∈ pieces, IsStringPiece p) ∧ s = pieces.flatten ++ 0x22 :: rest := by
  have hcons : ∀ {p u : Bytes}, IsStringPiece p →
      (∃ pieces : List Bytes, (∀ p ∈ pieces, IsStringPiece p) ∧ u = pieces.flatten ++ 0x22 :: rest) →
      ∃ pieces : List Bytes, (∀ p ∈ pieces, IsStringPiece p) ∧ p ++ u = pieces.flatten ++ 0x22 :: rest := by
    rintro p u hp ⟨pieces, hpieces, rfl⟩
    exact ⟨p :: pieces, List.forall_mem_cons.mpr ⟨hp, hpieces⟩, by simp⟩
  fun_induction skipText s with
  | case1 | case3 | case5 | case7 | case8 => cases h
  | case2 b u hquote =>
    obtain rfl := Except.ok.inj h
    exact ⟨[], List.forall_mem_nil _, by simp [eq_of_beq hquote]⟩
  | case4 b _ hbackslash e after hletter ih =>
    obtain rfl := eq_of_beq hbackslash
    exact hcons (.short (mem_of_simpleEscape? hletter)) (ih h)
  | case6 b _ hbackslash e after _ hu n hn ih =>
    obtain rfl := eq_of_beq hbackslash
    obtain rfl := eq_of_beq hu
    obtain ⟨ds, hlength, hdigits, hafter⟩ := exists_digits_of_fourDigits hn
    rw [hafter]
    exact hcons (.numbered hlength hdigits) (ih h)
  | case9 b u hquote hbackslash hcontrol ih =>
    have hplain : IsStringPiece [b] := by
      refine .plain ?_ ?_ (UInt8.not_lt.mp hcontrol)
      · exact fun hb => hquote (beq_iff_eq.mpr hb)
      · exact fun hb => hbackslash (beq_iff_eq.mpr hb)
    exact hcons hplain (ih h)

/-- What is passed over as a string is one. -/
theorem isString_of_skipText (h : skipText s = .ok rest) :
    ∃ t, IsString (0x22 :: t) ∧ s = t ++ rest := by
  obtain ⟨pieces, hpieces, rfl⟩ := exists_pieces_of_skipText h
  exact ⟨pieces.flatten ++ [0x22], ⟨pieces, hpieces, rfl⟩, by simp⟩

/-! ### Numbers -/

theorem isDigit_iff {b : UInt8} : isDigit b = true ↔ 0x30 ≤ b ∧ b ≤ 0x39 := by
  simp [isDigit]

/-- What is passed over behind a digit are digits. -/
theorem exists_digits {d : UInt8} (hd : isDigit d = true) (s : Bytes) :
    ∃ ds, AreDigits (d :: ds) ∧ s = ds ++ s.dropWhile isDigit := by
  refine ⟨s.takeWhile isDigit, ⟨List.cons_ne_nil _ _, ?_⟩, List.takeWhile_append_dropWhile.symm⟩
  refine List.forall_mem_cons.mpr ⟨isDigit_iff.mp hd, ?_⟩
  exact fun _ hb => isDigit_iff.mp (List.mem_takeWhile_imp hb)

theorem exists_eq_append_exponentSign (s : Bytes) :
    ∃ sign ∈ ([[], [0x2B], [0x2D]] : List Bytes), s = sign ++ (exponentSign s).2 := by
  fun_cases exponentSign s <;> simp_all

theorem isExponent_of_skipExponent {letter : UInt8} (hletter : startsExponent (letter :: s) = true)
    (h : skipExponent s = .ok rest) : ∃ t, IsExponent t ∧ letter :: s = t ++ rest := by
  unfold skipExponent at h
  obtain ⟨sign, hsign, hs⟩ := exists_eq_append_exponentSign s
  split at h
  · cases h
  · rename_i d u hu
    split at h
    · rename_i hd
      obtain rfl := Except.ok.inj h
      obtain ⟨ds, hdigits, hu'⟩ := exists_digits hd u
      refine ⟨letter :: (sign ++ d :: ds), .inr ⟨letter, sign, d :: ds, ?_, hsign, hdigits, rfl⟩, ?_⟩
      · simpa [startsExponent] using hletter
      · rw [hs, hu]
        simp [← hu']
    · cases h

theorem exists_cons_of_startsExponent (h : startsExponent s = true) :
    ∃ letter u, s = letter :: u ∧ startsExponent (letter :: u) = true := by
  cases s with
  | nil => cases h
  | cons letter u => exact ⟨letter, u, rfl, h⟩

/-- What is passed over behind the digits of a number are its decimal places and its exponent. -/
theorem exists_parts_of_skipFraction (h : skipFraction s = .ok rest) :
    ∃ fraction exponent, IsFraction fraction ∧ IsExponent exponent ∧
      s = fraction ++ (exponent ++ rest) := by
  unfold skipFraction at h
  split at h
  · obtain rfl := Except.ok.inj h
    exact ⟨[], [], .inl rfl, .inl rfl, rfl⟩
  rename_i b u
  split at h
  · rename_i hpoint
    obtain rfl := eq_of_beq hpoint
    split at h
    · cases h
    rename_i hstarts
    obtain ⟨ds, hdigits, hu⟩ : ∃ ds, AreDigits ds ∧ u = ds ++ u.dropWhile isDigit := by
      cases u with
      | nil => exact absurd rfl hstarts
      | cons d u =>
        have hd : isDigit d = true := by simpa [startsDigit] using hstarts
        obtain ⟨ds, hdigits, hu⟩ := exists_digits hd u
        refine ⟨d :: ds, hdigits, ?_⟩
        rw [List.dropWhile_cons_of_pos hd, List.cons_append, ← hu]
    dsimp only at h
    split at h
    · rename_i hletter
      obtain ⟨letter, w, hw, hletter⟩ := exists_cons_of_startsExponent hletter
      rw [hw] at hu h
      obtain ⟨t, ht, ht'⟩ := isExponent_of_skipExponent hletter h
      refine ⟨0x2E :: ds, t, .inr ⟨ds, hdigits, rfl⟩, ht, ?_⟩
      rw [← ht', hu, List.cons_append]
    · obtain rfl := Except.ok.inj h
      exact ⟨0x2E :: ds, [], .inr ⟨ds, hdigits, rfl⟩, .inl rfl, congrArg (0x2E :: ·) hu⟩
  · split at h
    · rename_i hletter
      obtain ⟨t, ht, ht'⟩ := isExponent_of_skipExponent hletter h
      exact ⟨[], t, .inl rfl, ht, ht'⟩
    · obtain rfl := Except.ok.inj h
      exact ⟨[], [], .inl rfl, .inl rfl, rfl⟩

/-- What is passed over as a number is one. -/
theorem isNumeral_of_skipNumeral (h : skipNumeral s = .ok rest) :
    ∃ t, IsNumeral t ∧ s = t ++ rest := by
  -- The digits before the point stand before what is passed over behind them.
  have hparts : ∀ {whole u : Bytes}, IsWhole whole → skipFraction u = .ok rest →
      ∃ t, IsNumeral t ∧ whole ++ u = t ++ rest := by
    intro whole u hwhole hu
    obtain ⟨fraction, exponent, hfraction, hexponent, rfl⟩ := exists_parts_of_skipFraction hu
    exact ⟨_, ⟨whole, fraction, exponent, hwhole, hfraction, hexponent, rfl⟩, by simp⟩
  fun_cases skipNumeral s with
  | case1 => cases h
  | case2 b u hd => simp [skipNumeral, hd] at h
  | case3 b u hd hzero hnext => simp [skipNumeral, hd, hzero, hnext] at h
  | case4 b u hd hzero hnext =>
    have hu : skipFraction u = .ok rest := by simpa [skipNumeral, hd, hzero, hnext] using h
    rw [eq_of_beq hzero]
    exact hparts (.inl rfl) hu
  | case5 b u hd hzero =>
    have hu : skipFraction (u.dropWhile isDigit) = .ok rest := by
      simpa [skipNumeral, hd, hzero] using h
    obtain ⟨ds, hdigits, hdrop⟩ := exists_digits (by simpa using hd) u
    rw [hdrop]
    have hwhole : IsWhole (b :: ds) := .inr ⟨hdigits, by simpa using hzero⟩
    exact hparts hwhole hu

/-! ### Values -/

/-- What is passed over as a value that holds no other is a JSON text. -/
theorem isWellFormed_of_skipScalar {b : UInt8} (h : skipScalar b s = .ok rest) :
    ∃ t, IsWellFormed t ∧ b :: s = t ++ rest := by
  unfold skipScalar at h
  split at h
  · rename_i hb
    rw [eq_of_beq hb, eq_append_of_word h]
    exact ⟨_, .null, rfl⟩
  split at h
  · rename_i hb
    rw [eq_of_beq hb, eq_append_of_word h]
    exact ⟨_, .true, rfl⟩
  split at h
  · rename_i hb
    rw [eq_of_beq hb, eq_append_of_word h]
    exact ⟨_, .false, rfl⟩
  split at h
  · rename_i hb
    obtain ⟨t, ht, rfl⟩ := isNumeral_of_skipNumeral h
    rw [eq_of_beq hb]
    exact ⟨_, .negative ht, rfl⟩
  split at h
  · obtain ⟨t, ht, hs⟩ := isNumeral_of_skipNumeral h
    exact ⟨t, .numeral ht, hs⟩
  split at h
  · rename_i hb
    obtain ⟨t, ht, rfl⟩ := isString_of_skipText h
    rw [eq_of_beq hb]
    exact ⟨_, .string ht, rfl⟩
  · cases h

/-- Where a colon is passed over, it comes behind the blanks. -/
theorem skipBlank_of_colon (h : colon s = .ok t) : skipBlank s = 0x3A :: t := by
  unfold colon at h
  split at h
  · cases h
  · split at h
    · rename_i hb
      obtain rfl := Except.ok.inj h
      rw [← eq_of_beq hb]
      assumption
    · cases h

/-- A label stands before the value of an item. -/
theorem Bracket.exists_label {top : Bracket} (h : top.label s = .ok t) :
    ∃ label, top.Labels label ∧ s = label ++ t := by
  cases top with
  | list =>
    obtain rfl := Except.ok.inj h
    exact ⟨[], rfl, rfl⟩
  | object =>
    obtain ⟨q, u, hq, hu, ht⟩ := skipName_eq_ok_iff.mp h
    obtain ⟨name, hname, rfl⟩ := isString_of_skipText hu
    obtain ⟨before, hbefore, hs⟩ := exists_eq_append_skipBlank s
    obtain ⟨after, hafter, hu'⟩ := exists_eq_append_skipBlank u
    refine ⟨_, ⟨before, _, after, hbefore, hafter, hname, rfl⟩, ?_⟩
    rw [hs, hq, hu', skipBlank_of_colon ht]
    simp

/-- The text of an item: its label, and the text of its value. -/
def Bracket.IsItem (top : Bracket) (t : Bytes) : Prop :=
  ∃ label u, top.Labels label ∧ IsWellFormed u ∧ t = label ++ u

/-- Blanks may stand around an item. -/
theorem Bracket.IsItem.padded {top : Bracket} (h : top.IsItem t) {before after : Bytes}
    (hbefore : AreBlank before) (hafter : AreBlank after) : top.IsItem (before ++ (t ++ after)) := by
  obtain ⟨label, u, hlabel, hu, rfl⟩ := h
  cases top with
  | list =>
    obtain rfl : label = [] := hlabel
    exact ⟨[], _, rfl, .padded hbefore hafter hu, rfl⟩
  | object =>
    obtain ⟨gap, name, gapEnd, hgap, hgapEnd, hname, rfl⟩ := hlabel
    refine ⟨_, _, ⟨before ++ gap, name, gapEnd, ?_, hgapEnd, hname, rfl⟩, .padded .nil hafter hu, ?_⟩
    · exact List.forall_mem_append.mpr ⟨hbefore, hgap⟩
    · simp

/-- **A bracket around items** is a JSON text. -/
theorem IsWellFormed.of_items {top : Bracket} {ts : List Bytes} (hgap : AreBlank gap)
    (h : ∀ t ∈ ts, top.IsItem t) :
    IsWellFormed (top.opening :: (List.intercalate [0x2C] ts ++ (gap ++ [top.closing]))) := by
  have hitems : ∃ items : List (Bytes × Bytes), (∀ i ∈ items, top.Labels i.1) ∧
      (∀ i ∈ items, IsWellFormed i.2) ∧ ts = items.map fun i => i.1 ++ i.2 := by
    induction ts with
    | nil => exact ⟨[], nofun, nofun, rfl⟩
    | cons t ts ih =>
      obtain ⟨⟨label, u, hlabel, hu, rfl⟩, hts⟩ := List.forall_mem_cons.mp h
      obtain ⟨items, hlabels, htexts, rfl⟩ := ih hts
      exact ⟨(label, u) :: items, List.forall_mem_cons.mpr ⟨hlabel, hlabels⟩,
        List.forall_mem_cons.mpr ⟨hu, htexts⟩, rfl⟩
  obtain ⟨items, hlabels, htexts, rfl⟩ := hitems
  exact .bracket top hgap hlabels htexts

/-- **What is made of a part**: a value is a JSON text; what is left of an open bracket are items, each but
the first with a comma before it. -/
def Part.Makes : Part → Bytes → Bytes → Prop
  | .value, s, rest => ∃ t, IsWellFormed t ∧ s = t ++ rest
  | .tail top true, s, rest => ∃ (ts : List Bytes) (gap : Bytes), (∀ t ∈ ts, top.IsItem t) ∧ AreBlank gap ∧
      s = List.intercalate [0x2C] ts ++ (gap ++ top.closing :: rest)
  | .tail top false, s, rest => ∃ (before : Bytes) (ts : List Bytes) (gap : Bytes), AreBlank before ∧
      (∀ t ∈ ts, top.IsItem t) ∧ AreBlank gap ∧
      s = before ++ (ts.flatMap (0x2C :: ·) ++ (gap ++ top.closing :: rest))

/-- **A part that stands in a text** is made from JSON texts. -/
theorem Spans.makes {p : Part} (h : Spans p s rest) : p.Makes s rest := by
  induction h with
  | @scalar s u rest b hs hu =>
    obtain ⟨gap, hgap, hs'⟩ := exists_eq_append_skipBlank s
    obtain ⟨t, ht, htext⟩ := isWellFormed_of_skipScalar hu
    refine ⟨gap ++ (t ++ []), .padded hgap .nil ht, ?_⟩
    rw [hs', hs, htext]
    simp
  | @bracket s u rest top hs _ ih =>
    obtain ⟨before, hbefore, hs'⟩ := exists_eq_append_skipBlank s
    obtain ⟨ts, gap, hts, hgap, rfl⟩ := ih
    refine ⟨_, .padded hbefore .nil (.of_items hgap hts), ?_⟩
    rw [hs', hs]
    simp
  | @close s rest top isFirst hs =>
    obtain ⟨gap, hgap, hs'⟩ := exists_eq_append_skipBlank s
    rw [hs] at hs'
    cases isFirst with
    | true => exact ⟨[], gap, nofun, hgap, hs'⟩
    | false => exact ⟨[], [], gap, .nil, nofun, hgap, hs'⟩
  | @item s t u rest top isFirst hs _ _ ihv iht =>
    obtain ⟨value, hvalue, rfl⟩ := ihv
    obtain ⟨after, ts, gap, hafter, hts, hgap, rfl⟩ := iht
    cases hs with
    | first hw _ hread =>
      obtain ⟨before, hbefore, hs'⟩ := exists_eq_append_skipBlank s
      obtain ⟨label, hlabel, hw'⟩ := Bracket.exists_label hread
      have hitem : top.IsItem (before ++ ((label ++ value) ++ after)) :=
        Bracket.IsItem.padded ⟨label, value, hlabel, hvalue, rfl⟩ hbefore hafter
      refine ⟨_ :: ts, gap, List.forall_mem_cons.mpr ⟨hitem, hts⟩, hgap, ?_⟩
      rw [intercalate_comma, hs', hw, hw']
      simp
    | next hw hread =>
      obtain ⟨before, hbefore, hs'⟩ := exists_eq_append_skipBlank s
      obtain ⟨label, hlabel, rfl⟩ := Bracket.exists_label hread
      have hitem : top.IsItem ([] ++ ((label ++ value) ++ after)) :=
        Bracket.IsItem.padded ⟨label, value, hlabel, hvalue, rfl⟩ .nil hafter
      refine ⟨before, _ :: ts, gap, hbefore, List.forall_mem_cons.mpr ⟨hitem, hts⟩, hgap, ?_⟩
      rw [hs', hw]
      simp

/-- **A document is a JSON text.** -/
theorem IsDocument.isWellFormed (h : IsDocument s) : IsWellFormed s := by
  obtain ⟨rest, hs, hrest⟩ := h
  obtain ⟨t, ht, rfl⟩ := hs.makes
  obtain ⟨gap, hgap, hrest'⟩ := exists_eq_append_skipBlank rest
  rw [hrest, List.append_nil] at hrest'
  exact .padded .nil (hrest' ▸ hgap) ht

end ReleasePublisher.Json
