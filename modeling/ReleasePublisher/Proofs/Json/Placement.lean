import ReleasePublisher.Proofs.Json.Syntax

/-!
# JSON texts wherever they stand

What is built up as a JSON text is a value for the reader, wherever it is put, as long as no number goes on
behind it. With the converse, texts that are built up and texts that are passed over are the same.

## Main definitions

* `Json.Stands t`: a text is a value wherever it is put

## Main results

* `Json.IsWellFormed.padded_stands`: a JSON text is a value, with blanks around it
-/

namespace ReleasePublisher.Json

variable {s t rest gap : Bytes}

/-- **The text is a value wherever it is put.** It begins with no blank, and it is passed over wherever no
number goes on behind it. -/
structure Stands (t : Bytes) : Prop where
  spans : ∀ rest, Ends rest → Spans .value (t ++ rest) rest
  skipBlank_eq : ∀ rest, skipBlank (t ++ rest) = t ++ rest

/-- A value that holds no other stands, if it is passed over as one. -/
theorem Stands.of_scalar {b : UInt8} (hb : isSpace b = false)
    (h : ∀ rest, Ends rest → skipScalar b (t ++ rest) = .ok rest) : Stands (b :: t) where
  spans rest hrest := .scalar (skipBlank_cons hb _) (h rest hrest)
  skipBlank_eq _ := skipBlank_cons hb _

/-! ### Words and strings -/

theorem word_append (w rest : Bytes) : word w (w ++ rest) = .ok rest := by
  induction w with
  | nil => rfl
  | cons b w ih => simpa [word] using ih

/-- Four hexadecimal digits are read as a number. -/
theorem exists_fourDigits {ds : Bytes} (hlength : ds.length = 4) (h : ∀ d ∈ ds, IsHexByte d)
    (rest : Bytes) : ∃ n, fourDigits (ds ++ rest) = .ok n := by
  have hvalue : ∀ b : UInt8, IsHexByte b → ∃ n, Hex.value? (Char.ofNat b.toNat) = some n := by
    intro b hb
    refine Option.isSome_iff_exists.mp (Utf8.forall_byte
      (P := fun b => (0x30 ≤ b ∧ b ≤ 0x39 ∨ 0x41 ≤ b ∧ b ≤ 0x46 ∨ 0x61 ≤ b ∧ b ≤ 0x66) →
        (Hex.value? (Char.ofNat b.toNat)).isSome = true) ?_ b hb)
    decide +kernel
  match ds, hlength with
  | [a, b, c, d], _ =>
    obtain ⟨w, hw⟩ := hvalue a (h a (by simp))
    obtain ⟨x, hx⟩ := hvalue b (h b (by simp))
    obtain ⟨y, hy⟩ := hvalue c (h c (by simp))
    obtain ⟨z, hz⟩ := hvalue d (h d (by simp))
    exact ⟨((w * 16 + x) * 16 + y) * 16 + z, by simp [fourDigits, hw, hx, hy, hz]⟩

/-- A piece of a string is passed over. -/
theorem IsStringPiece.skipText_eq {p : Bytes} (h : IsStringPiece p) (s : Bytes) :
    skipText (p ++ s) = skipText s := by
  cases h with
  | @plain b hquote hbackslash hcontrol =>
    have hcontrol : ¬ b < 0x20 := UInt8.not_lt.mpr hcontrol
    rw [List.singleton_append, skipText.eq_def]
    simp [hquote, hbackslash, hcontrol]
  | @short b h =>
    have hletter : (simpleEscape? b).isSome = true := by
      revert h
      refine Utf8.forall_byte (P := fun b => b ∈ ([0x22, 0x5C, 0x2F, 0x62, 0x66, 0x6E, 0x72, 0x74] : Bytes) →
        (simpleEscape? b).isSome = true) ?_ b
      decide +kernel
    rw [List.cons_append, List.singleton_append, skipText.eq_def]
    simp [hletter]
  | @numbered ds hlength h =>
    obtain ⟨n, hn⟩ := exists_fourDigits hlength h s
    rw [List.cons_append, List.cons_append, skipText_fourDigits hn, ← hlength, List.drop_left]

/-- **A string is passed over**, from behind its opening quote. -/
theorem IsString.exists_tail (h : IsString t) :
    ∃ q, t = 0x22 :: q ∧ ∀ rest, skipText (q ++ rest) = .ok rest := by
  obtain ⟨pieces, hpieces, rfl⟩ := h
  refine ⟨_, rfl, ?_⟩
  intro rest
  induction pieces with
  | nil =>
    rw [skipText.eq_def]
    rfl
  | cons p pieces ih =>
    obtain ⟨hp, hpieces⟩ := List.forall_mem_cons.mp hpieces
    rw [List.flatten_cons, List.append_assoc, List.append_assoc, hp.skipText_eq, ← List.append_assoc]
    exact ih hpieces

/-! ### Numbers -/

theorem Ends.startsDigit_eq (h : Ends rest) : startsDigit rest = false := by
  cases rest with
  | nil => rfl
  | cons b rest => exact (h b rfl).1

theorem Ends.startsExponent_eq (h : Ends rest) : startsExponent rest = false := by
  cases rest with
  | nil => rfl
  | cons b rest =>
    obtain ⟨-, -, he, hE⟩ := h b rfl
    simp [startsExponent, he, hE]

/-- Digits are passed over. -/
theorem dropWhile_isDigit_append {ds : Bytes} (h : ∀ d ∈ ds, 0x30 ≤ d ∧ d ≤ 0x39)
    (hrest : startsDigit rest = false) : (ds ++ rest).dropWhile isDigit = rest := by
  rw [List.dropWhile_append_of_pos fun d hd => isDigit_iff.mpr (h d hd)]
  cases rest with
  | nil => rfl
  | cons b rest => exact List.dropWhile_cons_of_neg (by simpa [startsDigit] using hrest)

theorem AreDigits.exists_cons {ds : Bytes} (h : AreDigits ds) :
    ∃ d ds', ds = d :: ds' ∧ isDigit d = true ∧ ∀ d ∈ ds', 0x30 ≤ d ∧ d ≤ 0x39 := by
  obtain ⟨hne, hall⟩ := h
  cases ds with
  | nil => exact absurd rfl hne
  | cons d ds =>
    obtain ⟨hd, hds⟩ := List.forall_mem_cons.mp hall
    exact ⟨d, ds, rfl, isDigit_iff.mpr hd, hds⟩

theorem skipExponent_append {sign ds : Bytes} (hsign : sign ∈ ([[], [0x2B], [0x2D]] : List Bytes))
    (hds : AreDigits ds) (hrest : startsDigit rest = false) :
    skipExponent (sign ++ (ds ++ rest)) = .ok rest := by
  obtain ⟨d, ds, rfl, hd, hds⟩ := hds.exists_cons
  have hplus : d ≠ 0x2B := by
    rintro rfl
    exact absurd hd (by decide)
  have hminus : d ≠ 0x2D := by
    rintro rfl
    exact absurd hd (by decide)
  have hafter : (exponentSign (sign ++ (d :: ds ++ rest))).2 = d :: (ds ++ rest) := by
    simp only [List.mem_cons, List.not_mem_nil, or_false] at hsign
    rcases hsign with rfl | rfl | rfl
    · simp [exponentSign, hplus, hminus]
    · simp [exponentSign]
    · simp [exponentSign]
  simp only [skipExponent, hafter, hd, if_true, dropWhile_isDigit_append hds hrest]

/-- An exponent, or none, is passed over. -/
theorem skip_exponent {exponent : Bytes} (h : IsExponent exponent) (hrest : Ends rest) :
    (if startsExponent (exponent ++ rest) then skipExponent ((exponent ++ rest).drop 1)
      else .ok (exponent ++ rest)) = .ok rest := by
  rcases h with rfl | ⟨letter, sign, ds, hletter, hsign, hds, rfl⟩
  · simp [hrest.startsExponent_eq]
  · have hstarts : startsExponent (letter :: (sign ++ ds) ++ rest) = true := by
      simpa [startsExponent] using hletter
    rw [if_pos hstarts, List.cons_append, List.drop_succ_cons, List.drop_zero, List.append_assoc]
    exact skipExponent_append hsign hds hrest.startsDigit_eq

/-- What stands behind the digits of a number is no digit. -/
theorem startsDigit_exponent {exponent : Bytes} (h : IsExponent exponent) (hrest : Ends rest) :
    startsDigit (exponent ++ rest) = false := by
  rcases h with rfl | ⟨letter, sign, ds, hletter, -, -, rfl⟩
  · exact hrest.startsDigit_eq
  · simp only [List.mem_cons, List.not_mem_nil, or_false] at hletter
    rcases hletter with rfl | rfl <;> rfl

theorem skipFraction_append {fraction exponent : Bytes} (hfraction : IsFraction fraction)
    (hexponent : IsExponent exponent) (hrest : Ends rest) :
    skipFraction (fraction ++ (exponent ++ rest)) = .ok rest := by
  have hskip := skip_exponent hexponent hrest
  have hdigit := startsDigit_exponent hexponent hrest
  rcases hfraction with rfl | ⟨ds, hds, rfl⟩
  · -- Without decimal places there may be nothing at all, or a point may follow the number.
    have hpoint : ∀ u, exponent ++ rest ≠ 0x2E :: u := by
      rcases hexponent with rfl | ⟨letter, sign, ds, hletter, -, -, rfl⟩
      · rintro u rfl
        exact (hrest _ rfl).2.1 rfl
      · rintro u hu
        obtain ⟨rfl, -⟩ := List.cons.inj hu
        exact absurd hletter (by decide)
    rw [List.nil_append]
    cases hs : exponent ++ rest with
    | nil =>
      rw [hs] at hskip
      exact hskip
    | cons b u =>
      rw [hs] at hskip hpoint
      have hb : b ≠ 0x2E := by
        rintro rfl
        exact hpoint u rfl
      rw [List.drop_succ_cons, List.drop_zero] at hskip
      simpa [skipFraction, hb] using hskip
  · obtain ⟨d, ds, rfl, hd, hds⟩ := hds.exists_cons
    have hdrop : (d :: ds ++ (exponent ++ rest)).dropWhile isDigit = exponent ++ rest := by
      rw [List.cons_append, List.dropWhile_cons_of_pos hd, dropWhile_isDigit_append hds hdigit]
    have hstarts : startsDigit (d :: ds ++ (exponent ++ rest)) = true := hd
    rw [List.cons_append]
    simp only [skipFraction, hstarts, hdrop]
    exact hskip

/-- **A number is passed over.** -/
theorem IsNumeral.skipNumeral_eq (h : IsNumeral t) (hrest : Ends rest) :
    skipNumeral (t ++ rest) = .ok rest := by
  obtain ⟨whole, fraction, exponent, hwhole, hfraction, hexponent, rfl⟩ := h
  have hskip := skipFraction_append hfraction hexponent hrest
  have hdigit : startsDigit (fraction ++ (exponent ++ rest)) = false := by
    cases hfraction with
    | inl hnone =>
      rw [hnone, List.nil_append]
      exact startsDigit_exponent hexponent hrest
    | inr hsome =>
      obtain ⟨ds, -, hpoint⟩ := hsome
      rw [hpoint]
      rfl
  rw [List.append_assoc, List.append_assoc]
  rcases hwhole with rfl | ⟨hdigits, hzero⟩
  · rw [List.singleton_append, skipNumeral]
    simpa [hdigit, isDigit] using hskip
  · obtain ⟨d, ds, rfl, hd, hds⟩ := hdigits.exists_cons
    have hd0 : d ≠ 0x30 := by simpa using hzero
    rw [List.cons_append, skipNumeral]
    simpa [hd, hd0, dropWhile_isDigit_append hds hdigit] using hskip

/-- A number begins with a digit. -/
theorem IsNumeral.exists_cons (h : IsNumeral t) : ∃ d u, t = d :: u ∧ isDigit d = true := by
  obtain ⟨whole, fraction, exponent, hwhole, -, -, rfl⟩ := h
  rcases hwhole with rfl | ⟨hdigits, -⟩
  · exact ⟨_, _, rfl, rfl⟩
  · obtain ⟨d, ds, rfl, hd, -⟩ := hdigits.exists_cons
    exact ⟨d, _, rfl, hd⟩

/-! ### Brackets -/

/-- **An item as it stands in a bracket**: a member has its name and a colon before the value. -/
def Bracket.HasItem (top : Bracket) (p : Bytes) (_ : Unit) : Prop :=
  match top with
  | list => Stands p
  | object => ∃ name before after q, IsString name ∧ AreBlank before ∧ AreBlank after ∧ Stands q ∧
      p = name ++ (before ++ 0x3A :: (after ++ q))

theorem colon_append (hgap : AreBlank gap) (rest : Bytes) : colon (gap ++ 0x3A :: rest) = .ok rest := by
  rw [colon, skipBlank_append hgap, skipBlank_cons (by decide)]
  rfl

theorem Spans.append (h : Spans .value s rest) (hgap : AreBlank gap) :
    Spans .value (gap ++ s) rest :=
  h.congr_skipBlank (skipBlank_append hgap s).symm

/-- **A bracket passes over its items.** -/
theorem readsPieces_bracket (top : Bracket) (rest : Bytes) :
    ReadsPieces top.closing rest top.HasItem fun isFirst s _ => Spans (.tail top isFirst) s rest where
  closing_ends := by
    cases top with
    | list => exact .cons (by decide) rest
    | object => exact .cons (by decide) rest
  closing_shown := by
    cases top with
    | list => decide
    | object => decide
  skipBlank_eq {p _} h u := by
    cases top with
    | list => exact h.skipBlank_eq u
    | object =>
      obtain ⟨name, before, after, q, hname, -, -, -, rfl⟩ := h
      obtain ⟨q', rfl, -⟩ := hname.exists_tail
      exact skipBlank_cons (by decide) _
  nil hs := .close hs
  cons {isFirst s p _ _ u} hs hp hu hrest := by
    cases top with
    | list => exact .element hs (hp.spans u hu) hrest
    | object =>
      obtain ⟨name, before, after, q, hname, hbefore, hafter, hq, rfl⟩ := hp
      obtain ⟨n, rfl, hn⟩ := hname.exists_tail
      simp only [List.cons_append, List.append_assoc] at hs
      exact .member hs (hn _) (colon_append hbefore _) ((hq.spans u hu).append hafter) hrest

theorem IsNumeral.skipScalar_eq {d : UInt8} {u : Bytes} (h : IsNumeral (d :: u)) (hd : isDigit d = true)
    (hrest : Ends rest) : skipScalar d (u ++ rest) = .ok rest := by
  have hletter : d ≠ 0x6E ∧ d ≠ 0x74 ∧ d ≠ 0x66 ∧ d ≠ 0x2D := by
    refine ⟨?_, ?_, ?_, ?_⟩
    all_goals
      rintro rfl
      exact absurd hd (by decide)
  rw [← h.skipNumeral_eq hrest, skipScalar]
  simp [hletter, hd]

/-- A label and a value are an item. -/
theorem Bracket.padded_hasItem {top : Bracket} {label value : Bytes} (hlabel : top.Labels label)
    (h : Padded (fun p (_ : Unit) => Stands p) value ()) : Padded top.HasItem (label ++ value) () := by
  obtain ⟨before, p, after, hbefore, hafter, rfl, hp⟩ := h
  cases top with
  | list =>
    obtain rfl : label = [] := hlabel
    exact ⟨before, p, after, hbefore, hafter, rfl, hp⟩
  | object =>
    obtain ⟨gap, name, mid, hgap, hmid, hname, rfl⟩ := hlabel
    exact ⟨gap, name ++ (mid ++ 0x3A :: (before ++ p)), after, hgap, hafter, by simp,
      name, mid, before, p, hname, hmid, hbefore, hp, rfl⟩

theorem isSpace_opening (top : Bracket) : isSpace top.opening = false := by
  cases top with
  | list => decide
  | object => decide

/-- **A JSON text is a value**, with blanks around it. -/
theorem IsWellFormed.padded_stands (h : IsWellFormed t) :
    Padded (fun p (_ : Unit) => Stands p) t () := by
  induction h with
  | padded hbefore hafter _ ih => exact ih.append hbefore hafter
  | null => exact .of_piece (.of_scalar (by decide) fun rest _ => word_append _ rest)
  | true => exact .of_piece (.of_scalar (by decide) fun rest _ => word_append _ rest)
  | false => exact .of_piece (.of_scalar (by decide) fun rest _ => word_append _ rest)
  | numeral h =>
    obtain ⟨d, u, rfl, hd⟩ := h.exists_cons
    exact .of_piece (.of_scalar (not_isSpace_of_isDigit hd) fun rest hrest => h.skipScalar_eq hd hrest)
  | negative h => exact .of_piece (.of_scalar (by decide) fun rest hrest => h.skipNumeral_eq hrest)
  | string h =>
    obtain ⟨q, rfl, hq⟩ := h.exists_tail
    exact .of_piece (.of_scalar (by decide) fun rest _ => hq rest)
  | @bracket top items gap hgap hlabel _ ih =>
    have hitems : List.Forall₂ (Padded top.HasItem) (items.map fun i => i.1 ++ i.2)
        (items.map fun _ => ()) := by
      rw [List.forall₂_map_left_iff, List.forall₂_map_right_iff, List.forall₂_same]
      intro i hi
      exact Bracket.padded_hasItem (hlabel i hi) (ih i hi)
    refine .of_piece ⟨fun rest _ => ?_, fun rest => skipBlank_cons (isSpace_opening top) _⟩
    have htail := (readsPieces_bracket top rest).read hgap hitems
    simp only [List.cons_append, List.append_assoc, List.nil_append]
    exact .bracket top (skipBlank_cons (isSpace_opening top) _) htail

end ReleasePublisher.Json
