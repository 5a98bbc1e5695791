import ReleasePublisher.Proofs.Json.Objects
import ReleasePublisher.Proofs.Text.Replacement

/-!
# JSON in alike texts

Bytes from `0x80` on may stand in strings only, where each of them is passed over. So alike texts have the
same structure: what is a value in one of them is a value in the other, and it has as many entries, with alike
names and alike values.

## Main definitions

* `Json.KeepsAlike f`: what passes over a part of a text leaves alike texts alike

## Main results

* `Json.keepsAlike_skipText`, `Json.keepsAlike_skipNumeral`: strings and numbers
* `Json.Spans.exists_alike`: values
* `Json.Entries.exists_alike`: the entries of objects
-/

namespace ReleasePublisher.Json

open Utf8

variable {s t u rest : Bytes} {b : UInt8}

/-- **What passes over a part of a text** does so in every alike text, and leaves alike texts behind. -/
def KeepsAlike (f : Bytes → Except Fault Bytes) : Prop :=
  ∀ ⦃s t rest⦄, Alike s t → f s = .ok rest → ∃ rest', f t = .ok rest' ∧ Alike rest rest'

/-! ### Blanks and words -/

theorem not_isHigh_of_isSpace (h : isSpace b = true) : isHigh b = false := by
  rcases isSpace_iff.mp h with rfl | rfl | rfl | rfl <;> decide

theorem not_isHigh_of_isDigit (h : isDigit b = true) : isHigh b = false :=
  not_isHigh_iff.mpr (UInt8.lt_of_le_of_lt (isDigit_iff.mp h).2 (by decide))

theorem alike_skipBlank (h : Alike s t) : Alike (skipBlank s) (skipBlank t) :=
  h.dropWhile_of_low fun _ => not_isHigh_of_isSpace

/-- What stands behind blanks stands there in an alike text. -/
theorem exists_skipBlank_eq (h : Alike s t) (hs : skipBlank s = b :: u) (hb : isHigh b = false) :
    ∃ v, skipBlank t = b :: v ∧ Alike u v := by
  have hst := alike_skipBlank h
  rw [hs] at hst
  exact hst.exists_cons hb

theorem keepsAlike_word {w : Bytes} (hw : ∀ b ∈ w, isHigh b = false) : KeepsAlike (word w) := by
  intro s t rest h hs
  rw [eq_append_of_word hs] at h
  obtain ⟨rest', rfl, hrest⟩ := h.exists_append hw
  exact ⟨rest', word_append w rest', hrest⟩

theorem keepsAlike_colon : KeepsAlike colon := by
  intro s t rest h hs
  obtain ⟨v, hv, hrest⟩ := exists_skipBlank_eq h (skipBlank_of_colon hs) (by decide)
  refine ⟨v, ?_, hrest⟩
  rw [colon, hv]
  rfl

/-! ### Strings -/

theorem IsHexByte.not_isHigh (h : IsHexByte b) : isHigh b = false := by
  rw [not_isHigh_iff]
  rcases h with ⟨-, h⟩ | ⟨-, h⟩ | ⟨-, h⟩
  · exact UInt8.lt_of_le_of_lt h (by decide)
  · exact UInt8.lt_of_le_of_lt h (by decide)
  · exact UInt8.lt_of_le_of_lt h (by decide)

/-- The number is read of the digits only. -/
theorem fourDigits_append {ds : Bytes} {n : Nat} (hlength : ds.length = 4)
    (h : fourDigits (ds ++ s) = .ok n) (t : Bytes) : fourDigits (ds ++ t) = .ok n := by
  match ds, hlength with
  | [a, b, c, d], _ =>
    simp only [List.cons_append, List.nil_append, fourDigits] at h ⊢
    split at h
    · exact h
    · cases h

/-- Four hexadecimal digits stand where they do in an alike text. -/
theorem alike_fourDigits {n : Nat} (h : Alike s t) (hs : fourDigits s = .ok n) :
    fourDigits t = .ok n ∧ Alike (s.drop 4) (t.drop 4) := by
  obtain ⟨ds, hlength, hdigits, hs'⟩ := exists_digits_of_fourDigits hs
  rw [hs'] at h hs
  obtain ⟨v, rfl, hv⟩ := h.exists_append fun d hd => (hdigits d hd).not_isHigh
  refine ⟨fourDigits_append hlength hs v, ?_⟩
  have hdrop : (ds ++ v).drop 4 = v := by rw [← hlength, List.drop_left]
  rwa [hdrop]

/-- A high byte stands for itself in a string. -/
theorem skipText_cons_of_isHigh (hb : isHigh b = true) (s : Bytes) : skipText (b :: s) = skipText s := by
  have hle := isHigh_iff.mp hb
  have hquote : b ≠ 0x22 := by rintro rfl; cases hb
  have hbackslash : b ≠ 0x5C := by rintro rfl; cases hb
  have hcontrol : ¬ b < 0x20 := UInt8.not_lt.mpr (UInt8.le_trans (by decide) hle)
  rw [skipText.eq_def]
  simp [hquote, hbackslash, hcontrol]

theorem skipText_dropWhile_isHigh (s : Bytes) : skipText (s.dropWhile isHigh) = skipText s := by
  induction s with
  | nil => rfl
  | cons b s ih =>
    rw [List.dropWhile_cons]
    split
    · rename_i hb
      rw [ih, skipText_cons_of_isHigh hb]
    · rfl

theorem not_isHigh_of_simpleEscape? (h : (simpleEscape? b).isSome = true) : isHigh b = false := by
  have hlow : ∀ b ∈ ([0x22, 0x5C, 0x2F, 0x62, 0x66, 0x6E, 0x72, 0x74] : Bytes), isHigh b = false := by
    decide +kernel
  exact hlow b (mem_of_simpleEscape? h)

theorem skipText_dropWhile_alike (h : Alike (s.dropWhile isHigh) (t.dropWhile isHigh))
    (hs : skipText s = .ok rest) : ∃ rest', skipText t = .ok rest' ∧ Alike rest rest' := by
  -- By what stands behind the high bytes at the start, of which there may be more in one of the texts.
  rw [← skipText_dropWhile_isHigh t]
  fun_induction skipText s generalizing t with
  | case1 | case3 | case5 | case7 | case8 => cases hs
  | case2 b u hquote =>
    obtain rfl := eq_of_beq hquote
    obtain rfl := Except.ok.inj hs
    obtain ⟨v, hv, huv⟩ := h.exists_cons (by decide)
    refine ⟨v, ?_, huv⟩
    rw [hv, skipText.eq_def]
    rfl
  | case4 b _ hbackslash e after hletter ih =>
    obtain rfl := eq_of_beq hbackslash
    obtain ⟨v, hv, huv⟩ := h.exists_cons (by decide)
    obtain ⟨w, rfl, hw⟩ := huv.exists_cons (not_isHigh_of_simpleEscape? hletter)
    obtain ⟨rest', hrest', hrest⟩ := ih hw.dropWhile_isHigh hs
    rw [skipText_dropWhile_isHigh] at hrest'
    refine ⟨rest', ?_, hrest⟩
    rw [hv, skipText.eq_def]
    simpa [hletter] using hrest'
  | case6 b _ hbackslash e after _ hu n hn ih =>
    obtain rfl := eq_of_beq hbackslash
    obtain rfl := eq_of_beq hu
    obtain ⟨v, hv, huv⟩ := h.exists_cons (by decide)
    obtain ⟨w, rfl, hw⟩ := huv.exists_cons (by decide)
    obtain ⟨hn', hdrop⟩ := alike_fourDigits hw hn
    obtain ⟨rest', hrest', hrest⟩ := ih hdrop.dropWhile_isHigh hs
    rw [skipText_dropWhile_isHigh] at hrest'
    exact ⟨rest', by rw [hv, skipText_fourDigits hn', hrest'], hrest⟩
  | case9 b u hquote hbackslash hcontrol ih =>
    cases hb : isHigh b with
    | true =>
      rw [List.dropWhile_cons_of_pos hb] at h
      exact ih h hs
    | false =>
      rw [List.dropWhile_cons_of_neg (by simp [hb])] at h
      obtain ⟨v, hv, huv⟩ := h.exists_cons hb
      obtain ⟨rest', hrest', hrest⟩ := ih huv.dropWhile_isHigh hs
      rw [skipText_dropWhile_isHigh] at hrest'
      refine ⟨rest', ?_, hrest⟩
      rw [hv, skipText.eq_def]
      simpa [hquote, hbackslash, hcontrol] using hrest'

/-- **Strings are passed over alike.** -/
theorem keepsAlike_skipText : KeepsAlike skipText :=
  fun _ _ _ h hs => skipText_dropWhile_alike h.dropWhile_isHigh hs

/-! ### Numbers -/

theorem alike_dropDigits (h : Alike s t) : Alike (s.dropWhile isDigit) (t.dropWhile isDigit) :=
  h.dropWhile_of_low fun _ => not_isHigh_of_isDigit

theorem startsDigit_alike (h : Alike s t) : startsDigit s = startsDigit t := by
  have hhead : ∀ s, startsDigit s = s.head?.any isDigit := by rintro (_ | _) <;> rfl
  rw [hhead, hhead, h.any_head? fun _ => not_isHigh_of_isDigit]

theorem not_isHigh_of_letter (h : (b == 0x65 || b == 0x45) = true) : isHigh b = false := by
  rcases Bool.or_eq_true_iff.mp h with hb | hb
  · rw [eq_of_beq hb]
    decide
  · rw [eq_of_beq hb]
    decide

theorem startsExponent_alike (h : Alike s t) : startsExponent s = startsExponent t := by
  have hhead : ∀ s, startsExponent s = s.head?.any fun b => b == 0x65 || b == 0x45 := by
    rintro (_ | _) <;> rfl
  rw [hhead, hhead, h.any_head? fun _ => not_isHigh_of_letter]

/-- A high byte is no other one. -/
theorem beq_eq_false_of_isHigh {c : UInt8} (hb : isHigh b = true) (hc : isHigh c = false) :
    (b == c) = false := by
  rw [beq_eq_false_iff_ne]
  rintro rfl
  cases hb.symm.trans hc

theorem exponentSign_cons_snd (b : UInt8) (s : Bytes) :
    (exponentSign (b :: s)).2 = if b == 0x2B then s else if b == 0x2D then s else b :: s := by
  rw [exponentSign]
  cases b == 0x2B <;> cases b == 0x2D <;> rfl

theorem alike_exponentSign (h : Alike s t) : Alike (exponentSign s).2 (exponentSign t).2 := by
  rcases h.cases with ⟨rfl, rfl⟩ | ⟨b, u, v, -, rfl, rfl, huv⟩ | ⟨b, c, u, v, hb, hc, rfl, rfl⟩
  · exact h
  · rw [exponentSign_cons_snd, exponentSign_cons_snd]
    split
    · exact huv
    split
    · exact huv
    · exact h
  · have hnot : ∀ (d : UInt8) (w : Bytes), isHigh d = true → (exponentSign (d :: w)).2 = d :: w := by
      intro d w hd
      have hplus : (d == 0x2B) = false := beq_eq_false_of_isHigh hd (by decide)
      have hminus : (d == 0x2D) = false := beq_eq_false_of_isHigh hd (by decide)
      simp [exponentSign_cons_snd, hplus, hminus]
    rwa [hnot b u hb, hnot c v hc]

theorem keepsAlike_skipExponent : KeepsAlike skipExponent := by
  intro s t rest h hs
  have hsign := alike_exponentSign h
  unfold skipExponent at hs ⊢
  split at hs
  · cases hs
  · rename_i d u hu
    split at hs
    · rename_i hd
      obtain rfl := Except.ok.inj hs
      rw [hu] at hsign
      obtain ⟨v, hv, huv⟩ := hsign.exists_cons (not_isHigh_of_isDigit hd)
      rw [hv]
      exact ⟨_, if_pos hd, alike_dropDigits huv⟩
    · cases hs

/-- Behind the letter of an exponent, its digits are passed over. -/
theorem skip_exponent_alike (h : Alike s t)
    (hs : (if startsExponent s then skipExponent (s.drop 1) else .ok s) = .ok rest) :
    ∃ rest', (if startsExponent t then skipExponent (t.drop 1) else .ok t) = .ok rest' ∧
      Alike rest rest' := by
  rw [startsExponent_alike h] at hs
  split at hs
  · rename_i hletter
    obtain ⟨letter, v, rfl, hv⟩ := exists_cons_of_startsExponent hletter
    obtain ⟨u, rfl, hu⟩ := h.symm.exists_cons (not_isHigh_of_letter hv)
    rw [if_pos hletter]
    exact keepsAlike_skipExponent hu.symm hs
  · rename_i hletter
    obtain rfl := Except.ok.inj hs
    exact ⟨t, if_neg hletter, h⟩

theorem skipFraction_point (s : Bytes) : skipFraction (0x2E :: s) =
    if startsDigit s then
      if startsExponent (s.dropWhile isDigit) then skipExponent ((s.dropWhile isDigit).drop 1)
      else .ok (s.dropWhile isDigit)
    else .error (.at .invalidNumber s) := by
  cases hd : startsDigit s <;> simp [skipFraction, hd]

theorem skipFraction_of_no_point (h : s.head?.any (· == 0x2E) = false) :
    skipFraction s = if startsExponent s then skipExponent (s.drop 1) else .ok s := by
  cases s with
  | nil => rfl
  | cons b s =>
    have hb : (b == 0x2E) = false := h
    simp [skipFraction, beq_eq_false_iff_ne.mp hb]

theorem keepsAlike_skipFraction : KeepsAlike skipFraction := by
  intro s t rest h hs
  have hpoint : s.head?.any (· == 0x2E) = t.head?.any (· == 0x2E) := by
    refine h.any_head? fun b hb => ?_
    rw [eq_of_beq hb]
    decide
  cases hhead : s.head?.any (· == 0x2E) with
  | false =>
    rw [skipFraction_of_no_point hhead] at hs
    rw [skipFraction_of_no_point (hpoint.symm.trans hhead)]
    exact skip_exponent_alike h hs
  | true =>
    obtain ⟨u, rfl⟩ : ∃ u, s = 0x2E :: u := by
      cases s with
      | nil => cases hhead
      | cons b u => exact ⟨u, by rw [eq_of_beq (show (b == 0x2E) = true from hhead)]⟩
    obtain ⟨v, rfl, huv⟩ := h.exists_cons (by decide)
    rw [skipFraction_point] at hs
    rw [skipFraction_point, ← startsDigit_alike huv]
    split at hs
    · rename_i hd
      rw [if_pos hd]
      exact skip_exponent_alike (alike_dropDigits huv) hs
    · cases hs

/-- **Numbers are passed over alike.** -/
theorem keepsAlike_skipNumeral : KeepsAlike skipNumeral := by
  intro s t rest h hs
  cases s with
  | nil => cases hs
  | cons b u =>
    rw [skipNumeral] at hs
    split at hs
    · cases hs
    rename_i hd
    have hd : isDigit b = true := by simpa using hd
    obtain ⟨v, rfl, huv⟩ := h.exists_cons (not_isHigh_of_isDigit hd)
    rw [skipNumeral, if_neg (by simp [hd]), ← startsDigit_alike huv]
    split at hs
    · rename_i hzero
      rw [if_pos hzero]
      split at hs
      · cases hs
      · rename_i hnext
        rw [if_neg hnext]
        exact keepsAlike_skipFraction huv hs
    · rename_i hzero
      rw [if_neg hzero]
      exact keepsAlike_skipFraction (alike_dropDigits huv) hs

/-! ### Values -/

/-- No value begins with a high byte. -/
theorem not_isHigh_of_skipScalar (h : skipScalar b s = .ok rest) : isHigh b = false := by
  have hbyte : ∀ c : UInt8, (b == c) = true → isHigh c = false → isHigh b = false := by
    intro c hb hc
    rwa [eq_of_beq hb]
  unfold skipScalar at h
  split at h
  · exact hbyte 0x6E ‹_› (by decide)
  split at h
  · exact hbyte 0x74 ‹_› (by decide)
  split at h
  · exact hbyte 0x66 ‹_› (by decide)
  split at h
  · exact hbyte 0x2D ‹_› (by decide)
  split at h
  · exact not_isHigh_of_isDigit ‹_›
  split at h
  · exact hbyte 0x22 ‹_› (by decide)
  · cases h

/-- What is done is chosen by what stood before the text. -/
theorem KeepsAlike.ite {c : Prop} [Decidable c] {f g : Bytes → Except Fault Bytes} (hf : c → KeepsAlike f)
    (hg : KeepsAlike g) : KeepsAlike fun s => if c then f s else g s := by
  by_cases hc : c
  · simpa only [if_pos hc] using hf hc
  · simpa only [if_neg hc] using hg

/-- **Values that hold no other** are passed over alike. -/
theorem keepsAlike_skipScalar (b : UInt8) : KeepsAlike (skipScalar b) :=
  -- By the first byte: of `null`, `true` and `false`, a sign, a digit, a quote.
  .ite (fun _ => keepsAlike_word (by decide +kernel)) <| .ite (fun _ => keepsAlike_word (by decide +kernel)) <|
    .ite (fun _ => keepsAlike_word (by decide +kernel)) <| .ite (fun _ => keepsAlike_skipNumeral) <|
      .ite (fun hd _ _ _ h hs => keepsAlike_skipNumeral (h.cons (not_isHigh_of_isDigit hd)) hs) <|
        .ite (fun _ => keepsAlike_skipText) nofun

theorem keepsAlike_skipName : KeepsAlike skipName := by
  intro s t rest h hs
  obtain ⟨u, v, hu, hv, hrest⟩ := skipName_eq_ok_iff.mp hs
  obtain ⟨u', hu', huu⟩ := exists_skipBlank_eq h hu (by decide)
  obtain ⟨v', hv', hvv⟩ := keepsAlike_skipText huu hv
  obtain ⟨rest', hrest', h'⟩ := keepsAlike_colon hvv hrest
  exact ⟨rest', skipName_eq_ok_iff.mpr ⟨u', v', hu', hv', hrest'⟩, h'⟩

theorem keepsAlike_label (top : Bracket) : KeepsAlike top.label := by
  cases top with
  | list =>
    rintro s t rest h ⟨⟩
    exact ⟨t, rfl, h⟩
  | object => exact keepsAlike_skipName

theorem not_isHigh_opening (top : Bracket) : isHigh top.opening = false := by
  cases top <;> decide

theorem not_isHigh_closing (top : Bracket) : isHigh top.closing = false := by
  cases top <;> decide

/-- The next item in a bracket is entered in alike texts. -/
theorem Enters.exists_alike {top : Bracket} {isFirst : Bool} (h : Enters top isFirst s u) (hst : Alike s t) :
    ∃ v, Enters top isFirst t v ∧ Alike u v := by
  cases h with
  | @first _ w _ b hs hne hu =>
    have hbw := alike_skipBlank hst
    rw [hs] at hbw
    obtain ⟨v, hv, huv⟩ := keepsAlike_label top hbw hu
    have hclosing := not_isHigh_closing top
    obtain ⟨c, x, hx, hc⟩ : ∃ c x, skipBlank t = c :: x ∧ c ≠ top.closing := by
      rcases hbw.cases with ⟨hnil, -⟩ | ⟨c, _, x, -, hb, hx, -⟩ | ⟨_, c, _, x, -, hc, -, hx⟩
      · cases hnil
      · obtain ⟨rfl, -⟩ := List.cons.inj hb
        exact ⟨b, x, hx, hne⟩
      · exact ⟨c, x, hx, beq_eq_false_iff_ne.mp (beq_eq_false_of_isHigh hc hclosing)⟩
    exact ⟨v, .first hx hc (hx ▸ hv), huv⟩
  | next hs hu =>
    obtain ⟨x, hx, hwx⟩ := exists_skipBlank_eq hst hs (by decide)
    obtain ⟨v, hv, huv⟩ := keepsAlike_label top hwx hu
    exact ⟨v, .next hx hv, huv⟩

/-- **Values are values in alike texts.** -/
theorem Spans.exists_alike {p : Part} (h : Spans p s rest) (hst : Alike s t) :
    ∃ rest', Spans p t rest' ∧ Alike rest rest' := by
  induction h generalizing t with
  | scalar hs hu =>
    obtain ⟨v, hv, huv⟩ := exists_skipBlank_eq hst hs (not_isHigh_of_skipScalar hu)
    obtain ⟨rest', hrest', h⟩ := keepsAlike_skipScalar _ huv hu
    exact ⟨rest', .scalar hv hrest', h⟩
  | bracket top hs _ ih =>
    obtain ⟨v, hv, huv⟩ := exists_skipBlank_eq hst hs (not_isHigh_opening top)
    obtain ⟨rest', hrest', h⟩ := ih huv
    exact ⟨rest', .bracket top hv hrest', h⟩
  | close hs =>
    obtain ⟨v, hv, huv⟩ := exists_skipBlank_eq hst hs (not_isHigh_closing _)
    exact ⟨v, .close hv, huv⟩
  | item he _ _ ihv iht =>
    obtain ⟨v, hv, huv⟩ := he.exists_alike hst
    obtain ⟨w, hw, huw⟩ := ihv huv
    obtain ⟨rest', hrest', h⟩ := iht huw
    exact ⟨rest', .item hv hw hrest', h⟩

/-! ### Objects -/

/-- Entries that are alike, in their names and in their values. -/
def AreAlike (e e' : Bytes × Bytes) : Prop :=
  Alike e.1 e'.1 ∧ Alike e.2 e'.2

theorem BehindComma.exists_alike {isFirst : Bool} (h : BehindComma isFirst s (b :: u)) (hst : Alike s t)
    (hb : isHigh b = false) : ∃ v, BehindComma isFirst t (b :: v) ∧ Alike u v := by
  rcases h with ⟨hfirst, hs⟩ | ⟨hfirst, w, hs, hw⟩
  · obtain ⟨v, hv, huv⟩ := exists_skipBlank_eq hst hs hb
    exact ⟨v, .inl ⟨hfirst, hv⟩, huv⟩
  · obtain ⟨x, hx, hwx⟩ := exists_skipBlank_eq hst hs (by decide)
    obtain ⟨v, hv, huv⟩ := exists_skipBlank_eq hwx hw hb
    exact ⟨v, .inr ⟨hfirst, x, hx, hv⟩, huv⟩

/-- **The entries of an object** are alike in alike texts. -/
theorem Entries.exists_alike {isFirst : Bool} {es : List (Bytes × Bytes)} (h : Entries isFirst s es rest)
    (hst : Alike s t) :
    ∃ es' rest', Entries isFirst t es' rest' ∧ List.Forall₂ AreAlike es es' ∧ Alike rest rest' := by
  induction h generalizing t with
  | nil hs =>
    obtain ⟨rest', hrest', h⟩ := exists_skipBlank_eq hst hs (by decide)
    exact ⟨[], rest', .nil hrest', .nil, h⟩
  | cons hnext hr ht hv _ ih =>
    obtain ⟨q', hnext', hq⟩ := hnext.exists_alike hst (by decide)
    obtain ⟨r', hr', hrr⟩ := keepsAlike_skipText hq hr
    obtain ⟨t', ht', htt⟩ := keepsAlike_colon hrr ht
    obtain ⟨u', hv', huu⟩ := hv.exists_alike htt
    obtain ⟨es', rest', hes', hall, h⟩ := ih huu
    exact ⟨_, rest', .cons hnext' hr' ht' hv' hes', .cons ⟨hq, htt⟩ hall, h⟩

end ReleasePublisher.Json
