import ReleasePublisher.Json.Parser
import ReleasePublisher.Json.Record
import ReleasePublisher.Proofs.Json.Grammar
import Mathlib.Tactic.SplitIfs

/-!
# Readers of words, numbers and strings

Where a word, a number or a string is read, one stands there: a reader that builds the value takes the same
piece of the text as the reader that passes over it.

## Main definitions

* `Json.Reads item`: whatever a reader takes is a value

## Main results

* `Json.skipText_of_textBody`, `Json.skipNumeral_of_numeral`: strings and numbers
* `Json.skipScalar_of_scalar`: every value that holds no other
-/

namespace ReleasePublisher.Json

/-- **Whatever a reader takes is a value.** -/
def Reads {α : Type} (item : Bytes → Result α) : Prop :=
  ∀ s a rest, item s = .ok (a, rest) → Spans .value s rest

/-! ### Strings -/

/-- A `\u` escape has four digits, or two escapes of four digits make a pair. -/
theorem unicodeEscape_eq_ok {s bs : Bytes} {n : Nat} (h : unicodeEscape s = .ok (bs, n)) :
    (∃ a, fourDigits s = .ok a) ∧
      (n = 4 ∨ n = 10 ∧ ∃ t a, s.drop 4 = 0x5C :: 0x75 :: t ∧ fourDigits t = .ok a) := by
  obtain ⟨a, ha, h⟩ := bind_eq_ok.mp h
  refine ⟨⟨a, ha⟩, ?_⟩
  dsimp only at h
  split at h
  · cases h
  · split at h
    · cases h
      exact .inl rfl
    · split at h
      · cases h
      · rename_i b after hb
        split at h
        · cases h
        · split at h
          · cases h
          · rename_i hb' _ c t
            split at h
            · cases h
            · rename_i _ hc'
              obtain ⟨m, hm, h⟩ := bind_eq_ok.mp h
              split at h
              · cases h
              · obtain ⟨-, rfl⟩ := Prod.mk.inj (Except.ok.inj h)
                simp only [bne_iff_ne, ne_eq, Decidable.not_not] at hb' hc'
                exact .inr ⟨rfl, t, m, by rw [hb, hb', hc'], hm⟩

theorem skipText_fourDigits {s : Bytes} {a : Nat} (h : fourDigits s = .ok a) :
    skipText (0x5C :: 0x75 :: s) = skipText (s.drop 4) := by
  rw [skipText]
  simp [simpleEscape?, h]

/-- An escape is passed over as it is read. -/
theorem skipText_of_escape {s bs : Bytes} {n : Nat} (h : escape s = .ok (bs, n)) :
    skipText (0x5C :: s) = skipText (s.drop n) := by
  unfold escape at h
  split at h
  · cases h
  · rename_i b t
    split at h
    · rename_i c hc
      cases h
      rw [skipText]
      simp [hc]
    · split at h
      · rename_i hb
        obtain ⟨⟨bs', m⟩, hm, hn⟩ := map_eq_ok.mp h
        cases hn
        obtain rfl := eq_of_beq hb
        obtain ⟨⟨a, ha⟩, rfl | ⟨rfl, u, a', hu, ha'⟩⟩ := unicodeEscape_eq_ok hm
        · exact skipText_fourDigits ha
        · -- Of a pair, both halves are passed over one after the other.
          calc skipText (0x5C :: 0x75 :: t) = skipText (t.drop 4) := skipText_fourDigits ha
            _ = skipText (u.drop 4) := by rw [hu, skipText_fourDigits ha']
            _ = skipText (t.drop 10) := by
              rw [show t.drop 10 = (t.drop 4).drop 6 by rw [List.drop_drop], hu]
              rfl
      · cases h

theorem skipText_of_textBytes {s bs rest : Bytes} (h : textBytes s = .ok (bs, rest)) :
    skipText s = .ok rest := by
  induction s using textBytes.induct generalizing bs with
  | case1 => simp [textBytes] at h
  | case2 b s hb =>
    rw [textBytes, if_pos hb] at h
    cases h
    rw [skipText.eq_def]
    simp [hb]
  | case3 b s hb hb' f hf =>
    rw [textBytes, if_neg hb, if_pos hb', hf] at h
    cases h
  | case4 b s hb hb' bs' n he ih =>
    rw [textBytes, if_neg hb, if_pos hb', he] at h
    obtain ⟨⟨more, r⟩, hm, hr⟩ := map_eq_ok.mp h
    cases hr
    obtain rfl := eq_of_beq hb'
    rw [skipText_of_escape he]
    exact ih hm
  | case5 b s hb hb' hlt =>
    rw [textBytes, if_neg hb, if_neg hb', if_pos hlt] at h
    cases h
  | case6 b s hb hb' hlt ih =>
    rw [textBytes, if_neg hb, if_neg hb', if_neg hlt] at h
    obtain ⟨⟨more, r⟩, hm, hr⟩ := map_eq_ok.mp h
    cases hr
    rw [skipText.eq_def]
    simp only [hb, hb', hlt]
    exact ih hm

/-- **A string is passed over as it is read.** -/
theorem skipText_of_textBody {s rest : Bytes} {t : String} (h : textBody s = .ok (t, rest)) :
    skipText s = .ok rest := by
  unfold textBody at h
  split at h
  · cases h
  · rename_i bs r hr
    split at h
    · cases h
      exact skipText_of_textBytes hr
    · cases h

/-! ### Numbers -/

/-- Digits that do not enter the significand are still there. -/
theorem dropWhile_digitsInto (significand count : Nat) (s : Bytes) :
    (digitsInto significand count s).2.2.dropWhile isDigit = s.dropWhile isDigit := by
  fun_induction digitsInto significand count s <;> simp_all

theorem digitsInto_of_not_startsDigit {s : Bytes} (h : startsDigit s = false)
    (significand count : Nat) : digitsInto significand count s = (significand, count, s) := by
  cases s with
  | nil => rfl
  | cons b s =>
    rw [startsDigit] at h
    simp [digitsInto, h]

theorem dropWhile_exponentDigits (e : Nat) (s : Bytes) :
    (exponentDigits e s).2.dropWhile isDigit = s.dropWhile isDigit := by
  fun_induction exponentDigits e s <;> simp_all

/-- An exponent that is read exactly has no digit behind it. -/
theorem exponentDigits_eq_some {e n : Nat} {s rest : Bytes}
    (h : exponentDigits e s = (some n, rest)) : rest = s.dropWhile isDigit := by
  fun_induction exponentDigits e s with
  | case1 => simp_all
  | case2 => simp_all
  | case3 => simp_all
  | case4 e b s hb =>
    obtain rfl := (Prod.mk.inj h).2
    rw [List.dropWhile_cons_of_neg hb]

theorem real_rest {positive : Bool} {significand : Nat} {exponent : Int} {s rest : Bytes}
    {n : JsonNumber} (h : real positive significand exponent s = .ok (n, rest)) : rest = s := by
  unfold real at h
  split at h
  · cases h
    rfl
  · cases h

theorem skipExponent_of_exponentPart {positive : Bool} {significand : Nat} {start : Int}
    {s rest : Bytes} {n : JsonNumber}
    (h : exponentPart positive significand start s = .ok (n, rest)) : skipExponent s = .ok rest := by
  unfold exponentPart at h
  unfold skipExponent
  generalize exponentSign s = x at h ⊢
  rcases x with ⟨up, t⟩
  dsimp only at h ⊢
  cases t with
  | nil => cases h
  | cons b t =>
    dsimp only at h ⊢
    by_cases hb : isDigit b = true
    · rw [if_neg (by simp [hb])] at h
      rw [if_pos hb]
      have hdrop : (b :: t).dropWhile isDigit = t.dropWhile isDigit := by simp [hb]
      split at h
      · rename_i e r he
        rw [real_rest h, exponentDigits_eq_some he, hdrop]
      · rename_i r he
        have hr := dropWhile_exponentDigits 0 (b :: t)
        rw [he, hdrop] at hr
        split at h
        · cases h
        · cases h
          rw [← hr]
    · rw [if_pos (by simp [hb])] at h
      cases h

theorem skip_of_exponentOrEnd {positive : Bool} {significand : Nat} {exponent : Int} {s rest : Bytes}
    {n : JsonNumber} (h : exponentOrEnd positive significand exponent s = .ok (n, rest)) :
    (if startsExponent s then skipExponent (s.drop 1) else .ok s) = .ok rest := by
  unfold exponentOrEnd at h
  split at h
  · rename_i hs
    rw [if_pos hs]
    exact skipExponent_of_exponentPart h
  · rename_i hs
    rw [if_neg hs, real_rest h]

theorem skipFraction_of_decimalPart {positive : Bool} {significand : Nat} {start : Int}
    {s rest : Bytes} {n : JsonNumber}
    (h : decimalPart positive significand start s = .ok (n, rest)) :
    skipFraction (0x2E :: s) = .ok rest := by
  have hdrop := dropWhile_digitsInto significand 0 s
  have hnone := digitsInto_of_not_startsDigit (s := s)
  unfold decimalPart at h
  generalize hx : digitsInto significand 0 s = x at h hdrop
  rcases x with ⟨m, count, t⟩
  dsimp only at h hdrop
  cases hs : startsDigit s with
  | false =>
    -- Without a digit there is no number.
    obtain ⟨-, rfl, rfl⟩ := hx.symm.trans (hnone hs significand 0)
    simp [hs] at h
  | true =>
    simp only [skipFraction, hs]
    split at h
    · rw [hdrop] at h
      exact skip_of_exponentOrEnd h
    · rename_i ht
      split at h
      · cases h
      · have htd : t.dropWhile isDigit = t := by
          cases t with
          | nil => rfl
          | cons b t => exact List.dropWhile_cons_of_neg ht
        rw [← hdrop, htd]
        exact skip_of_exponentOrEnd h

/-- A number that does not begin with a needless zero is its digits and what follows them. -/
theorem skipNumeral_eq {b : UInt8} {s : Bytes} (hb : isDigit b = true)
    (hzero : (b == 0x30 && startsDigit s) = false) :
    skipNumeral (b :: s) = skipFraction (s.dropWhile isDigit) := by
  rw [skipNumeral, if_neg (by simp [hb])]
  cases h0 : b == 0x30 with
  | false => rfl
  | true =>
    have hs : startsDigit s = false := by simpa [h0] using hzero
    cases s with
    | nil => rfl
    | cons c s =>
      rw [startsDigit] at hs
      simp [startsDigit, hs]

/-- **A number is passed over as it is read.** -/
theorem skipNumeral_of_numeral {positive : Bool} {s rest : Bytes} {n : JsonNumber}
    (h : numeral positive s = .ok (n, rest)) : skipNumeral s = .ok rest := by
  unfold numeral at h
  cases s with
  | nil => cases h
  | cons b s =>
    dsimp only at h
    rw [dropWhile_digitsInto] at h
    split at h
    · cases h
    · rename_i hb
      split at h
      · cases h
      · rename_i hzero
        rw [skipNumeral_eq (by simpa using hb) (by simpa using hzero)]
        generalize s.dropWhile isDigit = end' at h ⊢
        cases end' with
        | nil =>
          dsimp only at h
          split at h
          · cases h
            rfl
          · rw [real_rest h]
            rfl
        | cons c t =>
          dsimp only at h
          split at h
          · rename_i hc
            rw [eq_of_beq hc]
            exact skipFraction_of_decimalPart h
          · rename_i hc
            rw [skipFraction, if_neg hc]
            split at h
            · rename_i he
              rw [if_pos he]
              exact skipExponent_of_exponentPart h
            · rename_i he
              rw [if_neg he]
              split at h
              · cases h
                rfl
              · rw [real_rest h]

/-! ### Values that hold no other -/

/-- **What is read as a value that holds no other** is passed over as one. -/
theorem skipScalar_of_scalar {b : UInt8} {s rest : Bytes} {v : Json}
    (h : scalar b s = .ok (v, rest)) : skipScalar b s = .ok rest := by
  unfold scalar at h
  unfold skipScalar
  split_ifs at h ⊢
  iterate 3
    · obtain ⟨r, hr, he⟩ := map_eq_ok.mp h
      cases he
      exact hr
  iterate 2
    · obtain ⟨⟨n, r⟩, hr, he⟩ := map_eq_ok.mp h
      cases he
      exact skipNumeral_of_numeral hr
  · obtain ⟨⟨t, r⟩, hr, he⟩ := map_eq_ok.mp h
    cases he
    exact skipText_of_textBody hr

theorem scalar_eq_text_iff {b : UInt8} {s rest : Bytes} {t : String} :
    scalar b s = .ok (.text t, rest) ↔ b = 0x22 ∧ textBody s = .ok (t, rest) := by
  have hq : isDigit 0x22 = false := by decide
  fun_cases scalar b s <;> simp_all [map_eq_ok]
  rintro rfl
  simp_all

theorem scalar_eq_number_iff {b : UInt8} {s rest : Bytes} {n : JsonNumber} :
    scalar b s = .ok (.number n, rest) ↔
      b = 0x2D ∧ numeral false s = .ok (n, rest) ∨
        isDigit b = true ∧ numeral true (b :: s) = .ok (n, rest) := by
  have hletter : isDigit 0x6E = false ∧ isDigit 0x74 = false ∧ isDigit 0x66 = false ∧
      isDigit 0x2D = false := by decide
  fun_cases scalar b s <;> simp_all [map_eq_ok]

theorem scalar_eq_null_iff {b : UInt8} {s rest : Bytes} :
    scalar b s = .ok (.null, rest) ↔ b = 0x6E ∧ word [0x75, 0x6C, 0x6C] s = .ok rest := by
  fun_cases scalar b s <;> simp_all [map_eq_ok]

end ReleasePublisher.Json
