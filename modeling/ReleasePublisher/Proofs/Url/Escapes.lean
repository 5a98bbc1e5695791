import ReleasePublisher.Proofs.Url.Path

/-!
# Escapes in a segment

A percent sign with two digits behind it is an escape: it stands for one byte. Encoding a segment for a
path adds escapes for characters, and leaves those alone that are there already. So what a segment stands
for is its own text exactly where that states no escape.

## Main definitions

* `Url.statesEscape cs`: an escape stands in a text

## Main results

* `Url.length_percentDecode_le`, `Url.percentDecode_of_not_statesEscape`: a text that states an escape
  stands for less, and another one for itself
* `Url.percentDecode_percentEncode`: encoding a segment does not change what it stands for
-/

namespace ReleasePublisher.Url

open Utf8

/-- A percent sign with two digits behind it stands in the text. -/
def statesEscape : List Char → Bool
  | '%' :: a :: b :: rest =>
    ((Hex.value? a).isSome && (Hex.value? b).isSome) || statesEscape (a :: b :: rest)
  | _ :: rest => statesEscape rest
  | [] => false

theorem statesEscape_sign_cons_cons (a b : Char) (rest : List Char) :
    statesEscape ('%' :: a :: b :: rest) =
      (((Hex.value? a).isSome && (Hex.value? b).isSome) || statesEscape (a :: b :: rest)) := rfl

theorem statesEscape_sign {cs : List Char} (h : LacksDigits cs) :
    statesEscape ('%' :: cs) = statesEscape cs := by
  rcases cs with _ | ⟨a, _ | ⟨b, rest⟩⟩
  · rfl
  · rfl
  · have hnone : ((Hex.value? a).isSome && (Hex.value? b).isSome) = false := by
      rcases h a b rest rfl with ha | hb
      · rw [ha]
        rfl
      · rw [hb, Bool.and_comm]
        rfl
    rw [statesEscape_sign_cons_cons, hnone, Bool.false_or]

theorem statesEscape_cons_of_ne {c : Char} (h : c ≠ '%') (cs : List Char) :
    statesEscape (c :: cs) = statesEscape cs := by
  rw [statesEscape]
  rintro a b rest rfl
  exact absurd rfl h

theorem statesEscape_of_not_mem {cs : List Char} (h : '%' ∉ cs) : statesEscape cs = false := by
  induction cs with
  | nil => rfl
  | cons c cs ih =>
    obtain ⟨hc, hcs⟩ := List.ne_and_not_mem_of_not_mem_cons h
    rw [statesEscape_cons_of_ne hc.symm, ih hcs]

/-! ### What a text stands for -/

theorem encodeChars_cons (c : Char) (cs : List Char) :
    encodeChars (c :: cs) = encodeChar c ++ encodeChars cs := rfl

/-- A part of a text that has as many bytes is the text. -/
theorem eq_of_sublist_of_length_le {cs ds : List Char} (h : cs.Sublist ds)
    (hle : (encodeChars ds).length ≤ (encodeChars cs).length) : cs = ds := by
  have hlength : ∀ {cs ds : List Char}, cs.Sublist ds →
      (encodeChars cs).length ≤ (encodeChars ds).length := by
    intro cs ds h
    induction h with
    | slnil => exact Nat.le_refl _
    | cons d h ih =>
      rw [encodeChars_cons, List.length_append]
      exact Nat.le_trans ih (Nat.le_add_left _ _)
    | cons_cons d h ih =>
      rw [encodeChars_cons, encodeChars_cons, List.length_append, List.length_append]
      exact Nat.add_le_add_left ih _
  induction h with
  | slnil => rfl
  | cons d h ih =>
    -- A character that is left out has at least one byte.
    obtain ⟨b, bs, hd, -⟩ := step_encodeChar d
    have hshort := hlength h
    rw [encodeChars_cons, hd, List.length_append, List.length_cons] at hle
    omega
  | cons_cons d h ih =>
    rw [encodeChars_cons, encodeChars_cons, List.length_append, List.length_append] at hle
    rw [ih (Nat.le_of_add_le_add_left hle)]

/-- **What a text stands for** is not longer than the text, and shorter where it states an escape. -/
theorem length_percentDecode_le (cs : List Char) :
    (percentDecode cs).length ≤ (encodeChars cs).length ∧
      (statesEscape cs = true → (percentDecode cs).length < (encodeChars cs).length) := by
  induction cs using escape_induction with
  | nil => exact ⟨Nat.le_refl _, fun h => (Bool.false_ne_true h).elim⟩
  | escape a b hi lo cs ha hb ih =>
    -- Three characters stand for one byte.
    have hdigits : 0 < (encodeChar a).length ∧ 0 < (encodeChar b).length := by
      obtain ⟨x, xs, hx, -⟩ := step_encodeChar a
      obtain ⟨y, ys, hy, -⟩ := step_encodeChar b
      simp [hx, hy]
    simp only [percentDecode_escape ha hb, encodeChars_cons, List.length_append, List.length_cons]
    omega
  | sign cs hcs ih =>
    have hone : (encodeChar '%').length = 1 := by decide
    rw [percentDecode_percent hcs, statesEscape_sign hcs, encodeChars_cons, List.length_append, hone,
      List.length_cons]
    refine ⟨by omega, fun h => ?_⟩
    have hlt := ih.2 h
    omega
  | other c cs hc ih =>
    rw [percentDecode_cons_of_ne hc, statesEscape_cons_of_ne hc, encodeChars_cons, List.length_append,
      List.length_append]
    refine ⟨by omega, fun h => ?_⟩
    have hlt := ih.2 h
    omega

/-- **A text that states no escape** stands for itself. -/
theorem percentDecode_of_not_statesEscape {cs : List Char} (h : statesEscape cs = false) :
    percentDecode cs = encodeChars cs := by
  induction cs using escape_induction with
  | nil => rfl
  | escape a b hi lo cs ha hb ih =>
    rw [statesEscape_sign_cons_cons, ha, hb] at h
    cases h
  | sign cs hcs ih =>
    rw [statesEscape_sign hcs] at h
    rw [percentDecode_percent hcs, ih h]
    rfl
  | other c cs hc ih =>
    rw [statesEscape_cons_of_ne hc] at h
    rw [percentDecode_cons_of_ne hc, ih h, encodeChars_cons]

/-- Its dots are its own. -/
theorem decodeDots_of_not_statesEscape {cs : List Char} (h : statesEscape cs = false) :
    decodeDots cs = cs := by
  induction cs using escape_induction with
  | nil => rfl
  | escape a b hi lo cs ha hb ih =>
    rw [statesEscape_sign_cons_cons, ha, hb] at h
    cases h
  | sign cs hcs ih =>
    rw [statesEscape_sign hcs] at h
    rcases cs with _ | ⟨a, _ | ⟨b, rest⟩⟩
    · rfl
    · rw [decodeDots, ih h]
      simp
    · by_cases ha : a = '2'
      · -- The digit behind the sign is none of an encoded dot, and nothing behind it is decoded.
        subst ha
        have hb : Hex.value? b = none := (hcs '2' b rest rfl).resolve_left (by decide)
        have hdot : (b == 'e' || b == 'E') = false := by
          have hne : ∀ d ∈ ['e', 'E'], b ≠ d := by
            rintro d hd rfl
            have hall : ['e', 'E'].all (Hex.value? · != none) = true := by decide
            have hsome := List.all_eq_true.mp hall b hd
            rw [hb] at hsome
            cases hsome
          simpa using hne
        rw [decodeDots_escape, hdot]
        rfl
      · rw [decodeDots, ih h]
        rintro e rest' - hcons
        exact ha (List.cons.inj hcons).1
  | other c cs hc ih =>
    rw [statesEscape_cons_of_ne hc] at h
    rw [decodeDots_cons_of_ne hc, ih h]

/-! ### Encoding a segment -/

/-- Digits stand for themselves in a path. -/
theorem percentChar_digit {c : Char} {n : Nat} (h : Hex.value? c = some n) :
    percentChar pathSet c = [c] ∧ c ≠ '%' := by
  have hlt : c.toNat < 0x80 := by
    have hle : ∀ {d : Char}, c ≤ d → c.toNat ≤ d.toNat := fun h => UInt32.le_iff_toNat_le.mp h
    unfold Hex.value? at h
    split at h
    · rename_i hc
      exact Nat.lt_of_le_of_lt (hle (of_decide_eq_true (Bool.and_eq_true _ _ ▸ hc).2)) (by decide)
    split at h
    · rename_i hc
      exact Nat.lt_of_le_of_lt (hle (of_decide_eq_true (Bool.and_eq_true _ _ ▸ hc).2)) (by decide)
    split at h
    · rename_i hc
      exact Nat.lt_of_le_of_lt (hle (of_decide_eq_true (Bool.and_eq_true _ _ ▸ hc).2)) (by decide)
    · cases h
  have hdigit : (Hex.value? c).isSome = true := by
    rw [h]
    rfl
  exact Utf8.forall_char (P := fun c => (Hex.value? c).isSome = true →
    percentChar pathSet c = [c] ∧ c ≠ '%') (by decide) c hlt hdigit

theorem percentDecode_flatMap_percentByte (bs : Bytes) (rest : List Char) :
    percentDecode (bs.flatMap percentByte ++ rest) = bs ++ percentDecode rest := by
  induction bs with
  | nil => rfl
  | cons b bs ih =>
    rw [List.flatMap_cons, List.append_assoc, percentDecode_percentByte, ih]
    rfl

/-- Encoding makes no digits of other characters. -/
theorem lacksDigits_percentEncode {cs : List Char} (h : LacksDigits cs) :
    LacksDigits (percentEncode pathSet cs) := by
  intro a b rest hcs
  cases ha : Hex.value? a with
  | none => exact .inl rfl
  | some hi =>
    cases hb : Hex.value? b with
    | none => exact .inr rfl
    | some lo =>
      obtain ⟨cs', rfl, hcs'⟩ := percentEncode_eq_cons (percentChar_digit ha).2 hcs
      obtain ⟨cs'', rfl, -⟩ := percentEncode_eq_cons (percentChar_digit hb).2 hcs'
      rcases h a b cs'' rfl with h | h
      · cases ha.symm.trans h
      · cases hb.symm.trans h

/-- **Encoding a segment** does not change what it stands for. -/
theorem percentDecode_percentEncode (cs : List Char) :
    percentDecode (percentEncode pathSet cs) = percentDecode cs := by
  have hsign : percentChar pathSet '%' = ['%'] := by decide
  induction cs using escape_induction with
  | nil => rfl
  | escape a b hi lo cs ha hb ih =>
    rw [percentEncode_cons, percentEncode_cons, percentEncode_cons, hsign, (percentChar_digit ha).1,
      (percentChar_digit hb).1]
    show percentDecode ('%' :: a :: b :: percentEncode pathSet cs) = _
    rw [percentDecode_escape ha hb, percentDecode_escape ha hb, ih]
  | sign cs hcs ih =>
    rw [percentEncode_cons, hsign, List.singleton_append, percentDecode_percent hcs,
      percentDecode_percent (lacksDigits_percentEncode hcs), ih]
  | other c cs hc ih =>
    rw [percentEncode_cons, percentDecode_cons_of_ne hc, ← ih]
    unfold percentChar
    split
    · exact percentDecode_cons_of_ne hc _
    · exact percentDecode_flatMap_percentByte _ _

end ReleasePublisher.Url
