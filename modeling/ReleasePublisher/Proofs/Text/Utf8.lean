import ReleasePublisher.Text.Utf8

/-!
# Bytes of one character

A byte below `0x80` stands for one character only: no longer form has such a byte in it. Thus a
separator can be looked for in the bytes of a text as well as in its characters.

## Main results

* `Utf8.encodeChar_of_mem`: a byte below `0x80` is a character of its own
* `Utf8.mem_encode`, `Utf8.encodeChars_eq_cons`: such bytes in texts, and at the start of texts
-/

namespace ReleasePublisher.Utf8

theorem encodeChars_append (l m : List Char) :
    encodeChars (l ++ m) = encodeChars l ++ encodeChars m :=
  List.flatMap_append

theorem encode_append (s t : String) : encode (s ++ t) = encode s ++ encode t := by
  rw [encode, String.toList_append, encodeChars_append, encode, encode]

theorem encodeChar_ne_nil (c : Char) : encodeChar c ≠ [] := by
  unfold encodeChar
  dsimp only
  split
  · simp
  split
  · simp
  split <;> simp

/-- Bytes of longer forms are not below `0x80`. -/
theorem not_lt_ofNat {n : Nat} (h : 0x80 ≤ n) (hn : n < 256) : ¬ UInt8.ofNat n < 0x80 := by
  rw [UInt8.lt_iff_toNat_lt, UInt8.toNat_ofNat', Nat.mod_eq_of_lt hn]
  exact Nat.not_lt.mpr h

/-- **A byte below `0x80` is a character of its own.** -/
theorem encodeChar_of_mem {c : Char} {b : UInt8} (h : b ∈ encodeChar c) (hb : b < 0x80) :
    encodeChar c = [b] ∧ c.toNat = b.toNat := by
  have htail : ∀ k, b ≠ UInt8.ofNat (0x80 + c.toNat / k % 64) := by
    rintro k rfl
    have hk : c.toNat / k % 64 < 64 := Nat.mod_lt _ (by decide)
    exact not_lt_ofNat (by omega) (by omega) hb
  by_cases h₁ : c.toNat < 0x80
  · simp only [encodeChar, h₁, if_true, List.mem_singleton] at h ⊢
    refine ⟨by rw [h], ?_⟩
    rw [h, UInt8.toNat_ofNat', Nat.mod_eq_of_lt (by omega)]
  by_cases h₂ : c.toNat < 0x800
  · simp only [encodeChar, h₁, h₂, if_true, if_false, List.mem_cons, List.not_mem_nil, htail,
      or_false] at h
    subst h
    exact absurd hb (not_lt_ofNat (by omega) (by omega))
  by_cases h₃ : c.toNat < 0x10000
  · simp only [encodeChar, h₁, h₂, h₃, if_true, if_false, List.mem_cons, List.not_mem_nil, htail,
      or_false] at h
    subst h
    exact absurd hb (not_lt_ofNat (by omega) (by omega))
  · have hmax : c.toNat < 0x110000 := by
      rcases c.valid with h | ⟨-, h⟩
      · exact Nat.lt_trans h (by decide)
      · exact h
    simp only [encodeChar, h₁, h₂, h₃, if_false, List.mem_cons, List.not_mem_nil, htail,
      or_false] at h
    subst h
    exact absurd hb (not_lt_ofNat (by omega) (by omega))

/-- A byte below `0x80` in a text comes from its character. -/
theorem mem_encode {s : String} {b : UInt8} (h : b ∈ encode s) (hb : b < 0x80) :
    ∃ c ∈ s.toList, c.toNat = b.toNat := by
  obtain ⟨c, hc, hbc⟩ := List.mem_flatMap.mp h
  exact ⟨c, hc, (encodeChar_of_mem hbc hb).2⟩

/-- A byte below `0x80` at the start of a text is its first character. -/
theorem encodeChars_eq_cons {l : List Char} {b : UInt8} {bs : Bytes} (h : encodeChars l = b :: bs)
    (hb : b < 0x80) : ∃ c r, l = c :: r ∧ c.toNat = b.toNat ∧ encodeChars r = bs := by
  cases l with
  | nil => cases h
  | cons c r =>
    have hcons : encodeChar c ++ encodeChars r = b :: bs := h
    have hmem : b ∈ encodeChar c := by
      cases he : encodeChar c with
      | nil => exact absurd he (encodeChar_ne_nil c)
      | cons b' _ =>
        rw [he, List.cons_append] at hcons
        rw [(List.cons.inj hcons).1]
        exact List.mem_cons_self
    obtain ⟨hc, hn⟩ := encodeChar_of_mem hmem hb
    rw [hc] at hcons
    exact ⟨c, r, rfl, hn, (List.cons.inj hcons).2⟩

theorem encodeChars_eq_nil {l : List Char} (h : encodeChars l = []) : l = [] := by
  cases l with
  | nil => rfl
  | cons c r => exact absurd (List.append_eq_nil_iff.mp h).1 (encodeChar_ne_nil c)

end ReleasePublisher.Utf8
