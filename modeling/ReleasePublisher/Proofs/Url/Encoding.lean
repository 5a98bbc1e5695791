import ReleasePublisher.Proofs.Text.Utf8Reading
import ReleasePublisher.Url.Percent

/-!
# Percent encoding, written and read

What is written of a part of an address stands for itself when it is read as that part again, since
percent signs and digits are encoded nowhere. Reading the bytes that encoded characters stand for goes
from the left, and a character that is no digit ends what stands before it.

## Main definitions

* `Url.LeavesEscapes set`: percent signs and digits are not encoded
* `Url.IsEncoded set cs`: the characters stand for themselves
* `Url.LacksDigits cs`: a percent sign before the text begins no escape

## Main results

* `Url.isEncoded_percentEncode`, `Url.IsEncoded.percentEncode_eq`: encoding again changes nothing
* `Url.escape_induction`: reading from the left
* `Url.percentDecode_percentByte`, `Url.percentDecode_of_not_mem`, `Url.percentDecode_append`: what is read
-/

namespace ReleasePublisher.Url

open Utf8

/-! ### Writing -/

/-- Percent signs and the digits behind them are not encoded. -/
def LeavesEscapes (set : Char → Bool) : Prop :=
  set '%' = false ∧ ∀ n < 16, set (Hex.upperDigit n) = false

instance (set : Char → Bool) : Decidable (LeavesEscapes set) :=
  inferInstanceAs (Decidable (_ ∧ _))

/-- **The characters stand for themselves** in a part of an address. -/
def IsEncoded (set : Char → Bool) (cs : List Char) : Prop :=
  ∀ c ∈ cs, c.toNat < 0x80 ∧ set c = false

variable {set : Char → Bool} {cs ds : List Char}

theorem IsEncoded.append (h : IsEncoded set cs) (h' : IsEncoded set ds) : IsEncoded set (cs ++ ds) := by
  intro c hc
  rcases List.mem_append.mp hc with hc | hc
  · exact h c hc
  · exact h' c hc

/-- What stands for itself still does where less is encoded. -/
theorem IsEncoded.mono {set' : Char → Bool} (h : IsEncoded set cs)
    (hs : ∀ c, set' c = true → set c = true) : IsEncoded set' cs := by
  intro c hc
  obtain ⟨hlt, hset⟩ := h c hc
  refine ⟨hlt, ?_⟩
  cases h' : set' c with
  | false => rfl
  | true => rw [hs c h'] at hset; cases hset

theorem IsEncoded.not_mem (h : IsEncoded set cs) {c : Char} (hc : set c = true) : c ∉ cs := by
  intro hmem
  rw [(h c hmem).2] at hc
  cases hc

/-- **What stands for itself is written as it is.** -/
theorem IsEncoded.percentEncode_eq (h : IsEncoded set cs) : percentEncode set cs = cs := by
  induction cs with
  | nil => rfl
  | cons c cs ih =>
    obtain ⟨hc, hcs⟩ := List.forall_mem_cons.mp h
    have hchar : percentChar set c = [c] := by
      unfold percentChar
      rw [if_pos (by simp [hc])]
    show percentChar set c ++ percentEncode set cs = _
    rw [hchar, ih hcs]
    rfl

theorem upperDigit_lt : ∀ n < 16, (Hex.upperDigit n).toNat < 0x80 := by decide

theorem value?_upperDigit : ∀ n < 16, Hex.value? (Hex.upperDigit n) = some n := by decide

theorem toNat_div_lt (b : UInt8) : b.toNat / 16 < 16 := by
  have hb : b.toNat < 256 := b.toNat_lt
  omega

theorem toNat_mod_lt (b : UInt8) : b.toNat % 16 < 16 := Nat.mod_lt _ (by decide)

theorem isEncoded_percentByte (h : LeavesEscapes set) (b : UInt8) : IsEncoded set (percentByte b) := by
  intro c hc
  simp only [percentByte, List.mem_cons, List.not_mem_nil, or_false] at hc
  rcases hc with rfl | rfl | rfl
  · exact ⟨by decide, h.1⟩
  · exact ⟨upperDigit_lt _ (toNat_div_lt b), h.2 _ (toNat_div_lt b)⟩
  · exact ⟨upperDigit_lt _ (toNat_mod_lt b), h.2 _ (toNat_mod_lt b)⟩

/-- **What is written stands for itself.** -/
theorem isEncoded_percentEncode (h : LeavesEscapes set) (cs : List Char) :
    IsEncoded set (percentEncode set cs) := by
  intro d hd
  obtain ⟨c, -, hd⟩ := List.mem_flatMap.mp hd
  unfold percentChar at hd
  split at hd
  · rename_i hc
    obtain rfl : d = c := by simpa using hd
    simpa using hc
  · obtain ⟨b, -, hb⟩ := List.mem_flatMap.mp hd
    exact isEncoded_percentByte h b d hb

/-- An encoded text has the characters of the text, percent signs and digits. -/
theorem mem_percentEncode {c : Char} (h : c ∈ percentEncode set cs) :
    c ∈ cs ∨ c = '%' ∨ ∃ n < 16, c = Hex.upperDigit n := by
  obtain ⟨d, hd, hc⟩ := List.mem_flatMap.mp h
  unfold percentChar at hc
  split at hc
  · obtain rfl := List.mem_singleton.mp hc
    exact .inl hd
  · obtain ⟨b, -, hb⟩ := List.mem_flatMap.mp hc
    simp only [percentByte, List.mem_cons, List.not_mem_nil, or_false] at hb
    rcases hb with rfl | rfl | rfl
    · exact .inr (.inl rfl)
    · exact .inr (.inr ⟨_, toNat_div_lt b, rfl⟩)
    · exact .inr (.inr ⟨_, toNat_mod_lt b, rfl⟩)

theorem percentEncode_ne_nil (h : cs ≠ []) : percentEncode set cs ≠ [] := by
  obtain ⟨c, cs, rfl⟩ := List.exists_cons_of_ne_nil h
  have hchar : percentChar set c ≠ [] := by
    unfold percentChar
    split
    · simp
    · obtain ⟨b, bs, hc, -⟩ := step_encodeChar c
      simp [hc, percentByte]
  intro hnil
  exact hchar (List.append_eq_nil_iff.mp hnil).1

/-! ### Reading -/

theorem percentDecode_sign_cons_cons (a b : Char) (rest : List Char) :
    percentDecode ('%' :: a :: b :: rest) = match Hex.value? a, Hex.value? b with
      | some hi, some lo => UInt8.ofNat (hi * 16 + lo) :: percentDecode rest
      | _, _ => 0x25 :: percentDecode (a :: b :: rest) := rfl

theorem percentDecode_escape {a b : Char} {hi lo : Nat} (ha : Hex.value? a = some hi)
    (hb : Hex.value? b = some lo) (rest : List Char) :
    percentDecode ('%' :: a :: b :: rest) = UInt8.ofNat (hi * 16 + lo) :: percentDecode rest := by
  rw [percentDecode_sign_cons_cons, ha, hb]

/-- A byte is read from the digits that it was written with. -/
theorem percentDecode_percentByte (b : UInt8) (rest : List Char) :
    percentDecode (percentByte b ++ rest) = b :: percentDecode rest := by
  have hread := percentDecode_escape (value?_upperDigit _ (toNat_div_lt b))
    (value?_upperDigit _ (toNat_mod_lt b)) rest
  rwa [Nat.mul_comm, Nat.div_add_mod, UInt8.ofNat_toNat] at hread

theorem percentDecode_cons_of_ne {c : Char} (h : c ≠ '%') (rest : List Char) :
    percentDecode (c :: rest) = encodeChar c ++ percentDecode rest := by
  rw [percentDecode]
  rintro a b rest' rfl
  exact absurd rfl h

/-- Without percent signs the characters stand for their own bytes. -/
theorem percentDecode_of_not_mem (h : '%' ∉ cs) : percentDecode cs = encodeChars cs := by
  induction cs with
  | nil => rfl
  | cons c cs ih =>
    obtain ⟨hc, hcs⟩ := List.ne_and_not_mem_of_not_mem_cons h
    rw [percentDecode_cons_of_ne hc.symm, ih hcs]
    rfl

/-- No two digits stand at the start, so that a percent sign before the text is none of an escape. -/
def LacksDigits (cs : List Char) : Prop :=
  ∀ a b rest, cs = a :: b :: rest → Hex.value? a = none ∨ Hex.value? b = none

/-- A percent sign without two digits stands for itself. -/
theorem percentDecode_percent {cs : List Char} (h : LacksDigits cs) :
    percentDecode ('%' :: cs) = 0x25 :: percentDecode cs := by
  rcases cs with _ | ⟨a, _ | ⟨b, rest⟩⟩
  · rfl
  · rfl
  · rw [percentDecode_sign_cons_cons]
    rcases h a b rest rfl with ha | hb
    · rw [ha]
    · rw [hb]
      cases Hex.value? a <;> rfl

/-- **Reading from the left**: an escape, a percent sign that begins none, or another character. -/
@[elab_as_elim]
theorem escape_induction {P : List Char → Prop} (nil : P [])
    (escape : ∀ a b hi lo rest, Hex.value? a = some hi → Hex.value? b = some lo → P rest →
      P ('%' :: a :: b :: rest))
    (sign : ∀ cs, LacksDigits cs → P cs → P ('%' :: cs))
    (other : ∀ c cs, c ≠ '%' → P cs → P (c :: cs)) (cs : List Char) : P cs := by
  induction cs using percentDecode.induct with
  | case1 => exact nil
  | case2 a b rest hi lo hb ha ih => exact escape a b hi lo rest ha hb ih
  | case3 a b rest hnot ih =>
    refine sign _ ?_ ih
    rintro _ _ _ ⟨⟩
    cases ha : Hex.value? a with
    | none => exact .inl rfl
    | some hi =>
      cases hb : Hex.value? b with
      | none => exact .inr rfl
      | some lo => exact (hnot hi lo ha hb).elim
  | case4 c rest hne ih =>
    by_cases hc : c = '%'
    · subst hc
      exact sign rest (fun a b r hr => (hne a b r rfl hr).elim) ih
    · exact other c rest hc ih

/-- **A character that is no digit ends what stands before it.** -/
theorem percentDecode_append {c : Char} (h : Hex.value? c = none) (cs rest : List Char) :
    percentDecode (cs ++ c :: rest) = percentDecode cs ++ percentDecode (c :: rest) := by
  induction cs using escape_induction with
  | nil => rfl
  | escape a b hi lo cs ha hb ih =>
    rw [List.cons_append, List.cons_append, List.cons_append, percentDecode_escape ha hb,
      percentDecode_escape ha hb, ih]
    rfl
  | sign cs hcs ih =>
    -- Where less than two characters follow the sign, the next one is the character that is no digit.
    have hlacks : LacksDigits (cs ++ c :: rest) := by
      intro a b more hmore
      rcases cs with _ | ⟨x, _ | ⟨y, cs⟩⟩
      · cases hmore
        exact .inl h
      · cases hmore
        exact .inr h
      · cases hmore
        exact hcs a b cs rfl
    rw [List.cons_append, percentDecode_percent hlacks, percentDecode_percent hcs, ih]
    rfl
  | other d cs hd ih =>
    rw [List.cons_append, percentDecode_cons_of_ne hd, percentDecode_cons_of_ne hd, ih,
      List.append_assoc]

end ReleasePublisher.Url
