import ReleasePublisher.Proofs.Json.Shapes
import Mathlib.Algebra.Group.Nat.Defs

/-!
# The range of numbers that are read

Digits enter a number only as long as it stays within 64 bits; with more digits, or with decimal places or an
exponent, it is a floating-point number. A natural number that is read has thus 64 bits.

## Main results

* `Json.numeral_natural_le`: a natural number that is read has 64 bits
* `Json.Field.yields_count`: so has the number in a field
-/

namespace ReleasePublisher.Json

variable {positive : Bool} {significand n : Nat} {start exponent : Int} {s rest : Bytes} {x : JsonNumber}

theorem digitsInto_le (count : Nat) (h : significand ≤ maxSignificand) :
    (digitsInto significand count s).1 ≤ maxSignificand := by
  induction s generalizing significand count with
  | nil => exact h
  | cons b s ih =>
    rw [digitsInto]
    by_cases hb : isDigit b = true
    · rw [if_pos hb]
      by_cases hnext : significand * 10 + (b.toNat - 48) ≤ maxSignificand
      · rw [if_pos hnext]
        exact ih (count + 1) hnext
      · rw [if_neg hnext]
        exact h
    · rw [if_neg hb]
      exact h

/-! ### Floating-point numbers -/

/-- A number that is not natural. -/
def NotNatural (x : JsonNumber) : Prop :=
  ∀ n, x ≠ .natural n

theorem notNatural_of_real (h : real positive significand exponent s = .ok (x, rest)) :
    NotNatural x := by
  unfold real at h
  split at h
  · obtain ⟨rfl, -⟩ := Prod.mk.inj (Except.ok.inj h)
    intro n hn
    cases hn
  · cases h

theorem notNatural_of_exponentPart (h : exponentPart positive significand start s = .ok (x, rest)) :
    NotNatural x := by
  unfold exponentPart at h
  split at h
  split at h
  · cases h
  · split at h
    · cases h
    · split at h
      · exact notNatural_of_real h
      · split at h
        · cases h
        · obtain ⟨rfl, -⟩ := Prod.mk.inj (Except.ok.inj h)
          intro n hn
          cases hn

theorem notNatural_of_exponentOrEnd
    (h : exponentOrEnd positive significand exponent s = .ok (x, rest)) : NotNatural x := by
  unfold exponentOrEnd at h
  split at h
  · exact notNatural_of_exponentPart h
  · exact notNatural_of_real h

theorem notNatural_of_decimalPart (h : decimalPart positive significand start s = .ok (x, rest)) :
    NotNatural x := by
  unfold decimalPart at h
  split at h
  split at h
  · exact notNatural_of_exponentOrEnd h
  · split at h
    · cases h
    · exact notNatural_of_exponentOrEnd h

/-! ### Natural numbers -/

theorem eq_of_integer_eq {m : Nat} (h : integer positive m = .natural n) : n = m := by
  unfold integer at h
  split at h
  · exact (JsonNumber.natural.inj h).symm
  · split at h <;> cases h

/-- **A natural number that is read** has 64 bits. -/
theorem numeral_natural_le (h : numeral positive s = .ok (.natural n, rest)) : n ≤ maxSignificand := by
  unfold numeral at h
  split at h
  · cases h
  rename_i b s
  split at h
  · cases h
  split at h
  · cases h
  have hfirst : b.toNat - 48 ≤ maxSignificand :=
    Nat.le_trans (Nat.sub_le _ _) (Nat.le_trans (Nat.le_of_lt b.toNat_lt) (by decide))
  have hle := digitsInto_le (s := s) 0 hfirst
  generalize digitsInto (b.toNat - 48) 0 s = digits at h hle
  obtain ⟨significand, count, after⟩ := digits
  have hint : ∀ {r : Bytes}, Except.ok (integer positive significand, r) =
      (Except.ok (JsonNumber.natural n, rest) : Result JsonNumber) → n ≤ maxSignificand := by
    intro r hr
    rw [eq_of_integer_eq (Prod.mk.inj (Except.ok.inj hr)).1]
    exact hle
  dsimp only at h
  split at h
  · split at h
    · exact hint h
    · exact absurd rfl (notNatural_of_real h n)
  · split at h
    · exact absurd rfl (notNatural_of_decimalPart h n)
    · split at h
      · exact absurd rfl (notNatural_of_exponentPart h n)
      · split at h
        · exact hint h
        · exact absurd rfl (notNatural_of_real h n)

/-- **The number in a field** has 64 bits, if its default has. -/
theorem Field.yields_count {name : String} {fallback : Option Nat}
    (h : ∀ n ∈ fallback, n < 2 ^ 64) :
    (Field.natural name fallback).Yields fun d => ∃ n < 2 ^ 64, d = .count n := by
  constructor
  · rintro t d ⟨rest, hread⟩
    obtain ⟨n, rfl, hvalue⟩ := (natural_read_eq_ok_iff 0).mp hread
    refine ⟨n, ?_, rfl⟩
    rcases value_eq_number_iff.mp hvalue with ⟨_, -, hn⟩ | ⟨_, _, -, -, hn⟩
    · exact Nat.lt_succ_of_le (numeral_natural_le hn)
    · exact Nat.lt_succ_of_le (numeral_natural_le hn)
  · intro d hd
    obtain ⟨n, hn, rfl⟩ := Option.map_eq_some_iff.mp hd
    exact ⟨n, h n hn, rfl⟩

end ReleasePublisher.Json
