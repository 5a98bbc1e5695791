import ReleasePublisher.Proofs.Text.Utf8

/-!
# Reading a text again

The bytes of a text are well formed, and reading them gives the text: one step of the reader takes
exactly the bytes of one character. Both forms of reading are this step, done again and again.

## Main definitions

* `Utf8.StepReads b rest c n`: what a step reads
* `Utf8.IsValid bytes`: the bytes are those of a text

## Main results

* `Utf8.forall_char`, `Utf8.forall_byte`: what holds by the number holds of characters and bytes
* `Utf8.step_encodeChar`: one step reads one character
* `Utf8.decodeChars?_encodeChars`, `Utf8.lossy_encode`: both forms of reading give the text
* `Utf8.exists_tails_of_step`: what one step reads is a character
* `Utf8.mem_of_decodeChars?`: a byte below `0x80` in well-formed bytes is a character of the text
* `Utf8.decodeChars?_eq_some_iff`: bytes are read as the text that has them
-/

namespace ReleasePublisher.Utf8

/-! ### Finitely many characters and bytes -/

theorem forall_char {bound : Nat} {P : Char → Prop} (h : ∀ n < bound, P (Char.ofNat n)) (c : Char)
    (hc : c.toNat < bound) : P c := by
  have hn := h c.toNat hc
  rwa [Char.ofNat_toNat] at hn

theorem forall_byte {P : UInt8 → Prop} (h : ∀ n < 256, P (UInt8.ofNat n)) (b : UInt8) : P b := by
  have hn := h b.toNat b.toNat_lt
  rwa [UInt8.ofNat_toNat] at hn

/-! ### Steps by the length of the character -/

section

variable {b b₁ b₂ b₃ : UInt8} {rest : Bytes}

theorem step_one (h : b.toNat < 0x80) : step b rest = (some (Char.ofNat b.toNat), 0) := by
  unfold step
  rw [if_pos (UInt8.lt_iff_toNat_lt.mpr h)]

theorem not_lt_of_le (k : UInt8) (h : k.toNat ≤ b.toNat) : ¬ b < k := by
  rw [UInt8.lt_iff_toNat_lt]
  omega

/-- A byte that starts a longer character. -/
theorem step_long (h : 0xC2 ≤ b.toNat) (h' : b.toNat ≤ 0xF4) : ¬ b < 0x80 ∧ ¬ (b < 0xC2 || 0xF4 < b) := by
  refine ⟨not_lt_of_le 0x80 (by show 0x80 ≤ _; omega), ?_⟩
  simp only [Bool.or_eq_true, decide_eq_true_eq, not_or]
  exact ⟨not_lt_of_le 0xC2 h, by rw [UInt8.lt_iff_toNat_lt]; exact Nat.not_lt.mpr h'⟩

theorem step_two (h : 0xC2 ≤ b.toNat) (h' : b.toNat < 0xE0) (h₁ : isTail b₁ = true) :
    step b (b₁ :: rest) = (some (Char.ofNat (b.toNat % 32 * 64 + tailValue b₁)), 1) := by
  obtain ⟨hb, hb'⟩ := step_long h (by omega)
  unfold step
  rw [if_neg hb, if_neg hb']
  dsimp only
  rw [if_pos (UInt8.lt_iff_toNat_lt.mpr h'), if_pos h₁]

theorem step_three (h : 0xE0 ≤ b.toNat) (h' : b.toNat < 0xF0) (h₁ : isSecond b b₁ = true)
    (h₂ : isTail b₂ = true) :
    step b (b₁ :: b₂ :: rest) =
      (some (Char.ofNat (b.toNat % 16 * 4096 + tailValue b₁ * 64 + tailValue b₂)), 2) := by
  obtain ⟨hb, hb'⟩ := step_long (b := b) (by omega) (by omega)
  unfold step
  rw [if_neg hb, if_neg hb']
  dsimp only
  rw [if_neg (not_lt_of_le 0xE0 h), h₁, h₂, if_neg (by simp), if_neg (by simp),
    if_pos (UInt8.lt_iff_toNat_lt.mpr h')]

theorem step_four (h : 0xF0 ≤ b.toNat) (h' : b.toNat ≤ 0xF4) (h₁ : isSecond b b₁ = true)
    (h₂ : isTail b₂ = true) (h₃ : isTail b₃ = true) :
    step b (b₁ :: b₂ :: b₃ :: rest) =
      (some (Char.ofNat (b.toNat % 8 * 262144 + tailValue b₁ * 4096 + tailValue b₂ * 64
        + tailValue b₃)), 3) := by
  obtain ⟨hb, hb'⟩ := step_long (b := b) (by omega) h'
  unfold step
  rw [if_neg hb, if_neg hb']
  dsimp only
  rw [if_neg (not_lt_of_le 0xE0 (by show 0xE0 ≤ _; omega)), h₁, h₂, if_neg (by simp), if_neg (by simp),
    if_neg (not_lt_of_le 0xF0 h), if_pos h₃]

end

/-! ### One character -/

theorem toNat_ofNat_of_lt {n : Nat} (h : n < 256) : (UInt8.ofNat n).toNat = n := by
  rw [UInt8.toNat_ofNat', Nat.mod_eq_of_lt h]

/-- A byte that continues a character, and what it contributes. -/
theorem isTail_ofNat (n : Nat) :
    isTail (UInt8.ofNat (0x80 + n % 64)) = true ∧ tailValue (UInt8.ofNat (0x80 + n % 64)) = n % 64 := by
  have hb := toNat_ofNat_of_lt (show 0x80 + n % 64 < 256 by omega)
  constructor
  · simp only [isTail, Bool.and_eq_true, decide_eq_true_eq, UInt8.le_iff_toNat_le, hb]
    show 0x80 ≤ _ ∧ _ ≤ 0xBF
    omega
  · rw [tailValue, hb]
    omega

/-- The second byte of a character of three or four bytes is not one of an overlong form, of a
surrogate or of a number that is too large. -/
theorem isSecond_of_toNat (b second : UInt8) (h : 0x80 ≤ second.toNat) (h' : second.toNat ≤ 0xBF)
    (hE0 : b.toNat = 0xE0 → 0xA0 ≤ second.toNat) (hED : b.toNat = 0xED → second.toNat ≤ 0x9F)
    (hF0 : b.toNat = 0xF0 → 0x90 ≤ second.toNat) (hF4 : b.toNat = 0xF4 → second.toNat ≤ 0x8F) :
    isSecond b second = true := by
  have hb : ∀ k : UInt8, (b == k) = true → b.toNat = k.toNat := by
    intro k hk
    rw [eq_of_beq hk]
  unfold isSecond isTail
  simp only [UInt8.le_iff_toNat_le]
  split
  · simpa using ⟨hE0 (hb 0xE0 ‹_›), h'⟩
  split
  · simpa using ⟨h, hED (hb 0xED ‹_›)⟩
  split
  · simpa using ⟨hF0 (hb 0xF0 ‹_›), h'⟩
  split
  · simpa using ⟨h, hF4 (hb 0xF4 ‹_›)⟩
  · simpa using ⟨h, h'⟩

/-- The number of a character is that of no surrogate. -/
theorem toNat_bounds (c : Char) : c.toNat < 0xD800 ∨ (0xDFFF < c.toNat ∧ c.toNat < 0x110000) :=
  c.valid

/-- **One step reads one character**, whatever follows it. -/
theorem step_encodeChar (c : Char) :
    ∃ b bs, encodeChar c = b :: bs ∧ ∀ rest, step b (bs ++ rest) = (some c, bs.length) := by
  have hc := toNat_bounds c
  have hn : Char.ofNat c.toNat = c := Char.ofNat_toNat c
  obtain ⟨ht₁, hv₁⟩ := isTail_ofNat (c.toNat / 1)
  obtain ⟨ht₂, hv₂⟩ := isTail_ofNat (c.toNat / 64)
  obtain ⟨ht₃, hv₃⟩ := isTail_ofNat (c.toNat / 4096)
  have hs₂ := toNat_ofNat_of_lt (show 0x80 + c.toNat / 64 % 64 < 256 by omega)
  have hs₃ := toNat_ofNat_of_lt (show 0x80 + c.toNat / 4096 % 64 < 256 by omega)
  unfold encodeChar
  dsimp only
  split
  · have hb := toNat_ofNat_of_lt (show c.toNat < 256 by omega)
    refine ⟨_, [], rfl, fun rest => ?_⟩
    rw [step_one (by omega), hb, hn]
    rfl
  split
  · have hb := toNat_ofNat_of_lt (show 0xC0 + c.toNat / 64 < 256 by omega)
    refine ⟨_, _, rfl, fun rest => ?_⟩
    rw [List.cons_append, step_two (by omega) (by omega) ht₁, hv₁, hb]
    rw [show (0xC0 + c.toNat / 64) % 32 * 64 + c.toNat / 1 % 64 = c.toNat by omega, hn]
    rfl
  split
  · have hb := toNat_ofNat_of_lt (show 0xE0 + c.toNat / 4096 < 256 by omega)
    have hsecond := isSecond_of_toNat (UInt8.ofNat (0xE0 + c.toNat / 4096))
      (UInt8.ofNat (0x80 + c.toNat / 64 % 64)) (by omega) (by omega) (by omega) (by omega)
      (by omega) (by omega)
    refine ⟨_, _, rfl, fun rest => ?_⟩
    rw [List.cons_append, List.cons_append, step_three (by omega) (by omega) hsecond ht₁, hv₁, hv₂,
      hb]
    rw [show (0xE0 + c.toNat / 4096) % 16 * 4096 + c.toNat / 64 % 64 * 64 + c.toNat / 1 % 64 =
      c.toNat by omega, hn]
    rfl
  · have hb := toNat_ofNat_of_lt (show 0xF0 + c.toNat / 262144 < 256 by omega)
    have hsecond := isSecond_of_toNat (UInt8.ofNat (0xF0 + c.toNat / 262144))
      (UInt8.ofNat (0x80 + c.toNat / 4096 % 64)) (by omega) (by omega) (by omega) (by omega)
      (by omega) (by omega)
    refine ⟨_, _, rfl, fun rest => ?_⟩
    rw [List.cons_append, List.cons_append, List.cons_append,
      step_four (by omega) (by omega) hsecond ht₂ ht₁, hv₁, hv₂, hv₃, hb]
    rw [show (0xF0 + c.toNat / 262144) % 8 * 262144 + c.toNat / 4096 % 64 * 4096 +
      c.toNat / 64 % 64 * 64 + c.toNat / 1 % 64 = c.toNat by omega, hn]
    rfl

/-! ### Texts -/

/-- **Well-formed bytes are read.** -/
theorem decodeChars?_encodeChars (l : List Char) : decodeChars? (encodeChars l) = some l := by
  induction l with
  | nil => rw [encodeChars, List.flatMap_nil, decodeChars?]
  | cons c l ih =>
    obtain ⟨b, bs, hc, hstep⟩ := step_encodeChar c
    have hcons : encodeChars (c :: l) = b :: (bs ++ encodeChars l) := by
      rw [encodeChars, List.flatMap_cons, hc]
      rfl
    rw [hcons, decodeChars?, hstep]
    simp [ih]

theorem lossyChars_encodeChars (l : List Char) : lossyChars (encodeChars l) = l := by
  induction l with
  | nil => rw [encodeChars, List.flatMap_nil, lossyChars]
  | cons c l ih =>
    obtain ⟨b, bs, hc, hstep⟩ := step_encodeChar c
    have hcons : encodeChars (c :: l) = b :: (bs ++ encodeChars l) := by
      rw [encodeChars, List.flatMap_cons, hc]
      rfl
    rw [hcons, lossyChars, hstep]
    simp [ih]

/-- **The bytes of a text give the text.** -/
theorem lossy_encode (s : String) : lossy (encode s) = s := by
  rw [lossy, encode, lossyChars_encodeChars, String.ofList_toList]

/-! ### Bytes below `0x80` in well-formed bytes -/

theorem le_of_isTail {b : UInt8} (h : isTail b = true) : 0x80 ≤ b := by
  simp only [isTail, Bool.and_eq_true, decide_eq_true_eq] at h
  exact h.1

theorem isTail_of_isSecond {b second : UInt8} (h : isSecond b second = true) :
    isTail second = true := by
  unfold isSecond at h
  unfold isTail
  simp only [UInt8.le_iff_toNat_le] at h ⊢
  have bounds : ∀ lo hi : Nat, 0x80 ≤ lo → hi ≤ 0xBF →
      (decide (lo ≤ second.toNat) && decide (second.toNat ≤ hi)) = true →
      (decide (0x80 ≤ second.toNat) && decide (second.toNat ≤ 0xBF)) = true := by
    intro lo hi hlo hhi h
    simp only [Bool.and_eq_true, decide_eq_true_eq] at h ⊢
    omega
  split at h
  · exact bounds 0xA0 0xBF (by decide) (by decide) h
  split at h
  · exact bounds 0x80 0x9F (by decide) (by decide) h
  split at h
  · exact bounds 0x90 0xBF (by decide) (by decide) h
  split at h
  · exact bounds 0x80 0x8F (by decide) (by decide) h
  · exact h

theorem toNat_char_ofNat {n : Nat} (h : n < 0xD800) : (Char.ofNat n).toNat = n := by
  unfold Char.ofNat
  rw [dif_pos (.inl h)]
  exact BitVec.toNat_ofNatLT _ _

/-- **What a step reads**: a character of one to four bytes, of which all but the first are tails. -/
inductive StepReads (b : UInt8) : Bytes → Char → Nat → Prop
  | one {rest : Bytes} (hb : b.toNat < 0x80) : StepReads b rest (Char.ofNat b.toNat) 0
  | two {b₁ : UInt8} {rest : Bytes} (hlow : 0xC2 ≤ b.toNat) (hhigh : b.toNat < 0xE0) (h₁ : isTail b₁ = true) :
      StepReads b (b₁ :: rest) (Char.ofNat (b.toNat % 32 * 64 + tailValue b₁)) 1
  | three {b₁ b₂ : UInt8} {rest : Bytes} (hlow : 0xE0 ≤ b.toNat) (hhigh : b.toNat < 0xF0)
      (h₁ : isSecond b b₁ = true) (h₂ : isTail b₂ = true) : StepReads b (b₁ :: b₂ :: rest)
        (Char.ofNat (b.toNat % 16 * 4096 + tailValue b₁ * 64 + tailValue b₂)) 2
  | four {b₁ b₂ b₃ : UInt8} {rest : Bytes} (hlow : 0xF0 ≤ b.toNat) (hhigh : b.toNat ≤ 0xF4)
      (h₁ : isSecond b b₁ = true) (h₂ : isTail b₂ = true) (h₃ : isTail b₃ = true) :
      StepReads b (b₁ :: b₂ :: b₃ :: rest) (Char.ofNat
        (b.toNat % 8 * 262144 + tailValue b₁ * 4096 + tailValue b₂ * 64 + tailValue b₃)) 3

theorem stepReads_of_step {b : UInt8} {rest : Bytes} {c : Char} {n : Nat} (h : step b rest = (some c, n)) :
    StepReads b rest c n := by
  unfold step at h
  split at h
  · rename_i hb
    cases h
    exact .one (UInt8.lt_iff_toNat_lt.mp hb)
  split at h
  · cases h
  rename_i hbounds
  simp only [Bool.or_eq_true, decide_eq_true_eq, not_or, UInt8.lt_iff_toNat_lt] at hbounds
  have hlow : 0xC2 ≤ b.toNat := Nat.not_lt.mp hbounds.1
  have hhigh : b.toNat ≤ 0xF4 := Nat.not_lt.mp hbounds.2
  split at h
  · cases h
  split at h
  · rename_i htwo
    split at h
    · rename_i h₁
      cases h
      exact .two hlow (UInt8.lt_iff_toNat_lt.mp htwo) h₁
    · cases h
  rename_i hthree
  have hthree : 0xE0 ≤ b.toNat := UInt8.le_iff_toNat_le.mp (UInt8.not_lt.mp hthree)
  split at h
  · cases h
  rename_i h₁
  split at h
  · cases h
  split at h
  · cases h
  rename_i h₂
  split at h
  · rename_i hfour
    cases h
    exact .three hthree (UInt8.lt_iff_toNat_lt.mp hfour) (by simpa using h₁) (by simpa using h₂)
  rename_i hfour
  have hfour : 0xF0 ≤ b.toNat := UInt8.le_iff_toNat_le.mp (UInt8.not_lt.mp hfour)
  split at h
  · cases h
  split at h
  · rename_i h₃
    cases h
    exact .four hfour hhigh (by simpa using h₁) (by simpa using h₂) h₃
  · cases h

/-- A step takes one byte below `0x80`, or bytes of which none is. -/
theorem step_some {b : UInt8} {rest : Bytes} {c : Char} {n : Nat} (h : step b rest = (some c, n)) :
    (c.toNat = b.toNat ∧ n = 0) ∨ ∀ x ∈ b :: rest.take n, 0x80 ≤ x := by
  have hlong : 0xC2 ≤ b.toNat → 0x80 ≤ b := fun hb => UInt8.le_iff_toNat_le.mpr (Nat.le_trans (by decide) hb)
  cases stepReads_of_step h with
  | one hb => exact .inl ⟨toNat_char_ofNat (by omega), rfl⟩
  | two hlow _ h₁ =>
    refine .inr ?_
    simpa using ⟨hlong hlow, le_of_isTail h₁⟩
  | three hlow _ h₁ h₂ =>
    refine .inr ?_
    simpa using ⟨hlong (by omega), le_of_isTail (isTail_of_isSecond h₁), le_of_isTail h₂⟩
  | four hlow _ h₁ h₂ h₃ =>
    refine .inr ?_
    simpa using ⟨hlong (by omega), le_of_isTail (isTail_of_isSecond h₁), le_of_isTail h₂, le_of_isTail h₃⟩

/-- **A byte below `0x80` in well-formed bytes** is a character of the text. -/
theorem mem_of_decodeChars? {bs : Bytes} {cs : List Char} (h : decodeChars? bs = some cs) {x : UInt8}
    (hx : x ∈ bs) (hlt : x < 0x80) : ∃ c ∈ cs, c.toNat = x.toNat := by
  induction bs using decodeChars?.induct generalizing cs with
  | case1 => simp at hx
  | case2 b rest c n hs ih =>
    rw [decodeChars?, hs] at h
    obtain ⟨ds, hds, rfl⟩ := Option.map_eq_some_iff.mp h
    have hmem : x ∈ b :: rest.take n ∨ x ∈ rest.drop n := by
      rw [← List.mem_append, List.cons_append, List.take_append_drop]
      exact hx
    rcases hmem with hmem | hmem
    · rcases step_some hs with ⟨hc, rfl⟩ | hnot
      · obtain rfl : x = b := by simpa using hmem
        exact ⟨c, by simp, hc⟩
      · exact absurd hlt (UInt8.not_lt.mpr (hnot x hmem))
    · obtain ⟨d, hd, hdx⟩ := ih hds hmem
      exact ⟨d, List.mem_cons_of_mem _ hd, hdx⟩
  | case3 b rest n hs =>
    rw [decodeChars?, hs] at h
    cases h

/-! ### Characters that were read -/

theorem toNat_ofNat_of_valid {n : Nat} (h : n < 0xD800 ∨ 0xDFFF < n ∧ n < 0x110000) :
    (Char.ofNat n).toNat = n := by
  unfold Char.ofNat
  rw [dif_pos h]
  exact BitVec.toNat_ofNatLT _ _

theorem isTail_iff {b : UInt8} : isTail b = true ↔ 0x80 ≤ b.toNat ∧ b.toNat ≤ 0xBF := by
  simp [isTail, UInt8.le_iff_toNat_le]

/-- The bounds of the second byte of a character of three or four bytes. -/
theorem isSecond_bounds {b second : UInt8} (h : isSecond b second = true) :
    (b.toNat = 0xE0 → 0xA0 ≤ second.toNat) ∧ (b.toNat = 0xED → second.toNat ≤ 0x9F) ∧
      (b.toNat = 0xF0 → 0x90 ≤ second.toNat) ∧ (b.toNat = 0xF4 → second.toNat ≤ 0x8F) := by
  have hb : ∀ k : UInt8, b.toNat = k.toNat → b = k := fun k => UInt8.toNat_inj.mp
  unfold isSecond isTail at h
  simp only [UInt8.le_iff_toNat_le] at h
  refine ⟨fun hk => ?_, fun hk => ?_, fun hk => ?_, fun hk => ?_⟩
  · obtain rfl := hb 0xE0 hk
    simp at h; omega
  · obtain rfl := hb 0xED hk
    simp at h; omega
  · obtain rfl := hb 0xF0 hk
    simp at h; omega
  · obtain rfl := hb 0xF4 hk
    simp at h; omega

theorem eq_ofNat {b : UInt8} {n : Nat} (h : b.toNat = n) : UInt8.ofNat n = b := by
  rw [← h, UInt8.ofNat_toNat]

theorem encodeChar_one {b : UInt8} (hb : b.toNat < 0x80) : encodeChar (Char.ofNat b.toNat) = [b] := by
  have hn := toNat_ofNat_of_valid (n := b.toNat) (.inl (by omega))
  simp only [encodeChar, hn, if_pos hb, UInt8.ofNat_toNat]

theorem encodeChar_two {b b₁ : UInt8} (hlow : 0xC2 ≤ b.toNat) (hhigh : b.toNat < 0xE0) (h₁ : isTail b₁ = true) :
    encodeChar (Char.ofNat (b.toNat % 32 * 64 + tailValue b₁)) = [b, b₁] := by
  have hb₁ := isTail_iff.mp h₁
  have hn := toNat_ofNat_of_valid (n := b.toNat % 32 * 64 + tailValue b₁) (.inl (by unfold tailValue; omega))
  unfold tailValue at hn ⊢
  simp only [encodeChar, hn]
  rw [if_neg (by omega), if_pos (by omega), eq_ofNat (b := b) (by omega), eq_ofNat (b := b₁) (by omega)]

theorem encodeChar_three {b b₁ b₂ : UInt8} (hlow : 0xE0 ≤ b.toNat) (hhigh : b.toNat < 0xF0)
    (h₁ : isSecond b b₁ = true) (h₂ : isTail b₂ = true) :
    encodeChar (Char.ofNat (b.toNat % 16 * 4096 + tailValue b₁ * 64 + tailValue b₂)) = [b, b₁, b₂] := by
  -- The bounds of the second byte keep the number away from shorter characters and from the surrogates.
  obtain ⟨hE0, hED, -, -⟩ := isSecond_bounds h₁
  have hb₁ := isTail_iff.mp (isTail_of_isSecond h₁)
  have hb₂ := isTail_iff.mp h₂
  have hn := toNat_ofNat_of_valid (n := b.toNat % 16 * 4096 + tailValue b₁ * 64 + tailValue b₂)
    (by unfold tailValue; omega)
  unfold tailValue at hn ⊢
  simp only [encodeChar, hn]
  rw [if_neg (by omega), if_neg (by omega), if_pos (by omega), eq_ofNat (b := b) (by omega),
    eq_ofNat (b := b₁) (by omega), eq_ofNat (b := b₂) (by omega)]

theorem encodeChar_four {b b₁ b₂ b₃ : UInt8} (hlow : 0xF0 ≤ b.toNat) (hhigh : b.toNat ≤ 0xF4)
    (h₁ : isSecond b b₁ = true) (h₂ : isTail b₂ = true) (h₃ : isTail b₃ = true) :
    encodeChar (Char.ofNat
      (b.toNat % 8 * 262144 + tailValue b₁ * 4096 + tailValue b₂ * 64 + tailValue b₃)) = [b, b₁, b₂, b₃] := by
  obtain ⟨-, -, hF0, hF4⟩ := isSecond_bounds h₁
  have hb₁ := isTail_iff.mp (isTail_of_isSecond h₁)
  have hb₂ := isTail_iff.mp h₂
  have hb₃ := isTail_iff.mp h₃
  have hn := toNat_ofNat_of_valid
    (n := b.toNat % 8 * 262144 + tailValue b₁ * 4096 + tailValue b₂ * 64 + tailValue b₃)
    (by unfold tailValue; omega)
  unfold tailValue at hn ⊢
  simp only [encodeChar, hn]
  rw [if_neg (by omega), if_neg (by omega), if_neg (by omega), eq_ofNat (b := b) (by omega),
    eq_ofNat (b := b₁) (by omega), eq_ofNat (b := b₂) (by omega), eq_ofNat (b := b₃) (by omega)]

/-- **A step takes the bytes of the character** that it reads. -/
theorem exists_tails_of_step {b : UInt8} {rest : Bytes} {c : Char} {n : Nat}
    (h : step b rest = (some c, n)) :
    ∃ tails more, rest = tails ++ more ∧ tails.length = n ∧ (∀ x ∈ tails, isTail x = true) ∧
      encodeChar c = b :: tails := by
  cases stepReads_of_step h with
  | one hb => exact ⟨[], rest, rfl, rfl, List.forall_mem_nil _, encodeChar_one hb⟩
  | @two b₁ more hlow hhigh h₁ =>
    exact ⟨[b₁], more, rfl, rfl, by simpa using h₁, encodeChar_two hlow hhigh h₁⟩
  | @three b₁ b₂ more hlow hhigh h₁ h₂ =>
    have ht₁ := isTail_of_isSecond h₁
    exact ⟨[b₁, b₂], more, rfl, rfl, by simpa using ⟨ht₁, h₂⟩, encodeChar_three hlow hhigh h₁ h₂⟩
  | @four b₁ b₂ b₃ more hlow hhigh h₁ h₂ h₃ =>
    have ht₁ := isTail_of_isSecond h₁
    exact ⟨[b₁, b₂, b₃], more, rfl, rfl, by simpa using ⟨ht₁, h₂, h₃⟩, encodeChar_four hlow hhigh h₁ h₂ h₃⟩

/-- **Bytes are read as the text that has them**, and as no other. -/
theorem decodeChars?_eq_some_iff {bs : Bytes} {cs : List Char} :
    decodeChars? bs = some cs ↔ encodeChars cs = bs := by
  refine ⟨fun h => ?_, fun h => h ▸ decodeChars?_encodeChars cs⟩
  induction bs using decodeChars?.induct generalizing cs with
  | case1 =>
    rw [decodeChars?] at h
    obtain rfl := Option.some.inj h
    rfl
  | case2 b rest c n hs ih =>
    rw [decodeChars?, hs] at h
    obtain ⟨ds, hds, rfl⟩ := Option.map_eq_some_iff.mp h
    obtain ⟨tails, more, rfl, rfl, -, hc⟩ := exists_tails_of_step hs
    rw [List.drop_left] at ih hds
    rw [encodeChars, List.flatMap_cons, ← encodeChars, hc, ih hds, List.cons_append]
  | case3 b rest n hs =>
    rw [decodeChars?, hs] at h
    cases h

/-- The bytes are those of a text. -/
def IsValid (bytes : Bytes) : Prop :=
  ∃ text, bytes = encodeChars text

theorem isValid_iff {bytes : Bytes} : IsValid bytes ↔ ∃ text, decodeChars? bytes = some text := by
  simp only [decodeChars?_eq_some_iff]
  exact exists_congr fun _ => eq_comm

theorem not_isValid_iff {bytes : Bytes} : ¬ IsValid bytes ↔ decodeChars? bytes = none := by
  rw [isValid_iff, ← Option.isSome_iff_exists, Option.not_isSome_iff_eq_none]

/-- A character is read from the bytes before others. -/
theorem decodeChars?_encodeChar_append (c : Char) (more : Bytes) :
    decodeChars? (encodeChar c ++ more) = (decodeChars? more).map (c :: ·) := by
  obtain ⟨b, bs, hc, hstep⟩ := step_encodeChar c
  rw [hc, List.cons_append, decodeChars?, hstep]
  simp

/-- No character begins with a byte that continues one. -/
theorem encodeChar_ne_cons_of_isTail {b : UInt8} (h : isTail b = true) (c : Char) (bs : Bytes) :
    encodeChar c ≠ b :: bs := by
  intro hc
  obtain ⟨b', bs', hc', hstep⟩ := step_encodeChar c
  obtain ⟨rfl, rfl⟩ := List.cons.inj (hc.symm.trans hc')
  have hb := isTail_iff.mp h
  have hlow : ¬ b < 0x80 := not_lt_of_le 0x80 hb.1
  have hstart : b < 0xC2 := UInt8.lt_iff_toNat_lt.mpr (Nat.lt_of_le_of_lt hb.2 (by decide))
  have hnone : step b (bs ++ []) = (none, 0) := by
    unfold step
    rw [if_neg hlow, if_pos (by simp [hstart])]
  cases hnone.symm.trans (hstep [])

end ReleasePublisher.Utf8
