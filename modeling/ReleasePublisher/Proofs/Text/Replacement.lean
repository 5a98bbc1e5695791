import ReleasePublisher.Proofs.Text.Utf8Reading

/-!
# Texts in which ill-formed pieces are replaced

Bytes that are no UTF-8 can still be read as a text, in which U+FFFD stands for each ill-formed piece. Byte
strings are alike if the same text is read of them in this way. They have the same bytes below `0x80`, in the
same order; between these, both have other bytes or neither has. So what passes over bytes below `0x80`, or
over all the others, passes over alike ones alike.

## Main definitions

* `Utf8.Alike s t`: the same text is read of two byte strings
* `Utf8.isHigh b`: a byte that is not below `0x80`

## Main results

* `Utf8.alike_lossy`: bytes are alike to those of the text that is read of them
* `Utf8.Alike.cases`: how alike byte strings begin
* `Utf8.Alike.dropWhile_isHigh`, `Utf8.Alike.dropWhile_of_low`: what passes over bytes keeps them alike
* `Utf8.Alike.cancel`, `Utf8.Alike.append_cons`: cutting and joining alike byte strings
* `Utf8.Alike.encode_lossy`: replacing ill-formed pieces
-/

namespace ReleasePublisher.Utf8

variable {b c : UInt8} {rest s t u v : Bytes}

/-- **Two byte strings are alike** if the same text is read of them, once ill-formed pieces are replaced. -/
def Alike (s t : Bytes) : Prop :=
  lossyChars s = lossyChars t

/-- A byte of which longer characters, and ill-formed pieces, are made. -/
def isHigh (b : UInt8) : Bool :=
  0x80 ≤ b

theorem isHigh_iff : isHigh b = true ↔ 0x80 ≤ b :=
  decide_eq_true_iff

theorem not_isHigh_iff : isHigh b = false ↔ b < 0x80 := by
  rw [← Bool.not_eq_true, isHigh_iff, UInt8.not_le]

/-- What is said of bytes below `0x80` only is not said of a high one. -/
theorem eq_false_of_isHigh {p : UInt8 → Bool} (hp : ∀ b, p b = true → isHigh b = false)
    (hb : isHigh b = true) : p b = false := by
  rw [← Bool.not_eq_true]
  intro hpb
  cases (hp b hpb).symm.trans hb

/-! ### Steps -/

theorem isHigh_of_isTail (h : isTail b = true) : isHigh b = true :=
  isHigh_iff.mpr (le_of_isTail h)

theorem isHigh_of_isSecond (h : isSecond b c = true) : isHigh c = true :=
  isHigh_of_isTail (isTail_of_isSecond h)

theorem step_snd_le (b : UInt8) (rest : Bytes) : (step b rest).2 ≤ rest.length := by
  fun_cases step b rest <;> simp

/-- **A step passes over high bytes**, apart from the one that it begins with. -/
theorem isHigh_of_step (b : UInt8) (rest : Bytes) : ∀ x ∈ rest.take (step b rest).2, isHigh x = true := by
  have hsecond : ∀ x, isSecond b x = true → isHigh x = true := fun _ => isHigh_of_isSecond
  fun_cases step b rest <;> simp_all [isHigh_of_isTail]

/-- Below `0x80`, a step reads one byte. -/
theorem step_of_low (hb : isHigh b = false) (rest : Bytes) : step b rest = (some (Char.ofNat b.toNat), 0) :=
  step_one (UInt8.lt_iff_toNat_lt.mp (not_isHigh_iff.mp hb))

/-- A step ends before a byte below `0x80`, as it does at the end. -/
theorem step_append_cons (hc : isHigh c = false) (b : UInt8) (rest s : Bytes) :
    step b (rest ++ c :: s) = step b rest := by
  have htail : isTail c = false := by
    rw [← Bool.not_eq_true]
    intro h
    exact absurd (isHigh_of_isTail h) (by simp [hc])
  have hsecond : isSecond b c = false := by
    rw [← Bool.not_eq_true]
    intro h
    exact absurd (isHigh_of_isSecond h) (by simp [hc])
  match rest with
  | [] => simp [step, htail, hsecond]
  | [b₁] => simp [step, htail]
  | [b₁, b₂] => simp [step, htail]
  | b₁ :: b₂ :: b₃ :: _ => simp [step]

/-! ### The characters that are read -/

theorem lossyChars_cons (b : UInt8) (rest : Bytes) :
    lossyChars (b :: rest) =
      (step b rest).1.getD '\uFFFD' :: lossyChars (rest.drop (step b rest).2) := by
  rw [lossyChars]

theorem lossyChars_cons_of_low (hb : isHigh b = false) (rest : Bytes) :
    lossyChars (b :: rest) = Char.ofNat b.toNat :: lossyChars rest := by
  rw [lossyChars_cons, step_of_low hb]
  rfl

theorem toNat_of_low (hb : isHigh b = false) : (Char.ofNat b.toNat).toNat = b.toNat := by
  have hlt := UInt8.lt_iff_toNat_lt.mp (not_isHigh_iff.mp hb)
  exact toNat_char_ofNat (Nat.lt_trans hlt (by decide))

/-- **What is read of a high byte** is a character from `0x80` on, and what is read of another one is not. -/
theorem isHigh_iff_le_toNat (b : UInt8) (rest : Bytes) :
    isHigh b = true ↔ 0x80 ≤ ((step b rest).1.getD '\uFFFD').toNat := by
  cases hb : isHigh b with
  | false =>
    rw [step_of_low hb, Option.getD_some, toNat_of_low hb]
    simpa using UInt8.lt_iff_toNat_lt.mp (not_isHigh_iff.mp hb)
  | true =>
    refine ⟨fun _ => ?_, fun _ => rfl⟩
    rcases hs : step b rest with ⟨_ | c, n⟩
    · show 0x80 ≤ '\uFFFD'.toNat
      decide
    · show 0x80 ≤ c.toNat
      refine Nat.le_of_not_lt fun hlt => ?_
      obtain ⟨tails, _, -, -, -, hc⟩ := exists_tails_of_step hs
      have hsingle : encodeChar c = [UInt8.ofNat c.toNat] := if_pos hlt
      obtain ⟨rfl, -⟩ := List.cons.inj (hsingle.symm.trans hc)
      have hle := UInt8.le_iff_toNat_le.mp (isHigh_iff.mp hb)
      rw [toNat_ofNat_of_lt (Nat.lt_trans hlt (by decide))] at hle
      exact Nat.not_le.mpr hlt hle

/-- Passing over high bytes passes over the characters that are read of them. -/
theorem lossyChars_dropWhile_isHigh (s : Bytes) :
    lossyChars (s.dropWhile isHigh) = (lossyChars s).dropWhile fun c => decide (0x80 ≤ c.toNat) := by
  induction s using lossyChars.induct with
  | case1 => simp [lossyChars]
  | case2 b rest c n hs ih =>
    have hchar := isHigh_iff_le_toNat b rest
    have htaken := isHigh_of_step b rest
    rw [hs] at hchar htaken
    rw [lossyChars_cons, hs, List.dropWhile_cons, List.dropWhile_cons]
    cases hb : isHigh b with
    | false =>
      rw [hb] at hchar
      rw [if_neg Bool.false_ne_true, if_neg (by simpa using hchar), lossyChars_cons, hs]
    | true =>
      -- The bytes that the step reads with the first one are high as well.
      rw [if_pos rfl, if_pos (decide_eq_true (hchar.mp hb)), ← ih]
      conv => lhs; rw [← List.take_append_drop n rest, List.dropWhile_append_of_pos htaken]

/-- **A byte below `0x80` cuts a text**, whatever stands before it. -/
theorem lossyChars_append_cons (hc : isHigh c = false) (s t : Bytes) :
    lossyChars (s ++ c :: t) = lossyChars s ++ Char.ofNat c.toNat :: lossyChars t := by
  induction s using lossyChars.induct with
  | case1 => simp [lossyChars, lossyChars_cons_of_low hc]
  | case2 b rest d n hs ih =>
    have hle := step_snd_le b rest
    rw [hs] at hle
    rw [List.cons_append, lossyChars_cons, lossyChars_cons, step_append_cons hc, hs, List.cons_append,
      List.drop_append_of_le_length hle, ih]

/-! ### Alike byte strings -/

/-- **Bytes are alike to those of the text** that is read of them. -/
theorem alike_lossy (s : Bytes) : Alike s (encode (lossy s)) := by
  rw [Alike, lossy, encode, String.toList_ofList, lossyChars_encodeChars]

namespace Alike

theorem refl (s : Bytes) : Alike s s :=
  rfl

theorem symm (h : Alike s t) : Alike t s :=
  Eq.symm h

/-- **How alike byte strings begin**: with the same byte below `0x80`, or both with a high one. -/
theorem cases (h : Alike s t) :
    s = [] ∧ t = [] ∨
    (∃ b u v, isHigh b = false ∧ s = b :: u ∧ t = b :: v ∧ Alike u v) ∨
    ∃ b c u v, isHigh b = true ∧ isHigh c = true ∧ s = b :: u ∧ t = c :: v := by
  unfold Alike at h
  cases s with
  | nil =>
    cases t with
    | nil => exact .inl ⟨rfl, rfl⟩
    | cons c v => simp [lossyChars] at h
  | cons b u =>
    cases t with
    | nil => simp [lossyChars] at h
    | cons c v =>
      -- The first character that is read tells whether the first byte is a high one.
      have hhead := h
      rw [lossyChars_cons, lossyChars_cons] at hhead
      have hsame : isHigh b = isHigh c := by
        rw [Bool.eq_iff_iff, isHigh_iff_le_toNat b u, (List.cons.inj hhead).1, ← isHigh_iff_le_toNat c v]
      cases hc : isHigh c with
      | true => exact .inr (.inr ⟨b, c, u, v, hsame.trans hc, hc, rfl, rfl⟩)
      | false =>
        have hb := hsame.trans hc
        rw [lossyChars_cons_of_low hb, lossyChars_cons_of_low hc] at h
        obtain ⟨hchar, hrest⟩ := List.cons.inj h
        have hbyte : b = c := by
          rw [← UInt8.toNat_inj, ← toNat_of_low hb, hchar, toNat_of_low hc]
        exact .inr (.inl ⟨b, u, v, hb, rfl, hbyte ▸ rfl, hrest⟩)

theorem eq_nil (h : Alike [] t) : t = [] := by
  rcases h.cases with ⟨-, ht⟩ | ⟨_, _, _, -, hs, -⟩ | ⟨_, _, _, _, -, -, hs, -⟩
  · exact ht
  · cases hs
  · cases hs

/-- A byte below `0x80` stands where it does in an alike byte string. -/
theorem exists_cons (h : Alike (b :: s) t) (hb : isHigh b = false) : ∃ v, t = b :: v ∧ Alike s v := by
  rcases h.cases with ⟨hs, -⟩ | ⟨c, u, v, -, hs, ht, h⟩ | ⟨c, _, _, _, hc, -, hs, -⟩
  · cases hs
  · obtain ⟨rfl, rfl⟩ := List.cons.inj hs
    exact ⟨v, ht, h⟩
  · obtain ⟨rfl, -⟩ := List.cons.inj hs
    cases hb.symm.trans hc

/-- Bytes below `0x80` stand where they do in an alike byte string. -/
theorem exists_append (h : Alike (u ++ s) t) (hu : ∀ b ∈ u, isHigh b = false) :
    ∃ v, t = u ++ v ∧ Alike s v := by
  induction u generalizing t with
  | nil => exact ⟨t, rfl, h⟩
  | cons b u ih =>
    obtain ⟨hb, hu⟩ := List.forall_mem_cons.mp hu
    obtain ⟨w, rfl, hw⟩ := h.exists_cons hb
    obtain ⟨v, rfl, hv⟩ := ih hw hu
    exact ⟨v, rfl, hv⟩

/-- **What passes over high bytes** passes over those of both. -/
theorem dropWhile_isHigh (h : Alike s t) : Alike (s.dropWhile isHigh) (t.dropWhile isHigh) := by
  rw [Alike, lossyChars_dropWhile_isHigh, lossyChars_dropWhile_isHigh, show lossyChars s = lossyChars t from h]

/-- **What passes over bytes below `0x80`** passes over those of both. -/
theorem dropWhile_of_low {p : UInt8 → Bool} (hp : ∀ b, p b = true → isHigh b = false) (h : Alike s t) :
    Alike (s.dropWhile p) (t.dropWhile p) := by
  induction s generalizing t with
  | nil =>
    obtain rfl := h.eq_nil
    exact refl []
  | cons b s ih =>
    have hst := h
    rcases h.cases with ⟨hs, -⟩ | ⟨c, u, v, -, hs, rfl, h⟩ | ⟨c, d, u, v, hc, hd, hs, rfl⟩
    · cases hs
    · obtain ⟨rfl, rfl⟩ := List.cons.inj hs
      rw [List.dropWhile_cons, List.dropWhile_cons]
      cases p b with
      | true => exact ih h
      | false => exact hst
    · obtain ⟨rfl, rfl⟩ := List.cons.inj hs
      have hpb : ¬ p b = true := by simp [eq_false_of_isHigh hp hc]
      have hpd : ¬ p d = true := by simp [eq_false_of_isHigh hp hd]
      rwa [List.dropWhile_cons_of_neg hpb, List.dropWhile_cons_of_neg hpd]

/-- A byte below `0x80` stands at the start of both, or of neither. -/
theorem any_head? {p : UInt8 → Bool} (hp : ∀ b, p b = true → isHigh b = false) (h : Alike s t) :
    s.head?.any p = t.head?.any p := by
  rcases h.cases with ⟨rfl, rfl⟩ | ⟨b, u, v, -, rfl, rfl, -⟩ | ⟨b, c, u, v, hb, hc, rfl, rfl⟩
  · rfl
  · rfl
  · simp [eq_false_of_isHigh hp hb, eq_false_of_isHigh hp hc]

/-- **Alike byte strings can be cut** at a byte below `0x80`, if what follows it is alike. -/
theorem cancel (hb : isHigh b = false) (h : Alike (u ++ b :: s) (v ++ b :: t)) (hst : Alike s t) :
    Alike u v := by
  unfold Alike at *
  rw [lossyChars_append_cons hb, lossyChars_append_cons hb, hst] at h
  exact List.append_cancel_right h

theorem cons (h : Alike s t) (hb : isHigh b = false) : Alike (b :: s) (b :: t) := by
  rw [Alike, lossyChars_cons_of_low hb, lossyChars_cons_of_low hb, show lossyChars s = lossyChars t from h]

/-- **Alike byte strings can be joined** at a byte below `0x80`. -/
theorem append_cons (hb : isHigh b = false) (huv : Alike u v) (hst : Alike s t) :
    Alike (u ++ b :: s) (v ++ b :: t) := by
  unfold Alike at *
  rw [lossyChars_append_cons hb, lossyChars_append_cons hb, huv, hst]

/-- **What is read of bytes**, ill-formed pieces being replaced, are the bytes of a text that they are alike
to. -/
theorem encode_lossy (h : Alike s t) (ht : IsValid t) : encode (lossy s) = t := by
  obtain ⟨text, rfl⟩ := ht
  rw [lossy, encode, String.toList_ofList, show lossyChars s = _ from h, lossyChars_encodeChars]

end Alike

end ReleasePublisher.Utf8
