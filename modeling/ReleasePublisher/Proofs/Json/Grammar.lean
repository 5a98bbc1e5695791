import ReleasePublisher.Json.Sequence

/-!
# The grammar of JSON texts

What it means for a value to stand in a text, told without a reader: a word, a number or a string, or a
bracket with the values in it.

## Main definitions

* `Json.Spans p s rest`: a value, or what is left of an open bracket, stands at the start of a text
* `Json.IsDocument s`: a text is a value with nothing but blanks around it

## Main results

* `Json.Spans.length_lt`: a value takes some of the text
* `Json.Spans.congr_skipBlank`: blanks before a value do not matter
-/

namespace ReleasePublisher.Json

/-! ### Readers one after the other -/

theorem bind_eq_ok {ε α β : Type} {x : Except ε α} {f : α → Except ε β} {b : β} :
    (x >>= f) = .ok b ↔ ∃ a, x = .ok a ∧ f a = .ok b := by
  cases x with
  | error e => simp [bind, Except.bind]
  | ok a => simp [bind, Except.bind]

theorem map_eq_ok {ε α β : Type} {x : Except ε α} {f : α → β} {b : β} :
    x.map f = .ok b ↔ ∃ a, x = .ok a ∧ f a = b := by
  cases x with
  | error e => simp [Except.map]
  | ok a => simp [Except.map]

/-! ### Blanks -/

theorem skipBlank_cons {b : UInt8} (h : isSpace b = false) (rest : Bytes) :
    skipBlank (b :: rest) = b :: rest :=
  List.dropWhile_cons_of_neg (by simp [h])

/-- What follows blanks begins with none. -/
theorem isSpace_of_skipBlank {s rest : Bytes} {b : UInt8} (h : skipBlank s = b :: rest) :
    isSpace b = false := by
  have hhead := List.head?_dropWhile_not isSpace s
  rw [show s.dropWhile isSpace = b :: rest from h] at hhead
  simpa using hhead

@[simp] theorem skipBlank_skipBlank (s : Bytes) : skipBlank (skipBlank s) = skipBlank s := by
  cases h : skipBlank s with
  | nil => rfl
  | cons b rest => exact skipBlank_cons (isSpace_of_skipBlank h) rest

theorem length_skipBlank_le (s : Bytes) : (skipBlank s).length ≤ s.length :=
  (List.dropWhile_suffix _).length_le

theorem length_lt_of_skipBlank {s rest : Bytes} {b : UInt8} (h : skipBlank s = b :: rest) :
    rest.length < s.length := by
  have hle := length_skipBlank_le s
  rw [h] at hle
  exact hle

/-! ### What stands in a text -/

/-- The byte that opens a bracket. -/
def Bracket.opening : Bracket → UInt8
  | list => 0x5B
  | object => 0x7B

/-- Passes over what an item has before its value: a member has a name. -/
def Bracket.label : Bracket → Bytes → Except Fault Bytes
  | list, s => .ok s
  | object, s => skipName s

/-- A part of a text. -/
inductive Part where
  /-- A value. -/
  | value
  /-- What is left of an open bracket, of which nothing or something was passed over. -/
  | tail (top : Bracket) (isFirst : Bool)

/-- **The value of the next item** in a bracket stands at the start of `t`: every item but the first has
a comma before it. -/
inductive Enters (top : Bracket) : Bool → Bytes → Bytes → Prop
  | first {s u t : Bytes} {b : UInt8} : skipBlank s = b :: u → b ≠ top.closing →
      top.label (b :: u) = .ok t → Enters top true s t
  | next {s u t : Bytes} : skipBlank s = 0x2C :: u → top.label u = .ok t → Enters top false s t

/-- **A part stands at the start of a text** and is followed by `rest`. -/
inductive Spans : Part → Bytes → Bytes → Prop
  | scalar {s t rest : Bytes} {b : UInt8} : skipBlank s = b :: t → skipScalar b t = .ok rest →
      Spans .value s rest
  | bracket {s t rest : Bytes} (top : Bracket) : skipBlank s = top.opening :: t →
      Spans (.tail top true) t rest → Spans .value s rest
  | close {s rest : Bytes} {top : Bracket} {isFirst : Bool} : skipBlank s = top.closing :: rest →
      Spans (.tail top isFirst) s rest
  | item {s t u rest : Bytes} {top : Bracket} {isFirst : Bool} : Enters top isFirst s t →
      Spans .value t u → Spans (.tail top false) u rest → Spans (.tail top isFirst) s rest

/-- A text is one value, with nothing but blanks around it. -/
def IsDocument (s : Bytes) : Prop :=
  ∃ rest, Spans .value s rest ∧ skipBlank rest = []

/-! ### Pieces take some of the text -/

theorem length_word_le {w s rest : Bytes} (h : word w s = .ok rest) : rest.length ≤ s.length := by
  induction w generalizing s with
  | nil =>
    obtain rfl := Except.ok.inj h
    exact Nat.le_refl _
  | cons b w ih =>
    cases s with
    | nil => cases h
    | cons c s =>
      rw [word] at h
      split at h
      · exact Nat.le_succ_of_le (ih h)
      · cases h

theorem length_skipText_le {s rest : Bytes} (h : skipText s = .ok rest) : rest.length ≤ s.length := by
  fun_induction skipText s <;> grind

theorem length_dropDigits_le (s : Bytes) : (s.dropWhile isDigit).length ≤ s.length :=
  (List.dropWhile_suffix _).length_le

theorem length_exponentSign_le (s : Bytes) : (exponentSign s).2.length ≤ s.length := by
  fun_cases exponentSign s <;> simp [*]

theorem length_skipExponent_le {s rest : Bytes} (h : skipExponent s = .ok rest) :
    rest.length ≤ s.length := by
  unfold skipExponent at h
  have hs := length_exponentSign_le s
  split at h
  · cases h
  · rename_i b t hb
    split at h
    · obtain rfl := Except.ok.inj h
      have ht := length_dropDigits_le t
      rw [hb, List.length_cons] at hs
      omega
    · cases h

theorem length_skipFraction_le {s rest : Bytes} (h : skipFraction s = .ok rest) :
    rest.length ≤ s.length := by
  fun_cases skipFraction s <;>
    grind [→ length_skipExponent_le, length_dropDigits_le, skipFraction]

/-- A number has a digit. -/
theorem length_skipNumeral_lt {s rest : Bytes} (h : skipNumeral s = .ok rest) :
    rest.length < s.length := by
  fun_cases skipNumeral s <;>
    grind [→ length_skipFraction_le, length_dropDigits_le, skipNumeral]

theorem length_colon_lt {s rest : Bytes} (h : colon s = .ok rest) : rest.length < s.length := by
  unfold colon at h
  split at h
  · cases h
  · rename_i b t hb
    split at h
    · obtain rfl := Except.ok.inj h
      exact length_lt_of_skipBlank hb
    · cases h

/-- A name, with the colon behind it, is a string. -/
theorem skipName_eq_ok_iff {s rest : Bytes} :
    skipName s = .ok rest ↔
      ∃ t u, skipBlank s = 0x22 :: t ∧ skipText t = .ok u ∧ colon u = .ok rest := by
  unfold skipName
  cases hs : skipBlank s with
  | nil => simp
  | cons b t =>
    by_cases hb : b = 0x22
    · subst hb
      simp [bind_eq_ok]
    · simp [hb]

theorem length_skipName_lt {s rest : Bytes} (h : skipName s = .ok rest) : rest.length < s.length := by
  obtain ⟨t, u, hs, ht, hu⟩ := skipName_eq_ok_iff.mp h
  calc rest.length < u.length := length_colon_lt hu
    _ ≤ t.length := length_skipText_le ht
    _ ≤ s.length := Nat.le_of_lt (length_lt_of_skipBlank hs)

theorem length_skipScalar_le {b : UInt8} {s rest : Bytes} (h : skipScalar b s = .ok rest) :
    rest.length ≤ s.length := by
  fun_cases skipScalar b s <;>
    grind [→ length_word_le, → length_skipNumeral_lt, → length_skipText_le, skipScalar]

theorem Bracket.length_label_le {top : Bracket} {s t : Bytes} (h : top.label s = .ok t) :
    t.length ≤ s.length := by
  cases top with
  | list =>
    obtain rfl := Except.ok.inj h
    exact Nat.le_refl _
  | object => exact Nat.le_of_lt (length_skipName_lt h)

theorem Enters.length_le {top : Bracket} {isFirst : Bool} {s t : Bytes}
    (h : Enters top isFirst s t) : t.length ≤ s.length := by
  cases h with
  | first hs _ ht =>
    have hle := length_skipBlank_le s
    rw [hs] at hle
    exact Nat.le_trans (Bracket.length_label_le ht) hle
  | next hs ht =>
    exact Nat.le_trans (Bracket.length_label_le ht) (Nat.le_of_lt (length_lt_of_skipBlank hs))

/-- **A value takes some of the text**, and so does what closes a bracket. -/
theorem Spans.length_lt {p : Part} {s rest : Bytes} (h : Spans p s rest) :
    rest.length < s.length := by
  induction h with
  | scalar hs ht => exact Nat.lt_of_le_of_lt (length_skipScalar_le ht) (length_lt_of_skipBlank hs)
  | bracket top hs _ ih => exact Nat.lt_trans ih (length_lt_of_skipBlank hs)
  | close hs => exact length_lt_of_skipBlank hs
  | item he _ _ ihv iht => exact Nat.lt_trans iht (Nat.lt_of_lt_of_le ihv he.length_le)

theorem Enters.congr_skipBlank {top : Bracket} {isFirst : Bool} {s s' t : Bytes}
    (hs : skipBlank s = skipBlank s') (h : Enters top isFirst s t) : Enters top isFirst s' t := by
  cases h with
  | first hb hne ht => exact .first (hs ▸ hb) hne ht
  | next hb ht => exact .next (hs ▸ hb) ht

/-- Blanks before a part do not matter. -/
theorem Spans.congr_skipBlank {p : Part} {s s' rest : Bytes} (hs : skipBlank s = skipBlank s')
    (h : Spans p s rest) : Spans p s' rest := by
  cases h with
  | scalar hb ht => exact .scalar (hs ▸ hb) ht
  | bracket top hb ht => exact .bracket top (hs ▸ hb) ht
  | close hb => exact .close (hs ▸ hb)
  | item he hv ht => exact .item (he.congr_skipBlank hs) hv ht

end ReleasePublisher.Json
