import ReleasePublisher.Proofs.Json.Tokens
import ReleasePublisher.Proofs.Json.Values
import Mathlib.Algebra.Group.Nat.Defs

/-!
# Rendered values

A value can be rendered in many ways: blanks may stand between the pieces of its text, and the characters of
its strings may be escaped. From all these texts the same value is read, as long as its integers fit 64 bits
and not too many brackets are open at once.

## Main definitions

* `Json.Renders v t`: the text renders the value
* `Json.Fits depth v`: the value has at most `depth` brackets inside each other and integers of 64 bits
* `Json.States depth t v`: the value is read from the text, whatever follows
* `Json.Padded Piece t b`: the text is a piece with blanks around it

## Main results

* `Json.States.array`, `Json.States.object`: brackets around texts that state values
* `Json.Renders.padded_states`: what renders a value states it
* `Json.parse_rendered`: a value is read from all texts that render it
-/

namespace ReleasePublisher.Json

open Utf8

variable {depth : Nat} {gap gapEnd rest t : Bytes} {v : Json}

/-! ### Blanks -/

/-- Bytes that stand between the pieces of a text only. -/
def AreBlank (gap : Bytes) : Prop :=
  ∀ b ∈ gap, isSpace b = true

theorem AreBlank.nil : AreBlank [] := nofun

theorem skipBlank_append (h : AreBlank gap) (s : Bytes) : skipBlank (gap ++ s) = skipBlank s :=
  List.dropWhile_append_of_pos h

theorem value_append (h : AreBlank gap) (s : Bytes) : value depth (gap ++ s) = value depth s := by
  rw [value, value, skipBlank_append h]

theorem isSpace_iff {b : UInt8} :
    isSpace b = true ↔ b = 0x20 ∨ b = 0x09 ∨ b = 0x0A ∨ b = 0x0D := by
  simp [isSpace, or_assoc]

/-- No digit is a blank. -/
theorem not_isSpace_of_isDigit {b : UInt8} (h : isDigit b = true) : isSpace b = false := by
  by_contra hspace
  rcases isSpace_iff.mp (eq_true_of_ne_false hspace) with rfl | rfl | rfl | rfl
  all_goals exact absurd h (by decide)

theorem Ends.nil : Ends [] := nofun

theorem Ends.cons {b : UInt8} (h : isDigit b = false ∧ b ≠ 0x2E ∧ b ≠ 0x65 ∧ b ≠ 0x45)
    (rest : Bytes) : Ends (b :: rest) := by
  intro c hc
  obtain rfl : b = c := Option.some.inj hc
  exact h

/-- No number goes on in a blank. -/
theorem Ends.append (h : AreBlank gap) (hrest : Ends rest) : Ends (gap ++ rest) := by
  cases gap with
  | nil => exact hrest
  | cons b gap =>
    apply Ends.cons
    rcases isSpace_iff.mp (h b List.mem_cons_self) with rfl | rfl | rfl | rfl
    all_goals decide

/-! ### Texts that state values -/

/-- **The text states the value**: it begins with no blank, and the value is read from it wherever no number
goes on behind it. -/
structure States (depth : Nat) (t : Bytes) (v : Json) : Prop where
  value_eq : ∀ rest, Ends rest → value depth (t ++ rest) = .ok (v, rest)
  skipBlank_eq : ∀ rest, skipBlank (t ++ rest) = t ++ rest

namespace States

theorem gives (h : States depth t v) (hrest : Ends rest) : Gives (value depth) (t ++ rest) v :=
  ⟨rest, h.value_eq rest hrest⟩

theorem spans (h : States depth t v) (hrest : Ends rest) : Spans .value (t ++ rest) rest :=
  reads_value depth _ _ _ (h.value_eq rest hrest)

theorem null : States depth (encodeChars ['n', 'u', 'l', 'l']) .null where
  value_eq rest _ := value_eq_null_iff.mpr ⟨_, skipBlank_cons (by decide) _, rfl⟩
  skipBlank_eq _ := skipBlank_cons (by decide) _

theorem bool (b : Bool) : States depth (encodeChars (compactChars (.bool b))) (.bool b) := by
  cases b with
  | true =>
    refine ⟨fun rest _ => ?_, fun _ => skipBlank_cons (by decide) _⟩
    exact (value_eq_scalar (skipBlank_cons (by decide) _) (by decide) (by decide)).trans rfl
  | false =>
    refine ⟨fun rest _ => ?_, fun _ => skipBlank_cons (by decide) _⟩
    exact (value_eq_scalar (skipBlank_cons (by decide) _) (by decide) (by decide)).trans rfl

theorem text {s : String} {token : List Char} (h : IsSpelling s token) :
    States depth (encodeChars token) (.text s) := by
  obtain ⟨q, hq, hread⟩ := h.exists_bytes
  constructor
  · intro rest _
    rw [hq]
    exact value_eq_text_iff.mpr ⟨q ++ rest, skipBlank_cons (by decide) _, hread rest⟩
  · intro rest
    rw [hq]
    exact skipBlank_cons (by decide) _

theorem natural {n : Nat} (h : n ≤ maxSignificand) :
    States depth (encodeChars (Nat.toDigits 10 n)) (.number (.natural n)) := by
  obtain ⟨b, bs, hbytes, hdigit, -⟩ := digitsInto_toDigits h
  have hskip : ∀ rest, skipBlank (encodeChars (Nat.toDigits 10 n) ++ rest) = b :: (bs ++ rest) := by
    intro rest
    rw [hbytes]
    exact skipBlank_cons (not_isSpace_of_isDigit hdigit) _
  constructor
  · intro rest hrest
    refine value_eq_number_iff.mpr (.inr ⟨b, bs ++ rest, hskip rest, hdigit, ?_⟩)
    rw [← List.cons_append, ← hbytes]
    exact numeral_toDigits h true hrest
  · intro rest
    rw [hskip, hbytes]
    rfl

theorem negative {n : Nat} (hzero : 0 < n) (h : n ≤ 2 ^ 63) :
    States depth (encodeChars ('-' :: Nat.toDigits 10 n)) (.number (.negative n)) := by
  have hmax : n ≤ maxSignificand := Nat.le_trans h (by decide)
  have hsign : ∀ rest, encodeChars ('-' :: Nat.toDigits 10 n) ++ rest =
      0x2D :: (encodeChars (Nat.toDigits 10 n) ++ rest) := by
    intro rest
    rw [← List.singleton_append, encodeChars_append, List.append_assoc]
    rfl
  -- Zero with a sign would be a floating-point number, and so would one beyond 63 bits.
  have hinteger : integer false n = .negative n := by
    have hnot : ¬ (n = 0 ∨ Nat.pow 2 63 < n) := by
      rintro (h0 | hlarge)
      · omega
      · exact absurd h (Nat.not_le.mpr hlarge)
    simp [integer, not_or.mp hnot]
  constructor
  · intro rest hrest
    rw [hsign]
    refine value_eq_number_iff.mpr (.inl ⟨_, skipBlank_cons (by decide) _, ?_⟩)
    rw [numeral_toDigits hmax false hrest, hinteger]
  · intro rest
    rw [hsign]
    exact skipBlank_cons (by decide) _

end States

/-! ### Pieces with commas between them -/

/-- **A piece with blanks around it.** -/
def Padded {β : Type} (Piece : Bytes → β → Prop) (t : Bytes) (b : β) : Prop :=
  ∃ before p after, AreBlank before ∧ AreBlank after ∧ t = before ++ (p ++ after) ∧ Piece p b

theorem Padded.of_piece {β : Type} {Piece : Bytes → β → Prop} {b : β} (h : Piece t b) :
    Padded Piece t b :=
  ⟨[], t, [], .nil, .nil, (List.append_nil t).symm, h⟩

theorem Padded.append {β : Type} {Piece : Bytes → β → Prop} {b : β} (h : Padded Piece t b)
    (hgap : AreBlank gap) (hgapEnd : AreBlank gapEnd) : Padded Piece (gap ++ (t ++ gapEnd)) b := by
  obtain ⟨before, p, after, hbefore, hafter, rfl, hp⟩ := h
  refine ⟨gap ++ before, p, after ++ gapEnd, ?_, ?_, by simp, hp⟩
  · exact List.forall_mem_append.mpr ⟨hgap, hbefore⟩
  · exact List.forall_mem_append.mpr ⟨hafter, hgapEnd⟩

/-- Commas stand before all pieces but the first. -/
theorem intercalate_comma (p : Bytes) (ps : List Bytes) :
    List.intercalate [0x2C] (p :: ps) = p ++ ps.flatMap (0x2C :: ·) := by
  induction ps generalizing p with
  | nil => simp
  | cons q ps ih => simp [List.intercalate_cons_cons, ih q]

/-- **A reader of pieces** up to a closing byte: `Read isFirst s bs` says that `bs` is read from `s`, where
the first piece may have no comma before it. -/
structure ReadsPieces {β : Type} (closing : UInt8) (rest : Bytes) (Piece : Bytes → β → Prop)
    (Read : Bool → Bytes → List β → Prop) : Prop where
  closing_ends : Ends (closing :: rest)
  closing_shown : isSpace closing = false
  skipBlank_eq : ∀ {p b}, Piece p b → ∀ u, skipBlank (p ++ u) = p ++ u
  nil : ∀ {isFirst s}, skipBlank s = closing :: rest → Read isFirst s []
  cons : ∀ {isFirst s p b bs u}, BehindComma isFirst s (p ++ u) → Piece p b → Ends u →
    Read false u bs → Read isFirst s (b :: bs)

namespace ReadsPieces

variable {β : Type} {closing : UInt8} {Piece : Bytes → β → Prop} {Read : Bool → Bytes → List β → Prop}
  {ps : List Bytes} {bs : List β}

/-- No number goes on behind a piece. -/
theorem ends (h : ReadsPieces closing rest Piece Read) (hgapEnd : AreBlank gapEnd) (ps : List Bytes) :
    Ends (ps.flatMap (0x2C :: ·) ++ (gapEnd ++ closing :: rest)) := by
  cases ps with
  | nil =>
    rw [List.flatMap_nil, List.nil_append]
    exact .append hgapEnd h.closing_ends
  | cons p ps => exact .cons (by decide) _

theorem skipBlank_end (h : ReadsPieces closing rest Piece Read) (hgapEnd : AreBlank gapEnd) :
    skipBlank (gapEnd ++ closing :: rest) = closing :: rest := by
  rw [skipBlank_append hgapEnd, skipBlank_cons h.closing_shown]

/-- The pieces behind the first are read: each has a comma before it. -/
theorem read_tail (h : ReadsPieces closing rest Piece Read) (hgapEnd : AreBlank gapEnd)
    (hps : List.Forall₂ (Padded Piece) ps bs) (hgap : AreBlank gap) :
    Read false (gap ++ (ps.flatMap (0x2C :: ·) ++ (gapEnd ++ closing :: rest))) bs := by
  induction hps generalizing gap with
  | nil =>
    apply h.nil
    rw [skipBlank_append hgap]
    exact h.skipBlank_end hgapEnd
  | @cons _ b ps bs hp _ ih =>
    obtain ⟨before, p, after, hbefore, hafter, rfl, hp⟩ := hp
    have hread := ih hafter
    have hends := h.ends hgapEnd ps
    rw [List.flatMap_cons, List.cons_append, List.cons_append, List.append_assoc]
    generalize ps.flatMap (0x2C :: ·) ++ (gapEnd ++ closing :: rest) = u at hread hends
    have hskip : skipBlank (before ++ (p ++ (after ++ u))) = p ++ (after ++ u) := by
      rw [skipBlank_append hbefore, h.skipBlank_eq hp]
    have hcomma : skipBlank (gap ++ 0x2C :: (before ++ (p ++ (after ++ u)))) =
        0x2C :: (before ++ (p ++ (after ++ u))) := by
      rw [skipBlank_append hgap, skipBlank_cons (by decide)]
    rw [List.append_assoc, List.append_assoc]
    exact h.cons (.inr ⟨rfl, _, hcomma, hskip⟩) hp (.append hafter hends) hread

/-- **All pieces are read**, with blanks around each of them and before the closing byte. -/
theorem read (h : ReadsPieces closing rest Piece Read) (hgapEnd : AreBlank gapEnd)
    (hps : List.Forall₂ (Padded Piece) ps bs) :
    Read true (List.intercalate [0x2C] ps ++ (gapEnd ++ closing :: rest)) bs := by
  cases hps with
  | nil => exact h.nil (h.skipBlank_end hgapEnd)
  | @cons _ b ps bs hp hps =>
    obtain ⟨before, p, after, hbefore, hafter, rfl, hp⟩ := hp
    rw [intercalate_comma, List.append_assoc, List.append_assoc, List.append_assoc]
    refine h.cons (.inl ⟨rfl, ?_⟩) hp (.append hafter (h.ends hgapEnd ps)) (h.read_tail hgapEnd hps hafter)
    rw [skipBlank_append hbefore, h.skipBlank_eq hp]

end ReadsPieces

/-! ### Brackets -/

/-- **The text states the member**: its name, a colon, and its value. -/
def StatesMember (depth : Nat) (p : Bytes) (m : String × Json) : Prop :=
  ∃ token before after t, IsSpelling m.1 token ∧ AreBlank before ∧ AreBlank after ∧
    p = encodeChars token ++ (before ++ 0x3A :: (after ++ t)) ∧ States depth t m.2

theorem StatesMember.skipBlank_eq {p : Bytes} {m : String × Json} (h : StatesMember depth p m)
    (rest : Bytes) : skipBlank (p ++ rest) = p ++ rest := by
  obtain ⟨token, _, _, _, htoken, -, -, rfl, -⟩ := h
  obtain ⟨q, hq, -⟩ := htoken.exists_bytes
  rw [hq]
  exact skipBlank_cons (by decide) _

/-- What is read of a member. -/
theorem StatesMember.exists_parts {p : Bytes} {m : String × Json} (h : StatesMember depth p m)
    (hrest : Ends rest) :
    ∃ q r u, p ++ rest = 0x22 :: q ∧ textBody q = .ok (m.1, r) ∧ colon r = .ok u ∧
      Spans .value u rest ∧ Gives (value depth) u m.2 := by
  obtain ⟨token, before, after, t, htoken, hbefore, hafter, rfl, ht⟩ := h
  obtain ⟨q, hq, hread⟩ := htoken.exists_bytes
  have hvalue : value depth (after ++ (t ++ rest)) = .ok (m.2, rest) := by
    rw [value_append hafter, ht.value_eq rest hrest]
  refine ⟨_, _, after ++ (t ++ rest), ?_, hread (before ++ 0x3A :: (after ++ (t ++ rest))), ?_,
    reads_value depth _ _ _ hvalue, ⟨rest, hvalue⟩⟩
  · rw [hq]
    simp
  · rw [colon, skipBlank_append hbefore, skipBlank_cons (by decide)]
    rfl

/-- **A list reads its elements.** -/
theorem readsPieces_list (depth : Nat) (rest : Bytes) :
    ReadsPieces 0x5D rest (States depth) fun isFirst s vs =>
      ∃ ts, Elements isFirst s ts rest ∧ List.Forall₂ (Gives (value depth)) ts vs where
  closing_ends := .cons (by decide) rest
  closing_shown := by decide
  skipBlank_eq h := h.skipBlank_eq
  nil hs := ⟨[], .nil hs, .nil⟩
  cons hs hp hu := by
    rintro ⟨ts, hts, hall⟩
    exact ⟨_, .cons hs (hp.spans hu) hts, .cons (hp.gives hu) hall⟩

/-- **An object reads its members.** -/
theorem readsPieces_object (depth : Nat) (rest : Bytes) :
    ReadsPieces 0x7D rest (StatesMember depth) fun isFirst s ms =>
      ∃ ts, Members isFirst s ts rest ∧ List.Forall₂ (GivesMember (value depth)) ts ms where
  closing_ends := .cons (by decide) rest
  closing_shown := by decide
  skipBlank_eq h := h.skipBlank_eq
  nil hs := ⟨[], .nil hs, .nil⟩
  cons hs hp hu := by
    rintro ⟨ts, hts, hall⟩
    obtain ⟨q, r, t, hq, hr, ht, hspans, hgives⟩ := hp.exists_parts hu
    rw [hq] at hs
    exact ⟨_, .cons hs hr ht hspans hts, .cons ⟨rfl, hgives⟩ hall⟩

namespace States

/-- **Texts in square brackets** state a list. -/
theorem array (hgapEnd : AreBlank gapEnd) {ps : List Bytes} {vs : List Json}
    (hps : List.Forall₂ (Padded (States depth)) ps vs) :
    States (depth + 1) (0x5B :: (List.intercalate [0x2C] ps ++ (gapEnd ++ [0x5D]))) (.array vs) := by
  refine ⟨fun rest _ => ?_, fun rest => skipBlank_cons (by decide) _⟩
  have hbody := (listBody_eq_ok_iff (reads_value depth)).mpr
    ((readsPieces_list depth rest).read hgapEnd hps)
  simp only [List.cons_append, List.append_assoc, List.nil_append]
  rw [value, skipBlank_cons (by decide)]
  simp [hbody, Except.map]

/-- **Members in braces** state an object. -/
theorem object (hgapEnd : AreBlank gapEnd) {ps : List Bytes} {ms : List (String × Json)}
    (hps : List.Forall₂ (Padded (StatesMember depth)) ps ms) :
    States (depth + 1) (0x7B :: (List.intercalate [0x2C] ps ++ (gapEnd ++ [0x7D]))) (.object ms) := by
  refine ⟨fun rest _ => ?_, fun rest => skipBlank_cons (by decide) _⟩
  have hbody := (objectBody_eq_ok_iff (reads_value depth)).mpr
    ((readsPieces_object depth rest).read hgapEnd hps)
  simp only [List.cons_append, List.append_assoc, List.nil_append]
  rw [value, skipBlank_cons (by decide)]
  simp [hbody, Except.map]

end States

/-! ### Texts that render values -/

/-- Characters that stand between the pieces of a text only. -/
def IsGap (gap : List Char) : Prop :=
  ∀ c ∈ gap, c ∈ [' ', '\t', '\n', '\r']

/-- What stands before the value of a member: its name in any spelling, and a colon. -/
def IsLabel (name : String) (label : List Char) : Prop :=
  ∃ before token after, IsGap before ∧ IsGap after ∧ IsSpelling name token ∧
    label = before ++ (token ++ (after ++ [':']))

/-- A member of an object, with its label and the text of its value. -/
structure LabelledMember where
  name : String
  value : Json
  label : List Char
  text : List Char

/-- **The text renders the value.** Its strings may be spelled in any way, its integers have their decimal
digits, and blanks may stand around all its pieces. -/
inductive Renders : Json → List Char → Prop
  | padded {v : Json} {before t after : List Char} (hbefore : IsGap before) (hafter : IsGap after)
      (h : Renders v t) : Renders v (before ++ (t ++ after))
  | null : Renders .null ['n', 'u', 'l', 'l']
  | true : Renders (.bool .true) ['t', 'r', 'u', 'e']
  | false : Renders (.bool .false) ['f', 'a', 'l', 's', 'e']
  | natural (n : Nat) : Renders (.number (.natural n)) (Nat.toDigits 10 n)
  | negative (n : Nat) : Renders (.number (.negative n)) ('-' :: Nat.toDigits 10 n)
  | text {s : String} {token : List Char} (h : IsSpelling s token) : Renders (.text s) token
  | array {items : List (Json × List Char)} {gap : List Char} (hgap : IsGap gap)
      (h : ∀ i ∈ items, Renders i.1 i.2) :
      Renders (.array (items.map (·.1))) ('[' :: (joined [','] (items.map (·.2)) ++ (gap ++ [']'])))
  | object {items : List LabelledMember} {gap : List Char} (hgap : IsGap gap)
      (hlabel : ∀ i ∈ items, IsLabel i.name i.label) (h : ∀ i ∈ items, Renders i.value i.text) :
      Renders (.object (items.map fun i => (i.name, i.value)))
        ('{' :: (joined [','] (items.map fun i => i.label ++ i.text) ++ (gap ++ ['}'])))

/-- **The value can be read again**: it has at most `depth` brackets inside each other, and its numbers are
integers within 64 bits. -/
inductive Fits : Nat → Json → Prop
  | null {depth : Nat} : Fits depth .null
  | bool {depth : Nat} (b : Bool) : Fits depth (.bool b)
  | natural {depth n : Nat} : n < 2 ^ 64 → Fits depth (.number (.natural n))
  | negative {depth n : Nat} : 0 < n → n ≤ 2 ^ 63 → Fits depth (.number (.negative n))
  | text {depth : Nat} (s : String) : Fits depth (.text s)
  | array {depth : Nat} {vs : List Json} : (∀ v ∈ vs, Fits depth v) → Fits (depth + 1) (.array vs)
  | object {depth : Nat} {ms : List (String × Json)} : (∀ m ∈ ms, Fits depth m.2) →
      Fits (depth + 1) (.object ms)

theorem IsGap.areBlank {gap : List Char} (h : IsGap gap) : AreBlank (encodeChars gap) := by
  intro b hb
  obtain ⟨c, hc, hbc⟩ := List.mem_flatMap.mp hb
  have hblank : [' ', '\t', '\n', '\r'].all (fun c => (encodeChar c).all isSpace) = true := by decide
  exact List.all_eq_true.mp (List.all_eq_true.mp hblank c (h c hc)) b hbc

theorem encodeChars_joined (pieces : List (List Char)) :
    encodeChars (joined [','] pieces) = List.intercalate [0x2C] (pieces.map encodeChars) := by
  induction pieces with
  | nil => rfl
  | cons p ps ih =>
    cases ps with
    | nil => simp [joined]
    | cons q ps =>
      rw [joined, List.intercalate_cons_cons, encodeChars_append, encodeChars_append, ← joined, ih]
      simp only [List.map_cons, List.intercalate_cons_cons]
      rfl

/-- A bracket around items is one around their bytes. -/
theorem encodeChars_bracket (first last : Char) (pieces : List (List Char)) (gap : List Char) :
    encodeChars (first :: (joined [','] pieces ++ (gap ++ [last]))) =
      encodeChars [first] ++
        (List.intercalate [0x2C] (pieces.map encodeChars) ++ (encodeChars gap ++ encodeChars [last])) := by
  rw [← List.singleton_append, encodeChars_append, encodeChars_append, encodeChars_append,
    encodeChars_joined]

/-- A label and a value with blanks around it make a member. -/
theorem IsLabel.padded_states {name : String} {label : List Char} (h : IsLabel name label) {v : Json}
    {t : Bytes} (ht : Padded (States depth) t v) :
    Padded (StatesMember depth) (encodeChars label ++ t) (name, v) := by
  obtain ⟨before, token, after, hbefore, hafter, htoken, rfl⟩ := h
  obtain ⟨gap, p, gapEnd, hgap, hgapEnd, rfl, hp⟩ := ht
  refine ⟨_, _, gapEnd, hbefore.areBlank, hgapEnd, ?_,
    ⟨token, _, gap, p, htoken, hafter.areBlank, hgap, rfl, hp⟩⟩
  simp only [encodeChars_append, List.append_assoc, List.cons_append]
  rfl

/-- **What renders a value states it**, with blanks around it. -/
theorem Renders.padded_states {v : Json} {t : List Char} (h : Renders v t) (hfits : Fits depth v) :
    Padded (States depth) (encodeChars t) v := by
  induction h generalizing depth with
  | padded hbefore hafter _ ih =>
    rw [encodeChars_append, encodeChars_append]
    exact (ih hfits).append hbefore.areBlank hafter.areBlank
  | null => exact .of_piece .null
  | true => exact .of_piece (.bool .true)
  | false => exact .of_piece (.bool .false)
  | natural n =>
    cases hfits with
    | natural hn => exact .of_piece (.natural (Nat.le_pred_of_lt hn))
  | negative n =>
    cases hfits with
    | negative hzero hn => exact .of_piece (.negative hzero hn)
  | text h => exact .of_piece (.text h)
  | @array items gap hgap _ ih =>
    cases hfits with
    | array hall =>
      rw [encodeChars_bracket, List.map_map]
      refine .of_piece (.array hgap.areBlank ?_)
      rw [List.forall₂_map_left_iff, List.forall₂_map_right_iff, List.forall₂_same]
      exact fun i hi => ih i hi (hall i.1 (List.mem_map_of_mem hi))
  | @object items gap hgap hlabel _ ih =>
    cases hfits with
    | object hall =>
      rw [encodeChars_bracket, List.map_map]
      refine .of_piece (.object hgap.areBlank ?_)
      rw [List.forall₂_map_left_iff, List.forall₂_map_right_iff, List.forall₂_same]
      intro i hi
      have hvalue := ih i hi (hall _ (List.mem_map_of_mem hi))
      rw [Function.comp_apply, encodeChars_append]
      exact (hlabel i hi).padded_states hvalue

/-- A text is read as the one value that it states, with blanks around it. -/
theorem Padded.parse_eq {t : Bytes} (h : Padded (States maxDepth) t v) : parse t = .ok v := by
  obtain ⟨before, p, after, hbefore, hafter, rfl, hp⟩ := h
  have hends : Ends after := by simpa using Ends.append hafter .nil
  refine wholeText_eq_ok_iff.mpr ⟨after, ?_, ?_⟩
  · rw [value_append hbefore]
    exact hp.value_eq after hends
  · rw [← List.append_nil after, skipBlank_append hafter]
    rfl

/-- **A value is read from all texts that render it.** -/
theorem parse_rendered {t : List Char} (h : Renders v t) (hfits : Fits maxDepth v) :
    parse (encodeChars t) = .ok v :=
  (h.padded_states hfits).parse_eq

end ReleasePublisher.Json
