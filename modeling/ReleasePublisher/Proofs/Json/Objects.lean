import ReleasePublisher.Proofs.Json.Placement
import ReleasePublisher.Proofs.Json.Records
import ReleasePublisher.Proofs.Json.Spellings

/-!
# Objects as they are written

An object is told by the members that are written in it: the strings that are their names and the texts of
their values, in their order. A member has a name if its string spells it; a string with half of a surrogate
pair in it spells no name. The members that are read of an object are those that are written in it.

## Main definitions

* `Json.Bracket.Encloses top Piece t bs`: a text is a bracket around pieces
* `Json.WrittenMember`: a member as it is written
* `Json.IsObject t ms`: a text is an object with these members
* `Json.Opens p t`: a text goes on from a piece
* `Json.IsSole name ms m`, `Json.IsAbsent name ms`, `Json.IsRepeated name ms`: how often a name is there

## Main results

* `Json.IsObject.exists_members`, `Json.IsObject.reads_members`: the members that are written are read, and
  no others
* `Json.Entries.exists_isObject`: where an object is read, one is written
* `Json.filter_eq_nil_iff`, `Json.IsSole.exists_filter`, `Json.exists_sole_of_filter`,
  `Json.IsRepeated.lt_length_filter`: how often a name is read
-/

namespace ReleasePublisher.Json

open Utf8

variable {s t rest gap : Bytes} {isFirst : Bool} {name : String}

/-- Where each of a list has its counterpart, there is a list of counterparts. -/
theorem exists_forall₂ {α β : Type} {R : α → β → Prop} {l : List α} (h : ∀ a ∈ l, ∃ b, R a b) :
    ∃ k, List.Forall₂ R l k := by
  induction l with
  | nil => exact ⟨[], .nil⟩
  | cons a l ih =>
    obtain ⟨⟨b, hb⟩, hl⟩ := List.forall_mem_cons.mp h
    obtain ⟨k, hk⟩ := ih hl
    exact ⟨b :: k, .cons hb hk⟩

/-- A list is split as the list is that it goes with. -/
theorem exists_split {α β : Type} {R : α → β → Prop} {before after : List α} {a : α} {l : List β}
    (h : List.Forall₂ R (before ++ a :: after) l) :
    ∃ before' b after', l = before' ++ b :: after' ∧ List.Forall₂ R before before' ∧ R a b ∧
      List.Forall₂ R after after' := by
  induction before generalizing l with
  | nil =>
    obtain _ | ⟨ha, hafter⟩ := h
    exact ⟨[], _, _, rfl, .nil, ha, hafter⟩
  | cons c before ih =>
    obtain _ | ⟨hc, h⟩ := h
    obtain ⟨before', b, after', rfl, hbefore, ha, hafter⟩ := ih h
    exact ⟨_ :: before', b, after', rfl, .cons hc hbefore, ha, hafter⟩

/-- An element of a list has its counterpart in the list that goes with it. -/
theorem exists_counterpart {α β : Type} {R : α → β → Prop} {l : List α} {k : List β}
    (h : List.Forall₂ R l k) {a : α} (ha : a ∈ l) : ∃ b ∈ k, R a b := by
  obtain ⟨before, after, rfl⟩ := List.append_of_mem ha
  obtain ⟨_, b, _, rfl, -, hab, -⟩ := exists_split h
  exact ⟨b, by simp, hab⟩

/-! ### Members as they are written -/

/-- **A bracket around pieces**, with commas between them and blanks around them. -/
def Bracket.Encloses {β : Type} (top : Bracket) (Piece : Bytes → β → Prop) (t : Bytes) (bs : List β) :
    Prop :=
  ∃ ps gap, List.Forall₂ (Padded Piece) ps bs ∧ AreBlank gap ∧
    t = top.opening :: (List.intercalate [0x2C] ps ++ (gap ++ [top.closing]))

/-- **A member as it is written**: the string that is its name, with its quotes, and the text of its value. -/
structure WrittenMember where
  name : Bytes
  value : Bytes

/-- The string of a member spells the name. -/
def WrittenMember.IsNamed (m : WrittenMember) (name : String) : Prop :=
  ∃ token, IsSpelling name token ∧ m.name = encodeChars token

/-- The text is the member, with a colon between its string and its value. -/
def WrittenMember.IsText (p : Bytes) (m : WrittenMember) : Prop :=
  ∃ before after, IsString m.name ∧ IsWellFormed m.value ∧ AreBlank before ∧ AreBlank after ∧
    p = m.name ++ (before ++ 0x3A :: (after ++ m.value))

/-- **The text is an object** with these members. -/
def IsObject (t : Bytes) (ms : List WrittenMember) : Prop :=
  Bracket.object.Encloses WrittenMember.IsText t ms

/-- One member has the name, and no other. -/
def IsSole (name : String) (ms : List WrittenMember) (m : WrittenMember) : Prop :=
  ∃ before after, ms = before ++ m :: after ∧ m.IsNamed name ∧ ∀ m' ∈ before ++ after, ¬ m'.IsNamed name

/-- No member has the name. -/
def IsAbsent (name : String) (ms : List WrittenMember) : Prop :=
  ∀ m ∈ ms, ¬ m.IsNamed name

/-- Two members have the name. -/
def IsRepeated (name : String) (ms : List WrittenMember) : Prop :=
  ∃ before m between m' after, ms = before ++ m :: (between ++ m' :: after) ∧ m.IsNamed name ∧
    m'.IsNamed name

/-- A spelling is a string. -/
theorem isString_of_isSpelling {token : List Char} (h : IsSpelling name token) :
    IsString (encodeChars token) := by
  obtain ⟨q, hq, hread⟩ := h.exists_bytes
  obtain ⟨u, hu, hbytes⟩ := isString_of_skipText (skipText_of_textBody (hread []))
  obtain rfl : q = u := by simpa using hbytes
  rw [hq]
  exact hu

theorem WrittenMember.IsNamed.unique {m : WrittenMember} {name' : String} (h : m.IsNamed name)
    (h' : m.IsNamed name') : name = name' := by
  obtain ⟨token, htoken, hm⟩ := h
  obtain ⟨token', htoken', hm'⟩ := h'
  obtain ⟨q, hq, hread⟩ := htoken.exists_bytes
  obtain ⟨q', hq', hread'⟩ := htoken'.exists_bytes
  have hbytes : (0x22 : UInt8) :: q = 0x22 :: q' := by
    rw [← hq, ← hm, hm', hq']
  obtain ⟨-, rfl⟩ := List.cons.inj hbytes
  exact (Prod.mk.inj (Except.ok.inj ((hread []).symm.trans (hread' [])))).1

/-! ### Entries -/

/-- **The entries of an object**, whether or not they have names: the text from behind the opening quote of
each name, and the text from behind the colon; `rest` follows the closing brace. -/
inductive Entries : Bool → Bytes → List (Bytes × Bytes) → Bytes → Prop
  | nil {s rest : Bytes} {isFirst : Bool} : skipBlank s = 0x7D :: rest → Entries isFirst s [] rest
  | cons {s q r t u rest : Bytes} {isFirst : Bool} {es : List (Bytes × Bytes)} :
      BehindComma isFirst s (0x22 :: q) → skipText q = .ok r → colon r = .ok t → Spans .value t u →
      Entries false u es rest → Entries isFirst s ((q, t) :: es) rest

theorem BehindComma.congr {s' : Bytes} (h : BehindComma isFirst s t) (hs : skipBlank s' = skipBlank s) :
    BehindComma isFirst s' t := by
  rcases h with ⟨hfirst, h⟩ | ⟨hfirst, u, h, hu⟩
  · exact .inl ⟨hfirst, hs.trans h⟩
  · exact .inr ⟨hfirst, u, hs.trans h, hu⟩

/-- What stands behind a comma is told by the text. -/
theorem BehindComma.unique {t' : Bytes} (h : BehindComma isFirst s t) (h' : BehindComma isFirst s t') :
    t = t' := by
  rcases h with ⟨rfl, h⟩ | ⟨rfl, u, h, hu⟩
  · rcases h' with ⟨-, h'⟩ | ⟨hfirst, -⟩
    · exact h.symm.trans h'
    · cases hfirst
  · rcases h' with ⟨hfirst, -⟩ | ⟨-, u', h', hu'⟩
    · cases hfirst
    · obtain ⟨-, rfl⟩ := List.cons.inj (h.symm.trans h')
      exact hu.symm.trans hu'

/-- Where an item stands behind a comma, the bracket is not closed. -/
theorem BehindComma.ne_closing {top : Bracket} (h : BehindComma isFirst s t)
    (hs : skipBlank s = top.closing :: rest) : isFirst = true ∧ t = top.closing :: rest := by
  rcases h with ⟨rfl, h⟩ | ⟨rfl, u, h, -⟩
  · exact ⟨rfl, h.symm.trans hs⟩
  · exact absurd (List.cons.inj (h.symm.trans hs)).1 (closing_ne_comma top)

namespace Entries

theorem congr_skipBlank {s' : Bytes} {es : List (Bytes × Bytes)} (h : Entries isFirst s es rest)
    (hs : skipBlank s' = skipBlank s) : Entries isFirst s' es rest := by
  cases h with
  | nil hend => exact .nil (hs.trans hend)
  | cons hnext hr ht hv hes => exact .cons (hnext.congr hs) hr ht hv hes

/-- **The entries of an object** are told by its text. -/
theorem unique {es es' : List (Bytes × Bytes)} {rest' : Bytes} (h : Entries isFirst s es rest)
    (h' : Entries isFirst s es' rest') : es = es' ∧ rest = rest' := by
  -- The first byte behind the blanks and the comma tells the closing brace from the quote of a name.
  induction h generalizing es' with
  | nil hs =>
    cases h' with
    | nil hs' => exact ⟨rfl, (List.cons.inj (hs.symm.trans hs')).2⟩
    | cons hnext =>
      obtain ⟨-, hclosing⟩ := BehindComma.ne_closing hnext (show _ = Bracket.object.closing :: _ from hs)
      cases hclosing
  | cons hnext hr ht hv _ ih =>
    cases h' with
    | nil hs =>
      obtain ⟨-, hclosing⟩ := BehindComma.ne_closing hnext (show _ = Bracket.object.closing :: _ from hs)
      cases hclosing
    | cons hnext' hr' ht' hv' hes' =>
      obtain ⟨-, rfl⟩ := List.cons.inj (hnext.unique hnext')
      obtain rfl := Except.ok.inj (hr.symm.trans hr')
      obtain rfl := Except.ok.inj (ht.symm.trans ht')
      obtain rfl := hv.unique hv'
      obtain ⟨rfl, rfl⟩ := ih hes'
      exact ⟨rfl, rfl⟩

/-- A member is an entry with a name. -/
def IsMember (e : Bytes × Bytes) (m : String × Bytes) : Prop :=
  (∃ r, textBody e.1 = .ok (m.1, r)) ∧ e.2 = m.2

/-- **Entries with names are members.** -/
theorem members {es : List (Bytes × Bytes)} (h : Entries isFirst s es rest) {ms : List (String × Bytes)}
    (hms : List.Forall₂ IsMember es ms) : Members isFirst s ms rest := by
  induction h generalizing ms with
  | nil hs =>
    cases hms
    exact .nil hs
  | @cons _ q _ _ _ _ _ _ hnext hr ht hv _ ih =>
    obtain _ | @⟨_, ⟨name, t⟩, _, _, ⟨⟨r, hname⟩, hvalue⟩, hms⟩ := hms
    obtain rfl := Except.ok.inj (hr.symm.trans (skipText_of_textBody hname))
    obtain rfl : _ = t := hvalue
    exact .cons hnext hname ht hv (ih hms)

end Entries

/-- **Members are entries** with names. -/
theorem Members.exists_entries {ms : List (String × Bytes)} (h : Members isFirst s ms rest) :
    ∃ es, Entries isFirst s es rest ∧ List.Forall₂ Entries.IsMember es ms := by
  induction h with
  | nil hs => exact ⟨[], .nil hs, .nil⟩
  | @cons _ q r t _ _ _ _ _ hnext hr ht hv _ ih =>
    obtain ⟨es, hes, hms⟩ := ih
    exact ⟨(q, t) :: es, .cons hnext (skipText_of_textBody hr) ht hv hes, .cons ⟨⟨r, hr⟩, rfl⟩ hms⟩

/-! ### What is read of an object -/

/-- **The text opens with the piece**, with blanks before it, and no number goes on behind it. -/
def Opens (p t : Bytes) : Prop :=
  ∃ gap rest, AreBlank gap ∧ Ends rest ∧ t = gap ++ (p ++ rest)

/-- The entry is the member, as it stands in a text. -/
def WrittenMember.IsEntry (m : WrittenMember) (e : Bytes × Bytes) : Prop :=
  (IsString m.name ∧ ∃ r, 0x22 :: e.1 = m.name ++ r) ∧ Opens m.value e.2

/-- **What is read of a member** is its name, and the text from its value on. -/
def WrittenMember.IsRead (m : WrittenMember) (m' : String × Bytes) : Prop :=
  m.IsNamed m'.1 ∧ Opens m.value m'.2

/-- A name is read where the string of the member spells it. -/
theorem WrittenMember.IsEntry.isRead_iff {m : WrittenMember} {e : Bytes × Bytes} (h : m.IsEntry e)
    {m' : String × Bytes} : Entries.IsMember e m' ↔ m.IsRead m' ∧ e.2 = m'.2 := by
  obtain ⟨⟨hstring, r, hr⟩, hvalue⟩ := h
  constructor
  · rintro ⟨⟨r', hname⟩, he⟩
    refine ⟨⟨?_, he ▸ hvalue⟩, he⟩
    obtain ⟨token, htoken, hbytes⟩ := textBody_eq_ok_iff.mp hname
    obtain ⟨q, hq, hskip⟩ := hstring.exists_tail
    -- Both the string and the spelling end where the name is passed over.
    have hsame : r = r' := by
      have hafter := skipText_of_textBody hname
      rw [hq, List.cons_append] at hr
      rw [(List.cons.inj hr).2, hskip] at hafter
      exact Except.ok.inj hafter
    refine ⟨token, htoken, ?_⟩
    rw [hr, hsame] at hbytes
    exact List.append_cancel_right hbytes
  · rintro ⟨⟨⟨token, htoken, hm⟩, -⟩, he⟩
    refine ⟨⟨r, textBody_eq_ok_iff.mpr ⟨token, htoken, ?_⟩⟩, he⟩
    rw [hr, hm]

theorem IsWellFormed.exists_spans (h : IsWellFormed t) (hrest : Ends rest) :
    ∃ after, AreBlank after ∧ Spans .value (t ++ rest) (after ++ rest) := by
  obtain ⟨before, p, after, hbefore, hafter, rfl, hp⟩ := h.padded_stands
  refine ⟨after, hafter, ?_⟩
  rw [List.append_assoc, List.append_assoc]
  exact (hp.spans (after ++ rest) (.append hafter hrest)).append hbefore

/-- **An object passes over its entries.** -/
theorem readsPieces_entries (rest : Bytes) :
    ReadsPieces 0x7D rest WrittenMember.IsText fun isFirst s ms =>
      ∃ es, Entries isFirst s es rest ∧ List.Forall₂ WrittenMember.IsEntry ms es where
  closing_ends := .cons (by decide) rest
  closing_shown := by decide
  skipBlank_eq {p m} h u := by
    obtain ⟨before, after, hname, -, -, -, rfl⟩ := h
    obtain ⟨q, hq, -⟩ := hname.exists_tail
    rw [hq]
    exact skipBlank_cons (by decide) _
  nil hs := ⟨[], .nil hs, .nil⟩
  cons {isFirst s p m ms u} hs hp hu := by
    rintro ⟨es, hes, hall⟩
    obtain ⟨before, after, hname, hvalue, hbefore, hafter, rfl⟩ := hp
    obtain ⟨q, hq, hskip⟩ := hname.exists_tail
    obtain ⟨gap, hgap, hspans⟩ := hvalue.exists_spans hu
    rw [hq] at hs
    simp only [List.cons_append, List.append_assoc] at hs
    have hentry : m.IsEntry (q ++ (before ++ 0x3A :: (after ++ (m.value ++ u))), after ++ (m.value ++ u)) := by
      refine ⟨⟨hname, before ++ 0x3A :: (after ++ (m.value ++ u)), ?_⟩, after, u, hafter, hu, rfl⟩
      rw [hq, List.cons_append]
    exact ⟨_, .cons hs (hskip _) (colon_append hbefore _) (hspans.append hafter)
      (hes.congr_skipBlank (skipBlank_append hgap u)), .cons hentry hall⟩

namespace IsObject

variable {ms : List WrittenMember}

theorem exists_entries (h : IsObject t ms) (rest : Bytes) :
    ∃ u es, t ++ rest = 0x7B :: u ∧ Entries true u es rest ∧ List.Forall₂ WrittenMember.IsEntry ms es := by
  obtain ⟨ps, gap, hps, hgap, rfl⟩ := h
  obtain ⟨es, hes, hall⟩ := (readsPieces_entries rest).read hgap hps
  refine ⟨_, es, ?_, hes, hall⟩
  simp [Bracket.opening, Bracket.closing]

/-- An object begins with its brace. -/
theorem skipBlank_append (h : IsObject t ms) (hgap : AreBlank gap) (rest : Bytes) :
    skipBlank (gap ++ (t ++ rest)) = t ++ rest := by
  obtain ⟨u, -, hu, -⟩ := h.exists_entries rest
  rw [Json.skipBlank_append hgap, hu]
  exact skipBlank_cons (by decide) u

/-- An object is a JSON text. -/
theorem isWellFormed (h : IsObject t ms) : IsWellFormed t := by
  obtain ⟨ps, gap, hps, hgap, rfl⟩ := h
  refine .of_items hgap ?_
  intro p hp
  obtain ⟨m, -, before, q, after, hbefore, hafter, rfl, hq⟩ := exists_counterpart hps hp
  obtain ⟨mid, gap', hname, hvalue, hmid, hgap', rfl⟩ := hq
  have hlabel : Bracket.object.Labels (m.name ++ (mid ++ [0x3A])) :=
    ⟨[], m.name, mid, .nil, hmid, hname, rfl⟩
  have hitem : Bracket.object.IsItem (m.name ++ (mid ++ 0x3A :: (gap' ++ m.value))) :=
    ⟨_, gap' ++ (m.value ++ []), hlabel, .padded hgap' .nil hvalue, by simp⟩
  exact hitem.padded hbefore hafter

/-- **The members that are written are read**, if all of them have names. -/
theorem exists_members (h : IsObject t ms) (hnames : ∀ m ∈ ms, ∃ name, m.IsNamed name) (rest : Bytes) :
    ∃ u ms', t ++ rest = 0x7B :: u ∧ Members true u ms' rest ∧
      List.Forall₂ WrittenMember.IsRead ms ms' := by
  obtain ⟨u, es, hu, hes, hall⟩ := h.exists_entries rest
  have hmembers : ∃ ms', List.Forall₂ Entries.IsMember es ms' ∧
      List.Forall₂ WrittenMember.IsRead ms ms' := by
    clear hes h
    induction hall with
    | nil => exact ⟨[], .nil, .nil⟩
    | @cons m e _ _ he _ ih =>
      obtain ⟨⟨name, hname⟩, hnames⟩ := List.forall_mem_cons.mp hnames
      obtain ⟨ms', hms', hread⟩ := ih hnames
      have hm : m.IsRead (name, e.2) := ⟨hname, he.2⟩
      exact ⟨(name, e.2) :: ms', .cons (he.isRead_iff.mpr ⟨hm, rfl⟩) hms', .cons hm hread⟩
  obtain ⟨ms', hms', hread⟩ := hmembers
  exact ⟨u, ms', hu, hes.members hms', hread⟩

/-- **The members that are read are written.** -/
theorem reads_members (h : IsObject t ms) {u rest' : Bytes} {ms' : List (String × Bytes)}
    (hu : t ++ rest = 0x7B :: u) (hms : Members true u ms' rest') :
    List.Forall₂ WrittenMember.IsRead ms ms' ∧ rest' = rest := by
  obtain ⟨u', es, hu', hes, hall⟩ := h.exists_entries rest
  obtain ⟨-, rfl⟩ := List.cons.inj (hu.symm.trans hu')
  obtain ⟨es', hes', hms'⟩ := hms.exists_entries
  obtain ⟨rfl, rfl⟩ := hes.unique hes'
  refine ⟨?_, rfl⟩
  clear hes hes' hms h
  induction hall generalizing ms' with
  | nil =>
    cases hms'
    exact .nil
  | cons he _ ih =>
    obtain _ | ⟨hm, hms'⟩ := hms'
    exact .cons (he.isRead_iff.mp hm).1 (ih hms')

end IsObject

/-! ### What is written where an object is read -/

/-- An entry is a member that is written. -/
theorem exists_member_of_entry {q r t u : Bytes} (hr : skipText q = .ok r) (ht : colon r = .ok t)
    (hv : Spans .value t u) :
    ∃ p m, WrittenMember.IsText p m ∧ 0x22 :: q = p ++ u := by
  obtain ⟨name, hname, rfl⟩ := isString_of_skipText hr
  obtain ⟨value, hvalue, rfl⟩ := hv.makes
  obtain ⟨before, hbefore, hr'⟩ := exists_eq_append_skipBlank r
  refine ⟨_, ⟨0x22 :: name, value⟩, ⟨before, [], hname, hvalue, hbefore, .nil, rfl⟩, ?_⟩
  rw [hr', skipBlank_of_colon ht]
  simp

/-- **The entries of an object** are members that are written: each but the first with a comma before it. -/
theorem Entries.exists_pieces {es : List (Bytes × Bytes)} (h : Entries isFirst s es rest) :
    ∃ before ps ms gap, AreBlank before ∧ List.Forall₂ (Padded WrittenMember.IsText) ps ms ∧
      AreBlank gap ∧ s = before ++ ((if isFirst then List.intercalate [0x2C] ps
        else ps.flatMap (0x2C :: ·)) ++ (gap ++ 0x7D :: rest)) := by
  induction h with
  | @nil s rest isFirst hs =>
    obtain ⟨gap, hgap, hs'⟩ := exists_eq_append_skipBlank s
    rw [hs] at hs'
    exact ⟨[], [], [], gap, .nil, .nil, hgap, by cases isFirst <;> simpa using hs'⟩
  | @cons s q r t u rest isFirst es hnext hr ht hv _ ih =>
    obtain ⟨p, m, hp, hbytes⟩ := exists_member_of_entry hr ht hv
    obtain ⟨after, ps, ms, gap, hafter, hps, hgap, rfl⟩ := ih
    obtain ⟨before, hbefore, hs⟩ := exists_eq_append_skipBlank s
    rcases hnext with ⟨rfl, hnext⟩ | ⟨rfl, w, hw, hnext⟩
    · refine ⟨before, (p ++ after) :: ps, m :: ms, gap, hbefore, .cons ⟨[], p, after, .nil, hafter, rfl, hp⟩ hps,
        hgap, ?_⟩
      rw [hs, hnext, hbytes, intercalate_comma]
      simp
    · obtain ⟨mid, hmid, hw'⟩ := exists_eq_append_skipBlank w
      refine ⟨before, (mid ++ (p ++ after)) :: ps, m :: ms, gap, hbefore,
        .cons ⟨mid, p, after, hmid, hafter, rfl, hp⟩ hps, hgap, ?_⟩
      rw [hs, hw, hw', hnext, hbytes]
      simp

/-- **Where an object is read, one is written.** -/
theorem Entries.exists_isObject {u : Bytes} {es : List (Bytes × Bytes)} (hs : skipBlank s = 0x7B :: u)
    (h : Entries true u es rest) :
    ∃ before t ms, AreBlank before ∧ s = before ++ (t ++ rest) ∧ IsObject t ms := by
  obtain ⟨before, hbefore, hs'⟩ := exists_eq_append_skipBlank s
  obtain ⟨blank, ps, ms, gap, hblank, hps, hgap, rfl⟩ := h.exists_pieces
  have hpieces : ∃ ps', List.Forall₂ (Padded WrittenMember.IsText) ps' ms ∧
      ∃ gap', AreBlank gap' ∧ blank ++ (List.intercalate [0x2C] ps ++ (gap ++ 0x7D :: rest)) =
        List.intercalate [0x2C] ps' ++ (gap' ++ 0x7D :: rest) := by
    -- The blanks at the start belong to the first member, if there is one.
    cases hps with
    | nil => exact ⟨[], .nil, blank ++ gap, List.forall_mem_append.mpr ⟨hblank, hgap⟩, by simp⟩
    | @cons p m ps ms hp hps =>
      have hp' : Padded WrittenMember.IsText (blank ++ (p ++ [])) m := hp.append hblank .nil
      refine ⟨_, .cons hp' hps, gap, hgap, ?_⟩
      rw [intercalate_comma, intercalate_comma]
      simp
  obtain ⟨ps', hps', gap', hgap', hbytes⟩ := hpieces
  refine ⟨before, _, ms, hbefore, ?_, ps', gap', hps', hgap', rfl⟩
  rw [hs', hs, if_pos rfl, hbytes]
  simp [Bracket.opening, Bracket.closing]

/-! ### How often a name is read -/

section Names

variable {ms : List WrittenMember} {ms' : List (String × Bytes)}

/-- A member that is read has the name exactly where its string spells it. -/
theorem WrittenMember.IsRead.isNamed_iff {m : WrittenMember} {m' : String × Bytes} (h : m.IsRead m') :
    m.IsNamed name ↔ (m'.1 == name) = true := by
  rw [beq_iff_eq]
  constructor
  · exact h.1.unique
  · rintro rfl
    exact h.1

/-- The name is read of an entry. -/
def hasName (name : String) (e : Bytes × Bytes) : Bool :=
  match textBody e.1 with
  | .ok (n, _) => n == name
  | .error _ => false

/-- An entry has the name exactly where the string of its member spells it. -/
theorem WrittenMember.IsEntry.isNamed_iff {m : WrittenMember} {e : Bytes × Bytes} (h : m.IsEntry e) :
    m.IsNamed name ↔ hasName name e = true := by
  have hread : m.IsNamed name ↔ ∃ r, textBody e.1 = .ok (name, r) := by
    have hiff : Entries.IsMember e (name, e.2) ↔ m.IsRead (name, e.2) ∧ e.2 = e.2 := h.isRead_iff
    simp only [Entries.IsMember, IsRead, h.2, and_true] at hiff
    exact hiff.symm
  rw [hread, hasName]
  cases textBody e.1 with
  | error f => simp
  | ok x => simp [Prod.ext_iff]

variable {β : Type} {R : WrittenMember → β → Prop} {p : β → Bool} {l : List β}

/-- **No item has a name** exactly where no member that is written has it. -/
theorem filter_eq_nil_iff (hR : ∀ m b, R m b → (m.IsNamed name ↔ p b = true))
    (h : List.Forall₂ R ms l) : l.filter p = [] ↔ IsAbsent name ms := by
  unfold IsAbsent
  induction h with
  | nil => simp
  | @cons m b _ _ hm _ ih =>
    rw [List.forall_mem_cons, ← ih, hR m b hm, List.filter_cons]
    cases p b <;> simp

/-- **The one member with a name** goes with the one item that has it. -/
theorem IsSole.exists_filter {m : WrittenMember} (hm : IsSole name ms m)
    (hR : ∀ m b, R m b → (m.IsNamed name ↔ p b = true)) (h : List.Forall₂ R ms l) :
    ∃ b, l.filter p = [b] ∧ R m b := by
  obtain ⟨before, after, rfl, hname, hothers⟩ := hm
  obtain ⟨hbefore, hafter⟩ := List.forall_mem_append.mp hothers
  obtain ⟨before', b, after', rfl, hb, hm, ha⟩ := exists_split h
  refine ⟨b, ?_, hm⟩
  have hname' := (hR m b hm).mp hname
  rw [List.filter_append, (filter_eq_nil_iff hR hb).mpr hbefore, List.filter_cons, if_pos hname',
    (filter_eq_nil_iff hR ha).mpr hafter]
  rfl

/-- **The one item with a name** goes with the only member that is written with it. -/
theorem exists_sole_of_filter {b : β} (hR : ∀ m b, R m b → (m.IsNamed name ↔ p b = true))
    (h : List.Forall₂ R ms l) (hfilter : l.filter p = [b]) : ∃ m, IsSole name ms m ∧ R m b := by
  obtain ⟨before', after', rfl, hbefore, hname, hafter⟩ := List.filter_eq_cons_iff.mp hfilter
  obtain ⟨before, m, after, rfl, hb, hm, ha⟩ := exists_split h.flip
  refine ⟨m, ⟨before, after, rfl, (hR m b hm).mpr hname, ?_⟩, hm⟩
  refine List.forall_mem_append.mpr ⟨?_, ?_⟩
  · exact (filter_eq_nil_iff hR hb.flip).mp (List.filter_eq_nil_iff.mpr hbefore)
  · exact (filter_eq_nil_iff hR ha.flip).mp hafter

/-- **A name that is there twice** is read twice. -/
theorem IsRepeated.lt_length_filter (hrepeated : IsRepeated name ms)
    (hR : ∀ m b, R m b → (m.IsNamed name ↔ p b = true)) (h : List.Forall₂ R ms l) :
    1 < (l.filter p).length := by
  obtain ⟨before, m, between, m', after, rfl, hname, hname'⟩ := hrepeated
  obtain ⟨before', b₁, tail, rfl, -, hb₁, htail⟩ := exists_split h
  obtain ⟨between', b₂, after', rfl, -, hb₂, -⟩ := exists_split htail
  have h₁ := (hR _ _ hb₁).mp hname
  have h₂ := (hR _ _ hb₂).mp hname'
  simp only [List.filter_append, List.filter_cons, h₁, h₂, if_true, List.length_append,
    List.length_cons]
  omega

end Names

/-! ### Lists -/

namespace Elements

theorem congr_skipBlank {s' : Bytes} {ts : List Bytes} (h : Elements isFirst s ts rest)
    (hs : skipBlank s' = skipBlank s) : Elements isFirst s' ts rest := by
  cases h with
  | nil hend => exact .nil (hs.trans hend)
  | cons hnext hv hts => exact .cons (hnext.congr hs) hv hts

/-- **The values in a list** are told by its text. -/
theorem unique {ts ts' : List Bytes} {rest' : Bytes} (h : Elements isFirst s ts rest)
    (h' : Elements isFirst s ts' rest') : ts = ts' ∧ rest = rest' := by
  induction h generalizing ts' with
  | nil hs =>
    obtain rfl := h'.eq_nil hs
    cases h' with
    | nil hs' => exact ⟨rfl, (List.cons.inj (hs.symm.trans hs')).2⟩
  | cons hnext hv hts ih =>
    cases h' with
    | nil hs => cases (Elements.cons hnext hv hts).eq_nil hs
    | cons hnext' hv' hts' =>
      obtain rfl := hnext.unique hnext'
      obtain rfl := hv.unique hv'
      obtain ⟨rfl, rfl⟩ := ih hts'
      exact ⟨rfl, rfl⟩

end Elements

/-- A JSON text that begins with no blank. -/
def IsElement (p : Bytes) : Prop :=
  IsWellFormed p ∧ ∀ b ∈ p.head?, isSpace b = false

theorem IsObject.isElement {ms : List WrittenMember} (h : IsObject t ms) : IsElement t := by
  refine ⟨h.isWellFormed, ?_⟩
  obtain ⟨_, _, -, -, rfl⟩ := h
  intro b hb
  obtain rfl := Option.some.inj hb
  rfl

theorem IsElement.skipBlank_eq (h : IsElement t) (rest : Bytes) : skipBlank (t ++ rest) = t ++ rest := by
  obtain ⟨hwell, hhead⟩ := h
  cases t with
  | nil =>
    obtain ⟨gap, -, hspans⟩ := hwell.exists_spans .nil
    exact absurd hspans.length_lt (by simp)
  | cons b t => exact skipBlank_cons (hhead b rfl) _

section Lists

variable {β : Type} {Piece : Bytes → β → Prop}

/-- The element of a list is the piece, as it stands in a text. -/
def StandsFor (Piece : Bytes → β → Prop) (b : β) (x : Bytes) : Prop :=
  ∃ p rest, Piece p b ∧ Ends rest ∧ x = p ++ rest

/-- **A list passes over its elements.** -/
theorem readsPieces_elements (hpiece : ∀ p b, Piece p b → IsElement p) (rest : Bytes) :
    ReadsPieces 0x5D rest Piece fun isFirst s bs =>
      ∃ ts, Elements isFirst s ts rest ∧ List.Forall₂ (StandsFor Piece) bs ts where
  closing_ends := .cons (by decide) rest
  closing_shown := by decide
  skipBlank_eq h := (hpiece _ _ h).skipBlank_eq
  nil hs := ⟨[], .nil hs, .nil⟩
  cons {isFirst s p b bs u} hs hp hu := by
    rintro ⟨ts, hts, hall⟩
    obtain ⟨gap, hgap, hspans⟩ := (hpiece p b hp).1.exists_spans hu
    exact ⟨_, .cons hs hspans (hts.congr_skipBlank (skipBlank_append hgap u)),
      .cons ⟨p, u, hp, hu, rfl⟩ hall⟩

theorem Bracket.Encloses.exists_elements {bs : List β} (h : Bracket.list.Encloses Piece t bs)
    (hpiece : ∀ p b, Piece p b → IsElement p) (rest : Bytes) :
    ∃ u ts, t ++ rest = 0x5B :: u ∧ Elements true u ts rest ∧ List.Forall₂ (StandsFor Piece) bs ts := by
  obtain ⟨ps, gap, hps, hgap, rfl⟩ := h
  obtain ⟨ts, hts, hall⟩ := (readsPieces_elements hpiece rest).read hgap hps
  refine ⟨_, ts, ?_, hts, hall⟩
  simp [Bracket.opening, Bracket.closing]

/-- **The elements of a list** stand for its pieces, wherever the list stands. -/
theorem exists_elements_of_opens {bs : List β} (h : Padded (Bracket.list.Encloses Piece) s bs)
    (hpiece : ∀ p b, Piece p b → IsElement p) (ht : Opens s t) :
    ∃ u ts rest, skipBlank t = 0x5B :: u ∧ Elements true u ts rest ∧
      List.Forall₂ (StandsFor Piece) bs ts := by
  obtain ⟨before, p, after, hbefore, hafter, rfl, hp⟩ := h
  obtain ⟨gap, rest, hgap, -, rfl⟩ := ht
  obtain ⟨u, ts, hu, hts, hall⟩ := hp.exists_elements hpiece (after ++ rest)
  refine ⟨u, ts, _, ?_, hts, hall⟩
  rw [skipBlank_append hgap, List.append_assoc, List.append_assoc, skipBlank_append hbefore, hu]
  exact skipBlank_cons (by decide) u

end Lists

end ReleasePublisher.Json
