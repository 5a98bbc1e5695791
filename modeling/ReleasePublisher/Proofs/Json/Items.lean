import ReleasePublisher.Proofs.Json.Scalars
import ReleasePublisher.Proofs.Json.Skipping
import Mathlib.Data.List.Forall2

/-!
# The items of lists and objects

The values in a list, and the names and the values of the members of an object, are listed with the texts
that they are read from. A reader of lists or objects reads exactly these texts, one after the other.

## Main definitions

* `Json.Elements`, `Json.Members`: the values in a list, the members of an object
* `Json.Gives item t a`: a reader takes the value `a` from the start of a text

## Main results

* `Json.Elements.spans`, `Json.Members.spans`: a bracket with its items is a value
* `Json.listBody_eq_ok_iff`, `Json.objectBody_of_eq_ok`: what is read of lists and objects
-/

namespace ReleasePublisher.Json

/-! ### What stands behind a comma -/

/-- What stands where the next item begins: behind a comma, unless it is the first. -/
def BehindComma (isFirst : Bool) (s t : Bytes) : Prop :=
  isFirst = true ∧ skipBlank s = t ∨ isFirst = false ∧ ∃ u, skipBlank s = 0x2C :: u ∧ skipBlank u = t

theorem BehindComma.length_le {isFirst : Bool} {s t : Bytes} (h : BehindComma isFirst s t) :
    t.length ≤ s.length := by
  rcases h with ⟨-, rfl⟩ | ⟨-, u, hu, rfl⟩
  · exact length_skipBlank_le s
  · exact Nat.le_trans (length_skipBlank_le u) (Nat.le_of_lt (length_lt_of_skipBlank hu))

theorem BehindComma.skipBlank_eq {isFirst : Bool} {s t : Bytes} (h : BehindComma isFirst s t) :
    skipBlank t = t := by
  rcases h with ⟨-, rfl⟩ | ⟨-, u, -, rfl⟩
  · exact skipBlank_skipBlank s
  · exact skipBlank_skipBlank u

theorem nextElement_eq_false_iff {isFirst : Bool} {s t : Bytes} :
    nextElement isFirst s = .ok (false, t) ↔ ∃ rest, skipBlank s = 0x5D :: rest ∧ t = 0x5D :: rest := by
  fun_cases nextElement isFirst s <;> grind

theorem nextElement_eq_true_iff {isFirst : Bool} {s t : Bytes} :
    nextElement isFirst s = .ok (true, t) ↔
      BehindComma isFirst s t ∧ ∃ b u, t = b :: u ∧ b ≠ 0x5D := by
  fun_cases nextElement isFirst s <;> grind [BehindComma]

theorem nextMember_eq_false_iff {isFirst : Bool} {s t : Bytes} :
    nextMember isFirst s = .ok (false, t) ↔ ∃ rest, skipBlank s = 0x7D :: rest ∧ t = 0x7D :: rest := by
  fun_cases nextMember isFirst s <;> grind

theorem nextMember_eq_true_iff {isFirst : Bool} {s t : Bytes} :
    nextMember isFirst s = .ok (true, t) ↔ BehindComma isFirst s t ∧ ∃ u, t = 0x22 :: u := by
  fun_cases nextMember isFirst s <;> grind [BehindComma]

theorem endList_eq_ok_iff {s rest : Bytes} : endList s = .ok rest ↔ skipBlank s = 0x5D :: rest := by
  fun_cases endList s <;> grind

theorem endObject_eq_ok_iff {s rest : Bytes} :
    endObject s = .ok rest ↔ skipBlank s = 0x7D :: rest := by
  fun_cases endObject s <;> grind

/-! ### Items -/

/-- **The values in a list**, each with the text from there on; `rest` follows the closing bracket. -/
inductive Elements : Bool → Bytes → List Bytes → Bytes → Prop
  | nil {s rest : Bytes} {isFirst : Bool} : skipBlank s = 0x5D :: rest → Elements isFirst s [] rest
  | cons {s t u rest : Bytes} {isFirst : Bool} {ts : List Bytes} : BehindComma isFirst s t →
      Spans .value t u → Elements false u ts rest → Elements isFirst s (t :: ts) rest

/-- **The members of an object**: their names, and the text from their values on; `rest` follows the
closing brace. -/
inductive Members : Bool → Bytes → List (String × Bytes) → Bytes → Prop
  | nil {s rest : Bytes} {isFirst : Bool} : skipBlank s = 0x7D :: rest → Members isFirst s [] rest
  | cons {s q r t u rest : Bytes} {isFirst : Bool} {name : String} {ms : List (String × Bytes)} :
      BehindComma isFirst s (0x22 :: q) → textBody q = .ok (name, r) → colon r = .ok t →
      Spans .value t u → Members false u ms rest → Members isFirst s ((name, t) :: ms) rest

/-- No value begins with a closing bracket. -/
theorem Spans.exists_eq_cons {t rest : Bytes} (h : Spans .value t rest) (ht : skipBlank t = t) :
    ∃ b u, t = b :: u ∧ b ≠ 0x5D := by
  cases h with
  | @scalar _ u _ b hs hu =>
    refine ⟨b, u, ht.symm.trans hs, ?_⟩
    rintro rfl
    cases hu
  | @bracket _ u _ top hs _ =>
    refine ⟨top.opening, u, ht.symm.trans hs, ?_⟩
    cases top with
    | list => decide
    | object => decide

/-- An element is the next item of its list. -/
theorem Spans.element {isFirst : Bool} {s t u rest : Bytes} (hs : BehindComma isFirst s t)
    (hv : Spans .value t u) (ht : Spans (.tail .list false) u rest) :
    Spans (.tail .list isFirst) s rest := by
  obtain ⟨b, w, rfl, hb⟩ := hv.exists_eq_cons hs.skipBlank_eq
  rcases hs with ⟨rfl, hs⟩ | ⟨rfl, v, hs, hv'⟩
  · exact .item (.first hs hb rfl) hv ht
  · refine .item (.next hs rfl) (hv.congr_skipBlank ?_) ht
    rw [hv', ← hv', skipBlank_skipBlank]

/-- A member is the next item of its object. -/
theorem Spans.member {isFirst : Bool} {s q r t u rest : Bytes}
    (hs : BehindComma isFirst s (0x22 :: q)) (hr : skipText q = .ok r) (ht : colon r = .ok t)
    (hv : Spans .value t u) (hrest : Spans (.tail .object false) u rest) :
    Spans (.tail .object isFirst) s rest := by
  have hname : ∀ v, skipBlank v = 0x22 :: q → Bracket.object.label v = .ok t := fun v hv =>
    skipName_eq_ok_iff.mpr ⟨q, r, hv, hr, ht⟩
  have hq := hs.skipBlank_eq
  rcases hs with ⟨rfl, hs⟩ | ⟨rfl, v, hs, hv'⟩
  · exact .item (.first hs (by decide) (hname _ hq)) hv hrest
  · exact .item (.next hs (hname v hv')) hv hrest

/-- **A list is a value.** -/
theorem Elements.spans {isFirst : Bool} {s rest : Bytes} {ts : List Bytes}
    (h : Elements isFirst s ts rest) : Spans (.tail .list isFirst) s rest := by
  induction h with
  | nil hs => exact .close hs
  | cons hs hv _ ih => exact .element hs hv ih

/-- **An object is a value.** -/
theorem Members.spans {isFirst : Bool} {s rest : Bytes} {ms : List (String × Bytes)}
    (h : Members isFirst s ms rest) : Spans (.tail .object isFirst) s rest := by
  induction h with
  | nil hs => exact .close hs
  | cons hs hr ht hv _ ih => exact .member hs (skipText_of_textBody hr) ht hv ih

/-! ### Readers of items -/

variable {α : Type} {item : Bytes → Result α}

/-- A reader takes the value `a` from the start of a text. -/
def Gives (item : Bytes → Result α) (t : Bytes) (a : α) : Prop :=
  ∃ rest, item t = .ok (a, rest)

theorem Gives.unique {t : Bytes} {a a' : α} (h : Gives item t a) (h' : Gives item t a') : a = a' := by
  obtain ⟨rest, h⟩ := h
  obtain ⟨rest', h'⟩ := h'
  rw [h] at h'
  exact (Prod.mk.inj (Except.ok.inj h')).1

/-- A reader that takes something from each text takes a list of values. -/
theorem exists_forall₂_gives {ts : List Bytes} :
    (∃ as, List.Forall₂ (Gives item) ts as) ↔ ∀ t ∈ ts, ∃ a, Gives item t a := by
  induction ts with
  | nil => simp
  | cons t ts ih =>
    rw [List.forall_mem_cons, ← ih]
    constructor
    · rintro ⟨_, _ | ⟨ha, has⟩⟩
      exact ⟨⟨_, ha⟩, _, has⟩
    · rintro ⟨⟨a, ha⟩, as, has⟩
      exact ⟨a :: as, .cons ha has⟩

theorem exists_gives_of_mem {ts : List Bytes} {as : List α} (h : List.Forall₂ (Gives item) ts as) :
    ∀ a ∈ as, ∃ t, Gives item t a := by
  induction h with
  | nil => simp
  | cons ha _ ih => exact List.forall_mem_cons.mpr ⟨⟨_, ha⟩, ih⟩

/-- What a reader leaves is what follows the value. -/
theorem Gives.eq_ok (hitem : Reads item) {t u : Bytes} {a : α} (h : Gives item t a)
    (ht : Spans .value t u) : item t = .ok (a, u) := by
  obtain ⟨rest, h⟩ := h
  rw [ht.unique (hitem _ _ _ h)]
  exact h

theorem memberName_eq_ok_iff {q t : Bytes} {name : String} :
    memberName (0x22 :: q) = .ok (name, t) ↔ ∃ r, textBody q = .ok (name, r) ∧ colon r = .ok t := by
  constructor
  · intro h
    obtain ⟨⟨name', r⟩, hr, h⟩ := bind_eq_ok.mp h
    obtain ⟨t', ht, h⟩ := bind_eq_ok.mp h
    cases h
    exact ⟨r, hr, ht⟩
  · rintro ⟨r, hr, ht⟩
    exact bind_eq_ok.mpr ⟨_, hr, bind_eq_ok.mpr ⟨_, ht, rfl⟩⟩

theorem elements_of_eq_ok (hitem : Reads item) {fuel : Nat} {isFirst : Bool} {s s' rest : Bytes}
    {as : List α} (h : elements item fuel isFirst s = .ok (as, s')) (hend : endList s' = .ok rest) :
    ∃ ts, Elements isFirst s ts rest ∧ List.Forall₂ (Gives item) ts as := by
  induction fuel generalizing isFirst s as with
  | zero => cases h
  | succ fuel ih =>
    obtain ⟨⟨more, t⟩, ht, h⟩ := bind_eq_ok.mp h
    cases more with
    | false =>
      cases h
      obtain ⟨u, hs, rfl⟩ := nextElement_eq_false_iff.mp ht
      rw [endList_eq_ok_iff, skipBlank_cons (by decide)] at hend
      cases hend
      exact ⟨[], .nil hs, .nil⟩
    | true =>
      obtain ⟨⟨a, u⟩, ha, h⟩ := bind_eq_ok.mp h
      obtain ⟨⟨as', v⟩, has, h⟩ := bind_eq_ok.mp h
      cases h
      obtain ⟨hs, -⟩ := nextElement_eq_true_iff.mp ht
      obtain ⟨ts, hts, hall⟩ := ih has
      exact ⟨t :: ts, .cons hs (hitem _ _ _ ha) hts, .cons ⟨u, ha⟩ hall⟩

theorem Elements.elements_eq_ok (hitem : Reads item) {isFirst : Bool} {s rest : Bytes}
    {ts : List Bytes} {as : List α} (h : Elements isFirst s ts rest)
    (hall : List.Forall₂ (Gives item) ts as) {fuel : Nat} (hfuel : s.length < fuel) :
    ∃ s', elements item fuel isFirst s = .ok (as, s') ∧ endList s' = .ok rest := by
  induction h generalizing as fuel with
  | @nil s rest isFirst hs =>
    cases hall
    obtain ⟨fuel, rfl⟩ : ∃ k, fuel = k + 1 := ⟨fuel - 1, by omega⟩
    have hend : nextElement isFirst s = .ok (false, 0x5D :: rest) :=
      nextElement_eq_false_iff.mpr ⟨rest, hs, rfl⟩
    exact ⟨_, bind_eq_ok.mpr ⟨_, hend, rfl⟩,
      endList_eq_ok_iff.mpr (skipBlank_cons (by decide) rest)⟩
  | @cons s t u rest _ ts hs hv _ ih =>
    obtain ⟨fuel, rfl⟩ : ∃ k, fuel = k + 1 := ⟨fuel - 1, by omega⟩
    cases hall with
    | cons ha hall =>
      have hu := hv.length_lt
      have ht := hs.length_le
      obtain ⟨s', hs', hend⟩ := ih hall (show u.length < fuel by omega)
      have hnext := nextElement_eq_true_iff.mpr ⟨hs, hv.exists_eq_cons hs.skipBlank_eq⟩
      exact ⟨s', bind_eq_ok.mpr ⟨_, hnext, bind_eq_ok.mpr ⟨_, ha.eq_ok hitem hv,
        bind_eq_ok.mpr ⟨_, hs', rfl⟩⟩⟩, hend⟩

/-- **What is read of a list** is what is read of the values in it. -/
theorem listBody_eq_ok_iff (hitem : Reads item) {s rest : Bytes} {as : List α} :
    listBody item s = .ok (as, rest) ↔
      ∃ ts, Elements true s ts rest ∧ List.Forall₂ (Gives item) ts as := by
  constructor
  · intro h
    unfold listBody at h
    split at h
    · cases h
    · rename_i as' s' hs
      obtain ⟨r, hr, he⟩ := map_eq_ok.mp h
      cases he
      exact elements_of_eq_ok hitem hs hr
  · rintro ⟨ts, hts, hall⟩
    obtain ⟨s', hs, hend⟩ := hts.elements_eq_ok hitem hall (Nat.lt_succ_self _)
    simp [listBody, hs, hend, Except.map]

/-- A reader takes a member: its name, and its value. -/
def GivesMember (item : Bytes → Result α) (m : String × Bytes) (a : String × α) : Prop :=
  m.1 = a.1 ∧ Gives item m.2 a.2

theorem pairs_of_eq_ok (hitem : Reads item) {fuel : Nat} {isFirst : Bool} {s s' rest : Bytes}
    {as : List (String × α)} (h : pairs item fuel isFirst s = .ok (as, s'))
    (hend : endObject s' = .ok rest) :
    ∃ ms, Members isFirst s ms rest ∧ List.Forall₂ (GivesMember item) ms as := by
  induction fuel generalizing isFirst s as with
  | zero => cases h
  | succ fuel ih =>
    obtain ⟨⟨more, q⟩, hq, h⟩ := bind_eq_ok.mp h
    cases more with
    | false =>
      cases h
      obtain ⟨u, hs, rfl⟩ := nextMember_eq_false_iff.mp hq
      rw [endObject_eq_ok_iff, skipBlank_cons (by decide)] at hend
      cases hend
      exact ⟨[], .nil hs, .nil⟩
    | true =>
      obtain ⟨⟨name, t⟩, hname, h⟩ := bind_eq_ok.mp h
      obtain ⟨⟨a, u⟩, ha, h⟩ := bind_eq_ok.mp h
      obtain ⟨⟨as', v⟩, has, h⟩ := bind_eq_ok.mp h
      cases h
      obtain ⟨hs, q, rfl⟩ := nextMember_eq_true_iff.mp hq
      obtain ⟨r, hr, ht⟩ := memberName_eq_ok_iff.mp hname
      obtain ⟨ms, hms, hall⟩ := ih has
      exact ⟨(name, t) :: ms, .cons hs hr ht (hitem _ _ _ ha) hms, .cons ⟨rfl, u, ha⟩ hall⟩

/-- **What is read of an object** is what is read of its members. -/
theorem objectBody_of_eq_ok (hitem : Reads item) {s rest : Bytes} {as : List (String × α)}
    (h : objectBody item s = .ok (as, rest)) :
    ∃ ms, Members true s ms rest ∧ List.Forall₂ (GivesMember item) ms as := by
  unfold objectBody at h
  split at h
  · cases h
  · rename_i as' s' hs
    obtain ⟨r, hr, he⟩ := map_eq_ok.mp h
    cases he
    exact pairs_of_eq_ok hitem hs hr

theorem Members.pairs_eq_ok (hitem : Reads item) {isFirst : Bool} {s rest : Bytes}
    {ms : List (String × Bytes)} {as : List (String × α)} (h : Members isFirst s ms rest)
    (hall : List.Forall₂ (GivesMember item) ms as) {fuel : Nat} (hfuel : s.length < fuel) :
    ∃ s', pairs item fuel isFirst s = .ok (as, s') ∧ endObject s' = .ok rest := by
  induction h generalizing as fuel with
  | @nil s rest isFirst hs =>
    cases hall
    obtain ⟨fuel, rfl⟩ : ∃ k, fuel = k + 1 := ⟨fuel - 1, by omega⟩
    have hend : nextMember isFirst s = .ok (false, 0x7D :: rest) :=
      nextMember_eq_false_iff.mpr ⟨rest, hs, rfl⟩
    exact ⟨_, bind_eq_ok.mpr ⟨_, hend, rfl⟩,
      endObject_eq_ok_iff.mpr (skipBlank_cons (by decide) rest)⟩
  | @cons s q r t u rest _ name ms hs hr ht hv _ ih =>
    obtain ⟨fuel, rfl⟩ : ∃ k, fuel = k + 1 := ⟨fuel - 1, by omega⟩
    rcases hall with _ | @⟨_, ⟨_, a⟩, _, _, ⟨rfl, ha⟩, hall⟩
    -- The name and the colon take some of the text as well.
    have hname := memberName_eq_ok_iff.mpr ⟨r, hr, ht⟩
    have hlength : u.length < s.length := by
      have hvalue := hv.length_lt
      have hcomma := hs.length_le
      have htext := length_skipText_le (skipText_of_textBody hr)
      have hcolon := length_colon_lt ht
      simp only [List.length_cons] at hcomma
      omega
    obtain ⟨s', hs', hend⟩ := ih hall (show u.length < fuel by omega)
    have hnext := nextMember_eq_true_iff.mpr ⟨hs, q, rfl⟩
    exact ⟨s', bind_eq_ok.mpr ⟨_, hnext, bind_eq_ok.mpr ⟨_, hname, bind_eq_ok.mpr ⟨_,
      ha.eq_ok hitem hv, bind_eq_ok.mpr ⟨_, hs', rfl⟩⟩⟩⟩, hend⟩

/-- **An object is read** exactly where its members are read. -/
theorem objectBody_eq_ok_iff (hitem : Reads item) {s rest : Bytes} {as : List (String × α)} :
    objectBody item s = .ok (as, rest) ↔
      ∃ ms, Members true s ms rest ∧ List.Forall₂ (GivesMember item) ms as := by
  refine ⟨objectBody_of_eq_ok hitem, ?_⟩
  rintro ⟨ms, hms, hall⟩
  obtain ⟨s', hs, hend⟩ := hms.pairs_eq_ok hitem hall (Nat.lt_succ_self _)
  simp [objectBody, hs, hend, Except.map]

/-- A reader of lists takes values. -/
theorem Elements.spans_value {s t rest : Bytes} {ts : List Bytes} (hs : skipBlank s = 0x5B :: t)
    (h : Elements true t ts rest) : Spans .value s rest :=
  .bracket .list hs h.spans

/-- A reader of objects takes values. -/
theorem Members.spans_value {s t rest : Bytes} {ms : List (String × Bytes)}
    (hs : skipBlank s = 0x7B :: t) (h : Members true t ms rest) : Spans .value s rest :=
  .bracket .object hs h.spans

end ReleasePublisher.Json
