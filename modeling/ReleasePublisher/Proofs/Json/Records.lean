import ReleasePublisher.Proofs.Json.Values
import Mathlib.Data.List.Induction

/-!
# Readers of records

A record is read from an object or from a list. What is read is told by the members, or the elements, as
they stand in the text: each field takes the one member of its name, or its place in the list, and a field
that is not there has its default. Members of other names do not matter.

## Main definitions

* `Json.Field.datum? field ms`: what a field holds, given the members of an object
* `Json.fill? fields ts`: what the fields hold, given the values in a list

## Main results

* `Json.readRecord_eq_ok_iff`: what is read of a record
* `Json.reads_readRecord`: a record is a value
-/

namespace ReleasePublisher.Json

/-- What a reader takes from the start of a text, if it takes anything. -/
def given {α : Type} (item : Bytes → Result α) (t : Bytes) : Option α :=
  match item t with
  | .ok (a, _) => some a
  | .error _ => none

theorem given_eq_some_iff {α : Type} {item : Bytes → Result α} {t : Bytes} {a : α} :
    given item t = some a ↔ Gives item t a := by
  unfold given Gives
  cases item t with
  | error f => simp
  | ok x => simp [Prod.ext_iff]

namespace Field

/-- What a field takes from the members of its name: nothing if there is none, and it refuses more than
one. -/
def taken? (field : Field) (ms : List (String × Bytes)) : Option (Option Datum) :=
  match ms.filter (·.1 == field.name) with
  | [] => some none
  | [m] => (given field.read m.2).map some
  | _ => none

/-- **What a field holds**, given the members of an object. -/
def datum? (field : Field) (ms : List (String × Bytes)) : Option Datum :=
  (field.taken? ms).bind fun place => place <|> field.fallback

end Field

/-- **What the fields hold**, given the values in a list. -/
def fill? : List Field → List Bytes → Option (List Datum)
  | [], [] => some []
  | [], _ :: _ => none
  | field :: fields, [] => do return (← field.fallback) :: (← fill? fields [])
  | field :: fields, t :: ts => do return (← given field.read t) :: (← fill? fields ts)

/-! ### Members -/

/-- Puts a member into the place of its field, which must be empty. -/
def put : List Field → List (Option Datum) → String × Bytes → Option (List (Option Datum))
  | field :: fields, place :: places, m =>
    if field.name == m.1 then
      if place.isSome then none else (given field.read m.2).map fun d => some d :: places
    else (put fields places m).map (place :: ·)
  | _, places, _ => some places

theorem length_put {fields : List Field} {places places' : List (Option Datum)}
    {m : String × Bytes} (h : put fields places m = some places') : places'.length = places.length := by
  fun_induction put fields places m generalizing places' with
  | case1 => cases h
  | case2 =>
    obtain ⟨d, -, rfl⟩ := Option.map_eq_some_iff.mp h
    rfl
  | case3 field fields place places m _ ih =>
    obtain ⟨places', h', rfl⟩ := Option.map_eq_some_iff.mp h
    simp [ih h']
  | case4 => cases h; rfl

/-- The place is found by the name of its field. -/
theorem put_eq {fields : List Field} {places : List (Option Datum)}
    (hlen : places.length = fields.length) (m : String × Bytes) :
    put fields places m =
      match fields.findIdx? (·.name == m.1), fields.find? (·.name == m.1) with
      | some i, some field =>
        if (places[i]?.join).isSome then none
        else (given field.read m.2).map fun d => places.set i (some d)
      | _, _ => some places := by
  induction fields generalizing places with
  | nil =>
    cases places with
    | nil => rfl
    | cons => cases hlen
  | cons field fields ih =>
    cases places with
    | nil => cases hlen
    | cons place places =>
      cases hname : field.name == m.1 with
      | true => simp [put, hname, List.findIdx?_cons]
      | false =>
        rw [put, if_neg (by simp [hname]), ih (by simpa using hlen)]
        simp only [List.findIdx?_cons, List.find?_cons, hname, Bool.false_eq_true, if_false]
        cases fields.findIdx? (·.name == m.1) with
        | none => simp
        | some i =>
          cases fields.find? (·.name == m.1) with
          | none => simp
          | some f =>
            simp only [Option.map_some, List.getElem?_cons_succ, List.set_cons_succ]
            split
            · rfl
            · rw [Option.map_map]
              rfl

section Members

variable {fields : List Field}

/-- **One member** is put into its place, or passed over. -/
theorem fieldMembers_succ_eq_ok_iff (hfields : ∀ f ∈ fields, Reads f.read) {fuel : Nat}
    {isFirst : Bool} {places : List (Option Datum)} (hlen : places.length = fields.length)
    {s q r : Bytes} {name : String} (hs : BehindComma isFirst s (0x22 :: q))
    (hr : textBody q = .ok (name, r)) {x : List (Option Datum) × Bytes} :
    fieldMembers fields (fuel + 1) isFirst places s = .ok x ↔
      ∃ t, colon r = .ok t ∧ ∃ u, Spans .value t u ∧
        ∃ places', put fields places (name, t) = some places' ∧
          fieldMembers fields fuel false places' u = .ok x := by
  have hq := nextMember_eq_true_iff.mpr ⟨hs, q, rfl⟩
  have hput := fun t => put_eq hlen (name, t)
  rw [fieldMembers]
  simp only [hq, hr, bind, Except.bind, List.drop_succ_cons, List.drop_zero, hput, Bool.not_true,
    Bool.false_eq_true, if_false]
  cases ht : colon r with
  | error f =>
    split
    · split <;> simp
    · simp
  | ok t =>
    -- The member is passed over unless both its place and its field are found.
    have hover : (skipValue t >>= fieldMembers fields fuel false places) = .ok x ↔
        ∃ u, Spans .value t u ∧ fieldMembers fields fuel false places u = .ok x := by
      rw [bind_eq_ok]
      simp only [skipValue_eq_ok_iff]
    simp only [bind, Except.bind] at hover
    simp only [Except.ok.injEq, exists_eq_left']
    cases hi : fields.findIdx? (·.name == name) with
    | none => simpa using hover
    | some i =>
      cases hf : fields.find? (·.name == name) with
      | none => simpa using hover
      | some field =>
        have hreads := hfields field (List.mem_of_find?_eq_some hf)
        dsimp only
        split
        · simp
        · cases hd : field.read t with
          | error f => simp [given, hd]
          | ok y =>
            rcases y with ⟨d, u⟩
            have hv := hreads _ _ _ hd
            have hgiven : given field.read t = some d := given_eq_some_iff.mpr ⟨u, hd⟩
            simp only [hgiven, Option.map_some, Option.some.injEq]
            constructor
            · intro h
              exact ⟨u, hv, _, rfl, h⟩
            · rintro ⟨u', hv', _, rfl, h⟩
              rw [hv.unique hv']
              exact h

/-- What the members of an object put into the places of the fields. -/
def putAll (fields : List Field) (places : List (Option Datum)) (ms : List (String × Bytes)) :
    Option (List (Option Datum)) :=
  ms.foldlM (put fields) places

theorem fieldMembers_of_eq_ok (hfields : ∀ f ∈ fields, Reads f.read) {fuel : Nat} {isFirst : Bool}
    {places places' : List (Option Datum)} (hlen : places.length = fields.length) {s s' rest : Bytes}
    (h : fieldMembers fields fuel isFirst places s = .ok (places', s'))
    (hend : endObject s' = .ok rest) :
    ∃ ms, Members isFirst s ms rest ∧ putAll fields places ms = some places' := by
  -- The fuel counts the members; the places are as many as the fields throughout.
  induction fuel generalizing isFirst s places with
  | zero => cases h
  | succ fuel ih =>
    cases hq : nextMember isFirst s with
    | error f => simp [fieldMembers, hq, bind, Except.bind] at h
    | ok x =>
      rcases x with ⟨more, q⟩
      cases more with
      | false =>
        simp [fieldMembers, hq, bind, Except.bind, pure, Except.pure] at h
        obtain ⟨rfl, rfl⟩ := h
        obtain ⟨u, hs, rfl⟩ := nextMember_eq_false_iff.mp hq
        rw [endObject_eq_ok_iff, skipBlank_cons (by decide)] at hend
        cases hend
        exact ⟨[], .nil hs, rfl⟩
      | true =>
        obtain ⟨hs, q, rfl⟩ := nextMember_eq_true_iff.mp hq
        cases hr : textBody q with
        | error f => simp [fieldMembers, hq, hr, bind, Except.bind] at h
        | ok x =>
          rcases x with ⟨name, r⟩
          obtain ⟨t, ht, u, hv, places₁, hput, h⟩ :=
            (fieldMembers_succ_eq_ok_iff hfields hlen hs hr).mp h
          obtain ⟨ms, hms, hall⟩ := ih ((length_put hput).trans hlen) h
          refine ⟨(name, t) :: ms, .cons hs hr ht hv hms, ?_⟩
          rw [putAll, List.foldlM_cons, hput]
          exact hall

theorem Members.fieldMembers_eq_ok (hfields : ∀ f ∈ fields, Reads f.read) {isFirst : Bool}
    {s rest : Bytes} {ms : List (String × Bytes)} (h : Members isFirst s ms rest)
    {places places' : List (Option Datum)} (hlen : places.length = fields.length)
    (hall : putAll fields places ms = some places') {fuel : Nat} (hfuel : s.length < fuel) :
    ∃ s', fieldMembers fields fuel isFirst places s = .ok (places', s') ∧ endObject s' = .ok rest := by
  induction h generalizing places fuel with
  | @nil s rest isFirst hs =>
    obtain ⟨fuel, rfl⟩ : ∃ k, fuel = k + 1 := ⟨fuel - 1, by omega⟩
    have hend : nextMember isFirst s = .ok (false, 0x7D :: rest) :=
      nextMember_eq_false_iff.mpr ⟨rest, hs, rfl⟩
    cases hall
    refine ⟨_, ?_, endObject_eq_ok_iff.mpr (skipBlank_cons (by decide) rest)⟩
    rw [fieldMembers]
    exact bind_eq_ok.mpr ⟨_, hend, rfl⟩
  | @cons s q r t u rest isFirst name ms hs hr ht hv _ ih =>
    obtain ⟨fuel, rfl⟩ : ∃ k, fuel = k + 1 := ⟨fuel - 1, by omega⟩
    have hs' := hs.length_le
    have hr' := length_skipText_le (skipText_of_textBody hr)
    have ht' := length_colon_lt ht
    have hu := hv.length_lt
    rw [List.length_cons] at hs'
    rw [putAll, List.foldlM_cons] at hall
    obtain ⟨places₁, hput, hall⟩ := Option.bind_eq_some_iff.mp hall
    obtain ⟨s', h, hend⟩ := ih ((length_put hput).trans hlen) hall
      (show u.length < fuel by omega)
    exact ⟨s', (fieldMembers_succ_eq_ok_iff hfields hlen hs hr).mpr
      ⟨t, ht, u, hv, places₁, hput, h⟩, hend⟩

end Members

/-! ### What fills the places -/

namespace Field

variable {field : Field} {ms : List (String × Bytes)} {m : String × Bytes}

theorem taken?_append_of_ne (h : (field.name == m.1) = false) :
    field.taken? (ms ++ [m]) = field.taken? ms := by
  have hm : (m.1 == field.name) = false := by
    rw [beq_eq_false_iff_ne] at h ⊢
    exact h.symm
  simp [taken?, List.filter_append, hm]

/-- A further member of the name is taken if there was none before. -/
theorem taken?_append_of_eq (h : (field.name == m.1) = true) :
    field.taken? (ms ++ [m]) = (field.taken? ms).bind fun place =>
      if place.isSome then none else (given field.read m.2).map some := by
  have hm : (m.1 == field.name) = true := by
    rw [beq_iff_eq] at h ⊢
    exact h.symm
  simp only [taken?, List.filter_append, List.filter_cons, hm, if_true, List.filter_nil]
  generalize ms.filter (·.1 == field.name) = ms'
  match ms' with
  | [] => simp
  | [m'] => cases hg : given field.read m'.2 <;> simp [hg]
  | _ :: _ :: _ => rfl

end Field

theorem mapM_cons_eq {α β : Type} (f : α → Option β) (a : α) (l : List α) :
    (a :: l).mapM f = (f a).bind fun b => (l.mapM f).map (b :: ·) := by
  rw [List.mapM_cons]
  cases f a with
  | none => rfl
  | some b => cases l.mapM f <;> simp

/-- What each of the fields takes from the members. -/
def takeAll? (fields : List Field) (ms : List (String × Bytes)) : Option (List (Option Datum)) :=
  fields.mapM (·.taken? ms)

@[simp] theorem takeAll?_nil (ms : List (String × Bytes)) : takeAll? [] ms = some [] :=
  rfl

@[simp] theorem takeAll?_cons (field : Field) (fields : List Field) (ms : List (String × Bytes)) :
    takeAll? (field :: fields) ms =
      (field.taken? ms).bind fun place => (takeAll? fields ms).map (place :: ·) :=
  mapM_cons_eq _ _ _

theorem takeAll?_append_of_ne {fields : List Field} {m : String × Bytes}
    (h : ∀ f ∈ fields, (f.name == m.1) = false) (ms : List (String × Bytes)) :
    takeAll? fields (ms ++ [m]) = takeAll? fields ms := by
  induction fields with
  | nil => rfl
  | cons field fields ih =>
    obtain ⟨hfield, hfields⟩ := List.forall_mem_cons.mp h
    rw [takeAll?_cons, takeAll?_cons, Field.taken?_append_of_ne hfield, ih hfields]

/-- A further member fills the place of its field. -/
theorem takeAll?_append {fields : List Field} (hnames : (fields.map (·.name)).Nodup)
    (ms : List (String × Bytes)) (m : String × Bytes) :
    takeAll? fields (ms ++ [m]) = (takeAll? fields ms).bind (put fields · m) := by
  induction fields with
  | nil => rfl
  | cons field fields ih =>
    rw [List.map_cons, List.nodup_cons] at hnames
    obtain ⟨hfield, hfields⟩ := hnames
    rw [takeAll?_cons, takeAll?_cons]
    cases hname : field.name == m.1 with
    | false =>
      rw [Field.taken?_append_of_ne hname, ih hfields]
      cases field.taken? ms with
      | none => rfl
      | some place => cases takeAll? fields ms <;> simp [put, hname]
    | true =>
      -- No other field has this name.
      have hothers : ∀ f ∈ fields, (f.name == m.1) = false := by
        intro f hf
        rw [← eq_of_beq hname, beq_eq_false_iff_ne]
        intro h
        exact hfield (h ▸ List.mem_map_of_mem hf)
      rw [Field.taken?_append_of_eq hname, takeAll?_append_of_ne hothers]
      cases field.taken? ms with
      | none => rfl
      | some place =>
        cases takeAll? fields ms with
        | none => cases place <;> simp
        | some places => cases place <;> cases hg : given field.read m.2 <;> simp [put, hname, hg]

/-- **Each place is filled on its own**, with what its field takes from the members. -/
theorem putAll_eq {fields : List Field} (hnames : (fields.map (·.name)).Nodup)
    (ms : List (String × Bytes)) :
    putAll fields (fields.map fun _ => none) ms = takeAll? fields ms := by
  -- By the last member: what it may still fill is told by those before it.
  induction ms using List.reverseRecOn with
  | nil =>
    clear hnames
    induction fields with
    | nil => rfl
    | cons field fields ih =>
      rw [takeAll?_cons, ← ih]
      rfl
  | append_singleton ms m ih =>
    rw [takeAll?_append hnames, ← ih]
    simp [putAll, List.foldlM_append]

/-- What each of the fields holds, given the members of an object. -/
def data? (fields : List Field) (ms : List (String × Bytes)) : Option (List Datum) :=
  fields.mapM (·.datum? ms)

@[simp] theorem data?_nil (ms : List (String × Bytes)) : data? [] ms = some [] :=
  rfl

@[simp] theorem data?_cons (field : Field) (fields : List Field) (ms : List (String × Bytes)) :
    data? (field :: fields) ms =
      (field.datum? ms).bind fun d => (data? fields ms).map (d :: ·) :=
  mapM_cons_eq _ _ _

theorem complete_cons {field : Field} {fields : List Field} {place : Option Datum}
    {places : List (Option Datum)} :
    complete (field :: fields) (place :: places) =
      match place <|> field.fallback with
      | some d => (complete fields places).map (d :: ·)
      | none => .error field.name := rfl

/-- The places are completed by the defaults of their fields. -/
theorem data?_eq_some_iff {fields : List Field} {ms : List (String × Bytes)} {ds : List Datum} :
    data? fields ms = some ds ↔
      ∃ places, takeAll? fields ms = some places ∧ complete fields places = .ok ds := by
  induction fields generalizing ds with
  | nil => simp [complete]
  | cons field fields ih =>
    rw [data?_cons, takeAll?_cons, Field.datum?]
    cases field.taken? ms with
    | none => simp
    | some place =>
      simp only [Option.bind_some, Option.map_eq_some_iff, ↓existsAndEq, and_true, complete_cons]
      cases place <|> field.fallback with
      | none => simp
      | some d =>
        simp only [Option.bind_some, Option.map_eq_some_iff, map_eq_ok, ih]
        constructor
        · rintro ⟨ds', ⟨places, hplaces, hds⟩, rfl⟩
          exact ⟨places, hplaces, ds', hds, rfl⟩
        · rintro ⟨places, hplaces, ds', hds, rfl⟩
          exact ⟨ds', ⟨places, hplaces, hds⟩, rfl⟩

/-! ### Elements -/

/-- Where a list ends, it has no more elements. -/
theorem Elements.eq_nil {isFirst : Bool} {s u rest : Bytes} {ts : List Bytes}
    (h : Elements isFirst s ts rest) (hs : skipBlank s = 0x5D :: u) : ts = [] := by
  cases h with
  | nil => rfl
  | cons hnext hv _ =>
    obtain ⟨b, v, rfl, hb⟩ := hv.exists_eq_cons hnext.skipBlank_eq
    rcases hnext with ⟨-, h⟩ | ⟨-, w, h, -⟩
    · rw [hs] at h
      cases h
      exact absurd rfl hb
    · rw [hs] at h
      cases h

theorem fill?_cons_nil (field : Field) (fields : List Field) :
    fill? (field :: fields) [] =
      field.fallback.bind fun d => (fill? fields []).map (d :: ·) := by
  rw [fill?]
  cases field.fallback with
  | none => rfl
  | some d => cases fill? fields [] <;> rfl

theorem fill?_cons_cons (field : Field) (fields : List Field) (t : Bytes) (ts : List Bytes) :
    fill? (field :: fields) (t :: ts) =
      (given field.read t).bind fun d => (fill? fields ts).map (d :: ·) := by
  rw [fill?]
  cases given field.read t with
  | none => rfl
  | some d => cases fill? fields ts <;> rfl

/-- **One field** is read from the next element, or has its default where there is none. -/
theorem fieldElements_cons_eq_ok_iff {expected : String} {field : Field} {fields : List Field}
    {index : Nat} {isFirst : Bool} {s s' : Bytes} {ds : List Datum} :
    fieldElements expected (field :: fields) index isFirst s = .ok (ds, s') ↔
      ∃ more t d u ds', nextElement isFirst s = .ok (more, t) ∧
        (if more then field.read t = .ok (d, u) else field.fallback = some d ∧ u = t) ∧
        fieldElements expected fields (index + 1) (isFirst && !more) u = .ok (ds', s') ∧
        ds = d :: ds' := by
  have hlast : ∀ (d : Datum) (x : Except Fault (List Datum × Bytes)),
      (x >>= fun y => pure (d :: y.1, y.2)) = .ok (ds, s') ↔
        ∃ ds', x = .ok (ds', s') ∧ ds = d :: ds' := by
    rintro d (f | ⟨ds', v⟩)
    · simp [bind, Except.bind]
    · simp [bind, Except.bind, pure, Except.pure, eq_comm, and_comm]
  rw [fieldElements]
  cases nextElement isFirst s with
  | error f => simp [bind, Except.bind]
  | ok x =>
    rcases x with ⟨more, t⟩
    cases more with
    | true =>
      show ((field.read t).bind fun y =>
        fieldElements expected fields (index + 1) (isFirst && !true) y.2 >>= fun z =>
          pure (y.1 :: z.1, z.2)) = .ok (ds, s') ↔ _
      cases hd : field.read t with
      | error f => simp [Except.bind, hd]
      | ok y =>
        rcases y with ⟨d, u⟩
        refine (hlast d _).trans ?_
        simp [hd]
    | false =>
      cases hd : field.fallback with
      | none => simp [bind, Except.bind]
      | some d =>
        refine (hlast d (fieldElements expected fields (index + 1) (isFirst && !false) t)).trans ?_
        simp

theorem fieldElements_of_eq_ok {expected : String} {fields : List Field}
    (hfields : ∀ f ∈ fields, Reads f.read) {index : Nat} {isFirst : Bool} {s s' rest : Bytes}
    {ds : List Datum} (h : fieldElements expected fields index isFirst s = .ok (ds, s'))
    (hend : endList s' = .ok rest) :
    ∃ ts, Elements isFirst s ts rest ∧ fill? fields ts = some ds := by
  induction fields generalizing index isFirst s ds with
  | nil =>
    cases h
    exact ⟨[], .nil (endList_eq_ok_iff.mp hend), rfl⟩
  | cons field fields ih =>
    obtain ⟨hfield, hfields⟩ := List.forall_mem_cons.mp hfields
    obtain ⟨more, t, d, u, ds', ht, hd, hds, rfl⟩ := fieldElements_cons_eq_ok_iff.mp h
    obtain ⟨ts, hts, hfill⟩ := ih hfields hds
    cases more with
    | true =>
      obtain ⟨hs, -⟩ := nextElement_eq_true_iff.mp ht
      refine ⟨t :: ts, .cons hs (hfield _ _ _ hd) (by simpa using hts), ?_⟩
      rw [fill?_cons_cons, given_eq_some_iff.mpr ⟨u, hd⟩, hfill]
      rfl
    | false =>
      -- The list ends here, for the fields that follow as well.
      obtain ⟨w, hs, rfl⟩ := nextElement_eq_false_iff.mp ht
      obtain ⟨hd, rfl⟩ := hd
      have hw : skipBlank (0x5D :: w) = 0x5D :: w := skipBlank_cons (by decide) w
      obtain rfl := hts.eq_nil hw
      cases hts with
      | nil hrest =>
        refine ⟨[], .nil (hs.trans (hw.symm.trans hrest)), ?_⟩
        rw [fill?_cons_nil, hd, hfill]
        rfl

theorem Elements.fieldElements_eq_ok {expected : String} {fields : List Field}
    (hfields : ∀ f ∈ fields, Reads f.read) {isFirst : Bool} {s rest : Bytes} {ts : List Bytes}
    (h : Elements isFirst s ts rest) {ds : List Datum} (hfill : fill? fields ts = some ds)
    (index : Nat) :
    ∃ s', fieldElements expected fields index isFirst s = .ok (ds, s') ∧ endList s' = .ok rest := by
  induction fields generalizing index isFirst s ts ds with
  | nil =>
    cases h with
    | nil hs =>
      cases hfill
      exact ⟨s, rfl, endList_eq_ok_iff.mpr hs⟩
    | cons => cases hfill
  | cons field fields ih =>
    obtain ⟨hfield, hfields⟩ := List.forall_mem_cons.mp hfields
    simp only [fieldElements_cons_eq_ok_iff]
    cases h with
    | nil hs =>
      rw [fill?_cons_nil] at hfill
      obtain ⟨d, hd, hfill⟩ := Option.bind_eq_some_iff.mp hfill
      obtain ⟨ds', hds, rfl⟩ := Option.map_eq_some_iff.mp hfill
      have hnil : Elements (isFirst && !false) (0x5D :: rest) [] rest :=
        .nil (skipBlank_cons (by decide) rest)
      obtain ⟨s', h, hend⟩ := ih hfields hnil hds (index + 1)
      exact ⟨s', ⟨false, _, d, _, ds', nextElement_eq_false_iff.mpr ⟨rest, hs, rfl⟩, ⟨hd, rfl⟩, h,
        rfl⟩, hend⟩
    | @cons _ t u _ _ ts hs hv hts =>
      rw [fill?_cons_cons] at hfill
      obtain ⟨d, hd, hfill⟩ := Option.bind_eq_some_iff.mp hfill
      obtain ⟨ds', hds, rfl⟩ := Option.map_eq_some_iff.mp hfill
      have hnext := nextElement_eq_true_iff.mpr ⟨hs, hv.exists_eq_cons hs.skipBlank_eq⟩
      have hread := (given_eq_some_iff.mp hd).eq_ok hfield hv
      have hlater : Elements (isFirst && !true) u ts rest := by simpa using hts
      obtain ⟨s', h, hend⟩ := ih hfields hlater hds (index + 1)
      exact ⟨s', ⟨true, t, d, u, ds', hnext, hread, h, rfl⟩, hend⟩

/-! ### Records -/

variable {name : String} {fields : List Field} {s rest : Bytes} {ds : List Datum}

/-- **What is read of a record**: the data that its fields take from the values in a list, or from the
members of an object. -/
theorem readRecord_eq_ok_iff (hfields : ∀ f ∈ fields, Reads f.read)
    (hnames : (fields.map (·.name)).Nodup) :
    readRecord name fields s = .ok (ds, rest) ↔
      (∃ t ts, skipBlank s = 0x5B :: t ∧ Elements true t ts rest ∧ fill? fields ts = some ds) ∨
        ∃ t ms, skipBlank s = 0x7B :: t ∧ Members true t ms rest ∧ data? fields ms = some ds := by
  unfold readRecord
  cases hs : skipBlank s with
  | nil => simp
  | cons b t =>
    by_cases hlist : b = 0x5B
    · subst hlist
      constructor
      · intro h
        obtain ⟨⟨ds', u⟩, hds, h⟩ := bind_eq_ok.mp h
        obtain ⟨rest', hend, h⟩ := bind_eq_ok.mp h
        cases h
        obtain ⟨ts, hts, hfill⟩ := fieldElements_of_eq_ok hfields hds hend
        exact .inl ⟨t, ts, rfl, hts, hfill⟩
      · rintro (⟨_, ts, ⟨⟩, hts, hfill⟩ | ⟨_, _, ⟨⟩, _⟩)
        obtain ⟨u, hds, hend⟩ := hts.fieldElements_eq_ok hfields hfill 0
        exact bind_eq_ok.mpr ⟨_, hds, bind_eq_ok.mpr ⟨_, hend, rfl⟩⟩
    · by_cases hobject : b = 0x7B
      · subst hobject
        have hlen : (fields.map fun _ => (none : Option Datum)).length = fields.length :=
          List.length_map _
        constructor
        · intro h
          obtain ⟨⟨places, u⟩, hplaces, h⟩ := bind_eq_ok.mp h
          dsimp only at h
          split at h
          · cases h
          · rename_i ds' hcomplete
            obtain ⟨rest', hend, h⟩ := bind_eq_ok.mp h
            cases h
            obtain ⟨ms, hms, hall⟩ := fieldMembers_of_eq_ok hfields hlen hplaces hend
            rw [putAll_eq hnames] at hall
            exact .inr ⟨t, ms, rfl, hms, data?_eq_some_iff.mpr ⟨places, hall, hcomplete⟩⟩
        · rintro (⟨_, _, ⟨⟩, _⟩ | ⟨_, ms, ⟨⟩, hms, hdata⟩)
          obtain ⟨places, hall, hcomplete⟩ := data?_eq_some_iff.mp hdata
          rw [← putAll_eq hnames] at hall
          obtain ⟨u, hplaces, hend⟩ := hms.fieldMembers_eq_ok hfields hlen hall (Nat.lt_succ_self _)
          refine bind_eq_ok.mpr ⟨_, hplaces, ?_⟩
          dsimp only
          rw [hcomplete]
          exact bind_eq_ok.mpr ⟨_, hend, rfl⟩
      · simp [hlist, hobject]

/-- **A record is a value.** -/
theorem reads_readRecord (hfields : ∀ f ∈ fields, Reads f.read)
    (hnames : (fields.map (·.name)).Nodup) : Reads (readRecord name fields) := by
  intro s ds rest h
  rcases (readRecord_eq_ok_iff hfields hnames).mp h with ⟨t, ts, hs, hts, -⟩ | ⟨t, ms, hs, hms, -⟩
  · exact hts.spans_value hs
  · exact hms.spans_value hs

end ReleasePublisher.Json
