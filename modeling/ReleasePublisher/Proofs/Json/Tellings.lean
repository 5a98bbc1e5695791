import ReleasePublisher.Proofs.Json.Objects
import ReleasePublisher.Proofs.Json.Shapes

/-!
# Objects that tell records

A record says something under each of its names. An object tells it if it has, in any order, one member for
each name whose value tells what is said there; a member may be left out if what is said is what is assumed
where nothing is said. Members of other names may stand anywhere, with any value. From such an object the
record is read. Where a name of the record is repeated, or one that must be there is missing, nothing is read.

## Main definitions

* `Json.IsRendering v t`: the bytes of a text that renders a value
* `Json.Telling`: what a record says under a name
* `Json.Tells es t`: an object tells a record
* `Json.FindsAll fields es ds`: what fields find in objects that tell a record
* `Json.Slot.IsMisfilled slot ms`: the members do not fit a slot

## Main results

* `Json.Tells.readRecord_eq`: a record is read from the objects that tell it
* `Json.IsRendering.tells`: what renders an object with these members tells the record
* `Json.not_isRecord_of_isMisfilled`: no record is read where a slot is misfilled
-/

namespace ReleasePublisher.Json

open Utf8

variable {depth : Nat} {t gap rest : Bytes} {v : Json} {name : String}

/-! ### Texts that render values -/

/-- **The bytes render the value.** -/
def IsRendering (v : Json) (t : Bytes) : Prop :=
  ∃ cs, Renders v cs ∧ t = encodeChars cs

theorem IsRendering.padded_states (h : IsRendering v t) (hfits : Fits depth v) :
    Padded (States depth) t v := by
  obtain ⟨cs, hcs, rfl⟩ := h
  exact hcs.padded_states hfits

/-- What renders a value that can be read is a JSON text. -/
theorem IsRendering.isWellFormed (h : IsRendering v t) (hfits : Fits depth v) : IsWellFormed t := by
  obtain ⟨before, p, after, hbefore, hafter, rfl, hp⟩ := h.padded_states hfits
  obtain ⟨u, hu, hbytes⟩ := (hp.spans .nil).makes
  obtain rfl : p = u := by simpa using hbytes
  exact .padded hbefore hafter hu

/-- **A value is read** where a text goes on from one that renders it. -/
theorem IsRendering.gives {p : Bytes} (h : IsRendering v p) (hfits : Fits depth v) (ht : Opens p t) :
    Gives (value depth) t v := by
  obtain ⟨before, q, after, hbefore, hafter, rfl, hq⟩ := h.padded_states hfits
  obtain ⟨gap, rest, hgap, hrest, rfl⟩ := ht
  refine ⟨after ++ rest, ?_⟩
  rw [value_append hgap, List.append_assoc, List.append_assoc, value_append hbefore]
  exact hq.value_eq _ (.append hafter hrest)

/-! ### Tellings -/

/-- **What a record says under a name**: the texts that tell it, and whether it is what is assumed where
nothing is said. -/
structure Telling where
  name : String
  IsToldBy : Bytes → Prop
  MayMiss : Prop

namespace Telling

/-- A natural number, with the one that is assumed where nothing is said. -/
def natural (name : String) (n : Nat) (fallback : Option Nat) : Telling :=
  ⟨name, IsRendering (.ofNat n), fallback = some n⟩

/-- A string that must be there. -/
def text (name s : String) : Telling :=
  ⟨name, IsRendering (.text s), False⟩

/-- A string, or none. -/
def optionalText (name : String) (s : Option String) : Telling :=
  ⟨name, IsRendering (.ofOption .text s), s = none⟩

/-- **What is said is there**: one member tells it, or it is left out. -/
def IsIn (e : Telling) (ms : List WrittenMember) : Prop :=
  (∃ m, IsSole e.name ms m ∧ e.IsToldBy m.value) ∨ e.MayMiss ∧ IsAbsent e.name ms

end Telling

/-- **The text tells a record**: it is an object in which all that the record says is there. -/
def Tells (es : List Telling) (t : Bytes) : Prop :=
  ∃ ms, IsObject t ms ∧ (∀ m ∈ ms, ∃ name, m.IsNamed name) ∧ ∀ e ∈ es, e.IsIn ms

/-! ### Fields -/

/-- The text, or that there is none. -/
def Datum.ofText? (s : Option String) : Datum :=
  s.elim .absent .text

@[simp] theorem Datum.text?_ofText? (s : Option String) : (Datum.ofText? s).text? = s := by
  cases s <;> rfl

/-- **A field finds a datum** wherever it is told, and assumes it where it may be left out. -/
structure Field.Finds (field : Field) (e : Telling) (d : Datum) : Prop where
  name_eq : field.name = e.name
  gives : ∀ p t, e.IsToldBy p → Opens p t → Gives field.read t d
  fallback_eq : e.MayMiss → field.fallback = some d

namespace Field

theorem finds_natural {n : Nat} (fallback : Option Nat) (hn : n < 2 ^ 64) :
    (Field.natural name fallback).Finds (.natural name n fallback) (.count n) where
  name_eq := rfl
  gives p t hp ht := by
    obtain ⟨rest, h⟩ : Gives (value 0) t (.ofNat n) := IsRendering.gives hp (.natural hn) ht
    exact ⟨rest, (natural_read_eq_ok_iff 0).mpr ⟨n, rfl, h⟩⟩
  fallback_eq h := by
    obtain rfl : fallback = some n := h
    rfl

theorem finds_text (s : String) : (Field.text name).Finds (.text name s) (.text s) where
  name_eq := rfl
  gives p t hp ht := by
    obtain ⟨rest, h⟩ : Gives (value 0) t (.text s) := IsRendering.gives hp (.text s) ht
    exact ⟨rest, (text_read_eq_ok_iff 0).mpr ⟨s, rfl, h⟩⟩
  fallback_eq := False.elim

theorem finds_optionalText {expected : String} (s : Option String) :
    (Field.optionalText name expected).Finds (.optionalText name s) (.ofText? s) where
  name_eq := rfl
  gives p t hp ht := by
    cases s with
    | none =>
      obtain ⟨rest, h⟩ : Gives (value 0) t .null := IsRendering.gives hp .null ht
      exact ⟨rest, (optionalText_read_eq_ok_iff 0).mpr (.inl ⟨rfl, h⟩)⟩
    | some s =>
      obtain ⟨rest, h⟩ : Gives (value 0) t (.text s) := IsRendering.gives hp (.text s) ht
      exact ⟨rest, (optionalText_read_eq_ok_iff 0).mpr (.inr ⟨s, rfl, h⟩)⟩
  fallback_eq h := by
    obtain rfl : s = none := h
    rfl

/-- **What a field holds** is what is said under its name. -/
theorem Finds.datum?_eq {field : Field} {e : Telling} {d : Datum} (h : field.Finds e d)
    {ms : List WrittenMember} {ms' : List (String × Bytes)} (he : e.IsIn ms)
    (hread : List.Forall₂ WrittenMember.IsRead ms ms') : field.datum? ms' = some d := by
  unfold datum? taken?
  rw [h.name_eq]
  rcases he with ⟨m, hsole, htold⟩ | ⟨hmiss, habsent⟩
  · obtain ⟨m', hfilter, hm'⟩ := hsole.exists_filter (fun _ _ h => h.isNamed_iff) hread
    rw [hfilter]
    simp [given_eq_some_iff.mpr (h.gives _ _ htold hm'.2)]
  · rw [(filter_eq_nil_iff (fun _ _ h => h.isNamed_iff) hread).mpr habsent]
    simp [h.fallback_eq hmiss]

end Field

/-- **What the fields of a record find**, each in what is said under its name. -/
inductive FindsAll : List Field → List Telling → List Datum → Prop
  | nil : FindsAll [] [] []
  | cons {field : Field} {e : Telling} {d : Datum} {fields : List Field} {es : List Telling}
      {ds : List Datum} (h : field.Finds e d) (hs : FindsAll fields es ds) :
      FindsAll (field :: fields) (e :: es) (d :: ds)

variable {fields : List Field} {es : List Telling} {ds : List Datum}

theorem FindsAll.data?_eq (h : FindsAll fields es ds) {ms : List WrittenMember}
    {ms' : List (String × Bytes)} (hes : ∀ e ∈ es, e.IsIn ms)
    (hread : List.Forall₂ WrittenMember.IsRead ms ms') : data? fields ms' = some ds := by
  induction h with
  | nil => rfl
  | cons h _ ih =>
    obtain ⟨he, hes⟩ := List.forall_mem_cons.mp hes
    rw [data?_cons, h.datum?_eq he hread, ih hes]
    rfl

/-- **A record is read** from the objects that tell it, wherever they stand. -/
theorem Tells.readRecord_eq (h : Tells es t) (hfinds : FindsAll fields es ds)
    (hfields : ∀ f ∈ fields, Reads f.read) (hnames : (fields.map (·.name)).Nodup) (hgap : AreBlank gap)
    (rest : Bytes) : readRecord name fields (gap ++ (t ++ rest)) = .ok (ds, rest) := by
  obtain ⟨ms, hms, hnamed, hes⟩ := h
  obtain ⟨u, ms', hu, hmembers, hread⟩ := hms.exists_members hnamed rest
  have hstart := (hms.skipBlank_append hgap rest).trans hu
  exact (readRecord_eq_ok_iff hfields hnames).mpr
    (.inr ⟨u, ms', hstart, hmembers, hfinds.data?_eq hes hread⟩)

/-! ### What renders an object -/

/-- A member in a text of which its name and its value are rendered. -/
def RendersMember (m : String × Json) (w : WrittenMember) : Prop :=
  w.IsNamed m.1 ∧ IsRendering m.2 w.value

/-- A member that is rendered stands in the text of its object. -/
theorem exists_rendersMember {i : LabelledMember} (hlabel : IsLabel i.name i.label)
    (htext : Renders i.value i.text) (hfits : Fits depth i.value) :
    ∃ w, RendersMember (i.name, i.value) w ∧
      Padded WrittenMember.IsText (encodeChars (i.label ++ i.text)) w := by
  obtain ⟨before, token, after, hbefore, hafter, htoken, hi⟩ := hlabel
  have hrender : IsRendering i.value (encodeChars i.text) := ⟨i.text, htext, rfl⟩
  have hstring := isString_of_isSpelling htoken
  refine ⟨⟨encodeChars token, encodeChars i.text⟩, ⟨⟨token, htoken, rfl⟩, hrender⟩,
    encodeChars before, _, [], hbefore.areBlank, .nil, ?_,
    ⟨encodeChars after, [], hstring, hrender.isWellFormed hfits, hafter.areBlank, .nil, rfl⟩⟩
  rw [hi]
  simp only [encodeChars_append, List.append_assoc, List.append_nil, List.nil_append]
  rfl

/-- **The members of an object** are rendered one by one. -/
theorem IsRendering.exists_members {ms : List (String × Json)} (h : IsRendering (.object ms) t)
    (hfits : Fits (depth + 1) (.object ms)) :
    ∃ ws, Padded IsObject t ws ∧ List.Forall₂ RendersMember ms ws := by
  obtain ⟨cs, hcs, rfl⟩ := h
  generalize hv : Json.object ms = v at hcs
  induction hcs with
  | padded hbefore hafter _ ih =>
    obtain ⟨ws, hws, hall⟩ := ih hv
    refine ⟨ws, ?_, hall⟩
    rw [encodeChars_append, encodeChars_append]
    exact hws.append hbefore.areBlank hafter.areBlank
  | @object items gap hgap hlabel htext _ =>
    obtain rfl := Json.object.inj hv
    have hall : ∀ m ∈ items.map fun i => (i.name, i.value), Fits depth m.2 := by
      cases hfits with
      | object hall => exact hall
    have hitem : ∀ i ∈ items, ∃ w, RendersMember (i.name, i.value) w ∧
        Padded WrittenMember.IsText (encodeChars (i.label ++ i.text)) w := fun i hi =>
      exists_rendersMember (hlabel i hi) (htext i hi) (hall _ (List.mem_map_of_mem hi))
    obtain ⟨ws, hws⟩ := exists_forall₂ hitem
    refine ⟨ws, .of_piece ⟨items.map fun i => encodeChars (i.label ++ i.text), encodeChars gap, ?_,
      hgap.areBlank, ?_⟩, ?_⟩
    · rw [List.forall₂_map_left_iff]
      exact hws.imp fun _ _ h => h.2
    · rw [encodeChars_bracket, List.map_map]
      rfl
    · rw [List.forall₂_map_left_iff]
      exact hws.imp fun _ _ h => h.1
  | _ => cases hv

/-- **What renders a list** is a bracket around texts that render its elements. -/
theorem IsRendering.exists_pieces {α : Type} {f : α → Json} {as : List α} {Piece : Bytes → α → Prop}
    (h : IsRendering (.array (as.map f)) t)
    (hpiece : ∀ a ∈ as, ∀ u, IsRendering (f a) u → Padded Piece u a) :
    Padded (Bracket.list.Encloses Piece) t as := by
  obtain ⟨cs, hcs, rfl⟩ := h
  generalize hv : Json.array (as.map f) = v at hcs
  induction hcs with
  | padded hbefore hafter _ ih =>
    rw [encodeChars_append, encodeChars_append]
    exact (ih hv).append hbefore.areBlank hafter.areBlank
  | @array items gap hgap htext hold =>
    have hitems : List.Forall₂ (fun i a => i.1 = f a) items as := by
      have heq := List.forall₂_eq_eq_eq.symm ▸ (Json.array.inj hv).symm
      rwa [List.forall₂_map_left_iff, List.forall₂_map_right_iff] at heq
    refine .of_piece ⟨items.map fun i => encodeChars i.2, encodeChars gap, ?_, hgap.areBlank, ?_⟩
    · rw [List.forall₂_map_left_iff]
      clear hv hold
      induction hitems with
      | nil => exact .nil
      | @cons i a _ _ hi _ ih =>
        obtain ⟨ha, has⟩ := List.forall_mem_cons.mp hpiece
        obtain ⟨hi', hitems'⟩ := List.forall_mem_cons.mp htext
        exact .cons (ha _ ⟨i.2, hi ▸ hi', rfl⟩) (ih has hitems')
    · rw [encodeChars_bracket, List.map_map]
      rfl
  | _ => cases hv

/-- **A member says what is said under a name**, however it is rendered. -/
structure Conveys (depth : Nat) (m : String × Json) (e : Telling) : Prop where
  name_eq : m.1 = e.name
  fits : Fits depth m.2
  isToldBy : ∀ t, IsRendering m.2 t → e.IsToldBy t

theorem conveys_natural {n : Nat} (fallback : Option Nat) (hn : n < 2 ^ 64) :
    Conveys depth (name, .ofNat n) (.natural name n fallback) :=
  ⟨rfl, .natural hn, fun _ h => h⟩

theorem conveys_text (s : String) : Conveys depth (name, .text s) (.text name s) :=
  ⟨rfl, .text s, fun _ h => h⟩

theorem conveys_optionalText (s : Option String) :
    Conveys depth (name, .ofOption .text s) (.optionalText name s) := by
  refine ⟨rfl, ?_, fun _ h => h⟩
  cases s with
  | none => exact .null
  | some s => exact .text s

/-- An object whose members say something fits, with one more bracket. -/
theorem fits_of_conveys {ms : List (String × Json)} (h : List.Forall₂ (Conveys depth) ms es) :
    Fits (depth + 1) (.object ms) := by
  refine .object ?_
  intro m hm
  obtain ⟨e, -, he⟩ := exists_counterpart h hm
  exact he.fits

/-- **What renders an object tells the record**, if its members say what the record says. -/
theorem IsRendering.tells {ms : List (String × Json)} (h : IsRendering (.object ms) t)
    (hnames : (ms.map (·.1)).Nodup) (hconveys : List.Forall₂ (Conveys depth) ms es) :
    Padded (fun p es => Tells es p) t es := by
  obtain ⟨ws, ⟨before, p, after, hbefore, hafter, rfl, hp⟩, hws⟩ :=
    h.exists_members (fits_of_conveys hconveys)
  refine ⟨before, p, after, hbefore, hafter, rfl, ws, hp, ?_, ?_⟩
  · intro w hw
    obtain ⟨m, -, hm⟩ := exists_counterpart hws.flip hw
    exact ⟨m.1, hm.1⟩
  · intro e he
    obtain ⟨front, back, rfl⟩ := List.append_of_mem he
    obtain ⟨front', m, back', rfl, -, hm, -⟩ := exists_split hconveys.flip
    obtain ⟨front'', w, back'', rfl, hfront, hw, hback⟩ := exists_split hws
    refine .inl ⟨w, ⟨front'', back'', rfl, hm.name_eq ▸ hw.1, ?_⟩, hm.isToldBy _ hw.2⟩
    -- The other members have other names.
    have hothers : ∀ m' ∈ front' ++ back', m'.1 ≠ e.name := by
      intro m' hm' heq
      have hperm : (front' ++ m :: back').Perm (m :: (front' ++ back')) := List.perm_middle
      have hdistinct := (hperm.map (·.1)).nodup_iff.mp hnames
      rw [List.map_cons, List.nodup_cons] at hdistinct
      refine hdistinct.1 ?_
      rw [hm.name_eq, ← heq]
      exact List.mem_map_of_mem hm'
    intro w' hw' hnamed
    obtain ⟨m', hm', hw''⟩ : ∃ m' ∈ front' ++ back', RendersMember m' w' := by
      have hall : List.Forall₂ RendersMember (front' ++ back') (front'' ++ back'') :=
        List.rel_append hfront hback
      obtain ⟨l, l', hl⟩ := List.append_of_mem hw'
      rw [hl] at hall
      obtain ⟨k, m', k', hk, -, hm', -⟩ := exists_split hall.flip
      exact ⟨m', hk ▸ by simp, hm'⟩
    exact hothers m' hm' (hw''.1.unique hnamed)

/-! ### Objects that tell no record -/

/-- **The members do not fit a slot**: its name is repeated, or it is missing although it must be there. -/
def Slot.IsMisfilled (slot : Slot) (ms : List WrittenMember) : Prop :=
  IsRepeated slot.name ms ∨ slot.isRequired = true ∧ IsAbsent slot.name ms

/-- What is filled by the members that are read fits what is written. -/
theorem Slot.IsFilled.not_isMisfilled {slot : Slot} {ms : List WrittenMember}
    {ms' : List (String × Bytes)} (h : slot.IsFilled ms')
    (hread : List.Forall₂ WrittenMember.IsRead ms ms') : ¬ slot.IsMisfilled ms := by
  rintro (hrepeated | ⟨hrequired, habsent⟩)
  · have hlength := hrepeated.lt_length_filter (fun _ _ h => h.isNamed_iff) hread
    rcases h with ⟨-, hnone⟩ | ⟨m, hone, -⟩
    · simp [hnone] at hlength
    · simp [hone] at hlength
  · have hnone := (filter_eq_nil_iff (fun _ _ h => h.isNamed_iff) hread).mpr habsent
    rcases h with ⟨hoptional, -⟩ | ⟨m, hone, -⟩
    · rw [hrequired] at hoptional
      cases hoptional
    · cases hnone.symm.trans hone

/-- **Where a record is read from an object**, its slots are filled by what is written. -/
theorem IsRecord.exists_members {slots : List Slot} {ms : List WrittenMember} (hms : IsObject t ms)
    (hgap : AreBlank gap) {rest' : Bytes} (h : IsRecord slots (gap ++ (t ++ rest)) rest') :
    ∃ ms', List.Forall₂ WrittenMember.IsRead ms ms' ∧ rest' = rest ∧ ∀ slot ∈ slots, slot.IsFilled ms' := by
  have hstart := hms.skipBlank_append hgap rest
  obtain ⟨w, -, hw, -⟩ := hms.exists_entries rest
  rcases h with ⟨u, ts, hu, -⟩ | ⟨u, ms', hu, hmembers, hfilled⟩
  · cases hw.symm.trans (hstart.symm.trans hu)
  · obtain ⟨hread, hrest⟩ := hms.reads_members (hstart.symm.trans hu) hmembers
    exact ⟨ms', hread, hrest, hfilled⟩

/-- **No record is read where a slot is misfilled.** -/
theorem not_isRecord_of_isMisfilled {slots : List Slot} {ms : List WrittenMember} (hms : IsObject t ms)
    (hgap : AreBlank gap) {slot : Slot} (hslot : slot ∈ slots) (hmis : slot.IsMisfilled ms)
    {rest' : Bytes} : ¬ IsRecord slots (gap ++ (t ++ rest)) rest' := by
  intro h
  obtain ⟨ms', hread, -, hfilled⟩ := h.exists_members hms hgap
  exact (hfilled slot hslot).not_isMisfilled hread hmis

end ReleasePublisher.Json
