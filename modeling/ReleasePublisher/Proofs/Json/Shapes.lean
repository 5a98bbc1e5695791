import ReleasePublisher.Proofs.Json.Records

/-!
# The shape of records

A record has slots, with what may stand in each of them. Slots are told by the values that the text states,
not by readers of fields; where each field reads what may stand in its slot, a record is read exactly from
the texts of that shape.

## Main definitions

* `Json.IsNatural`, `Json.IsText`, `Json.IsNullOrText`, `Json.IsListOf`: what may stand in a slot
* `Json.Slot`: a slot of a record
* `Json.IsRecord slots s rest`: a record with these slots stands at the start of a text
* `Json.Field.Fits field slot`: a field reads what may stand in a slot
* `Json.Field.Yields field P`: whatever a field finds is such a datum

## Main results

* `Json.exists_readRecord_iff`: what records are read from
-/

namespace ReleasePublisher.Json

/-! ### What may stand in a slot -/

/-- A natural number of 64 bits. -/
def IsNatural (t : Bytes) : Prop :=
  ∃ n, Gives (value maxDepth) t (.number (.natural n))

/-- A string. -/
def IsText (t : Bytes) : Prop :=
  ∃ s, Gives (value maxDepth) t (.text s)

/-- A string or `null`. -/
def IsNullOrText (t : Bytes) : Prop :=
  Gives (value maxDepth) t .null ∨ IsText t

/-- A list of such values. -/
def IsListOf (P : Bytes → Prop) (t : Bytes) : Prop :=
  ∃ u ts rest, skipBlank t = 0x5B :: u ∧ Elements true u ts rest ∧ ∀ x ∈ ts, P x

/-- A slot of a record: its name, whether something must stand there, and what may. -/
structure Slot where
  name : String
  isRequired : Bool
  Holds : Bytes → Prop

/-- A slot is filled by the one member of its name, or is empty if it may be. -/
def Slot.IsFilled (slot : Slot) (ms : List (String × Bytes)) : Prop :=
  slot.isRequired = false ∧ ms.filter (·.1 == slot.name) = [] ∨
    ∃ m, ms.filter (·.1 == slot.name) = [m] ∧ slot.Holds m.2

/-- The slots are filled in their order, those left over being empty if they may be. -/
def AreFilled : List Slot → List Bytes → Prop
  | [], ts => ts = []
  | slot :: slots, [] => slot.isRequired = false ∧ AreFilled slots []
  | slot :: slots, t :: ts => slot.Holds t ∧ AreFilled slots ts

/-- **A record** with these slots: an object whose members fill them, or a list whose values do. -/
def IsRecord (slots : List Slot) (s rest : Bytes) : Prop :=
  (∃ t ts, skipBlank s = 0x5B :: t ∧ Elements true t ts rest ∧ AreFilled slots ts) ∨
    ∃ t ms, skipBlank s = 0x7B :: t ∧ Members true t ms rest ∧ ∀ slot ∈ slots, slot.IsFilled ms

/-- A text is one record, with nothing but blanks around it. -/
def IsRecordText (slots : List Slot) (s : Bytes) : Prop :=
  ∃ rest, IsRecord slots s rest ∧ skipBlank rest = []

/-- A record is a document. -/
theorem IsRecordText.isDocument {slots : List Slot} {s : Bytes} (h : IsRecordText slots s) :
    IsDocument s := by
  obtain ⟨rest, h, hrest⟩ := h
  rcases h with ⟨t, ts, hs, hts, -⟩ | ⟨t, ms, hs, hms, -⟩
  · exact ⟨rest, hts.spans_value hs, hrest⟩
  · exact ⟨rest, hms.spans_value hs, hrest⟩

/-! ### Fields -/

/-- **A field reads what may stand in a slot**, and has a default if the slot may be empty. -/
structure Field.Fits (field : Field) (slot : Slot) : Prop where
  name_eq : field.name = slot.name
  reads : Reads field.read
  isSome_fallback : field.fallback.isSome = !slot.isRequired
  isSome_given : ∀ t, (given field.read t).isSome = true ↔ slot.Holds t

namespace Field

variable {name : String}

theorem reads_natural {fallback : Option Nat} : Reads (Field.natural name fallback).read := by
  intro s d rest h
  obtain ⟨n, -, hn⟩ := (natural_read_eq_ok_iff 0).mp h
  exact reads_value 0 _ _ _ hn

theorem reads_text : Reads (Field.text name).read := by
  intro s d rest h
  obtain ⟨t, -, ht⟩ := (text_read_eq_ok_iff 0).mp h
  exact reads_value 0 _ _ _ ht

theorem reads_optionalText {expected : String} : Reads (Field.optionalText name expected).read := by
  intro s d rest h
  rcases (optionalText_read_eq_ok_iff 0).mp h with ⟨-, hv⟩ | ⟨t, -, hv⟩
  · exact reads_value 0 _ _ _ hv
  · exact reads_value 0 _ _ _ hv

theorem isSome_given_iff {α : Type} {item : Bytes → Result α} {t : Bytes} :
    (given item t).isSome = true ↔ ∃ a, Gives item t a := by
  rw [Option.isSome_iff_exists]
  simp only [given_eq_some_iff]

theorem fits_natural (fallback : Option Nat) :
    (Field.natural name fallback).Fits ⟨name, fallback.isNone, IsNatural⟩ where
  name_eq := rfl
  reads := reads_natural
  isSome_fallback := by cases fallback <;> rfl
  isSome_given t := by
    rw [isSome_given_iff]
    constructor
    · rintro ⟨d, rest, h⟩
      obtain ⟨n, -, hn⟩ := (natural_read_eq_ok_iff _).mp h
      exact ⟨n, rest, hn⟩
    · rintro ⟨n, rest, h⟩
      exact ⟨.count n, rest, (natural_read_eq_ok_iff _).mpr ⟨n, rfl, h⟩⟩

theorem fits_text : (Field.text name).Fits ⟨name, true, IsText⟩ where
  name_eq := rfl
  reads := reads_text
  isSome_fallback := rfl
  isSome_given t := by
    rw [isSome_given_iff]
    constructor
    · rintro ⟨d, rest, h⟩
      obtain ⟨s, -, hs⟩ := (text_read_eq_ok_iff _).mp h
      exact ⟨s, rest, hs⟩
    · rintro ⟨s, rest, h⟩
      exact ⟨.text s, rest, (text_read_eq_ok_iff _).mpr ⟨s, rfl, h⟩⟩

theorem fits_optionalText {expected : String} :
    (Field.optionalText name expected).Fits ⟨name, false, IsNullOrText⟩ where
  name_eq := rfl
  reads := reads_optionalText
  isSome_fallback := rfl
  isSome_given t := by
    rw [isSome_given_iff]
    constructor
    · rintro ⟨d, rest, h⟩
      rcases (optionalText_read_eq_ok_iff _).mp h with ⟨-, hn⟩ | ⟨s, -, hs⟩
      · exact .inl ⟨rest, hn⟩
      · exact .inr ⟨s, rest, hs⟩
    · rintro (⟨rest, h⟩ | ⟨s, rest, h⟩)
      · exact ⟨.absent, rest, (optionalText_read_eq_ok_iff _).mpr (.inl ⟨rfl, h⟩)⟩
      · exact ⟨.text s, rest, (optionalText_read_eq_ok_iff _).mpr (.inr ⟨s, rfl, h⟩)⟩

end Field

/-! ### Records -/

variable {fields : List Field} {slots : List Slot}

/-- A field finds its datum exactly where its slot is filled. -/
theorem Field.Fits.isSome_datum? {field : Field} {slot : Slot} (h : field.Fits slot)
    (ms : List (String × Bytes)) : (field.datum? ms).isSome = true ↔ slot.IsFilled ms := by
  unfold Field.datum? Field.taken? Slot.IsFilled
  rw [h.name_eq]
  generalize ms.filter (·.1 == slot.name) = ms'
  match ms' with
  | [] => simp [h.isSome_fallback]
  | [m] =>
    have hm := h.isSome_given m.2
    cases hg : given field.read m.2 with
    | none => simpa [hg] using hm
    | some d => simpa [hg] using hm
  | _ :: _ :: _ => simp

theorem isSome_data? (h : List.Forall₂ Field.Fits fields slots) (ms : List (String × Bytes)) :
    (data? fields ms).isSome = true ↔ ∀ slot ∈ slots, slot.IsFilled ms := by
  induction h with
  | nil => simp
  | @cons field slot _ _ hfield _ ih =>
    rw [data?_cons, List.forall_mem_cons, ← hfield.isSome_datum?, ← ih]
    cases field.datum? ms <;> simp

theorem isSome_fill? (h : List.Forall₂ Field.Fits fields slots) (ts : List Bytes) :
    (fill? fields ts).isSome = true ↔ AreFilled slots ts := by
  induction h generalizing ts with
  | nil => cases ts <;> simp [fill?, AreFilled]
  | @cons field slot _ _ hfield _ ih =>
    cases ts with
    | nil =>
      rw [fill?_cons_nil, AreFilled, ← ih]
      have hf := hfield.isSome_fallback
      cases hd : field.fallback <;> simp_all
    | cons t ts =>
      rw [fill?_cons_cons, AreFilled, ← ih, ← hfield.isSome_given]
      cases given field.read t <;> simp

theorem reads_of_fits (h : List.Forall₂ Field.Fits fields slots) : ∀ f ∈ fields, Reads f.read := by
  induction h with
  | nil => simp
  | cons hfield _ ih => exact List.forall_mem_cons.mpr ⟨hfield.reads, ih⟩

/-- **What records are read from**: the texts that have the shape. -/
theorem exists_readRecord_iff (name : String) (h : List.Forall₂ Field.Fits fields slots)
    (hnames : (fields.map (·.name)).Nodup) {s rest : Bytes} :
    (∃ ds, readRecord name fields s = .ok (ds, rest)) ↔ IsRecord slots s rest := by
  simp only [readRecord_eq_ok_iff (reads_of_fits h) hnames, IsRecord, ← isSome_data? h,
    ← isSome_fill? h, Option.isSome_iff_exists]
  constructor
  · rintro ⟨ds, ⟨t, ts, hs, hts, hds⟩ | ⟨t, ms, hs, hms, hds⟩⟩
    · exact .inl ⟨t, ts, hs, hts, ds, hds⟩
    · exact .inr ⟨t, ms, hs, hms, ds, hds⟩
  · rintro (⟨t, ts, hs, hts, ds, hds⟩ | ⟨t, ms, hs, hms, ds, hds⟩)
    · exact ⟨ds, .inl ⟨t, ts, hs, hts, hds⟩⟩
    · exact ⟨ds, .inr ⟨t, ms, hs, hms, hds⟩⟩

namespace Field

variable {item : Bytes → Result (List Datum)} {P : Bytes → Prop}

/-- A field that reads a list of records. -/
theorem fits_many (hitem : Reads item) (hP : ∀ t, (∃ a, Gives item t a) ↔ P t) {field : Field}
    (hread : ∀ s, field.read s = (readMany item s).map fun (l, s) => (.many l, s))
    (hfallback : field.fallback.isSome = true) : field.Fits ⟨field.name, false, IsListOf P⟩ where
  name_eq := rfl
  reads s d rest h := by
    rw [hread] at h
    obtain ⟨⟨as, r⟩, has, he⟩ := map_eq_ok.mp h
    cases he
    obtain ⟨t, ts, hs, hts, -⟩ := (readMany_eq_ok_iff hitem).mp has
    exact hts.spans_value hs
  isSome_fallback := hfallback
  isSome_given t := by
    rw [isSome_given_iff]
    simp only [IsListOf, ← hP, ← exists_forall₂_gives]
    constructor
    · rintro ⟨d, rest, h⟩
      rw [hread] at h
      obtain ⟨⟨as, r⟩, has, he⟩ := map_eq_ok.mp h
      obtain ⟨u, ts, hu, hts, hall⟩ := (readMany_eq_ok_iff hitem).mp has
      exact ⟨u, ts, r, hu, hts, as, hall⟩
    · rintro ⟨u, ts, rest, hu, hts, as, hall⟩
      refine ⟨.many as, rest, ?_⟩
      rw [hread]
      exact map_eq_ok.mpr ⟨_, (readMany_eq_ok_iff hitem).mpr ⟨u, ts, hu, hts, hall⟩, rfl⟩

end Field

/-! ### What fields find -/

/-- Whatever a field finds in a text, or has as its default, is such a datum. -/
def Field.Yields (field : Field) (P : Datum → Prop) : Prop :=
  (∀ t d, Gives field.read t d → P d) ∧ ∀ d, field.fallback = some d → P d

namespace Field

variable {name : String}

theorem yields_natural {fallback : Option Nat} :
    (Field.natural name fallback).Yields fun d => ∃ n, d = .count n := by
  constructor
  · rintro t d ⟨rest, h⟩
    obtain ⟨n, rfl, -⟩ := (natural_read_eq_ok_iff 0).mp h
    exact ⟨n, rfl⟩
  · intro d h
    obtain ⟨n, -, rfl⟩ := Option.map_eq_some_iff.mp h
    exact ⟨n, rfl⟩

theorem yields_text : (Field.text name).Yields fun d => ∃ t, d = .text t := by
  constructor
  · rintro t d ⟨rest, h⟩
    obtain ⟨s, rfl, -⟩ := (text_read_eq_ok_iff 0).mp h
    exact ⟨s, rfl⟩
  · rintro d ⟨⟩

theorem yields_any (field : Field) : field.Yields fun _ => True :=
  ⟨fun _ _ _ => trivial, fun _ _ => trivial⟩

/-- A field that reads a list of records. -/
theorem yields_many {item : Bytes → Result (List Datum)} (hitem : Reads item) {P : List Datum → Prop}
    (hP : ∀ t ds, Gives item t ds → P ds) {field : Field}
    (hread : ∀ s, field.read s = (readMany item s).map fun (l, s) => (.many l, s))
    (hfallback : field.fallback = some (.many [])) :
    field.Yields fun d => ∃ records, d = .many records ∧ ∀ ds ∈ records, P ds := by
  constructor
  · rintro t d ⟨rest, h⟩
    rw [hread] at h
    obtain ⟨⟨records, r⟩, hrecords, he⟩ := map_eq_ok.mp h
    cases he
    obtain ⟨-, ts, -, -, hall⟩ := (readMany_eq_ok_iff hitem).mp hrecords
    refine ⟨records, rfl, ?_⟩
    intro ds hds
    obtain ⟨t, ht⟩ := exists_gives_of_mem hall ds hds
    exact hP t ds ht
  · intro d h
    rw [hfallback] at h
    cases h
    exact ⟨[], rfl, by simp⟩

theorem Yields.of_datum? {field : Field} {P : Datum → Prop} (h : field.Yields P)
    {ms : List (String × Bytes)} {d : Datum} (hd : field.datum? ms = some d) : P d := by
  unfold datum? taken? at hd
  split at hd
  · exact h.2 d (by simpa using hd)
  · rename_i m _
    cases hg : given field.read m.2 with
    | none => simp [hg] at hd
    | some d' =>
      obtain rfl : d' = d := by simpa [hg] using hd
      exact h.1 _ _ (given_eq_some_iff.mp hg)
  · cases hd

end Field

/-- Data of these kinds. -/
abbrev AreOfKinds (kinds : List (Datum → Prop)) (ds : List Datum) : Prop :=
  List.Forall₂ (fun P d => P d) kinds ds

variable {kinds : List (Datum → Prop)} {ds : List Datum}

theorem areOfKinds_of_data? (h : List.Forall₂ Field.Yields fields kinds)
    {ms : List (String × Bytes)} (hds : data? fields ms = some ds) : AreOfKinds kinds ds := by
  induction h generalizing ds with
  | nil =>
    cases hds
    exact .nil
  | cons hfield _ ih =>
    rw [data?_cons] at hds
    obtain ⟨d, hd, hds⟩ := Option.bind_eq_some_iff.mp hds
    obtain ⟨ds', hds', rfl⟩ := Option.map_eq_some_iff.mp hds
    exact .cons (hfield.of_datum? hd) (ih hds')

theorem areOfKinds_of_fill? (h : List.Forall₂ Field.Yields fields kinds) {ts : List Bytes}
    (hds : fill? fields ts = some ds) : AreOfKinds kinds ds := by
  induction h generalizing ts ds with
  | nil =>
    cases ts with
    | nil =>
      cases hds
      exact .nil
    | cons => cases hds
  | cons hfield _ ih =>
    cases ts with
    | nil =>
      rw [fill?_cons_nil] at hds
      obtain ⟨d, hd, hds⟩ := Option.bind_eq_some_iff.mp hds
      obtain ⟨ds', hds', rfl⟩ := Option.map_eq_some_iff.mp hds
      exact .cons (hfield.2 d hd) (ih hds')
    | cons t ts =>
      rw [fill?_cons_cons] at hds
      obtain ⟨d, hd, hds⟩ := Option.bind_eq_some_iff.mp hds
      obtain ⟨ds', hds', rfl⟩ := Option.map_eq_some_iff.mp hds
      exact .cons (hfield.1 t d (given_eq_some_iff.mp hd)) (ih hds')

/-- **The data of a record** are what its fields find. -/
theorem areOfKinds_of_readRecord (hfits : List.Forall₂ Field.Fits fields slots)
    (hnames : (fields.map (·.name)).Nodup) (h : List.Forall₂ Field.Yields fields kinds)
    {name : String} {s rest : Bytes} (hds : readRecord name fields s = .ok (ds, rest)) :
    AreOfKinds kinds ds := by
  rcases (readRecord_eq_ok_iff (reads_of_fits hfits) hnames).mp hds with
    ⟨_, _, -, -, hds⟩ | ⟨_, _, -, -, hds⟩
  · exact areOfKinds_of_fill? h hds
  · exact areOfKinds_of_data? h hds

end ReleasePublisher.Json
