import ReleasePublisher.Proofs.Json.Tellings
import ReleasePublisher.Proofs.Release.RecordShapes
import ReleasePublisher.Release.ConfigFile

/-!
# Records that are told by objects

Repositories, releases, assets and configuration files are read from every object that tells them: from the
one that is written for them, and from those whose members stand in another order, have others between them,
or are left out where nothing needs to be said. An object that repeats a name, or lacks one that must be
there, tells no record.

## Main definitions

* `Asset.tellings`, `Repository.tellings`, `Release.tellings`, `FileConfig.tellings`: what each record says
* `Asset.IsFlawed`, `Repository.IsFlawed`, `Release.IsFlawed`, `FileConfig.IsFlawed`: objects that tell none
* `RoundTrips`: a record is read from all objects that tell it

## Main results

* `roundTrips_records`: all four records are read from the objects that tell them
-/

namespace ReleasePublisher

open Json

variable {t gap rest : Bytes}

/-- **A record is read from all objects that tell it**: from what renders the object that is written for it,
and from every object that says the same. No record is read from a flawed object. -/
structure RoundTrips {α : Type} (decode : Bytes → Except Fault α) (toJson : α → Json)
    (IsWritable : α → Prop) (tellings : α → List Telling) (IsFlawed : Bytes → Prop) : Prop where
  of_rendered : ∀ x, IsWritable x → ∀ t, IsRendering (toJson x) t → decode t = .ok x
  of_told : ∀ x, IsWritable x → ∀ t, Padded (fun p es => Tells es p) t (tellings x) → decode t = .ok x
  of_flawed : ∀ before t after, AreBlank before → AreBlank after → IsFlawed t →
    ∃ f, decode (before ++ (t ++ after)) = .error f

/-! ### Records of any kind -/

section

variable {α : Type} {name : String} {fields : List Field} {slots : List Slot} {es : List Telling}
  {ds : List Datum} {ofData : List Datum → Option α}

/-- **A record is decoded** from the objects that tell it. -/
theorem decodeRecord_of_tells (hfits : List.Forall₂ Field.Fits fields slots)
    (hnames : (fields.map (·.name)).Nodup) (hfinds : FindsAll fields es ds) {a : α}
    (ha : ofData ds = some a) (h : Padded (fun p es => Tells es p) t es) :
    decodeRecord name fields ofData t = .ok a := by
  obtain ⟨before, p, after, hbefore, hafter, rfl, hp⟩ := h
  have hread : readRecord name fields (before ++ (p ++ after)) = .ok (ds, after) :=
    hp.readRecord_eq hfinds (reads_of_fits hfits) hnames hbefore after
  have hend : skipBlank after = [] := by
    rw [← List.append_nil after, skipBlank_append hafter]
    rfl
  have hwhole := wholeText_eq_ok_iff.mpr ⟨after, hread, hend⟩
  simp [decodeRecord, hwhole, ha]

/-- Where no record has the shape, none is decoded. -/
theorem exists_error_of_not_isRecord (hfits : List.Forall₂ Field.Fits fields slots)
    (hnames : (fields.map (·.name)).Nodup) (h : ∀ rest, ¬ IsRecord slots t rest) :
    ∃ f, decodeRecord name fields ofData t = .error f := by
  unfold decodeRecord
  cases hds : wholeText (readRecord name fields) t with
  | error f => exact ⟨f, rfl⟩
  | ok ds =>
    obtain ⟨rest, hread, -⟩ := wholeText_eq_ok_iff.mp hds
    exact absurd ((exists_readRecord_iff name hfits hnames).mp ⟨ds, hread⟩) (h rest)

/-- **A record is read from all objects that tell it**, if each of its fields finds its datum, what is written for
it conveys it, and no flawed object has its shape. -/
theorem roundTrips_of_fields {toJson : α → Json} {IsWritable : α → Prop} {tellings : α → List Telling}
    {IsFlawed : Bytes → Prop} {data : α → List Datum} {depth : Nat}
    (hfits : List.Forall₂ Field.Fits fields slots) (hnames : (fields.map (·.name)).Nodup)
    (hfinds : ∀ x, IsWritable x → FindsAll fields (tellings x) (data x))
    (hdata : ∀ x, IsWritable x → ofData (data x) = some x)
    (hconveys : ∀ x, IsWritable x → ∃ ms, toJson x = .object ms ∧ (ms.map (·.1)).Nodup ∧
      List.Forall₂ (Conveys depth) ms (tellings x))
    (hflawed : ∀ t gap, IsFlawed t → AreBlank gap →
      ∀ rest rest', ¬ IsRecord slots (gap ++ (t ++ rest)) rest') :
    RoundTrips (decodeRecord name fields ofData) toJson IsWritable tellings IsFlawed where
  of_rendered x hx t ht := by
    obtain ⟨ms, hms, hnodup, hall⟩ := hconveys x hx
    rw [hms] at ht
    exact decodeRecord_of_tells hfits hnames (hfinds x hx) (hdata x hx) (ht.tells hnodup hall)
  of_told x hx t ht := decodeRecord_of_tells hfits hnames (hfinds x hx) (hdata x hx) ht
  of_flawed before t after hbefore _ ht :=
    exists_error_of_not_isRecord hfits hnames fun rest => hflawed t before ht hbefore after rest

/-- An object of which a slot is misfilled. -/
def IsMisfilled (slots : List Slot) (t : Bytes) : Prop :=
  ∃ ms, IsObject t ms ∧ ∃ slot ∈ slots, slot.IsMisfilled ms

theorem IsMisfilled.not_isRecord (h : IsMisfilled slots t) (hgap : AreBlank gap) (rest rest' : Bytes) :
    ¬ IsRecord slots (gap ++ (t ++ rest)) rest' := by
  obtain ⟨ms, hms, slot, hslot, hmis⟩ := h
  exact not_isRecord_of_isMisfilled hms hgap hslot hmis

/-- **What stands under a name** holds in its slot, where a record is read. -/
theorem holds_of_isRecord {ms : List WrittenMember} (hms : IsObject t ms) (hgap : AreBlank gap)
    {rest' : Bytes} (h : IsRecord slots (gap ++ (t ++ rest)) rest') {slot : Slot} (hslot : slot ∈ slots)
    {m : WrittenMember} (hm : m ∈ ms) (hname : m.IsNamed slot.name) :
    ∃ u, Opens m.value u ∧ slot.Holds u := by
  obtain ⟨ms', hread, -, hfilled⟩ := h.exists_members hms hgap
  obtain ⟨m', hm, hm'⟩ := exists_counterpart hread hm
  have hmem : m' ∈ ms'.filter (·.1 == slot.name) :=
    List.mem_filter.mpr ⟨hm, hm'.isNamed_iff.mp hname⟩
  rcases hfilled slot hslot with ⟨-, hnone⟩ | ⟨m'', hone, hholds⟩
  · rw [hnone] at hmem
    cases hmem
  · rw [hone] at hmem
    obtain rfl := List.mem_singleton.mp hmem
    exact ⟨m'.2, hm'.2, hholds⟩

end

/-! ### Assets -/

namespace Asset

/-- The numbers of an asset fit 64 bits. -/
def IsWritable (a : Asset) : Prop :=
  a.id < 2 ^ 64 ∧ a.size < 2 ^ 64

/-- **What an asset says.** -/
def tellings (a : Asset) : List Telling :=
  [.natural "id" a.id none, .text "name" a.name, .natural "size" a.size (some 0),
    .optionalText "content_type" a.contentType, .optionalText "browser_download_url" a.downloadUrl]

/-- **An object that tells no asset.** -/
def IsFlawed (t : Bytes) : Prop :=
  IsMisfilled slots t

/-- The data of an asset. -/
def data (a : Asset) : List Datum :=
  [.count a.id, .text a.name, .count a.size, .ofText? a.contentType, .ofText? a.downloadUrl]

@[simp] theorem ofData_data (a : Asset) : ofData a.data = some a := by
  simp [ofData, data]

theorem findsAll {a : Asset} (h : a.IsWritable) : FindsAll fields a.tellings a.data :=
  .cons (Field.finds_natural none h.1) <| .cons (Field.finds_text _) <|
    .cons (Field.finds_natural (some 0) h.2) <| .cons (Field.finds_optionalText _) <|
      .cons (Field.finds_optionalText _) .nil

/-- What is written for an asset says what the asset says. -/
theorem conveys {a : Asset} (h : a.IsWritable) : List.Forall₂ (Conveys 0) a.toJson.members a.tellings :=
  .cons (conveys_natural none h.1) <| .cons (conveys_text _) <| .cons (conveys_natural (some 0) h.2) <|
    .cons (conveys_optionalText _) <| .cons (conveys_optionalText _) .nil

theorem roundTrips : RoundTrips decode toJson IsWritable tellings IsFlawed :=
  roundTrips_of_fields fits_fields nodup_fields (fun _ ha => findsAll ha) (fun a _ => a.ofData_data)
    (fun _ ha => ⟨_, rfl, by simp, conveys ha⟩) fun _ _ ht hgap => ht.not_isRecord hgap

end Asset

/-! ### Repositories -/

namespace Repository

/-- The identification of a repository fits 64 bits. -/
def IsWritable (r : Repository) : Prop :=
  r.id < 2 ^ 64

/-- **What a repository says.** -/
def tellings (r : Repository) : List Telling :=
  [.natural "id" r.id none, .text "full_name" r.fullName, .optionalText "html_url" r.pageUrl]

/-- **An object that tells no repository.** -/
def IsFlawed (t : Bytes) : Prop :=
  IsMisfilled slots t

theorem findsAll {r : Repository} (h : r.IsWritable) :
    FindsAll fields r.tellings [.count r.id, .text r.fullName, .ofText? r.pageUrl] :=
  .cons (Field.finds_natural none h) <| .cons (Field.finds_text _) <|
    .cons (Field.finds_optionalText _) .nil

theorem conveys {r : Repository} (h : r.IsWritable) :
    List.Forall₂ (Conveys 0) r.toJson.members r.tellings :=
  .cons (conveys_natural none h) <| .cons (conveys_text _) <| .cons (conveys_optionalText _) .nil

theorem roundTrips : RoundTrips decode toJson IsWritable tellings IsFlawed :=
  roundTrips_of_fields fits_fields (by decide) (fun _ hr => findsAll hr) (fun _ _ => by simp [ofData])
    (fun _ hr => ⟨_, rfl, by simp, conveys hr⟩) fun _ _ ht hgap => ht.not_isRecord hgap

end Repository

/-! ### Releases -/

namespace Release

/-- The numbers of a release fit 64 bits, and so do those of its assets. -/
def IsWritable (r : Release) : Prop :=
  r.id < 2 ^ 64 ∧ ∀ a ∈ r.assets, a.IsWritable

/-- The text tells the asset. -/
def TellsAsset (t : Bytes) (a : Asset) : Prop :=
  Tells a.tellings t

/-- **What a release says.** -/
def tellings (r : Release) : List Telling :=
  [.natural "id" r.id none, .text "tag_name" r.tag, .optionalText "name" r.name,
    .text "upload_url" r.uploadUrl, .optionalText "html_url" r.pageUrl,
    ⟨"assets", fun t => Padded (Bracket.list.Encloses TellsAsset) t r.assets, r.assets = []⟩]

/-- **An object that tells no release**: by its own members, or by one of its assets. -/
def IsFlawed (t : Bytes) : Prop :=
  IsMisfilled slots t ∨ ∃ ms, IsObject t ms ∧ ∃ m ∈ ms, m.IsNamed "assets" ∧
    ∃ items, Padded (Bracket.list.Encloses fun p i => p = i ∧ IsElement i) m.value items ∧
      ∃ i ∈ items, Asset.IsFlawed i

theorem TellsAsset.isElement {a : Asset} (h : TellsAsset t a) : IsElement t := by
  obtain ⟨ms, hms, -⟩ := h
  exact hms.isElement

/-- An asset is read from where it is told. -/
theorem gives_of_standsFor {a : Asset} (ha : a.IsWritable) (h : StandsFor TellsAsset a t) :
    Gives (readRecord "ReleaseAsset" Asset.fields) t a.data := by
  obtain ⟨p, rest, hp, -, rfl⟩ := h
  exact ⟨rest, hp.readRecord_eq (Asset.findsAll ha) (reads_of_fits Asset.fits_fields) Asset.nodup_fields
    .nil rest⟩

theorem finds_assetsField {r : Release} (h : r.IsWritable) : assetsField.Finds
    ⟨"assets", fun t => Padded (Bracket.list.Encloses TellsAsset) t r.assets, r.assets = []⟩
    (.many (r.assets.map Asset.data)) where
  name_eq := rfl
  gives p t hp ht := by
    obtain ⟨u, ts, rest, hu, hts, hall⟩ :=
      exists_elements_of_opens hp (fun _ _ => TellsAsset.isElement) ht
    have hgives : List.Forall₂ (Gives (readRecord "ReleaseAsset" Asset.fields)) ts
        (r.assets.map Asset.data) := by
      rw [List.forall₂_map_right_iff]
      have hassets := (List.forall₂_and_left _ _).mpr ⟨h.2, hall⟩
      exact hassets.flip.imp fun _ _ ha => gives_of_standsFor ha.1 ha.2
    have hread := (readMany_eq_ok_iff Asset.reads_record).mpr ⟨u, ts, hu, hts, hgives⟩
    exact ⟨rest, map_eq_ok.mpr ⟨_, hread, rfl⟩⟩
  fallback_eq hnone := by
    have hnil : r.assets = [] := hnone
    rw [hnil]
    rfl

/-- The data of a release. -/
def data (r : Release) : List Datum :=
  [.count r.id, .text r.tag, .ofText? r.name, .text r.uploadUrl, .ofText? r.pageUrl,
    .many (r.assets.map Asset.data)]

@[simp] theorem ofData_data (r : Release) : ofData r.data = some r := by
  have hassets : (r.assets.map Asset.data).mapM Asset.ofData = some r.assets := by
    induction r.assets with
    | nil => rfl
    | cons a as ih =>
      rw [List.map_cons, mapM_cons_eq, Asset.ofData_data, ih]
      rfl
  simp [ofData, data, hassets]

theorem findsAll {r : Release} (h : r.IsWritable) : FindsAll fields r.tellings r.data :=
  .cons (Field.finds_natural none h.1) <| .cons (Field.finds_text _) <|
    .cons (Field.finds_optionalText _) <| .cons (Field.finds_text _) <|
      .cons (Field.finds_optionalText _) <| .cons (finds_assetsField h) .nil

/-- The list that is written for assets tells them. -/
theorem conveys_assets {r : Release} (h : r.IsWritable) : Conveys 2
    ("assets", .array (r.assets.map Asset.toJson))
    ⟨"assets", fun t => Padded (Bracket.list.Encloses TellsAsset) t r.assets, r.assets = []⟩ where
  name_eq := rfl
  fits := by
    refine .array ?_
    intro v hv
    obtain ⟨a, ha, rfl⟩ := List.mem_map.mp hv
    exact fits_of_conveys (Asset.conveys (h.2 a ha))
  isToldBy t ht := by
    refine ht.exists_pieces ?_
    intro a ha u hu
    obtain ⟨before, p, after, hbefore, hafter, hp⟩ := hu.tells (by simp) (Asset.conveys (h.2 a ha))
    exact ⟨before, p, after, hbefore, hafter, hp⟩

theorem conveys {r : Release} (h : r.IsWritable) : List.Forall₂ (Conveys 2) r.toJson.members r.tellings :=
  .cons (conveys_natural none h.1) <| .cons (conveys_text _) <| .cons (conveys_optionalText _) <|
    .cons (conveys_text _) <| .cons (conveys_optionalText _) <| .cons (conveys_assets h) .nil

theorem IsFlawed.not_isRecord (h : IsFlawed t) (hgap : AreBlank gap) (rest rest' : Bytes) :
    ¬ IsRecord slots (gap ++ (t ++ rest)) rest' := by
  rcases h with h | ⟨ms, hms, m, hm, hname, items, hitems, i, hi, hflawed⟩
  · exact h.not_isRecord hgap rest rest'
  intro hrecord
  have hslot : ⟨"assets", false, IsListOf fun t => ∃ rest, IsRecord Asset.slots t rest⟩ ∈ slots := by
    simp [slots]
  obtain ⟨x, hx, u, ts, w, hu, hts, hall⟩ := holds_of_isRecord hms hgap hrecord hslot hm hname
  obtain ⟨u', ts', w', hu', hts', hstands⟩ := exists_elements_of_opens hitems
    (by rintro p _ ⟨rfl, hp⟩; exact hp) hx
  obtain ⟨-, rfl⟩ := List.cons.inj (hu.symm.trans hu')
  obtain ⟨rfl, -⟩ := hts.unique hts'
  -- The flawed asset is one of the elements, which all are records.
  obtain ⟨_, hy, p, z, ⟨rfl, -⟩, -, rfl⟩ := exists_counterpart hstands hi
  obtain ⟨r, hr⟩ := hall (p ++ z) hy
  exact hflawed.not_isRecord .nil z r hr

theorem roundTrips : RoundTrips decode toJson IsWritable tellings IsFlawed :=
  roundTrips_of_fields fits_fields (by decide) (fun _ hr => findsAll hr) (fun r _ => r.ofData_data)
    (fun _ hr => ⟨_, rfl, by simp, conveys hr⟩) fun _ _ ht hgap => ht.not_isRecord hgap

end Release

/-! ### Configuration files -/

namespace FileSection

/-- The paths of a section are texts. -/
def IsWritable (s : FileSection) : Prop :=
  (∀ p ∈ s.buildDir, ∃ u, p = .ofText u) ∧ ∀ p ∈ s.outputDir, ∃ u, p = .ofText u

/-- What a section is read from. -/
def slots : List Slot :=
  [⟨"project", false, IsNullOrText⟩, ⟨"owner", false, IsNullOrText⟩, ⟨"platform", false, IsNullOrText⟩,
    ⟨"build_dir", false, IsNullOrText⟩, ⟨"output_dir", false, IsNullOrText⟩,
    ⟨"api_url", false, IsNullOrText⟩]

/-- **What a section says.** -/
def tellings (s : FileSection) : List Telling :=
  [.optionalText "project" s.project, .optionalText "owner" s.owner, .optionalText "platform" s.platform,
    .optionalText "build_dir" (s.buildDir.map Path.display),
    .optionalText "output_dir" (s.outputDir.map Path.display), .optionalText "api_url" s.apiUrl]

/-- **An object that tells no section.** -/
def IsFlawed (t : Bytes) : Prop :=
  IsMisfilled slots t

/-- The data of a section. -/
def data (s : FileSection) : List Datum :=
  [.ofText? s.project, .ofText? s.owner, .ofText? s.platform, .ofText? (s.buildDir.map Path.display),
    .ofText? (s.outputDir.map Path.display), .ofText? s.apiUrl]

/-- A path that is a text is shown as it. -/
theorem map_ofText_display {p : Option Path} (h : ∀ q ∈ p, ∃ u, q = .ofText u) :
    (p.map Path.display).map .ofText = p := by
  cases p with
  | none => rfl
  | some q =>
    obtain ⟨u, rfl⟩ := h q rfl
    simp [Path.display, Path.ofText, Utf8.lossy_encode]

theorem ofData_data {s : FileSection} (h : s.IsWritable) : ofData s.data = some s := by
  have hbuild := map_ofText_display h.1
  have houtput := map_ofText_display h.2
  simp only [ofData, data, Datum.text?_ofText?, hbuild, houtput]

theorem fits_fields : List.Forall₂ Field.Fits fields slots :=
  .cons Field.fits_optionalText <| .cons Field.fits_optionalText <| .cons Field.fits_optionalText <|
    .cons Field.fits_optionalText <| .cons Field.fits_optionalText <| .cons Field.fits_optionalText .nil

theorem nodup_fields : (fields.map (·.name)).Nodup := by decide

theorem findsAll (s : FileSection) : FindsAll fields s.tellings s.data :=
  .cons (Field.finds_optionalText _) <| .cons (Field.finds_optionalText _) <|
    .cons (Field.finds_optionalText _) <| .cons (Field.finds_optionalText _) <|
      .cons (Field.finds_optionalText _) <| .cons (Field.finds_optionalText _) .nil

theorem conveys_path {name : String} {depth : Nat} (p : Option Path) :
    Conveys depth (name, .ofOption (.text ·.display) p) (.optionalText name (p.map Path.display)) := by
  cases p with
  | none => exact conveys_optionalText none
  | some p => exact conveys_optionalText (some p.display)

theorem conveys (s : FileSection) : List.Forall₂ (Conveys 0) s.toJson.members s.tellings :=
  .cons (conveys_optionalText _) <| .cons (conveys_optionalText _) <| .cons (conveys_optionalText _) <|
    .cons (conveys_path _) <| .cons (conveys_path _) <| .cons (conveys_optionalText _) .nil

end FileSection

namespace FileConfig

/-- The paths of a file are texts. -/
def IsWritable (c : FileConfig) : Prop :=
  c.release.IsWritable

/-- What a file is read from. -/
def slots : List Slot :=
  [⟨"release", false, fun t => ∃ rest, IsRecord FileSection.slots t rest⟩]

/-- The text tells the section. -/
def TellsSection (t : Bytes) (s : FileSection) : Prop :=
  Tells s.tellings t

/-- **What a file says.** -/
def tellings (c : FileConfig) : List Telling :=
  [⟨"release", fun t => Padded TellsSection t c.release, c.release = .empty⟩]

/-- **An object that tells no file**: by its own members, or by its section. -/
def IsFlawed (t : Bytes) : Prop :=
  IsMisfilled slots t ∨ ∃ ms, IsObject t ms ∧ ∃ m ∈ ms, m.IsNamed "release" ∧
    ∃ before s after, AreBlank before ∧ AreBlank after ∧ m.value = before ++ (s ++ after) ∧
      FileSection.IsFlawed s

theorem fits_releaseField : releaseField.Fits
    ⟨"release", false, fun t => ∃ rest, IsRecord FileSection.slots t rest⟩ where
  name_eq := rfl
  reads s d rest h := by
    obtain ⟨⟨ds, r⟩, hds, he⟩ := map_eq_ok.mp h
    cases he
    exact reads_readRecord (reads_of_fits FileSection.fits_fields) FileSection.nodup_fields _ _ _ hds
  isSome_fallback := rfl
  isSome_given t := by
    rw [Field.isSome_given_iff]
    simp only [← exists_readRecord_iff "FileReleaseSection" FileSection.fits_fields
      FileSection.nodup_fields]
    constructor
    · rintro ⟨d, rest, h⟩
      obtain ⟨⟨ds, r⟩, hds, he⟩ := map_eq_ok.mp h
      exact ⟨r, ds, hds⟩
    · rintro ⟨rest, ds, hds⟩
      exact ⟨.record ds, rest, map_eq_ok.mpr ⟨_, hds, rfl⟩⟩

theorem fits_fields : List.Forall₂ Field.Fits [releaseField] slots :=
  .cons fits_releaseField .nil

theorem finds_releaseField (c : FileConfig) : releaseField.Finds
    ⟨"release", fun t => Padded TellsSection t c.release, c.release = .empty⟩
    (.record c.release.data) where
  name_eq := rfl
  gives p t hp ht := by
    obtain ⟨before, q, after, hbefore, hafter, rfl, hq⟩ := hp
    obtain ⟨gap, rest, hgap, -, rfl⟩ := ht
    have hread : readRecord "FileReleaseSection" FileSection.fields
        ((gap ++ before) ++ (q ++ (after ++ rest))) = .ok (c.release.data, after ++ rest) :=
      hq.readRecord_eq c.release.findsAll (reads_of_fits FileSection.fits_fields)
        FileSection.nodup_fields (List.forall_mem_append.mpr ⟨hgap, hbefore⟩) (after ++ rest)
    refine ⟨after ++ rest, map_eq_ok.mpr ⟨(c.release.data, after ++ rest), ?_, rfl⟩⟩
    simpa using hread
  fallback_eq hempty := by
    have hrelease : c.release = .empty := hempty
    rw [hrelease]
    rfl

/-- The object that is written for a section tells it. -/
theorem conveys_release (c : FileConfig) : Conveys 1 ("release", c.release.toJson)
    ⟨"release", fun t => Padded TellsSection t c.release, c.release = .empty⟩ where
  name_eq := rfl
  fits := fits_of_conveys c.release.conveys
  isToldBy t ht := by
    obtain ⟨before, p, after, hbefore, hafter, hp⟩ := ht.tells (by simp) c.release.conveys
    exact ⟨before, p, after, hbefore, hafter, hp⟩

theorem IsFlawed.not_isRecord (h : IsFlawed t) (hgap : AreBlank gap) (rest rest' : Bytes) :
    ¬ IsRecord slots (gap ++ (t ++ rest)) rest' := by
  rcases h with h | ⟨ms, hms, m, hm, hname, before, s, after, hbefore, -, hvalue, hflawed⟩
  · exact h.not_isRecord hgap rest rest'
  intro hrecord
  have hslot : ⟨"release", false, fun t => ∃ rest, IsRecord FileSection.slots t rest⟩ ∈ slots := by
    simp [slots]
  obtain ⟨x, ⟨gap', z, hgap', -, hx⟩, r, hr⟩ := holds_of_isRecord hms hgap hrecord hslot hm hname
  have hsection := hflawed.not_isRecord (List.forall_mem_append.mpr ⟨hgap', hbefore⟩) (after ++ z) r
  rw [hx, hvalue] at hr
  exact hsection (by simpa using hr)

theorem ofData_data {c : FileConfig} (h : c.IsWritable) : ofData [.record c.release.data] = some c := by
  simp [ofData, FileSection.ofData_data h]

theorem roundTrips : RoundTrips decode toJson IsWritable tellings IsFlawed :=
  roundTrips_of_fields fits_fields (by decide) (fun c _ => .cons c.finds_releaseField .nil)
    (fun _ hc => ofData_data hc) (fun c _ => ⟨_, rfl, by simp, .cons c.conveys_release .nil⟩)
    fun _ _ ht hgap => ht.not_isRecord hgap

end FileConfig

/-! ### All records -/

/-- **Reading undoes writing**, for every repository, release, asset and configuration file whose numbers fit
64 bits and whose paths are texts. Each is read from all renderings of the object that is written for it, and
from all objects that tell it: with the members in any order, with others between them whatever their values
are, and without those that say only what is assumed where nothing is said. Where a name is repeated, or one
that must be there is missing, in the object or in an asset or the section inside it, nothing is read. -/
theorem roundTrips_records :
    RoundTrips Repository.decode Repository.toJson Repository.IsWritable Repository.tellings
        Repository.IsFlawed ∧
      RoundTrips Release.decode Release.toJson Release.IsWritable Release.tellings Release.IsFlawed ∧
      RoundTrips Asset.decode Asset.toJson Asset.IsWritable Asset.tellings Asset.IsFlawed ∧
      RoundTrips FileConfig.decode FileConfig.toJson FileConfig.IsWritable FileConfig.tellings
        FileConfig.IsFlawed :=
  ⟨Repository.roundTrips, Release.roundTrips, Asset.roundTrips, FileConfig.roundTrips⟩

/-- The repository `o/a` is told with its name before its number, and another member before both; without its
number it is not told. -/
theorem roundTrips_records_sample :
    Repository.decode (Utf8.encode "\x7b\"x\": [1e3] ,\"full_name\":\"o/a\",\"id\":18446744073709551615\x7d") =
        .ok ⟨18446744073709551615, "o/a", none⟩ ∧
      ∃ f, Repository.decode (Utf8.encode "\x7b\"full_name\":\"o/a\"\x7d") = .error f := by
  let other : WrittenMember := ⟨Utf8.encode "\"x\"", Utf8.encode "[1e3]"⟩
  let name : WrittenMember := ⟨Utf8.encode "\"full_name\"", Utf8.encode "\"o/a\""⟩
  let id : WrittenMember := ⟨Utf8.encode "\"id\"", Utf8.encode "18446744073709551615"⟩
  have hother : other.IsNamed "x" := ⟨_, isSpelling_textToken "x", rfl⟩
  have hname : name.IsNamed "full_name" := ⟨_, isSpelling_textToken "full_name", rfl⟩
  have hid : id.IsNamed "id" := ⟨_, isSpelling_textToken "id", rfl⟩
  have hstring : ∀ s, IsString (Utf8.encodeChars (textToken s)) := fun s =>
    isString_of_isSpelling (isSpelling_textToken s)
  have hone : AreDigits [0x31] := ⟨List.cons_ne_nil _ _, by simp⟩
  have hthree : AreDigits [0x33] := ⟨List.cons_ne_nil _ _, by simp⟩
  have hnumeral : IsNumeral (Utf8.encode "1e3") :=
    ⟨[0x31], [], [0x65, 0x33], .inr ⟨hone, by decide⟩, .inl rfl,
      .inr ⟨0x65, [], [0x33], by decide, by decide, hthree, rfl⟩, rfl⟩
  have hlist : IsWellFormed other.value :=
    @IsWellFormed.bracket .list [([], Utf8.encode "1e3")] [] .nil (by simp [Bracket.Labels])
      (by simpa using .numeral hnumeral)
  have hnumber : IsRendering (.ofNat 18446744073709551615) id.value :=
    ⟨_, .natural _, by decide⟩
  have hblank : AreBlank [0x20] := by simp [AreBlank, isSpace]
  have hotherText : Padded WrittenMember.IsText (Utf8.encode "\"x\": [1e3] ") other :=
    ⟨[], Utf8.encode "\"x\": [1e3]", [0x20], .nil, hblank, rfl, [], [0x20], hstring "x", hlist, .nil,
      hblank, rfl⟩
  have hnameText : Padded WrittenMember.IsText (Utf8.encode "\"full_name\":\"o/a\"") name :=
    .of_piece ⟨[], [], hstring "full_name", .string (hstring "o/a"), .nil, .nil, rfl⟩
  have hfits : Json.Fits 0 (.ofNat 18446744073709551615) := .natural (by decide)
  have hidText : Padded WrittenMember.IsText (Utf8.encode "\"id\":18446744073709551615") id :=
    .of_piece ⟨[], [], hstring "id", hnumber.isWellFormed hfits, .nil, .nil, rfl⟩
  refine ⟨?_, ?_⟩
  · refine roundTrips_records.1.of_told ⟨18446744073709551615, "o/a", none⟩
      (show 18446744073709551615 < 2 ^ 64 by decide) _
      (.of_piece ⟨[other, name, id], ⟨_, [], .cons hotherText (.cons hnameText (.cons hidText .nil)), .nil,
        rfl⟩, ?_, ?_⟩)
    · simp only [List.forall_mem_cons]
      exact ⟨⟨_, hother⟩, ⟨_, hname⟩, ⟨_, hid⟩, List.forall_mem_nil _⟩
    · simp only [Repository.tellings, List.forall_mem_cons]
      have hne : ∀ {m : WrittenMember} {a b : String}, m.IsNamed a → a ≠ b → ¬ m.IsNamed b :=
        fun h hab h' => hab (h.unique h')
      refine ⟨.inl ⟨id, ⟨[other, name], [], rfl, hid, ?_⟩, hnumber⟩,
        .inl ⟨name, ⟨[other], [id], rfl, hname, ?_⟩, ⟨_, .text (isSpelling_textToken "o/a"), rfl⟩⟩,
        .inr ⟨rfl, ?_⟩, List.forall_mem_nil _⟩
      · simpa using ⟨hne hother (by decide), hne hname (by decide)⟩
      · simpa using ⟨hne hother (by decide), hne hid (by decide)⟩
      · simpa [IsAbsent] using ⟨hne hother (by decide), hne hname (by decide), hne hid (by decide)⟩
  · refine roundTrips_records.1.of_flawed [] _ [] .nil .nil
      ⟨[name], ⟨_, [], .cons hnameText .nil, .nil, rfl⟩, ⟨"id", true, IsNatural⟩, by simp [Repository.slots],
        .inr ⟨rfl, ?_⟩⟩
    simpa [IsAbsent] using fun h : name.IsNamed "id" => absurd (hname.unique h) (by decide)

end ReleasePublisher
