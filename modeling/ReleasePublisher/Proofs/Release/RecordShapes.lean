import ReleasePublisher.Proofs.Json.Shapes
import ReleasePublisher.Release.Records

/-!
# The shapes of the host's records

What a text must be for a repository, a release or an asset to be read from it: a record with an
identification and with names, and possibly with addresses, a size and a type of content.

## Main definitions

* `Repository.slots`, `Release.slots`, `Asset.slots`: the slots of each record

## Main results

* `Repository.exists_decode_iff`, `Release.exists_decode_iff`, `Asset.exists_decode_iff`: a record is read
  exactly from the texts of its shape
-/

namespace ReleasePublisher

open Json

variable {text : Bytes}

/-- A record is read where there are data, from which it can be made. -/
theorem exists_decodeRecord_iff {α : Type} {name : String} {fields : List Field} {slots : List Slot}
    {kinds : List (Datum → Prop)} {ofData : List Datum → Option α}
    (hfits : List.Forall₂ Field.Fits fields slots) (hnames : (fields.map (·.name)).Nodup)
    (hyields : List.Forall₂ Field.Yields fields kinds)
    (hdata : ∀ ds, AreOfKinds kinds ds → ∃ a, ofData ds = some a) :
    (∃ a, decodeRecord name fields ofData text = .ok a) ↔ IsRecordText slots text := by
  have hwhole : (∃ a, decodeRecord name fields ofData text = .ok a) ↔
      ∃ ds, wholeText (readRecord name fields) text = .ok ds := by
    unfold decodeRecord
    cases hds : wholeText (readRecord name fields) text with
    | error f => simp
    | ok ds =>
      obtain ⟨rest, hread, -⟩ := wholeText_eq_ok_iff.mp hds
      obtain ⟨a, ha⟩ := hdata ds (areOfKinds_of_readRecord hfits hnames hyields hread)
      simp [ha]
  rw [hwhole]
  simp only [wholeText_eq_ok_iff, IsRecordText, ← exists_readRecord_iff name hfits hnames]
  constructor
  · rintro ⟨ds, rest, h, hrest⟩
    exact ⟨rest, ⟨ds, h⟩, hrest⟩
  · rintro ⟨rest, ⟨ds, h⟩, hrest⟩
    exact ⟨ds, rest, h, hrest⟩

/-- **A record that is read** is made from data of its kinds. -/
theorem exists_data_of_decodeRecord {α : Type} {name : String} {fields : List Field}
    {slots : List Slot} {kinds : List (Datum → Prop)} {ofData : List Datum → Option α} {a : α}
    (hfits : List.Forall₂ Field.Fits fields slots) (hnames : (fields.map (·.name)).Nodup)
    (hyields : List.Forall₂ Field.Yields fields kinds)
    (h : decodeRecord name fields ofData text = .ok a) :
    ∃ ds, AreOfKinds kinds ds ∧ ofData ds = some a := by
  unfold decodeRecord at h
  split at h
  · cases h
  · rename_i ds hds
    obtain ⟨rest, hread, -⟩ := wholeText_eq_ok_iff.mp hds
    refine ⟨ds, areOfKinds_of_readRecord hfits hnames hyields hread, ?_⟩
    split at h
    · rename_i b hb
      rw [hb, Except.ok.inj h]
    · cases h

/-- A datum is a natural number. -/
def IsCount (d : Datum) : Prop :=
  ∃ n, d = .count n

/-- A datum is a text. -/
def IsTextual (d : Datum) : Prop :=
  ∃ t, d = .text t

namespace Asset

/-- What an asset is read from. -/
def slots : List Slot :=
  [⟨"id", true, IsNatural⟩, ⟨"name", true, IsText⟩, ⟨"size", false, IsNatural⟩,
    ⟨"content_type", false, IsNullOrText⟩, ⟨"browser_download_url", false, IsNullOrText⟩]

theorem nodup_fields : (fields.map (·.name)).Nodup := by decide

theorem fits_fields : List.Forall₂ Field.Fits fields slots :=
  .cons (Field.fits_natural none) <| .cons Field.fits_text <| .cons (Field.fits_natural (some 0)) <|
    .cons Field.fits_optionalText <| .cons Field.fits_optionalText .nil

theorem yields_fields :
    List.Forall₂ Field.Yields fields [IsCount, IsTextual, IsCount, fun _ => True, fun _ => True] :=
  .cons Field.yields_natural <| .cons Field.yields_text <| .cons Field.yields_natural <|
    .cons (Field.yields_any _) <| .cons (Field.yields_any _) .nil

theorem exists_ofData {ds : List Datum}
    (h : AreOfKinds [IsCount, IsTextual, IsCount, fun _ => True, fun _ => True] ds) :
    ∃ a, ofData ds = some a := by
  obtain _ | ⟨⟨id, rfl⟩, _ | ⟨⟨name, rfl⟩, _ | ⟨⟨size, rfl⟩, _ | ⟨-, _ | ⟨-, _ | _⟩⟩⟩⟩⟩ := h
  exact ⟨_, rfl⟩

theorem reads_record : Reads (readRecord "ReleaseAsset" fields) :=
  reads_readRecord (reads_of_fits fits_fields) nodup_fields

/-- **What an asset is read from.** -/
theorem exists_decode_iff : (∃ a, decode text = .ok a) ↔ IsRecordText slots text :=
  exists_decodeRecord_iff fits_fields nodup_fields yields_fields fun _ => exists_ofData

end Asset

namespace Repository

/-- What a repository is read from. -/
def slots : List Slot :=
  [⟨"id", true, IsNatural⟩, ⟨"full_name", true, IsText⟩, ⟨"html_url", false, IsNullOrText⟩]

theorem fits_fields : List.Forall₂ Field.Fits fields slots :=
  .cons (Field.fits_natural none) <| .cons Field.fits_text <| .cons Field.fits_optionalText .nil

theorem yields_fields : List.Forall₂ Field.Yields fields [IsCount, IsTextual, fun _ => True] :=
  .cons Field.yields_natural <| .cons Field.yields_text <| .cons (Field.yields_any _) .nil

theorem exists_ofData {ds : List Datum} (h : AreOfKinds [IsCount, IsTextual, fun _ => True] ds) :
    ∃ a, ofData ds = some a := by
  obtain _ | ⟨⟨id, rfl⟩, _ | ⟨⟨name, rfl⟩, _ | ⟨-, _ | _⟩⟩⟩ := h
  exact ⟨_, rfl⟩

/-- **What a repository is read from.** -/
theorem exists_decode_iff : (∃ a, decode text = .ok a) ↔ IsRecordText slots text :=
  exists_decodeRecord_iff fits_fields (by decide) yields_fields fun _ => exists_ofData

end Repository

namespace Release

/-- What a release is read from. -/
def slots : List Slot :=
  [⟨"id", true, IsNatural⟩, ⟨"tag_name", true, IsText⟩, ⟨"name", false, IsNullOrText⟩,
    ⟨"upload_url", true, IsText⟩, ⟨"html_url", false, IsNullOrText⟩,
    ⟨"assets", false, IsListOf fun t => ∃ rest, IsRecord Asset.slots t rest⟩]

theorem fits_assetsField : assetsField.Fits
    ⟨"assets", false, IsListOf fun t => ∃ rest, IsRecord Asset.slots t rest⟩ := by
  refine Field.fits_many Asset.reads_record ?_ (fun _ => rfl) rfl
  intro t
  simp only [← exists_readRecord_iff "ReleaseAsset" Asset.fits_fields Asset.nodup_fields, Gives]
  exact exists_comm

theorem fits_fields : List.Forall₂ Field.Fits fields slots :=
  .cons (Field.fits_natural none) <| .cons Field.fits_text <| .cons Field.fits_optionalText <|
    .cons Field.fits_text <| .cons Field.fits_optionalText <| .cons fits_assetsField .nil

/-- A datum is a list of assets. -/
def AreAssets (d : Datum) : Prop :=
  ∃ records, d = .many records ∧ ∀ ds ∈ records, ∃ a, Asset.ofData ds = some a

theorem yields_assetsField : assetsField.Yields AreAssets := by
  refine Field.yields_many Asset.reads_record ?_ (fun _ => rfl) rfl
  rintro t ds ⟨rest, h⟩
  exact Asset.exists_ofData
    (areOfKinds_of_readRecord Asset.fits_fields Asset.nodup_fields Asset.yields_fields h)

theorem yields_fields : List.Forall₂ Field.Yields fields
    [IsCount, IsTextual, fun _ => True, IsTextual, fun _ => True, AreAssets] :=
  .cons Field.yields_natural <| .cons Field.yields_text <| .cons (Field.yields_any _) <|
    .cons Field.yields_text <| .cons (Field.yields_any _) <| .cons yields_assetsField .nil

theorem exists_ofData {ds : List Datum}
    (h : AreOfKinds [IsCount, IsTextual, fun _ => True, IsTextual, fun _ => True, AreAssets] ds) :
    ∃ a, ofData ds = some a := by
  obtain _ | ⟨⟨id, rfl⟩, _ | ⟨⟨tag, rfl⟩, _ | ⟨-, _ | ⟨⟨url, rfl⟩, _ | ⟨-, _ |
    ⟨⟨records, rfl, hrecords⟩, _ | _⟩⟩⟩⟩⟩⟩ := h
  obtain ⟨assets, hassets⟩ : ∃ assets, records.mapM Asset.ofData = some assets := by
    induction records with
    | nil => exact ⟨[], rfl⟩
    | cons ds records ih =>
      obtain ⟨⟨a, ha⟩, hrecords⟩ := List.forall_mem_cons.mp hrecords
      obtain ⟨assets, hassets⟩ := ih hrecords
      refine ⟨a :: assets, ?_⟩
      rw [mapM_cons_eq, ha, hassets]
      rfl
  simp [ofData, hassets]

/-- **What a release is read from.** -/
theorem exists_decode_iff : (∃ a, decode text = .ok a) ↔ IsRecordText slots text :=
  exists_decodeRecord_iff fits_fields (by decide) yields_fields fun _ => exists_ofData

end Release

end ReleasePublisher
