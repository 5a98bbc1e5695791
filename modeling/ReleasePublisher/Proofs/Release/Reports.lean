import ReleasePublisher.Proofs.Json.Ranges
import ReleasePublisher.Proofs.Json.Writing
import ReleasePublisher.Proofs.Publish.DryRun
import ReleasePublisher.Proofs.Publish.Footprint
import ReleasePublisher.Proofs.Release.ArchiveSize
import ReleasePublisher.Proofs.Release.RecordShapes
import ReleasePublisher.Release.Report

/-!
# Reports as objects

A report has fields, some of which may be absent. As an object it has one member for each field that is
there, in their order. It can be written where all its paths are text, and be read again if its integers
have 64 bits; those that the host states have, and so have the sizes of archives.

## Main definitions

* `Report`: what a command can give
* `Report.fields`, `Report.paths`: its fields, and the paths among them
* `Report.WithinLimits`: its integers have 64 bits

## Main results

* `Report.toJson_eq_some_iff`: when a report can be written as an object, and what the object is
* `Report.fits_toJson`: the object can be read again
* `Report.withinLimits_of_publish`: what is published has integers of 64 bits
-/

namespace ReleasePublisher

open Json

variable {v : Json} {depth : Nat}

/-! ### Fields -/

/-- **What a command gives** when it is done. -/
inductive Report where
  | published (r : PublishReport)
  | packed (a : PackagedArchive)
  | resolved (c : Config)

/-- Fields with their values, if they are there. -/
abbrev Fields := List (String × Option Json)

/-- The fields that are there. -/
def Fields.present (fs : Fields) : List (String × Json) :=
  fs.filterMap fun f => f.2.map (f.1, ·)

namespace Report

/-- The object that describes a report, if it can be written. -/
def toJson : Report → Option Json
  | published r => r.toJson
  | packed a => a.toJson
  | resolved c => c.toJson

/-- The fields of a report. -/
def fields : Report → Fields
  | published r =>
    [("project", some (.text r.project)), ("repository", some (.text r.repository)),
      ("release_tag", some (.text r.releaseTag)), ("release_url", r.releaseUrl.map .text),
      ("archive", r.archive.toJson), ("asset", r.asset.map Asset.toJson),
      ("dry_run", some (.bool r.dryRun))]
  | packed a =>
    [("path", a.path.text?.map .text), ("file_name", some (.text a.fileName)),
      ("entry", some (.text a.entry)), ("size", some (.ofNat a.size)),
      ("sha256", some (.text a.sha256))]
  | resolved c =>
    [("project", some (.text c.project)), ("owner", some (.text c.owner)),
      ("platform", some (.text c.platform)), ("build_dir", c.buildDir.text?.map .text),
      ("output_dir", c.outputDir.text?.map .text), ("api_url", some (.text c.apiUrl)),
      ("proxy_url", c.proxyUrl.map .text),
      ("config_file", (c.configFile.bind Path.text?).map .text)]

/-- The paths of a report. -/
def paths : Report → List Path
  | published r => [r.archive.path]
  | packed a => [a.path]
  | resolved c => c.buildDir :: c.outputDir :: c.configFile.toList

/-- An object can be written where all paths are text; it has the fields that are there. -/
theorem toJson_eq (r : Report) : r.toJson =
    if ∀ p ∈ r.paths, p.text?.isSome = true then some (.object r.fields.present) else none := by
  -- Where all paths are text, the members are compared for each choice of the fields that may be absent.
  cases r with
  | published r =>
    cases hp : r.archive.path.text? with
    | none => simp [toJson, PublishReport.toJson, PackagedArchive.toJson, paths, hp]
    | some path =>
      cases hu : r.releaseUrl <;> cases ha : r.asset <;>
        simp [toJson, PublishReport.toJson, PublishReport.toJsonWith, PackagedArchive.toJson, paths,
          fields, Fields.present, hp, hu, ha]
  | packed a =>
    cases hp : a.path.text? <;>
      simp [toJson, PackagedArchive.toJson, paths, fields, Fields.present, hp]
  | resolved c =>
    cases hb : c.buildDir.text? with
    | none => simp [toJson, Config.toJson, paths, hb]
    | some buildDir =>
      cases ho : c.outputDir.text? with
      | none => simp [toJson, Config.toJson, paths, hb, ho]
      | some outputDir =>
        cases hf : c.configFile with
        | none =>
          cases hu : c.proxyUrl <;>
            simp [toJson, Config.toJson, paths, fields, Fields.present, hb, ho, hf, hu]
        | some file =>
          cases ht : file.text? <;> cases hu : c.proxyUrl <;>
            simp [toJson, Config.toJson, paths, fields, Fields.present, hb, ho, hf, ht, hu]

/-- **When a report can be written**, and what is written: all its paths are text, and the object has the
fields that are there. -/
theorem toJson_eq_some_iff {r : Report} :
    r.toJson = some v ↔ (∀ p ∈ r.paths, p.text?.isSome = true) ∧ v = .object r.fields.present := by
  rw [toJson_eq]
  split
  · rename_i h
    exact ⟨fun hv => ⟨h, (Option.some.inj hv).symm⟩, fun hv => congrArg some hv.2.symm⟩
  · rename_i h
    exact ⟨nofun, fun hv => absurd hv.1 h⟩

end Report

/-! ### Values that fit -/

/-- A value that may be absent. -/
abbrev FitsIfPresent (depth : Nat) (f : String × Option Json) : Prop :=
  ∀ v ∈ f.2, Fits depth v

/-- **An object of fields** can be read again if their values can. -/
theorem Fields.fits_present {fs : Fields} (h : ∀ f ∈ fs, FitsIfPresent depth f) :
    Fits (depth + 1) (.object fs.present) := by
  refine .object fun m hm => ?_
  obtain ⟨f, hf, hmf⟩ := List.mem_filterMap.mp hm
  obtain ⟨v, hv, rfl⟩ := Option.map_eq_some_iff.mp hmf
  exact h f hf v hv

theorem fits_of_map_text {s : Option String} (h : s.map Json.text = some v) : Fits depth v := by
  obtain ⟨s, -, rfl⟩ := Option.map_eq_some_iff.mp h
  exact .text s

theorem Asset.fits_toJson {a : Asset} (hid : a.id < 2 ^ 64) (hsize : a.size < 2 ^ 64) :
    Fits (depth + 1) a.toJson := by
  have hoption : ∀ s : Option String, Fits depth (.ofOption .text s) := by
    rintro (_ | s)
    · exact .null
    · exact .text s
  refine .object ?_
  simp only [List.forall_mem_cons]
  exact ⟨.natural hid, .text _, .natural hsize, hoption _, hoption _, nofun⟩

namespace Report

/-- The integers of a report have 64 bits. -/
def WithinLimits : Report → Prop
  | published r => r.archive.size < 2 ^ 64 ∧ ∀ a ∈ r.asset, a.id < 2 ^ 64 ∧ a.size < 2 ^ 64
  | packed a => a.size < 2 ^ 64
  | resolved _ => True

theorem fits_packed {a : PackagedArchive} (h : (packed a).WithinLimits) (hv : a.toJson = some v) :
    Fits (depth + 1) v := by
  obtain ⟨-, rfl⟩ := (toJson_eq_some_iff (r := packed a)).mp hv
  refine Fields.fits_present ?_
  simp only [fields, FitsIfPresent, List.forall_mem_cons, Option.mem_some_iff, forall_eq']
  exact ⟨fun _ => fits_of_map_text, .text _, .text _, .natural h, .text _, nofun⟩

/-- **The object of a report** can be read again. -/
theorem fits_toJson {r : Report} (h : r.WithinLimits) (hv : r.toJson = some v) :
    Fits (depth + 2) v := by
  cases r with
  | packed a => exact fits_packed h hv
  | published r =>
    obtain ⟨-, rfl⟩ := toJson_eq_some_iff.mp hv
    refine Fields.fits_present ?_
    simp only [fields, FitsIfPresent, List.forall_mem_cons, Option.mem_some_iff, forall_eq']
    refine ⟨.text _, .text _, .text _, fun _ => fits_of_map_text, fun _ => fits_packed h.1, ?_,
      .bool _, nofun⟩
    intro v hv
    obtain ⟨a, ha, rfl⟩ := Option.map_eq_some_iff.mp hv
    obtain ⟨hid, hsize⟩ := h.2 a ha
    exact Asset.fits_toJson hid hsize
  | resolved c =>
    obtain ⟨-, rfl⟩ := toJson_eq_some_iff.mp hv
    refine Fields.fits_present ?_
    simp only [fields, FitsIfPresent, List.forall_mem_cons, Option.mem_some_iff, forall_eq']
    exact ⟨.text _, .text _, .text _, fun _ => fits_of_map_text, fun _ => fits_of_map_text, .text _,
      fun _ => fits_of_map_text, fun _ => fits_of_map_text, nofun⟩

end Report

/-! ### Integers of 64 bits -/

/-- A datum is a natural number of 64 bits. -/
def IsShortCount (d : Datum) : Prop :=
  ∃ n < 2 ^ 64, d = .count n

/-- **The integers of an asset that is read** have 64 bits. -/
theorem Asset.lt_of_decode {text : Bytes} {a : Asset} (h : decode text = .ok a) :
    a.id < 2 ^ 64 ∧ a.size < 2 ^ 64 := by
  have hyields : List.Forall₂ Field.Yields fields
      [IsShortCount, IsTextual, IsShortCount, fun _ => True, fun _ => True] :=
    .cons (Field.yields_count nofun) <| .cons Field.yields_text <|
      .cons (Field.yields_count (by simp)) <| .cons (Field.yields_any _) <|
        .cons (Field.yields_any _) .nil
  obtain ⟨ds, hds, ha⟩ := exists_data_of_decodeRecord fits_fields nodup_fields hyields h
  obtain _ | ⟨⟨id, hid, rfl⟩, _ | ⟨⟨name, rfl⟩, _ | ⟨⟨size, hsize, rfl⟩, _ | ⟨-, _ |
    ⟨-, _ | _⟩⟩⟩⟩⟩ := hds
  obtain rfl := Option.some.inj ha
  exact ⟨hid, hsize⟩

namespace Report

variable {c : Config} {o : PublishOptions} {s s' : Surroundings}

/-- **The asset of a report** is described by the answer to the upload. -/
theorem exists_decode_of_publish [Gzip.Writer] {r : PublishReport} {a : Asset}
    (h : publish c o s = (.ok r, s'))
    (ha : r.asset = some a) : ∃ body, Asset.decode body = .ok a := by
  -- A dry run reports no asset; any other run reports what the last answer describes.
  rcases o with ⟨_ | _, watched⟩
  · rcases publish_upload_cases c ⟨false, watched⟩ s rfl with
      ⟨e, rs, he, -⟩ | ⟨x, before, post, rs, out, hu⟩
    · rw [h] at he
      cases he
    · obtain ⟨b, asset, -, ⟨-, body, -, hbody⟩, rfl⟩ := hu.of_ok (by rw [h])
      obtain rfl := Option.some.inj ha
      exact ⟨body, hbody⟩
  · rcases publish_dry_cases c watched s with ⟨e, s₁, -, hdry⟩ | ⟨x, s₁, s₂, -, hdry, -⟩
    · cases hdry.symm.trans h
    · obtain ⟨hr, -⟩ := Prod.mk.inj (hdry.symm.trans h)
      obtain rfl := Except.ok.inj hr
      cases ha

/-- **The integers of what is published** have 64 bits, if the lengths of all files have 63 bits. -/
theorem withinLimits_of_publish [Gzip.Writer] {r : PublishReport} (hs : s.files.WithinLimits)
    (h : publish c o s = (.ok r, s')) : (published r).WithinLimits := by
  refine ⟨package_size_lt hs (Prod.ext (archive_of_publish h) rfl), ?_⟩
  intro a ha
  obtain ⟨body, hbody⟩ := exists_decode_of_publish h ha
  exact Asset.lt_of_decode hbody

end Report

end ReleasePublisher
