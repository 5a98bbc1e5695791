import ReleasePublisher.Proofs.Files.Repetition
import ReleasePublisher.Proofs.Files.SameLinks
import ReleasePublisher.Proofs.Release.Remnants

/-!
# Packing again

What is packed depends on the binary and on the configuration, and on nothing that stood at the output before:
a file there loses what it holds as soon as it is opened. So packing again gives the same archive and leaves
all files as they are; and packing among other files gives the same archive too, if it succeeds, which depends
on what may be done at the output alone.

## Main definitions

* `OpensAt c t t₁ t₂ out g`, `PacksAt c t t₁ t₂ out g entries`: packing in steps
* `SameSetting c t t'`: two trees with the same binary, the same links and the same time
* `IsReady c t`: the output can be written and read again
* `IsRepeatable c s a s'`: packing does not depend on what stood at the output

## Main results

* `packs_iff_packsAt`: packing succeeds exactly in these steps
* `PacksAt.again`: the steps can be taken again
* `isReady_iff`: the output can be opened where it is ready
* `OpensAt.entriesOf_eq`: the entries are those of the same setting
* `package_isRepeatable`: packing is repeatable
-/

namespace ReleasePublisher

open FileTree

variable {c : Config} {t t' t₁ t₁' t₂ t₂' : FileTree} {out out' : Location} {g g' : RegularFile}
  {entries entries' : List Tar.Entry} {a : PackagedArchive}

/-! ### Packing in steps -/

/-- The bytes of an archive with these entries. -/
def archiveBytes [Gzip.Writer] (entries : List Tar.Entry) : Bytes :=
  Gzip.compress (Tar.archive entries)

/-- What packing tells of an archive with these bytes. -/
def archiveOf (c : Config) (bytes : Bytes) : PackagedArchive :=
  { path := (Layout.ofConfig c).output
    fileName := (Layout.ofConfig c).archiveName
    entry := shownEntry (Layout.ofConfig c).entry
    size := bytes.length
    sha256 := Sha256.hexDigest bytes }

/-- **The output is opened** in two steps: from `t` to `t₁` the directories are made, and from `t₁` to `t₂` the
output is opened, which is the file `g` at `out` from then on. -/
structure OpensAt (c : Config) (t t₁ t₂ : FileTree) (out : Location) (g : RegularFile) : Prop where
  made : t.makeDirectories c.outputDir = (t₁, .ok ())
  created : t₁.create (Layout.ofConfig c).output = .ok (out, t₂)
  output : t₂.lookup out = some (.file g)
  readable : mayRead g.mode = true

/-- **Packing in steps**: the output is opened, and then the entries of the binary are written there. -/
structure PacksAt (c : Config) (t t₁ t₂ : FileTree) (out : Location) (g : RegularFile)
    (entries : List Tar.Entry) : Prop extends OpensAt c t t₁ t₂ out g where
  source : sourceFault? t (Layout.ofConfig c) = none
  packed : entriesOf t₂ out (Layout.ofConfig c) = (entries, .ok ())

/-- **The archive can be read again** after the last step. -/
theorem PacksAt.read [Gzip.Writer] (h : PacksAt c t t₁ t₂ out g entries) :
    (t₂.write out (archiveBytes entries)).read (Layout.ofConfig c).output = .ok (archiveBytes entries) := by
  rw [read_of_status (status_of_find (find_of_written_file h.created h.output _)), if_pos h.readable]

theorem PacksAt.packs [Gzip.Writer] (h : PacksAt c t t₁ t₂ out g entries) :
    Packs c t (t₂.write out (archiveBytes entries)) (archiveOf c (archiveBytes entries)) := by
  have hfind := find_of_written_file h.created h.output (archiveBytes entries)
  have hopen : (t₂.write out (archiveBytes entries)).openRead (Layout.ofConfig c).output =
      .ok (.file { g with data := archiveBytes entries, modified := t₂.now }) := by
    rw [openRead, status_of_find hfind]
    exact if_pos h.readable
  have hflush : flush (t₂.write out (archiveBytes entries)) out = .ok () := by
    rw [flush, lookup_write_self h.output]
  refine ⟨h.source, ⟨t₁, h.made, ?_⟩, digestFile_of_contents hopen rfl, rfl⟩
  rw [writeArchive, h.created]
  simp only [h.packed]
  exact congrArg (Prod.mk _) hflush

/-- **Packing succeeds exactly in these steps.** -/
theorem packs_iff_packsAt [Gzip.Writer] :
    Packs c t t' a ↔ ∃ t₁ t₂ out g entries, PacksAt c t t₁ t₂ out g entries ∧
    t' = t₂.write out (archiveBytes entries) ∧ a = archiveOf c (archiveBytes entries) := by
  constructor
  · intro h
    obtain ⟨t₁, hmade, hwritten⟩ := h.written
    rcases writeArchive_cases hwritten with ⟨x, hx, -⟩ | ⟨out, t₂, entries, r, hcreate, hentries, rfl, hr⟩
    · cases hx
    cases r with
    | error x => cases hr
    | ok _ =>
      rcases create_cases hcreate with ⟨rfl, hl⟩ | ⟨-, g, -, -, -, hg, -⟩
      · exact absurd hl (lookup_of_flush hr.symm)
      have hstatus := status_of_find (find_of_written_file hcreate hg (archiveBytes entries))
      obtain ⟨node, bytes, hopen, -⟩ := contents_of_digestFile h.digest
      have hread : mayRead g.mode = true := by
        rw [openRead, ← archiveBytes, hstatus] at hopen
        dsimp only at hopen
        split at hopen
        · assumption
        · cases hopen
      have hsteps : PacksAt c t t₁ t₂ out g entries :=
        { made := hmade, created := hcreate, output := hg, readable := hread, source := h.source
          packed := hentries }
      have hdigest := h.digest.symm.trans hsteps.packs.digest
      obtain ⟨hsize, hsha⟩ := Prod.mk.inj (Except.ok.inj hdigest)
      refine ⟨t₁, t₂, out, g, entries, hsteps, rfl, ?_⟩
      rw [h.told, hsize, hsha]
      rfl
  · rintro ⟨t₁, t₂, out, g, entries, h, rfl, rfl⟩
    exact h.packs

/-! ### Packing again -/

/-- **The steps can be taken again**: the directories are there, and the output is opened as before. -/
theorem PacksAt.again (h : PacksAt c t t₁ t₂ out g entries) (data : Bytes) :
    PacksAt c (t₂.write out data) (t₂.write out data) t₂ out g entries := by
  have hwritten := (create_changesAt h.created).trans (t₂.write_changesAt out data)
  have hgrows := t.makeDirectories_grows c.outputDir
  rw [h.made] at hgrows
  obtain ⟨f, hf⟩ := status_of_sourceFault? h.source
  obtain ⟨k, hk, -⟩ := status_of_keepsModes (hgrows.extends.trans hwritten.extended)
    (hgrows.keepsModes.trans ((create_keepsModes h.created).1.trans (t₂.write_keepsModes out data))) hf
  have hsource : sourceFault? (t₂.write out data) (Layout.ofConfig c) = none := by
    rw [sourceFault?, hk]
  exact { h with
    source := hsource
    made := makeDirectories_again h.made hwritten.extended
    created := create_again h.created h.output data }

/-! ### Packing among other files -/

/-- **The same setting**: two trees with the same binary, the same links and the same time. -/
structure SameSetting (c : Config) (t t' : FileTree) : Prop extends t.SameLinks t' where
  now_eq : t'.now = t.now
  source_eq : t'.status (Layout.ofConfig c).source = t.status (Layout.ofConfig c).source

/-- **The output is ready**: the output directory can be made, and then the output takes a file. -/
def IsReady (c : Config) (t : FileTree) : Prop :=
  ∃ t₁, t.makeDirectories c.outputDir = (t₁, .ok ()) ∧ t₁.Accepts (Layout.ofConfig c).output

/-- **The output can be opened** where it is ready. -/
theorem isReady_iff : IsReady c t ↔ ∃ t₁ t₂ out g, OpensAt c t t₁ t₂ out g := by
  constructor
  · rintro ⟨t₁, hmade, haccepts⟩
    obtain ⟨out, t₂, g, hcreate, hg, hread⟩ := accepts_iff.mp haccepts
    exact ⟨t₁, t₂, out, g, hmade, hcreate, hg, hread⟩
  · rintro ⟨t₁, t₂, out, g, h⟩
    exact ⟨t₁, h.made, accepts_iff.mpr ⟨out, t₂, g, h.created, h.output, h.readable⟩⟩

/-- The output is at the same location. -/
theorem OpensAt.location_eq (h : OpensAt c t t₁ t₂ out g) (h' : OpensAt c t' t₁' t₂' out' g')
    (hlinks : t.SameLinks t') : out' = out := by
  have hmade := t.makeDirectories_sameLinks c.outputDir
  have hmade' := t'.makeDirectories_sameLinks c.outputDir
  rw [h.made] at hmade
  rw [h'.made] at hmade'
  obtain ⟨r, hr, rfl⟩ := exists_find_of_create h.created
  obtain ⟨r', hr', rfl⟩ := exists_find_of_create h'.created
  exact find_location_eq (hmade.symm.trans (hlinks.trans hmade')) hr hr'

/-- The binary while packing: where the output is the binary itself, it holds what was written so far. -/
def sourceDuring (f : RegularFile) (loc out : Location) (data : Bytes) (now : Nat) : RegularFile :=
  if loc = out then ⟨data, f.mode, now⟩ else f

/-- **The binary is found while packing**, also where the output is the binary itself. -/
theorem OpensAt.status_source (h : OpensAt c t t₁ t₂ out g) {p : Path} {loc : Location} {f : RegularFile}
    (hf : t.find p = .ok (.existing loc (.file f))) (data : Bytes) :
    t₂.status p = .ok (.file (sourceDuring f loc out [] t.now)) ∧
      (t₂.write out data).status p = .ok (.file (sourceDuring f loc out data t.now)) := by
  have hgrows := t.makeDirectories_grows c.outputDir
  have hnow := t.makeDirectories_now c.outputDir
  rw [h.made] at hgrows hnow
  have hcreated := create_changesAt h.created
  have hwritten := hcreated.trans (t₂.write_changesAt out data)
  -- The path leads to the same location in all trees, so that the nodes there are all that is asked for.
  have hstatus : ∀ {t' : FileTree} {k : RegularFile}, t₁.Extends t' → t'.lookup loc = some (.file k) →
      t'.status p = .ok (.file k) := fun ht hk =>
    status_of_find (find_file_of_extends (hgrows.extends.trans ht) hk hf)
  have hf₁ := hgrows.lookup_eq loc _ (lookup_of_find hf)
  by_cases hloc : loc = out
  · subst hloc
    obtain ⟨hempty, hmodified, -, -⟩ := put_of_create h.created h.output
    obtain ⟨k, hk, hmode⟩ := (create_keepsModes h.created).1 loc f hf₁
    cases hk.symm.trans h.output
    rw [sourceDuring, if_pos rfl, sourceDuring, if_pos rfl, ← hmode, ← hempty, ← hnow]
    refine ⟨hstatus hcreated.extended (hmodified ▸ h.output), hstatus hwritten.extended ?_⟩
    rw [lookup_write_self h.output, create_now h.created]
  · rw [sourceDuring, if_neg hloc, sourceDuring, if_neg hloc]
    exact ⟨hstatus hcreated.extended ((hcreated.lookup_eq loc hloc).trans hf₁),
      hstatus hwritten.extended ((hwritten.lookup_eq loc hloc).trans hf₁)⟩

/-- **The entries are those of the same setting**, whatever stood at the output. -/
theorem OpensAt.entriesOf_eq (h : OpensAt c t t₁ t₂ out g) (h' : OpensAt c t' t₁' t₂' out' g')
    (hs : SameSetting c t t') (hsource : sourceFault? t (Layout.ofConfig c) = none) :
    entriesOf t₂' out' (Layout.ofConfig c) = entriesOf t₂ out (Layout.ofConfig c) := by
  obtain rfl := h.location_eq h' hs.toSameLinks
  obtain ⟨f, hf⟩ := status_of_sourceFault? hsource
  obtain ⟨loc, hfind⟩ := find_of_status_file hf
  obtain ⟨loc', hfind'⟩ := find_of_status_file (hs.source_eq.trans hf)
  obtain rfl : loc' = loc := find_location_eq hs.toSameLinks hfind hfind'
  obtain ⟨hopened, hbegun⟩ := h.status_source hfind Gzip.header
  obtain ⟨hopened', hbegun'⟩ := h'.status_source hfind' Gzip.header
  rw [hs.now_eq] at hopened' hbegun'
  unfold entriesOf
  rw [read_of_status_eq (hopened'.trans hopened.symm), read_of_status_eq (hbegun'.trans hbegun.symm),
    hopened'.trans hopened.symm]

/-! ### Packing is repeatable -/

/-- **Packing does not depend on what stood at the output.** -/
structure IsRepeatable [Gzip.Writer] (c : Config) (s : Surroundings) (a : PackagedArchive)
    (s' : Surroundings) : Prop where
  /-- Packing again at once gives the same archive and leaves all files as they are. -/
  again : ∃ s₂, package c s' = (.ok a, s₂) ∧ s₂.files = s'.files
  /-- In the same setting packing succeeds exactly where the output is ready, whatever it is. -/
  succeeds_iff : ∀ s₁, SameSetting c s.files s₁.files →
    ((∃ a' s₂, package c s₁ = (.ok a', s₂)) ↔ IsReady c s₁.files)
  /-- If it succeeds, then the archive is the same, and so are its bytes. -/
  same : ∀ s₁ a' s₂, SameSetting c s.files s₁.files → package c s₁ = (.ok a', s₂) →
    a' = a ∧ ∃ bytes, s'.files.read a.path = .ok bytes ∧ s₂.files.read a.path = .ok bytes

/-- Packing succeeds where it takes these steps. -/
theorem PacksAt.package_eq [Gzip.Writer] {s : Surroundings}
    (h : PacksAt c s.files t₁ t₂ out g entries) :
    ∃ s', package c s = (.ok (archiveOf c (archiveBytes entries)), s') ∧
      s'.files = t₂.write out (archiveBytes entries) := by
  obtain ⟨hok, hfiles⟩ := package_of_packs h.packs
  exact ⟨(package c s).2, Prod.ext hok rfl, hfiles⟩

/-- **Packing is repeatable.** -/
theorem package_isRepeatable [Gzip.Writer] {s s' : Surroundings} (h : package c s = (.ok a, s')) :
    IsRepeatable c s a s' := by
  obtain ⟨t₁, t₂, out, g, entries, hsteps, hfiles, rfl⟩ := packs_iff_packsAt.mp (package_ok h)
  constructor
  · obtain ⟨s₂, hagain, hsame⟩ := PacksAt.package_eq (s := s') (hfiles ▸ hsteps.again (archiveBytes entries))
    exact ⟨s₂, hagain, hsame.trans hfiles.symm⟩
  · intro s₁ hs
    constructor
    · rintro ⟨a', s₂, h₁⟩
      obtain ⟨t₁', t₂', out', g', entries', hsteps', -⟩ := packs_iff_packsAt.mp (package_ok h₁)
      exact isReady_iff.mpr ⟨t₁', t₂', out', g', hsteps'.toOpensAt⟩
    · intro hready
      obtain ⟨t₁', t₂', out', g', hopens⟩ := isReady_iff.mp hready
      have hsource : sourceFault? s₁.files (Layout.ofConfig c) = none := by
        rw [sourceFault?, hs.source_eq]
        exact hsteps.source
      have hsteps' : PacksAt c s₁.files t₁' t₂' out' g' entries :=
        { hopens with
          source := hsource
          packed := (hsteps.entriesOf_eq hopens hs hsteps.source).trans hsteps.packed }
      obtain ⟨s₂, h₁, -⟩ := hsteps'.package_eq
      exact ⟨_, s₂, h₁⟩
  · intro s₁ a' s₂ hs h₁
    obtain ⟨t₁', t₂', out', g', entries', hsteps', hfiles', rfl⟩ := packs_iff_packsAt.mp (package_ok h₁)
    have hentries := hsteps'.packed.symm.trans
      ((hsteps.entriesOf_eq hsteps'.toOpensAt hs hsteps.source).trans hsteps.packed)
    obtain ⟨rfl, -⟩ := Prod.mk.inj hentries
    refine ⟨rfl, archiveBytes entries', ?_, ?_⟩
    · rw [hfiles]
      exact hsteps.read
    · rw [hfiles']
      exact hsteps'.read

namespace Sample

/-- Where the archive of the project `a` stands. -/
def archiveLocation : Location := [[0x77], Utf8.encode "a-p.tar.gz"]

/-- The binary, which was not packed yet. -/
def unpacked : Surroundings :=
  { hazardous 0o755 0o644 with
    files :=
      { (hazardous 0o755 0o644).files with
        nodes := (hazardous 0o755 0o644).files.nodes.filter (·.1 != archiveLocation) } }

/-- The binary beside a file that is longer than its archive. -/
def stale : Surroundings :=
  { unpacked with
    files := unpacked.files.put archiveLocation (.file ⟨List.replicate 2048 2, 0o644, 0⟩) }

/-- The longer file is all that is different, and it may be written and read. -/
theorem stale_setting : SameSetting (packed "p") unpacked.files stale.files ∧ IsReady (packed "p") stale.files := by
  have hfree : unpacked.files.lookup archiveLocation = none := by decide +kernel
  have hsource : stale.files.status (Layout.ofConfig (packed "p")).source =
      unpacked.files.status (Layout.ofConfig (packed "p")).source := by
    decide +kernel
  refine ⟨⟨.put (fun target => by simp [hfree]) _, rfl, hsource⟩, stale.files, ?_, ?_⟩
  · exact makeDirectories_of_isMade (.inr (by decide +kernel))
  · exact .file (l := archiveLocation) (f := ⟨List.replicate 2048 2, 0o644, 0⟩) (by decide +kernel)
      (by decide) (by decide)

end Sample

/-- The sample is packed where there is no archive, and a longer file does not matter. -/
theorem package_isRepeatable_sample :
    ∃ a s' s₂, package (Sample.packed "p") Sample.unpacked = (.ok a, s') ∧
      IsRepeatable (Sample.packed "p") Sample.unpacked a s' ∧
      package (Sample.packed "p") Sample.stale = (.ok a, s₂) ∧
      ∃ bytes, s'.files.read a.path = .ok bytes ∧ s₂.files.read a.path = .ok bytes := by
  have hok : (package (Sample.packed "p") Sample.unpacked).1.isOk = true := by decide +kernel
  rcases h : package (Sample.packed "p") Sample.unpacked with ⟨e | a, s'⟩
  · rw [h] at hok
    cases hok
  · have hrepeatable := package_isRepeatable h
    obtain ⟨hsetting, hready⟩ := Sample.stale_setting
    obtain ⟨a', s₂, hstale⟩ := (hrepeatable.succeeds_iff Sample.stale hsetting).mpr hready
    obtain ⟨rfl, hbytes⟩ := hrepeatable.same Sample.stale a' s₂ hsetting hstale
    exact ⟨a', s', s₂, rfl, hrepeatable, hstale, hbytes⟩

end ReleasePublisher
