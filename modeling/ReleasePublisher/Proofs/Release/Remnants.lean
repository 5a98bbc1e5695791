import ReleasePublisher.Proofs.Files.Contents
import ReleasePublisher.Proofs.Release.ArchiveContents

/-!
# What packing leaves behind when it fails

Packing looks at the binary before it opens the output, so that most failures leave all files as they are.
It does not clean up: a failure after the output was opened leaves there what was written so far. There are
three such failures, and none of them touches another file.

## Main definitions

* `PackFails c t e t'`: packing the binary of `c` fails with `e` and leads from the files `t` to `t'`
* `LateFault c t out`: what packing meets only after it has opened the output
* `LeavesOutput c t t' out`: packing fails after it has opened the output

## Main results

* `package_error`: packing fails only in these ways
* `package_sameData_or_leavesOutput`: a failure leaves the contents of all files, but for a late one
* `package_leaves_trace`: each of the three late failures leaves a trace
-/

namespace ReleasePublisher

open FileTree

variable {c : Config} {t t' : FileTree} {s s' : Surroundings} {e : Failure}

/-! ### Where packing fails -/

/-- **Packing the binary fails** with `e` and leads from the files `t` to the files `t'`. -/
inductive PackFails [Gzip.Writer] (c : Config) (t : FileTree) : Failure → FileTree → Prop
  | refused {e : Failure} : sourceFault? t (Layout.ofConfig c) = some e → PackFails c t e t
  | unmade {t₁ : FileTree} {e : IoError} : sourceFault? t (Layout.ofConfig c) = none →
      t.makeDirectories c.outputDir = (t₁, .error e) →
      PackFails c t (.io e (some ("Failed to create output directory " ++ c.outputDir.display))) t₁
  | unwritten {t₁ t' : FileTree} {e : IoError} : sourceFault? t (Layout.ofConfig c) = none →
      t.makeDirectories c.outputDir = (t₁, .ok ()) →
      writeArchive t₁ (Layout.ofConfig c) = (t', .error e) →
      PackFails c t
        (.io e (some ("Failed to write archive " ++ (Layout.ofConfig c).output.display))) t'
  | unread {t₁ t' : FileTree} {e : Failure} : sourceFault? t (Layout.ofConfig c) = none →
      t.makeDirectories c.outputDir = (t₁, .ok ()) →
      writeArchive t₁ (Layout.ofConfig c) = (t', .ok ()) →
      digestFile t' (Layout.ofConfig c).output = .error e → PackFails c t e t'

/-- A step on the files fails with its context, or what follows goes on from the files that it leaves. -/
theorem changeFiles_withContext_cases {α β : Type} {context : String}
    {f : FileTree → FileTree × Except IoError α} {g : α → Run β} {r : Except Failure β}
    (h : (Run.changeFiles (fun t => withContext context (f t)) >>= g) s = (r, s')) :
    (∃ t x, f s.files = (t, .error x) ∧ r = .error (.io x (some context)) ∧
      s' = { s with files := t }) ∨
    ∃ t a, f s.files = (t, .ok a) ∧ g a { s with files := t } = (r, s') := by
  rw [Run.bind_apply, Run.changeFiles_apply] at h
  rcases hf : f s.files with ⟨t, x | a⟩
  · simp only [hf, withContext, mapError_error, Prod.mk.injEq] at h
    exact .inl ⟨t, x, rfl, h.1.symm, h.2.symm⟩
  · simp only [hf, withContext, mapError_ok] at h
    exact .inr ⟨t, a, rfl, h⟩

/-- **Packing fails only** in these ways. -/
theorem package_error [Gzip.Writer] (h : package c s = (.error e, s')) :
    PackFails c s.files e s'.files := by
  rw [package, Run.bind_of_ok (Run.files_apply s)] at h
  cases hsource : sourceFault? s.files (Layout.ofConfig c) with
  | some x =>
    simp only [hsource, Run.fail_apply, Prod.mk.injEq, Except.error.injEq] at h
    obtain ⟨rfl, rfl⟩ := h
    exact .refused hsource
  | none =>
    simp only [hsource] at h
    rw [Run.bind_of_ok (Run.note_apply _ s)] at h
    rcases changeFiles_withContext_cases h with ⟨t₁, x, hmade, hx, rfl⟩ | ⟨t₁, _, hmade, h⟩
    · obtain rfl := Except.error.inj hx
      exact .unmade hsource hmade
    rcases changeFiles_withContext_cases h with ⟨t₂, x, hwritten, hx, rfl⟩ | ⟨t₂, _, hwritten, h⟩
    · obtain rfl := Except.error.inj hx
      exact .unwritten hsource hmade hwritten
    rw [Run.bind_of_ok (Run.files_apply _), Run.bind_apply, Run.ofExcept_apply] at h
    cases hdigest : digestFile t₂ (Layout.ofConfig c).output with
    | error x =>
      simp only [hdigest, Prod.mk.injEq, Except.error.injEq] at h
      obtain ⟨rfl, rfl⟩ := h
      exact .unread hsource hmade hwritten hdigest
    | ok p =>
      -- A record is written and the archive is told of.
      simp only [hdigest] at h
      cases h

/-! ### Failures after the output was opened -/

/-- **What packing meets only after it has opened the output** at the location `out`. -/
inductive LateFault (c : Config) (t : FileTree) (out : Location) : Prop
  /-- The binary must not be read. -/
  | source {f : RegularFile} : t.status (Layout.ofConfig c).source = .ok (.file f) →
      mayRead f.mode = false → LateFault c t out
  /-- The entry has no name in an archive. -/
  | entry {fault : Tar.NameFault} : (Tar.placeName (Layout.ofConfig c).entry).2 = .error fault →
      LateFault c t out
  /-- The output is a file already, which must not be read again. -/
  | output {f : RegularFile} : t.lookup out = some (.file f) → mayRead f.mode = false →
      LateFault c t out

/-- **Packing fails after it has opened the output** at the location `out`. -/
structure LeavesOutput (c : Config) (t t' : FileTree) (out : Location) : Prop where
  opened : ∃ t₁ t₂, t.makeDirectories c.outputDir = (t₁, .ok ()) ∧
    t₁.create (Layout.ofConfig c).output = .ok (out, t₂)
  fault : LateFault c t out
  dataAt_eq : ∀ l, l ≠ out → t'.dataAt l = t.dataAt l

/-- The entries of a binary that may be read fail only for want of a name. -/
theorem entriesOf_error {output : Location} {l : Layout} {f : RegularFile}
    {entries : List Tar.Entry} {x : IoError} (hs : t.status l.source = .ok (.file f))
    (h : entriesOf t output l = (entries, .error x)) :
    mayRead f.mode = false ∨ ∃ fault, (Tar.placeName l.entry).2 = .error fault := by
  -- The start of the archive may have been written over the binary, but its mode is the same.
  obtain ⟨g, hg, hmode⟩ := status_of_keepsModes (t.write_changesAt output Gzip.header).extended
    (t.write_keepsModes output Gzip.header) hs
  rw [entriesOf, read_of_status hs, read_of_status hg, hs, hmode] at h
  cases hread : mayRead f.mode with
  | false => exact .inl rfl
  | true =>
    rcases hplace : Tar.placeName l.entry with ⟨before, fault | name⟩
    · exact .inr ⟨fault, rfl⟩
    · simp [hread, hplace] at h

/-- **How writing the archive ends** after the output was opened. -/
theorem writeArchive_cases [Gzip.Writer] {l : Layout} {r : Except IoError Unit}
    (h : writeArchive t l = (t', r)) :
    (∃ x, r = .error x ∧ t' = t) ∨
    ∃ out t₂ entries r₁, t.create l.output = .ok (out, t₂) ∧ entriesOf t₂ out l = (entries, r₁) ∧
      t' = t₂.write out (Gzip.compress (Tar.archive entries)) ∧
      r = r₁.bind fun _ => flush t' out := by
  unfold writeArchive at h
  split at h
  · obtain ⟨rfl, rfl⟩ := Prod.mk.inj h
    exact .inl ⟨_, rfl, rfl⟩
  · rename_i out t₂ hcreate
    rcases hentries : entriesOf t₂ out l with ⟨entries, x | _⟩
    · rw [hentries] at h
      obtain ⟨rfl, rfl⟩ := Prod.mk.inj h
      exact .inr ⟨out, t₂, entries, _, hcreate, hentries, rfl, rfl⟩
    · rw [hentries] at h
      obtain ⟨rfl, rfl⟩ := Prod.mk.inj h
      exact .inr ⟨out, t₂, entries, _, hcreate, hentries, rfl, rfl⟩

/-- Only a device cannot be brought to the disk, and writing to it changes no file. -/
theorem flush_error {out : Location} {data : Bytes} {x : IoError}
    (h : flush (t.write out data) out = .error x) :
    t.lookup out = some .device ∧ t.write out data = t := by
  have hdevice : (t.write out data).lookup out = some .device := by
    unfold flush at h
    split at h
    · assumption
    · cases h
  have hfile : ∀ f, t.lookup out ≠ some (.file f) := by
    intro f hf
    cases (lookup_write_self hf data).symm.trans hdevice
  have heq : t.write out data = t := by
    unfold write
    split
    · exact absurd ‹_› (hfile _)
    · rfl
  exact ⟨heq ▸ hdevice, heq⟩

/-- **An archive that was written and cannot be read again** stands in a file that must not be read. -/
theorem mode_of_unread {l : Layout} {out : Location} {t₂ : FileTree} {data : Bytes}
    (hcreate : t.create l.output = .ok (out, t₂)) (hflush : flush (t₂.write out data) out = .ok ())
    (h : digestFile (t₂.write out data) l.output = .error e) :
    ∃ f, t.lookup out = some (.file f) ∧ mayRead f.mode = false := by
  have hdevice := lookup_of_flush hflush
  obtain ⟨g, -, hfind⟩ := find_of_create hcreate hdevice data
  have hread : mayRead g.mode = false := by
    by_contra hread
    have hopen : (t₂.write out data).openRead l.output = .ok (.file g) := by
      rw [openRead, status_of_find hfind]
      exact if_pos (eq_true_of_ne_false hread)
    rw [digestFile_of_contents hopen rfl] at h
    cases h
  obtain ⟨hmodes, hold⟩ := create_keepsModes hcreate
  rcases create_cases hcreate with ⟨rfl, hl⟩ | ⟨-, g₂, -, -, -, hg₂, -⟩
  · exact absurd hl hdevice
  · -- Writing keeps the mode of the file that was opened, and a new file may be read.
    obtain ⟨k, hk, hmode⟩ := t₂.write_keepsModes out data out g₂ hg₂
    obtain rfl : k = g := by simpa [lookup_of_find hfind] using hk.symm
    obtain ⟨f, hf, hmode'⟩ := hold g₂ hg₂ (hmode ▸ hread)
    exact ⟨f, hf, by rw [hmode', ← hmode, hread]⟩

/-- A file in a tree with the same contents, of which all nodes are in the other one, was there before. -/
theorem lookup_file_of_sameData {l : Location} {f : RegularFile} (hgrows : t.Grows t')
    (hdata : t.SameData t') (h : t'.lookup l = some (.file f)) : t.lookup l = some (.file f) := by
  have hold : t.dataAt l = some f.data := (hdata l).symm.trans (dataAt_of_lookup h)
  unfold dataAt at hold
  split at hold
  · rename_i g hg
    rw [hg, ← hgrows.lookup_eq l _ hg, h]
  · cases hold

theorem status_of_sourceFault? {l : Layout} (h : sourceFault? t l = none) :
    ∃ f, t.status l.source = .ok (.file f) := by
  unfold sourceFault? at h
  split at h
  · exact ⟨_, ‹_›⟩
  · cases h
  · split at h <;> cases h

/-- A failure of the entries is a late fault: neither making directories nor opening the output changes the
mode of the binary. -/
theorem lateFault_of_entries {t₁ t₂ : FileTree} {out : Location} {entries : List Tar.Entry}
    {x : IoError} (hsource : sourceFault? t (Layout.ofConfig c) = none)
    (hmade : t.makeDirectories c.outputDir = (t₁, .ok ()))
    (hcreate : t₁.create (Layout.ofConfig c).output = .ok (out, t₂))
    (hentries : entriesOf t₂ out (Layout.ofConfig c) = (entries, .error x)) : LateFault c t out := by
  have hgrows := t.makeDirectories_grows c.outputDir
  rw [hmade] at hgrows
  obtain ⟨f, hf⟩ := status_of_sourceFault? hsource
  obtain ⟨g, hg, hmode⟩ := status_of_keepsModes
    (hgrows.extends.trans (create_changesAt hcreate).extended)
    (hgrows.keepsModes.trans (create_keepsModes hcreate).1) hf
  rcases entriesOf_error hg hentries with hread | ⟨fault, hfault⟩
  · exact .source hf (hmode ▸ hread)
  · exact .entry hfault

/-- **A late fault leaves the output** as far as it was written, and all other files. -/
theorem LateFault.leavesOutput {t₁ t₂ : FileTree} {out : Location} (h : LateFault c t out)
    (hmade : t.makeDirectories c.outputDir = (t₁, .ok ()))
    (hcreate : t₁.create (Layout.ofConfig c).output = .ok (out, t₂)) (data : Bytes) :
    LeavesOutput c t (t₂.write out data) out where
  opened := ⟨t₁, t₂, hmade, hcreate⟩
  fault := h
  dataAt_eq l hl := by
    have hdata := t.makeDirectories_sameData c.outputDir
    rw [hmade] at hdata
    have hchanges := (create_changesAt hcreate).trans (t₂.write_changesAt out data)
    exact (hchanges.dataAt_eq hl).trans (hdata l)

/-- **A failure of packing leaves the contents of all files**, unless it comes after the output was
opened. Then the file at the output may be new or changed, but no other one; and it comes from a binary
that must not be read, an entry that has no name in an archive, or a file at the output that must not be
read. -/
theorem package_sameData_or_leavesOutput [Gzip.Writer] (h : package c s = (.error e, s')) :
    s.files.SameData s'.files ∨ ∃ out, LeavesOutput c s.files s'.files out := by
  have hfails := package_error h
  have hgrows := s.files.makeDirectories_grows c.outputDir
  have hdata := s.files.makeDirectories_sameData c.outputDir
  generalize s'.files = t' at hfails ⊢
  cases hfails with
  | refused hsource => exact .inl (.refl _)
  | unmade hsource hmade =>
    rw [hmade] at hdata
    exact .inl hdata
  | @unwritten t₁ _ x hsource hmade hwritten =>
    rw [hmade] at hdata
    rcases writeArchive_cases hwritten with ⟨y, -, rfl⟩ |
      ⟨out, t₂, entries, r₁, hcreate, hentries, rfl, hr⟩
    · exact .inl hdata
    cases r₁ with
    | error y =>
      have hfault := lateFault_of_entries hsource hmade hcreate hentries
      exact .inr ⟨out, hfault.leavesOutput hmade hcreate _⟩
    | ok _ =>
      -- Nothing was written, as the output is a device.
      obtain ⟨hdevice, heq⟩ := flush_error hr.symm
      rcases create_cases hcreate with ⟨rfl, -⟩ | ⟨-, g, -, -, -, hg, -⟩
      · rw [heq]
        exact .inl hdata
      · cases hg.symm.trans hdevice
  | @unread t₁ _ _ hsource hmade hwritten hdigest =>
    rw [hmade] at hgrows hdata
    rcases writeArchive_cases hwritten with ⟨y, hy, -⟩ |
      ⟨out, t₂, entries, r₁, hcreate, hentries, rfl, hr⟩
    · cases hy
    cases r₁ with
    | error y => cases hr
    | ok _ =>
      obtain ⟨f, hf, hread⟩ := mode_of_unread hcreate hr.symm hdigest
      have hfault : LateFault c s.files out :=
        .output (lookup_file_of_sameData hgrows hdata hf) hread
      exact .inr ⟨out, hfault.leavesOutput hmade hcreate _⟩

namespace Sample

/-- The project `a` for a platform, built in the directory `b` of the working directory `w`. -/
def packed (platform : String) : Config :=
  { project := "a", owner := "mozilla", platform := platform, buildDir := .ofText "/w/b"
    outputDir := .ofText "/w/", apiUrl := "https://api.github.com", proxyUrl := none, configFile := none }

/-- The binary and an archive with these modes, beside a directory with the name of the one in the
archive. -/
def hazardous (binary archive : FileMode) : Surroundings :=
  { files :=
      { nodes := [([[0x77]], .folder), ([[0x77], [0x62]], .folder),
          ([[0x77], Utf8.encode "a-p"], .folder),
          ([[0x77], [0x62], [0x61]], .file ⟨[1], binary, 0⟩),
          ([[0x77], Utf8.encode "a-p.tar.gz"], .file ⟨[2], archive, 0⟩)]
        current := some [[0x77]]
        now := 1 }
    network := { isReachable := false, script := [], sent := [] }
    log := [] }

/-- The platform that the command line states, with the directory of the binary. -/
def overrides (platform : String) : Overrides :=
  ⟨some "a", none, some platform, some (.ofText "b"), none⟩

/-- **Packing leaves a trace**: it fails for a configuration that was resolved, and the files and their
contents are not what they were. -/
def LeavesTrace (platform : String) (s : Surroundings) : Prop :=
  ∃ c, resolve s.files (.ofText "/w") (overrides platform) (fun _ => none) = .ok c ∧
    ∃ e s', package c s = (.error e, s') ∧ ¬ s.files.SameData s'.files

/-- A location with other contents is such a trace. -/
theorem LeavesTrace.of_dataAt {platform : String} {c : Config} {s : Surroundings} {l : Location}
    (hc : resolve s.files (.ofText "/w") (overrides platform) (fun _ => none) = .ok c)
    (hfails : (package c s).1.isOk = false)
    (hl : (package c s).2.files.dataAt l ≠ s.files.dataAt l) : LeavesTrace platform s := by
  refine ⟨c, hc, ?_⟩
  rcases h : package c s with ⟨e | a, s'⟩
  · rw [h] at hl
    exact ⟨e, s', rfl, fun hdata => hl (hdata l)⟩
  · rw [h] at hfails
    cases hfails

end Sample

/-- The sample binary must not be read, and the archive that was there is lost. -/
theorem package_sameData_or_leavesOutput_sample :
    ∃ e s', package (Sample.packed "p") (Sample.hazardous 0o300 0o644) = (.error e, s') ∧
      ((Sample.hazardous 0o300 0o644).files.SameData s'.files ∨
        ∃ out, LeavesOutput (Sample.packed "p") (Sample.hazardous 0o300 0o644).files s'.files out) := by
  have hfails : (package (Sample.packed "p") (Sample.hazardous 0o300 0o644)).1.isOk = false := by
    decide +kernel
  rcases h : package (Sample.packed "p") (Sample.hazardous 0o300 0o644) with ⟨e | a, s'⟩
  · exact ⟨e, s', rfl, package_sameData_or_leavesOutput h⟩
  · rw [h] at hfails
    cases hfails

/-- **Each fault that is met late leaves a trace**: an entry that leads out of the archive, a binary that must
not be read, an archive that is there and must not be read. -/
theorem package_leaves_trace :
    Sample.LeavesTrace "p/../q" (Sample.hazardous 0o755 0o644) ∧
      Sample.LeavesTrace "p" (Sample.hazardous 0o300 0o644) ∧
      Sample.LeavesTrace "p" (Sample.hazardous 0o755 0o200) := by
  refine ⟨?_, ?_, ?_⟩
  · -- An archive without entries is new.
    apply Sample.LeavesTrace.of_dataAt (c := Sample.packed "p/../q")
      (l := [[0x77], Utf8.encode "q.tar.gz"])
    · decide +kernel
    · decide +kernel
    · decide +kernel
  · apply Sample.LeavesTrace.of_dataAt (c := Sample.packed "p")
      (l := [[0x77], Utf8.encode "a-p.tar.gz"])
    · decide +kernel
    · decide +kernel
    · decide +kernel
  · apply Sample.LeavesTrace.of_dataAt (c := Sample.packed "p")
      (l := [[0x77], Utf8.encode "a-p.tar.gz"])
    · decide +kernel
    · decide +kernel
    · decide +kernel

end ReleasePublisher
