import ReleasePublisher.Archive.Stored
import ReleasePublisher.Proofs.Archive.EntryName
import ReleasePublisher.Proofs.Archive.Tar
import ReleasePublisher.Proofs.Files.Growth
import ReleasePublisher.Proofs.Release.Packaging
import ReleasePublisher.Proofs.Release.Resolve
import ReleasePublisher.Proofs.Text.Utf8

/-!
# What is in a release archive

Whoever unpacks the archive finds the binary, under the name that the configuration asks for. What
packing does to the tree of files before it reads the binary does not change the binary, as long as
the archive is not written over it.

## Main definitions

* `binaryEntry name f`: the entry of a binary

## Main results

* `writeArchive_ok`: what stands where the archive was written
* `Layout.isName_baseDir`, `isName_project`: the two components of the name of the entry
* `package_archive_members`: reading the archive gives the binary, and nothing else
-/

namespace ReleasePublisher

/-! ### What is written -/

/-- The entry of a binary under a name. -/
def binaryEntry (name : Bytes) (f : RegularFile) : Tar.Entry :=
  { header :=
      { name := name
        mode := regularMode + f.mode.bits
        size := f.data.length
        modified := f.modified
        kind := Tar.regular }
    data := f.data }

/-- If the binary is still there when its data are read, then its entry is the last one. -/
theorem entriesOf_ok {t : FileTree} {output : Location} {l : Layout} {f : RegularFile}
    {entries : List Tar.Entry} (hs : t.status l.source = .ok (.file f))
    (hw : (t.write output Gzip.header).status l.source = .ok (.file f))
    (h : entriesOf t output l = (entries, .ok ())) :
    ∃ before name, Tar.placeName l.entry = (before, .ok name) ∧
      entries = before ++ [binaryEntry name f] := by
  rw [entriesOf, FileTree.read_of_status hs, FileTree.read_of_status hw, hs] at h
  cases hm : FileTree.mayRead f.mode with
  | false => simp [hm] at h
  | true =>
    rcases hp : Tar.placeName l.entry with ⟨before, e | name⟩
    · simp [hm, hp] at h
    · simp only [hm, hp, if_true] at h
      obtain ⟨rfl, -⟩ := Prod.mk.inj h
      exact ⟨before, name, rfl, rfl⟩

/-- What was brought to the disk is no device. -/
theorem lookup_of_flush {t : FileTree} {output : Location} {data : Bytes}
    (h : flush (t.write output data) output = .ok ()) : t.lookup output ≠ some .device := by
  intro hdevice
  have hwrite : t.write output data = t := by rw [FileTree.write, hdevice]
  rw [hwrite, flush, hdevice] at h
  cases h

/-- **What stands where the archive was written**: the entry of the binary, compressed. -/
theorem writeArchive_ok [Gzip.Writer] {t t' : FileTree} {l : Layout} {loc : Location}
    {f : RegularFile} (hsource : t.find l.source = .ok (.existing loc (.file f)))
    (hother : ¬ t'.SameFile l.source l.output) (h : writeArchive t l = (t', .ok ())) :
    ∃ before name out g, Tar.placeName l.entry = (before, .ok name) ∧
      t'.find l.output = .ok (.existing out (.file g)) ∧
      g.data = Gzip.compress (Tar.archive (before ++ [binaryEntry name f])) := by
  unfold writeArchive at h
  split at h
  · cases h
  rename_i out t₁ hcreate
  rcases hentries : entriesOf t₁ out l with ⟨entries, e | ⟨⟩⟩
  · rw [hentries] at h
    cases h
  rw [hentries] at h
  obtain ⟨rfl, hflush⟩ := Prod.mk.inj h
  have hdevice := lookup_of_flush hflush
  obtain ⟨g, hdata, houtput⟩ := FileTree.find_of_create hcreate hdevice
    (Gzip.compress (Tar.archive entries))
  have hcreated := FileTree.create_changesAt hcreate
  have hbegun := hcreated.trans (t₁.write_changesAt out Gzip.header)
  have hended := hcreated.trans (t₁.write_changesAt out (Gzip.compress (Tar.archive entries)))
  -- The binary stands elsewhere, since else both paths would lead to the archive.
  have hloc : loc ≠ out := by
    rintro rfl
    have hg := FileTree.lookup_of_find houtput
    exact hother ⟨loc, _, _, FileTree.find_file_of_extends hended.extended hg hsource, houtput⟩
  have hstatus := FileTree.status_of_find (hcreated.find_eq hloc hsource)
  have hagain := FileTree.status_of_find (hbegun.find_eq hloc hsource)
  obtain ⟨before, name, hplace, rfl⟩ := entriesOf_ok hstatus hagain hentries
  exact ⟨before, name, out, g, hplace, houtput, hdata⟩

/-! ### Names -/

/-- A text without slashes has none in its bytes. -/
theorem slash_not_mem_encode {s : String} (h : '/' ∉ s.toList) : Path.slash ∉ Utf8.encode s := by
  intro hmem
  obtain ⟨c, hc, hn⟩ := Utf8.mem_encode hmem (by decide)
  obtain rfl : c = '/' := Char.toNat_inj.mp hn
  exact h hc

/-- **The name of a project** is one component of a path. -/
theorem isName_project {project : String} (h : projectFault? project = none) :
    Path.IsName (Utf8.encode project) := by
  obtain ⟨hblank, ⟨hsingle, hdouble⟩, hslash, -⟩ := projectFault?_eq_none_iff.mp h
  have hdot : ∀ {l : List Char} {bs : Bytes}, Utf8.encodeChars l = Path.dot :: bs →
      ∃ r, l = '.' :: r ∧ Utf8.encodeChars r = bs := by
    intro l bs hl
    obtain ⟨c, r, rfl, hn, hr⟩ := Utf8.encodeChars_eq_cons hl (by decide)
    obtain rfl : c = '.' := Char.toNat_inj.mp hn
    exact ⟨r, rfl, hr⟩
  refine ⟨?_, ?_, ?_, ?_⟩
  · intro hnil
    have hempty := Utf8.encodeChars_eq_nil hnil
    simp [Text.isBlankText, hempty] at hblank
  · exact slash_not_mem_encode hslash
  · intro hone
    obtain ⟨r, hl, hr⟩ := hdot hone
    obtain rfl := Utf8.encodeChars_eq_nil hr
    exact hsingle (String.toList_inj.mp hl)
  · intro htwo
    obtain ⟨r, hl, hr⟩ := hdot htwo
    obtain ⟨r', rfl, hr'⟩ := hdot hr
    obtain rfl := Utf8.encodeChars_eq_nil hr'
    exact hdouble (String.toList_inj.mp hl)

theorem Layout.encode_baseDir (c : Config) :
    Utf8.encode (ofConfig c).baseDir =
      Utf8.encode c.project ++ 0x2D :: Utf8.encode c.platform := by
  rw [ofConfig, Utf8.encode_append, Utf8.encode_append, List.append_assoc]
  rfl

/-- **The directory in the archive** is one component of a path. -/
theorem Layout.isName_baseDir {c : Config} (hproject : projectFault? c.project = none)
    (hplatform : '/' ∉ c.platform.toList) : Path.IsName (Utf8.encode (ofConfig c).baseDir) := by
  apply Path.isName_of_hyphen
  · rw [encode_baseDir]
    exact List.mem_append_right _ List.mem_cons_self
  · rw [encode_baseDir, List.mem_append, List.mem_cons, not_or, not_or]
    exact ⟨(isName_project hproject).no_slash, by decide, slash_not_mem_encode hplatform⟩

/-- **The entry** is the binary in that directory. -/
theorem Layout.entry_eq {c : Config} (hproject : projectFault? c.project = none)
    (hplatform : '/' ∉ c.platform.toList) :
    (ofConfig c).entry =
      ⟨Utf8.encode (ofConfig c).baseDir ++ Path.slash :: Utf8.encode c.project⟩ :=
  Path.join_name (isName_baseDir hproject hplatform) (isName_project hproject)

/-- A name that leads to a file is short and has no zero bytes. -/
theorem Layout.baseDir_bounds {c : Config} {t : FileTree} {r : Found}
    (h : t.find (ofConfig c).output = .ok r) :
    0 ∉ Utf8.encode (ofConfig c).baseDir ∧ (Utf8.encode (ofConfig c).baseDir).length ≤ 4095 := by
  obtain ⟨hzero, -, hlength, -⟩ := FileTree.findNames_eq_ok_iff.mp h
  have hsuffix : Utf8.encode (ofConfig c).archiveName <:+ (ofConfig c).output.bytes :=
    Path.suffix_join _ _
  have hinit : Utf8.encode (ofConfig c).baseDir <+: Utf8.encode (ofConfig c).archiveName := by
    rw [show (ofConfig c).archiveName = (ofConfig c).baseDir ++ ".tar.gz" from rfl,
      Utf8.encode_append]
    exact List.prefix_append _ _
  constructor
  · intro hmem
    exact hzero (hsuffix.subset (hinit.subset hmem))
  · exact hinit.length_le.trans (hsuffix.length_le.trans hlength)

/-! ### Packed binaries -/

theorem binaryEntry_fits {name : Bytes} {f : RegularFile} (hname : name.length ≤ Tar.nameSize)
    (hlength : f.data.length < 8 ^ 11) : (binaryEntry name f).Fits :=
  ⟨hname, rfl, hlength⟩

/-- The mode of every file has room in a header. -/
theorem binaryEntry_mode_lt (name : Bytes) (f : RegularFile) :
    (binaryEntry name f).header.mode < 8 ^ 7 := by
  have hmode : regularMode + f.mode.bits < 0o100000 + 0o10000 :=
    Nat.add_lt_add_left f.mode.bits_lt 0o100000
  exact Nat.lt_trans hmode (by decide)

/-- **The entries of a packed binary**, with its name in the header or before it. -/
theorem members_of_placeName {c : Config} {t : FileTree} {r : Found} {f : RegularFile}
    {before : List Tar.Entry} {name : Bytes} (hproject : projectFault? c.project = none)
    (hplatform : '/' ∉ c.platform.toList) (hlength : f.data.length < 8 ^ 11)
    (houtput : t.find (Layout.ofConfig c).output = .ok r)
    (h : Tar.placeName (Layout.ofConfig c).entry = (before, .ok name)) :
    (∀ e ∈ before ++ [binaryEntry name f], e.Fits) ∧
      Tar.members (Tar.archive (before ++ [binaryEntry name f])) =
        [⟨Utf8.encode (c.project ++ "-" ++ c.platform ++ "/" ++ c.project),
          some (regularMode + f.mode.bits), Tar.regular, f.data⟩] := by
  have hbase := Layout.isName_baseDir hproject hplatform
  have hname := isName_project hproject
  rw [Layout.entry_eq hproject hplatform] at h
  obtain ⟨hshort, hplace⟩ := Tar.placeName_pair hbase hname h
  have hfits := binaryEntry_fits hshort hlength
  have hmode := binaryEntry_mode_lt name f
  have hkind : Tar.regular ≠ Tar.longName := by decide
  have hfull : Utf8.encode (c.project ++ "-" ++ c.platform ++ "/" ++ c.project) =
      Utf8.encode (Layout.ofConfig c).baseDir ++ Path.slash :: Utf8.encode c.project := by
    rw [Utf8.encode_append, Utf8.encode_append, List.append_assoc]
    rfl
  obtain ⟨hzero, hbound⟩ := Layout.baseDir_bounds houtput
  have hinit : Utf8.encode c.project <+: Utf8.encode (Layout.ofConfig c).baseDir := by
    rw [Layout.encode_baseDir]
    exact List.prefix_append _ _
  have hzero : 0 ∉ Utf8.encode (Layout.ofConfig c).baseDir ++ Path.slash :: Utf8.encode c.project := by
    rw [List.mem_append, List.mem_cons, not_or, not_or]
    exact ⟨hzero, by decide, fun hmem => hzero (hinit.subset hmem)⟩
  rw [hfull]
  rcases hplace with ⟨rfl, rfl⟩ | rfl
  · refine ⟨?_, Tar.members_archive hfits hzero hmode hkind⟩
    intro e he
    obtain rfl := List.mem_singleton.mp he
    exact hfits
  · have hlong : (Utf8.encode (Layout.ofConfig c).baseDir ++
        Path.slash :: Utf8.encode c.project).length + 1 < 8 ^ 11 := by
      have hle := hinit.length_le
      rw [List.length_append, List.length_cons]
      omega
    refine ⟨?_, Tar.members_archive_longName hfits hlong hzero hmode hkind⟩
    intro e he
    rcases List.mem_cons.mp he with rfl | he
    · exact Tar.longNameEntry_fits hlong
    · obtain rfl := List.mem_singleton.mp he
      exact hfits

/-- **What is in a release archive.** Whenever packing succeeds and the archive is another file than the
binary, the file that is told of is a compressed file, whatever its writer is, that can be unpacked and
read: it holds the binary with its data and its mode under the name that the configuration asks for, and
nothing else. All checksums are right. The data begin with a block, are filled up to whole blocks with
zeros, and two zero blocks end the archive. -/
theorem package_archive_members [Gzip.Writer] {c : Config} {s s' : Surroundings} {a : PackagedArchive}
    {l : Location} {f : RegularFile} (hproject : projectFault? c.project = none)
    (hplatform : '/' ∉ c.platform.toList)
    (hsource : s.files.find (Layout.ofConfig c).source = .ok (.existing l (.file f)))
    (hlength : f.data.length < 8 ^ 11) (h : package c s = (.ok a, s'))
    (hother : ¬ s'.files.SameFile (Layout.ofConfig c).source a.path) :
    ∃ packed unpacked front,
      s'.files.read a.path = .ok packed ∧ Gzip.header <+: packed ∧
      Gzip.decompress? packed = some unpacked ∧
      Tar.members unpacked =
        [⟨Utf8.encode (c.project ++ "-" ++ c.platform ++ "/" ++ c.project),
          some (regularMode + f.mode.bits), Tar.regular, f.data⟩] ∧
      (∀ b ∈ (Tar.readEntries unpacked).1, b.1.hasChecksum = true) ∧
      (Tar.readEntries unpacked).2 = List.replicate (2 * Tar.blockSize) 0 ∧
      unpacked = front ++ f.data ++ List.replicate (Tar.padding f.data.length) 0 ++
        List.replicate (2 * Tar.blockSize) 0 ∧
      front.length % Tar.blockSize = 0 ∧ Tar.padding f.data.length < Tar.blockSize ∧
      (f.data.length + Tar.padding f.data.length) % Tar.blockSize = 0 := by
  have hpacks := package_ok h
  obtain ⟨t₁, hmade, hwritten⟩ := hpacks.written
  have hpath : a.path = (Layout.ofConfig c).output := by rw [hpacks.told]
  -- Making directories does not change the binary.
  have hgrows : s.files.Grows t₁ := by
    have hgrows := s.files.makeDirectories_grows c.outputDir
    rwa [hmade] at hgrows
  have hsource₁ := FileTree.find_file_of_extends hgrows.extends
    (hgrows.lookup_eq l _ (FileTree.lookup_of_find hsource)) hsource
  rw [hpath] at hother
  obtain ⟨before, name, out, g, hplace, hfound, hdata⟩ :=
    writeArchive_ok hsource₁ hother hwritten
  obtain ⟨hfits, hmembers⟩ := members_of_placeName hproject hplatform hlength hfound hplace
  have hread : s'.files.read a.path = .ok g.data := by
    obtain ⟨node, bytes, hopen, hbytes, -⟩ := hpacks.contents
    have hread : s'.files.read a.path = .ok bytes := by
      rw [FileTree.read, hopen]
      exact hbytes
    rw [hpath, FileTree.read_of_status (FileTree.status_of_find hfound)] at hread ⊢
    split at hread
    · rw [if_pos ‹_›]
    · cases hread
  have hfirst : ∀ e ∈ before, e.Fits := fun e he => hfits e (List.mem_append_left _ he)
  have hlast : (binaryEntry name f).Fits := hfits _ (List.mem_append_right _ List.mem_cons_self)
  refine ⟨g.data, Tar.archive (before ++ [binaryEntry name f]),
    before.flatMap Tar.Entry.encode ++ (binaryEntry name f).header.encode, hread, ?_, ?_, hmembers,
    Tar.hasChecksum_archive hfits, ?_, Tar.archive_concat _ _, ?_, Tar.padding_lt _,
    Tar.add_padding_mod _⟩
  · rw [hdata]
    exact Gzip.Writer.header_prefix _
  · rw [hdata, Gzip.decompress?_compress]
  · rw [Tar.readEntries_archive hfits]
    rfl
  · rw [List.length_append, Tar.Header.length_encode hlast.name_length, Nat.add_mod_right]
    exact Tar.length_encode_mod hfirst

namespace Sample

/-- A project with a long name, in which the field of a header ends inside a character. -/
def longNamed : Config :=
  { project := "äääääääääääääääääääääääää"
    owner := "o", platform := "p", buildDir := .ofText "b", outputDir := .ofText "d"
    apiUrl := "", proxyUrl := none, configFile := none }

/-- The working directory `w`, where the binary is a link. -/
def linked : Surroundings :=
  { files :=
      { nodes := [([[0x77]], .folder), ([[0x77], [0x62]], .folder),
          ([[0x77], [0x62], Utf8.encode longNamed.project], .link [0x78]),
          ([[0x77], [0x62], [0x78]], .file ⟨[1, 2, 3], 0o4755, 0⟩)]
        current := some [[0x77]]
        now := 1 }
    network := { isReachable := false, script := [], sent := [] }
    log := [] }

end Sample

/-- The sample binary is packed behind a link, and its name in an entry of its own. -/
theorem package_archive_members_sample :
    ∃ a s', package Sample.longNamed Sample.linked = (.ok a, s') ∧
      ¬ s'.files.SameFile (Layout.ofConfig Sample.longNamed).source a.path ∧
      ∃ packed unpacked front,
        s'.files.read a.path = .ok packed ∧ Gzip.header <+: packed ∧
        Gzip.decompress? packed = some unpacked ∧
        Tar.members unpacked =
          [⟨Utf8.encode (Sample.longNamed.project ++ "-" ++ Sample.longNamed.platform ++ "/" ++
            Sample.longNamed.project), some (regularMode + 0o4755), Tar.regular, [1, 2, 3]⟩] ∧
        (∀ b ∈ (Tar.readEntries unpacked).1, b.1.hasChecksum = true) ∧
        (Tar.readEntries unpacked).2 = List.replicate (2 * Tar.blockSize) 0 ∧
        unpacked = front ++ [1, 2, 3] ++ List.replicate (Tar.padding 3) 0 ++
          List.replicate (2 * Tar.blockSize) 0 ∧
        front.length % Tar.blockSize = 0 ∧ Tar.padding 3 < Tar.blockSize ∧
        (3 + Tar.padding 3) % Tar.blockSize = 0 := by
  have hsource : Sample.linked.files.find (Layout.ofConfig Sample.longNamed).source =
      .ok (.existing [[0x77], [0x62], [0x78]] (.file ⟨[1, 2, 3], 0o4755, 0⟩)) := by
    decide +kernel
  -- The run is computed once: that it succeeds, where it wrote, and where the binary is.
  have hrun : ((package Sample.longNamed Sample.linked).1.isOk,
      ((package Sample.longNamed Sample.linked).2.files.find
        (Layout.ofConfig Sample.longNamed).output).toOption.map Found.location,
      ((package Sample.longNamed Sample.linked).2.files.find
        (Layout.ofConfig Sample.longNamed).source).toOption.map Found.location) =
      (true, some [[0x77], [0x64], Utf8.encode (Layout.ofConfig Sample.longNamed).archiveName],
        some [[0x77], [0x62], [0x78]]) := by
    decide +kernel
  obtain ⟨hok, hlocations⟩ := Prod.mk.inj hrun
  obtain ⟨hfound, hbinary⟩ := Prod.mk.inj hlocations
  rcases h : package Sample.longNamed Sample.linked with ⟨e | a, s'⟩
  · rw [h] at hok
    cases hok
  · rw [h] at hfound hbinary
    have hother : ¬ s'.files.SameFile (Layout.ofConfig Sample.longNamed).source a.path := by
      rintro ⟨l, n, m, hn, hm⟩
      rw [(package_ok h).told] at hm
      simp only [hn, Except.toOption, Option.map_some, Found.location] at hbinary
      simp only [hm, Except.toOption, Option.map_some, Found.location] at hfound
      exact absurd (hbinary.symm.trans hfound) (by decide +kernel)
    exact ⟨a, s', rfl, hother, package_archive_members (by decide +kernel) (by decide +kernel) hsource
      (by decide) h hother⟩

end ReleasePublisher
