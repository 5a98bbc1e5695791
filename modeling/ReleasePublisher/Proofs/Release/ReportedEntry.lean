import ReleasePublisher.Proofs.Archive.StatedName
import ReleasePublisher.Proofs.Release.Layouts
import ReleasePublisher.Proofs.Text.Utf8Reading
import ReleasePublisher.Release.Report

/-!
# The entry that is told of

Packing tells of an entry, the report on the configuration states one, and a reader of the archive lists
one. The path of the entry is written in three ways for that: with slashes for backslashes, as it is, and
without empty pieces and single dots unless it is too long. So the three differ for some platforms.

## Main definitions

* `Config.StatesEntry c root entry`: a line of the report on the configuration states the entry

## Main results

* `package_listing`: a packed archive lists one name, which the path of the entry states
* `Config.statesEntry_iff`: the report states the path as it is
* `package_entry_iff`: when the entry that packing tells of is both
-/

namespace ReleasePublisher

open FileTree

variable {c : Config}

/-! ### The path of the entry -/

namespace Path

/-- What stands before the first slash belongs to the first piece. -/
theorem splitSlash_append_of_no_slash {front rest first : Bytes} {more : List Bytes}
    (hfront : slash ∉ front) (h : splitSlash rest = first :: more) :
    splitSlash (front ++ rest) = (front ++ first) :: more := by
  induction front with
  | nil => exact h
  | cons b front ih =>
    rw [List.mem_cons, not_or] at hfront
    have hb : (b == slash) = false := by simpa using Ne.symm hfront.1
    rw [List.cons_append, splitSlash, hb, ih hfront.2]
    rfl

end Path

namespace Layout

/-- The path of the entry: a slash is added unless the directory ends in one. -/
theorem entry_cases (hproject : projectFault? c.project = none) :
    (ofConfig c).entry = .ofText ((ofConfig c).baseDir ++ c.project) ∨
      (ofConfig c).entry = .ofText ((ofConfig c).baseDir ++ "/" ++ c.project) := by
  have hrelative : (Path.ofText c.project).isAbsolute = false :=
    Path.not_isAbsolute (isName_project hproject).no_slash
  have hjoin : (ofConfig c).entry = (Path.ofText (ofConfig c).baseDir).join (.ofText c.project) := rfl
  rw [hjoin, Path.join, hrelative, if_neg Bool.false_ne_true]
  split
  · left
    rw [Path.ofText, Path.ofText, Path.ofText, Utf8.encode_append]
  · right
    rw [Path.ofText, Path.ofText, Path.ofText, Utf8.encode_append, Utf8.encode_append, List.append_assoc]
    rfl

/-- **The first piece of the entry** is a name: it has the hyphen behind the project. -/
theorem exists_splitSlash_entry (hproject : projectFault? c.project = none) :
    ∃ first rest, Path.splitSlash (ofConfig c).entry.bytes = first :: rest ∧ Path.IsName first := by
  obtain ⟨behind, hentry⟩ :
      ∃ behind, (ofConfig c).entry.bytes = Utf8.encode c.project ++ [0x2D] ++ behind := by
    rcases entry_cases hproject with hentry | hentry
    · refine ⟨Utf8.encode c.platform ++ Utf8.encode c.project, ?_⟩
      rw [hentry, Path.ofText, Utf8.encode_append, encode_baseDir]
      simp
    · refine ⟨Utf8.encode c.platform ++ (Utf8.encode "/" ++ Utf8.encode c.project), ?_⟩
      rw [hentry, Path.ofText, Utf8.encode_append, Utf8.encode_append, encode_baseDir]
      simp
  have hfront : Path.slash ∉ Utf8.encode c.project ++ [0x2D] := by
    rw [List.mem_append, not_or]
    exact ⟨(isName_project hproject).no_slash, by decide⟩
  obtain ⟨piece, more, hbehind⟩ := List.exists_cons_of_ne_nil (Path.splitSlash_ne_nil behind)
  have hsplit := Path.splitSlash_append_of_no_slash hfront hbehind
  rw [hentry]
  refine ⟨_, more, hsplit, ?_⟩
  apply Path.isName_of_hyphen
  · simp
  · exact Path.no_slash_of_mem_splitSlash (hsplit ▸ List.mem_cons_self)

theorem isEntryPath_entry (hproject : projectFault? c.project = none) :
    Tar.IsEntryPath (ofConfig c).entry where
  first := exists_splitSlash_entry hproject
  not_endsInSlash := Path.endsInSlash_join _ (isName_project hproject)

/-- **The path of the entry is a text**, with a backslash exactly if the platform has one. -/
theorem exists_text_entry (hproject : projectFault? c.project = none) :
    ∃ text, (ofConfig c).entry = .ofText text ∧ ('\\' ∈ text.toList ↔ '\\' ∈ c.platform.toList) := by
  obtain ⟨-, -, -, hbackslash⟩ := projectFault?_eq_none_iff.mp hproject
  rcases entry_cases hproject with h | h
  · exact ⟨_, h, by simp [ofConfig, hbackslash]⟩
  · exact ⟨_, h, by simp [ofConfig, hbackslash]⟩

/-- A path of an output that leads somewhere has no zero bytes, and neither has that of the entry. -/
theorem zero_not_mem_entry {t : FileTree} {r : Found} (hproject : projectFault? c.project = none)
    (h : t.find (ofConfig c).output = .ok r) : 0 ∉ (ofConfig c).entry.bytes := by
  obtain ⟨hbase, -⟩ := baseDir_bounds h
  have hname : 0 ∉ Utf8.encode c.project := fun hmem =>
    hbase (encode_baseDir c ▸ List.mem_append_left _ hmem)
  rcases entry_cases hproject with hentry | hentry
  · rw [hentry, Path.ofText, Utf8.encode_append, List.mem_append, not_or]
    exact ⟨hbase, hname⟩
  · rw [hentry, Path.ofText, Utf8.encode_append, Utf8.encode_append, List.mem_append, List.mem_append,
      not_or, not_or]
    exact ⟨⟨hbase, by decide⟩, hname⟩

end Layout

theorem display_ofText (text : String) : (Path.ofText text).display = text :=
  Utf8.lossy_encode text

/-- **A text is reported as it is** exactly if it has no backslash. -/
theorem shownEntry_eq_iff (text : String) : shownEntry (.ofText text) = text ↔ '\\' ∉ text.toList := by
  rw [shownEntry, display_ofText, ← String.toList_inj, String.toList_ofList]
  constructor
  · intro h hmem
    rw [← h] at hmem
    obtain ⟨x, -, hx⟩ := List.mem_map.mp hmem
    split at hx
    · exact absurd hx (by decide)
    · rename_i hne
      exact hne (beq_iff_eq.mpr hx)
  · intro h
    have hsame : ∀ x ∈ text.toList, (if x == '\\' then '/' else x) = x := by
      intro x hx
      rw [if_neg]
      intro hbackslash
      exact h (eq_of_beq hbackslash ▸ hx)
    exact (List.map_congr_left hsame).trans (List.map_id _)

/-! ### The entry in the archive -/

/-- **A reader goes on behind the binary.** If the archive is written over the binary, then the header states
that there are no data, and the data are the start of the archive. -/
theorem isListed_of_create {t t' : FileTree} {p source : Path} {out : Location} {f : RegularFile}
    {name data : Bytes} (hcreate : t.create p = .ok (out, t')) (hlimits : t'.WithinLimits)
    (hstatus : t'.status source = .ok (.file f))
    (hread : (t'.write out Gzip.header).read source = .ok data) (hname : name.length ≤ Tar.nameSize) :
    (Tar.Entry.mk (binaryEntry name f).header data).IsListed := by
  obtain ⟨l, hfind⟩ := find_of_status_file hstatus
  have hf := lookup_of_find hfind
  have hlength : f.data.length < 256 ^ 11 :=
    Nat.lt_trans (hlimits l f.data (dataAt_of_lookup hf)) (by decide)
  refine ⟨hname, hlength, ?_⟩
  have hwrites := t'.write_changesAt out Gzip.header
  -- The output may lead to the binary, which is then empty when its header is made.
  by_cases hl : l = out
  · subst hl
    have hempty : f.data = [] := dataAt_of_create hcreate (dataAt_of_lookup hf)
    have hagain := find_file_of_extends hwrites.extended (lookup_write_self hf Gzip.header) hfind
    rw [read_of_status (status_of_find hagain)] at hread
    split at hread
    · exact .inr ⟨congrArg List.length hempty, (Except.ok.inj hread).symm⟩
    · cases hread
  · have hagain := hwrites.find_eq hl hfind
    rw [read_of_status (status_of_find hagain)] at hread
    split at hread
    · exact .inl (congrArg List.length (Except.ok.inj hread))
    · cases hread

/-- **A packed archive lists one name**, which the path of the entry states. -/
theorem package_listing [Gzip.Writer] {s s' : Surroundings} {a : PackagedArchive}
    (hproject : projectFault? c.project = none) (hs : s.files.WithinLimits)
    (h : package c s = (.ok a, s')) :
    ∃ packed unpacked, s'.files.read a.path = .ok packed ∧ Gzip.decompress? packed = some unpacked ∧
      Tar.listing none unpacked = [Tar.statedName (Layout.ofConfig c).entry] := by
  have hpacks := package_ok h
  obtain ⟨t₁, t₂, out, entries, g, hmade, hcreate, hentries, hfind, hread, hdata, -⟩ :=
    hpacks.exists_output
  obtain ⟨f, before, name, data, hstatus, hplace, hbinary, rfl⟩ := entriesOf_header hentries
  have hlimits : t₂.WithinLimits := by
    have hsame := s.files.makeDirectories_sameData c.outputDir
    rw [hmade] at hsame
    exact (hs.of_sameData hsame).create hcreate
  have hlisted := isListed_of_create hcreate hlimits hstatus hbinary (Tar.placeName_cases hplace).1
  -- The path of the entry is short and has no zero bytes, as the one of the output.
  have hpath : a.path = (Layout.ofConfig c).output := by rw [hpacks.told]
  rw [hpath] at hfind
  have hlength := Layout.length_entry_le hfind
  have hzero := Layout.zero_not_mem_entry hproject hfind
  have hkind : Tar.regular ≠ Tar.longName := by decide
  refine ⟨g.data, _, hread, hdata ▸ Gzip.decompress?_compress _, ?_⟩
  exact Tar.listing_placed (Layout.isEntryPath_entry hproject) hzero (by omega) hplace hlisted hkind

/-! ### Reports -/

/-- **A line of the report on the configuration states the entry.** -/
def Config.StatesEntry (c : Config) (root : Path) (entry : String) : Prop :=
  "  entry:       " ++ entry ∈ c.lines root

/-- **The report states** the path of the entry as it is shown. -/
theorem Config.statesEntry_iff {root : Path} {entry : String} :
    c.StatesEntry root entry ↔ entry = (Layout.ofConfig c).entry.display := by
  rw [StatesEntry, lines]
  simp only [List.mem_cons, List.not_mem_nil, ← String.toList_inj, String.toList_append]
  simp

/-- **The entry that packing tells of** is the name of the only entry in the archive, and the one that the
report on the configuration states, exactly if the platform has no backslash, and the path of the entry has no
piece that is empty or a single dot or is stored in full as too long for a header. -/
theorem package_entry_iff [Gzip.Writer] {t : FileTree} {root : Path} {overrides : Overrides}
    {env : Environment}
    {s s' : Surroundings} {a : PackagedArchive} (hresolve : resolve t root overrides env = .ok c)
    (hs : s.files.WithinLimits) (h : package c s = (.ok a, s')) :
    ∃ packed unpacked name, s'.files.read a.path = .ok packed ∧
      Gzip.decompress? packed = some unpacked ∧ Tar.listing none unpacked = [name] ∧
      (Utf8.encode a.entry = name ∧ c.StatesEntry root a.entry ↔
        '\\' ∉ c.platform.toList ∧
          ((∀ piece ∈ Path.splitSlash (Layout.ofConfig c).entry.bytes, piece ≠ [] ∧ piece ≠ [Path.dot]) ∨
            ∃ fault, Tar.nameOf false (Layout.ofConfig c).entry = .error fault)) := by
  have hproject := projectFault?_of_resolve hresolve
  obtain ⟨packed, unpacked, hread, hunpack, hlisting⟩ := package_listing hproject hs h
  refine ⟨packed, unpacked, _, hread, hunpack, hlisting, ?_⟩
  obtain ⟨text, hentry, hbackslash⟩ := Layout.exists_text_entry hproject
  have hkept := Tar.statedName_eq_bytes_iff (Layout.isEntryPath_entry hproject)
  have htold : a.entry = shownEntry (.ofText text) := by rw [(package_ok h).told, hentry]
  have hstates : c.StatesEntry root a.entry ↔ '\\' ∉ c.platform.toList := by
    rw [Config.statesEntry_iff, hentry, display_ofText, htold, shownEntry_eq_iff, hbackslash]
  rw [hstates, ← hkept, and_comm]
  apply and_congr_right
  intro hplatform
  -- Without backslashes, what is told of is the path itself.
  have hsame : Utf8.encode a.entry = (Layout.ofConfig c).entry.bytes := by
    rw [htold, (shownEntry_eq_iff text).mpr (hbackslash.not.mpr hplatform), hentry]
    rfl
  rw [hsame]
  exact eq_comm

namespace Sample

/-- The files of the samples are short. -/
theorem hazardous_withinLimits (binary archive : FileMode) :
    (hazardous binary archive).files.WithinLimits := by
  apply WithinLimits.of_nodes
  intro node hnode f hf
  simp only [hazardous, List.mem_cons, List.not_mem_nil, or_false] at hnode
  rcases hnode with rfl | rfl | rfl | rfl | rfl
  · cases hf
  · cases hf
  · cases hf
  · cases hf
    exact (by decide : 1 < 2 ^ 63)
  · cases hf
    exact (by decide : 1 < 2 ^ 63)

end Sample

/-- The sample binary is told of under its name in the archive. -/
theorem package_entry_iff_sample :
    resolve (Sample.hazardous 0o755 0o644).files (.ofText "/w") (Sample.overrides "p") (fun _ => none) =
        .ok (Sample.packed "p") ∧
      (Sample.hazardous 0o755 0o644).files.WithinLimits ∧
      ∃ a s', package (Sample.packed "p") (Sample.hazardous 0o755 0o644) = (.ok a, s') ∧
        ∃ packed unpacked, s'.files.read a.path = .ok packed ∧
          Gzip.decompress? packed = some unpacked ∧
          Tar.listing none unpacked = [Utf8.encode a.entry] ∧
          (Sample.packed "p").StatesEntry (.ofText "/w") a.entry := by
  have hresolve : resolve (Sample.hazardous 0o755 0o644).files (.ofText "/w") (Sample.overrides "p")
      (fun _ => none) = .ok (Sample.packed "p") := by
    decide +kernel
  have hlimits := Sample.hazardous_withinLimits 0o755 0o644
  have hok : (package (Sample.packed "p") (Sample.hazardous 0o755 0o644)).1.isOk = true := by
    decide +kernel
  rcases h : package (Sample.packed "p") (Sample.hazardous 0o755 0o644) with ⟨e | a, s'⟩
  · rw [h] at hok
    cases hok
  obtain ⟨packed, unpacked, name, hread, hunpack, hlisting, hsame⟩ :=
    package_entry_iff hresolve hlimits h
  obtain ⟨rfl, hstates⟩ := hsame.mpr ⟨by decide, .inl (by decide +kernel)⟩
  exact ⟨hresolve, hlimits, a, s', rfl, packed, unpacked, hread, hunpack, hlisting, hstates⟩

/-- **A backslash in the platform is told of as a slash.** The configuration is resolved and the binary packed
under `a-p\q/a`, which is what the report on the configuration states, but what is told of is `a-p/q/a`. -/
theorem backslash_told_as_slash :
    ∃ c, resolve (Sample.hazardous 0o755 0o644).files (.ofText "/w") (Sample.overrides "p\\q")
        (fun _ => none) = .ok c ∧
      ∃ a s', package c (Sample.hazardous 0o755 0o644) = (.ok a, s') ∧ a.entry = "a-p/q/a" ∧
        ¬ c.StatesEntry (.ofText "/w") a.entry ∧
        ∃ packed unpacked, s'.files.read a.path = .ok packed ∧
          Gzip.decompress? packed = some unpacked ∧
          Tar.listing none unpacked = [Utf8.encode "a-p\\q/a"] := by
  refine ⟨Sample.packed "p\\q", by decide +kernel, ?_⟩
  have hok : (package (Sample.packed "p\\q") (Sample.hazardous 0o755 0o644)).1.isOk = true := by
    decide +kernel
  rcases h : package (Sample.packed "p\\q") (Sample.hazardous 0o755 0o644) with ⟨e | a, s'⟩
  · rw [h] at hok
    cases hok
  have hentry : a.entry = "a-p/q/a" := by
    rw [(package_ok h).told]
    exact (by decide +kernel : shownEntry (Layout.ofConfig (Sample.packed "p\\q")).entry = "a-p/q/a")
  obtain ⟨packed, unpacked, hread, hunpack, hlisting⟩ :=
    package_listing (by decide +kernel) (Sample.hazardous_withinLimits 0o755 0o644) h
  have hname : Tar.statedName (Layout.ofConfig (Sample.packed "p\\q")).entry =
      Utf8.encode "a-p\\q/a" := by
    decide +kernel
  refine ⟨a, s', rfl, hentry, ?_, packed, unpacked, hread, hunpack, hname ▸ hlisting⟩
  rw [Config.statesEntry_iff, hentry]
  decide +kernel

end ReleasePublisher
