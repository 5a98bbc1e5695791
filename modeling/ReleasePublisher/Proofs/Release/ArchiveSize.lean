import ReleasePublisher.Proofs.Release.Remnants

/-!
# The size of a release archive

The length of a file on a disk has 63 bits. Packing adds a few blocks to the binary, and compressing does
not make them much longer, so that the size of the archive has 64 bits: counting it never overflows.

## Main definitions

* `FileTree.WithinLimits t`: the lengths of all files have 63 bits

## Main results

* `Tar.length_archive_lt`: the length of an archive with a named entry
* `Packs.exists_output`: what packing has written
* `package_size_lt`: the size of a packed archive has 64 bits
-/

namespace ReleasePublisher

/-! ### Lengths of what is written -/

namespace Tar

/-- An entry has a block for its header, and less than a block behind its data. -/
theorem Entry.length_encode_lt {e : Entry} (h : e.header.name.length ≤ nameSize) :
    e.encode.length < e.data.length + 1024 := by
  have hpadding := padding_lt e.data.length
  rw [Entry.encode, List.length_append, List.length_append, Header.length_encode h,
    List.length_replicate]
  simp only [blockSize] at *
  omega

/-- Where the name of an entry stands: in the header, which is short, and possibly in full before. -/
theorem placeName_cases {p : Path} {before : List Entry} {name : Bytes}
    (h : placeName p = (before, .ok name)) :
    name.length ≤ nameSize ∧ (before = [] ∨ before = [longNameEntry p.bytes]) := by
  unfold placeName at h
  split at h
  · rename_i hname
    obtain ⟨rfl, hn⟩ := Prod.mk.inj h
    obtain rfl := Except.ok.inj hn
    exact ⟨length_nameOf hname, .inl rfl⟩
  · split at h
    · cases h
    · obtain ⟨rfl, hn⟩ := Prod.mk.inj h
      exact ⟨length_nameOf hn, .inr rfl⟩

/-- **The length of an archive** with one entry, and one for its name if that is long. -/
theorem length_archive_lt {p : Path} {before : List Entry} {e : Entry}
    (h : placeName p = (before, .ok e.header.name)) :
    (archive (before ++ [e])).length < p.bytes.length + e.data.length + 4096 := by
  obtain ⟨hname, hbefore⟩ := placeName_cases h
  have he := Entry.length_encode_lt hname
  have hending : ending.length = 1024 := List.length_replicate
  rcases hbefore with rfl | rfl
  · simp only [archive, List.nil_append, List.flatMap_cons, List.flatMap_nil, List.append_nil,
      List.length_append, hending]
    omega
  · have hfixed : (longNameEntry p.bytes).header.name.length ≤ nameSize :=
      Nat.le_of_lt (show 13 < 100 by decide)
    have hlong := Entry.length_encode_lt hfixed
    have hdata : (longNameEntry p.bytes).data.length = p.bytes.length + 1 := by
      simp [longNameEntry]
    simp only [archive, List.cons_append, List.nil_append, List.flatMap_cons, List.flatMap_nil,
      List.append_nil, List.length_append, hending]
    omega

end Tar

theorem Path.length_join_le (p q : Path) :
    (p.join q).bytes.length ≤ p.bytes.length + q.bytes.length + 1 := by
  unfold join
  split
  · omega
  split
  · rw [List.length_append]
    omega
  · rw [List.length_append, List.length_cons]
    omega

/-- The path of an entry is bounded by the one of the output, which leads somewhere. -/
theorem Layout.length_entry_le {c : Config} {t : FileTree} {r : Found}
    (h : t.find (ofConfig c).output = .ok r) : (ofConfig c).entry.bytes.length ≤ 8191 := by
  obtain ⟨-, hbase⟩ := baseDir_bounds h
  have hproject : (Utf8.encode c.project).length ≤ (Utf8.encode (ofConfig c).baseDir).length := by
    rw [encode_baseDir, List.length_append]
    omega
  have hjoin : (ofConfig c).entry.bytes.length ≤
      (Utf8.encode (ofConfig c).baseDir).length + (Utf8.encode c.project).length + 1 :=
    Path.length_join_le _ _
  omega

/-! ### Lengths of files -/

namespace FileTree

variable {t t' : FileTree}

/-- **The lengths of all files have 63 bits**, as on a disk. -/
def WithinLimits (t : FileTree) : Prop :=
  ∀ l bs, t.dataAt l = some bs → bs.length < 2 ^ 63

theorem WithinLimits.of_nodes
    (h : ∀ node ∈ t.nodes, ∀ f, node.2 = .file f → f.data.length < 2 ^ 63) : t.WithinLimits := by
  intro l bs hl
  unfold dataAt at hl
  split at hl
  · rename_i f hf
    obtain rfl := Option.some.inj hl
    unfold lookup at hf
    split at hf
    · cases hf
    · obtain ⟨node, hnode, hn⟩ := Option.map_eq_some_iff.mp hf
      exact h node (List.mem_of_find?_eq_some hnode) f hn
  · cases hl

theorem WithinLimits.of_sameData (h : t.WithinLimits) (hdata : t.SameData t') : t'.WithinLimits := by
  intro l bs hl
  rw [hdata l] at hl
  exact h l bs hl

/-- What a step changes at one location only, to short contents. -/
theorem WithinLimits.of_changesAt {l : Location} (h : t.WithinLimits) (hc : ChangesAt l t t')
    (hl : ∀ bs, t'.dataAt l = some bs → bs.length < 2 ^ 63) : t'.WithinLimits := by
  intro m bs hm
  by_cases hml : m = l
  · exact hl bs (hml ▸ hm)
  · rw [hc.dataAt_eq hml] at hm
    exact h m bs hm

theorem WithinLimits.create {p : Path} {l : Location} (h : t.WithinLimits)
    (hcreate : t.create p = .ok (l, t')) : t'.WithinLimits := by
  refine h.of_changesAt (create_changesAt hcreate) fun bs hbs => ?_
  rw [dataAt_of_create hcreate hbs]
  exact Nat.two_pow_pos 63

theorem WithinLimits.write {data : Bytes} (h : t.WithinLimits) (l : Location)
    (hdata : data.length < 2 ^ 63) : (t.write l data).WithinLimits := by
  refine h.of_changesAt (t.write_changesAt l data) fun bs hbs => ?_
  rw [dataAt_of_write hbs]
  exact hdata

theorem WithinLimits.length_read {p : Path} {bs : Bytes} (h : t.WithinLimits)
    (hr : t.read p = .ok bs) : bs.length < 2 ^ 63 := by
  obtain ⟨node, hopen, hcontents⟩ := read_eq_ok hr
  cases node with
  | file f =>
    obtain rfl := Except.ok.inj hcontents
    obtain ⟨l, hl⟩ := find_of_status_file (status_of_openRead hopen)
    exact h l f.data (dataAt_of_lookup (lookup_of_find hl))
  | directory w => cases hcontents
  | link target =>
    obtain rfl := Except.ok.inj hcontents
    exact Nat.two_pow_pos 63
  | device =>
    obtain rfl := Except.ok.inj hcontents
    exact Nat.two_pow_pos 63

end FileTree

/-! ### The size of the archive -/

open FileTree

/-- The entry of a binary that is written: its header tells of the file as it was, and its data are read after
the start of the archive was written. -/
theorem entriesOf_header {t : FileTree} {output : Location} {l : Layout} {entries : List Tar.Entry}
    (h : entriesOf t output l = (entries, .ok ())) :
    ∃ f before name data, t.status l.source = .ok (.file f) ∧
      Tar.placeName l.entry = (before, .ok name) ∧
      (t.write output Gzip.header).read l.source = .ok data ∧
      entries = before ++ [⟨(binaryEntry name f).header, data⟩] := by
  unfold entriesOf at h
  split at h
  · rename_i f _ hstatus _
    split at h
    · cases h
    · rename_i before name hplace
      dsimp only at h
      split at h
      · rename_i data hdata
        obtain ⟨rfl, -⟩ := Prod.mk.inj h
        exact ⟨f, before, name, data, hstatus, hplace, hdata, rfl⟩
      · cases h
  · cases h
  · cases h
  · cases h

/-- **The entries of an archive that is written** are the one of the binary and possibly one for its name. -/
theorem entriesOf_cases {t : FileTree} {output : Location} {l : Layout} {entries : List Tar.Entry}
    (h : entriesOf t output l = (entries, .ok ())) :
    ∃ before e, Tar.placeName l.entry = (before, .ok e.header.name) ∧ entries = before ++ [e] ∧
      (t.write output Gzip.header).read l.source = .ok e.data := by
  obtain ⟨f, before, name, data, -, hplace, hdata, rfl⟩ := entriesOf_header h
  exact ⟨before, ⟨(binaryEntry name f).header, data⟩, hplace, rfl, hdata⟩

/-- **What packing has written** is the file at the path that is told of: an archive with the entries of the
binary, as it was when the output had been opened. -/
theorem Packs.exists_output [Gzip.Writer] {c : Config} {t t' : FileTree} {a : PackagedArchive}
    (h : Packs c t t' a) :
    ∃ t₁ t₂ out entries g, t.makeDirectories c.outputDir = (t₁, .ok ()) ∧
      t₁.create (Layout.ofConfig c).output = .ok (out, t₂) ∧
      entriesOf t₂ out (Layout.ofConfig c) = (entries, .ok ()) ∧
      t'.find a.path = .ok (.existing out (.file g)) ∧ t'.read a.path = .ok g.data ∧
      g.data = Gzip.compress (Tar.archive entries) ∧ a.size = g.data.length := by
  obtain ⟨t₁, hmade, hwritten⟩ := h.written
  rcases writeArchive_cases hwritten with ⟨x, hx, -⟩ | ⟨out, t₂, entries, r, hcreate, hentries, ht, hr⟩
  · cases hx
  cases r with
  | error x => cases hr
  | ok _ =>
    rw [ht] at hr
    obtain ⟨g, hdata, hfind⟩ := find_of_create hcreate (lookup_of_flush hr.symm)
      (Gzip.compress (Tar.archive entries))
    have hpath : a.path = (Layout.ofConfig c).output := by rw [h.told]
    rw [← ht, ← hpath] at hfind
    obtain ⟨node, bytes, hopen, hcontents, hsize, -⟩ := h.contents
    obtain rfl : FileNode.file g = node :=
      Except.ok.inj ((status_of_find hfind).symm.trans (status_of_openRead hopen))
    obtain rfl : g.data = bytes := Except.ok.inj hcontents
    refine ⟨t₁, t₂, out, entries, g, hmade, hcreate, hentries, hfind, ?_, hdata, hsize⟩
    rw [FileTree.read, hopen]
    rfl

/-- **The size of a packed archive has 64 bits**, if the lengths of all files have 63 bits. -/
theorem package_size_lt [Gzip.Writer] {c : Config} {s s' : Surroundings} {a : PackagedArchive}
    (hs : s.files.WithinLimits) (h : package c s = (.ok a, s')) : a.size < 2 ^ 64 := by
  have hpacks := package_ok h
  obtain ⟨t₁, t₂, out, entries, g, hmade, hcreate, hentries, hfind, -, hg, hsize⟩ :=
    hpacks.exists_output
  have hdata := s.files.makeDirectories_sameData c.outputDir
  rw [hmade] at hdata
  -- The start of the archive is in the output already when the binary is read.
  have hlimits := ((hs.of_sameData hdata).create hcreate).write out
    (show Gzip.header.length < 2 ^ 63 by decide)
  obtain ⟨before, e, hplace, rfl, hread⟩ := entriesOf_cases hentries
  have hbinary := hlimits.length_read hread
  have hpath : a.path = (Layout.ofConfig c).output := by rw [hpacks.told]
  have hentry := Layout.length_entry_le (hpath ▸ hfind)
  have harchive := Tar.length_archive_lt hplace
  have hcompress := Gzip.Writer.length_compress_le (Tar.archive (before ++ [e]))
  rw [hsize, hg]
  omega

end ReleasePublisher
