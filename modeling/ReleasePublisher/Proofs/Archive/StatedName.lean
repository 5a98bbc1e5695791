import ReleasePublisher.Proofs.Archive.Listing
import ReleasePublisher.Proofs.Files.Children

/-!
# The name that an entry gets

The name in a header has the pieces of the path without those that are empty or a single dot. So it is the
path itself exactly if there are none of these. A name that no header has room for is stated in full, as the
path is written.

## Main definitions

* `Path.isKept piece`: a piece that the name in a header keeps
* `Tar.IsEntryPath p`: the path starts with a name and ends without a slash
* `Tar.statedName p`: the name that an entry with the path `p` gets

## Main results

* `Tar.splitSlash_nameOf`: the pieces of the name in a header
* `Tar.statedName_eq_bytes_iff`: when an entry gets its path as a name
* `Tar.listing_placed`: the name that is listed
-/

namespace ReleasePublisher

namespace Path

/-- A piece that the name in a header keeps. -/
def isKept (piece : Bytes) : Bool :=
  !piece.isEmpty && piece != [dot]

theorem isKept_iff {piece : Bytes} : isKept piece = true ↔ piece ≠ [] ∧ piece ≠ [dot] := by
  simp [isKept]

theorem IsName.isKept {name : Bytes} (h : IsName name) : isKept name = true :=
  isKept_iff.mpr ⟨h.ne_nil, h.ne_dot⟩

/-- The bytes of a path are slashes and those of its pieces. -/
theorem mem_iff_mem_splitSlash {bs : Bytes} {b : UInt8} (hb : b ≠ slash) :
    b ∈ bs ↔ ∃ piece ∈ splitSlash bs, b ∈ piece := by
  induction bs with
  | nil => simp [splitSlash]
  | cons c bs ih =>
    rw [List.mem_cons, ih, splitSlash]
    split
    · rename_i hc
      simp [eq_of_beq hc, hb]
    · obtain ⟨piece, more, hbs⟩ := List.exists_cons_of_ne_nil (splitSlash_ne_nil bs)
      simp [hbs, or_assoc]

/-- An absolute path has an empty piece before its first slash. -/
theorem not_isAbsolute_of_splitSlash {p : Path} {first : Bytes} {rest : List Bytes}
    (hsplit : splitSlash p.bytes = first :: rest) (hfirst : first ≠ []) : p.isAbsolute = false := by
  rw [isAbsolute, beq_eq_false_iff_ne]
  intro hhead
  cases hbytes : p.bytes with
  | nil => simp [hbytes] at hhead
  | cons b bs =>
    rw [hbytes] at hhead hsplit
    obtain rfl := Option.some.inj hhead
    exact hfirst (List.cons.inj hsplit).1.symm

/-- The components of a path that starts with a name: that name, and those of the other pieces. -/
theorem components_of_splitSlash {p : Path} {first : Bytes} {rest : List Bytes}
    (hsplit : splitSlash p.bytes = first :: rest) (hfirst : IsName first) :
    p.components = .name first :: (rest.filter (!·.isEmpty)).filterMap component? := by
  have hstart : (some first == some [dot]) = false := by simpa using hfirst.ne_dot
  have hfilter : (first :: rest).filter (!·.isEmpty) = first :: rest.filter (!·.isEmpty) :=
    List.filter_cons_of_pos (by simpa using hfirst.ne_nil)
  rw [components, not_isAbsolute_of_splitSlash hsplit hfirst.ne_nil, names, hsplit, hfilter,
    List.filterMap_cons, component?_name hfirst]
  simp [hstart]

end Path

namespace Tar

/-! ### Pieces of names -/

/-- A path that starts with a name and does not end in a slash. -/
structure IsEntryPath (p : Path) : Prop where
  first : ∃ first rest, Path.splitSlash p.bytes = first :: rest ∧ Path.IsName first
  not_endsInSlash : p.endsInSlash = false

theorem addName_eq {written : Bytes} (h : written ≠ []) (name : Bytes) :
    addName written name = written ++ Path.slash :: name := by
  simp [addName, h]

theorem extendName_eq_ok {written name longer : Bytes} (h : extendName written name = .ok longer) :
    longer = addName written name := by
  unfold extendName at h
  dsimp only at h
  split at h
  · cases h
  · exact (Except.ok.inj h).symm

/-- **Adding components** adds the pieces that are kept. -/
theorem splitSlash_addComponents {pieces : List Bytes} {written name : Bytes} (hwritten : written ≠ [])
    (hpieces : ∀ piece ∈ pieces, Path.slash ∉ piece)
    (h : addComponents false written ((pieces.filter (!·.isEmpty)).filterMap Path.component?) =
      .ok name) :
    Path.splitSlash name = Path.splitSlash written ++ pieces.filter Path.isKept := by
  induction pieces generalizing written with
  | nil =>
    simp only [List.filter_nil, List.filterMap_nil, addComponents, List.isEmpty_iff, hwritten, if_false,
      Except.ok.injEq] at h
    rw [h, List.filter_nil, List.append_nil]
  | cons piece rest ih =>
    have hrest : ∀ piece ∈ rest, Path.slash ∉ piece := by
      intro q hq
      exact hpieces q (List.mem_cons_of_mem _ hq)
    -- Empty pieces and single dots are no components.
    by_cases hempty : piece = []
    · subst hempty
      exact ih hwritten hrest h
    by_cases hdot : piece = [Path.dot]
    · subst hdot
      exact ih hwritten hrest h
    -- Two dots lead above, so that there is no name.
    by_cases hdots : piece = [Path.dot, Path.dot]
    · subst hdots
      cases h
    have hname : Path.IsName piece := ⟨hempty, hpieces piece List.mem_cons_self, hdot, hdots⟩
    have hfilter : (piece :: rest).filter (!·.isEmpty) = piece :: rest.filter (!·.isEmpty) :=
      List.filter_cons_of_pos (by simpa using hempty)
    rw [hfilter, List.filterMap_cons, Path.component?_name hname, addComponents] at h
    split at h
    · rename_i longer hlonger
      obtain rfl := extendName_eq_ok hlonger
      have hsplit : Path.splitSlash (addName written piece) = Path.splitSlash written ++ [piece] := by
        rw [addName_eq hwritten, Path.splitSlash_append, Path.splitSlash_piece hname.no_slash]
      have hlonger : addName written piece ≠ [] := by
        rw [addName_eq hwritten]
        exact List.append_ne_nil_of_left_ne_nil hwritten _
      rw [ih hlonger hrest h, hsplit, List.filter_cons_of_pos hname.isKept, List.append_assoc]
      rfl
    · cases h

/-- **The pieces of the name in a header** are those of the path that are kept. -/
theorem splitSlash_nameOf {p : Path} {name : Bytes} (hp : IsEntryPath p) (h : nameOf false p = .ok name) :
    Path.splitSlash name = (Path.splitSlash p.bytes).filter Path.isKept := by
  obtain ⟨first, rest, hsplit, hfirst⟩ := hp.first
  have hpieces : ∀ piece ∈ rest, Path.slash ∉ piece := by
    intro piece hpiece
    exact Path.no_slash_of_mem_splitSlash (hsplit ▸ List.mem_cons_of_mem _ hpiece)
  rw [nameOf, Path.components_of_splitSlash hsplit hfirst, addComponents, hp.not_endsInSlash] at h
  rw [hsplit, List.filter_cons_of_pos hfirst.isKept]
  cases hroom : extendName [] first with
  | error fault =>
    rw [hroom] at h
    cases h
  | ok written =>
    -- The first name is written without a slash before it.
    obtain rfl : written = first := extendName_eq_ok hroom
    rw [hroom] at h
    dsimp only at h
    split at h
    · cases h
    · rename_i longer hlonger
      obtain rfl : longer = name := Except.ok.inj h
      rw [splitSlash_addComponents hfirst.ne_nil hpieces hlonger, Path.splitSlash_piece hfirst.no_slash]
      rfl

/-- **The name in a header is the path itself** exactly if all pieces are kept. -/
theorem nameOf_eq_bytes_iff {p : Path} {name : Bytes} (hp : IsEntryPath p)
    (h : nameOf false p = .ok name) :
    name = p.bytes ↔ ∀ piece ∈ Path.splitSlash p.bytes, Path.isKept piece = true := by
  have hpieces := splitSlash_nameOf hp h
  rw [← List.filter_eq_self, ← hpieces]
  constructor
  · rintro rfl
    rfl
  · intro hsame
    rw [← Path.intercalate_splitSlash name, hsame, Path.intercalate_splitSlash]

/-! ### Names that are listed -/

/-- **The name that an entry gets**: the one in the header, or the path as it is written. -/
def statedName (p : Path) : Bytes :=
  match nameOf false p with
  | .ok name => name
  | .error _ => p.bytes

/-- **An entry gets its path as a name** exactly if all pieces are kept or the path is stored in full. -/
theorem statedName_eq_bytes_iff {p : Path} (hp : IsEntryPath p) :
    statedName p = p.bytes ↔ (∀ piece ∈ Path.splitSlash p.bytes, piece ≠ [] ∧ piece ≠ [Path.dot]) ∨
      ∃ fault, nameOf false p = .error fault := by
  rw [statedName]
  cases hname : nameOf false p with
  | ok name =>
    have hkept := nameOf_eq_bytes_iff hp hname
    simp only [Path.isKept_iff] at hkept
    simp [hkept]
  | error fault => simp

/-- **The name that is listed** is the one that the entry gets. -/
theorem listing_placed {p : Path} {before : List Entry} {e : Entry} (hp : IsEntryPath p)
    (hzero : 0 ∉ p.bytes) (hlength : p.bytes.length + 1 < 256 ^ 11)
    (hplace : placeName p = (before, .ok e.header.name)) (he : e.IsListed)
    (hkind : e.header.kind ≠ longName) : listing none (archive (before ++ [e])) = [statedName p] := by
  unfold placeName at hplace
  rw [statedName]
  cases hname : nameOf false p with
  | ok name =>
    rw [hname] at hplace
    obtain ⟨rfl, hstated⟩ := Prod.mk.inj hplace
    obtain rfl := Except.ok.inj hstated
    have hpieces := splitSlash_nameOf hp hname
    apply listing_archive he hkind
    intro hmem
    -- Its pieces are pieces of the path.
    obtain ⟨piece, hpiece, hin⟩ := (Path.mem_iff_mem_splitSlash (by decide)).mp hmem
    rw [hpieces] at hpiece
    exact hzero ((Path.mem_iff_mem_splitSlash (by decide)).mpr
      ⟨piece, (List.mem_filter.mp hpiece).1, hin⟩)
  | error fault =>
    rw [hname] at hplace
    dsimp only at hplace
    split at hplace
    · cases hplace
    · obtain ⟨rfl, -⟩ := Prod.mk.inj hplace
      exact listing_archive_longName he hkind hlength hzero

end Tar

end ReleasePublisher
