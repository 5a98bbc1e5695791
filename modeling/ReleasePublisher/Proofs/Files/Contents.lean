import ReleasePublisher.Proofs.Files.Growth

/-!
# Contents and modes of files

Making directories leaves the regular files of a tree and their contents alone, and writing a file leaves
those of all other files alone. Neither changes what the owner of a file may do with it. Where a path leads
does not depend on what files hold.

## Main definitions

* `FileTree.dataAt t l`: the contents of the regular file at a location
* `FileTree.SameData t t'`: both trees have the same regular files with the same contents
* `FileTree.KeepsModes t t'`: every file of the first tree is one of the second, with the same mode
* `FileTree.SameShape t t'`: the trees differ at most in what their files are

## Main results

* `FileTree.makeDirectories_sameData`: making directories changes no contents
* `FileTree.ChangesAt.dataAt_eq`: writing a file changes no other contents
* `FileTree.create_keepsModes`, `FileTree.write_keepsModes`: writing a file changes no mode
* `FileTree.status_of_keepsModes`: a file is found again with its mode
* `FileTree.isFile_of_sameShape`, `FileTree.read_of_sameShape`: the same paths lead to files, and a file that
  is the same in both trees is read in the same way
-/

namespace ReleasePublisher.FileTree

variable {t t' : FileTree}

/-! ### Contents -/

/-- The contents of the regular file at a location, if there is one. -/
def dataAt (t : FileTree) (l : Location) : Option Bytes :=
  match t.lookup l with
  | some (.file f) => some f.data
  | _ => none

theorem dataAt_of_lookup {l : Location} {f : RegularFile} (h : t.lookup l = some (.file f)) :
    t.dataAt l = some f.data := by
  rw [dataAt, h]

theorem ne_nil_of_lookup_file {l : Location} {f : RegularFile} (h : t.lookup l = some (.file f)) :
    l ≠ [] :=
  ne_nil_of_lookup (t := t) (by simp [h])

theorem dataAt_congr {l : Location} (h : t'.lookup l = t.lookup l) : t'.dataAt l = t.dataAt l := by
  rw [dataAt, dataAt, h]

/-- **Both trees have the same regular files, with the same contents.** -/
def SameData (t t' : FileTree) : Prop :=
  ∀ l, t'.dataAt l = t.dataAt l

theorem SameData.refl (t : FileTree) : t.SameData t := fun _ => rfl

theorem SameData.trans {t₁ t₂ t₃ : FileTree} (h : t₁.SameData t₂) (h' : t₂.SameData t₃) :
    t₁.SameData t₃ := fun l => (h' l).trans (h l)

/-- A directory that is new is no regular file. -/
theorem SameData.put_folder {l : Location} (hl : t.lookup l = none) :
    t.SameData (t.put l .folder) := by
  intro m
  by_cases hm : m = l
  · subst hm
    have hne : m ≠ [] := ne_nil_of_lookup (t := t) (by simp [hl])
    rw [dataAt, dataAt, lookup_put_self hne, hl]
    rfl
  · exact dataAt_congr (lookup_put_of_ne hm t _)

theorem makeDirectory_sameData {p : Path} (h : t.makeDirectory p = .ok t') : t.SameData t' := by
  obtain ⟨r, -, hfree, rfl⟩ := makeDirectory_eq_ok h
  exact .put_folder hfree

theorem makeEach_sameData (t : FileTree) (ps : List Path) : t.SameData (t.makeEach ps).1 := by
  induction ps generalizing t with
  | nil => exact .refl t
  | cons p rest ih =>
    rw [makeEach]
    cases h : t.makeDirectory p with
    | ok t₁ => exact (makeDirectory_sameData h).trans (ih t₁)
    | error e =>
      dsimp only
      split
      · exact ih t
      · exact .refl t

/-- **Making directories changes no contents**, also where it fails in the middle. -/
theorem makeDirectories_sameData (t : FileTree) (p : Path) : t.SameData (t.makeDirectories p).1 := by
  unfold makeDirectories
  split
  · exact .refl t
  · exact t.makeEach_sameData _

/-- A file that was opened for writing is empty. -/
theorem dataAt_of_create {p : Path} {l : Location} (h : t.create p = .ok (l, t')) {bs : Bytes}
    (hl : t'.dataAt l = some bs) : bs = [] := by
  cases creates_of_create h with
  | emptied hf _ =>
    rw [dataAt_of_lookup (lookup_put_self (ne_nil_of_lookup_file (lookup_of_find hf)) t _)] at hl
    exact (Option.some.inj hl).symm
  | device hf =>
    cases find_fits hf with
    | device hdevice => simp [dataAt, hdevice] at hl
  | made _ _ =>
    rw [dataAt_of_lookup (lookup_put_self (by simp) t _)] at hl
    exact (Option.some.inj hl).symm

/-- What is written is what a file holds, and nothing is written to a device. -/
theorem dataAt_of_write {l : Location} {data bs : Bytes} (h : (t.write l data).dataAt l = some bs) :
    bs = data := by
  cases hl : t.lookup l with
  | some node =>
    cases node with
    | file f =>
      rw [dataAt_of_lookup (lookup_write_self hl data)] at h
      exact (Option.some.inj h).symm
    | directory w => simp [write, dataAt, hl] at h
    | link target => simp [write, dataAt, hl] at h
    | device => simp [write, dataAt, hl] at h
  | none => simp [write, dataAt, hl] at h

/-- **Writing a file changes no other contents.** -/
theorem ChangesAt.dataAt_eq {l m : Location} (h : ChangesAt l t t') (hm : m ≠ l) :
    t'.dataAt m = t.dataAt m :=
  dataAt_congr (h.lookup_eq m hm)

/-! ### Modes -/

/-- Every file of the first tree is one of the second, with the same mode. -/
def KeepsModes (t t' : FileTree) : Prop :=
  ∀ l f, t.lookup l = some (.file f) → ∃ g, t'.lookup l = some (.file g) ∧ g.mode = f.mode

theorem KeepsModes.trans {t₁ t₂ t₃ : FileTree} (h : t₁.KeepsModes t₂) (h' : t₂.KeepsModes t₃) :
    t₁.KeepsModes t₃ := by
  intro l f hf
  obtain ⟨g, hg, hmode⟩ := h l f hf
  obtain ⟨k, hk, hmode'⟩ := h' l g hg
  exact ⟨k, hk, hmode'.trans hmode⟩

theorem Grows.keepsModes (h : t.Grows t') : t.KeepsModes t' := fun l f hf =>
  ⟨f, h.lookup_eq l _ hf, rfl⟩

theorem KeepsModes.put {l : Location} {f g : RegularFile} (hl : t.lookup l = some (.file f))
    (hmode : g.mode = f.mode) : t.KeepsModes (t.put l (.file g)) := by
  intro m k hk
  by_cases hm : m = l
  · subst hm
    obtain rfl : k = f := by simpa [hl] using hk.symm
    exact ⟨g, lookup_put_self (ne_nil_of_lookup_file hl) t _, hmode⟩
  · exact ⟨k, by rw [lookup_put_of_ne hm, hk], rfl⟩

theorem write_keepsModes (t : FileTree) (l : Location) (data : Bytes) :
    t.KeepsModes (t.write l data) := by
  unfold write
  split
  · rename_i f hl
    exact .put hl rfl
  · exact (Grows.refl t).keepsModes

/-- **Opening a file for writing** keeps the modes of all files, and a new file can be read. -/
theorem create_keepsModes {p : Path} {l : Location} (h : t.create p = .ok (l, t')) :
    t.KeepsModes t' ∧
      ∀ g, t'.lookup l = some (.file g) → mayRead g.mode = false →
        ∃ f, t.lookup l = some (.file f) ∧ f.mode = g.mode := by
  cases creates_of_create h with
  | @emptied _ f hf _ =>
    have hl := lookup_of_find hf
    refine ⟨.put hl rfl, fun g hg _ => ⟨f, hl, ?_⟩⟩
    rw [lookup_put_self (ne_nil_of_lookup_file hl)] at hg
    cases hg
    rfl
  | device _ => exact ⟨(Grows.refl t).keepsModes, fun g hg _ => ⟨g, hg, rfl⟩⟩
  | made hf _ =>
    cases find_fits hf with
    | vacant hl =>
      refine ⟨(Grows.put hl _).keepsModes, fun g hg hread => ?_⟩
      rw [lookup_put_self (by simp)] at hg
      cases hg
      -- The mode of a new file lets its owner read it.
      have hnew : mayRead newFileMode = true := by decide
      exact absurd (hnew.symm.trans hread) (by decide)

theorem find_of_status_file {p : Path} {f : RegularFile} (h : t.status p = .ok (.file f)) :
    ∃ l, t.find p = .ok (.existing l (.file f)) := by
  unfold status at h
  split at h
  · cases h
  · rename_i l n hfind
    cases h
    exact ⟨l, hfind⟩
  · cases h

/-- What is opened for reading is what the path leads to. -/
theorem status_of_openRead {p : Path} {node : FileNode} (h : t.openRead p = .ok node) :
    t.status p = .ok node := by
  unfold openRead at h
  split at h
  · rename_i f hstatus
    split at h
    · rw [hstatus, h]
    · cases h
  · exact h

/-- **A file is found again with its mode.** -/
theorem status_of_keepsModes {p : Path} {f : RegularFile} (ht : t.Extends t') (hm : t.KeepsModes t')
    (h : t.status p = .ok (.file f)) : ∃ g, t'.status p = .ok (.file g) ∧ g.mode = f.mode := by
  obtain ⟨l, hfind⟩ := find_of_status_file h
  obtain ⟨g, hg, hmode⟩ := hm l f (lookup_of_find hfind)
  exact ⟨g, status_of_find (find_file_of_extends ht hg hfind), hmode⟩

/-! ### Trees of the same shape -/

/-- **The trees differ at most in what their files are**: their contents, modes and times. -/
structure SameShape (t t' : FileTree) : Prop where
  current_eq : t'.current = t.current
  lookup_alike : ∀ l, t'.lookup l = t.lookup l ∨
    ∃ f g, t.lookup l = some (.file f) ∧ t'.lookup l = some (.file g)

theorem SameShape.symm (h : t.SameShape t') : t'.SameShape t where
  current_eq := h.current_eq.symm
  lookup_alike l := by
    rcases h.lookup_alike l with hl | ⟨f, g, hf, hg⟩
    · exact .inl hl.symm
    · exact .inr ⟨g, f, hg, hf⟩

theorem SameShape.extends (h : t.SameShape t') : t.Extends t' where
  current_eq := h.current_eq
  lookup_alike l n hn := by
    rcases h.lookup_alike l with hl | ⟨f, g, hf, hg⟩
    · exact .inl (hl.trans hn)
    · exact .inr ⟨f, g, Option.some.inj (hn.symm.trans hf), hg⟩

theorem SameShape.lookup_file {l : Location} {f : RegularFile} (h : t.SameShape t')
    (hf : t.lookup l = some (.file f)) : ∃ g, t'.lookup l = some (.file g) := by
  rcases h.lookup_alike l with hl | ⟨-, g, -, hg⟩
  · exact ⟨f, hl.trans hf⟩
  · exact ⟨g, hg⟩

theorem isFile_iff {p : Path} : t.isFile p = true ↔ ∃ l f, t.find p = .ok (.existing l (.file f)) := by
  constructor
  · intro h
    unfold isFile at h
    split at h
    · rename_i f hstatus
      obtain ⟨l, hl⟩ := find_of_status_file hstatus
      exact ⟨l, f, hl⟩
    · cases h
  · rintro ⟨l, f, h⟩
    rw [isFile, status_of_find h]

theorem SameShape.isFile {p : Path} (h : t.SameShape t') (hp : t.isFile p = true) :
    t'.isFile p = true := by
  obtain ⟨l, f, hfind⟩ := isFile_iff.mp hp
  obtain ⟨g, hg⟩ := h.lookup_file (lookup_of_find hfind)
  exact isFile_iff.mpr ⟨l, g, find_file_of_extends h.extends hg hfind⟩

/-- **The same paths lead to files.** -/
theorem isFile_of_sameShape (h : t.SameShape t') (p : Path) : t'.isFile p = t.isFile p :=
  Bool.eq_iff_iff.mpr ⟨h.symm.isFile, h.isFile⟩

/-- **A file that is the same in both trees** is read in the same way. -/
theorem read_of_sameShape {p : Path} {l : Location} {f : RegularFile} (h : t.SameShape t')
    (hfind : t.find p = .ok (.existing l (.file f))) (hl : t'.lookup l = t.lookup l) :
    t'.read p = t.read p := by
  have hfind' := find_file_of_extends h.extends (hl.trans (lookup_of_find hfind)) hfind
  rw [read_of_status (status_of_find hfind'), read_of_status (status_of_find hfind)]

end ReleasePublisher.FileTree
