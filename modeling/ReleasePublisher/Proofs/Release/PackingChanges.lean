import ReleasePublisher.Proofs.Files.NewDirectories
import ReleasePublisher.Proofs.Release.Remnants

/-!
# What packing changes

Packing makes the directories that are missing for the output, and writes the output. However it ends, and
wherever it stops: nothing else in the tree of files changes.

## Main definitions

* `PackSteps c t t'`: how far packing may come, from the files `t` to the files `t'`
* `ChangesOutput c t t'`: only the output and directories on its way differ between `t` and `t'`

## Main results

* `package_steps`: packing comes to one of its steps
* `FileTree.find_of_written`: what writing a file changes is the file that the path leads to
* `package_changesOutput`: packing changes only its own output
-/

namespace ReleasePublisher

open FileTree

variable {c : Config} {t t' t₁ : FileTree} {s s' : Surroundings}

/-! ### Steps on the files -/

/-- **How far packing comes**: it leaves the files as they are, it makes directories, or it goes on to write the
archive. Each of the steps may have failed. -/
inductive PackSteps [Gzip.Writer] (c : Config) (t : FileTree) : FileTree → Prop
  | refused : PackSteps c t t
  | made {t₁ : FileTree} {r : Except IoError Unit} : t.makeDirectories c.outputDir = (t₁, r) →
      PackSteps c t t₁
  | written {t₁ t' : FileTree} {r : Except IoError Unit} : t.makeDirectories c.outputDir = (t₁, .ok ()) →
      writeArchive t₁ (Layout.ofConfig c) = (t', r) → PackSteps c t t'

/-- **Packing comes to one of its steps**, whatever its outcome. -/
theorem package_steps [Gzip.Writer] {r : Except Failure PackagedArchive} (h : package c s = (r, s')) :
    PackSteps c s.files s'.files := by
  cases r with
  | ok a =>
    obtain ⟨-, ⟨t₁, hmade, hwritten⟩, -, -⟩ := package_ok h
    exact .written hmade hwritten
  | error e =>
    have hfails := package_error h
    generalize s'.files = t' at hfails
    cases hfails with
    | refused _ => exact .refused
    | unmade _ hmade => exact .made hmade
    | unwritten _ hmade hwritten => exact .written hmade hwritten
    | unread _ hmade hwritten _ => exact .written hmade hwritten

/-! ### The file that is written -/

/-- **What writing a file changes** is the file that the path leads to: one that is new, or one that keeps its
mode. -/
theorem FileTree.find_of_written {p : Path} {out l : Location} {data : Bytes}
    (h : t.create p = .ok (out, t₁)) (hl : (t₁.write out data).lookup l ≠ t.lookup l) :
    ∃ g, (t₁.write out data).find p = .ok (.existing l (.file g)) ∧
      ∀ f, t.lookup l = some (.file f) → g.mode = f.mode := by
  have hchanges := (create_changesAt h).trans (t₁.write_changesAt out data)
  obtain rfl : l = out := by
    by_contra hne
    exact hl (hchanges.lookup_eq l hne)
  have hdevice : t₁.lookup l ≠ some .device := by
    intro hdevice
    rcases create_cases h with ⟨rfl, -⟩ | ⟨-, g, -, -, -, hg, -⟩
    · -- Nothing is written to a device.
      exact hl (by simp only [write, hdevice])
    · cases hg.symm.trans hdevice
  obtain ⟨g, -, hfind⟩ := find_of_create h hdevice data
  refine ⟨g, hfind, fun f hf => ?_⟩
  obtain ⟨k, hk, hmode⟩ := ((create_keepsModes h).1.trans (t₁.write_keepsModes l data)) l f hf
  obtain rfl : k = g := by simpa [lookup_of_find hfind] using hk.symm
  exact hmode

/-! ### What differs afterwards -/

/-- **Only the output differs**, and directories that were missing on its way, between the files `t` and the
files `t'`. -/
structure ChangesOutput (c : Config) (t t' : FileTree) : Prop where
  current_eq : t'.current = t.current
  /-- A directory, a link or a device stays what it is. -/
  kept : ∀ l n, t.lookup l = some n → (∀ f, n ≠ .file f) → t'.lookup l = some n
  /-- A regular file stays as it is, unless the path of the output leads to it; then it keeps its mode. -/
  files : ∀ l f, t.lookup l = some (.file f) → t'.lookup l = some (.file f) ∨
    ∃ g, t'.find (Layout.ofConfig c).output = .ok (.existing l (.file g)) ∧ g.mode = f.mode
  /-- What is new is the file to which the path of the output leads, or a directory to which the path of the
  output directory or one above it leads. -/
  new : ∀ l n, t.lookup l = none → t'.lookup l = some n →
    t'.find (Layout.ofConfig c).output = .ok (.existing l n) ∧ (∃ g, n = .file g) ∨
      n = .folder ∧ ∃ q : Path, q.IsOnPath c.outputDir ∧ t'.find q = .ok (.existing l .folder)
  /-- The binary stays as it is, unless the path of the output leads to the same file. -/
  source : ∀ f, t.status (Layout.ofConfig c).source = .ok (.file f) →
    t'.status (Layout.ofConfig c).source = .ok (.file f) ∨
      t'.SameFile (Layout.ofConfig c).source (Layout.ofConfig c).output

theorem ChangesOutput.refl (c : Config) (t : FileTree) : ChangesOutput c t t where
  current_eq := rfl
  kept _ _ hn _ := hn
  files _ _ hf := .inl hf
  new l n hold hnew := by cases hold.symm.trans hnew
  source _ hf := .inl hf

/-- **Making the directories, and then changing at most the output**, changes only the output. -/
theorem changesOutput_of_made {r : Except IoError Unit} (hmade : t.makeDirectories c.outputDir = (t₁, r))
    (ht : t₁.Extends t') (hout : ∀ l, t'.lookup l ≠ t₁.lookup l →
      ∃ g, t'.find (Layout.ofConfig c).output = .ok (.existing l (.file g)) ∧
        ∀ f, t₁.lookup l = some (.file f) → g.mode = f.mode) : ChangesOutput c t t' := by
  have hgrows := t.makeDirectories_grows c.outputDir
  rw [hmade] at hgrows
  have hfiles : ∀ l f, t.lookup l = some (.file f) → t'.lookup l = some (.file f) ∨
      ∃ g, t'.find (Layout.ofConfig c).output = .ok (.existing l (.file g)) ∧ g.mode = f.mode := by
    intro l f hf
    have hf₁ := hgrows.lookup_eq l _ hf
    by_cases hl : t'.lookup l = t₁.lookup l
    · exact .inl (hl.trans hf₁)
    · obtain ⟨g, hg, hmode⟩ := hout l hl
      exact .inr ⟨g, hg, hmode f hf₁⟩
  refine ⟨ht.current_eq.trans hgrows.current_eq,
    fun l n hn hfile => ht.lookup_eq (hgrows.lookup_eq l n hn) hfile, hfiles, fun l n hold hnew => ?_,
    fun f hf => ?_⟩
  · by_cases hl : t'.lookup l = t₁.lookup l
    · rw [hl] at hnew
      have hmade : t₁ = (t.makeDirectories c.outputDir).1 := by rw [hmade]
      rw [hmade] at ht hnew
      exact .inr (makeDirectories_new ht hold hnew)
    · obtain ⟨g, hg, -⟩ := hout l hl
      obtain rfl := Option.some.inj (hnew.symm.trans (lookup_of_find hg))
      exact .inl ⟨hg, g, rfl⟩
  · obtain ⟨l, hfind⟩ := find_of_status_file hf
    have hall := hgrows.extends.trans ht
    rcases hfiles l f (lookup_of_find hfind) with hl | ⟨g, hg, -⟩
    · exact .inl (status_of_find (find_file_of_extends hall hl hfind))
    · exact .inr ⟨l, _, _, find_file_of_extends hall (lookup_of_find hg) hfind, hg⟩

/-- **Packing changes only its own output.** Whatever the configuration and the files are, and however packing
ends: every directory, link and device stays what it is, and so does every regular file but the one to which the
path of the output leads, which keeps its mode. New are at most this file and directories to which the path of
the output directory, or one above it, leads. In particular the binary stays as it is, unless the path of the
output leads to the same file. -/
theorem package_changesOutput [Gzip.Writer] (c : Config) (s : Surroundings) :
    ChangesOutput c s.files (package c s).2.files := by
  have hsteps : PackSteps c s.files (package c s).2.files := package_steps rfl
  generalize (package c s).2.files = t' at hsteps ⊢
  cases hsteps with
  | refused => exact .refl c _
  | made hmade => exact changesOutput_of_made hmade (.refl _) fun l hl => absurd rfl hl
  | written hmade hwritten =>
    rcases writeArchive_cases hwritten with ⟨x, -, rfl⟩ | ⟨out, t₂, entries, r₁, hcreate, -, rfl, -⟩
    · exact changesOutput_of_made hmade (.refl _) fun l hl => absurd rfl hl
    · exact changesOutput_of_made hmade
        ((create_changesAt hcreate).trans (t₂.write_changesAt out _)).extended
        fun l hl => find_of_written hcreate hl

end ReleasePublisher
