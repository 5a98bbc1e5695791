import ReleasePublisher.Proofs.Files.Contents
import ReleasePublisher.Proofs.Files.NewDirectories

/-!
# Doing it again

Directories that are there are not made again, and a file that was written is opened as it was before: it loses
what it holds. So making directories and writing a file are repeated without a trace, as long as no time
passes.

## Main definitions

* `FileTree.IsMade t p`: the path is empty, or leads to a directory
* `FileTree.Accepts t p`: a file can be written at the path and read again

## Main results

* `FileTree.isDirectory_of_extends`: a directory is found again in a tree that was extended
* `FileTree.makeDirectories_of_isMade`: a directory that is there is not made again
* `FileTree.makeDirectories_again`: directories that were made are not made again
* `FileTree.put_of_create`: what opening a file for writing leaves
* `FileTree.create_again`: a file that was written is opened as before
* `FileTree.accepts_iff`: where a file can be written and read again
-/

namespace ReleasePublisher.FileTree

variable {t t' t₁ t₂ : FileTree} {p : Path}

/-! ### Directories that are found -/

/-- **Names that lead to a directory** still do so in a tree that was extended. -/
theorem Leads.directory_of_extends {follow w : Bool} {links : Nat} {here l : Location} {names : List Bytes}
    (ht : t.Extends t') (h : Leads t follow links here names (.existing l (.directory w))) :
    ∃ w', Leads t' follow links here names (.existing l (.directory w')) := by
  generalize hr : Found.existing l (.directory w) = r at h
  induction h with
  | @arrived links here =>
    obtain ⟨w', hw'⟩ := t'.directoryAt_eq here
    obtain ⟨rfl, -⟩ := Found.existing.inj hr
    exact ⟨w', hw' ▸ .arrived⟩
  | stay _ ih => exact (ih hr).imp fun _ h => .stay h
  | up _ ih => exact (ih hr).imp fun _ h => .up h
  | enter hname hl _ ih => exact (ih hr).imp fun _ h => .enter hname (ht.lookup_eq hl (by simp)) h
  | jump hname hl hrest htarget _ ih =>
    exact (ih hr).imp fun _ h => .jump hname (ht.lookup_eq hl (by simp)) hrest htarget h
  | link | file | device | free => cases hr

theorem isDirectory_iff : t.isDirectory p = true ↔ ∃ l w, t.find p = .ok (.existing l (.directory w)) := by
  constructor
  · intro h
    unfold isDirectory status at h
    split at h
    · rename_i w hstatus
      split at hstatus
      · cases hstatus
      · rename_i l n hfind
        cases hstatus
        exact ⟨l, w, hfind⟩
      · cases hstatus
    · cases h
  · rintro ⟨l, w, hfind⟩
    rw [isDirectory, status_of_find hfind]

/-- **A directory is found again** in a tree that was extended. -/
theorem isDirectory_of_extends (ht : t.Extends t') (h : t.isDirectory p = true) : t'.isDirectory p = true := by
  obtain ⟨l, w, hfind⟩ := isDirectory_iff.mp h
  obtain ⟨hzero, hempty, hlength, here, hhere, hleads⟩ := findNames_eq_ok_iff.mp hfind
  obtain ⟨w', hleads'⟩ := hleads.directory_of_extends ht
  rw [← ht.current_eq] at hhere
  exact isDirectory_iff.mpr
    ⟨l, w', findNames_eq_ok_iff.mpr ⟨hzero, hempty, hlength, here, hhere, hleads'⟩⟩

/-- A slash behind the name of a directory can be left out. -/
theorem Leads.of_trailing {links : Nat} {here l : Location} {names all : List Bytes} {w : Bool}
    (h : Leads t true links here all (.existing l (.directory w))) (hall : all = names ++ [[Path.dot]]) :
    Leads t true links here names (.existing l (.directory w)) := by
  generalize hr : Found.existing l (.directory w) = r at h
  induction h generalizing names with
  | arrived => simp at hall
  | stay h ih =>
    cases names with
    | nil =>
      obtain ⟨-, rfl⟩ := List.cons.inj hall
      exact h
    | cons name rest =>
      obtain ⟨rfl, rfl⟩ := List.cons.inj hall
      exact .stay (ih rfl hr)
  | up h ih =>
    cases names with
    | nil => cases hall
    | cons name rest =>
      obtain ⟨rfl, rfl⟩ := List.cons.inj hall
      exact .up (ih rfl hr)
  | enter hname hl h ih =>
    cases names with
    | nil => exact absurd (List.cons.inj hall).1 hname.ne_dot
    | cons name rest =>
      obtain ⟨rfl, rfl⟩ := List.cons.inj hall
      exact .enter hname hl (ih rfl hr)
  | jump hname hl _ htarget h ih =>
    cases names with
    | nil => exact absurd (List.cons.inj hall).1 hname.ne_dot
    | cons name rest =>
      obtain ⟨rfl, rfl⟩ := List.cons.inj hall
      exact .jump hname hl (fun _ => rfl) htarget (ih (List.append_assoc _ _ _).symm hr)
  | link | file | device | free => cases hr

/-- Names that lead to a directory lead to what exists, also where a link at their end is not followed. -/
theorem Leads.unfollowed {links : Nat} {here l : Location} {names : List Bytes} {w : Bool}
    (h : Leads t true links here names (.existing l (.directory w))) :
    ∃ m n, Leads t false links here names (.existing m n) := by
  generalize hr : Found.existing l (.directory w) = r at h
  induction h with
  | arrived => exact ⟨_, _, .arrived⟩
  | stay _ ih =>
    obtain ⟨m, n, h⟩ := ih hr
    exact ⟨m, n, .stay h⟩
  | up _ ih =>
    obtain ⟨m, n, h⟩ := ih hr
    exact ⟨m, n, .up h⟩
  | enter hname hl _ ih =>
    obtain ⟨m, n, h⟩ := ih hr
    exact ⟨m, n, .enter hname hl h⟩
  | @jump links here name rest target r hname hl _ htarget _ ih =>
    cases rest with
    | nil => exact ⟨_, _, .link hname hl rfl⟩
    | cons next rest =>
      obtain ⟨m, n, h⟩ := ih hr
      exact ⟨m, n, .jump hname hl (fun hnil => absurd hnil (List.cons_ne_nil _ _)) htarget h⟩
  | link | file | device | free => cases hr

/-! ### Directories that are made again -/

/-- **A directory that is there** cannot be made. -/
theorem makeDirectory_of_isDirectory (h : t.isDirectory p = true) :
    t.makeDirectory p = .error (.os .alreadyExists) := by
  obtain ⟨l, w, hfind⟩ := isDirectory_iff.mp h
  obtain ⟨hzero, hempty, hlength, here, hhere, hleads⟩ := findNames_eq_ok_iff.mp hfind
  have hnames : Leads t true maxLinks here p.names (.existing l (.directory w)) := by
    unfold steps at hleads
    dsimp only at hleads
    split at hleads
    · exact hleads.of_trailing rfl
    · exact hleads
  obtain ⟨m, n, hexisting⟩ := hnames.unfollowed
  rw [makeDirectory, findNames_eq_ok_iff.mpr ⟨hzero, hempty, hlength, here, hhere, hexisting⟩]

/-- The path is empty, or leads to a directory. -/
def IsMade (t : FileTree) (p : Path) : Prop :=
  p.bytes = [] ∨ t.isDirectory p = true

/-- **A directory that is there is not made again.** -/
theorem makeDirectories_of_isMade (h : t.IsMade p) : t.makeDirectories p = (t, .ok ()) := by
  have hmissing : t.missingDirectories (p.names.length + 1) p [] = .ok [] := by
    rw [missingDirectories]
    rcases h with hempty | hdirectory
    · rw [if_pos (List.isEmpty_iff.mpr hempty)]
    · split
      · rfl
      · rw [makeDirectory_of_isDirectory hdirectory]
        rfl
  rw [makeDirectories, hmissing]
  rfl

/-- Directories that are known to be missing stay in the list. -/
theorem isSuffix_of_missingDirectories {fuel : Nat} {missing ps : List Path}
    (h : t.missingDirectories fuel p missing = .ok ps) : missing <:+ ps := by
  induction fuel generalizing p missing with
  | zero =>
    obtain rfl := Except.ok.inj h
    exact List.suffix_rfl
  | succ fuel ih =>
    rw [missingDirectories] at h
    dsimp only at h
    split at h
    · obtain rfl := Except.ok.inj h
      exact List.suffix_rfl
    split at h
    · obtain rfl := Except.ok.inj h
      exact List.suffix_cons p missing
    split at h
    · split at h
      · obtain rfl := Except.ok.inj h
        exact List.suffix_cons p missing
      · exact (List.suffix_cons p missing).trans (ih h)
    split at h
    · obtain rfl := Except.ok.inj h
      exact List.suffix_rfl
    · cases h

/-- **The directories that are missing** for a path end with it, unless it is there. -/
theorem missingDirectories_cases {fuel : Nat} {ps : List Path}
    (h : t.missingDirectories (fuel + 1) p [] = .ok ps) : ps = [] ∧ t.IsMade p ∨ [p] <:+ ps := by
  rw [missingDirectories] at h
  dsimp only at h
  split at h
  · rename_i hempty
    obtain rfl := Except.ok.inj h
    exact .inl ⟨rfl, .inl (List.isEmpty_iff.mp hempty)⟩
  split at h
  · obtain rfl := Except.ok.inj h
    exact .inr List.suffix_rfl
  split at h
  · split at h
    · obtain rfl := Except.ok.inj h
      exact .inr List.suffix_rfl
    · exact .inr (isSuffix_of_missingDirectories h)
  split at h
  · rename_i hdirectory
    obtain rfl := Except.ok.inj h
    exact .inl ⟨rfl, .inr hdirectory⟩
  · cases h

/-- Where one directory after the other was made, the last one is there. -/
theorem isDirectory_of_makeEach {front : List Path} (h : t.makeEach (front ++ [p]) = (t', .ok ())) :
    t'.isDirectory p = true := by
  induction front generalizing t with
  | nil =>
    rw [List.nil_append, makeEach] at h
    split at h
    · rename_i hmade
      rw [makeEach] at h
      obtain ⟨rfl, -⟩ := Prod.mk.inj h
      obtain ⟨r, hfind, hfree, rfl⟩ := makeDirectory_eq_ok hmade
      have hne : r.location ≠ [] := ne_nil_of_lookup (t := t) (by simp [hfree])
      exact isDirectory_iff.mpr
        ⟨_, _, find_directory (Grows.put hfree _).extends (lookup_put_self hne t .folder) hfind⟩
    · split at h
      · rename_i hdirectory
        rw [makeEach] at h
        obtain ⟨rfl, -⟩ := Prod.mk.inj h
        exact hdirectory
      · cases h
  | cons q front ih =>
    rw [List.cons_append, makeEach] at h
    split at h
    · exact ih h
    · split at h
      · exact ih h
      · cases h

/-- **Directories that were made are there.** -/
theorem isMade_of_makeDirectories (h : t.makeDirectories p = (t', .ok ())) : t'.IsMade p := by
  unfold makeDirectories at h
  split at h
  · cases h
  · rename_i missing hmissing
    obtain ⟨rfl, hmade⟩ | ⟨front, rfl⟩ := missingDirectories_cases hmissing
    · cases h
      exact hmade
    · exact .inr (isDirectory_of_makeEach h)

/-- **Directories that were made are not made again.** -/
theorem makeDirectories_again (h : t.makeDirectories p = (t₁, .ok ())) (ht : t₁.Extends t₂) :
    t₂.makeDirectories p = (t₂, .ok ()) := by
  obtain hempty | hdirectory := isMade_of_makeDirectories h
  · exact makeDirectories_of_isMade (.inl hempty)
  · exact makeDirectories_of_isMade (.inr (isDirectory_of_extends ht hdirectory))

/-! ### Files that are written again -/

/-- What is put again takes the place of what was put before. -/
theorem put_put (t : FileTree) (l : Location) (m n : FileNode) : (t.put l m).put l n = t.put l n := by
  simp [put]

theorem create_now {l : Location} (h : t.create p = .ok (l, t₁)) : t₁.now = t.now := by
  cases creates_of_create h <;> rfl

/-- **A file that was opened for writing** is empty, takes what is written, and is all that changed. -/
theorem put_of_create {l : Location} {f : RegularFile} (h : t.create p = .ok (l, t₁))
    (hl : t₁.lookup l = some (.file f)) :
    f.data = [] ∧ f.modified = t.now ∧ mayWrite f.mode = true ∧ t₁ = t.put l (.file f) := by
  cases creates_of_create h with
  | emptied hfind hwrite =>
    rw [lookup_put_self (ne_nil_of_lookup_file (lookup_of_find hfind))] at hl
    cases hl
    exact ⟨rfl, rfl, hwrite, rfl⟩
  | device hfind =>
    cases find_fits hfind with
    | device hdevice => cases hdevice.symm.trans hl
  | made hfind htakes =>
    rw [lookup_put_self (by simp)] at hl
    cases hl
    exact ⟨rfl, rfl, (by decide : mayWrite newFileMode = true), rfl⟩

/-- **What was written is found again** in the file that was opened. -/
theorem find_of_written_file {l : Location} {f : RegularFile} (h : t.create p = .ok (l, t₁))
    (hl : t₁.lookup l = some (.file f)) (data : Bytes) :
    (t₁.write l data).find p = .ok (.existing l (.file { f with data := data, modified := t₁.now })) := by
  obtain ⟨g, -, hfind⟩ := find_of_create h (by simp [hl]) data
  have hg := (lookup_write_self hl data).symm.trans (lookup_of_find hfind)
  cases hg
  exact hfind

/-- **A file that was written is opened as before**: it loses what was written. -/
theorem create_again {l : Location} {f : RegularFile} (h : t.create p = .ok (l, t₁))
    (hl : t₁.lookup l = some (.file f)) (data : Bytes) : (t₁.write l data).create p = .ok (l, t₁) := by
  obtain ⟨hempty, hmodified, hwrite, hput⟩ := put_of_create h hl
  have hwritten : t₁.write l data = t₁.put l (.file { f with data := data, modified := t₁.now }) := by
    rw [write, hl]
  have hsame : { f with data := [], modified := t.now } = f := by rw [← hempty, ← hmodified]
  rw [create, find_of_written_file h hl data]
  dsimp only
  rw [if_pos hwrite, hwritten, put_put]
  show Except.ok (l, t₁.put l (.file { f with data := [], modified := t₁.now })) = _
  rw [create_now h, hsame, hput, put_put]

/-! ### Files that can be written and read again -/

/-- What is read depends on what the path leads to. -/
theorem read_of_status_eq (h : t'.status p = t.status p) : t'.read p = t.read p := by
  rw [read, read, openRead, openRead, h]

/-- **A path takes a file** that can be read again: one is there that may be written and read, or there is room
for a new one. -/
inductive Accepts (t : FileTree) (p : Path) : Prop
  | file {l : Location} {f : RegularFile} (h : t.find p = .ok (.existing l (.file f)))
      (hread : mayRead f.mode = true) (hwrite : mayWrite f.mode = true)
  | free {directory : Location} {name : Bytes} (h : t.find p = .ok (.vacant directory name))
      (htakes : t.takesEntry directory = true)

/-- **Where a path takes a file**, one is opened for writing that can be read again. -/
theorem accepts_iff : t.Accepts p ↔
    ∃ l t₁ f, t.create p = .ok (l, t₁) ∧ t₁.lookup l = some (.file f) ∧ mayRead f.mode = true := by
  constructor
  · rintro (@⟨l, f, hfind, hread, hwrite⟩ | @⟨directory, name, hfind, htakes⟩)
    · have hcreate : t.create p = .ok (l, t.put l (.file { f with data := [], modified := t.now })) := by
        rw [create, hfind]
        exact if_pos hwrite
      exact ⟨_, _, _, hcreate, lookup_put_self (ne_nil_of_lookup_file (lookup_of_find hfind)) t _, hread⟩
    · have hcreate : t.create p = .ok (directory ++ [name],
          t.put (directory ++ [name]) (.file ⟨[], newFileMode, t.now⟩)) := by
        rw [create, hfind]
        exact if_pos htakes
      exact ⟨_, _, _, hcreate, lookup_put_self (by simp) t _, (by decide : mayRead newFileMode = true)⟩
  · rintro ⟨l, t₁, f, h, hl, hread⟩
    cases creates_of_create h with
    | emptied hfind hwrite =>
      rw [lookup_put_self (ne_nil_of_lookup_file (lookup_of_find hfind))] at hl
      cases hl
      exact .file hfind hread hwrite
    | device hfind =>
      cases find_fits hfind with
      | device hdevice => cases hdevice.symm.trans hl
    | made hfind htakes => exact .free hfind htakes

end ReleasePublisher.FileTree
