import ReleasePublisher.Proofs.Files.Walk

/-!
# Growing trees of files

Making directories and files adds nodes to a tree, and writing changes the contents of one file. What
a path led to is not lost by that: the walk takes the same directories and links as before.

## Main definitions

* `FileTree.Grows t t'`: every node stays what it is
* `FileTree.Extends t t'`: every node stays what it is, but the contents of files
* `FileTree.ChangesAt l t t'`: only the file at `l` may have changed, or be new
* `FileTree.SameFile t p q`: two paths lead to one node
* `FileTree.Creates t p l t'`: opening `p` for writing leads to the file at `l` and from `t` to `t'`

## Main results

* `FileTree.Leads.of_extends`, `FileTree.find_of_extends`: a walk finds its way in a tree that was
  extended
* `FileTree.makeDirectory_eq_ok`: what making a directory does
* `FileTree.makeDirectories_grows`: making directories changes no node that there is
* `FileTree.creates_of_create`: what opening a file for writing does
* `FileTree.create_changesAt`, `FileTree.write_changesAt`: writing a file changes nothing else
* `FileTree.find_of_create`: what was written is found again
-/

namespace ReleasePublisher

namespace FileTree

/-! ### Nodes that are put -/

@[simp] theorem lookup_nil (t : FileTree) : t.lookup [] = some (.directory false) := rfl

theorem lookup_put_self {l : Location} (hl : l ≠ []) (t : FileTree) (n : FileNode) :
    (t.put l n).lookup l = some n := by
  simp [lookup, put, hl]

theorem lookup_put_of_ne {l m : Location} (h : m ≠ l) (t : FileTree) (n : FileNode) :
    (t.put l n).lookup m = t.lookup m := by
  have hl : (l == m) = false := by simpa using Ne.symm h
  have hp : ∀ a : Location × FileNode, (a.1 != l ∧ a.1 == m) ↔ a.1 == m := by
    intro a
    constructor
    · exact And.right
    · intro ha
      exact ⟨by simpa [eq_of_beq ha] using h, ha⟩
  simp only [lookup, put, List.find?_cons, hl, List.find?_filter, hp, Bool.decide_eq_true]

theorem ne_nil_of_lookup {t : FileTree} {l : Location}
    (h : t.lookup l ≠ some (.directory false)) : l ≠ [] := by
  rintro rfl
  exact h rfl

/-! ### Trees that grow -/

/-- The second tree has every node of the first one. -/
structure Grows (t t' : FileTree) : Prop where
  current_eq : t'.current = t.current
  lookup_eq : ∀ l n, t.lookup l = some n → t'.lookup l = some n

theorem Grows.refl (t : FileTree) : t.Grows t := ⟨rfl, fun _ _ h => h⟩

theorem Grows.trans {t₁ t₂ t₃ : FileTree} (h : t₁.Grows t₂) (h' : t₂.Grows t₃) : t₁.Grows t₃ :=
  ⟨h'.current_eq.trans h.current_eq, fun l n hl => h'.lookup_eq l n (h.lookup_eq l n hl)⟩

theorem Grows.put {t : FileTree} {l : Location} (hl : t.lookup l = none) (n : FileNode) :
    t.Grows (t.put l n) := by
  refine ⟨rfl, fun m k hm => ?_⟩
  have hne : m ≠ l := by
    rintro rfl
    cases hl.symm.trans hm
  rw [lookup_put_of_ne hne, hm]

/-- The second tree has every node of the first one, but files may have changed. -/
structure Extends (t t' : FileTree) : Prop where
  current_eq : t'.current = t.current
  lookup_alike : ∀ l n, t.lookup l = some n →
    t'.lookup l = some n ∨ ∃ f g, n = .file f ∧ t'.lookup l = some (.file g)

theorem Grows.extends {t t' : FileTree} (h : t.Grows t') : t.Extends t' :=
  ⟨h.current_eq, fun l n hl => .inl (h.lookup_eq l n hl)⟩

theorem Extends.refl (t : FileTree) : t.Extends t := (Grows.refl t).extends

theorem Extends.trans {t₁ t₂ t₃ : FileTree} (h : t₁.Extends t₂) (h' : t₂.Extends t₃) :
    t₁.Extends t₃ := by
  refine ⟨h'.current_eq.trans h.current_eq, fun l n hl => ?_⟩
  rcases h.lookup_alike l n hl with hl' | ⟨f, g, rfl, hl'⟩
  · exact h'.lookup_alike l n hl'
  · rcases h'.lookup_alike l (.file g) hl' with hl | ⟨_, g', -, hl⟩
    · exact .inr ⟨f, g, rfl, hl⟩
    · exact .inr ⟨f, g', rfl, hl⟩

theorem Extends.put {t : FileTree} {l : Location} {f : RegularFile}
    (hl : t.lookup l = some (.file f)) (g : RegularFile) : t.Extends (t.put l (.file g)) := by
  refine ⟨rfl, fun m n hm => ?_⟩
  by_cases h : m = l
  · subst h
    have hne : m ≠ [] := ne_nil_of_lookup (t := t) (by simp [hl])
    exact .inr ⟨f, g, Option.some.inj (hm.symm.trans hl), lookup_put_self hne t _⟩
  · exact .inl (by rw [lookup_put_of_ne h, hm])

/-- Every link and directory stays what it is. -/
theorem Extends.lookup_eq {t t' : FileTree} {l : Location} {n : FileNode} (h : t.Extends t')
    (hl : t.lookup l = some n) (hn : ∀ f, n ≠ .file f) : t'.lookup l = some n := by
  rcases h.lookup_alike l n hl with hl | ⟨f, g, rfl, -⟩
  · exact hl
  · exact absurd rfl (hn f)

/-- The second tree is the first one, but for the file at a location. -/
structure ChangesAt (l : Location) (t t' : FileTree) : Prop where
  extended : t.Extends t'
  lookup_eq : ∀ m, m ≠ l → t'.lookup m = t.lookup m

theorem ChangesAt.trans {l : Location} {t₁ t₂ t₃ : FileTree} (h : ChangesAt l t₁ t₂)
    (h' : ChangesAt l t₂ t₃) : ChangesAt l t₁ t₃ where
  extended := h.extended.trans h'.extended
  lookup_eq m hm := (h'.lookup_eq m hm).trans (h.lookup_eq m hm)

/-! ### Walks through trees that were extended -/

section Extends

variable {t t' : FileTree} {follow : Bool} {r : Found} {g : RegularFile}

/-- The same names are taken; only the file at the end may be another one. -/
theorem Leads.of_extends {links : Nat} {here : Location} {names : List Bytes} (ht : t.Extends t')
    (hr : ∀ l w, r ≠ .existing l (.directory w)) (hg : t'.lookup r.location = some (.file g))
    (h : Leads t follow links here names r) :
    Leads t' follow links here names (.existing r.location (.file g)) := by
  induction h with
  | @arrived links here =>
    obtain ⟨w, hw⟩ := t.directoryAt_eq here
    exact absurd (congrArg (Found.existing here) hw) (hr here w)
  | stay _ ih => exact .stay (ih hr hg)
  | up _ ih => exact .up (ih hr hg)
  | enter hname hl _ ih => exact .enter hname (ht.lookup_eq hl (by simp)) (ih hr hg)
  | jump hname hl hrest htarget _ ih =>
    exact .jump hname (ht.lookup_eq hl (by simp)) hrest htarget (ih hr hg)
  | link _ hl _ => cases (ht.lookup_eq hl (by simp)).symm.trans hg
  | device _ hl => cases (ht.lookup_eq hl (by simp)).symm.trans hg
  | file hname _ => exact .file hname hg
  -- The free name has become a file.
  | free hname _ => exact .file hname hg

/-- **A walk finds its way in a tree that was extended**: what led to a file, or to a name that was free
and is now that of a file, leads to the file there. -/
theorem find_of_extends {p : Path} (ht : t.Extends t') (hr : ∀ l w, r ≠ .existing l (.directory w))
    (hg : t'.lookup r.location = some (.file g)) (h : t.find p = .ok r) :
    t'.find p = .ok (.existing r.location (.file g)) := by
  obtain ⟨hzero, hempty, hlength, here, hhere, hleads⟩ := findNames_eq_ok_iff.mp h
  rw [← ht.current_eq] at hhere
  exact findNames_eq_ok_iff.mpr ⟨hzero, hempty, hlength, here, hhere, hleads.of_extends ht hr hg⟩

/-- The case of a path that led to a file before. -/
theorem find_file_of_extends {p : Path} {l : Location} {f : RegularFile} (ht : t.Extends t')
    (hg : t'.lookup l = some (.file g)) (h : t.find p = .ok (.existing l (.file f))) :
    t'.find p = .ok (.existing l (.file g)) :=
  find_of_extends (r := .existing l (.file f)) ht (by simp) hg h

end Extends

/-! ### Making directories and files -/

/-- **A directory was made** at the free name that a path leads to, and nothing else changed. -/
theorem makeDirectory_eq_ok {t t' : FileTree} {p : Path} (h : t.makeDirectory p = .ok t') :
    ∃ r, t.findNames false p p.names = .ok r ∧ t.lookup r.location = none ∧ t' = t.put r.location .folder := by
  unfold makeDirectory at h
  split at h
  · cases h
  · cases h
  · rename_i directory name hfind
    split at h
    · obtain rfl := Except.ok.inj h
      cases findNames_fits hfind with
      | vacant hl => exact ⟨_, hfind, hl, rfl⟩
    · cases h

theorem makeDirectory_grows {t t' : FileTree} {p : Path} (h : t.makeDirectory p = .ok t') :
    t.Grows t' := by
  obtain ⟨r, -, hfree, rfl⟩ := makeDirectory_eq_ok h
  exact Grows.put hfree _

theorem makeEach_grows (t : FileTree) (ps : List Path) : t.Grows (t.makeEach ps).1 := by
  induction ps generalizing t with
  | nil => exact Grows.refl t
  | cons p rest ih =>
    rw [makeEach]
    cases h : t.makeDirectory p with
    | ok t₁ => exact (makeDirectory_grows h).trans (ih t₁)
    | error e =>
      dsimp only
      split
      · exact ih t
      · exact Grows.refl t

/-- **Making directories** changes no node that there is. -/
theorem makeDirectories_grows (t : FileTree) (p : Path) : t.Grows (t.makeDirectories p).1 := by
  unfold makeDirectories
  split
  · exact Grows.refl t
  · exact t.makeEach_grows _

/-- **Opening a file for writing** empties one that is there, or makes one; a device stays as it is. -/
inductive Creates (t : FileTree) (p : Path) : Location → FileTree → Prop
  | emptied {l : Location} {f : RegularFile} : t.find p = .ok (.existing l (.file f)) →
      mayWrite f.mode = true →
      Creates t p l (t.put l (.file { f with data := [], modified := t.now }))
  | device {l : Location} : t.find p = .ok (.existing l .device) → Creates t p l t
  | made {directory : Location} {name : Bytes} : t.find p = .ok (.vacant directory name) →
      t.takesEntry directory = true →
      Creates t p (directory ++ [name])
        (t.put (directory ++ [name]) (.file ⟨[], newFileMode, t.now⟩))

/-- Opening a file for writing does nothing else. -/
theorem creates_of_create {t t' : FileTree} {p : Path} {l : Location} (h : t.create p = .ok (l, t')) :
    Creates t p l t' := by
  unfold create at h
  split at h
  · cases h
  · rename_i hf
    split at h
    · rename_i hwrite
      cases h
      exact .emptied hf hwrite
    · cases h
  · cases h
  · rename_i hfile hdirectory hf
    cases h
    cases find_fits hf with
    | file => exact (hfile _ rfl).elim
    | directory => exact (hdirectory _ rfl).elim
    | device => exact .device hf
    | link hfollow => cases hfollow
  · rename_i hf
    split at h
    · rename_i htakes
      cases h
      exact .made hf htakes
    · cases h

/-- **Opening a file for writing** leaves a file there, or finds a device. -/
theorem create_cases {t t' : FileTree} {p : Path} {l : Location} (h : t.create p = .ok (l, t')) :
    (t' = t ∧ t.lookup l = some .device) ∨
    ∃ r g, t.find p = .ok r ∧ r.location = l ∧ (∀ m w, r ≠ .existing m (.directory w)) ∧
      t'.lookup l = some (.file g) ∧ ChangesAt l t t' := by
  cases creates_of_create h with
  | emptied hf =>
    cases find_fits hf with
    | file hl =>
      have hne : l ≠ [] := ne_nil_of_lookup (t := t) (by simp [hl])
      exact .inr ⟨_, _, hf, rfl, by simp, lookup_put_self hne t _,
        Extends.put hl _, fun _ h => lookup_put_of_ne h t _⟩
  | device hf =>
    cases find_fits hf with
    | device hl => exact .inl ⟨rfl, hl⟩
  | made hf =>
    cases find_fits hf with
    | vacant hl =>
      exact .inr ⟨_, _, hf, rfl, by simp, lookup_put_self (by simp) t _,
        (Grows.put hl _).extends, fun _ h => lookup_put_of_ne h t _⟩

theorem create_changesAt {t t' : FileTree} {p : Path} {l : Location}
    (h : t.create p = .ok (l, t')) : ChangesAt l t t' := by
  rcases create_cases h with ⟨rfl, -⟩ | ⟨-, -, -, -, -, -, hc⟩
  · exact ⟨Extends.refl t', fun _ _ => rfl⟩
  · exact hc

/-- Writing to a file changes its contents. -/
theorem lookup_write_self {t : FileTree} {l : Location} {f : RegularFile}
    (h : t.lookup l = some (.file f)) (data : Bytes) :
    (t.write l data).lookup l = some (.file { f with data := data, modified := t.now }) := by
  have hne : l ≠ [] := ne_nil_of_lookup (t := t) (by simp [h])
  rw [write, h]
  exact lookup_put_self hne t _

theorem write_changesAt (t : FileTree) (l : Location) (data : Bytes) :
    ChangesAt l t (t.write l data) := by
  unfold write
  split
  · rename_i f hl
    exact ⟨Extends.put hl _, fun _ h => lookup_put_of_ne h t _⟩
  · exact ⟨Extends.refl t, fun _ _ => rfl⟩

/-- **What was written is found again**, unless it was written to a device. -/
theorem find_of_create {t t' : FileTree} {p : Path} {l : Location} (h : t.create p = .ok (l, t'))
    (hl : t'.lookup l ≠ some .device) (data : Bytes) :
    ∃ g, g.data = data ∧ (t'.write l data).find p = .ok (.existing l (.file g)) := by
  rcases create_cases h with ⟨rfl, hdevice⟩ | ⟨r, f, hf, rfl, hr, hmade, hc⟩
  · exact absurd hdevice hl
  · have hall := hc.trans (t'.write_changesAt r.location data)
    exact ⟨_, rfl, find_of_extends hall.extended hr (lookup_write_self hmade data) hf⟩

/-! ### Paths and files -/

/-- Two paths lead to one node. -/
def SameFile (t : FileTree) (p q : Path) : Prop :=
  ∃ l n m, t.find p = .ok (.existing l n) ∧ t.find q = .ok (.existing l m)

theorem status_of_find {t : FileTree} {p : Path} {l : Location} {n : FileNode}
    (h : t.find p = .ok (.existing l n)) : t.status p = .ok n := by
  rw [status, h]

/-- Reading a file fails only for want of permission. -/
theorem read_of_status {t : FileTree} {p : Path} {f : RegularFile}
    (h : t.status p = .ok (.file f)) :
    t.read p = if mayRead f.mode then .ok f.data else .error (.os .noAccess) := by
  rw [read, openRead, h]
  dsimp only
  split <;> rfl

/-- A path that leads to a file leads to the one at its location. -/
theorem lookup_of_find {t : FileTree} {p : Path} {l : Location} {f : RegularFile}
    (h : t.find p = .ok (.existing l (.file f))) : t.lookup l = some (.file f) := by
  cases find_fits h with
  | file hl => exact hl

/-- **A file that did not change is found again.** -/
theorem ChangesAt.find_eq {l m : Location} {t t' : FileTree} {p : Path} {f : RegularFile}
    (h : ChangesAt l t t') (hm : m ≠ l) (hf : t.find p = .ok (.existing m (.file f))) :
    t'.find p = .ok (.existing m (.file f)) :=
  find_file_of_extends h.extended ((h.lookup_eq m hm).trans (lookup_of_find hf)) hf

end FileTree

end ReleasePublisher
