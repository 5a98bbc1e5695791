import ReleasePublisher.Proofs.Files.NewDirectories

/-!
# Trees with the same links

Where a path leads depends on the symbolic links of a tree only. Directories and files decide whether a walk
comes to its end, but not where that is: two trees with the same links lead a path to the same location, if
both lead it anywhere.

## Main definitions

* `FileTree.SameLinks t t'`: both trees have the same links and the same working directory

## Main results

* `FileTree.find_location_eq`: a path leads to the same location in both trees
* `FileTree.makeDirectories_sameLinks`: making directories makes no links
* `FileTree.makeDirectories_now`: making directories takes no time
-/

namespace ReleasePublisher.FileTree

variable {t t' t₁ t₂ t₃ : FileTree} {p : Path}

/-- **Both trees have the same links**, and paths start at the same place. -/
structure SameLinks (t t' : FileTree) : Prop where
  current_eq : t'.current = t.current
  lookup_link : ∀ l target, t'.lookup l = some (.link target) ↔ t.lookup l = some (.link target)

theorem SameLinks.symm (h : t.SameLinks t') : t'.SameLinks t :=
  ⟨h.current_eq.symm, fun l target => (h.lookup_link l target).symm⟩

theorem SameLinks.trans (h : t₁.SameLinks t₂) (h' : t₂.SameLinks t₃) : t₁.SameLinks t₃ :=
  ⟨h'.current_eq.trans h.current_eq, fun l target => (h'.lookup_link l target).trans (h.lookup_link l target)⟩

/-- A file in the place of what is no link. -/
theorem SameLinks.put {l : Location} (hl : ∀ target, t.lookup l ≠ some (.link target)) (f : RegularFile) :
    t.SameLinks (t.put l (.file f)) := by
  refine ⟨rfl, fun m target => ?_⟩
  by_cases hm : m = l
  · subst hm
    by_cases hroot : m = []
    · subst hroot
      exact Iff.rfl
    · rw [lookup_put_self hroot]
      exact ⟨fun h => (by cases h), fun h => absurd h (hl target)⟩
  · rw [lookup_put_of_ne hm]

/-! ### Locations -/

/-- A single name leads to its own location, unless a link stands there that is followed. -/
theorem Leads.location_singleton {follow : Bool} {links : Nat} {here : Location} {name : Bytes} {r : Found}
    (h : Leads t follow links here [name] r) (hname : IsEntry name)
    (hlink : follow = true → ∀ target, t.lookup (here ++ [name]) ≠ some (.link target)) :
    r.location = here ++ [name] := by
  cases h with
  | stay => exact absurd rfl hname.ne_dot
  | up => exact absurd rfl hname.ne_dots
  | enter _ _ h => exact h.location_eq rfl
  | jump _ hl hfollow => exact absurd hl (hlink (hfollow rfl) _)
  | link | file | device | free => rfl

/-- **The same names lead to the same location** in trees with the same links. -/
theorem Leads.location_of_sameLinks {follow : Bool} {links : Nat} {here : Location} {names : List Bytes}
    {r r' : Found} (ht : t.SameLinks t') (h : Leads t follow links here names r)
    (h' : Leads t' follow links here names r') : r'.location = r.location := by
  induction h generalizing r' with
  | arrived => exact h'.location_eq rfl
  | stay _ ih =>
    cases h' with
    | stay h' => exact ih h'
    | enter hname | jump hname | link hname | file hname | device hname | free hname =>
      exact absurd rfl hname.ne_dot
  | up _ ih =>
    cases h' with
    | up h' => exact ih h'
    | enter hname | jump hname | link hname | file hname | device hname | free hname =>
      exact absurd rfl hname.ne_dots
  | enter hname hl h ih =>
    cases h' with
    | stay => exact absurd rfl hname.ne_dot
    | up => exact absurd rfl hname.ne_dots
    | enter _ _ h' => exact ih h'
    | jump _ hlink | link _ hlink => cases ((ht.lookup_link _ _).mp hlink).symm.trans hl
    -- The name is the last one, and the first walk has arrived there.
    | file | device | free => exact (h.location_eq rfl).symm
  | @jump links here name rest target r hname hl hrest _ _ ih =>
    have hl' := (ht.lookup_link _ _).mpr hl
    cases h' with
    | stay => exact absurd rfl hname.ne_dot
    | up => exact absurd rfl hname.ne_dots
    | enter _ hentered => cases hentered.symm.trans hl'
    | jump _ hlink _ _ h' =>
      cases hlink.symm.trans hl'
      exact ih h'
    | link _ _ hfollow => exact absurd (hrest rfl) (by simp [hfollow])
    | file _ hfile => cases hfile.symm.trans hl'
    | device _ hdevice => cases hdevice.symm.trans hl'
    | free _ hfree => cases hfree.symm.trans hl'
  | link hname _ hfollow =>
    exact h'.location_singleton hname fun htrue => by cases hfollow.symm.trans htrue
  | file hname hl | device hname hl | free hname hl =>
    refine h'.location_singleton hname fun _ target hlink => ?_
    cases ((ht.lookup_link _ _).mp hlink).symm.trans hl

/-- **A path leads to the same location** in trees with the same links. -/
theorem find_location_eq {r r' : Found} (ht : t.SameLinks t') (h : t.find p = .ok r) (h' : t'.find p = .ok r') :
    r'.location = r.location := by
  obtain ⟨-, -, -, here, hhere, hleads⟩ := findNames_eq_ok_iff.mp h
  obtain ⟨-, -, -, here', hhere', hleads'⟩ := findNames_eq_ok_iff.mp h'
  rw [ht.current_eq, hhere] at hhere'
  cases hhere'
  exact hleads.location_of_sameLinks ht hleads'

/-- What is opened for writing is what the path leads to. -/
theorem exists_find_of_create {l : Location} (h : t.create p = .ok (l, t₁)) :
    ∃ r, t.find p = .ok r ∧ r.location = l := by
  cases creates_of_create h with
  | emptied hfind | device hfind | made hfind => exact ⟨_, hfind, rfl⟩

/-! ### Making directories -/

/-- **Making directories makes no links**, also where it fails in the middle. -/
theorem makeDirectories_sameLinks (t : FileTree) (p : Path) : t.SameLinks (t.makeDirectories p).1 where
  current_eq := (t.makeDirectories_grows p).current_eq
  lookup_link l target := by
    refine ⟨fun hnew => ?_, (t.makeDirectories_grows p).lookup_eq l _⟩
    cases hold : t.lookup l with
    | none =>
      obtain ⟨hfolder, -⟩ := makeDirectories_new (Extends.refl _) hold hnew
      cases hfolder
    | some n => rw [← (t.makeDirectories_grows p).lookup_eq l n hold, hnew]

theorem makeEach_now (t : FileTree) (ps : List Path) : (t.makeEach ps).1.now = t.now := by
  induction ps generalizing t with
  | nil => rfl
  | cons p rest ih =>
    rw [makeEach]
    cases h : t.makeDirectory p with
    | ok t₁ =>
      obtain ⟨r, -, -, rfl⟩ := makeDirectory_eq_ok h
      exact ih _
    | error e =>
      dsimp only
      split
      · exact ih t
      · rfl

/-- **Making directories takes no time.** -/
theorem makeDirectories_now (t : FileTree) (p : Path) : (t.makeDirectories p).1.now = t.now := by
  unfold makeDirectories
  split
  · rfl
  · exact t.makeEach_now _

end ReleasePublisher.FileTree
