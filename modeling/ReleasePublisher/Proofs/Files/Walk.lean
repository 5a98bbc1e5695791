import ReleasePublisher.Files.Tree

/-!
# Where a path leads

A walk takes one name after the other: it stays, goes up, enters a directory, or goes on where a link
leads. What it finds is what the tree holds at its last name.

## Main definitions

* `FileTree.IsEntry name`: a name that a directory can hold
* `FileTree.Leads t follow links here names r`: the names lead from `here` to `r`
* `Found.Fits t follow r`: `r` is what the tree holds

## Main results

* `FileTree.walk_eq_ok_iff`: a walk finds what the names lead to
* `FileTree.Leads.fits`, `FileTree.find_fits`: what is found is what the tree holds
* `FileTree.findNames_eq_ok_iff`: where a path leads
-/

namespace ReleasePublisher

/-- The location that a walk has led to. -/
def Found.location : Found → Location
  | existing l _ => l
  | vacant directory name => directory ++ [name]

namespace FileTree

/-- A name that a directory can hold. -/
structure IsEntry (name : Bytes) : Prop where
  ne_dot : name ≠ [Path.dot]
  ne_dots : name ≠ [Path.dot, Path.dot]
  length_le : name.length ≤ 255

theorem directoryAt_eq (t : FileTree) (l : Location) : ∃ w, t.directoryAt l = .directory w := by
  unfold directoryAt
  split
  · exact ⟨_, rfl⟩
  · exact ⟨true, rfl⟩

/-! ### Walks as steps -/

/-- **The names lead from a location to `r`**, through at most `links` symbolic links. -/
inductive Leads (t : FileTree) (follow : Bool) : Nat → Location → List Bytes → Found → Prop
  | arrived {links here} : Leads t follow links here [] (.existing here (t.directoryAt here))
  | stay {links here rest r} : Leads t follow links here rest r →
      Leads t follow links here ([Path.dot] :: rest) r
  | up {links here rest r} : Leads t follow links here.dropLast rest r →
      Leads t follow links here ([Path.dot, Path.dot] :: rest) r
  | enter {links here name rest w r} : IsEntry name →
      t.lookup (here ++ [name]) = some (.directory w) →
      Leads t follow links (here ++ [name]) rest r → Leads t follow links here (name :: rest) r
  /-- A link leads on from the directory that holds it. -/
  | jump {links here name rest target r} : IsEntry name →
      t.lookup (here ++ [name]) = some (.link target) → (rest = [] → follow = true) → target ≠ [] →
      Leads t follow links (if Path.isAbsolute ⟨target⟩ then [] else here) (steps target ++ rest) r →
      Leads t follow (links + 1) here (name :: rest) r
  | link {links here name target} : IsEntry name → t.lookup (here ++ [name]) = some (.link target) →
      follow = false → Leads t follow links here [name] (.existing (here ++ [name]) (.link target))
  | file {links here name f} : IsEntry name → t.lookup (here ++ [name]) = some (.file f) →
      Leads t follow links here [name] (.existing (here ++ [name]) (.file f))
  | device {links here name} : IsEntry name → t.lookup (here ++ [name]) = some .device →
      Leads t follow links here [name] (.existing (here ++ [name]) .device)
  | free {links here name} : IsEntry name → t.lookup (here ++ [name]) = none →
      Leads t follow links here [name] (.vacant here name)

variable {t : FileTree} {follow : Bool} {r : Found}

/-- Names that are no entries are not looked up. -/
theorem walkNames_dots (jump : Location → Bytes → List Bytes → Except OsError Found)
    (here : Location) (rest : List Bytes) :
    t.walkNames follow jump here ([Path.dot] :: rest) = t.walkNames follow jump here rest ∧
      t.walkNames follow jump here ([Path.dot, Path.dot] :: rest) =
        t.walkNames follow jump here.dropLast rest := by
  constructor <;> rw [walkNames] <;> rfl

/-- An entry is looked up. -/
theorem walkNames_entry (jump : Location → Bytes → List Bytes → Except OsError Found)
    {name : Bytes} (h : IsEntry name) (here : Location) (rest : List Bytes) :
    t.walkNames follow jump here (name :: rest) = match t.lookup (here ++ [name]) with
      | none => if rest.isEmpty then .ok (.vacant here name) else .error .noEntry
      | some (.directory _) => t.walkNames follow jump (here ++ [name]) rest
      | some (.link target) =>
        if rest.isEmpty && !follow then .ok (.existing (here ++ [name]) (.link target))
        else jump here target rest
      | some node =>
        if rest.isEmpty then .ok (.existing (here ++ [name]) node) else .error .notDirectory := by
  have hlength := Nat.not_lt.mpr h.length_le
  rw [walkNames]
  cases hl : t.lookup (here ++ [name]) with
  | none => simp [h.ne_dot, h.ne_dots, hlength, hl]
  | some n => cases n <;> simp [h.ne_dot, h.ne_dots, hlength, hl]

/-- If what links lead to is found by steps, then so is all else. -/
theorem leads_of_walkNames {links : Nat}
    {jump : Location → Bytes → List Bytes → Except OsError Found}
    (hjump : ∀ here name target rest, IsEntry name → t.lookup (here ++ [name]) = some (.link target) →
      (rest = [] → follow = true) → jump here target rest = .ok r →
      Leads t follow links here (name :: rest) r)
    (names : List Bytes) (here : Location) (h : t.walkNames follow jump here names = .ok r) :
    Leads t follow links here names r := by
  induction names generalizing here with
  | nil =>
    rw [walkNames] at h
    cases h
    exact .arrived
  | cons name rest ih =>
    by_cases h₁ : name = [Path.dot]
    · subst h₁
      exact .stay (ih here ((walkNames_dots jump here rest).1 ▸ h))
    by_cases h₂ : name = [Path.dot, Path.dot]
    · subst h₂
      exact .up (ih _ ((walkNames_dots jump here rest).2 ▸ h))
    by_cases h₃ : 255 < name.length
    · rw [walkNames] at h
      simp [h₁, h₂, h₃] at h
    have hname : IsEntry name := ⟨h₁, h₂, Nat.le_of_not_lt h₃⟩
    rw [walkNames_entry jump hname] at h
    split at h
    · rename_i hl
      split at h
      · rename_i hrest
        cases h
        obtain rfl := List.isEmpty_iff.mp hrest
        exact .free hname hl
      · cases h
    · rename_i hl
      exact .enter hname hl (ih _ h)
    · rename_i target hl
      split at h
      · rename_i hend
        cases h
        rw [Bool.and_eq_true] at hend
        obtain rfl := List.isEmpty_iff.mp hend.1
        exact .link hname hl (by simpa using hend.2)
      · rename_i hend
        refine hjump here name target rest hname hl ?_ h
        rintro rfl
        simpa using hend
    · rename_i n hdir hlink hl
      split at h
      · rename_i hrest
        cases h
        obtain rfl := List.isEmpty_iff.mp hrest
        cases n with
        | file f => exact .file hname hl
        | device => exact .device hname hl
        | directory w => exact absurd rfl (hdir w)
        | link target => exact absurd rfl (hlink target)
      · cases h

theorem leads_of_walk {links : Nat} {here : Location} {names : List Bytes}
    (h : t.walk follow links here names = .ok r) : Leads t follow links here names r := by
  induction links generalizing here names with
  | zero => exact leads_of_walkNames (fun _ _ _ _ _ _ _ h => by cases h) names here h
  | succ links ih =>
    refine leads_of_walkNames (fun here name target rest hname hl hrest hj => ?_) names here h
    split at hj
    · cases hj
    · rename_i htarget
      exact .jump hname hl hrest (by simpa using htarget) (ih hj)

/-- A walk is one along names, whatever it does at links. -/
theorem exists_walk_eq (t : FileTree) (follow : Bool) (links : Nat) :
    ∃ jump, t.walk follow links = t.walkNames follow jump := by
  cases links with
  | zero => exact ⟨_, rfl⟩
  | succ links => exact ⟨_, rfl⟩

theorem Leads.walk_eq {links : Nat} {here : Location} {names : List Bytes}
    (h : Leads t follow links here names r) : t.walk follow links here names = .ok r := by
  induction h with
  | @arrived links here =>
    obtain ⟨jump, hw⟩ := exists_walk_eq t follow links
    rw [hw, walkNames]
  | @stay links here rest r _ ih =>
    obtain ⟨jump, hw⟩ := exists_walk_eq t follow links
    rw [hw] at ih ⊢
    rw [(walkNames_dots jump here rest).1, ih]
  | @up links here rest r _ ih =>
    obtain ⟨jump, hw⟩ := exists_walk_eq t follow links
    rw [hw] at ih ⊢
    rw [(walkNames_dots jump here rest).2, ih]
  | @enter links here name rest w r hname hl _ ih =>
    obtain ⟨jump, hw⟩ := exists_walk_eq t follow links
    rw [hw] at ih ⊢
    rw [walkNames_entry jump hname, hl]
    exact ih
  | @jump links here name rest target r hname hl hrest htarget _ ih =>
    have hend : (rest.isEmpty && !follow) = false := by
      cases rest with
      | nil => simp [hrest rfl]
      | cons => rfl
    rw [walk, walkNames_entry _ hname, hl]
    simp only [hend, List.isEmpty_iff, htarget, if_false, Bool.false_eq_true]
    exact ih
  | @link links here name target hname hl hf =>
    obtain ⟨jump, hw⟩ := exists_walk_eq t follow links
    rw [hw, walkNames_entry jump hname, hl, hf]
    rfl
  | @file links here name f hname hl =>
    obtain ⟨jump, hw⟩ := exists_walk_eq t follow links
    rw [hw, walkNames_entry jump hname, hl]
    rfl
  | @device links here name hname hl =>
    obtain ⟨jump, hw⟩ := exists_walk_eq t follow links
    rw [hw, walkNames_entry jump hname, hl]
    rfl
  | @free links here name hname hl =>
    obtain ⟨jump, hw⟩ := exists_walk_eq t follow links
    rw [hw, walkNames_entry jump hname, hl]
    rfl

/-- **A walk finds what the names lead to.** -/
theorem walk_eq_ok_iff {links : Nat} {here : Location} {names : List Bytes} :
    t.walk follow links here names = .ok r ↔ Leads t follow links here names r :=
  ⟨leads_of_walk, Leads.walk_eq⟩

/-- **Where a path leads**, if the system takes the path. -/
theorem findNames_eq_ok_iff {p : Path} {names : List Bytes} :
    t.findNames follow p names = .ok r ↔
      0 ∉ p.bytes ∧ p.bytes ≠ [] ∧ p.bytes.length ≤ 4095 ∧
        ∃ here, (if p.isAbsolute then some [] else t.current) = some here ∧
          Leads t follow maxLinks here names r := by
  unfold findNames
  by_cases hzero : 0 ∈ p.bytes
  · simp [hzero]
  by_cases hempty : p.bytes = []
  · simp [hempty]
  by_cases hlength : 4095 < p.bytes.length
  · simp [hzero, hempty, hlength, Nat.not_le.mpr hlength]
  simp only [List.contains_iff_mem, hzero, List.isEmpty_iff, hempty, hlength, if_false,
    not_false_eq_true, ne_eq, true_and, Nat.le_of_not_lt hlength]
  cases hhere : (if p.isAbsolute then some [] else t.current) with
  | none => simp
  | some here =>
    simp only [Option.some.injEq, exists_eq_left', ← walk_eq_ok_iff]
    cases t.walk follow maxLinks here names <;> simp

end FileTree

/-! ### What is found -/

/-- **What was found is what the tree holds**: a directory, or the node at its location, or a name that
is free. A link is found only by a walk that does not follow it. -/
inductive Found.Fits (t : FileTree) (follow : Bool) : Found → Prop
  | directory (l : Location) (isWritable : Bool) : Fits t follow (.existing l (.directory isWritable))
  | file {l : Location} {f : RegularFile} (h : t.lookup l = some (.file f)) :
    Fits t follow (.existing l (.file f))
  | device {l : Location} (h : t.lookup l = some .device) : Fits t follow (.existing l .device)
  | link {l : Location} {target : Bytes} (hf : follow = false) :
    Fits t follow (.existing l (.link target))
  | vacant {directory : Location} {name : Bytes} (h : t.lookup (directory ++ [name]) = none) :
    Fits t follow (.vacant directory name)

namespace FileTree

variable {t : FileTree} {follow : Bool} {r : Found}

theorem Leads.fits {links : Nat} {here : Location} {names : List Bytes}
    (h : Leads t follow links here names r) : r.Fits t follow := by
  induction h with
  | @arrived links here =>
    obtain ⟨w, hw⟩ := t.directoryAt_eq here
    rw [hw]
    exact .directory here w
  | stay _ ih => exact ih
  | up _ ih => exact ih
  | enter _ _ _ ih => exact ih
  | jump _ _ _ _ _ ih => exact ih
  | link _ _ hf => exact .link hf
  | file _ hl => exact .file hl
  | device _ hl => exact .device hl
  | free _ hl => exact .vacant hl

theorem findNames_fits {p : Path} {names : List Bytes} (h : t.findNames follow p names = .ok r) :
    r.Fits t follow := by
  obtain ⟨-, -, -, here, -, hleads⟩ := findNames_eq_ok_iff.mp h
  exact hleads.fits

/-- **A path leads to what the tree holds.** -/
theorem find_fits {p : Path} (h : t.find p = .ok r) : r.Fits t true :=
  findNames_fits h

end FileTree

end ReleasePublisher
