import ReleasePublisher.Proofs.Files.Children
import ReleasePublisher.Proofs.Files.Growth

/-!
# Directories that are made

Making the directories of a path adds directories only, and only where the path or one above it leads. It may
stop at any of them, and what was made until then stays.

## Main definitions

* `Path.IsOnPath q p`: `q` is `p` or a path above it

## Main results

* `Path.isOnPath_of_parent?`: the parent of a path is on it
* `FileTree.Leads.to_directory`, `FileTree.find_directory`: a name that was free leads to the directory that was
  made there
* `FileTree.makeDirectories_new`: what is new after the directories of a path were made
-/

namespace ReleasePublisher

namespace Path

/-! ### Paths above a path -/

/-- **A path on the way to another one**: both start at the same place, and the names of the first are the
first names of the second. -/
def IsOnPath (q p : Path) : Prop :=
  q.isAbsolute = p.isAbsolute ∧ q.names <+: p.names

theorem IsOnPath.refl (p : Path) : p.IsOnPath p := ⟨rfl, List.prefix_rfl⟩

theorem IsOnPath.trans {p q r : Path} (h : r.IsOnPath q) (h' : q.IsOnPath p) : r.IsOnPath p :=
  ⟨h.1.trans h'.1, h.2.trans h'.2⟩

/-- Names between slashes: neither empty nor with a slash. -/
def ArePieces (ns : List Bytes) : Prop :=
  ∀ n ∈ ns, n ≠ [] ∧ slash ∉ n

theorem arePieces_names (p : Path) : ArePieces p.names := by
  intro n hn
  obtain ⟨hpiece, hempty⟩ := List.mem_filter.mp hn
  exact ⟨by simpa using hempty, no_slash_of_mem_splitSlash hpiece⟩

theorem ArePieces.of_isPrefix {ns ms : List Bytes} (h : ArePieces ms) (hns : ns <+: ms) : ArePieces ns :=
  fun n hn => h n (hns.subset hn)

/-- Names with slashes between them are read back. -/
theorem filter_splitSlash_intercalate {ns : List Bytes} (h : ArePieces ns) :
    (splitSlash (List.intercalate [slash] ns)).filter (!·.isEmpty) = ns := by
  induction ns with
  | nil => rfl
  | cons n ns ih =>
    obtain ⟨hn, hns⟩ := List.forall_mem_cons.mp h
    cases ns with
    | nil =>
      rw [List.intercalate_singleton, splitSlash_piece hn.2]
      simp [hn.1]
    | cons m ns =>
      rw [List.intercalate_cons_cons, List.append_assoc, List.singleton_append, splitSlash_piece_append hn.2,
        List.filter_cons_of_pos (by simpa using hn.1), ih hns]

theorem names_ofNames (absolute : Bool) {ns : List Bytes} (h : ArePieces ns) :
    (ofNames absolute ns).names = ns := by
  cases absolute with
  | false => exact filter_splitSlash_intercalate h
  | true =>
    have hroot := splitSlash_piece_append (List.not_mem_nil (a := slash)) (List.intercalate [slash] ns)
    rw [names, ofNames, if_pos rfl, List.singleton_append, ← List.nil_append (slash :: _), hroot,
      List.filter_cons_of_neg (by simp), filter_splitSlash_intercalate h]

theorem isAbsolute_ofNames (absolute : Bool) {ns : List Bytes} (h : ArePieces ns) :
    (ofNames absolute ns).isAbsolute = absolute := by
  cases absolute with
  | true => rfl
  | false =>
    cases ns with
    | nil => rfl
    | cons n ns =>
      obtain ⟨⟨hn, hslash⟩, -⟩ := List.forall_mem_cons.mp h
      obtain ⟨b, bs, rfl⟩ := List.exists_cons_of_ne_nil hn
      have hb : b ≠ slash := fun hb => hslash (hb ▸ List.mem_cons_self)
      cases ns with
      | nil => simpa [isAbsolute, ofNames, List.intercalate_singleton] using hb
      | cons m ns => simpa [isAbsolute, ofNames, List.intercalate_cons_cons] using hb

/-- Dropping single dots leaves the first names. -/
theorem isPrefix_trimDots (absolute : Bool) (ns : List Bytes) : trimDots absolute ns <+: ns := by
  have hprefix : ∀ l : List Bytes, Text.dropEndWhile (· == [dot]) l <+: l := by
    intro l
    obtain ⟨dropped, hl, -⟩ := Text.dropEndWhile_append_dropped (· == [dot]) l
    exact ⟨dropped, hl.symm⟩
  unfold trimDots
  split
  · exact List.cons_prefix_cons.mpr ⟨rfl, hprefix _⟩
  · exact hprefix _

/-- **The parent of a path is on it.** -/
theorem isOnPath_of_parent? {p q : Path} (h : p.parent? = some q) : q.IsOnPath p := by
  unfold parent? at h
  split at h
  · cases h
  · have hdrop := List.dropLast_prefix (trimDots p.isAbsolute p.names)
    have hprefix : trimDots p.isAbsolute (trimDots p.isAbsolute p.names).dropLast <+: p.names :=
      (isPrefix_trimDots _ _).trans (hdrop.trans (isPrefix_trimDots _ _))
    have hpieces := (arePieces_names p).of_isPrefix hprefix
    obtain rfl := Option.some.inj h
    exact ⟨isAbsolute_ofNames _ hpieces, (names_ofNames _ hpieces).symm ▸ hprefix⟩

end Path

namespace FileTree

variable {t t' : FileTree} {p : Path} {l : Location} {n : FileNode}

/-! ### Names that lead to directories -/

/-- **Where there is a directory now**, the names lead to it, also if the last one was free before. -/
theorem Leads.to_directory {follow w : Bool} {r : Found} {links : Nat} {here : Location} {names : List Bytes}
    (ht : t.Extends t') (hl : t'.lookup r.location = some (.directory w))
    (h : Leads t follow links here names r) :
    Leads t' true links here names (.existing r.location (.directory w)) := by
  induction h with
  | @arrived links here =>
    have hdirectory : t'.directoryAt here = .directory w := by
      rw [directoryAt, show t'.lookup here = _ from hl]
    exact hdirectory ▸ .arrived
  | stay _ ih => exact .stay (ih hl)
  | up _ ih => exact .up (ih hl)
  | enter hname hentered _ ih => exact .enter hname (ht.lookup_eq hentered (by simp)) (ih hl)
  | jump hname hlink _ htarget _ ih =>
    exact .jump hname (ht.lookup_eq hlink (by simp)) (fun _ => rfl) htarget (ih hl)
  | link _ hlink _ => cases (ht.lookup_eq hlink (by simp)).symm.trans hl
  | device _ hdevice => cases (ht.lookup_eq hdevice (by simp)).symm.trans hl
  | file _ hfile =>
    rcases ht.lookup_alike _ _ hfile with hl' | ⟨_, g, -, hl'⟩
    · cases hl'.symm.trans hl
    · cases hl'.symm.trans hl
  | @free links here name hname _ =>
    have hdirectory : t'.directoryAt (here ++ [name]) = .directory w := by
      rw [directoryAt, show t'.lookup (here ++ [name]) = _ from hl]
    exact .enter hname hl (hdirectory ▸ .arrived)

/-- **A path leads to the directory** that was made where its last name was free. -/
theorem find_directory {follow w : Bool} {r : Found} (ht : t.Extends t')
    (hl : t'.lookup r.location = some (.directory w)) (h : t.findNames follow p p.names = .ok r) :
    t'.find p = .ok (.existing r.location (.directory w)) := by
  obtain ⟨hzero, hempty, hlength, here, hhere, hleads⟩ := findNames_eq_ok_iff.mp h
  rw [← ht.current_eq] at hhere
  exact find_of_findNames
    (findNames_eq_ok_iff.mpr ⟨hzero, hempty, hlength, here, hhere, hleads.to_directory ht hl⟩)

/-! ### What is new -/

/-- **What is new after one directory after the other was made**, also where one of them could not be: a
directory to which one of the paths leads. -/
theorem makeEach_new {ps : List Path} (ht : (t.makeEach ps).1.Extends t') (hold : t.lookup l = none)
    (hnew : (t.makeEach ps).1.lookup l = some n) :
    n = .folder ∧ ∃ q ∈ ps, t'.find q = .ok (.existing l .folder) := by
  induction ps generalizing t with
  | nil => cases hold.symm.trans hnew
  | cons p rest ih =>
    have hgrows := t.makeEach_grows (p :: rest)
    rw [makeEach] at ht hnew hgrows
    cases hmade : t.makeDirectory p with
    | ok t₁ =>
      rw [hmade] at ht hnew hgrows
      obtain ⟨r, hfind, hfree, rfl⟩ := makeDirectory_eq_ok hmade
      by_cases hl : l = r.location
      · -- This is the directory that is made here, and it stays.
        subst hl
        have hne := ne_nil_of_lookup (t := t) (by simp [hfree] : t.lookup r.location ≠ _)
        have hrest := (makeEach_grows _ rest).lookup_eq _ _ (lookup_put_self hne t .folder)
        refine ⟨Option.some.inj (hnew.symm.trans hrest), p, List.mem_cons_self, ?_⟩
        have hstays := ht.lookup_eq hrest (by rintro f ⟨⟩)
        exact find_directory (hgrows.extends.trans ht) hstays hfind
      · obtain ⟨hn, q, hq, hqfind⟩ := ih ht ((lookup_put_of_ne hl t _).trans hold) hnew
        exact ⟨hn, q, List.mem_cons_of_mem _ hq, hqfind⟩
    | error e =>
      rw [hmade] at ht hnew
      dsimp only at ht hnew
      split at hnew
      · rename_i hdirectory
        rw [if_pos hdirectory] at ht
        obtain ⟨hn, q, hq, hqfind⟩ := ih ht hold hnew
        exact ⟨hn, q, List.mem_cons_of_mem _ hq, hqfind⟩
      · cases hold.symm.trans hnew

/-- **The directories that are missing** for a path are on it. -/
theorem isOnPath_of_missingDirectories {fuel : Nat} {missing ps : List Path}
    (h : t.missingDirectories fuel p missing = .ok ps) : ∀ q ∈ ps, q ∈ missing ∨ q.IsOnPath p := by
  induction fuel generalizing p missing with
  | zero =>
    obtain rfl := Except.ok.inj h
    exact fun q hq => .inl hq
  | succ fuel ih =>
    rw [missingDirectories] at h
    split at h
    · obtain rfl := Except.ok.inj h
      exact fun q hq => .inl hq
    dsimp only at h
    split at h
    · obtain rfl := Except.ok.inj h
      intro q hq
      exact (List.mem_cons.mp hq).elim (fun hqp => .inr (hqp ▸ .refl p)) .inl
    split at h
    · -- A directory above is missing too, and what is missing for it is above it.
      intro q hq
      have hlisted : q ∈ p :: missing ∨ q.IsOnPath p := by
        split at h
        · obtain rfl := Except.ok.inj h
          exact .inl hq
        · rename_i above habove
          exact (ih h q hq).imp_right fun hon => hon.trans (Path.isOnPath_of_parent? habove)
      rcases hlisted with hlisted | hon
      · exact (List.mem_cons.mp hlisted).elim (fun hqp => .inr (hqp ▸ .refl p)) .inl
      · exact .inr hon
    split at h
    · obtain rfl := Except.ok.inj h
      exact fun q hq => .inl hq
    · cases h

/-- **What is new after the directories of a path were made** is a directory to which the path or one above it
leads, from then on. -/
theorem makeDirectories_new (ht : (t.makeDirectories p).1.Extends t') (hold : t.lookup l = none)
    (hnew : (t.makeDirectories p).1.lookup l = some n) :
    n = .folder ∧ ∃ q : Path, q.IsOnPath p ∧ t'.find q = .ok (.existing l .folder) := by
  unfold makeDirectories at ht hnew
  split at hnew
  · cases hold.symm.trans hnew
  · rename_i missing hmissing
    rw [hmissing] at ht
    obtain ⟨hn, q, hq, hfind⟩ := makeEach_new ht hold hnew
    rcases isOnPath_of_missingDirectories hmissing q hq with hq | hq
    · cases hq
    · exact ⟨hn, q, hq, hfind⟩

end FileTree

end ReleasePublisher
