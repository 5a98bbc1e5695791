import ReleasePublisher.Archive.EntryName

/-!
# Names of two components

The name of an entry with two components, a directory and a file in it, is the path itself. It stands
in the header where there is room for it; else it stands in full in an entry before.

## Main definitions

* `Path.IsName bs`: bytes that are one component of a path

## Main results

* `Path.components_pair`: the components of a directory and a name
* `Tar.nameOf_pair`: the name that such a path states, or that it is too long
* `Tar.placeName_pair`: where the name of such an entry stands
-/

namespace ReleasePublisher

namespace Path

/-! ### Paths of two components -/

/-- One component of a path, which is no dot or two. -/
structure IsName (bs : Bytes) : Prop where
  ne_nil : bs ≠ []
  no_slash : slash ∉ bs
  ne_dot : bs ≠ [dot]
  ne_dots : bs ≠ [dot, dot]

/-- A piece with a hyphen is no dot or two. -/
theorem isName_of_hyphen {bs : Bytes} (hhyphen : 0x2D ∈ bs) (hslash : slash ∉ bs) : IsName bs where
  ne_nil := List.ne_nil_of_mem hhyphen
  no_slash := hslash
  ne_dot h := absurd (h ▸ hhyphen) (by decide)
  ne_dots h := absurd (h ▸ hhyphen) (by decide)

theorem splitSlash_piece {bs : Bytes} (h : slash ∉ bs) : splitSlash bs = [bs] := by
  induction bs with
  | nil => rfl
  | cons b bs ih =>
    rw [List.mem_cons, not_or] at h
    have hb : (b == slash) = false := by simpa using Ne.symm h.1
    rw [splitSlash, hb, ih h.2]
    rfl

theorem splitSlash_piece_append {bs : Bytes} (h : slash ∉ bs) (rest : Bytes) :
    splitSlash (bs ++ slash :: rest) = bs :: splitSlash rest := by
  induction bs with
  | nil => rfl
  | cons b bs ih =>
    rw [List.mem_cons, not_or] at h
    have hb : (b == slash) = false := by simpa using Ne.symm h.1
    rw [List.cons_append, splitSlash, hb, ih h.2]
    rfl

theorem not_endsInSlash {bs : Bytes} (h : slash ∉ bs) : endsInSlash ⟨bs⟩ = false := by
  rw [endsInSlash, beq_eq_false_iff_ne]
  intro hl
  exact h (List.mem_of_getLast? hl)

theorem not_isAbsolute {bs : Bytes} (h : slash ∉ bs) : isAbsolute ⟨bs⟩ = false := by
  rw [isAbsolute, beq_eq_false_iff_ne]
  intro hl
  exact h (List.mem_of_head? hl)

/-- A name inside a directory. -/
theorem join_name {directory name : Bytes} (hd : IsName directory) (hn : IsName name) :
    join ⟨directory⟩ ⟨name⟩ = ⟨directory ++ slash :: name⟩ := by
  have hlast : (directory.getLast? == some slash) = false := not_endsInSlash hd.no_slash
  have hempty : directory.isEmpty = false := by simpa using hd.ne_nil
  rw [join, not_isAbsolute hn.no_slash]
  simp [hlast, hempty]

theorem component?_name {name : Bytes} (h : IsName name) : component? name = some (.name name) := by
  simp [component?, h.ne_dot, h.ne_dots]

/-- **The components** of a directory and a name in it. -/
theorem components_pair {directory name : Bytes} (hd : IsName directory) (hn : IsName name) :
    components ⟨directory ++ slash :: name⟩ = [.name directory, .name name] := by
  have hsplit : splitSlash (directory ++ slash :: name) = [directory, name] := by
    rw [splitSlash_piece_append hd.no_slash, splitSlash_piece hn.no_slash]
  have habs : isAbsolute ⟨directory ++ slash :: name⟩ = false := by
    have h := not_isAbsolute hd.no_slash
    obtain ⟨b, bs, rfl⟩ := List.exists_cons_of_ne_nil hd.ne_nil
    exact h
  have hstart : (some directory == some [dot]) = false := by simpa using hd.ne_dot
  have hnames : names ⟨directory ++ slash :: name⟩ = [directory, name] := by
    simp [names, hsplit, hd.ne_nil, hn.ne_nil]
  rw [components, habs, hnames, hsplit]
  simp [hstart, component?_name hd, component?_name hn]

theorem endsInSlash_pair (directory : Bytes) {name : Bytes} (hn : IsName name) :
    endsInSlash ⟨directory ++ slash :: name⟩ = false := by
  have h := not_endsInSlash hn.no_slash
  rw [endsInSlash] at h ⊢
  have hlast : name.getLast? = some (name.getLast hn.ne_nil) := List.getLast?_eq_some_getLast hn.ne_nil
  rw [List.getLast?_append, List.getLast?_cons_of_ne_nil hn.ne_nil, hlast]
  rwa [hlast] at h

/-- What is joined to a path stands at its end. -/
theorem suffix_join (p q : Path) : q.bytes <:+ (p.join q).bytes := by
  unfold join
  split
  · exact List.suffix_refl _
  split
  · exact List.suffix_append _ _
  · exact (List.suffix_cons slash q.bytes).trans (List.suffix_append _ _)

end Path

namespace Tar

/-! ### Names in headers -/

theorem extendName_ok {written name longer : Bytes} (h : extendName written name = .ok longer) :
    longer.length ≤ nameSize := by
  unfold extendName at h
  dsimp only at h
  split at h
  · cases h
  · rename_i hl
    cases h
    exact Nat.le_of_not_lt hl

theorem length_addComponents {isStart : Bool} {written name : Bytes} {cs : List PathComponent}
    (hw : written.length ≤ nameSize) (h : addComponents isStart written cs = .ok name) :
    name.length ≤ nameSize := by
  induction cs generalizing written with
  | nil =>
    rw [addComponents] at h
    split at h
    · cases h
    · cases h
      exact hw
  | cons c cs ih =>
    cases c with
    | root => cases h
    | current =>
      rw [addComponents] at h
      split at h
      · cases h
        decide
      · exact ih hw h
    | parent =>
      rw [addComponents] at h
      split at h
      · exact extendName_ok h
      · cases h
    | name n =>
      rw [addComponents] at h
      split at h
      · rename_i hl
        exact ih (extendName_ok hl) h
      · cases h

/-- A header has room for every name. -/
theorem length_nameOf {isStart : Bool} {p : Path} {name : Bytes} (h : nameOf isStart p = .ok name) :
    name.length ≤ nameSize := by
  unfold nameOf at h
  split at h
  · cases h
  · rename_i hc
    have hl := length_addComponents (Nat.zero_le _) hc
    split at h
    · cases h
      exact hl
    · split at h
      · rename_i hroom
        cases h
        rw [List.length_append]
        exact hroom
      · cases h

/-- **The name that a directory and a name in it state**, if a header has room for it. -/
theorem nameOf_pair {directory name : Bytes} (hd : Path.IsName directory) (hn : Path.IsName name) :
    nameOf false ⟨directory ++ Path.slash :: name⟩ = .ok (directory ++ Path.slash :: name) ∨
    nameSize < (directory ++ Path.slash :: name).length ∧
      ∃ written, nameOf false ⟨directory ++ Path.slash :: name⟩ = .error (.tooLong written) := by
  have hfirst : addName [] directory = directory := rfl
  have hboth : addName directory name = directory ++ Path.slash :: name := by
    simp [addName, hd.ne_nil]
  have hempty : (directory ++ Path.slash :: name).isEmpty = false := by simp
  rw [nameOf, Path.components_pair hd hn, Path.endsInSlash_pair directory hn]
  by_cases h₁ : nameSize < directory.length
  · refine .inr ⟨by rw [List.length_append]; omega, [], ?_⟩
    simp [addComponents, extendName, hfirst, h₁]
  by_cases h₂ : nameSize < (directory ++ Path.slash :: name).length
  · refine .inr ⟨h₂, directory, ?_⟩
    simp only [addComponents, extendName, hfirst, hboth, h₁, h₂, if_true, if_false]
  · refine .inl ?_
    simp only [addComponents, extendName, hfirst, hboth, h₁, h₂, if_false, hempty]
    rfl

/-- **Where the name of such an entry stands**: in the header, or in full in an entry before. -/
theorem placeName_pair {directory name stated : Bytes} {before : List Entry}
    (hd : Path.IsName directory) (hn : Path.IsName name)
    (h : placeName ⟨directory ++ Path.slash :: name⟩ = (before, .ok stated)) :
    stated.length ≤ nameSize ∧
      (before = [] ∧ stated = directory ++ Path.slash :: name ∨
        before = [longNameEntry (directory ++ Path.slash :: name)]) := by
  unfold placeName at h
  rcases nameOf_pair hd hn with hok | ⟨hlong, written, herror⟩
  · simp only [hok] at h
    obtain ⟨rfl, hs⟩ := Prod.mk.inj h
    cases hs
    exact ⟨length_nameOf hok, .inl ⟨rfl, rfl⟩⟩
  · simp only [herror, Nat.not_lt.mpr (Nat.le_of_lt hlong), if_false] at h
    obtain ⟨rfl, hs⟩ := Prod.mk.inj h
    exact ⟨length_nameOf hs, .inr rfl⟩

end Tar

end ReleasePublisher
