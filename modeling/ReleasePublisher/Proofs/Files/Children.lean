import ReleasePublisher.Proofs.Archive.EntryName
import ReleasePublisher.Proofs.Files.Walk

/-!
# Names in directories

A name that is joined to a path is its child: the path has one more component. What the child leads to
stands in the directory that the path leads to, unless a link stands there under the name.

## Main definitions

* `Path.IsChildOf p directory name`: `p` is `directory` with one more component
* `FileTree.HasDirectory t p l`: `p` names the directory at `l`

## Main results

* `Path.splitSlash_append`, `Path.intercalate_splitSlash`: the pieces of a path and the path
* `Path.join_isChildOf`: a name that is joined is a child
* `FileTree.hasDirectory_of_find_join`: where a child stands
-/

namespace ReleasePublisher

namespace Path

/-! ### Pieces -/

theorem splitSlash_ne_nil (bs : Bytes) : splitSlash bs ≠ [] := by
  cases bs with
  | nil => exact List.cons_ne_nil _ _
  | cons b rest =>
    rw [splitSlash]
    split
    · exact List.cons_ne_nil _ _
    · split <;> exact List.cons_ne_nil _ _

/-- The pieces on both sides of a slash. -/
theorem splitSlash_append (bs rest : Bytes) :
    splitSlash (bs ++ slash :: rest) = splitSlash bs ++ splitSlash rest := by
  induction bs with
  | nil => rfl
  | cons b bs ih =>
    rw [List.cons_append, splitSlash, splitSlash, ih]
    split
    · rfl
    · obtain ⟨piece, more, hbs⟩ := List.exists_cons_of_ne_nil (splitSlash_ne_nil bs)
      rw [hbs]
      rfl

theorem no_slash_of_mem_splitSlash {bs piece : Bytes} (h : piece ∈ splitSlash bs) : slash ∉ piece := by
  induction bs generalizing piece with
  | nil =>
    obtain rfl := List.mem_singleton.mp h
    exact List.not_mem_nil
  | cons b bs ih =>
    rw [splitSlash] at h
    split at h
    · rcases List.mem_cons.mp h with rfl | h
      · exact List.not_mem_nil
      · exact ih h
    · rename_i hb
      obtain ⟨first, more, hbs⟩ := List.exists_cons_of_ne_nil (splitSlash_ne_nil bs)
      rw [hbs] at h ih
      rcases List.mem_cons.mp h with rfl | h
      · rw [List.mem_cons, not_or]
        exact ⟨fun hs => hb (beq_iff_eq.mpr hs.symm), ih List.mem_cons_self⟩
      · exact ih (List.mem_cons_of_mem _ h)

/-- **A path is its pieces** with slashes between them. -/
theorem intercalate_splitSlash (bs : Bytes) : List.intercalate [slash] (splitSlash bs) = bs := by
  induction bs with
  | nil => rfl
  | cons b bs ih =>
    obtain ⟨piece, more, hbs⟩ := List.exists_cons_of_ne_nil (splitSlash_ne_nil bs)
    rw [splitSlash, hbs]
    rw [hbs] at ih
    split
    · rename_i hb
      rw [List.intercalate_cons_cons, ih, eq_of_beq hb]
      rfl
    · cases more with
      | nil =>
        rw [List.intercalate_singleton] at ih ⊢
        rw [ih]
      | cons next more =>
        rw [List.intercalate_cons_cons] at ih ⊢
        rw [List.cons_append, List.cons_append, ih]

/-! ### Children -/

/-- **A path is a child of a directory**: it has one more component, which is the name. -/
def IsChildOf (p directory : Path) (name : Bytes) : Prop :=
  p.components = directory.components ++ [.name name]

theorem IsChildOf.fileName?_eq {p directory : Path} {name : Bytes} (h : p.IsChildOf directory name) :
    p.fileName? = some name := by
  rw [fileName?, show p.components = _ from h, List.getLast?_concat]

/-- A name among the components has no slash. -/
theorem no_slash_of_mem_components {p : Path} {name : Bytes} (h : .name name ∈ p.components) :
    slash ∉ name := by
  rw [components, List.mem_append] at h
  rcases h with h | h
  · -- What stands at the start is no name.
    split at h
    · cases List.mem_singleton.mp h
    split at h
    · cases List.mem_singleton.mp h
    · cases h
  · obtain ⟨piece, hpiece, hname⟩ := List.mem_filterMap.mp h
    unfold component? at hname
    split at hname
    · cases hname
    split at hname
    · cases hname
    · cases hname
      exact no_slash_of_mem_splitSlash (List.mem_filter.mp hpiece).1

theorem IsChildOf.no_slash {p directory : Path} {name : Bytes} (h : p.IsChildOf directory name) :
    slash ∉ name := by
  refine no_slash_of_mem_components (p := p) ?_
  rw [show p.components = _ from h]
  exact List.mem_append_right _ List.mem_cons_self

section Join

variable {name : Bytes}

/-- How a name is joined to a path: behind the slash at its end, or else behind one of its own. -/
theorem join_cases (p : Path) (hn : IsName name) :
    (p.bytes = [] ∧ p.join ⟨name⟩ = ⟨name⟩) ∨
    ∃ front, p.join ⟨name⟩ = ⟨front ++ slash :: name⟩ ∧
      (p.bytes = front ∧ front ≠ [] ∨ p.bytes = front ++ [slash]) := by
  have hrelative : isAbsolute ⟨name⟩ = false := not_isAbsolute hn.no_slash
  rw [join, hrelative]
  by_cases hempty : p.bytes = []
  · exact .inl ⟨hempty, by simp [hempty]⟩
  by_cases hlast : p.bytes.getLast? = some slash
  · have hfront : p.bytes = p.bytes.dropLast ++ [slash] := by
      rw [List.getLast?_eq_some_getLast hempty] at hlast
      rw [← Option.some.inj hlast, List.dropLast_concat_getLast hempty]
    refine .inr ⟨p.bytes.dropLast, ?_, .inr hfront⟩
    simp only [hlast, Bool.false_eq_true, if_false, beq_self_eq_true, Bool.or_true, if_true]
    rw [hfront]
    simp
  · refine .inr ⟨p.bytes, ?_, .inl ⟨rfl, hempty⟩⟩
    have hseparated : (p.bytes.isEmpty || p.bytes.getLast? == some slash) = false := by
      simp [hempty, hlast]
    simp [hseparated]

theorem splitSlash_trailing (front : Bytes) :
    splitSlash (front ++ [slash]) = splitSlash front ++ [[]] :=
  splitSlash_append front []

/-- **The names of a child.** -/
theorem names_join (p : Path) (hn : IsName name) : (p.join ⟨name⟩).names = p.names ++ [name] := by
  have hlast : (splitSlash name).filter (!·.isEmpty) = [name] := by
    rw [splitSlash_piece hn.no_slash]
    simp [hn.ne_nil]
  rcases join_cases p hn with ⟨hempty, hjoin⟩ | ⟨front, hjoin, hp⟩
  · rw [hjoin, names, names, hempty]
    exact hlast
  · rw [hjoin, names, splitSlash_append, List.filter_append, hlast, names]
    rcases hp with ⟨hp, -⟩ | hp
    · rw [hp]
    · rw [hp, splitSlash_trailing, List.filter_append]
      simp

theorem isAbsolute_join (p : Path) (hn : IsName name) : (p.join ⟨name⟩).isAbsolute = p.isAbsolute := by
  rcases join_cases p hn with ⟨hempty, hjoin⟩ | ⟨front, hjoin, hp⟩
  · rw [hjoin, not_isAbsolute hn.no_slash, isAbsolute, hempty]
    rfl
  · rw [hjoin, isAbsolute, isAbsolute]
    rcases hp with ⟨hp, hfront⟩ | hp
    · obtain ⟨b, bs, rfl⟩ := List.exists_cons_of_ne_nil hfront
      rw [hp]
      rfl
    · rw [hp]
      cases front <;> rfl

/-- A path and its child both start with a single dot, or neither does. -/
theorem head?_splitSlash_join (p : Path) (hn : IsName name) :
    ((splitSlash (p.join ⟨name⟩).bytes).head? == some [dot]) =
      ((splitSlash p.bytes).head? == some [dot]) := by
  rcases join_cases p hn with ⟨hempty, hjoin⟩ | ⟨front, hjoin, hp⟩
  · rw [hjoin, hempty, splitSlash_piece hn.no_slash]
    simp [splitSlash, hn.ne_dot]
  · obtain ⟨piece, more, hfront⟩ := List.exists_cons_of_ne_nil (splitSlash_ne_nil front)
    rw [hjoin, splitSlash_append, hfront]
    rcases hp with ⟨hp, -⟩ | hp
    · rw [hp, hfront]
      rfl
    · rw [hp, splitSlash_trailing, hfront]
      rfl

/-- **A name that is joined to a path** is its child. -/
theorem join_isChildOf (p : Path) (hn : IsName name) : (p.join ⟨name⟩).IsChildOf p name := by
  rw [IsChildOf, components, components, isAbsolute_join p hn, head?_splitSlash_join p hn,
    names_join p hn, List.filterMap_append]
  simp only [List.filterMap_cons, List.filterMap_nil, component?_name hn, List.append_assoc]

theorem endsInSlash_join (p : Path) (hn : IsName name) : (p.join ⟨name⟩).endsInSlash = false := by
  rcases join_cases p hn with ⟨-, hjoin⟩ | ⟨front, hjoin, -⟩
  · rw [hjoin]
    exact not_endsInSlash hn.no_slash
  · rw [hjoin]
    exact endsInSlash_pair front hn

end Join

end Path

/-! ### Where children stand -/

namespace FileTree

variable {t : FileTree} {r : Found}

/-- **A path names a directory.** The empty path stands for the working directory. -/
def HasDirectory (t : FileTree) (p : Path) (l : Location) : Prop :=
  if p.bytes = [] then t.current = some l else ∃ w, t.find p = .ok (.existing l (.directory w))

/-- No names lead nowhere else. -/
theorem Leads.location_eq {follow : Bool} {links : Nat} {here : Location} {names : List Bytes}
    (h : Leads t follow links here names r) (hnames : names = []) : r.location = here := by
  cases h with
  | arrived => rfl
  | stay | up | enter | jump | link | file | device | free => cases hnames

/-- A slash behind the name of a directory changes nothing. -/
theorem Leads.trailing {follow : Bool} {links : Nat} {here l : Location} {names : List Bytes} {w : Bool}
    (h : Leads t follow links here names (.existing l (.directory w))) :
    Leads t follow links here (names ++ [[Path.dot]]) (.existing l (.directory w)) := by
  generalize hr : Found.existing l (.directory w) = r at h
  induction h with
  | arrived => exact .stay .arrived
  | stay _ ih => exact .stay (ih hr)
  | up _ ih => exact .up (ih hr)
  | enter hname hl _ ih => exact .enter hname hl (ih hr)
  | jump hname hl _ htarget _ ih =>
    refine .jump hname hl (fun hnil => absurd hnil (by simp)) htarget ?_
    exact List.append_assoc _ _ _ ▸ ih hr
  | link | file | device | free => cases hr

/-- A path leads where its names lead, if that is a directory: a slash behind them changes nothing. -/
theorem find_of_findNames {p : Path} {l : Location} {w : Bool}
    (h : t.findNames true p p.names = .ok (.existing l (.directory w))) :
    t.find p = .ok (.existing l (.directory w)) := by
  obtain ⟨hzero, hempty, hlength, here, hhere, hleads⟩ := findNames_eq_ok_iff.mp h
  refine findNames_eq_ok_iff.mpr ⟨hzero, hempty, hlength, here, hhere, ?_⟩
  unfold steps
  dsimp only
  split
  · exact hleads.trailing
  · exact hleads

/-- **The last name** of a path is looked up in the directory that the names before it lead to. -/
theorem Leads.directory {links : Nat} {here : Location} {names before : List Bytes} {name : Bytes}
    (h : Leads t true links here names r) (hnames : names = before ++ [name])
    (hdot : name ≠ [Path.dot]) (hdots : name ≠ [Path.dot, Path.dot]) :
    ∃ directory w, Leads t true links here before (.existing directory (.directory w)) ∧
      (r.location = directory ++ [name] ∨
        ∃ target, t.lookup (directory ++ [name]) = some (.link target)) := by
  induction h generalizing before with
  | arrived => simp at hnames
  | stay _ ih =>
    cases before with
    | nil => exact absurd (List.cons.inj hnames).1.symm hdot
    | cons _ before =>
      obtain ⟨rfl, hrest⟩ := List.cons.inj hnames
      obtain ⟨directory, w, hleads, hlast⟩ := ih hrest
      exact ⟨directory, w, .stay hleads, hlast⟩
  | up _ ih =>
    cases before with
    | nil => exact absurd (List.cons.inj hnames).1.symm hdots
    | cons _ before =>
      obtain ⟨rfl, hrest⟩ := List.cons.inj hnames
      obtain ⟨directory, w, hleads, hlast⟩ := ih hrest
      exact ⟨directory, w, .up hleads, hlast⟩
  | @enter links here first rest _ r hfirst hl hrest ih =>
    cases before with
    | nil =>
      obtain ⟨rfl, rfl⟩ := List.cons.inj hnames
      obtain ⟨w, hw⟩ := t.directoryAt_eq here
      refine ⟨here, w, hw ▸ .arrived, .inl ?_⟩
      cases hrest
      rfl
    | cons _ before =>
      obtain ⟨rfl, rfl⟩ := List.cons.inj hnames
      obtain ⟨directory, w, hleads, hlast⟩ := ih rfl
      exact ⟨directory, w, .enter hfirst hl hleads, hlast⟩
  | @jump links here first rest target r hfirst hl _ htarget _ ih =>
    cases before with
    | nil =>
      obtain ⟨rfl, rfl⟩ := List.cons.inj hnames
      obtain ⟨w, hw⟩ := t.directoryAt_eq here
      exact ⟨here, w, hw ▸ .arrived, .inr ⟨target, hl⟩⟩
    | cons _ before =>
      obtain ⟨rfl, rfl⟩ := List.cons.inj hnames
      obtain ⟨directory, w, hleads, hlast⟩ := ih (List.append_assoc _ _ _).symm
      exact ⟨directory, w, .jump hfirst hl (fun _ => rfl) htarget hleads, hlast⟩
  | @link _ here | @file _ here | @device _ here | @free _ here =>
    obtain ⟨rfl, rfl⟩ : before = [] ∧ name = _ := by simpa [List.singleton_eq_append_iff] using hnames
    obtain ⟨w, hw⟩ := t.directoryAt_eq here
    exact ⟨here, w, hw ▸ .arrived, .inl rfl⟩

/-- **Where a child stands**: under its name in the directory, or where a link of that name leads. -/
theorem hasDirectory_of_find_join {p : Path} {name : Bytes} (hn : Path.IsName name)
    (h : t.find (p.join ⟨name⟩) = .ok r) :
    ∃ directory, t.HasDirectory p directory ∧
      (r.location = directory ++ [name] ∨
        ∃ target, t.lookup (directory ++ [name]) = some (.link target)) := by
  have hsteps : steps (p.join ⟨name⟩).bytes = p.names ++ [name] := by
    rw [steps, Path.endsInSlash_join p hn, Path.names_join p hn]
    rfl
  obtain ⟨hzero, -, hlength, here, hhere, hleads⟩ := findNames_eq_ok_iff.mp h
  obtain ⟨directory, w, hleads, hlast⟩ := hleads.directory hsteps hn.ne_dot hn.ne_dots
  refine ⟨directory, ?_, hlast⟩
  rw [Path.isAbsolute_join p hn] at hhere
  unfold HasDirectory
  split
  · rename_i hempty
    -- No names are left, so that the walk stays where it starts.
    have hnames : p.names = [] := by rw [Path.names, hempty]; rfl
    have habsolute : p.isAbsolute = false := by rw [Path.isAbsolute, hempty]; rfl
    rw [hnames] at hleads
    rw [habsolute] at hhere
    rw [show directory = here from hleads.location_eq rfl]
    exact hhere
  · rename_i hempty
    have hinit : p.bytes <+: (p.join ⟨name⟩).bytes := by
      rcases Path.join_cases p hn with ⟨hp, -⟩ | ⟨front, hjoin, ⟨hp, -⟩ | hp⟩
      · exact absurd hp hempty
      · rw [hjoin, hp]
        exact List.prefix_append _ _
      · rw [hjoin, hp]
        exact ⟨name, by simp⟩
    exact ⟨w, find_of_findNames (findNames_eq_ok_iff.mpr ⟨fun hz => hzero (hinit.subset hz), hempty,
      Nat.le_trans hinit.length_le hlength, here, hhere, hleads⟩)⟩

end FileTree

end ReleasePublisher
