import ReleasePublisher.Proofs.Release.FileSections

/-!
# How resolving a configuration fails

Resolving fails in reading the file, in what the file states, or in the name of the project. A file that must
not be read, or that is no UTF-8, is a failure of the files; what its text states, and what the project is
called, is a failure of the configuration.

## Main definitions

* `FileSection.Accepts node`: the node can be read as a section
* `FileConfig.IsUsable bytes`: bytes that are a configuration
* `FileConfig.IsReadable t root`: the file that is read, if there is one, is text
* `FileConfig.LoadFails t root e`, `ResolveFails t root overrides env e`: the causes, with the failure of each

## Main results

* `FileConfig.exists_ofToml_iff`: which texts can be used
* `FileConfig.load_eq_error_iff`, `resolve_eq_error_iff`: there are these causes, and no other
* `resolve_failsByFile`: which failures are failures of the configuration
-/

namespace ReleasePublisher

open Json (bind_eq_ok map_eq_ok)
open Toml

variable {t : FileTree} {root p : Path} {overrides : Overrides} {env : Environment} {e : Failure}
  {bytes : Bytes} {text : List Char} {file : Option (Path × FileConfig)}

/-! ### Texts that can be used -/

namespace FileSection

/-- **The node can be read as a section**: nothing that is read of it is something other than a string. -/
inductive Accepts : Node → Prop
  /-- In a table, the values of known names are read. -/
  | table {origin : TableOrigin} {entries : Entries} {span : Option Span}
      (h : ∀ x ∈ entries, isKnown x.1.text = true → ¬ x.2.IsNoString) : Accepts (.table origin entries span)
  /-- In an array, as many items are read as there are names. -/
  | array {items : List Node} {span : Span} (h : ∀ x ∈ items.take names.length, ¬ x.IsNoString) :
      Accepts (.array items span)
  | tables {elements : List Node} {span : Span} (h : ∀ x ∈ elements.take names.length, ¬ x.IsNoString) :
      Accepts (.tables elements span)
  /-- Nothing is read of a date. -/
  | datetime {span : Span} : Accepts (.scalar .datetime span)

theorem exists_nodeText_iff {expected : String} {span : Span} {node : Node} :
    (∃ s, nodeText expected span node = .ok s) ↔ ¬ node.IsNoString := by
  constructor
  · rintro ⟨s, hs⟩ hnode
    obtain ⟨f, hf⟩ := exists_error_of_isNoString hnode expected span
    cases hs.symm.trans hf
  · intro hnode
    simp only [Node.IsNoString, not_forall, not_not] at hnode
    obtain ⟨s, at', rfl⟩ := hnode
    exact ⟨s, rfl⟩

/-- A value is read before others. -/
theorem exists_bind_iff {α β γ : Type} {x : Except Fault α} {rest : Except Fault β} {f : α → β → γ} :
    (∃ c, (do let a ← x; return f a (← rest)) = Except.ok c) ↔
      (∃ a, x = .ok a) ∧ ∃ b, rest = .ok b := by
  cases x with
  | error g => exact ⟨nofun, nofun⟩
  | ok a =>
    cases rest with
    | error g => exact ⟨nofun, nofun⟩
    | ok b => exact ⟨fun _ => ⟨⟨a, rfl⟩, ⟨b, rfl⟩⟩, fun _ => ⟨f a b, rfl⟩⟩

theorem exists_map_iff {α β : Type} {x : Except Fault α} {f : α → β} :
    (∃ b, x.map f = .ok b) ↔ ∃ a, x = .ok a := by
  cases x with
  | error g => exact ⟨nofun, nofun⟩
  | ok a => exact ⟨fun _ => ⟨a, rfl⟩, fun _ => ⟨f a, rfl⟩⟩

theorem exists_entryValues_iff {entries : Entries} :
    (∃ vs, entryValues entries = .ok vs) ↔
      ∀ x ∈ entries, isKnown x.1.text = true → ¬ x.2.IsNoString := by
  induction entries with
  | nil => exact ⟨fun _ => nofun, fun _ => ⟨[], rfl⟩⟩
  | cons e entries ih =>
    obtain ⟨n, v⟩ := e
    rw [entryValues, List.forall_mem_cons, ← ih]
    split
    · rename_i hnone
      simp [isKnown, hnone]
    · rename_i hsome
      rw [exists_bind_iff, exists_nodeText_iff]
      simp [isKnown, hsome]

theorem exists_itemValues_iff {whole : Span} {ns : List (String × String)} {items : List Node} :
    (∃ vs, itemValues whole ns items = .ok vs) ↔ ∀ x ∈ items.take ns.length, ¬ x.IsNoString := by
  induction ns generalizing items with
  | nil => simp [itemValues]
  | cons n ns ih =>
    cases items with
    | nil => simp [itemValues]
    | cons v items =>
      rw [itemValues, exists_bind_iff, exists_nodeText_iff, ih, List.length_cons, List.take_succ_cons,
        List.forall_mem_cons]

/-- **A section is read** of the nodes that can be read as one. -/
theorem exists_ofNode_iff {name : Span} {node : Node} :
    (∃ s, ofNode name node = .ok s) ↔ Accepts node := by
  constructor
  · intro h
    unfold ofNode at h
    split at h
    · exact .table (exists_entryValues_iff.mp (exists_map_iff.mp h))
    · exact .array (exists_itemValues_iff.mp (exists_map_iff.mp h))
    · exact .tables (exists_itemValues_iff.mp (exists_map_iff.mp h))
    · exact .datetime
    · obtain ⟨s, hs⟩ := h
      cases hs
  · intro h
    cases h with
    | table h => exact exists_map_iff.mpr (exists_entryValues_iff.mpr h)
    | array h => exact exists_map_iff.mpr (exists_itemValues_iff.mpr h)
    | tables h => exact exists_map_iff.mpr (exists_itemValues_iff.mpr h)
    | datetime => exact ⟨_, rfl⟩

end FileSection

namespace FileConfig

/-- **The text can be used as a configuration**: it is TOML, and its section, if it has one, can be read. -/
def IsUsableText (text : List Char) : Prop :=
  ∃ entries, parse text = .ok entries ∧
    ∀ node, lookup entries "release" = some node → FileSection.Accepts node

/-- The bytes are a configuration. -/
def IsUsable (bytes : Bytes) : Prop :=
  ∃ text, bytes = Utf8.encodeChars text ∧ IsUsableText text

/-- The file that is read, if there is one, can be read and is UTF-8. -/
def IsReadable (t : FileTree) (root : Path) : Prop :=
  ∀ p, IsChosen t root p → ∃ bytes, t.read p = .ok bytes ∧ Utf8.IsValid bytes

/-- **A configuration is read** of the texts that can be used. -/
theorem exists_ofToml_iff : (∃ c, ofToml text = .ok c) ↔ IsUsableText text := by
  rw [ofToml, IsUsableText]
  cases parse text with
  | error f =>
    constructor
    · rintro ⟨c, hc⟩
      cases hc
    · rintro ⟨entries, hentries, -⟩
      cases hentries
  | ok entries =>
    have hbind : ∀ k, ((.ok entries : Except Fault Entries) >>= k) = (k entries : Except Fault FileConfig) :=
      fun _ => rfl
    simp only [hbind, Except.ok.injEq, exists_eq_left', lookup, Option.map_eq_some_iff]
    cases entries.find? (·.1.text == "release") with
    | none => simpa using ⟨⟨FileSection.empty⟩, rfl⟩
    | some x =>
      have hsection : (∃ s, FileSection.ofNode x.1.span x.2 = .ok s) ↔ _ := FileSection.exists_ofNode_iff
      simp only [Option.some.injEq, exists_eq_left', forall_eq']
      rw [← hsection]
      exact FileSection.exists_map_iff (f := FileConfig.mk)

theorem isUsable_encodeChars_iff : IsUsable (Utf8.encodeChars text) ↔ IsUsableText text := by
  constructor
  · rintro ⟨text', h, husable⟩
    have hdecode := Utf8.decodeChars?_encodeChars text
    rw [h, Utf8.decodeChars?_encodeChars] at hdecode
    obtain rfl := Option.some.inj hdecode
    exact husable
  · intro h
    exact ⟨text, rfl, h⟩

theorem IsLoadedFrom.isReadable (h : IsLoadedFrom t root p text) : IsReadable t root := by
  intro q hq
  obtain rfl := Option.some.inj ((find?_eq_some_iff.mpr h.chosen).symm.trans (find?_eq_some_iff.mpr hq))
  exact ⟨_, h.read_eq, text, rfl⟩

theorem Loads.isReadable (h : Loads t root file) : IsReadable t root := by
  intro q hq
  have hfind := find?_eq_some_iff.mpr hq
  cases h with
  | absent hnone => cases (find?_eq_none_iff.mpr hnone).symm.trans hfind
  | @present p bytes f hp hread hf =>
    obtain rfl := Option.some.inj ((find?_eq_some_iff.mpr hp).symm.trans hfind)
    refine ⟨bytes, hread, ?_⟩
    unfold ofBytes at hf
    split at hf
    · cases hf
    · rename_i text htext
      exact Utf8.isValid_iff.mpr ⟨text, htext⟩

/-! ### Causes -/

/-- What a failure to read the file is said to be about. -/
def readContext (p : Path) : String :=
  "Failed to read config from " ++ p.display

/-- **The causes of a failure in loading the file**, and the failure of each. -/
inductive LoadFails (t : FileTree) (root : Path) : Failure → Prop
  | unread {p : Path} {e : IoError} : IsChosen t root p → t.read p = .error e →
      LoadFails t root (.io e (some (readContext p)))
  | notText {p : Path} {bytes : Bytes} : IsChosen t root p → t.read p = .ok bytes → ¬ Utf8.IsValid bytes →
      LoadFails t root (.io .notText (some (readContext p)))
  | unusable {p : Path} {text : List Char} {f : Fault} : IsLoadedFrom t root p text →
      ofToml text = .error f → LoadFails t root (.config (.invalidFile p (f.report text)))

/-- **Loading fails** for these causes, and no other. -/
theorem load_eq_error_iff : load t root = .error e ↔ LoadFails t root e := by
  constructor
  · intro h
    unfold load at h
    split at h
    · cases h
    rename_i p hp
    have hchosen := find?_eq_some_iff.mp hp
    split at h
    · rename_i hread
      cases h
      exact .unread hchosen hread
    rename_i bytes hread
    unfold ofBytes at h
    split at h
    · rename_i hbytes
      cases h
      exact .notText hchosen hread (Utf8.not_isValid_iff.mpr hbytes)
    · rename_i text htext
      obtain rfl := Utf8.decodeChars?_eq_some_iff.mp htext
      cases hf : ofToml text with
      | ok c =>
        rw [hf] at h
        cases h
      | error f =>
        rw [hf] at h
        cases h
        exact .unusable ⟨hchosen, hread⟩ hf
  · intro h
    cases h with
    | unread hp hread =>
      unfold load
      simp only [find?_eq_some_iff.mpr hp, hread]
      rfl
    | notText hp hread hbytes =>
      unfold load
      simp only [find?_eq_some_iff.mpr hp, hread, ofBytes, Utf8.not_isValid_iff.mp hbytes]
      rfl
    | unusable hloaded hf =>
      rw [load_eq hloaded, hf]
      rfl

/-- **A failure in loading the file** is one of the configuration exactly if the file is text. -/
theorem LoadFails.cases_isReadable (h : LoadFails t root e) :
    (IsReadable t root ∧ ∃ f, e = .config f) ∨ (¬ IsReadable t root ∧ ∃ f context, e = .io f context) := by
  cases h with
  | unread hp hread =>
    refine .inr ⟨fun hreadable => ?_, _, _, rfl⟩
    obtain ⟨bytes, hbytes, -⟩ := hreadable _ hp
    cases hread.symm.trans hbytes
  | notText hp hread hnot =>
    refine .inr ⟨fun hreadable => ?_, _, _, rfl⟩
    obtain ⟨bytes, hbytes, htext⟩ := hreadable _ hp
    obtain rfl := Except.ok.inj (hread.symm.trans hbytes)
    exact hnot htext
  | unusable hloaded _ => exact .inl ⟨hloaded.isReadable, _, rfl⟩

theorem exists_load_error_of_not_isReadable (h : ¬ IsReadable t root) : ∃ e, load t root = .error e := by
  cases hload : load t root with
  | error e => exact ⟨e, rfl⟩
  | ok file => exact absurd (load_eq_ok_iff.mp hload).isReadable h

end FileConfig

/-- The sources of the name of the project. -/
def projectSources (overrides : Overrides) (env : Environment) (file : Option (Path × FileConfig)) :
    List (Option String) :=
  [overrides.project, env.set? projectVariable, FileConfig.stated file (·.project)]

/-- **The causes of a failure in resolving**, and the failure of each. -/
inductive ResolveFails (t : FileTree) (root : Path) (overrides : Overrides) (env : Environment) :
    Failure → Prop
  | file {e : Failure} : FileConfig.LoadFails t root e → ResolveFails t root overrides env e
  | unset {file : Option (Path × FileConfig)} : FileConfig.Loads t root file →
      (∀ name, ¬ IsFirst (projectSources overrides env file) name) →
      ResolveFails t root overrides env (.config (.missingVariable projectVariable))
  | refused {file : Option (Path × FileConfig)} {name reason : String} : FileConfig.Loads t root file →
      IsFirst (projectSources overrides env file) name → projectFault? name = some reason →
      ResolveFails t root overrides env (.config (.invalidProject name reason))

theorem resolveWith_eq_error_iff : resolveWith root overrides env file = .error e ↔
    (e = .config (.missingVariable projectVariable) ∧
      ∀ name, ¬ IsFirst (projectSources overrides env file) name) ∨
    ∃ name reason, e = .config (.invalidProject name reason) ∧
      IsFirst (projectSources overrides env file) name ∧ projectFault? name = some reason := by
  have hstated : (Option.getD (file.map fun f => f.2.release) FileSection.empty).project =
      FileConfig.stated file (·.project) := FileConfig.stated_eq file rfl
  simp only [projectSources, isFirst_three, ← hstated]
  unfold resolveWith
  extract_lets given
  cases hproject : overrides.project <|> env.set? projectVariable <|> given.project with
  | none => simp [eq_comm]
  | some name =>
    cases hfault : projectFault? name with
    | none =>
      simp only [checkProject, hfault]
      simp [bind, Except.bind, pure, Except.pure, hfault]
    | some reason =>
      simp [checkProject, hfault, bind, Except.bind, eq_comm]

/-- **Resolving fails** for these causes, and no other. -/
theorem resolve_eq_error_iff :
    resolve t root overrides env = .error e ↔ ResolveFails t root overrides env e := by
  rw [resolve]
  cases hload : FileConfig.load t root with
  | error e' =>
    simp only [bind, Except.bind, Except.error.injEq]
    constructor
    · rintro rfl
      exact .file (FileConfig.load_eq_error_iff.mp hload)
    · intro h
      cases h with
      | file h => exact Except.error.inj (hload.symm.trans (FileConfig.load_eq_error_iff.mpr h))
      | unset h => cases hload.symm.trans (FileConfig.load_eq_ok_iff.mpr h)
      | refused h => cases hload.symm.trans (FileConfig.load_eq_ok_iff.mpr h)
  | ok file =>
    have hloads := FileConfig.load_eq_ok_iff.mp hload
    refine resolveWith_eq_error_iff.trans ⟨?_, ?_⟩
    · rintro (⟨rfl, hnone⟩ | ⟨name, reason, rfl, hname, hfault⟩)
      · exact .unset hloads hnone
      · exact .refused hloads hname hfault
    · intro h
      have hfile : ∀ file', FileConfig.Loads t root file' → file' = file := fun file' h' =>
        Except.ok.inj ((FileConfig.load_eq_ok_iff.mpr h').symm.trans hload)
      cases h with
      | file h => cases hload.symm.trans (FileConfig.load_eq_error_iff.mpr h)
      | unset h hnone => exact .inl ⟨rfl, hfile _ h ▸ hnone⟩
      | refused h hname hfault => exact .inr ⟨_, _, rfl, hfile _ h ▸ hname, hfault⟩

/-! ### Which failures are failures of the configuration -/

/-- **How an outcome of resolving fails**, by the file that is read. -/
structure FailsByFile (t : FileTree) (root : Path) (out : Except Failure Config) : Prop where
  /-- A failure is one of the configuration exactly if the file is text. -/
  config_iff : ∀ e, out = .error e → ((∃ f, e = .config f) ↔ FileConfig.IsReadable t root)
  /-- The exit code is that of a user's error in the same cases. -/
  exitCode_iff : ∀ e, out = .error e → (e.exitCode = 1 ↔ FileConfig.IsReadable t root)
  /-- A file that cannot be read as text is a failure of the files, with the exit code of the system. -/
  of_unreadable : ¬ FileConfig.IsReadable t root →
    ∃ f context, out = .error (.io f context) ∧ (Failure.io f context).exitCode = 2
  /-- A file that cannot be used is a failure, which names the file as an invalid one if it is text. -/
  of_unusable : ∀ p bytes, FileConfig.IsChosen t root p → t.read p = .ok bytes → ¬ FileConfig.IsUsable bytes →
    ∃ e, out = .error e ∧ (Utf8.IsValid bytes ↔ ∃ reason, e = .config (.invalidFile p reason) ∧
      e.message = "Invalid configuration in " ++ p.display ++ ": " ++ reason)
  /-- A file is called invalid only if it is the one that is read, and is text that cannot be used. -/
  of_invalid : ∀ p reason, out = .error (.config (.invalidFile p reason)) →
    ∃ text, FileConfig.IsLoadedFrom t root p text ∧ ¬ FileConfig.IsUsableText text

theorem ResolveFails.cases_isReadable (h : ResolveFails t root overrides env e) :
    (FileConfig.IsReadable t root ∧ ∃ f, e = .config f) ∨
      (¬ FileConfig.IsReadable t root ∧ ∃ f context, e = .io f context) := by
  cases h with
  | file h => exact h.cases_isReadable
  | unset h => exact .inl ⟨h.isReadable, _, rfl⟩
  | refused h => exact .inl ⟨h.isReadable, _, rfl⟩

/-- A failure in loading the file is the outcome. -/
theorem resolve_of_load_error (h : FileConfig.load t root = .error e) :
    resolve t root overrides env = .error e := by
  rw [resolve, h]
  rfl

theorem FileConfig.exists_fault_of_not_isUsableText (h : ¬ IsUsableText text) :
    ∃ f, ofToml text = .error f := by
  cases hf : ofToml text with
  | error f => exact ⟨f, rfl⟩
  | ok c => exact absurd (exists_ofToml_iff.mp ⟨c, hf⟩) h

/-- **Which failures of resolving are failures of the configuration.** Whatever the files, the root, the
command line and the variables are: a failure is one of the configuration, with the exit code 1, exactly if the
file that is read, if there is one, may be read and is UTF-8; otherwise it is one of the files, with the exit
code 2. A file that is no configuration always makes resolving fail, and it is named as an invalid one exactly
if it is UTF-8. -/
theorem resolve_failsByFile (t : FileTree) (root : Path) (overrides : Overrides) (env : Environment) :
    FailsByFile t root (resolve t root overrides env) where
  config_iff e h := by
    rcases (resolve_eq_error_iff.mp h).cases_isReadable with ⟨hreadable, hconfig⟩ | ⟨hnot, f, context, rfl⟩
    · exact iff_of_true hconfig hreadable
    · exact iff_of_false nofun hnot
  exitCode_iff e h := by
    rcases (resolve_eq_error_iff.mp h).cases_isReadable with ⟨hreadable, f, rfl⟩ | ⟨hnot, f, context, rfl⟩
    · exact iff_of_true rfl hreadable
    · exact iff_of_false nofun hnot
  of_unreadable hnot := by
    obtain ⟨e, hload⟩ := FileConfig.exists_load_error_of_not_isReadable hnot
    rcases (FileConfig.load_eq_error_iff.mp hload).cases_isReadable with ⟨hreadable, -⟩ | ⟨-, f, context, rfl⟩
    · exact absurd hreadable hnot
    · exact ⟨f, context, resolve_of_load_error hload, rfl⟩
  of_unusable p bytes hp hread hbytes := by
    by_cases htext : Utf8.IsValid bytes
    · obtain ⟨text, rfl⟩ := htext
      obtain ⟨f, hf⟩ := FileConfig.exists_fault_of_not_isUsableText
        (fun husable => hbytes (FileConfig.isUsable_encodeChars_iff.mpr husable))
      have hfails := FileConfig.LoadFails.unusable ⟨hp, hread⟩ hf
      exact ⟨_, resolve_of_load_error (FileConfig.load_eq_error_iff.mpr hfails),
        iff_of_true ⟨text, rfl⟩ ⟨_, rfl, rfl⟩⟩
    · have hfails := FileConfig.LoadFails.notText hp hread htext
      refine ⟨_, resolve_of_load_error (FileConfig.load_eq_error_iff.mpr hfails), iff_of_false htext ?_⟩
      rintro ⟨reason, h, -⟩
      cases h
  of_invalid p reason h := by
    generalize he : Failure.config (.invalidFile p reason) = e at h
    cases resolve_eq_error_iff.mp h with
    | file hfails =>
      cases hfails with
      | unread => cases he
      | notText => cases he
      | unusable hloaded hf =>
        cases he
        refine ⟨_, hloaded, fun husable => ?_⟩
        obtain ⟨c, hc⟩ := FileConfig.exists_ofToml_iff.mpr husable
        cases hf.symm.trans hc
    | unset => cases he
    | refused => cases he

namespace Sample

/-- The working directory `w` with a configuration file of one byte, which is no UTF-8. -/
def notText : FileTree where
  nodes := [([[0x77]], .folder), ([[0x77], Utf8.encode "relup.toml"], .file ⟨[0xFF], 0o644, 0⟩)]
  current := some [[0x77]]
  now := 1

end Sample

/-- **A file that is no UTF-8 is a failure of the files**, with the exit code of the system, whatever is given
on the command line. -/
theorem file_not_text_is_failure_of_files :
    ∃ e, resolve Sample.notText (.ofText "/w") ⟨some "f", none, none, none, none⟩ (fun _ => none) = .error e ∧
      FileConfig.IsChosen Sample.notText (.ofText "/w") (.ofText "/w/relup.toml") ∧
      (∀ f, e ≠ .config f) ∧ e.exitCode = 2 := by
  have hresolve : resolve Sample.notText (.ofText "/w") ⟨some "f", none, none, none, none⟩ (fun _ => none) =
      .error (.io .notText (some "Failed to read config from /w/relup.toml")) := by
    decide +kernel
  exact ⟨_, hresolve, FileConfig.find?_eq_some_iff.mp rfl, nofun, rfl⟩

end ReleasePublisher
