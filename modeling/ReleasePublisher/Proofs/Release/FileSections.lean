import ReleasePublisher.Proofs.Release.Precedence
import ReleasePublisher.Proofs.Release.ToldRecords
import ReleasePublisher.Proofs.Text.Utf8Reading
import ReleasePublisher.Proofs.Toml.GivenKeys

/-!
# Sections that a file states

A configuration file may state its section below a header, by dotted keys, or as an inline table, in any order
and with any other names among its own. What is loaded is the section, with nothing in the places that the file
leaves out. A name of the section that is given twice, or something other than a string, makes the file invalid.

## Main definitions

* `FileSection.given s`: the names of a section and the strings it has for them
* `FileSection.IsStatedBy s ps`: the entries state the section
* `FileConfig.IsLoadedFrom t root p text`: the file that is read, and what it holds

## Main results

* `FileSection.entryValues_eq`: what is read of the entries of a table
* `FileSection.exists_error_of_lookup`: an entry that is no string is refused
* `FileConfig.load_of_form`: what is loaded of a file that states a section, and that a flawed file is refused
-/

namespace ReleasePublisher

open Json (map_eq_ok)
open Toml

variable {ps : List (String × String)} {k v : String} {es xs entries : Entries} {node : Node}

/-! ### Entries and values -/

/-- **The string of a name** is that of its entry, where no name is given twice. -/
theorem find?_eq_some_iff_mem (h : (ps.map (·.1)).Nodup) :
    (ps.find? (·.1 == k)).map (·.2) = some v ↔ (k, v) ∈ ps := by
  induction ps with
  | nil => simp
  | cons e ps ih =>
    obtain ⟨name, w⟩ := e
    rw [List.map_cons, List.nodup_cons] at h
    by_cases hname : name = k
    · subst hname
      have hother : (name, v) ∉ ps := fun hmem => h.1 (List.mem_map.mpr ⟨_, hmem, rfl⟩)
      simp [hother, eq_comm]
    · rw [List.find?_cons_of_neg (by simpa using hname), ih h.2]
      simp [Ne.symm hname]

namespace FileSection

variable {s : FileSection}

/-- The names of a section, with the strings that it has for them. -/
def given (s : FileSection) : List (String × Option String) :=
  [("project", s.project), ("owner", s.owner), ("platform", s.platform),
    ("build_dir", s.buildDir.map Path.display), ("output_dir", s.outputDir.map Path.display),
    ("api_url", s.apiUrl)]

/-- **The entries state the section**: each name that has a string is given it, and each that has none is left
out. Other names may be given anything. -/
def IsStatedBy (s : FileSection) (ps : List (String × String)) : Prop :=
  (ps.map (·.1)).Nodup ∧ ∀ e ∈ s.given, ∀ v, (e.1, v) ∈ ps ↔ e.2 = some v

/-- The name is one of a section. -/
def isKnown (k : String) : Bool :=
  (names.find? (·.1 == k)).isSome

theorem isKnown_iff : isKnown k = true ↔ k ∈ names.map (·.1) := by
  simp [isKnown, List.find?_isSome]

/-- **What is read of the entries of a table**: the strings of known names, in their order. -/
theorem entryValues_eq (h : List.Forall₂ IsEntry xs ps) :
    entryValues xs = .ok (ps.filter fun e => isKnown e.1) := by
  induction h with
  | nil => rfl
  | @cons x e xs ps hx _ ih =>
    obtain ⟨n, node⟩ := x
    obtain ⟨name, w⟩ := e
    obtain ⟨rfl, span, rfl⟩ : n.text = name ∧ ∃ span, node = .scalar (.text w) span := hx
    rw [entryValues, ih]
    split
    · rename_i hnone
      rw [List.filter_cons_of_neg (by simp [isKnown, hnone])]
    · rename_i hsome
      rw [List.filter_cons_of_pos (by simp [isKnown, hsome])]
      rfl

theorem find?_known (hk : isKnown k = true) :
    (ps.filter fun e => isKnown e.1).find? (·.1 == k) = ps.find? (·.1 == k) := by
  rw [List.find?_filter]
  congr 1
  funext e
  by_cases he : e.1 = k
  · simp [he, hk]
  · simp [he]

theorem isKnown_of_mem_given {e : String × Option String} (h : e ∈ s.given) : isKnown e.1 = true := by
  have hnames : s.given.map (·.1) = names.map (·.1) := rfl
  rw [isKnown_iff, ← hnames]
  exact List.mem_map_of_mem h

/-- **The strings that state a section** make up the section. -/
theorem IsStatedBy.ofValues_eq (h : s.IsStatedBy ps) (hs : s.IsWritable) :
    ofValues (ps.filter fun e => isKnown e.1) = s := by
  have hvalue : ∀ e ∈ s.given, ((ps.filter fun e => isKnown e.1).find? (·.1 == e.1)).map (·.2) = e.2 := by
    intro e he
    ext v
    rw [find?_known (isKnown_of_mem_given he), ← h.2 e he v]
    exact find?_eq_some_iff_mem h.1
  simp only [given, List.forall_mem_cons] at hvalue
  obtain ⟨hproject, howner, hplatform, hbuildDir, houtputDir, hapiUrl, -⟩ := hvalue
  simp only [ofValues, hproject, howner, hplatform, hbuildDir, houtputDir, hapiUrl, map_ofText_display hs.1,
    map_ofText_display hs.2]

/-- What is no string is refused where a string is expected. -/
theorem exists_error_of_isNoString (h : node.IsNoString) (expected : String) (span : Span) :
    ∃ f, nodeText expected span node = .error f := by
  unfold nodeText
  split
  · exact absurd rfl (h _ _)
  · exact ⟨_, rfl⟩

/-- **An entry that is no string is refused** where its name is one of a section. -/
theorem exists_error_of_lookup (hk : k ∈ names.map (·.1)) (hes : lookup es k = some node)
    (hnode : node.IsNoString) : ∃ f, entryValues es = .error f := by
  induction es with
  | nil => cases hes
  | cons e es ih =>
    obtain ⟨n, w⟩ := e
    rw [lookup_cons] at hes
    rw [entryValues]
    by_cases hn : n.text = k
    · rw [if_pos hn] at hes
      obtain rfl := Option.some.inj hes
      obtain ⟨known, hknown⟩ := Option.isSome_iff_exists.mp (isKnown_iff.mpr hk)
      rw [hn, hknown]
      obtain ⟨f, hf⟩ := exists_error_of_isNoString hnode known.2 n.span
      exact ⟨f, by simp only [hf]; rfl⟩
    · rw [if_neg hn] at hes
      obtain ⟨f, hf⟩ := ih hes
      rw [hf]
      split
      · exact ⟨f, rfl⟩
      · rename_i known _
        cases nodeText known n.span w with
        | error g => exact ⟨g, rfl⟩
        | ok t => exact ⟨f, rfl⟩

end FileSection

namespace FileConfig

variable {t : FileTree} {root p : Path} {text : List Char} {s : FileSection}

/-- **A table that states a section** is read as it. -/
theorem ofToml_of_isTable (hs : s.IsWritable) (hps : s.IsStatedBy ps) (hparse : parse text = .ok entries)
    (hxs : List.Forall₂ IsEntry xs ps) (htable : IsTable "release" xs entries) : ofToml text = .ok ⟨s⟩ := by
  have hvalues := hps.ofValues_eq hs
  rw [ofToml, hparse]
  rcases htable with ⟨r, origin, span, hr, rfl⟩ | ⟨rfl, rfl⟩
  · simp only [bind, Except.bind, List.find?_cons, hr, beq_self_eq_true, FileSection.ofNode,
      FileSection.entryValues_eq hxs, Except.map, hvalues]
    rfl
  · cases hxs
    rw [← hvalues]
    rfl

/-- **A table with a known name that is no string** is refused. -/
theorem exists_error_of_standsAt (hk : k ∈ FileSection.names.map (·.1))
    (hparse : parse text = .ok entries) (hnode : StandsAt node entries ["release", k])
    (hstring : node.IsNoString) : ∃ f, ofToml text = .error f := by
  -- The path has two names: the second stands in the table of the first.
  obtain _ | @⟨_, inner, _, _, origin, span, hrelease, hinner⟩ := hnode
  obtain ⟨hlookup⟩ | ⟨_, ⟨⟩⟩ := hinner
  obtain ⟨⟨n, v⟩, hfind, rfl⟩ := Option.map_eq_some_iff.mp hrelease
  obtain ⟨f, hf⟩ := FileSection.exists_error_of_lookup hk hlookup hstring
  refine ⟨f, ?_⟩
  rw [ofToml, hparse]
  simp only [bind, Except.bind, hfind, FileSection.ofNode, hf]
  rfl

/-- **The file that is read**, and what it holds. -/
structure IsLoadedFrom (t : FileTree) (root p : Path) (text : List Char) : Prop where
  chosen : IsChosen t root p
  read_eq : t.read p = .ok (Utf8.encodeChars text)

theorem load_eq (h : IsLoadedFrom t root p text) : load t root =
    ((ofToml text).mapError fun f => .config (.invalidFile p (f.report text))).map fun c => some (p, c) := by
  simp only [load, find?_eq_some_iff.mpr h.chosen, h.read_eq, ofBytes, Utf8.decodeChars?_encodeChars]

/-- A file that is no configuration is invalid. -/
theorem exists_invalidFile (h : IsLoadedFrom t root p text) (hfault : ∃ f, ofToml text = .error f) :
    ∃ reason, load t root = .error (.config (.invalidFile p reason)) := by
  obtain ⟨f, hf⟩ := hfault
  exact ⟨f.report text, by rw [load_eq h, hf]; rfl⟩

/-- **What is loaded of a file that holds the text.** -/
structure LoadsSections (t : FileTree) (root p : Path) (text : List Char) : Prop where
  /-- The section that the file states in one of the three forms. -/
  of_stated : ∀ (form : TableForm) (s : FileSection) ps, s.IsWritable → s.IsStatedBy ps →
    AreLines [] (form.lines "release" ps) text → load t root = .ok (some (p, ⟨s⟩))
  /-- A file that gives a name a value again, or something that begins no string, is invalid, whatever stands
  behind it. -/
  of_flawed : ∀ k paths rest, k ∈ FileSection.names.map (·.1) → ComesToKey rest paths ["release", k] text →
    IsFlush rest → (["release", k] ∈ paths ∨ BeginsNoString rest) →
      ∃ reason, load t root = .error (.config (.invalidFile p reason))
  /-- A file that holds something other than a string for a name is invalid, whatever else is in it. -/
  of_mistyped : ∀ k entries node, k ∈ FileSection.names.map (·.1) → parse text = .ok entries →
    StandsAt node entries ["release", k] → node.IsNoString →
      ∃ reason, load t root = .error (.config (.invalidFile p reason))

/-- **A file that states a section is loaded as it**, and a flawed one is refused. The section may be stated
below a header, by dotted keys, or as an inline table, in any order and with any spelling of its strings, and
other names may have strings among its own. A name of it that is given a value twice makes the file invalid,
and so does one that is given a number, a boolean, or an array: the message names the file. -/
theorem load_sections (h : IsLoadedFrom t root p text) : LoadsSections t root p text where
  of_stated form s ps hs hps hlines := by
    obtain ⟨entries, xs, hparse, hxs, htable⟩ := exists_parse hlines hps.1
    rw [load_eq h, ofToml_of_isTable hs hps hparse hxs htable]
    rfl
  of_flawed k paths rest hk hkey hrest hflaw := by
    refine exists_invalidFile h ?_
    cases hparse : parse text with
    | error f => exact ⟨f, by rw [ofToml, hparse]; rfl⟩
    | ok entries =>
      obtain ⟨node, hnode, hstring⟩ := hkey.exists_standsAt hrest hflaw hparse
      exact exists_error_of_standsAt hk hparse hnode hstring
  of_mistyped k entries node hk hparse hnode hstring :=
    exists_invalidFile h (exists_error_of_standsAt hk hparse hnode hstring)

namespace Sample

/-- The working directory `w` with a configuration file that holds the text. -/
def holding (text : List Char) : FileTree where
  nodes := [([[0x77]], .folder),
    ([[0x77], Utf8.encode "relup.toml"], .file ⟨Utf8.encodeChars text, 0o644, 0⟩)]
  current := some [[0x77]]
  now := 1

theorem isLoadedFrom_holding (text : List Char) :
    IsLoadedFrom (holding text) (.ofText "/w") (.ofText "/w/relup.toml") text where
  chosen := find?_eq_some_iff.mp rfl
  read_eq := by
    have hstatus : (holding text).status (.ofText "/w/relup.toml") =
        .ok (.file ⟨Utf8.encodeChars text, 0o644, 0⟩) := rfl
    have hmode : FileTree.mayRead 0o644 = true := by decide
    rw [FileTree.read_of_status hstatus, if_pos hmode]

/-- The dotted key `release.owner`. -/
def ownerKey : List Char :=
  ['r', 'e', 'l', 'e', 'a', 's', 'e', '.', 'o', 'w', 'n', 'e', 'r', '=']

theorem isGivenKey_ownerKey : IsGivenKey ["release", "owner"] ownerKey := by
  have hrelease : IsNameText "release" ['r', 'e', 'l', 'e', 'a', 's', 'e'] :=
    .inl ⟨by decide, List.cons_ne_nil _ _, List.all_eq_true.mp (by decide)⟩
  have howner : IsNameText "owner" ['o', 'w', 'n', 'e', 'r'] :=
    .inl ⟨by decide, List.cons_ne_nil _ _, List.all_eq_true.mp (by decide)⟩
  exact ⟨_, [], [], .dotted hrelease .nil .nil (.single howner), .nil, .nil, rfl⟩

/-- A letter beyond ASCII, by its number. -/
def escaped : List Char :=
  ['"', '\\', 'u', '0', '0', 'e', '9', '"']

theorem isSpelling_escaped : IsSpelling "é" escaped := by
  have hdigits : AreHexDigits 'é'.toNat ['0', '0', 'e', '9'] := by
    refine ⟨[0, 0, 14, 9], .cons ?_ (.cons ?_ (.cons ?_ (.cons ?_ .nil))), by decide⟩
    · exact ⟨by decide, .inl rfl⟩
    · exact ⟨by decide, .inl rfl⟩
    · exact ⟨by decide, .inl rfl⟩
    · exact ⟨by decide, .inl rfl⟩
  exact ⟨[['\\', 'u', '0', '0', 'e', '9']], .cons (.numbered (by decide) hdigits) .nil, rfl⟩

/-- A line that gives the owner. -/
def ownerLine (ending : List Char) : List Char :=
  ownerKey ++ (escaped ++ ending)

theorem areLines_ownerLine {ending rest : List Char} (h : EndsLine ending rest) :
    AreLines rest [.text ["release", "owner"] "é"] (ownerLine ending) := by
  have hentry : IsEntryText ["release", "owner"] "é" (ownerKey ++ escaped) :=
    ⟨_, _, isGivenKey_ownerKey, isSpelling_escaped, rfl⟩
  have hlines := AreLines.line .nil (.text hentry) .nil (.inl rfl) h .nil
  simpa [ownerLine] using hlines

/-- The owner is given, and given again. -/
def ownerTwice : List Char :=
  ownerLine ['\n'] ++ (ownerKey ++ escaped)

theorem comesToKey_ownerTwice : ComesToKey escaped [["release", "owner"]] ["release", "owner"] ownerTwice :=
  .line (areLines_ownerLine (.inl rfl)) .nil isGivenKey_ownerKey

/-- The owner is given a boolean. -/
def mistyped : List Char :=
  ownerKey ++ ['t', 'r', 'u', 'e']

theorem exists_mistyped : ∃ entries node, parse mistyped = .ok entries ∧
    StandsAt node entries ["release", "owner"] ∧ node.IsNoString := by
  have hsome : (parse mistyped).toOption.isSome = true := by decide +kernel
  have hkey : ComesToKey ['t', 'r', 'u', 'e'] [] ["release", "owner"] mistyped :=
    .line .nil .nil isGivenKey_ownerKey
  have hrest : BeginsNoString ['t', 'r', 'u', 'e'] := by
    rintro _ ⟨⟩
    decide
  cases hparse : parse mistyped with
  | error f =>
    rw [hparse] at hsome
    cases hsome
  | ok entries =>
    obtain ⟨node, hnode, hstring⟩ := hkey.exists_standsAt hrest.isFlush (.inr hrest) hparse
    exact ⟨entries, node, rfl, hnode, hstring⟩

end Sample

/-- An owner is loaded from the file that states it; one that is given twice, and one that is a boolean, make
the file invalid. -/
theorem load_sections_sample :
    load (Sample.holding (Sample.ownerLine [])) (.ofText "/w") =
        .ok (some (.ofText "/w/relup.toml", ⟨none, some "é", none, none, none, none⟩)) ∧
      (∃ reason, load (Sample.holding Sample.ownerTwice) (.ofText "/w") =
        .error (.config (.invalidFile (.ofText "/w/relup.toml") reason))) ∧
      ∃ reason, load (Sample.holding Sample.mistyped) (.ofText "/w") =
        .error (.config (.invalidFile (.ofText "/w/relup.toml") reason)) := by
  refine ⟨?_, ?_, ?_⟩
  · have hstated : FileSection.IsStatedBy ⟨none, some "é", none, none, none, none⟩ [("owner", "é")] :=
      ⟨by simp, by simp [FileSection.given, eq_comm]⟩
    have hwritable : FileSection.IsWritable ⟨none, some "é", none, none, none, none⟩ := ⟨nofun, nofun⟩
    exact (load_sections (Sample.isLoadedFrom_holding _)).of_stated .dotted _ _ hwritable hstated
      (Sample.areLines_ownerLine (.inr (.inr ⟨rfl, rfl⟩)))
  · exact (load_sections (Sample.isLoadedFrom_holding _)).of_flawed "owner" _ _ (by decide)
      Sample.comesToKey_ownerTwice (.cons (by decide) _) (.inl (by simp))
  · obtain ⟨entries, node, hparse, hnode, hstring⟩ := Sample.exists_mistyped
    exact (load_sections (Sample.isLoadedFrom_holding _)).of_mistyped "owner" entries node (by decide) hparse
      hnode hstring

end FileConfig

end ReleasePublisher
