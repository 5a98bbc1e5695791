import ReleasePublisher.Proofs.Toml.StatedTables

/-!
# Keys that are given values

A text gives keys their values line by line, below the table that is open there. A key that has a value is given
none again, in whatever form the two are written, and neither is a key that leads to one. Where a key is given
something other than a string, what stands there in the end is no string, whatever the rest of the text says.

## Main definitions

* `Toml.heading current ls`: the table that is open behind the lines
* `Toml.given current ls`: the paths that the lines give values
* `Toml.Gives b current paths`: a document in which the paths have been given values
* `Toml.ComesToKey given path rest text`: a text that gives a path what `rest` begins with
* `Toml.Node.IsNoString`: the node is no string

## Main results

* `Toml.exists_standsAt_of_carryOut`: the value of an assignment stands at its path, where none stood before
* `Toml.Gives.of_carryOut`, `Toml.Gives.of_foldlM`: what a line gives, and what all lines give
* `Toml.ComesToKey.exists_standsAt`: a path that is given a value again, or no string, holds no string
-/

namespace ReleasePublisher.Toml

open Json (bind_eq_ok map_eq_ok)

variable {names current path : List String} {paths : List (List String)} {name k : String} {ts us : List Token}
  {v : RawValue} {n : Name} {node : Node} {es xs entries : Entries} {ps : List (String × String)}
  {b b' : Building} {s : Statement} {ss : List Statement} {l : Line} {ls : List Line}
  {p gap q u gap' q' rest text : List Char}

/-! ### Assignments -/

/-- **The value of an assignment stands at its path** below the open table, and none stood there before. -/
theorem exists_standsAt_of_carryOut (hts : StatesKey ts names) (hnames : names ≠ [])
    (hplain : IsPlain b.entries) (hcurrent : b.current.map (·.text) = current) (h : carryOut b (.assignment ts v) = .ok b') :
    ∃ node, readValue v = .ok node ∧ node.IsLeaf ∧ IsPlain b'.entries ∧ b'.current = b.current ∧
      StandsAt node b'.entries (current ++ names) ∧
      ∀ w path, w.IsLeaf → ¬ StandsAt w b.entries (current ++ (names ++ path)) := by
  obtain ⟨ns, hns, rfl⟩ := hts.exists_readKey
  rw [ne_eq, List.map_eq_nil_iff] at hnames
  obtain ⟨_, -, h'⟩ := bind_eq_ok.mp h
  obtain ⟨node, hnode, -⟩ := bind_eq_ok.mp h'
  rw [carryOut_assignment hns hnode] at h
  obtain ⟨entries, hentries, rfl⟩ := map_eq_ok.mp h
  have hleaf := isLeaf_of_readValue hnode
  subst hcurrent
  refine ⟨node, hnode, hleaf, ?_, rfl, ?_, ?_⟩
  · exact (keepsPlain_insert ns hleaf.isPlain).descend _ _ _ _ _ _ hplain hentries
  · exact .of_descend (fun _ _ _ hplain hput => .of_insert hnames hplain hput) hplain hentries
  · -- Had a value stood at the path, or below it, the assignment would have failed.
    intro w path hw hstands
    obtain ⟨f, hf⟩ := hstands.exists_error_of_descend
      (fun es origin hes => hes.exists_error_of_insert hnames hw node origin) hw
    rw [hf] at hentries
    cases hentries

/-- A header opens its table. -/
theorem isPlain_of_header {start stop : Nat} (hts : StatesKey ts names) (hnames : names ≠ [])
    (hplain : IsPlain b.entries) (h : carryOut b (.header false ts start stop) = .ok b') :
    IsPlain b'.entries ∧ b'.current.map (·.text) = names := by
  obtain ⟨ns, hns, rfl⟩ := hts.exists_readKey
  rw [ne_eq, List.map_eq_nil_iff] at hnames
  obtain ⟨_, hkey, h⟩ := bind_eq_ok.mp h
  obtain rfl := Except.ok.inj (hkey.symm.trans hns)
  split at h
  · rename_i hnone
    exact absurd (List.getLast?_eq_none_iff.mp hnone) hnames
  · obtain ⟨entries, hentries, h⟩ := bind_eq_ok.mp h
    obtain rfl := Except.ok.inj h
    exact ⟨(keepsPlain_openTable _ _).descend _ _ _ _ _ _ hplain hentries, rfl⟩

/-! ### Lines -/

/-- The key of a line. -/
def Line.key : Line → List String
  | .opens names => names
  | .text names _ => names
  | .table names _ => names

/-- The table that is open behind a line. -/
def Line.opened (current : List String) : Line → List String
  | .opens names => names
  | _ => current

/-- The paths that a line gives values. -/
def Line.given (current : List String) : Line → List (List String)
  | .opens _ => []
  | .text names _ => [current ++ names]
  | .table names es => es.map fun e => current ++ (names ++ [e.1])

/-- **The table that is open** behind lines. -/
def heading : List String → List Line → List String
  | current, [] => current
  | current, l :: ls => heading (l.opened current) ls

/-- **The paths that lines give values**, each below the table that is open at its line. -/
def given : List String → List Line → List (List String)
  | _, [] => []
  | current, l :: ls => l.given current ++ given (l.opened current) ls

theorem IsKeyText.ne_nil (h : IsKeyText names q) : names ≠ [] := by
  cases h with
  | single => exact List.cons_ne_nil _ _
  | dotted => exact List.cons_ne_nil _ _

theorem IsGivenKey.names_ne_nil (h : IsGivenKey names q) : names ≠ [] := by
  obtain ⟨t, before, after, ht, -⟩ := h
  exact ht.ne_nil

theorem Line.IsText.key_ne_nil (h : l.IsText p) : l.key ≠ [] := by
  cases h with
  | opens _ ht => exact ht.ne_nil
  | text h =>
    obtain ⟨q, x, hq, -⟩ := h
    exact hq.names_ne_nil
  | table hq => exact hq.names_ne_nil

theorem AreLines.key_ne_nil (h : AreLines rest ls p) : ∀ l ∈ ls, l.key ≠ [] := by
  induction h with
  | nil => exact List.forall_mem_nil _
  | empty _ _ _ _ ih => exact ih
  | line _ hp _ _ _ _ ih => exact List.forall_mem_cons.mpr ⟨hp.key_ne_nil, ih⟩

/-- **A document in which paths have been given values**, and the table that is open. -/
structure Gives (b : Building) (current : List String) (paths : List (List String)) : Prop where
  isPlain : IsPlain b.entries
  current_eq : b.current.map (·.text) = current
  stands : ∀ path ∈ paths, ∃ w : Node, w.IsLeaf ∧ StandsAt w b.entries path

theorem Gives.nil : Gives ⟨[], []⟩ [] [] :=
  ⟨.nil, rfl, List.forall_mem_nil _⟩

/-- What is read of an inline table has its entries. -/
theorem exists_lookup_of_isEntry (h : List.Forall₂ IsEntry xs ps) {e : String × String} (he : e ∈ ps) :
    ∃ w : Node, w.IsLeaf ∧ lookup xs e.1 = some w := by
  induction h with
  | nil => cases he
  | @cons x e' xs ps hx _ ih =>
    obtain ⟨n, node⟩ := x
    obtain ⟨hn, span, hnode⟩ : n.text = e'.1 ∧ ∃ span, node = .scalar (.text e'.2) span := hx
    rw [lookup_cons]
    by_cases hname : n.text = e.1
    · refine ⟨node, ?_, if_pos hname⟩
      rw [hnode]
      trivial
    · rw [if_neg hname]
      rcases List.mem_cons.mp he with rfl | he
      · exact absurd hn hname
      · exact ih he

theorem exists_entries_of_inline {start stop : Nat} {items : List (List Token × RawValue)}
    (h : readValue (.inline start stop items) = .ok node) :
    ∃ xs, items.foldlM addEntry [] = .ok xs ∧ node = .table .inline xs (some ⟨start, stop⟩) := by
  rw [readValue, readEntries_eq] at h
  obtain ⟨xs, hxs, rfl⟩ := map_eq_ok.mp h
  exact ⟨xs, hxs, rfl⟩

/-- **A line gives its paths values.** -/
theorem Gives.of_carryOut (h : Gives b current paths) (hl : l.key ≠ []) (hs : l.Means s)
    (hrun : carryOut b s = .ok b') : Gives b' (l.opened current) (paths ++ l.given current) := by
  have hkept : ∀ path ∈ paths, ∃ w : Node, w.IsLeaf ∧ StandsAt w b'.entries path := by
    intro path hpath
    obtain ⟨w, hw, hstands⟩ := h.stands path hpath
    exact ⟨w, hw, hstands.of_carryOut hw hrun⟩
  cases hs with
  | opens hts =>
    obtain ⟨hplain, hcurrent⟩ := isPlain_of_header hts hl h.isPlain hrun
    exact ⟨hplain, hcurrent, by simpa [Line.given] using hkept⟩
  | text hts hv =>
    obtain ⟨node, -, hleaf, hplain, hcurrent, hstands, -⟩ :=
      exists_standsAt_of_carryOut hts hl h.isPlain h.current_eq hrun
    refine ⟨hplain, hcurrent ▸ h.current_eq, List.forall_mem_append.mpr ⟨hkept, ?_⟩⟩
    exact List.forall_mem_singleton.mpr ⟨node, hleaf, hstands⟩
  | @table names es ts v hts hv =>
    obtain ⟨node, hnode, -, hplain, hcurrent, hstands, -⟩ :=
      exists_standsAt_of_carryOut hts hl h.isPlain h.current_eq hrun
    refine ⟨hplain, hcurrent ▸ h.current_eq, List.forall_mem_append.mpr ⟨hkept, ?_⟩⟩
    obtain ⟨start, stop, items, rfl, hitems⟩ := hv
    obtain ⟨xs, hread, rfl⟩ := exists_entries_of_inline hnode
    obtain ⟨_, hxs, rfl⟩ := adds_addEntry.of_foldlM rfl (givesText_of_entries hitems) hread
    intro path hpath
    obtain ⟨e, he, rfl⟩ := List.mem_map.mp hpath
    obtain ⟨w, hw, hlookup⟩ := exists_lookup_of_isEntry hxs he
    refine ⟨w, hw, ?_⟩
    rw [← List.append_assoc]
    exact hstands.into (.here hlookup)

/-- **Lines give their paths values.** -/
theorem Gives.of_foldlM (h : Gives b current paths) (hls : ∀ l ∈ ls, l.key ≠ [])
    (hss : List.Forall₂ Line.Means ls ss) (hrun : ss.foldlM carryOut b = .ok b') :
    Gives b' (heading current ls) (paths ++ given current ls) := by
  induction hss generalizing b current paths with
  | nil =>
    obtain rfl := Except.ok.inj hrun
    rwa [given, List.append_nil]
  | cons hs _ ih =>
    rw [List.foldlM_cons] at hrun
    obtain ⟨b₁, hb₁, hrun⟩ := bind_eq_ok.mp hrun
    obtain ⟨hl, hls⟩ := List.forall_mem_cons.mp hls
    rw [heading, given, ← List.append_assoc]
    exact ih (h.of_carryOut hl hs hb₁) hls hrun

/-! ### Texts that give a path a value again, or no string -/

/-- **A text that comes to a path** behind lines, which have given other paths their values. It gives the path
what `rest` begins with. -/
inductive ComesToKey (rest : List Char) : List (List String) → List String → List Char → Prop
  | line {ls : List Line} {names : List String} {p gap q : List Char} (hp : AreLines (gap ++ (q ++ rest)) ls p)
      (hgap : AreBlanks gap) (hq : IsGivenKey names q) :
      ComesToKey rest (given [] ls) (heading [] ls ++ names) (p ++ (gap ++ (q ++ rest)))
  | inline {ls : List Line} {names : List String} {ps : List (String × String)} {k : String}
      {p gap q u gap' q' : List Char} (hp : AreLines (gap ++ (q ++ '{' :: (u ++ (gap' ++ (q' ++ rest))))) ls p)
      (hgap : AreBlanks gap) (hq : IsGivenKey names q) (hu : AreEntries ps u) (hgap' : AreBlanks gap')
      (hq' : IsGivenKey [k] q') :
      ComesToKey rest (given [] (ls ++ [.table names ps])) (heading [] ls ++ (names ++ [k]))
        (p ++ (gap ++ (q ++ '{' :: (u ++ (gap' ++ (q' ++ rest))))))

/-- The node is no string. -/
def Node.IsNoString (node : Node) : Prop :=
  ∀ s span, node ≠ .scalar (.text s) span

theorem lookup_last (hfresh : n.text ∉ entryNames es) (node : Node) :
    lookup (es ++ [(n, node)]) n.text = some node := by
  rw [lookup_append, lookup_eq_none_iff.mpr hfresh, Option.none_or, lookup_cons_self]

/-- A value stays where it stands through the entries of an inline table. -/
theorem StandsAt.of_addEntries {items : List (List Token × RawValue)} {es' : Entries}
    (h : StandsAt node es path) (hnode : node.IsLeaf) (hrun : items.foldlM addEntry es = .ok es') :
    StandsAt node es' path := by
  refine of_foldlM (P := fun es => StandsAt node es path) (fun es x es' h hadd => ?_) h hrun
  obtain ⟨names, -, hadd⟩ := bind_eq_ok.mp hadd
  obtain ⟨w, -, hadd⟩ := bind_eq_ok.mp hadd
  exact keeps_insert names w node hnode path es .inline es' h hadd

/-- A value that is grouped from no string is read as none. -/
theorem isNoString_of_rawValue {fuel depth : Nat} {inside : Bool} {start : Nat} (hrest : BeginsNoString rest)
    (hv : rawValue fuel depth inside (tokensFrom start rest) = .ok (v, us)) (hnode : readValue v = .ok node) :
    node.IsNoString :=
  fun s span => ne_text_of_readValue (not_isQuoted_of_rawValue hv (hrest.isQuoted_nextToken start)) hnode s span

/-- **Behind lines, an assignment** is carried out where they have led to. -/
theorem exists_gives (hss : List.Forall₂ Line.Means ls ss) (hls : ∀ l ∈ ls, l.key ≠ [])
    {more : List Statement} (hrun : (ss ++ s :: more).foldlM carryOut ⟨[], []⟩ = .ok b) :
    ∃ c c', Gives c (heading [] ls) (given [] ls) ∧ carryOut c s = .ok c' ∧
      more.foldlM carryOut c' = .ok b := by
  rw [List.foldlM_append] at hrun
  obtain ⟨c, hc, hrun⟩ := bind_eq_ok.mp hrun
  rw [List.foldlM_cons] at hrun
  obtain ⟨c', hc', hrun⟩ := bind_eq_ok.mp hrun
  exact ⟨c, c', Gives.nil.of_foldlM hls hss hc, hc', hrun⟩

/-- **A line that gives a path a value again, or no string**, leaves a value there that is no string. -/
theorem exists_standsAt_of_line (hp : AreLines (gap ++ (q ++ rest)) ls p) (hgap : AreBlanks gap)
    (hq : IsGivenKey names q) (hrest : IsFlush rest)
    (hflaw : heading [] ls ++ names ∈ given [] ls ∨ BeginsNoString rest)
    (hparse : parse (p ++ (gap ++ (q ++ rest))) = .ok entries) :
    ∃ node, StandsAt node entries (heading [] ls ++ names) ∧ node.IsNoString := by
  obtain ⟨ss, ts, start, fuel, hss, hts, -, hall⟩ := exists_statements_key hp hgap hq hrest
  obtain ⟨all, b, hstatements, hrun, rfl⟩ := parse_eq_ok_iff.mp hparse
  obtain ⟨v, us, others, hv, rfl⟩ := hall all hstatements
  obtain ⟨c, c', hgives, hc, hothers⟩ := exists_gives hss hp.key_ne_nil hrun
  obtain ⟨node, hnode, hleaf, -, -, hstands, hfresh⟩ :=
    exists_standsAt_of_carryOut hts hq.names_ne_nil hgives.isPlain hgives.current_eq hc
  refine ⟨node, hstands.of_statements hleaf hothers, ?_⟩
  rcases hflaw with hagain | hflaw
  · -- A path that has a value is given none again, so there is no such document.
    obtain ⟨w, hw, hstood⟩ := hgives.stands _ hagain
    exact absurd hstood (by simpa using hfresh w [] hw)
  · exact isNoString_of_rawValue hflaw hv hnode

/-- **An entry behind others** stands in the inline table, and none of the others has its name. -/
theorem exists_standsAt_of_entry {items more : List (List Token × RawValue)} {start stop : Nat}
    (hitems : List.Forall₂ MeansEntry items ps) (hts : StatesKey ts [k])
    (h : readValue (.inline start stop (items ++ (ts, v) :: more)) = .ok node) :
    ∃ xs span inner, node = .table .inline xs span ∧ readValue v = .ok inner ∧ StandsAt inner xs [k] ∧
      k ∉ ps.map (·.1) := by
  obtain ⟨xs, hread, rfl⟩ := exists_entries_of_inline h
  have hvalue : ∀ es es', addEntry es (ts, v) = .ok es' → ∃ node, GivesInline (ts, v) k node := by
    intro es es' hadd
    obtain ⟨_, -, hadd⟩ := bind_eq_ok.mp hadd
    obtain ⟨node, hnode, -⟩ := bind_eq_ok.mp hadd
    exact ⟨node, hts, hnode⟩
  obtain ⟨hnew, xs', n, inner, _, rfl, ⟨-, hinner⟩, hlast, rfl, hmore⟩ :=
    adds_addEntry.of_foldlM_append rfl (givesText_of_entries hitems) hvalue hread
  have hstands : StandsAt inner (xs' ++ [(n, inner)]) [n.text] := .here (lookup_last hlast inner)
  exact ⟨xs, _, inner, rfl, hinner, hstands.of_addEntries (isLeaf_of_readValue hinner) hmore, hnew⟩

theorem given_append (current : List String) (ls ls' : List Line) :
    given current (ls ++ ls') = given current ls ++ given (heading current ls) ls' := by
  induction ls generalizing current with
  | nil => rfl
  | cons l ls ih => rw [List.cons_append, given, ih, given, heading, List.append_assoc]

/-- **An inline table that gives a path a value again, or no string**, leaves a value there that is no
string. -/
theorem exists_standsAt_of_inline (hp : AreLines (gap ++ (q ++ '{' :: (u ++ (gap' ++ (q' ++ rest))))) ls p)
    (hgap : AreBlanks gap) (hq : IsGivenKey names q) (hu : AreEntries ps u) (hgap' : AreBlanks gap')
    (hq' : IsGivenKey [k] q') (hrest : IsFlush rest)
    (hflaw : heading [] ls ++ (names ++ [k]) ∈ given [] (ls ++ [.table names ps]) ∨ BeginsNoString rest)
    (hparse : parse (p ++ (gap ++ (q ++ '{' :: (u ++ (gap' ++ (q' ++ rest)))))) = .ok entries) :
    ∃ node, StandsAt node entries (heading [] ls ++ (names ++ [k])) ∧ node.IsNoString := by
  have hflush : IsFlush ('{' :: (u ++ (gap' ++ (q' ++ rest)))) := .cons (by decide) _
  obtain ⟨ss, ts, start, fuel, hss, hts, hfuel, hall⟩ := exists_statements_key hp hgap hq hflush
  obtain ⟨all, b, hstatements, hrun, rfl⟩ := parse_eq_ok_iff.mp hparse
  obtain ⟨v, us, others, hv, rfl⟩ := hall all hstatements
  obtain ⟨c, c', hgives, hc, hothers⟩ := exists_gives hss hp.key_ne_nil hrun
  obtain ⟨items, ts', start', hitems, hts', hinline⟩ := exists_inline_key hu hgap' hq' hrest start hfuel
  obtain ⟨stop, w, ws, m, more, hw, rfl⟩ := hinline v us hv
  obtain ⟨table, htable, -, -, -, hstands, hfresh⟩ :=
    exists_standsAt_of_carryOut hts hq.names_ne_nil hgives.isPlain hgives.current_eq hc
  obtain ⟨xs, span, node, rfl, hnode, hentry, hnew⟩ := exists_standsAt_of_entry hitems hts' htable
  have hthere := hstands.into hentry
  rw [List.append_assoc] at hthere
  refine ⟨node, hthere.of_statements (isLeaf_of_readValue hnode) hothers, ?_⟩
  rcases hflaw with hagain | hflaw
  · rw [given_append, List.mem_append] at hagain
    rcases hagain with hagain | hagain
    · -- The lines before have given the path a value already.
      obtain ⟨w, hw, hstood⟩ := hgives.stands _ hagain
      exact absurd hstood (hfresh w _ hw)
    · -- The inline table itself has the entry already.
      obtain ⟨e, he, hpath⟩ :
          ∃ e ∈ ps, heading [] ls ++ (names ++ [e.1]) = heading [] ls ++ (names ++ [k]) := by
        simpa [given, Line.given] using hagain
      simp only [List.append_cancel_left_eq, List.cons.injEq, and_true] at hpath
      exact absurd (List.mem_map.mpr ⟨e, he, hpath⟩) hnew
  · exact isNoString_of_rawValue hflaw hw hnode

/-- **Where a text gives a path a value again, or no string**, what stands there in the end is no string. -/
theorem ComesToKey.exists_standsAt (h : ComesToKey rest paths path text) (hrest : IsFlush rest)
    (hflaw : path ∈ paths ∨ BeginsNoString rest) (hparse : parse text = .ok entries) :
    ∃ node, StandsAt node entries path ∧ node.IsNoString := by
  cases h with
  | line hp hgap hq => exact exists_standsAt_of_line hp hgap hq hrest hflaw hparse
  | inline hp hgap hq hu hgap' hq' => exact exists_standsAt_of_inline hp hgap hq hu hgap' hq' hrest hflaw hparse

end ReleasePublisher.Toml
