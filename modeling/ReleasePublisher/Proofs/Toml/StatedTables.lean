import ReleasePublisher.Proofs.Toml.Documents
import ReleasePublisher.Proofs.Toml.Tables

/-!
# Tables of strings that a text states

A text may state a table below a header, by dotted keys, or inline. In each form every entry is added to the
entries before it, unless one of them has its name, so that a text that gives no name twice is read as the table.

## Main definitions

* `Toml.Adds f Holds Gives`: each step of a run adds an entry to a table
* `Toml.TableForm`, `Toml.TableForm.lines name ps form`: the three forms of a table, and its lines in each of them
* `Toml.IsEntry x e`: the entry has the name and is the string
* `Toml.IsTable name xs entries`: a document that has nothing but the table

## Main results

* `Toml.Adds.of_foldlM`, `Toml.Adds.exists_foldlM`: what a run adds, and that it succeeds
* `Toml.adds_carryOut`, `Toml.adds_addEntry`: a statement adds an entry, and so does an entry of an inline table
* `Toml.exists_parse`: a text that states a table is read as it
-/

namespace ReleasePublisher.Toml

open Json (bind_eq_ok map_eq_ok)

variable {names : List String} {name k s : String} {ts : List Token} {v : RawValue} {n : Name} {node : Node}
  {es xs : Entries} {ps : List (String × String)} {origin : TableOrigin} {b b' : Building}

/-! ### Names and values -/

/-- **The names of a key are read.** -/
theorem StatesKey.exists_readKey (h : StatesKey ts names) :
    ∃ ns, readKey ts = .ok ns ∧ ns.map (·.text) = names := by
  induction h with
  | nil => exact ⟨[], rfl, rfl⟩
  | @cons t name ts names ht _ ih =>
    obtain ⟨ns, hns, rfl⟩ := ih
    refine ⟨⟨name, t.start, t.stop⟩ :: ns, ?_, rfl⟩
    rw [readKey] at hns ⊢
    rw [List.mapM_cons, ht, hns]
    rfl

theorem RawValue.MeansText.exists_readValue (h : v.MeansText s) :
    ∃ span, readValue v = .ok (.scalar (.text s) span) := by
  obtain ⟨t, rfl, ht⟩ := h
  refine ⟨⟨t.start, t.stop⟩, ?_⟩
  rw [readValue, ht]
  rfl

/-- **What is read of a value is a value.** -/
theorem isLeaf_of_readValue (h : readValue v = .ok node) : node.IsLeaf := by
  cases v with
  | scalar t =>
    rw [readValue] at h
    obtain ⟨x, -, rfl⟩ := map_eq_ok.mp h
    trivial
  | array start stop items =>
    rw [readValue] at h
    obtain ⟨nodes, -, rfl⟩ := map_eq_ok.mp h
    trivial
  | inline start stop entries =>
    rw [readValue] at h
    obtain ⟨inner, -, rfl⟩ := map_eq_ok.mp h
    rfl

/-- A name is given a value once, in a table that dotted keys did not make. -/
theorem insert_single (h : origin ≠ .dotted) (n : Name) (v : Node) (es : Entries) :
    insert [n] v es origin =
      if (lookup es n.text).isSome then .error (duplicate n) else .ok (es ++ [(n, v)]) := by
  simp only [insert, List.getLast?_singleton, List.dropLast_singleton, descend, find?_eq,
    beq_eq_false_iff_ne.mpr h, List.length_singleton]
  rfl

/-! ### Tables that entries are added to -/

/-- **Each step adds an entry** to a table, unless there is one with its name. -/
def Adds {σ ι : Type} (f : σ → ι → Except Fault σ) (Holds : Entries → σ → Prop)
    (Gives : ι → String → Node → Prop) : Prop :=
  ∀ es b i k node, Holds es b → Gives i k node →
    (k ∈ entryNames es → ∃ fault, f b i = .error fault) ∧
      (k ∉ entryNames es → ∃ n b', n.text = k ∧ f b i = .ok b' ∧ Holds (es ++ [(n, node)]) b')

/-- The entry of a table has the name and is the string. -/
def IsEntry (x : Name × Node) (e : String × String) : Prop :=
  x.1.text = e.1 ∧ ∃ span, x.2 = .scalar (.text e.2) span

section

variable {σ ι : Type} {f : σ → ι → Except Fault σ} {Holds : Entries → σ → Prop}
  {Gives : ι → String → Node → Prop} {is : List ι} {c c' : σ}

/-- The step gives the name the string. -/
def GivesText (Gives : ι → String → Node → Prop) (i : ι) (e : String × String) : Prop :=
  ∃ span, Gives i e.1 (.scalar (.text e.2) span)

/-- **A run adds the entries** in their order. -/
theorem Adds.of_foldlM (h : Adds f Holds Gives) (hc : Holds es c) (his : List.Forall₂ (GivesText Gives) is ps)
    (hrun : is.foldlM f c = .ok c') : ∃ xs, List.Forall₂ IsEntry xs ps ∧ Holds (es ++ xs) c' := by
  -- By induction on the steps. No step of a run that succeeds adds a name that is there.
  induction his generalizing es c with
  | nil =>
    obtain rfl := Except.ok.inj hrun
    exact ⟨[], .nil, by rwa [List.append_nil]⟩
  | @cons i e is ps hi _ ih =>
    rw [List.foldlM_cons] at hrun
    obtain ⟨c₁, hc₁, hrun⟩ := bind_eq_ok.mp hrun
    obtain ⟨span, hgives⟩ := hi
    obtain ⟨htwice, honce⟩ := h es c i e.1 _ hc hgives
    have hfresh : e.1 ∉ entryNames es := by
      intro hmem
      obtain ⟨fault, hfault⟩ := htwice hmem
      rw [hc₁] at hfault
      cases hfault
    obtain ⟨n, c₂, hn, hc₂, hholds⟩ := honce hfresh
    obtain rfl := Except.ok.inj (hc₁.symm.trans hc₂)
    obtain ⟨xs, hxs, hlast⟩ := ih hholds hrun
    refine ⟨(n, .scalar (.text e.2) span) :: xs, .cons ⟨hn, span, rfl⟩ hxs, ?_⟩
    simpa using hlast

/-- **A run succeeds** where no name is given twice. -/
theorem Adds.exists_foldlM (h : Adds f Holds Gives) (hc : Holds es c)
    (his : List.Forall₂ (GivesText Gives) is ps) (hnodup : (ps.map (·.1)).Nodup)
    (hfresh : ∀ e ∈ ps, e.1 ∉ entryNames es) : ∃ c', is.foldlM f c = .ok c' := by
  induction his generalizing es c with
  | nil => exact ⟨c, rfl⟩
  | @cons i e is ps hi _ ih =>
    obtain ⟨span, hgives⟩ := hi
    rw [List.map_cons, List.nodup_cons] at hnodup
    obtain ⟨-, honce⟩ := h es c i e.1 _ hc hgives
    obtain ⟨n, c₁, hn, hc₁, hholds⟩ := honce (hfresh e (List.mem_cons_self ..))
    -- The names that are left are neither among those before nor the one that is added.
    have hfresh' : ∀ e' ∈ ps, e'.1 ∉ entryNames (es ++ [(n, .scalar (.text e.2) span)]) := by
      intro e' he' hmem
      rw [entryNames, List.map_append, List.mem_append] at hmem
      rcases hmem with hmem | hmem
      · exact hfresh e' (List.mem_cons_of_mem _ he') hmem
      · have hname : e'.1 = e.1 := by simpa [hn] using hmem
        exact hnodup.1 (List.mem_map.mpr ⟨e', he', hname⟩)
    obtain ⟨c', hc'⟩ := ih hholds hnodup.2 hfresh'
    refine ⟨c', ?_⟩
    rw [List.foldlM_cons, hc₁]
    exact hc'

theorem entryNames_of_isEntry (h : List.Forall₂ IsEntry xs ps) : entryNames xs = ps.map (·.1) := by
  induction h with
  | nil => rfl
  | cons hx _ ih => rw [entryNames, List.map_cons, ← entryNames, ih, hx.1, List.map_cons]

/-- **Where a run comes to another name**, it goes on with that name's entry, which is the first of the name. -/
theorem Adds.of_foldlM_append {i : ι} {more : List ι} (h : Adds f Holds Gives) (hc : Holds [] c)
    (his : List.Forall₂ (GivesText Gives) is ps) (hi : ∀ c c', f c i = .ok c' → ∃ node, Gives i k node)
    (hrun : (is ++ i :: more).foldlM f c = .ok c') :
    k ∉ ps.map (·.1) ∧ ∃ xs n node c₁, n.text = k ∧ Gives i k node ∧ k ∉ entryNames xs ∧
      Holds (xs ++ [(n, node)]) c₁ ∧ more.foldlM f c₁ = .ok c' := by
  rw [List.foldlM_append] at hrun
  obtain ⟨c₁, hc₁, hrun⟩ := bind_eq_ok.mp hrun
  rw [List.foldlM_cons] at hrun
  obtain ⟨c₂, hc₂, hrun⟩ := bind_eq_ok.mp hrun
  obtain ⟨xs, hxs, hholds⟩ := h.of_foldlM hc his hc₁
  obtain ⟨node, hnode⟩ := hi c₁ c₂ hc₂
  obtain ⟨htwice, honce⟩ := h _ c₁ i k node hholds hnode
  have hfresh : k ∉ entryNames xs := by
    intro hmem
    obtain ⟨fault, hfault⟩ := htwice hmem
    rw [hc₂] at hfault
    cases hfault
  obtain ⟨n, c₃, hn, hc₃, hlast⟩ := honce hfresh
  obtain rfl := Except.ok.inj (hc₂.symm.trans hc₃)
  refine ⟨?_, xs, n, node, c₂, hn, hnode, hfresh, hlast, hrun⟩
  rwa [← entryNames_of_isEntry hxs]

end

/-! ### The three forms -/

/-- The three forms of a table in a text: below a header, by dotted keys, and inline. -/
inductive TableForm where
  | header
  | dotted
  | inline

/-- The key of an entry of the table. -/
def TableForm.key (name k : String) : TableForm → List String
  | .header => [k]
  | .dotted => [name, k]
  | .inline => [k]

/-- A document in which a table has been stated so far. -/
inductive HasTable (name : String) : TableForm → Entries → Building → Prop
  | header {es : Entries} {r c : Name} {span : Option Span} (hr : r.text = name) (hc : c.text = name) :
      HasTable name .header es ⟨[(r, .table .header es span)], [c]⟩
  | empty : HasTable name .dotted [] ⟨[], []⟩
  | dotted {es : Entries} {r : Name} (hr : r.text = name) :
      HasTable name .dotted es ⟨[(r, .table .dotted es none)], []⟩

/-- The statement gives an entry of the table a value. -/
def Statement.GivesIn (form : TableForm) (name : String) (s : Statement) (k : String) (node : Node) : Prop :=
  ∃ ts v, s = .assignment ts v ∧ StatesKey ts (form.key name k) ∧ readValue v = .ok node

theorem lookup_cons_self (r : Name) (v : Node) (es : Entries) : lookup ((r, v) :: es) r.text = some v := by
  rw [lookup_cons, if_pos rfl]

theorem set_single {r c : Name} (h : c.text = r.text) (v w : Node) : set [(r, v)] c w = [(r, w)] := by
  simp [set, h]

/-- An assignment inserts its value where the key of the open table leads. -/
theorem carryOut_assignment {ns : List Name} (hns : readKey ts = .ok ns) (hv : readValue v = .ok node)
    (b : Building) : carryOut b (.assignment ts v) =
      (descend false .passed (insert ns node) b.current b.entries .header).map fun entries =>
        { b with entries := entries } := by
  rw [carryOut, hns, hv]
  rfl

/-- A key leads into the only table that there is, if that is open to it. -/
theorem descend_single {r c : Name} (h : c.text = r.text) (hinline : origin ≠ .inline) {dotted : Bool}
    (hopen : dotted = false ∨ origin ≠ .header) (made o : TableOrigin)
    (change : Entries → TableOrigin → Except Fault Entries) (es : Entries) (span : Option Span) :
    descend dotted made change [c] [(r, .table origin es span)] o =
      (change es origin).map fun es' => [(r, .table origin es' span)] := by
  have hfind : find? [(r, .table origin es span)] c = some (.table origin es span) := by
    rw [find?_eq, h, lookup_cons_self]
  have hclosed : ¬ (dotted && (origin == .header || origin == .inline)) = true := by
    rcases hopen with rfl | hopen
    · exact Bool.false_ne_true
    · simp [hopen, hinline]
  rw [descend, hfind]
  dsimp only
  rw [within, if_neg hclosed, if_neg (by simpa using hinline), descend]
  cases change es origin with
  | error f => rfl
  | ok es' => exact congrArg Except.ok (set_single h _ _)

/-- **A dotted key is given a value** in the table that dotted keys made. -/
theorem insert_pair {r c : Name} (h : c.text = r.text) (n : Name) (v : Node) (es : Entries) (span : Option Span)
    (o : TableOrigin) : insert [c, n] v [(r, .table .dotted es span)] o =
      if (lookup es n.text).isSome then .error (duplicate n)
      else .ok [(r, .table .dotted (es ++ [(n, v)]) span)] := by
  simp only [insert, List.getLast?_cons_cons, List.getLast?_singleton, List.dropLast_cons_cons,
    List.dropLast_singleton]
  rw [descend_single h (by decide) (.inr (by decide)), find?_eq]
  by_cases hsome : (lookup es n.text).isSome = true
  · simp [hsome, Except.map]
  · simp [hsome, Except.map]

theorem mem_entryNames_iff : k ∈ entryNames es ↔ (lookup es k).isSome = true := by
  rw [← Option.ne_none_iff_isSome, Ne, lookup_eq_none_iff, not_not]

theorem exists_pair {ns : List Name} {name k : String} (h : ns.map (·.text) = [name, k]) :
    ∃ c n, ns = [c, n] ∧ c.text = name ∧ n.text = k := by
  obtain ⟨c, ns, rfl, hc, h⟩ := List.map_eq_cons_iff.mp h
  obtain ⟨n, rfl, hn⟩ := List.map_eq_singleton_iff.mp h
  exact ⟨c, n, rfl, hc, hn⟩

/-- **A statement adds an entry** to the table of a document. -/
theorem adds_carryOut (form : TableForm) (name : String) :
    Adds carryOut (HasTable name form) (Statement.GivesIn form name) := by
  rintro es b s k node hb ⟨ts, v, rfl, hts, hv⟩
  obtain ⟨ns, hns, hnames⟩ := hts.exists_readKey
  rw [carryOut_assignment hns hv, mem_entryNames_iff]
  cases hb with
  | @header es r c span hr hc =>
    obtain ⟨n, rfl, rfl⟩ : ∃ n, ns = [n] ∧ n.text = k := by
      exact List.map_eq_singleton_iff.mp hnames
    rw [descend_single (hc.trans hr.symm) (by decide) (.inl rfl), insert_single (by decide)]
    refine ⟨fun hsome => ⟨duplicate n, by simp [hsome, Except.map]⟩, fun hnone => ?_⟩
    refine ⟨n, ⟨[(r, .table .header (es ++ [(n, node)]) span)], [c]⟩, rfl, ?_, .header hr hc⟩
    simp [hnone, Except.map]
  | empty =>
    obtain ⟨c, n, rfl, hc, rfl⟩ := exists_pair hnames
    refine ⟨fun hsome => absurd hsome (by simp), fun _ => ?_⟩
    exact ⟨n, _, rfl, rfl, .dotted hc⟩
  | @dotted es r hr =>
    obtain ⟨c, n, rfl, hc, rfl⟩ := exists_pair hnames
    rw [descend, insert_pair (hc.trans hr.symm)]
    refine ⟨fun hsome => ⟨duplicate n, by simp [hsome, Except.map]⟩, fun hnone => ?_⟩
    refine ⟨n, ⟨[(r, .table .dotted (es ++ [(n, node)]) none)], []⟩, rfl, ?_, .dotted hr⟩
    simp [hnone, Except.map]

/-- Adds an entry to an inline table. -/
def addEntry (es : Entries) (x : List Token × RawValue) : Except Fault Entries := do
  let names ← readKey x.1
  let v ← readValue x.2
  insert names v es .inline

theorem readEntries_eq (entries : List (List Token × RawValue)) (es : Entries) :
    readEntries entries es = entries.foldlM addEntry es := by
  induction entries generalizing es with
  | nil =>
    rw [readEntries]
    rfl
  | cons x entries ih =>
    obtain ⟨key, v⟩ := x
    rw [readEntries, List.foldlM_cons, addEntry]
    simp only [bind_assoc, ih]

/-- The entry gives the name a value. -/
def GivesInline (x : List Token × RawValue) (k : String) (node : Node) : Prop :=
  StatesKey x.1 [k] ∧ readValue x.2 = .ok node

/-- **An entry is added** to an inline table. -/
theorem adds_addEntry : Adds addEntry (fun es es' => es' = es) GivesInline := by
  rintro _ es ⟨ts, v⟩ k node rfl ⟨hts, hv⟩
  obtain ⟨ns, hns, hnames⟩ := hts.exists_readKey
  obtain ⟨n, rfl, rfl⟩ := List.map_eq_singleton_iff.mp hnames
  have hadd : addEntry es (ts, v) = insert [n] node es .inline := by
    rw [addEntry, hns, hv]
    rfl
  rw [hadd, insert_single (by decide), mem_entryNames_iff]
  exact ⟨fun hsome => ⟨duplicate n, by simp [hsome]⟩, fun hnone => ⟨n, _, rfl, by simp [hnone], rfl⟩⟩

/-! ### Texts that state a table -/

/-- Lines that give the entries of a table. -/
def TableForm.entryLines (name : String) (ps : List (String × String)) (form : TableForm) : List Line :=
  ps.map fun e => .text (form.key name e.1) e.2

/-- **The lines that state a table** in one of the forms. -/
def TableForm.lines (name : String) (ps : List (String × String)) : TableForm → List Line
  | .header => .opens [name] :: TableForm.header.entryLines name ps
  | .dotted => TableForm.dotted.entryLines name ps
  | .inline => [.table [name] ps]

/-- The document has nothing but the table. A table without entries may be missing. -/
def IsTable (name : String) (xs entries : Entries) : Prop :=
  (∃ r origin span, r.text = name ∧ entries = [(r, .table origin xs span)]) ∨ xs = [] ∧ entries = []

theorem HasTable.isTable {form : TableForm} (h : HasTable name form xs b) : IsTable name xs b.entries := by
  cases h with
  | header hr => exact .inl ⟨_, _, _, hr, rfl⟩
  | empty => exact .inr ⟨rfl, rfl⟩
  | dotted hr => exact .inl ⟨_, _, _, hr, rfl⟩

theorem givesText_of_means {form : TableForm} {e : String × String} {st : Statement}
    (h : (Line.text (form.key name e.1) e.2).Means st) : GivesText (Statement.GivesIn form name) st e := by
  cases h with
  | text hts hv =>
    obtain ⟨span, hspan⟩ := hv.exists_readValue
    exact ⟨span, _, _, rfl, hts, hspan⟩

theorem givesText_of_entryLines {form : TableForm} {ss : List Statement}
    (h : List.Forall₂ Line.Means (form.entryLines name ps) ss) :
    List.Forall₂ (GivesText (Statement.GivesIn form name)) ss ps :=
  (List.forall₂_map_left_iff.mp h).flip.imp fun _ _ => givesText_of_means

theorem givesText_of_entries {items : List (List Token × RawValue)} (h : List.Forall₂ MeansEntry items ps) :
    List.Forall₂ (GivesText GivesInline) items ps := by
  refine h.imp fun x e hx => ?_
  obtain ⟨span, hspan⟩ := hx.2.exists_readValue
  exact ⟨span, hx.1, hspan⟩

/-- A header opens a table in an empty document. -/
theorem exists_carryOut_opens {st : Statement} (h : (Line.opens [name]).Means st) :
    ∃ b, carryOut ⟨[], []⟩ st = .ok b ∧ HasTable name .header [] b := by
  cases h with
  | @opens _ ts start stop hts =>
    obtain ⟨ns, hns, hnames⟩ := hts.exists_readKey
    obtain ⟨n, rfl, hn⟩ := List.map_eq_singleton_iff.mp hnames
    refine ⟨⟨[(n, .table .header [] (some ⟨start, stop⟩))], [n]⟩, ?_, .header hn hn⟩
    rw [carryOut, hns]
    rfl

/-- An inline table is given to an empty document. -/
theorem exists_carryOut_inline (hts : StatesKey ts [name]) (start stop : Nat)
    (items : List (List Token × RawValue)) :
    ∃ n : Name, n.text = name ∧ carryOut ⟨[], []⟩ (.assignment ts (.inline start stop items)) =
      (items.foldlM addEntry []).map fun xs => ⟨[(n, .table .inline xs (some ⟨start, stop⟩))], []⟩ := by
  obtain ⟨ns, hns, hnames⟩ := hts.exists_readKey
  obtain ⟨n, rfl, hn⟩ := List.map_eq_singleton_iff.mp hnames
  refine ⟨n, hn, ?_⟩
  rw [carryOut, hns, readValue, readEntries_eq]
  cases items.foldlM addEntry [] with
  | error f => rfl
  | ok xs => rfl

/-- **Lines give the entries of a table** one after the other, from where the table is empty. -/
theorem exists_start {form : TableForm} {ss : List Statement} (hform : form ≠ .inline)
    (hss : List.Forall₂ Line.Means (form.lines name ps) ss) :
    ∃ c ss', HasTable name form [] c ∧ List.Forall₂ (GivesText (Statement.GivesIn form name)) ss' ps ∧
      ∀ more, (ss ++ more).foldlM carryOut ⟨[], []⟩ = (ss' ++ more).foldlM carryOut c := by
  cases form with
  | header =>
    cases hss with
    | @cons _ st _ ss hst hss =>
      obtain ⟨c, hc, hempty⟩ := exists_carryOut_opens hst
      refine ⟨c, ss, hempty, givesText_of_entryLines hss, fun more => ?_⟩
      rw [List.cons_append, List.foldlM_cons, hc]
      rfl
  | dotted => exact ⟨_, ss, .empty, givesText_of_entryLines hss, fun _ => rfl⟩
  | inline => exact absurd rfl hform

/-- What is read of a text is what its statements leave behind. -/
theorem parse_eq_ok_iff {text : List Char} {entries : Entries} : parse text = .ok entries ↔
    ∃ ss b, statements text = .ok ss ∧ ss.foldlM carryOut ⟨[], []⟩ = .ok b ∧ b.entries = entries := by
  rw [parse]
  simp only [bind_eq_ok, exists_and_left]
  constructor
  · rintro ⟨ss, hss, b, hb, h⟩
    exact ⟨ss, hss, b, hb, Except.ok.inj h⟩
  · rintro ⟨ss, hss, b, hb, rfl⟩
    exact ⟨ss, hss, b, hb, rfl⟩

/-- **A text that states a table is read**, if no name is given twice. -/
theorem exists_parse {form : TableForm} {text : List Char} (h : AreLines [] (form.lines name ps) text)
    (hnodup : (ps.map (·.1)).Nodup) :
    ∃ entries xs, parse text = .ok entries ∧ List.Forall₂ IsEntry xs ps ∧ IsTable name xs entries := by
  obtain ⟨ss, hss, hstatements⟩ := exists_statements h
  by_cases hform : form = .inline
  · subst hform
    obtain _ | ⟨⟨⟩ | ⟨⟩ | ⟨hts, start, stop, items, rfl, hitems⟩, _ | _⟩ := hss
    obtain ⟨n, hn, hcarry⟩ := exists_carryOut_inline hts start stop items
    have hempty : ([] : Entries) = [] := rfl
    have hgives := givesText_of_entries hitems
    obtain ⟨xs, hread⟩ := adds_addEntry.exists_foldlM hempty hgives hnodup (by simp [entryNames])
    obtain ⟨_, hxs, rfl⟩ := adds_addEntry.of_foldlM hempty hgives hread
    rw [hread] at hcarry
    have hparse : parse text = .ok [(n, .table .inline xs (some ⟨start, stop⟩))] := by
      rw [parse, hstatements]
      simp only [bind, Except.bind, List.foldlM_cons, hcarry]
      rfl
    exact ⟨_, xs, hparse, hxs, .inl ⟨n, _, _, hn, rfl⟩⟩
  · obtain ⟨c, ss', hempty, hgives, hrun⟩ := exists_start hform hss
    obtain ⟨b, hb⟩ := (adds_carryOut form name).exists_foldlM hempty hgives hnodup (by simp [entryNames])
    obtain ⟨xs, hxs, htable⟩ := (adds_carryOut form name).of_foldlM hempty hgives hb
    refine ⟨b.entries, xs, parse_eq_ok_iff.mpr ⟨ss, b, hstatements, ?_, rfl⟩, hxs, htable.isTable⟩
    rw [← List.append_nil ss, hrun, List.append_nil, hb]

end ReleasePublisher.Toml
