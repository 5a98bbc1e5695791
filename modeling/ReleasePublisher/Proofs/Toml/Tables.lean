import ReleasePublisher.Proofs.Json.Grammar
import ReleasePublisher.Toml.Document

/-!
# What stands in a tree of tables

A value that stands somewhere in the tree of tables of a document stays there, whatever the statements behind it
say: nothing is given a value twice, and no value is opened. What a key is given stands at its path, as long as
there are no arrays of tables, whose paths lead into the last element only.

## Main definitions

* `Toml.lookup entries k`: the node of a name
* `Toml.StandsAt v entries path`: the value `v` stands at a path of names
* `Toml.Keeps change`: the change leaves every value where it stands
* `Toml.IsPlain entries`: there is no array of tables among the entries

## Main results

* `Toml.keeps_insert`, `Toml.keeps_openTable`, `Toml.keeps_openElement`, `Toml.Keeps.descend`: no change of a
  document takes a value away
* `Toml.StandsAt.of_statements`: a value stays where it stands through the statements of a document
* `Toml.StandsAt.of_insert`, `Toml.StandsAt.exists_error_of_insert`: a value that is given to a key stands there,
  and no key is given a value again
-/

namespace ReleasePublisher.Toml

open Json (bind_eq_ok map_eq_ok)

variable {entries entries' more : Entries} {k : String} {path path' : List String} {n : Name} {v w node : Node}
  {origin made : TableOrigin} {dotted : Bool} {b b' : Building} {span : Span}

/-! ### Nodes of names -/

/-- The node of a name. -/
def lookup (entries : Entries) (k : String) : Option Node :=
  (entries.find? (·.1.text == k)).map (·.2)

/-- The names of entries. -/
def entryNames (entries : Entries) : List String :=
  entries.map (·.1.text)

theorem find?_eq (entries : Entries) (n : Name) : find? entries n = lookup entries n.text := rfl

@[simp] theorem lookup_nil (k : String) : lookup [] k = none := rfl

theorem lookup_cons (n : Name) (v : Node) (entries : Entries) (k : String) :
    lookup ((n, v) :: entries) k = if n.text = k then some v else lookup entries k := by
  by_cases h : n.text = k
  · simp [lookup, h]
  · simp [lookup, h]

theorem lookup_append (entries more : Entries) (k : String) :
    lookup (entries ++ more) k = (lookup entries k).or (lookup more k) := by
  simp [lookup, List.find?_append, Option.map_or]

theorem lookup_eq_none_iff : lookup entries k = none ↔ k ∉ entryNames entries := by
  induction entries with
  | nil => simp [entryNames]
  | cons e entries ih =>
    rw [lookup_cons, entryNames, List.map_cons, List.mem_cons, not_or, ← entryNames, ← ih]
    by_cases h : e.1.text = k
    · simp [h]
    · simp [h, Ne.symm h]

theorem any_eq_isSome_lookup (entries : Entries) (k : String) :
    entries.any (·.1.text == k) = (lookup entries k).isSome := by
  rw [lookup, Option.isSome_map, Bool.eq_iff_iff, List.any_eq_true, List.find?_isSome]

theorem lookup_replace (entries : Entries) (n : Name) (v : Node) (k : String) :
    lookup (entries.map fun e => if e.1.text == n.text then (e.1, v) else e) k =
      if n.text = k then (lookup entries k).map fun _ => v else lookup entries k := by
  induction entries with
  | nil => simp
  | cons e entries ih =>
    obtain ⟨m, w⟩ := e
    rw [List.map_cons]
    by_cases hm : m.text = n.text
    · simp only [hm, beq_self_eq_true, if_true, lookup_cons, ih]
      by_cases hk : n.text = k
      · simp [hk]
      · simp [hk]
    · simp only [beq_eq_false_iff_ne.mpr hm, Bool.false_eq_true, if_false, lookup_cons, ih]
      by_cases hk : n.text = k
      · simp [← hk, hm]
      · simp [hk]

/-- **Only the node of the name changes** where it is set. -/
theorem lookup_set (entries : Entries) (n : Name) (v : Node) (k : String) :
    lookup (set entries n v) k = if n.text = k then some v else lookup entries k := by
  rw [set, any_eq_isSome_lookup]
  split
  · rename_i hsome
    rw [lookup_replace]
    split
    · rename_i hk
      subst hk
      obtain ⟨w, hw⟩ := Option.isSome_iff_exists.mp hsome
      rw [hw, Option.map_some]
    · rfl
  · rename_i hnone
    rw [lookup_append, lookup_cons, lookup_nil]
    by_cases hk : n.text = k
    · subst hk
      simp [Option.not_isSome_iff_eq_none.mp hnone]
    · simp [hk]

/-! ### Values that stay -/

/-- A value, which no key leads through. -/
def Node.IsLeaf : Node → Prop
  | .scalar _ _ => True
  | .array _ _ => True
  | .table origin _ _ => origin = .inline
  | .tables _ _ => False

/-- **The value stands at a path** of names. -/
inductive StandsAt (v : Node) : Entries → List String → Prop
  | here {entries : Entries} {k : String} (h : lookup entries k = some v) : StandsAt v entries [k]
  | inside {entries inner : Entries} {k : String} {path : List String} {origin : TableOrigin}
      {span : Option Span} (h : lookup entries k = some (.table origin inner span)) (hinner : StandsAt v inner path) :
      StandsAt v entries (k :: path)

/-- **The change leaves every value where it stands.** -/
def Keeps (change : Entries → TableOrigin → Except Fault Entries) : Prop :=
  ∀ v : Node, v.IsLeaf → ∀ path entries origin entries', StandsAt v entries path →
    change entries origin = .ok entries' → StandsAt v entries' path

/-- Where a table has the nodes of another, all values of the other stand in it. -/
theorem StandsAt.mono (h : StandsAt v entries path)
    (hle : ∀ k node, lookup entries k = some node → lookup entries' k = some node) :
    StandsAt v entries' path := by
  cases h with
  | here h => exact .here (hle _ _ h)
  | inside h hinner => exact .inside (hle _ _ h) hinner

theorem StandsAt.append (h : StandsAt v entries path) (more : Entries) : StandsAt v (entries ++ more) path := by
  refine h.mono fun k node hnode => ?_
  rw [lookup_append, hnode, Option.some_or]

/-- A value stays where a node of another name is set. -/
theorem StandsAt.set_of_none (h : StandsAt v entries path) (hn : lookup entries n.text = none) (w : Node) :
    StandsAt v (set entries n w) path := by
  refine h.mono fun k node hnode => ?_
  rw [lookup_set, if_neg, hnode]
  rintro rfl
  rw [hn] at hnode
  cases hnode

/-- A value stays where a node is set that holds what the one before held. -/
theorem StandsAt.set (h : StandsAt v entries path) (hv : v.IsLeaf) (hn : lookup entries n.text = some node)
    (hleaf : ¬ node.IsLeaf) (hbelow : ∀ origin inner span path, node = .table origin inner span →
      StandsAt v inner path →
        ∃ origin' inner' span', w = .table origin' inner' span' ∧ StandsAt v inner' path) :
    StandsAt v (set entries n w) path := by
  cases h with
  | @here _ k h =>
    -- The node that is replaced is no value, so it is not the one that stands here.
    have hne : n.text ≠ k := by
      rintro rfl
      rw [hn] at h
      exact hleaf (Option.some.inj h ▸ hv)
    exact .here (by rw [lookup_set, if_neg hne, h])
  | @inside _ inner k path origin span h hinner =>
    by_cases hk : n.text = k
    · subst hk
      obtain ⟨origin', inner', span', rfl, hinner'⟩ := hbelow origin inner span path
        (Option.some.inj (hn.symm.trans h)) hinner
      exact .inside (by rw [lookup_set, if_pos rfl]) hinner'
    · exact .inside (by rw [lookup_set, if_neg hk, h]) hinner

/-! ### Changes -/

/-- No key leads through a value. -/
theorem within_leaf (hv : node.IsLeaf) (dotted : Bool) (n : Name)
    (change : Entries → TableOrigin → Except Fault Entries) : ∃ f, within dotted n change node = .error f := by
  cases node with
  | scalar => exact ⟨_, rfl⟩
  | array => exact ⟨_, rfl⟩
  | table origin inner span =>
    obtain rfl : origin = .inline := hv
    cases dotted with
    | false => exact ⟨_, rfl⟩
    | true => exact ⟨_, rfl⟩
  | tables => exact absurd hv id

/-- A key leads into a table, and what it changes is in there. -/
theorem exists_of_within_table {inner : Entries} {span : Option Span}
    {change : Entries → TableOrigin → Except Fault Entries}
    (h : within dotted n change (.table origin inner span) = .ok w) :
    ∃ inner', change inner origin = .ok inner' ∧ w = .table origin inner' span := by
  rw [within] at h
  split at h
  · cases h
  split at h
  · cases h
  · obtain ⟨inner', hinner, rfl⟩ := map_eq_ok.mp h
    exact ⟨inner', hinner, rfl⟩

/-- **What a key leads to** is changed, and everything else stays. -/
theorem Keeps.descend {change : Entries → TableOrigin → Except Fault Entries} (h : Keeps change) (dotted : Bool)
    (made : TableOrigin) (names : List Name) : Keeps (descend dotted made change names) := by
  induction names with
  | nil => exact h
  | cons n names ih =>
    intro v hv path entries origin entries' hstands hchange
    rw [Toml.descend, find?_eq] at hchange
    split at hchange
    · -- A table that is missing comes into being beside the nodes there are.
      rename_i hnone
      obtain ⟨inner, -, rfl⟩ := map_eq_ok.mp hchange
      exact hstands.set_of_none hnone _
    · rename_i node hnode
      obtain ⟨w, hw, rfl⟩ := map_eq_ok.mp hchange
      refine hstands.set hv hnode ?_ ?_
      · intro hleaf
        obtain ⟨f, hf⟩ := within_leaf hleaf dotted n (Toml.descend dotted made change names)
        rw [hf] at hw
        cases hw
      · rintro o inner span path rfl hinner
        obtain ⟨inner', hinner', rfl⟩ := exists_of_within_table hw
        exact ⟨o, inner', span, rfl, ih v hv path inner o inner' hinner hinner'⟩

/-- **A key that is given a value** leaves the others where they stand. -/
theorem keeps_insert (names : List Name) (w : Node) : Keeps (insert names w) := by
  intro v hv path entries origin entries' hstands hchange
  unfold insert at hchange
  split at hchange
  · obtain rfl := Except.ok.inj hchange
    exact hstands
  · refine Keeps.descend ?_ _ _ _ v hv path entries origin entries' hstands hchange
    intro v hv path entries origin entries' hstands hput
    dsimp only at hput
    split at hput
    · cases hput
    split at hput
    · cases hput
    · obtain rfl := Except.ok.inj hput
      exact hstands.append _

/-- **A table that is opened** leaves the values where they stand. -/
theorem keeps_openTable (n : Name) (span : Span) : Keeps fun entries _ => openTable n span entries := by
  intro v hv path entries origin entries' hstands hchange
  simp only [openTable, find?_eq] at hchange
  split at hchange
  · obtain rfl := Except.ok.inj hchange
    exact hstands.append _
  · rename_i inner span' hpassed
    obtain rfl := Except.ok.inj hchange
    refine hstands.set hv hpassed nofun ?_
    rintro o inner' s path ⟨⟩ hinner
    exact ⟨_, _, _, rfl, hinner⟩
  · cases hchange

/-- **A table that is added to an array** leaves the values where they stand. -/
theorem keeps_openElement (n : Name) (span : Span) : Keeps fun entries _ => openElement n span entries := by
  intro v hv path entries origin entries' hstands hchange
  simp only [openElement, find?_eq] at hchange
  split at hchange
  · obtain rfl := Except.ok.inj hchange
    exact hstands.append _
  · rename_i elements span' htables
    obtain rfl := Except.ok.inj hchange
    exact hstands.set hv htables id nofun
  · cases hchange

/-! ### Values that are given -/

theorem standsAt_cons_iff : StandsAt v entries (k :: path) ↔ path = [] ∧ lookup entries k = some v ∨
    ∃ origin inner span, lookup entries k = some (.table origin inner span) ∧ StandsAt v inner path := by
  constructor
  · intro h
    cases h with
    | here h => exact .inl ⟨rfl, h⟩
    | inside h hinner => exact .inr ⟨_, _, _, h, hinner⟩
  · rintro (⟨rfl, h⟩ | ⟨origin, inner, span, h, hinner⟩)
    · exact .here h
    · exact .inside h hinner

/-- What stands in a table stands in the document where the table does. -/
theorem StandsAt.into {inner : Entries} {span : Option Span}
    (h : StandsAt (.table origin inner span) entries path) (hinner : StandsAt v inner path') : StandsAt v entries (path ++ path') := by
  generalize hw : Node.table origin inner span = w at h
  induction h with
  | here h =>
    subst hw
    exact .inside h hinner
  | inside h _ ih => exact .inside h ih

/-- **Keys lead into tables only**: there is no array of tables in the document. -/
inductive IsPlain : Entries → Prop
  | intro {entries : Entries} (hnone : ∀ k elements span, lookup entries k ≠ some (.tables elements span))
      (hinner : ∀ k origin inner span, lookup entries k = some (.table origin inner span) → origin ≠ .inline →
        IsPlain inner) : IsPlain entries

/-- The node may stand in a document without arrays of tables. -/
def Node.IsPlain (node : Node) : Prop :=
  (∀ elements span, node ≠ .tables elements span) ∧
    ∀ origin inner span, node = .table origin inner span → origin ≠ .inline → Toml.IsPlain inner

theorem isPlain_iff : IsPlain entries ↔ ∀ k node, lookup entries k = some node → node.IsPlain := by
  constructor
  · rintro ⟨hnone, hinner⟩ k node hnode
    refine ⟨?_, ?_⟩
    · rintro elements span rfl
      exact hnone k elements span hnode
    · rintro origin inner span rfl
      exact hinner k origin inner span hnode
  · intro h
    refine ⟨fun k elements span hk => (h k _ hk).1 elements span rfl, fun k origin inner span hk => ?_⟩
    exact (h k _ hk).2 origin inner span rfl

theorem IsPlain.nil : IsPlain [] :=
  isPlain_iff.mpr fun _ _ h => nomatch h

theorem Node.IsLeaf.isPlain (h : v.IsLeaf) : v.IsPlain := by
  refine ⟨?_, ?_⟩
  · rintro elements span rfl
    exact h
  · rintro origin inner span rfl horigin
    exact absurd h horigin

theorem IsPlain.table (h : IsPlain entries) (origin : TableOrigin) (span : Option Span) :
    (Node.table origin entries span).IsPlain := by
  refine ⟨nofun, ?_⟩
  rintro _ _ _ ⟨⟩ -
  exact h

theorem IsPlain.set (h : IsPlain entries) (hw : w.IsPlain) (n : Name) : IsPlain (set entries n w) := by
  rw [isPlain_iff] at h ⊢
  intro k node hnode
  rw [lookup_set] at hnode
  split at hnode
  · obtain rfl := Option.some.inj hnode
    exact hw
  · exact h k node hnode

theorem IsPlain.append (h : IsPlain entries) (hw : w.IsPlain) (n : Name) : IsPlain (entries ++ [(n, w)]) := by
  rw [isPlain_iff] at h ⊢
  intro k node hnode
  rw [lookup_append, lookup_cons, lookup_nil, Option.or_eq_some_iff] at hnode
  rcases hnode with hnode | ⟨-, hnode⟩
  · exact h k node hnode
  · split at hnode
    · obtain rfl := Option.some.inj hnode
      exact hw
    · cases hnode

/-- A key leads into a table, unless it leads into an array of tables. -/
theorem exists_of_within {change : Entries → TableOrigin → Except Fault Entries} (hnode : node.IsPlain)
    (h : within dotted n change node = .ok w) : ∃ origin inner inner' span, IsPlain inner ∧
      node = .table origin inner span ∧ change inner origin = .ok inner' ∧ w = .table origin inner' span := by
  cases node with
  | scalar => cases h
  | array => cases h
  | table origin inner span =>
    have hinline : origin ≠ .inline := by
      rintro rfl
      have hleaf : (Node.table .inline inner span).IsLeaf := rfl
      obtain ⟨f, hf⟩ := within_leaf hleaf dotted n change
      rw [hf] at h
      cases h
    obtain ⟨inner', hinner', rfl⟩ := exists_of_within_table h
    exact ⟨origin, inner, inner', span, hnode.2 origin inner span rfl hinline, rfl, hinner', rfl⟩
  | tables elements span => exact absurd rfl (hnode.1 elements span)

/-- The change makes no array of tables. -/
def KeepsPlain (change : Entries → TableOrigin → Except Fault Entries) : Prop :=
  ∀ entries origin entries', IsPlain entries → change entries origin = .ok entries' → IsPlain entries'

theorem KeepsPlain.descend {change : Entries → TableOrigin → Except Fault Entries} (h : KeepsPlain change)
    (dotted : Bool) (made : TableOrigin) (names : List Name) :
    KeepsPlain (descend dotted made change names) := by
  induction names with
  | nil => exact h
  | cons n names ih =>
    intro entries origin entries' hplain hchange
    rw [Toml.descend, find?_eq] at hchange
    split at hchange
    · obtain ⟨inner, hinner, rfl⟩ := map_eq_ok.mp hchange
      exact hplain.set ((ih [] made inner .nil hinner).table made none) n
    · rename_i node hnode
      obtain ⟨w, hw, rfl⟩ := map_eq_ok.mp hchange
      obtain ⟨o, inner, inner', span, hinner, rfl, hinner', rfl⟩ :=
        exists_of_within (isPlain_iff.mp hplain _ _ hnode) hw
      exact hplain.set ((ih inner o inner' hinner hinner').table o span) n

theorem keepsPlain_openTable (n : Name) (span : Span) :
    KeepsPlain fun entries _ => openTable n span entries := by
  intro entries origin entries' hplain hchange
  simp only [openTable, find?_eq] at hchange
  split at hchange
  · obtain rfl := Except.ok.inj hchange
    exact hplain.append (IsPlain.nil.table _ _) n
  · rename_i inner span' hpassed
    obtain rfl := Except.ok.inj hchange
    have hinner := (isPlain_iff.mp hplain _ _ hpassed).2 _ _ _ rfl (by decide)
    exact hplain.set (hinner.table _ _) n
  · cases hchange

/-- **What a change puts somewhere** stands there in the document, below the names that lead to it. -/
theorem StandsAt.of_descend {change : Entries → TableOrigin → Except Fault Entries}
    (hchange : ∀ entries origin entries', IsPlain entries → change entries origin = .ok entries' →
      StandsAt v entries' path) (hplain : IsPlain entries) {names : List Name}
    (h : descend dotted made change names entries origin = .ok entries') :
    StandsAt v entries' (names.map (·.text) ++ path) := by
  induction names generalizing entries origin entries' with
  | nil => exact hchange entries origin entries' hplain h
  | cons n names ih =>
    rw [descend, find?_eq] at h
    rw [List.map_cons, List.cons_append]
    split at h
    · obtain ⟨inner, hinner, rfl⟩ := map_eq_ok.mp h
      exact .inside (by rw [lookup_set, if_pos rfl]) (ih .nil hinner)
    · rename_i node hnode
      obtain ⟨w, hw, rfl⟩ := map_eq_ok.mp h
      obtain ⟨o, inner, inner', span, hinner, rfl, hinner', rfl⟩ :=
        exists_of_within (isPlain_iff.mp hplain _ _ hnode) hw
      exact .inside (by rw [lookup_set, if_pos rfl]) (ih hinner hinner')

/-- **A change that fails where a value stands** fails below the names that lead there. -/
theorem StandsAt.exists_error_of_descend {change : Entries → TableOrigin → Except Fault Entries}
    (hchange : ∀ entries origin, StandsAt v entries path → ∃ f, change entries origin = .error f)
    (hv : v.IsLeaf) {names : List Name} (h : StandsAt v entries (names.map (·.text) ++ path)) :
    ∃ f, descend dotted made change names entries origin = .error f := by
  induction names generalizing entries origin with
  | nil => exact hchange entries origin h
  | cons n names ih =>
    rw [List.map_cons, List.cons_append, standsAt_cons_iff] at h
    rw [descend, find?_eq]
    rcases h with ⟨-, hn⟩ | ⟨o, inner, span, hn, hinner⟩
    · -- The names lead through the value itself.
      obtain ⟨f, hf⟩ := within_leaf hv dotted n (descend dotted made change names)
      exact ⟨f, by simp only [hn, hf]; rfl⟩
    · have hbelow : ∃ f, descend dotted made change names inner o = .error f := ih hinner
      obtain ⟨f, hf⟩ := hbelow
      simp only [hn, within, hf]
      split
      · exact ⟨_, rfl⟩
      split
      · exact ⟨_, rfl⟩
      · exact ⟨f, rfl⟩

theorem insert_eq {n : Name} (front : List Name) (v : Node) (entries : Entries) (origin : TableOrigin) :
    insert (front ++ [n]) v entries origin = descend true .dotted (fun entries origin =>
      if (origin == .dotted) == ((front ++ [n]).length == 1) then .error (duplicate n)
      else if (lookup entries n.text).isSome then .error (duplicate n)
      else .ok (entries ++ [(n, v)])) front entries origin := by
  rw [insert, List.getLast?_concat, List.dropLast_concat]
  rfl

theorem keepsPlain_insert (names : List Name) (hv : v.IsPlain) : KeepsPlain (insert names v) := by
  intro entries origin entries' hplain hchange
  rcases List.eq_nil_or_concat names with rfl | ⟨front, n, rfl⟩
  · obtain rfl := Except.ok.inj hchange
    exact hplain
  rw [List.concat_eq_append, insert_eq] at hchange
  refine KeepsPlain.descend ?_ _ _ _ entries origin entries' hplain hchange
  intro entries origin entries' hplain hput
  dsimp only at hput
  split at hput
  · cases hput
  split at hput
  · cases hput
  · obtain rfl := Except.ok.inj hput
    exact hplain.append hv n

/-- **A value that is given to a key** stands there. -/
theorem StandsAt.of_insert {names : List Name} (hnames : names ≠ []) (hplain : IsPlain entries)
    (h : insert names v entries origin = .ok entries') : StandsAt v entries' (names.map (·.text)) := by
  obtain ⟨front, n, rfl⟩ := (List.eq_nil_or_concat names).resolve_left hnames
  rw [List.concat_eq_append, insert_eq] at h
  rw [List.concat_eq_append, List.map_append]
  refine StandsAt.of_descend ?_ hplain h
  intro entries origin entries' _ hput
  split at hput
  · cases hput
  split at hput
  · cases hput
  · rename_i hnone
    obtain rfl := Except.ok.inj hput
    refine .here ?_
    rw [lookup_append, Option.not_isSome_iff_eq_none.mp hnone, Option.none_or, lookup_cons, if_pos rfl]

/-- **No key is given a value again**, and none that leads to a value. -/
theorem StandsAt.exists_error_of_insert {names : List Name} (hnames : names ≠ []) (hv : v.IsLeaf)
    (h : StandsAt v entries (names.map (·.text) ++ path)) (w : Node) (origin : TableOrigin) :
    ∃ f, insert names w entries origin = .error f := by
  obtain ⟨front, n, rfl⟩ := (List.eq_nil_or_concat names).resolve_left hnames
  rw [List.concat_eq_append, insert_eq]
  rw [List.concat_eq_append, List.map_append, List.append_assoc] at h
  refine h.exists_error_of_descend ?_ hv
  intro entries origin h
  have hsome : (lookup entries n.text).isSome = true := by
    rcases standsAt_cons_iff.mp h with ⟨-, hn⟩ | ⟨o, inner, span, hn, -⟩
    · rw [hn, Option.isSome_some]
    · rw [hn, Option.isSome_some]
  rw [hsome]
  split
  · exact ⟨_, rfl⟩
  · exact ⟨_, rfl⟩

/-! ### Statements -/

/-- **A statement leaves the values where they stand.** -/
theorem StandsAt.of_carryOut {s : Statement} (h : StandsAt v b.entries path) (hv : v.IsLeaf)
    (hs : carryOut b s = .ok b') : StandsAt v b'.entries path := by
  cases s with
  | assignment key w =>
    obtain ⟨names, -, hs⟩ := bind_eq_ok.mp hs
    obtain ⟨node, -, hs⟩ := bind_eq_ok.mp hs
    obtain ⟨entries, hentries, hs⟩ := bind_eq_ok.mp hs
    obtain rfl := Except.ok.inj hs
    exact (keeps_insert names node).descend _ _ _ v hv path _ _ _ h hentries
  | header isArray key start stop =>
    obtain ⟨names, -, hs⟩ := bind_eq_ok.mp hs
    split at hs
    · obtain rfl := Except.ok.inj hs
      exact h
    · obtain ⟨entries, hentries, hs⟩ := bind_eq_ok.mp hs
      obtain rfl := Except.ok.inj hs
      refine Keeps.descend ?_ _ _ _ v hv path _ _ _ h hentries
      cases isArray with
      | false => exact keeps_openTable _ _
      | true => exact keeps_openElement _ _

/-- What every step keeps, a run keeps. -/
theorem of_foldlM {σ ι : Type} {f : σ → ι → Except Fault σ} {P : σ → Prop} {is : List ι} {c c' : σ}
    (hstep : ∀ c i c', P c → f c i = .ok c' → P c') (hc : P c) (hrun : is.foldlM f c = .ok c') : P c' := by
  induction is generalizing c with
  | nil =>
    obtain rfl := Except.ok.inj hrun
    exact hc
  | cons i is ih =>
    rw [List.foldlM_cons] at hrun
    obtain ⟨c₁, hc₁, hrun⟩ := bind_eq_ok.mp hrun
    exact ih (hstep c i c₁ hc hc₁) hrun

/-- **A value stays where it stands** through the statements of a document. -/
theorem StandsAt.of_statements {ss : List Statement} (h : StandsAt v b.entries path) (hv : v.IsLeaf)
    (hs : ss.foldlM carryOut b = .ok b') : StandsAt v b'.entries path :=
  of_foldlM (P := fun b => StandsAt v b.entries path) (fun _ _ _ h hs => h.of_carryOut hv hs) h hs

end ReleasePublisher.Toml
