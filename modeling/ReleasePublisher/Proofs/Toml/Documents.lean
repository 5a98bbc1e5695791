import ReleasePublisher.Proofs.Toml.Lines

/-!
# Texts that are written

The lines of a whole text are grouped to the statements that state them. Where lines come to a key and what is
behind the key is anything at all, a text that is grouped has an assignment of that key behind their statements.

## Main definitions

* `Toml.HasNoMark t`: the text begins with no byte order mark

## Main results

* `Toml.exists_statements`: the lines of a text are grouped
* `Toml.exists_statements_key`: the assignment of a key behind lines
* `Toml.exists_inline_key`: the entry of a key inside an inline table
-/

namespace ReleasePublisher.Toml

open Json (bind_eq_ok map_eq_ok)

variable {names : List String} {b m p q u gap ending rest text : List Char} {fuel : Nat} {ls : List Line}

/-! ### Byte order marks -/

/-- The text begins with no byte order mark. -/
def HasNoMark (t : List Char) : Prop :=
  ∀ c ∈ t.head?, c ≠ '\uFEFF'

theorem HasNoMark.append (hp : HasNoMark p) (hq : HasNoMark q) : HasNoMark (p ++ q) := by
  cases p with
  | nil => exact hq
  | cons c p => exact hp

theorem HasNoMark.cons {c : Char} (h : c ≠ '\uFEFF') (rest : List Char) : HasNoMark (c :: rest) := by
  rintro _ ⟨⟩
  exact h

theorem HasNoMark.nil : HasNoMark [] :=
  nofun

theorem AreBlanks.hasNoMark (hb : AreBlanks b) : HasNoMark b := by
  cases b with
  | nil => exact .nil
  | cons c b =>
    refine .cons ?_ b
    rintro rfl
    exact absurd (hb _ (List.mem_cons_self ..)) (by decide)

theorem IsRemark.hasNoMark (hm : IsRemark m) : HasNoMark m := by
  obtain rfl | ⟨cs, rfl, -⟩ := hm
  · exact .nil
  · exact .cons (by decide) cs

theorem EndsLine.hasNoMark (h : EndsLine ending rest) : HasNoMark ending := by
  rcases h with rfl | rfl | ⟨rfl, -⟩
  · exact .cons (by decide) _
  · exact .cons (by decide) _
  · exact .nil

theorem IsNameText.hasNoMark {name : String} (h : IsNameText name p) (rest : List Char) :
    HasNoMark (p ++ rest) := by
  rcases h with ⟨-, hne, hbare⟩ | h
  · obtain ⟨c, cs, rfl⟩ := List.exists_cons_of_ne_nil hne
    refine .cons ?_ _
    rintro rfl
    exact absurd (hbare _ (List.mem_cons_self ..)) (by decide)
  · obtain ⟨u, rfl⟩ := h.exists_cons
    exact .cons (by decide) _

theorem IsGivenKey.hasNoMark (h : IsGivenKey names q) (rest : List Char) : HasNoMark (q ++ rest) := by
  obtain ⟨t, before, after, ht, -, -, rfl⟩ := h
  cases ht with
  | single h =>
    rw [List.append_assoc]
    exact h.hasNoMark _
  | dotted h =>
    rw [List.append_assoc, List.append_assoc]
    exact h.hasNoMark _

theorem Line.IsText.hasNoMark {l : Line} (h : l.IsText p) (rest : List Char) : HasNoMark (p ++ rest) := by
  cases h with
  | opens => exact .cons (by decide) _
  | text h =>
    obtain ⟨q, x, hq, -, rfl⟩ := h
    rw [List.append_assoc]
    exact hq.hasNoMark _
  | table hq =>
    rw [List.append_assoc]
    exact hq.hasNoMark _

theorem AreLines.hasNoMark (h : AreLines rest ls u) (hrest : HasNoMark rest) : HasNoMark (u ++ rest) := by
  induction h with
  | nil => exact hrest
  | empty hb hm hending _ ih =>
    rw [List.append_assoc, List.append_assoc, List.append_assoc]
    exact hb.hasNoMark.append (hm.hasNoMark.append (hending.hasNoMark.append ih))
  | line hgap hp =>
    rw [List.append_assoc, List.append_assoc]
    exact hgap.hasNoMark.append (hp.hasNoMark _)

theorem tokens_eq (h : HasNoMark p) : tokens p = tokensFrom 0 p := by
  unfold tokens
  split
  · exact absurd rfl (h _ rfl)
  · rfl

/-! ### Whole texts -/

/-- The fuel suffices for all tokens of the text. -/
theorem statements_eq (h : HasNoMark text) :
    statements text = statementsOf (2 * (tokensFrom 0 text).length + 2) ((tokensFrom 0 text).length + 1)
      (tokensFrom 0 text) := by
  rw [statements, tokens_eq h]

/-- **The lines of a text are grouped** to the statements that state them. -/
theorem exists_statements (h : AreLines [] ls text) :
    ∃ ss, List.Forall₂ Line.Means ls ss ∧ statements text = .ok ss := by
  have hmark := h.hasNoMark .nil
  obtain ⟨ss, hss, hgroups⟩ := h.exists_groups 0
  rw [List.append_nil] at hmark hgroups
  obtain ⟨k, hk, hgroup⟩ := hgroups (2 * (tokensFrom 0 text).length + 2) (by omega)
  refine ⟨ss, hss, ?_⟩
  obtain ⟨n, hn⟩ : ∃ n, (tokensFrom 0 text).length + 1 = n + 1 + k := ⟨(tokensFrom 0 text).length - k, by omega⟩
  rw [statements_eq hmark, hn, hgroup, tokensFrom_nil, statementsOf]
  simp [Except.map]

/-- **Where a key is given a value behind lines**, a text that is grouped has an assignment there. -/
theorem exists_statements_key (h : AreLines (gap ++ (q ++ rest)) ls p) (hgap : AreBlanks gap)
    (hq : IsGivenKey names q) (hrest : IsFlush rest) :
    ∃ ss ts start fuel, List.Forall₂ Line.Means ls ss ∧ StatesKey ts names ∧
      (tokensFrom start rest).length + 2 ≤ fuel ∧
      ∀ all, statements (p ++ (gap ++ (q ++ rest))) = .ok all →
        ∃ v us others, rawValue fuel 0 false (tokensFrom start rest) = .ok (v, us) ∧
          all = ss ++ .assignment ts v :: others := by
  have hmark := h.hasNoMark (hgap.hasNoMark.append (hq.hasNoMark rest))
  obtain ⟨ss, hss, hgroups⟩ := h.exists_groups 0
  have hbefore := (hgroups (2 * (tokensFrom 0 (p ++ (gap ++ (q ++ rest)))).length + 2) (by omega)).trans
    (.blanks _ hgap (hq.isFlush rest) _)
  obtain ⟨ts, hts, hkey⟩ := exists_statementsOf_key hq hrest (0 + p.length + gap.length)
  have hle := hbefore.length_le
  have hle' := (hq.cuts hrest).length_le (0 + p.length + gap.length)
  obtain ⟨k, hk, hgroup⟩ := hbefore
  refine ⟨ss, ts, 0 + p.length + gap.length + q.length,
    2 * (tokensFrom 0 (p ++ (gap ++ (q ++ rest)))).length + 2, hss, hts, by omega, fun all hall => ?_⟩
  obtain ⟨n, hn⟩ : ∃ n, (tokensFrom 0 (p ++ (gap ++ (q ++ rest)))).length + 1 = n + 1 + k :=
    ⟨(tokensFrom 0 (p ++ (gap ++ (q ++ rest)))).length - k, by omega⟩
  rw [statements_eq hmark, hn, hgroup, hkey] at hall
  obtain ⟨tail, htail, rfl⟩ := map_eq_ok.mp hall
  obtain ⟨⟨v, us⟩, hv, htail⟩ := bind_eq_ok.mp htail
  obtain ⟨vs, -, htail⟩ := bind_eq_ok.mp htail
  obtain ⟨others, -, rfl⟩ := map_eq_ok.mp htail
  exact ⟨v, us, others, hv, by rw [List.append_nil]⟩

/-- **Where a key is given a value inside an inline table**, a table that is grouped has the entry there. -/
theorem exists_inline_key {es : List (String × String)} (hu : AreEntries es u) (hgap : AreBlanks gap)
    (hq : IsGivenKey names q) (hrest : IsFlush rest) (start : Nat)
    (hfuel : (tokensFrom start ('{' :: (u ++ (gap ++ (q ++ rest))))).length + 2 ≤ fuel) :
    ∃ xs ts start', List.Forall₂ MeansEntry xs es ∧ StatesKey ts names ∧
      ∀ v us, rawValue fuel 0 false (tokensFrom start ('{' :: (u ++ (gap ++ (q ++ rest))))) = .ok (v, us) →
        ∃ stop w ws n more, rawValue n 1 true (tokensFrom start' rest) = .ok (w, ws) ∧
          v = .inline start stop (xs ++ (ts, w) :: more) := by
  obtain ⟨xs, comma, hxs, hentries⟩ := hu.exists_reaches 1 start none [] (start + 1) (gap ++ (q ++ rest))
  have hblanks := EntryLoop.reaches_blanks 1 start hgap (hq.isFlush rest) (start + 1 + u.length) true comma
    (xs.reverse ++ [])
  obtain ⟨ts, hts, hkey⟩ := EntryLoop.exists_group_key hq hrest (start + 1 + u.length + gap.length)
  obtain ⟨k, hk, hgroup⟩ := hentries.trans hblanks
  have hopen := ((isToken_openBrace (u ++ (gap ++ (q ++ rest)))).cuts).length_lt (by simp) start
  refine ⟨xs, ts, start + 1 + u.length + gap.length + q.length, hxs, hts, fun v us hv => ?_⟩
  obtain ⟨n, rfl⟩ : ∃ n, fuel = n + 1 + k + 1 := ⟨fuel - k - 2, by
    simp only [List.length_singleton, List.singleton_append] at hopen hk
    omega⟩
  rw [EntryLoop.rawValue_openBrace, hgroup, hkey] at hv
  obtain ⟨⟨w, ws⟩, hw, hv⟩ := bind_eq_ok.mp hv
  obtain ⟨stop, more, rfl⟩ := exists_inline hv
  exact ⟨stop, w, ws, n, more, hw, by simp⟩

end ReleasePublisher.Toml
