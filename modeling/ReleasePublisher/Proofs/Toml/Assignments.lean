import ReleasePublisher.Proofs.Toml.Strings

/-!
# Keys that are written

A key is a name, or names with dots between them. It is grouped to tokens that state its names, whether it stands
in a header or before the equals sign of an assignment.

## Main definitions

* `Toml.IsKeyText names t`: the ways to write a key
* `Toml.StatesKey ts names`: the tokens state the names
* `Toml.IsGivenKey names p`: the ways to write a key that is given a value

## Main results

* `Toml.IsKeyText.exists_rawKey`, `Toml.IsGivenKey.exists_rawKey`: a key is grouped to tokens that state it
* `Toml.exists_assignment`: an assignment is grouped to its key and what is grouped of its value
-/

namespace ReleasePublisher.Toml

variable {names : List String} {name s : String} {b t p x gap before after rest : List Char} {c : Char}
  {start fuel : Nat}

/-! ### Keys -/

/-- **The ways to write a key**: names with dots between them, and blanks around the dots. -/
inductive IsKeyText : List String → List Char → Prop
  | single {name : String} {t : List Char} (h : IsNameText name t) : IsKeyText [name] t
  | dotted {name : String} {names : List String} {t before after u : List Char} (h : IsNameText name t)
      (hbefore : AreBlanks before) (hafter : AreBlanks after) (hu : IsKeyText names u) :
      IsKeyText (name :: names) (t ++ (before ++ '.' :: (after ++ u)))

/-- The tokens state the names. -/
def StatesKey (ts : List Token) (names : List String) : Prop :=
  List.Forall₂ (fun t name => readName t = .ok name) ts names

/-- The text ends a key: behind blanks comes an equals sign or a closing bracket. -/
def EndsKey (rest : List Char) : Prop :=
  ∃ b c u, AreBlanks b ∧ (c = '=' ∨ c = ']') ∧ rest = b ++ c :: u

theorem endsBare_of_isBlank (h : isBlank c = true) : endsBare c = true := by
  obtain rfl | rfl : c = ' ' ∨ c = '\t' := by simpa [isBlank] using h
  · rfl
  · rfl

/-- Where blanks come before what ends a name, the name ends before the blanks. -/
theorem Ends.blanks (hb : AreBlanks b) (hrest : Ends rest) : Ends (b ++ rest) := by
  cases b with
  | nil => exact hrest
  | cons d b =>
    rintro _ ⟨⟩
    exact endsBare_of_isBlank (hb d (by simp))

theorem Ends.cons (h : endsBare c = true) (rest : List Char) : Ends (c :: rest) := by
  rintro _ ⟨⟩
  exact h

theorem IsFlush.cons (h : isBlank c = false) (rest : List Char) : IsFlush (c :: rest) := by
  rintro _ ⟨⟩
  exact h

theorem EndsKey.ends (h : EndsKey rest) : Ends rest := by
  obtain ⟨b, c, u, hb, hc, rfl⟩ := h
  refine .blanks hb (.cons ?_ u)
  rcases hc with rfl | rfl
  · rfl
  · rfl

/-- No dot follows a key. -/
theorem EndsKey.kind_ne_dot (h : EndsKey rest) (start : Nat) :
    (nextToken (skipBlanks (tokensFrom start rest))).kind ≠ .dot := by
  obtain ⟨b, c, u, hb, rfl | rfl, rfl⟩ := h
  all_goals
    rw [skipBlanks_tokensFrom hb (.cons (by decide) u), kind_nextToken_cons]
    exact nofun

theorem isFlush_nameText (h : IsNameText name t) (rest : List Char) : IsFlush (t ++ rest) := by
  rcases h with ⟨-, hne, hbare⟩ | h
  · obtain ⟨d, ds, rfl⟩ := List.exists_cons_of_ne_nil hne
    refine .cons ?_ (ds ++ rest)
    have hends := endsBare_of_isBareChar (hbare d (by simp))
    by_contra hblank
    rw [endsBare_of_isBlank (eq_true_of_ne_false hblank)] at hends
    cases hends
  · obtain ⟨u, rfl⟩ := h.exists_cons
    exact .cons (by decide) (u ++ rest)

theorem isName_nextToken_nameText (h : IsNameText name t) (rest : List Char) (start : Nat) :
    isName (nextToken (tokensFrom start (t ++ rest))) = true := by
  rcases h with ⟨-, hne, hbare⟩ | h
  · obtain ⟨d, ds, rfl⟩ := List.exists_cons_of_ne_nil hne
    rw [List.cons_append, tokensFrom_cons, tokenShape_of_isBareChar (hbare d (by simp))]
    rfl
  · obtain ⟨u, rfl⟩ := h.exists_cons
    rw [List.cons_append, tokensFrom_cons, tokenShape]
    split
    · rfl
    · rfl

/-- A name is cut off with the dot behind it. -/
theorem cuts_dotted (h : IsNameText name t) (hbefore : AreBlanks before) (hafter : AreBlanks after)
    (hrest : IsFlush rest) : Cuts (t ++ (before ++ '.' :: after)) rest := by
  have hends : Ends (before ++ '.' :: after ++ rest) := by
    rw [List.append_assoc]
    exact .blanks hbefore (.cons rfl _)
  obtain ⟨kind, htoken, -⟩ := h.exists_token hends
  exact htoken.cuts.append <| .append (cuts_blanks hbefore (.cons rfl _)) <|
    .cons (isToken_dot _) (cuts_blanks hafter hrest)

/-- The first name of a key is grouped, and what follows it if a dot comes next. -/
theorem exists_keyNames_name (h : IsNameText name t) (hrest : Ends rest) (hgap : AreBlanks gap) (start : Nat) :
    ∃ n, readName n = .ok name ∧ ∀ fuel,
      let after := tokensFrom (start + (gap ++ t).length) rest
      keyNames (fuel + 1) (tokensFrom start (gap ++ (t ++ rest))) =
        if (nextToken (skipBlanks after)).kind = .dot then
          let (ns, us) := keyNames fuel ((skipBlanks after).drop 1)
          (n :: ns, us)
        else ([n], after) := by
  obtain ⟨kind, htoken, hread⟩ := h.exists_token hrest
  obtain ⟨hname, hread⟩ := hread (start + gap.length)
  refine ⟨⟨kind, t, start + gap.length⟩, hread, fun fuel => ?_⟩
  rw [keyNames, skipBlanks_tokensFrom hgap (isFlush_nameText h rest), htoken.tokensFrom_eq]
  simp [hname, Nat.add_assoc]

namespace IsKeyText

theorem isFlush (h : IsKeyText names t) (rest : List Char) : IsFlush (t ++ rest) := by
  cases h with
  | single h => exact isFlush_nameText h rest
  | dotted h =>
    rw [List.append_assoc]
    exact isFlush_nameText h _

/-- The first token of a key states a name. -/
theorem isName_nextToken (h : IsKeyText names t) (rest : List Char) (start : Nat) :
    isName (nextToken (tokensFrom start (t ++ rest))) = true := by
  cases h with
  | single h => exact isName_nextToken_nameText h rest start
  | dotted h =>
    rw [List.append_assoc]
    exact isName_nextToken_nameText h _ start

theorem cuts (h : IsKeyText names t) (hrest : Ends rest) : Cuts t rest := by
  induction h with
  | single h =>
    obtain ⟨kind, htoken, -⟩ := h.exists_token hrest
    exact htoken.cuts
  | @dotted name names t before after u h hbefore hafter hu ih =>
    have hcuts := (cuts_dotted h hbefore hafter (hu.isFlush rest)).append ih
    simpa using hcuts

/-- A key has no more names than tokens. -/
theorem length_le (h : IsKeyText names t) (rest : List Char) (start : Nat) :
    names.length ≤ (tokensFrom start (t ++ rest)).length := by
  induction h generalizing start with
  | single => exact length_tokensFrom_pos start _
  | @dotted name names t before after u h hbefore hafter hu ih =>
    have hlt := (cuts_dotted h hbefore hafter (hu.isFlush rest)).length_lt (by simp) start
    have hle := ih (start + (t ++ (before ++ '.' :: after)).length)
    simp only [List.append_assoc, List.cons_append, List.length_cons] at hlt ⊢
    omega

/-- **The names of a key are grouped**, whatever blanks come before it. -/
theorem exists_keyNames (h : IsKeyText names t) (hrest : EndsKey rest) (hgap : AreBlanks gap) (start : Nat) :
    ∃ ts, StatesKey ts names ∧ ∀ fuel, names.length ≤ fuel →
      keyNames fuel (tokensFrom start (gap ++ (t ++ rest))) =
        (ts, tokensFrom (start + (gap ++ t).length) rest) := by
  -- By induction on the names. The blanks behind a dot are those before the key that is left.
  induction h generalizing gap start with
  | @single name t h =>
    obtain ⟨n, hn, hstep⟩ := exists_keyNames_name h hrest.ends hgap start
    refine ⟨[n], .cons hn .nil, fun fuel hfuel => ?_⟩
    obtain ⟨fuel, rfl⟩ := Nat.exists_eq_succ_of_ne_zero (Nat.ne_of_gt hfuel)
    rw [hstep, if_neg (hrest.kind_ne_dot _)]
  | @dotted name names t before after u h hbefore hafter hu ih =>
    have hends : Ends (before ++ '.' :: (after ++ u) ++ rest) := by
      rw [List.append_assoc]
      exact .blanks hbefore (.cons rfl _)
    obtain ⟨n, hn, hstep⟩ := exists_keyNames_name h hends hgap start
    obtain ⟨ns, hns, htail⟩ := ih hafter (start + (gap ++ t).length + before.length + 1)
    refine ⟨n :: ns, .cons hn hns, fun fuel hfuel => ?_⟩
    obtain ⟨fuel, rfl⟩ := Nat.exists_eq_succ_of_ne_zero (Nat.ne_of_gt (Nat.zero_lt_of_lt hfuel))
    -- Behind the blanks stands the dot, and behind the dot the other names.
    have hdot : skipBlanks (tokensFrom (start + (gap ++ t).length) (before ++ '.' :: (after ++ u) ++ rest)) =
        ⟨.dot, ['.'], start + (gap ++ t).length + before.length⟩ ::
          tokensFrom (start + (gap ++ t).length + before.length + 1) (after ++ (u ++ rest)) := by
      rw [List.append_assoc, List.cons_append, List.append_assoc, skipBlanks_tokensFrom hbefore (.cons rfl _)]
      exact (isToken_dot (after ++ (u ++ rest))).tokensFrom_eq _
    have hlength : names.length ≤ fuel := Nat.le_of_succ_le_succ hfuel
    have hstop : start + (gap ++ t).length + before.length + 1 + (after ++ u).length =
        start + (gap ++ (t ++ (before ++ '.' :: (after ++ u)))).length := by
      simp only [List.length_append, List.length_cons]
      omega
    rw [List.append_assoc t, hstep, hdot]
    simp only [nextToken_cons, if_true, List.drop_succ_cons, List.drop_zero, htail fuel hlength, hstop]

/-- **A key is grouped.** -/
theorem exists_rawKey (h : IsKeyText names t) (hrest : EndsKey rest) (hgap : AreBlanks gap) (start : Nat) :
    ∃ ts, StatesKey ts names ∧
      rawKey (tokensFrom start (gap ++ (t ++ rest))) = (ts, tokensFrom (start + (gap ++ t).length) rest) := by
  obtain ⟨ts, hts, hkey⟩ := h.exists_keyNames hrest hgap start
  refine ⟨ts, hts, hkey _ ?_⟩
  -- There is fuel for every token, and so for every name.
  have hle := h.length_le rest (start + gap.length)
  obtain ⟨us, hus, -⟩ := cuts_blanks hgap (h.isFlush rest) start
  rw [hus, List.length_append]
  omega

end IsKeyText

/-! ### What is given a value -/

/-- **A key that is given a value**: the key, and an equals sign behind it. -/
def IsGivenKey (names : List String) (p : List Char) : Prop :=
  ∃ t before after, IsKeyText names t ∧ AreBlanks before ∧ AreBlanks after ∧
    p = t ++ (before ++ '=' :: after)

namespace IsGivenKey

theorem isFlush (h : IsGivenKey names p) (rest : List Char) : IsFlush (p ++ rest) := by
  obtain ⟨t, before, after, ht, -, -, rfl⟩ := h
  rw [List.append_assoc]
  exact ht.isFlush _

theorem cuts (h : IsGivenKey names p) (hrest : IsFlush rest) : Cuts p rest := by
  obtain ⟨t, before, after, ht, hbefore, hafter, rfl⟩ := h
  have hends : Ends (before ++ '=' :: after ++ rest) := by
    rw [List.append_assoc]
    exact .blanks hbefore (.cons rfl _)
  exact (ht.cuts hends).append <| .append (cuts_blanks hbefore (.cons rfl _)) <|
    .cons (isToken_equals _) (cuts_blanks hafter hrest)

/-- The first token states a name. -/
theorem isName_nextToken (h : IsGivenKey names p) (rest : List Char) (start : Nat) :
    isName (nextToken (tokensFrom start (p ++ rest))) = true := by
  obtain ⟨t, before, after, ht, -, -, rfl⟩ := h
  rw [List.append_assoc]
  exact ht.isName_nextToken _ start

/-- **The key is grouped**, and behind it stand the equals sign and the value. -/
theorem exists_rawKey (h : IsGivenKey names p) (hrest : IsFlush rest) (start : Nat) :
    ∃ ts us e vs, StatesKey ts names ∧ rawKey (tokensFrom start (p ++ rest)) = (ts, us) ∧
      skipBlanks us = e :: vs ∧ e.kind = .equals ∧
        skipBlanks vs = tokensFrom (start + p.length) rest := by
  obtain ⟨t, before, after, ht, hbefore, hafter, rfl⟩ := h
  have hends : EndsKey (before ++ '=' :: (after ++ rest)) := ⟨before, '=', _, hbefore, .inl rfl, rfl⟩
  obtain ⟨ts, hts, hkey⟩ := ht.exists_rawKey hends AreBlanks.nil start
  have hequals := (isToken_equals (after ++ rest)).tokensFrom_eq (start + t.length + before.length)
  refine ⟨ts, _, _, _, hts, ?_, (skipBlanks_tokensFrom hbefore (.cons rfl _) _).trans hequals, rfl, ?_⟩
  · simpa using hkey
  · rw [skipBlanks_tokensFrom hafter hrest]
    simp only [List.length_append, List.length_cons, List.length_nil]
    congr 1
    omega

end IsGivenKey

/-- **An assignment is grouped** as far as its value. -/
theorem exists_assignment (h : IsGivenKey names p) (hrest : IsFlush rest) (start : Nat) :
    ∃ ts, StatesKey ts names ∧ ∀ fuel, assignment fuel (tokensFrom start (p ++ rest)) =
      (rawValue fuel 0 false (tokensFrom (start + p.length) rest)).bind fun (v, us) =>
        (lineEnd us).map fun us => (.assignment ts v, us) := by
  obtain ⟨ts, us, e, vs, hts, hkey, hus, he, hvs⟩ := h.exists_rawKey hrest start
  refine ⟨ts, hts, fun fuel => ?_⟩
  simp only [assignment, hkey, hus, nextToken_cons, he, List.drop_succ_cons, List.drop_zero, hvs]
  rfl

end ReleasePublisher.Toml
