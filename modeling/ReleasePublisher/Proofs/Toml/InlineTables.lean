import ReleasePublisher.Proofs.Toml.Values

/-!
# Inline tables that are written

A string is grouped to its token, and an inline table of strings to its entries: the loop over the entries gets
from each of them to the next, and fuel for every token is fuel enough for it.

## Main definitions

* `Toml.IsEntryText names s p`: the ways to write a key that is given a string
* `Toml.IsInlineText es p`: the ways to write an inline table of strings
* `Toml.RawValue.MeansText v s`, `Toml.RawValue.MeansTable v es`: the value states a string, or a table of strings
* `Toml.EntryLoop`, `Toml.EntryLoop.Reaches`: where the loop over the entries stands, and where it gets

## Main results

* `Toml.IsSpelling.exists_rawValue`: a string is grouped to a value that states it
* `Toml.AreEntries.exists_reaches`: the loop gets past entries, and keeps them
* `Toml.IsInlineText.exists_rawValue`: an inline table is grouped to a value that states it
-/

namespace ReleasePublisher.Toml

variable {names : List String} {name s : String} {b p q u x gap after rest : List Char} {e : String × String}
  {start opening depth fuel : Nat} {t : Token} {ts us : List Token} {v : RawValue} {inside wanted : Bool}
  {comma : Option Token} {entries : List (List Token × RawValue)} {es : List (String × String)}

/-! ### Strings and entries -/

/-- The value is a token that states the string. -/
def RawValue.MeansText (v : RawValue) (s : String) : Prop :=
  ∃ t, v = .scalar t ∧ readScalar t = .ok (.text s)

/-- The entry states a name and a string. -/
def MeansEntry (x : List Token × RawValue) (e : String × String) : Prop :=
  StatesKey x.1 [e.1] ∧ x.2.MeansText e.2

/-- The value is an inline table that states the entries. -/
def RawValue.MeansTable (v : RawValue) (es : List (String × String)) : Prop :=
  ∃ start stop xs, v = .inline start stop xs ∧ List.Forall₂ MeansEntry xs es

/-- **The ways to write an entry**: a key that is given a string. -/
def IsEntryText (names : List String) (s : String) (p : List Char) : Prop :=
  ∃ q x, IsGivenKey names q ∧ IsSpelling s x ∧ p = q ++ x

/-- Entries of an inline table, each with a comma behind it. -/
inductive AreEntries : List (String × String) → List Char → Prop
  | nil : AreEntries [] []
  | cons {e : String × String} {es : List (String × String)} {gap p after u : List Char} (hgap : AreBlanks gap)
      (hp : IsEntryText [e.1] e.2 p) (hafter : AreBlanks after) (hu : AreEntries es u) :
      AreEntries (e :: es) (gap ++ (p ++ (after ++ ',' :: u)))

/-- **The ways to write an inline table**: entries with commas between them, in braces. -/
inductive IsInlineText : List (String × String) → List Char → Prop
  | empty {gap : List Char} (hgap : AreBlanks gap) : IsInlineText [] ('{' :: (gap ++ ['}']))
  | entries {es : List (String × String)} {e : String × String} {u gap p after : List Char}
      (hu : AreEntries es u) (hgap : AreBlanks gap) (hp : IsEntryText [e.1] e.2 p) (hafter : AreBlanks after) :
      IsInlineText (es ++ [e]) ('{' :: (u ++ (gap ++ (p ++ (after ++ ['}'])))))

theorem IsSpelling.isFlush (h : IsSpelling s x) (rest : List Char) : IsFlush (x ++ rest) := by
  obtain ⟨u, rfl⟩ := h.exists_cons
  exact .cons rfl _

/-- **A string is grouped** to its token. -/
theorem IsSpelling.exists_rawValue (h : IsSpelling s x) (hrest : Ends rest) (start : Nat) :
    ∃ v : RawValue, v.MeansText s ∧ ∀ fuel depth inside,
      rawValue (fuel + 1) depth inside (tokensFrom start (x ++ rest)) =
        .ok (v, tokensFrom (start + x.length) rest) := by
  refine ⟨.scalar ⟨.basic, x, start⟩, ⟨_, rfl, h.readScalar_eq start⟩, fun fuel depth inside => ?_⟩
  rw [(h.isToken hrest).tokensFrom_eq, rawValue.eq_def]
  rfl

theorem IsEntryText.isFlush (h : IsEntryText names s p) (rest : List Char) : IsFlush (p ++ rest) := by
  obtain ⟨q, x, hq, -, rfl⟩ := h
  rw [List.append_assoc]
  exact hq.isFlush _

theorem IsEntryText.cuts (h : IsEntryText names s p) (hrest : Ends rest) : Cuts p rest := by
  obtain ⟨q, x, hq, hx, rfl⟩ := h
  exact (hq.cuts (hx.isFlush rest)).append (hx.isToken hrest).cuts

theorem IsEntryText.ne_nil (h : IsEntryText names s p) : p ≠ [] := by
  obtain ⟨q, x, hq, hx, rfl⟩ := h
  obtain ⟨u, rfl⟩ := hx.exists_cons
  simp

theorem AreEntries.cuts (h : AreEntries es u) (rest : List Char) : Cuts u rest := by
  induction h with
  | nil => exact .nil rest
  | @cons e es gap p after u hgap hp hafter hu ih =>
    refine .append (cuts_blanks hgap ?_) (.append (hp.cuts ?_) (.append (cuts_blanks hafter ?_) ?_))
    · rw [List.append_assoc]
      exact hp.isFlush _
    · rw [List.append_assoc]
      exact .blanks hafter (.cons rfl _)
    · exact .cons rfl _
    · exact .cons (isToken_comma _) ih

theorem IsInlineText.isFlush (h : IsInlineText es x) (rest : List Char) : IsFlush (x ++ rest) := by
  cases h with
  | empty => exact .cons rfl _
  | entries => exact .cons rfl _

theorem IsInlineText.cuts (h : IsInlineText es x) (rest : List Char) : Cuts x rest := by
  have hclose : Cuts ['}'] rest := (isToken_closeBrace rest).cuts
  cases h with
  | empty hgap => exact .cons (isToken_openBrace _) (.append (cuts_blanks hgap (.cons rfl _)) hclose)
  | @entries es e u gap p after hu hgap hp hafter =>
    refine .cons (isToken_openBrace _) (.append (hu.cuts _) (.append (cuts_blanks hgap ?_) (.append (hp.cuts ?_)
      (.append (cuts_blanks hafter (.cons rfl _)) hclose))))
    · rw [List.append_assoc]
      exact hp.isFlush _
    · rw [List.append_assoc]
      exact .blanks hafter (.cons rfl _)

/-! ### The loop over the entries -/

/-- Where the loop over the entries of an inline table is. -/
structure EntryLoop where
  wanted : Bool
  comma : Option Token
  entries : List (List Token × RawValue)
  tokens : List Token

/-- What the loop groups from here. -/
def EntryLoop.group (l : EntryLoop) (depth opening fuel : Nat) : Except Fault (RawValue × List Token) :=
  inlineEntries fuel depth opening l.wanted l.comma l.entries l.tokens

/-- **The loop gets from one place to another**, in no more steps than it passes tokens. -/
def EntryLoop.Reaches (depth opening : Nat) (l l' : EntryLoop) : Prop :=
  ∃ k, k + l'.tokens.length ≤ l.tokens.length ∧ ∀ fuel,
    l.group depth opening (fuel + 1 + k) = l'.group depth opening (fuel + 1)

namespace EntryLoop

variable {l l' l'' : EntryLoop}

theorem Reaches.refl (l : EntryLoop) : Reaches depth opening l l :=
  ⟨0, by omega, fun _ => rfl⟩

theorem Reaches.trans (h : Reaches depth opening l l') (h' : Reaches depth opening l' l'') :
    Reaches depth opening l l'' := by
  obtain ⟨k, hk, hgroup⟩ := h
  obtain ⟨k', hk', hgroup'⟩ := h'
  refine ⟨k + k', by omega, fun fuel => ?_⟩
  rw [← hgroup', Nat.add_comm k, ← Nat.add_assoc, Nat.add_right_comm fuel 1 k']
  exact (hgroup (fuel + k')).trans (by rw [Nat.add_right_comm])

/-- The loop passes over blanks. -/
theorem reaches_blanks (depth opening : Nat) (hb : AreBlanks b) (hrest : IsFlush rest) (start : Nat)
    (wanted : Bool) (comma : Option Token) (entries : List (List Token × RawValue)) :
    Reaches depth opening ⟨wanted, comma, entries, tokensFrom start (b ++ rest)⟩
      ⟨wanted, comma, entries, tokensFrom (start + b.length) rest⟩ := by
  by_cases hne : b = []
  · subst hne
    exact .refl _
  · rw [(isToken_blanks hne hb hrest).tokensFrom_eq]
    refine ⟨1, by simp [Nat.add_comm], fun fuel => ?_⟩
    rw [group, inlineEntries.eq_def]
    rfl

/-- The loop passes over the comma behind an entry. -/
theorem reaches_comma (depth opening start : Nat) (rest : List Char) :
    ∃ comma', Reaches depth opening ⟨false, comma, entries, tokensFrom start (',' :: rest)⟩
      ⟨true, comma', entries, tokensFrom (start + 1) rest⟩ := by
  have htokens := (isToken_comma rest).tokensFrom_eq start
  refine ⟨some ⟨.comma, [','], start⟩, 1, ?_, fun fuel => ?_⟩
  · rw [List.singleton_append] at htokens
    rw [htokens]
    simp [Nat.add_comm]
  · rw [group, inlineEntries.eq_def]
    rw [List.singleton_append] at htokens
    rw [htokens]
    rfl

/-- **Where an entry comes next**, its value is grouped, and the loop goes on behind it. -/
theorem exists_group_key (h : IsGivenKey names q) (hrest : IsFlush rest) (start : Nat) :
    ∃ ts, StatesKey ts names ∧ ∀ depth opening fuel comma entries,
      group ⟨true, comma, entries, tokensFrom start (q ++ rest)⟩ depth opening (fuel + 1) =
        (rawValue fuel depth true (tokensFrom (start + q.length) rest)).bind fun (v, us) =>
          group ⟨false, comma, (ts, v) :: entries, us⟩ depth opening fuel := by
  obtain ⟨ts, us, e, vs, hts, hkey, hus, he, hvs⟩ := h.exists_rawKey hrest start
  refine ⟨ts, hts, fun depth opening fuel comma entries => ?_⟩
  have hname := h.isName_nextToken rest start
  rw [group, inlineEntries.eq_def]
  dsimp only
  split
  case h_10 =>
    simp only [hkey, hus, nextToken_cons, he, List.drop_succ_cons, List.drop_zero, hvs]
    rfl
  all_goals
    rename_i hkind
    rw [isName, hkind] at hname
    cases hname

/-- **The loop passes over an entry**, which it groups. -/
theorem reaches_entry (depth opening : Nat) (h : IsEntryText [e.1] e.2 p) (hrest : Ends rest) (start : Nat) :
    ∃ x, MeansEntry x e ∧ ∀ comma entries,
      Reaches depth opening ⟨true, comma, entries, tokensFrom start (p ++ rest)⟩
        ⟨false, comma, x :: entries, tokensFrom (start + p.length) rest⟩ := by
  have hlt := (h.cuts hrest).length_lt h.ne_nil start
  obtain ⟨q, x, hq, hx, rfl⟩ := h
  obtain ⟨ts, hts, hgroup⟩ := exists_group_key hq (hx.isFlush rest) start
  obtain ⟨v, hv, hvalue⟩ := hx.exists_rawValue hrest (start + q.length)
  refine ⟨(ts, v), ⟨hts, hv⟩, fun comma entries => ⟨1, ?_, fun fuel => ?_⟩⟩
  · rw [Nat.add_comm]
    exact hlt
  · rw [List.append_assoc, hgroup, hvalue, List.length_append, ← Nat.add_assoc]
    rfl

/-- An inline table is grouped by the loop over its entries. -/
theorem rawValue_openBrace (start fuel : Nat) (rest : List Char) :
    rawValue (fuel + 1) 0 false (tokensFrom start ('{' :: rest)) =
      group ⟨true, none, [], tokensFrom (start + 1) rest⟩ 1 start fuel := by
  have hopen := (isToken_openBrace rest).tokensFrom_eq start
  rw [List.singleton_append] at hopen
  rw [hopen, rawValue.eq_def]
  rfl

/-- The loop ends at a brace, unless a comma comes right before it. -/
theorem group_closeBrace (h : wanted = false ∨ comma = none) (start : Nat) (rest : List Char) :
    group ⟨wanted, comma, entries, tokensFrom start ('}' :: rest)⟩ depth opening (fuel + 1) =
      .ok (.inline opening (start + 1) entries.reverse, tokensFrom (start + 1) rest) := by
  have hclose := (isToken_closeBrace rest).tokensFrom_eq start
  rw [List.singleton_append] at hclose
  rw [hclose, group, inlineEntries.eq_def]
  rcases h with rfl | rfl
  · rfl
  · cases wanted
    · rfl
    · rfl

/-- **An inline table is grouped** where the loop gets from its first brace to its last. -/
theorem Reaches.rawValue_eq {start stop : Nat} (hw : Reaches 1 start ⟨true, none, [], tokensFrom (start + 1) u⟩
      ⟨wanted, comma, entries, tokensFrom stop ('}' :: rest)⟩) (h : wanted = false ∨ comma = none)
    (hfuel : (tokensFrom start ('{' :: u)).length + 2 ≤ fuel) :
    rawValue fuel 0 false (tokensFrom start ('{' :: u)) =
      .ok (.inline start (stop + 1) entries.reverse, tokensFrom (stop + 1) rest) := by
  obtain ⟨k, hk, hgroup⟩ := hw
  have hopen := (isToken_openBrace u).tokensFrom_eq start
  rw [List.singleton_append] at hopen
  rw [hopen, List.length_cons] at hfuel
  have hlength : k ≤ (tokensFrom (start + 1) u).length := (Nat.le_add_right _ _).trans hk
  obtain ⟨n, rfl⟩ : ∃ n, fuel = n + 1 + k + 1 := ⟨fuel - k - 2, by
    simp only [List.length_singleton] at hfuel
    omega⟩
  rw [rawValue_openBrace, hgroup, group_closeBrace h]

end EntryLoop

open EntryLoop

/-- **The loop passes over entries with commas behind them**, which it groups. -/
theorem AreEntries.exists_reaches (depth opening : Nat) (h : AreEntries es u) (comma : Option Token)
    (entries : List (List Token × RawValue)) (start : Nat) (rest : List Char) :
    ∃ xs comma', List.Forall₂ MeansEntry xs es ∧
      Reaches depth opening ⟨true, comma, entries, tokensFrom start (u ++ rest)⟩
        ⟨true, comma', xs.reverse ++ entries, tokensFrom (start + u.length) rest⟩ := by
  -- By induction on the entries. The loop keeps those behind it in reverse.
  induction h generalizing comma entries start with
  | nil => exact ⟨[], comma, .nil, .refl _⟩
  | @cons e es gap p after u hgap hp hafter hu ih =>
    have hends : Ends (after ++ ',' :: (u ++ rest)) := .blanks hafter (.cons rfl _)
    obtain ⟨x, hx, hentry⟩ := reaches_entry depth opening hp hends (start + gap.length)
    obtain ⟨comma₁, hcomma⟩ :=
      reaches_comma depth opening (start + gap.length + p.length + after.length) (u ++ rest)
    obtain ⟨xs, comma', hxs, htail⟩ := ih comma₁ (x :: entries)
      (start + gap.length + p.length + after.length + 1)
    refine ⟨x :: xs, comma', .cons hx hxs, ?_⟩
    have h₁ := (reaches_blanks depth opening hgap (hp.isFlush _) start _ _ _).trans (hentry comma entries)
    have h₂ := (reaches_blanks depth opening hafter (.cons rfl _) _ _ _ _).trans hcomma
    have hstop : start + (gap ++ (p ++ (after ++ ',' :: u))).length =
        start + gap.length + p.length + after.length + 1 + u.length := by
      simp only [List.length_append, List.length_cons]
      omega
    rw [hstop]
    simpa using (h₁.trans h₂).trans htail

/-- **An inline table is grouped** with its entries. -/
theorem IsInlineText.exists_rawValue (h : IsInlineText es x) (rest : List Char) (start : Nat) :
    ∃ v : RawValue, v.MeansTable es ∧ ∀ fuel, (tokensFrom start (x ++ rest)).length + 2 ≤ fuel →
      rawValue fuel 0 false (tokensFrom start (x ++ rest)) = .ok (v, tokensFrom (start + x.length) rest) := by
  cases h with
  | @empty gap hgap =>
    have hstop : start + ('{' :: (gap ++ ['}'])).length = start + 1 + gap.length + 1 := by
      simp only [List.length_append, List.length_cons, List.length_nil]
      omega
    have hgroup := reaches_blanks 1 start hgap (.cons (c := '}') rfl rest) (start + 1)
    refine ⟨.inline start (start + 1 + gap.length + 1) [], ⟨_, _, [], rfl, .nil⟩, fun fuel hfuel => ?_⟩
    rw [List.cons_append, List.append_assoc] at hfuel ⊢
    rw [hstop]
    exact (hgroup true none []).rawValue_eq (.inr rfl) hfuel
  | @entries es e u gap p after hu hgap hp hafter =>
    have hstop : start + ('{' :: (u ++ (gap ++ (p ++ (after ++ ['}']))))).length =
        start + 1 + u.length + gap.length + p.length + after.length + 1 := by
      simp only [List.length_append, List.length_cons, List.length_nil]
      omega
    -- The last entry is passed on its own: the closing brace is behind it, where the others have a comma.
    have hends : Ends (after ++ '}' :: rest) := .blanks hafter (.cons rfl _)
    obtain ⟨xs, comma, hxs, hentries⟩ := hu.exists_reaches 1 start none [] (start + 1)
      (gap ++ (p ++ (after ++ '}' :: rest)))
    obtain ⟨y, hy, hentry⟩ := reaches_entry 1 start hp hends
      (start + 1 + u.length + gap.length)
    have hgap' := reaches_blanks 1 start hgap (hp.isFlush (after ++ '}' :: rest))
      (start + 1 + u.length) true comma (xs.reverse ++ [])
    have hafter' := reaches_blanks 1 start hafter (.cons (c := '}') rfl rest)
      (start + 1 + u.length + gap.length + p.length) false comma (y :: (xs.reverse ++ []))
    have hall := ((hentries.trans hgap').trans (hentry comma _)).trans hafter'
    have hmeans : List.Forall₂ MeansEntry (y :: (xs.reverse ++ [])).reverse (es ++ [e]) := by
      simpa using List.rel_append hxs (.cons hy .nil)
    refine ⟨.inline start (start + 1 + u.length + gap.length + p.length + after.length + 1)
      (y :: (xs.reverse ++ [])).reverse, ⟨_, _, _, rfl, hmeans⟩, fun fuel hfuel => ?_⟩
    simp only [List.cons_append, List.append_assoc, List.nil_append] at hfuel ⊢
    rw [hstop]
    exact hall.rawValue_eq (.inl rfl) hfuel

end ReleasePublisher.Toml
