import ReleasePublisher.Proofs.Toml.InlineTables

/-!
# Lines that are written

A line opens a table, gives a key a string or a table of strings, or says nothing. Blanks and a comment may stand
at its end. Lines are grouped to the statements that state them, one after the other.

## Main definitions

* `Toml.IsRemark m`, `Toml.EndsLine ending rest`: a comment, and the end of a line
* `Toml.Line`, `Toml.Line.IsText l p`: what a line states, and the ways to write it
* `Toml.Line.Means l s`: the statement states the line
* `Toml.AreLines rest ls u`: lines of a text that `rest` follows
* `Toml.Groups fuel ts ss us`: tokens are grouped to statements, as far as `us`

## Main results

* `Toml.lineEnd_eq`: the end of a line is passed over
* `Toml.exists_statementsOf_key`: where a key is given a value, the assignment is the next statement
* `Toml.AreLines.exists_groups`: lines are grouped to the statements that state them
-/

namespace ReleasePublisher.Toml

open Json (bind_eq_ok map_eq_ok)

variable {names : List String} {b m p q u ending rest : List Char} {start fuel : Nat} {t : Token}
  {ts us vs : List Token}

/-! ### The end of a line -/

/-- A comment, or none. -/
def IsRemark (m : List Char) : Prop :=
  m = [] ∨ ∃ cs, m = '#' :: cs ∧ ∀ c ∈ cs, (0x20 ≤ c.toNat ∨ c = '\t') ∧ c.toNat ≠ 0x7F

/-- **The end of a line**: a line break, or the end of the text. -/
def EndsLine (ending rest : List Char) : Prop :=
  ending = ['\n'] ∨ ending = ['\r', '\n'] ∨ ending = [] ∧ rest = []

theorem isControl_eq_false {c : Char} (h : (0x20 ≤ c.toNat ∨ c = '\t') ∧ c.toNat ≠ 0x7F) :
    isControl c = false := by
  obtain ⟨hvisible | rfl, hdelete⟩ := h
  · simp [isControl, hdelete, Nat.not_lt.mpr hvisible]
  · rfl

theorem isToken_newline (h : EndsLine ending rest) (hne : ending ≠ []) : IsToken .newline ending rest := by
  rcases h with rfl | rfl | ⟨rfl, -⟩
  · exact ⟨'\n', [], rfl, rfl⟩
  · exact ⟨'\r', ['\n'], rfl, by simp [tokenShape]⟩
  · exact absurd rfl hne

theorem isToken_comment (hne : m ≠ []) (hm : IsRemark m) (h : EndsLine ending rest) :
    IsToken .comment m (ending ++ rest) := by
  obtain rfl | ⟨cs, rfl, hcs⟩ := hm
  · exact absurd rfl hne
  refine ⟨'#', cs, rfl, Prod.ext rfl (length_takeWhile_append ?_ ?_)⟩
  · intro c hc
    have hcontrol := isControl_eq_false (hcs c hc)
    have hbreak : c ≠ '\r' ∧ c ≠ '\n' := by
      constructor
      all_goals
        rintro rfl
        revert hcontrol
        decide
    simp [hbreak]
  · rcases h with rfl | rfl | ⟨rfl, rfl⟩
    · rintro _ ⟨⟩
      rfl
    · rintro _ ⟨⟩
      rfl
    · exact nofun

theorem checkComment_eq (hm : IsRemark m) (start : Nat) : checkComment ⟨.comment, m, start⟩ = .ok () := by
  have hnone : m.findIdx? isControl = none := by
    rw [List.findIdx?_eq_none_iff]
    obtain rfl | ⟨cs, rfl, hcs⟩ := hm
    · simp
    · intro c hc
      rcases List.mem_cons.mp hc with rfl | hc
      · rfl
      · exact isControl_eq_false (hcs c hc)
  simp [checkComment, hnone]

theorem checkNewline_eq (h : EndsLine ending rest) (start : Nat) :
    checkNewline ⟨.newline, ending, start⟩ = .ok () := by
  rcases h with rfl | rfl | ⟨rfl, -⟩
  · rfl
  · rfl
  · rfl

/-- What may stand behind a statement on its line. -/
theorem EndsLine.isFlush (h : EndsLine ending rest) : IsFlush (ending ++ rest) := by
  rcases h with rfl | rfl | ⟨rfl, rfl⟩
  · exact .cons rfl _
  · exact .cons rfl _
  · exact nofun

theorem IsRemark.isFlush (hm : IsRemark m) (h : IsFlush rest) : IsFlush (m ++ rest) := by
  obtain rfl | ⟨cs, rfl, -⟩ := hm
  · exact h
  · exact .cons rfl _

theorem EndsLine.ends (h : EndsLine ending rest) : Ends (ending ++ rest) := by
  rcases h with rfl | rfl | ⟨rfl, rfl⟩
  · exact .cons rfl _
  · exact .cons rfl _
  · exact nofun

theorem IsRemark.ends (hm : IsRemark m) (h : Ends rest) : Ends (m ++ rest) := by
  obtain rfl | ⟨cs, rfl, -⟩ := hm
  · exact h
  · exact .cons rfl _

/-- A line ends with a token of its own, which is kept where it ends the text. -/
theorem EndsLine.exists_token (h : EndsLine ending rest) (start : Nat) :
    ∃ t us, tokensFrom start (ending ++ rest) = t :: us ∧
      (t.kind = .newline ∧ checkNewline t = .ok () ∧ us = tokensFrom (start + ending.length) rest ∨
        t.kind = .endOfText ∧ t :: us = tokensFrom (start + ending.length) rest) := by
  by_cases hne : ending = []
  · obtain ⟨rfl, rfl⟩ : ending = [] ∧ rest = [] := by
      rcases h with h | h | h
      · exact absurd (h.symm.trans hne) nofun
      · exact absurd (h.symm.trans hne) nofun
      · exact h
    exact ⟨_, [], tokensFrom_nil start, .inr ⟨rfl, (tokensFrom_nil start).symm⟩⟩
  · exact ⟨_, _, (isToken_newline h hne).tokensFrom_eq start, .inl ⟨rfl, checkNewline_eq h start, rfl⟩⟩

/-- **The end of a line is passed over**, with the blanks and the comment before it. -/
theorem lineEnd_eq (hb : AreBlanks b) (hm : IsRemark m) (h : EndsLine ending rest) (start : Nat) :
    lineEnd (tokensFrom start (b ++ (m ++ (ending ++ rest)))) =
      .ok (tokensFrom (start + b.length + m.length + ending.length) rest) := by
  obtain ⟨t, us, hts, hend⟩ := h.exists_token (start + b.length + m.length)
  rw [lineEnd, skipBlanks_tokensFrom hb (hm.isFlush h.isFlush)]
  by_cases hne : m = []
  · subst hne
    rw [List.nil_append, List.length_nil, Nat.add_zero] at *
    rw [hts]
    rcases hend with ⟨hkind, hcheck, rfl⟩ | ⟨hkind, hus⟩
    · simp [hkind, bind, Except.bind, pure, Except.pure, hcheck]
    · simp [hkind, bind, Except.bind, pure, Except.pure, ← hus]
  · have hcheck := checkComment_eq hm (start + b.length)
    rw [(isToken_comment hne hm h).tokensFrom_eq, hts]
    rcases hend with ⟨hkind, hnewline, rfl⟩ | ⟨hkind, hus⟩
    · simp [hkind, bind, Except.bind, pure, Except.pure, hcheck, hnewline]
    · simp [hkind, bind, Except.bind, pure, Except.pure, hcheck, ← hus]

/-! ### Statements -/

/-- What a line states: it opens a table, or gives a key a string or a table of strings. -/
inductive Line where
  | opens (names : List String)
  | text (names : List String) (s : String)
  | table (names : List String) (es : List (String × String))

/-- **The ways to write a statement.** -/
inductive Line.IsText : Line → List Char → Prop
  | opens {names : List String} {before t after : List Char} (hbefore : AreBlanks before)
      (ht : IsKeyText names t) (hafter : AreBlanks after) :
      (opens names).IsText ('[' :: (before ++ (t ++ (after ++ [']']))))
  | text {names : List String} {s : String} {p : List Char} (h : IsEntryText names s p) :
      (text names s).IsText p
  | table {names : List String} {es : List (String × String)} {q x : List Char} (hq : IsGivenKey names q)
      (hx : IsInlineText es x) : (table names es).IsText (q ++ x)

/-- The statement states the line. -/
inductive Line.Means : Line → Statement → Prop
  | opens {names : List String} {ts : List Token} {start stop : Nat} (hts : StatesKey ts names) :
      (opens names).Means (.header false ts start stop)
  | text {names : List String} {s : String} {ts : List Token} {v : RawValue} (hts : StatesKey ts names)
      (hv : v.MeansText s) : (text names s).Means (.assignment ts v)
  | table {names : List String} {es : List (String × String)} {ts : List Token} {v : RawValue}
      (hts : StatesKey ts names) (hv : v.MeansTable es) : (table names es).Means (.assignment ts v)

/-- **Lines of a text**, which `rest` follows. Each has at most one statement. -/
inductive AreLines (rest : List Char) : List Line → List Char → Prop
  | nil : AreLines rest [] []
  | empty {ls : List Line} {b m ending u : List Char} (hb : AreBlanks b) (hm : IsRemark m)
      (hending : EndsLine ending (u ++ rest)) (hu : AreLines rest ls u) :
      AreLines rest ls (b ++ (m ++ (ending ++ u)))
  | line {l : Line} {ls : List Line} {gap p b m ending u : List Char} (hgap : AreBlanks gap) (hp : l.IsText p)
      (hb : AreBlanks b) (hm : IsRemark m) (hending : EndsLine ending (u ++ rest)) (hu : AreLines rest ls u) :
      AreLines rest (l :: ls) (gap ++ (p ++ (b ++ (m ++ (ending ++ u)))))

/-- The key of a header begins with no second bracket. -/
theorem IsKeyText.kind_ne_openBracket (ht : IsKeyText names q) (hb : AreBlanks b) (start : Nat)
    (rest : List Char) : (nextToken (tokensFrom start (b ++ (q ++ rest)))).kind ≠ .openBracket := by
  intro hkind
  by_cases hne : b = []
  · subst hne
    have hname := ht.isName_nextToken rest start
    rw [List.nil_append] at hkind
    rw [isName, hkind] at hname
    cases hname
  · rw [(isToken_blanks hne hb (ht.isFlush rest)).tokensFrom_eq] at hkind
    cases hkind

/-- **A header is grouped.** -/
theorem exists_header {before t after : List Char} (hbefore : AreBlanks before) (ht : IsKeyText names t)
    (hafter : AreBlanks after) (start : Nat) (rest : List Char) :
    let stop := start + ('[' :: (before ++ (t ++ (after ++ [']'])))).length
    ∃ ts, StatesKey ts names ∧
      header (tokensFrom start ('[' :: (before ++ (t ++ (after ++ ']' :: rest))))) =
        (lineEnd (tokensFrom stop rest)).map fun us => (.header false ts start stop, us) := by
  intro stop
  have hstop : stop = start + 1 + (before ++ t).length + after.length + 1 := by
    simp only [stop, List.length_append, List.length_cons, List.length_nil]
    omega
  have hopen := (isToken_openBracket (before ++ (t ++ (after ++ ']' :: rest)))).tokensFrom_eq start
  have hclose := (isToken_closeBracket rest).tokensFrom_eq (start + 1 + (before ++ t).length + after.length)
  have hskip := skipBlanks_tokensFrom hafter (.cons (c := ']') rfl rest) (start + 1 + (before ++ t).length)
  have hends : EndsKey (after ++ ']' :: rest) := ⟨after, ']', rest, hafter, .inr rfl, rfl⟩
  obtain ⟨ts, hts, hkey⟩ := ht.exists_rawKey hends hbefore (start + 1)
  have hsingle := beq_eq_false_iff_ne.mpr (ht.kind_ne_openBracket hbefore (start + 1) (after ++ ']' :: rest))
  refine ⟨ts, hts, ?_⟩
  rw [List.singleton_append] at hopen hclose
  rw [header, hopen]
  simp only [List.length_singleton, List.drop_succ_cons, List.drop_zero, nextToken_cons, hsingle,
    Bool.false_eq_true, if_false, hkey, hskip, hclose, bne_self_eq_false, Bool.not_false, if_true, Token.stop,
    ← hstop]
  rfl

theorem cuts_header {before t after : List Char} (hbefore : AreBlanks before) (ht : IsKeyText names t)
    (hafter : AreBlanks after) (rest : List Char) : Cuts ('[' :: (before ++ (t ++ (after ++ [']'])))) rest := by
  refine .cons (isToken_openBracket _) (.append (cuts_blanks hbefore ?_) (.append (ht.cuts ?_)
    (.append (cuts_blanks hafter (.cons rfl _)) (isToken_closeBracket rest).cuts)))
  · rw [List.append_assoc]
    exact ht.isFlush _
  · rw [List.append_assoc]
    exact .blanks hafter (.cons rfl _)

theorem cuts_lineEnd (hb : AreBlanks b) (hm : IsRemark m) (h : EndsLine ending rest) :
    Cuts (b ++ (m ++ ending)) rest := by
  have hending : Cuts ending rest := by
    by_cases hne : ending = []
    · subst hne
      exact .nil rest
    · exact (isToken_newline h hne).cuts
  have hremark : Cuts m (ending ++ rest) := by
    by_cases hne : m = []
    · subst hne
      exact .nil _
    · exact (isToken_comment hne hm h).cuts
  refine .append (cuts_blanks hb ?_) (.append hremark hending)
  rw [List.append_assoc]
  exact hm.isFlush h.isFlush

namespace Line.IsText

variable {l : Line}

theorem cuts (h : l.IsText p) (hrest : Ends rest) : Cuts p rest := by
  cases h with
  | opens hbefore ht hafter => exact cuts_header hbefore ht hafter rest
  | text h => exact h.cuts hrest
  | table hq hx => exact (hq.cuts (hx.isFlush rest)).append (hx.cuts rest)

theorem isFlush (h : l.IsText p) (rest : List Char) : IsFlush (p ++ rest) := by
  cases h with
  | opens => exact .cons rfl _
  | text h => exact h.isFlush rest
  | table hq =>
    rw [List.append_assoc]
    exact hq.isFlush _

theorem ne_nil (h : l.IsText p) : p ≠ [] := by
  cases h with
  | opens => exact nofun
  | text h => exact h.ne_nil
  | table hq hx =>
    cases hx with
    | empty => simp
    | entries => simp

end Line.IsText

/-! ### The statements of lines -/

/-- **The tokens are grouped** to the statements, as far as `us`. -/
def Groups (fuel : Nat) (ts : List Token) (ss : List Statement) (us : List Token) : Prop :=
  ∃ k, k + us.length ≤ ts.length ∧ ∀ steps,
    statementsOf fuel (steps + k) ts = (statementsOf fuel steps us).map (ss ++ ·)

namespace Groups

variable {ss ss' : List Statement}

theorem refl (fuel : Nat) (ts : List Token) : Groups fuel ts [] ts :=
  ⟨0, by omega, fun _ => by cases statementsOf fuel _ ts <;> rfl⟩

theorem trans (h : Groups fuel ts ss us) (h' : Groups fuel us ss' vs) : Groups fuel ts (ss ++ ss') vs := by
  obtain ⟨k, hk, hgroup⟩ := h
  obtain ⟨k', hk', hgroup'⟩ := h'
  refine ⟨k' + k, by omega, fun steps => ?_⟩
  rw [← Nat.add_assoc, hgroup, hgroup']
  cases statementsOf fuel steps vs with
  | error f => rfl
  | ok rest => simp [Except.map]

theorem length_le (h : Groups fuel ts ss us) : us.length ≤ ts.length := by
  obtain ⟨k, hk, -⟩ := h
  omega

/-- A token that is no part of a statement is passed over. -/
theorem skip (h : ∀ steps, statementsOf fuel (steps + 1) (t :: us) = statementsOf fuel steps us) :
    Groups fuel (t :: us) [] us := by
  refine ⟨1, by simp [Nat.add_comm], fun steps => ?_⟩
  rw [h]
  cases statementsOf fuel steps us with
  | error f => rfl
  | ok ss => rfl

/-- Blanks before a statement are passed over. -/
theorem blanks (fuel : Nat) (hb : AreBlanks b) (hrest : IsFlush rest) (start : Nat) :
    Groups fuel (tokensFrom start (b ++ rest)) [] (tokensFrom (start + b.length) rest) := by
  by_cases hne : b = []
  · subst hne
    exact .refl fuel _
  · rw [(isToken_blanks hne hb hrest).tokensFrom_eq]
    exact .skip fun steps => by rw [statementsOf]; rfl

/-- A comment is passed over. -/
theorem remark (fuel : Nat) (hm : IsRemark m) (h : EndsLine ending rest) (start : Nat) :
    Groups fuel (tokensFrom start (m ++ (ending ++ rest))) []
      (tokensFrom (start + m.length) (ending ++ rest)) := by
  by_cases hne : m = []
  · subst hne
    exact .refl fuel _
  · rw [(isToken_comment hne hm h).tokensFrom_eq]
    refine .skip fun steps => ?_
    rw [statementsOf]
    simp only [nextToken_cons, checkComment_eq hm start]
    rfl

/-- A line break is passed over. -/
theorem lineBreak (fuel : Nat) (h : EndsLine ending rest) (start : Nat) :
    Groups fuel (tokensFrom start (ending ++ rest)) [] (tokensFrom (start + ending.length) rest) := by
  by_cases hne : ending = []
  · subst hne
    exact .refl fuel _
  · rw [(isToken_newline h hne).tokensFrom_eq]
    refine .skip fun steps => ?_
    rw [statementsOf]
    simp only [nextToken_cons, checkNewline_eq h start]
    rfl

end Groups

/-- **Where a key is given a value**, the assignment is the next statement. -/
theorem exists_statementsOf_key (h : IsGivenKey names q) (hrest : IsFlush rest) (start : Nat) :
    ∃ ts, StatesKey ts names ∧ ∀ fuel steps, statementsOf fuel (steps + 1) (tokensFrom start (q ++ rest)) =
      (rawValue fuel 0 false (tokensFrom (start + q.length) rest)).bind fun (v, us) =>
        (lineEnd us).bind fun us => (statementsOf fuel steps us).map (.assignment ts v :: ·) := by
  obtain ⟨ts, hts, hassign⟩ := exists_assignment h hrest start
  refine ⟨ts, hts, fun fuel steps => ?_⟩
  have hname := h.isName_nextToken rest start
  rw [statementsOf]
  split
  case h_10 =>
    rw [hassign]
    cases rawValue fuel 0 false (tokensFrom (start + q.length) rest) with
    | error f => rfl
    | ok x =>
      obtain ⟨v, us⟩ := x
      simp only [Except.bind, bind]
      cases lineEnd us with
      | error f => rfl
      | ok vs => rfl
  all_goals
    rename_i hkind
    rw [isName, hkind] at hname
    cases hname

/-- A header is the next statement where its bracket comes next. -/
theorem statementsOf_openBracket (fuel steps start : Nat) (rest : List Char) :
    statementsOf fuel (steps + 1) (tokensFrom start ('[' :: rest)) =
      (header (tokensFrom start ('[' :: rest))).bind fun (s, us) =>
        (statementsOf fuel steps us).map (s :: ·) := by
  have hopen := (isToken_openBracket rest).tokensFrom_eq start
  rw [List.singleton_append] at hopen
  rw [hopen, statementsOf]
  rfl

/-- **A statement is grouped**, and the end of its line is passed over. -/
theorem Line.IsText.exists_statementsOf {l : Line} (h : l.IsText p) (hrest : Ends rest) (start : Nat) :
    ∃ s, l.Means s ∧ ∀ fuel steps, (tokensFrom start (p ++ rest)).length + 2 ≤ fuel →
      statementsOf fuel (steps + 1) (tokensFrom start (p ++ rest)) =
        (lineEnd (tokensFrom (start + p.length) rest)).bind fun us =>
          (statementsOf fuel steps us).map (s :: ·) := by
  cases h with
  | @opens names before t after hbefore ht hafter =>
    obtain ⟨ts, hts, hheader⟩ := exists_header hbefore ht hafter start rest
    refine ⟨.header false ts start (start + ('[' :: (before ++ (t ++ (after ++ [']'])))).length), .opens hts,
      fun fuel steps _ => ?_⟩
    have htext : '[' :: (before ++ (t ++ (after ++ [']']))) ++ rest =
        '[' :: (before ++ (t ++ (after ++ ']' :: rest))) := by
      simp
    rw [htext, statementsOf_openBracket, hheader]
    cases lineEnd (tokensFrom (start + ('[' :: (before ++ (t ++ (after ++ [']'])))).length) rest) with
    | error f => rfl
    | ok us => rfl
  | @text names s p h =>
    obtain ⟨q, x, hq, hx, rfl⟩ := h
    obtain ⟨ts, hts, hkey⟩ := exists_statementsOf_key hq (hx.isFlush rest) start
    obtain ⟨v, hv, hvalue⟩ := hx.exists_rawValue hrest (start + q.length)
    refine ⟨_, .text hts hv, fun fuel steps hfuel => ?_⟩
    obtain ⟨n, rfl⟩ : ∃ n, fuel = n + 1 := ⟨fuel - 1, by omega⟩
    rw [List.append_assoc, hkey, hvalue, List.length_append, ← Nat.add_assoc]
    rfl
  | @table names es q x hq hx =>
    obtain ⟨ts, hts, hkey⟩ := exists_statementsOf_key hq (hx.isFlush rest) start
    obtain ⟨v, hv, hvalue⟩ := hx.exists_rawValue rest (start + q.length)
    refine ⟨_, .table hts hv, fun fuel steps hfuel => ?_⟩
    have hle := (hq.cuts (hx.isFlush rest)).length_le start
    rw [List.append_assoc] at hfuel ⊢
    rw [hkey, hvalue fuel (by omega), List.length_append, ← Nat.add_assoc]
    rfl

/-- **A line is grouped** to the statement that states it. -/
theorem Line.IsText.exists_groups {l : Line} (h : l.IsText p) (hb : AreBlanks b) (hm : IsRemark m)
    (hending : EndsLine ending rest) (start : Nat) :
    let text := p ++ (b ++ (m ++ (ending ++ rest)))
    ∃ s, l.Means s ∧ ∀ fuel, (tokensFrom start text).length + 2 ≤ fuel →
      Groups fuel (tokensFrom start text) [s]
        (tokensFrom (start + p.length + b.length + m.length + ending.length) rest) := by
  intro text
  have hends : Ends (b ++ (m ++ (ending ++ rest))) := .blanks hb (hm.ends hending.ends)
  have hline := lineEnd_eq hb hm hending (start + p.length)
  have hlt := (h.cuts hends).length_lt h.ne_nil start
  have hle := (cuts_lineEnd hb hm hending).length_le (start + p.length)
  simp only [List.length_append, ← Nat.add_assoc, List.append_assoc] at hle
  obtain ⟨s, hs, hgroup⟩ := h.exists_statementsOf hends start
  refine ⟨s, hs, fun fuel hfuel => ⟨1, ?_, fun steps => ?_⟩⟩
  · simp only [text]
    omega
  · rw [hgroup fuel steps hfuel, hline]
    rfl

/-- **Lines are grouped** to the statements that state them. -/
theorem AreLines.exists_groups {ls : List Line} (h : AreLines rest ls u) (start : Nat) :
    ∃ ss, List.Forall₂ Line.Means ls ss ∧ ∀ fuel, (tokensFrom start (u ++ rest)).length + 2 ≤ fuel →
      Groups fuel (tokensFrom start (u ++ rest)) ss (tokensFrom (start + u.length) rest) := by
  -- By induction on the lines. The fuel that suffices for all tokens suffices for those that are left.
  induction h generalizing start with
  | nil => exact ⟨[], .nil, fun fuel _ => .refl fuel _⟩
  | @empty ls b m ending u hb hm hending hu ih =>
    obtain ⟨ss, hss, htail⟩ := ih (start + b.length + m.length + ending.length)
    refine ⟨ss, hss, fun fuel hfuel => ?_⟩
    have hline := ((Groups.blanks fuel hb (hm.isFlush hending.isFlush) start).trans
      (.remark fuel hm hending _)).trans (.lineBreak fuel hending _)
    have hle := hline.length_le
    simp only [List.append_assoc, List.length_append, ← Nat.add_assoc] at hfuel ⊢
    exact hline.trans (htail fuel (by omega))
  | @line l ls gap p b m ending u hgap hp hb hm hending hu ih =>
    obtain ⟨s, hs, hstatement⟩ := hp.exists_groups hb hm hending (start + gap.length)
    obtain ⟨ss, hss, htail⟩ := ih (start + gap.length + p.length + b.length + m.length + ending.length)
    refine ⟨s :: ss, .cons hs hss, fun fuel hfuel => ?_⟩
    have hblanks := Groups.blanks fuel hgap (hp.isFlush (b ++ (m ++ (ending ++ (u ++ rest))))) start
    simp only [List.append_assoc, List.length_append, ← Nat.add_assoc] at hfuel ⊢
    have hle := hblanks.length_le
    have hline := hstatement fuel (by omega)
    have hle' := hline.length_le
    exact (hblanks.trans hline).trans (htail fuel (by omega))

end ReleasePublisher.Toml
