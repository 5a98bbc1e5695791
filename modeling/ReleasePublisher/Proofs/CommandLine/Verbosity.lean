import ReleasePublisher.Proofs.CommandLine.Reading

/-!
# Asking for more detail

Wishes for more detail may be put among the options of a command line, by the long name or by letters, in
front of any word but the value of an option in a word of its own. Reading goes through the same states then,
but for the number of wishes, which counts up to a bound; so the command, its switches and all values are read
as before.

## Main definitions

* `AddsVerbosity k ws ws'`: `ws'` are the words `ws` with `k` wishes for more detail among the options
* `Given.Follows k g g'`: two states lead to the same options, but for `k` wishes

## Main results

* `Given.takeLetters_ok`: letters that are taken are wishes for more detail
* `readLevel_of_addsVerbosity`: the words of a level are read as before
* `parse_of_addsVerbosity`: a command line is read as before
-/

namespace ReleasePublisher.CommandLine

/-! ### Letters -/

/-- The letter of a wish for more detail. -/
def detailLetter : UInt8 := 0x76

/-- A word of `n` letters, each of them a wish for more detail. -/
def detailLetters (n : Nat) : Bytes :=
  dash :: List.replicate n detailLetter

theorem Word.ofBytes_detailLetters (n : Nat) :
    Word.ofBytes (detailLetters (n + 1)) = .letters (List.replicate (n + 1) detailLetter) := by
  rw [detailLetters, List.replicate_succ]
  rfl

namespace Given

variable {g h g₁ : Given} {l : Level} {s : Switch} {c : Char}

/-- A switch with a letter that is turned on is a wish for more detail. -/
theorem eq_verbose_of_turnOn (hletter : l.letterOption? c = some (.switch s)) (hturn : g.turnOn l s = .ok g₁) :
    s = .verbose ∧ c = 'v' ∧ ∃ h, g.settle = .ok h ∧ g₁ = h.raised 1 := by
  have hs : s.letter? = some c := eq_of_beq (List.find?_some hletter :)
  obtain ⟨h, hsettle, ⟨rfl, rfl⟩ | ⟨rfl | rfl, -⟩⟩ := turnOn_ok hturn
  · cases hs
    exact ⟨rfl, rfl, h, hsettle, rfl⟩
  · cases hs
  · cases hs

theorem raised_settle (hpending : h.pending = .none) (n : Nat) : (h.raised n).settle = .ok (h.raised n) :=
  settle_of_pending hpending

/-- One letter is one wish. -/
theorem takeLetters_detailLetter (hsettle : g.settle = .ok h) (cs : Bytes) :
    g.takeLetters l (detailLetter :: cs) = (h.raised 1).takeLetters l cs := by
  rw [takeLetters, Utf8.step_one (by decide), show Char.ofNat detailLetter.toNat = 'v' from rfl]
  dsimp only
  rw [l.letterOption?_verbose]
  dsimp only
  rw [turnOn_verbose hsettle, List.drop_zero]

/-- A letter that is taken is a wish. -/
theorem takeLetters_cons_ok {b : UInt8} {cs : Bytes} (htake : g.takeLetters l (b :: cs) = .ok g₁) :
    b = detailLetter ∧ ∃ h, g.settle = .ok h ∧ (h.raised 1).takeLetters l cs = .ok g₁ := by
  rw [takeLetters.eq_def] at htake
  dsimp only at htake
  split at htake
  · cases htake
  · rename_i c n hstep
    split at htake
    · rename_i s hletter
      split at htake
      · rename_i g₂ hturn
        obtain ⟨rfl, rfl, h, hsettle, rfl⟩ := eq_verbose_of_turnOn hletter hturn
        obtain ⟨tails, more, rfl, rfl, -, hv⟩ := Utf8.exists_tails_of_step hstep
        obtain ⟨rfl, rfl⟩ := List.cons.inj hv
        exact ⟨rfl, h, hsettle, htake⟩
      · cases htake
    · cases htake

/-- **Wishes in letters** are counted. -/
theorem takeLetters_replicate (hsettle : g.settle = .ok h) (n : Nat) :
    g.takeLetters l (List.replicate (n + 1) detailLetter) = .ok (h.raised (n + 1)) := by
  induction n generalizing g h with
  | zero => rw [List.replicate_one, takeLetters_detailLetter hsettle, takeLetters]
  | succ n ih =>
    rw [List.replicate_succ, takeLetters_detailLetter hsettle,
      ih (raised_settle (settle_settled hsettle).1 1), raised_raised, Nat.add_comm]

/-- **Letters that are taken** are wishes for more detail. -/
theorem takeLetters_ok {cs : Bytes} (hcs : cs ≠ []) (htake : g.takeLetters l cs = .ok g₁) :
    ∃ h n, g.settle = .ok h ∧ cs = List.replicate (n + 1) detailLetter ∧ g₁ = h.raised (n + 1) := by
  induction cs generalizing g with
  | nil => exact absurd rfl hcs
  | cons b cs ih =>
    obtain ⟨rfl, h, hsettle, htake⟩ := takeLetters_cons_ok htake
    cases cs with
    | nil =>
      rw [takeLetters] at htake
      exact ⟨h, 0, hsettle, rfl, (Except.ok.inj htake).symm⟩
    | cons b cs =>
      obtain ⟨h', n, hsettle', hcs', rfl⟩ := ih (List.cons_ne_nil b cs) htake
      rw [raised_settle (settle_settled hsettle).1] at hsettle'
      cases hsettle'
      refine ⟨h, n + 1, hsettle, by rw [hcs']; rfl, ?_⟩
      rw [raised_raised, Nat.add_comm]

end Given

/-! ### Words with more wishes -/

/-- **More detail is asked for** `k` times more, among the options of a command line. -/
inductive AddsVerbosity : Nat → List Bytes → List Bytes → Prop
  | nil : AddsVerbosity 0 [] []
  /-- Behind two dashes there are no options. -/
  | escape (rest : List Bytes) : AddsVerbosity 0 ([dash, dash] :: rest) ([dash, dash] :: rest)
  /-- A wish by the long name. -/
  | long {k : Nat} {ws ws' : List Bytes} (h : AddsVerbosity k ws ws') :
    AddsVerbosity (k + 1) ws (AnyOption.word (.switch .verbose) :: ws')
  /-- Wishes in letters. -/
  | letters (n : Nat) {k : Nat} {ws ws' : List Bytes} (h : AddsVerbosity k ws ws') :
    AddsVerbosity (k + (n + 1)) ws (detailLetters (n + 1) :: ws')
  /-- More letters in a word of wishes. -/
  | more (m n : Nat) {k : Nat} {ws ws' : List Bytes} (h : AddsVerbosity k ws ws') :
    AddsVerbosity (k + n) (detailLetters (m + 1) :: ws) (detailLetters (m + 1 + n) :: ws')
  /-- An option and its value stay together. -/
  | value (o : ValueOption) (v : Bytes) {k : Nat} {ws ws' : List Bytes} (h : AddsVerbosity k ws ws') :
    AddsVerbosity k (AnyOption.word (.value o) :: v :: ws) (AnyOption.word (.value o) :: v :: ws')
  | kept {w : Bytes} (hw : w ≠ [dash, dash]) (hvalue : ∀ o, w ≠ AnyOption.word (.value o)) {k : Nat}
      {ws ws' : List Bytes} (h : AddsVerbosity k ws ws') :
    AddsVerbosity k (w :: ws) (w :: ws')

namespace Given

/-- The same options, but for `k` wishes for more detail. -/
structure Exceeds (k : Nat) (h h' : Given) : Prop where
  values : h'.values = h.values
  switches : h'.switches = h.switches
  verbosity : h'.verbosity = min maxVerbosity (h.verbosity + k)
  settled : h.pending = .none
  settled' : h'.pending = .none

/-- **Two states lead to the same options**, but for `k` wishes for more detail. -/
def Follows (k : Nat) (g g' : Given) : Prop :=
  ∃ h h', g.settle = .ok h ∧ g'.settle = .ok h' ∧ Exceeds k h h'

variable {j k m n : Nat} {g g' g₁ h h' h₁ : Given} {l : Level}

theorem Exceeds.follows_of_settle (h₁ : Exceeds k h h') (hsettle : g.settle = .ok h) : Follows k g h' :=
  ⟨h, h', hsettle, settle_of_pending h₁.settled', h₁⟩

theorem Exceeds.follows (h₁ : Exceeds k h h') : Follows k h h' :=
  h₁.follows_of_settle (settle_of_pending h₁.settled)

theorem Exceeds.raised_right (h₁ : Exceeds k h h') (n : Nat) : Exceeds (k + n) h (h'.raised n) where
  values := h₁.values
  switches := h₁.switches
  verbosity := by
    have hverbosity := h₁.verbosity
    simp only [Given.raised, hverbosity]
    omega
  settled := h₁.settled
  settled' := h₁.settled'

theorem Exceeds.raised (h₁ : Exceeds k h h') (m n : Nat) :
    Exceeds (k + n) (h.raised m) (h'.raised (m + n)) where
  values := h₁.values
  switches := h₁.switches
  verbosity := by
    have hverbosity := h₁.verbosity
    simp only [Given.raised, hverbosity]
    omega
  settled := h₁.settled
  settled' := h₁.settled'

/-- A value is stored in both states. -/
theorem Exceeds.store (h₁ : Exceeds k h h') {o : ValueOption} {v : Bytes} (hstore : h.store o v = .ok g₁) :
    ∃ g₁', h'.store o v = .ok g₁' ∧ Exceeds k g₁ g₁' := by
  obtain ⟨hfresh, hpath, htext, rfl⟩ := store_eq_ok_iff.mp hstore
  rw [value?, ← h₁.values] at hfresh
  exact ⟨_, store_eq_ok_iff.mpr ⟨hfresh, hpath, htext, rfl⟩, {
    values := congrArg (· ++ [(o, v)]) h₁.values
    switches := h₁.switches
    verbosity := h₁.verbosity
    settled := h₁.settled
    settled' := h₁.settled' }⟩

/-- A switch is turned on in both states. -/
theorem Follows.turnOn (hg : Follows k g g') {s : Switch} (hturn : g.turnOn l s = .ok g₁) :
    ∃ g₁', g'.turnOn l s = .ok g₁' ∧ Follows k g₁ g₁' := by
  obtain ⟨h, h', hsettle, hsettle', hexceeds⟩ := hg
  obtain ⟨h₀, hsettle₀, hcases⟩ := turnOn_ok hturn
  obtain rfl : h = h₀ := Except.ok.inj (hsettle.symm.trans hsettle₀)
  obtain ⟨rfl, rfl⟩ | ⟨hs, hfresh, rfl⟩ := hcases
  · exact ⟨_, turnOn_verbose hsettle', (hexceeds.raised 1 0).follows⟩
  · have hfresh' : s ∉ h'.switches := by rwa [hexceeds.switches]
    exact ⟨_, turnOn_fresh hs hsettle' hfresh', Exceeds.follows {
      values := hexceeds.values
      switches := congrArg (· ++ [s]) hexceeds.switches
      verbosity := hexceeds.verbosity
      settled := hexceeds.settled
      settled' := hexceeds.settled' }⟩

/-- A long option that waits for no value is taken in both states. -/
theorem Follows.takeLong (hg : Follows k g g') {name : Bytes} {attached : Option Bytes}
    (hname : ∀ o, attached = .none → l.longOption? name ≠ some (.value o))
    (htake : g.takeLong l name attached = .ok g₁) :
    ∃ g₁', g'.takeLong l name attached = .ok g₁' ∧ Follows k g₁ g₁' := by
  obtain ⟨h₀, hsettle₀, hcases⟩ := takeLong_ok htake
  obtain ⟨o, v, hoption, rfl, hstore⟩ | ⟨o, hoption, hattached, -⟩ | ⟨s, hoption, rfl, hturn⟩ := hcases
  · obtain ⟨h, h', hsettle, hsettle', hexceeds⟩ := hg
    obtain rfl : h = h₀ := Except.ok.inj (hsettle.symm.trans hsettle₀)
    obtain ⟨g₁', hstore', hexceeds'⟩ := hexceeds.store hstore
    exact ⟨g₁', (takeLong_value hoption hsettle').1.trans hstore', hexceeds'.follows⟩
  · exact absurd hoption (hname o hattached)
  · obtain ⟨g₁', hturn', hfollows⟩ := hg.turnOn hturn
    exact ⟨g₁', (takeLong_switch hoption).trans hturn', hfollows⟩

/-- Letters are taken in both states, and some more of them. -/
theorem Follows.takeLetters (hg : Follows k g g') {m : Nat} (n : Nat)
    (htake : g.takeLetters l (List.replicate (m + 1) detailLetter) = .ok g₁) :
    ∃ g₁', g'.takeLetters l (List.replicate (m + 1 + n) detailLetter) = .ok g₁' ∧ Follows (k + n) g₁ g₁' := by
  obtain ⟨h, h', hsettle, hsettle', hexceeds⟩ := hg
  rw [takeLetters_replicate hsettle] at htake
  cases htake
  refine ⟨h'.raised (m + 1 + n), ?_, (hexceeds.raised (m + 1) n).follows⟩
  rw [Nat.add_right_comm]
  exact takeLetters_replicate hsettle' (m + n)

end Given

/-! ### Levels -/

/-- The words behind a command ask for `n` times more detail. -/
inductive Continues : Level → Nat → Option (CommandName × List Bytes) →
    Option (CommandName × List Bytes) → Prop
  | finish (l : Level) : Continues l 0 none none
  | command (c : CommandName) {n : Nat} {ws ws' : List Bytes} (h : AddsVerbosity n ws ws') :
    Continues .program n (some (c, ws)) (some (c, ws'))

section Levels

variable {l : Level} {g g₁ h : Given} {ws : List Bytes} {next : Option (CommandName × List Bytes)}

/-- **A value that cannot be used is not forgotten**: where the words are read up to a state that can be
settled, the state before them could be settled, unless it waits for a value. -/
theorem exists_settle_of_readLevel (hg : g.awaiting? = none) (hread : readLevel l g ws = .ok (g₁, next))
    (hsettle : g₁.settle = .ok h) : ∃ h, g.settle = .ok h := by
  cases ws with
  | nil =>
    rw [readLevel] at hread
    cases hread
    exact ⟨h, hsettle⟩
  | cons w rest =>
    cases reads_of_readLevel hread with
    | command | escape => exact ⟨h, hsettle⟩
    | long _ htake =>
      obtain ⟨h₀, hsettle₀, -⟩ := Given.takeLong_ok htake
      exact ⟨h₀, hsettle₀⟩
    | letters hw htake =>
      obtain ⟨h₀, n, hsettle₀, -⟩ := Given.takeLetters_ok (Word.ne_nil_of_ofBytes_letters hw) htake
      exact ⟨h₀, hsettle₀⟩
    | value hawaiting => cases hg.symm.trans hawaiting

/-- A state that waits for a value takes the next word, which is plain. -/
theorem readLevel_waiting_ok {o : ValueOption} {w : Bytes} (hg : g.pending = some (o, none))
    (hread : readLevel l g (w :: ws) = .ok (g₁, next)) (hsettle : g₁.settle = .ok h) :
    Word.ofBytes w = .plain ∧
      readLevel l { g with pending := some (o, some w) } ws = .ok (g₁, next) := by
  have hawaiting : g.awaiting? = some o := by rw [Given.awaiting?, hg]
  -- Whatever looks at the value that is missing fails.
  have hunsettled : ∀ h, g.settle ≠ .ok h := by
    intro h hok
    rw [Given.settle, hg] at hok
    cases hok
  cases reads_of_readLevel hread with
  | command c hcommand =>
    rw [commandAt_awaiting (by simp [hawaiting])] at hcommand
    cases hcommand
  | escape => exact absurd hsettle (hunsettled h)
  | long _ htake =>
    obtain ⟨h₀, hsettle₀, -⟩ := Given.takeLong_ok htake
    exact absurd hsettle₀ (hunsettled h₀)
  | letters hw htake =>
    obtain ⟨h₀, n, hsettle₀, -⟩ := Given.takeLetters_ok (Word.ne_nil_of_ofBytes_letters hw) htake
    exact absurd hsettle₀ (hunsettled h₀)
  | value hawaiting' hw hread =>
    cases hawaiting.symm.trans hawaiting'
    exact ⟨hw, hread⟩

/-- A word that states a long name alone does not wait for a value unless it is one of those that do. -/
theorem longOption?_ne_of_kept {w name : Bytes} {attached : Option Bytes} (hw : Word.ofBytes w = .long name attached)
    (hvalue : ∀ o, w ≠ AnyOption.word (.value o)) (o : ValueOption) (hattached : attached = none) :
    l.longOption? name ≠ some (.value o) := by
  rintro hoption
  subst hattached
  have hname : Utf8.encode o.longName = name := eq_of_beq (List.find?_some hoption :)
  refine hvalue o ?_
  rw [AnyOption.word_eq, Word.eq_of_ofBytes_long hw, ← hname]
  rfl

/-- An option and its value in a word of its own are read in both states. -/
theorem Given.Follows.value {j : Nat} {g' : Given} {o : ValueOption} {v : Bytes} (hg : Follows j g g')
    (hread : readLevel l g (AnyOption.word (.value o) :: v :: ws) = .ok (g₁, next))
    (hsettle : g₁.settle = .ok h) :
    ∃ g₂ g₂', Follows j g₂ g₂' ∧ readLevel l g₂ ws = .ok (g₁, next) ∧
      ∀ ws', readLevel l g' (AnyOption.word (.value o) :: v :: ws') = readLevel l g₂' ws' := by
  obtain ⟨h₀, h₀', hsettle₀, hsettle₀', hexceeds⟩ := hg
  rw [readLevel_option o hsettle₀] at hread
  obtain ⟨hplain, hread⟩ := readLevel_waiting_ok rfl hread hsettle
  -- The value can be used, since the words behind it are read.
  obtain ⟨h₂, hsettle₂⟩ := exists_settle_of_readLevel rfl hread hsettle
  obtain ⟨h₂', hstore', hexceeds'⟩ :=
    hexceeds.store ((settle_of_met hexceeds.settled o v).symm.trans hsettle₂)
  exact ⟨_, { h₀' with pending := some (o, some v) },
    ⟨h₂, h₂', hsettle₂, (settle_of_met hexceeds.settled' o v).trans hstore', hexceeds'⟩, hread,
    fun ws' => (readLevel_option o hsettle₀').trans (readLevel_value rfl hplain)⟩

/-- Another word is read in both states, and if it is the command, the words behind it are left. -/
theorem Given.Follows.kept {j : Nat} {g' : Given} {w : Bytes} (hg : Follows j g g') (hw : w ≠ [dash, dash])
    (hvalue : ∀ o, w ≠ AnyOption.word (.value o)) (hread : readLevel l g (w :: ws) = .ok (g₁, next)) :
    (∃ c, l = .program ∧ g₁ = g ∧ next = some (c, ws) ∧
        ∀ ws', readLevel l g' (w :: ws') = .ok (g', some (c, ws'))) ∨
      ∃ g₂ g₂', Follows j g₂ g₂' ∧ readLevel l g₂ ws = .ok (g₁, next) ∧
        ∀ ws', readLevel l g' (w :: ws') = readLevel l g₂' ws' := by
  obtain ⟨h₀, h₀', hsettle₀, hsettle₀', -⟩ := id hg
  cases reads_of_readLevel hread with
  | command c hcommand =>
    obtain ⟨hl, -, hcommand'⟩ := commandAt_ok hcommand
    refine .inl ⟨c, hl, rfl, rfl, fun ws' => ?_⟩
    rw [readLevel.eq_def]
    simp only [hcommand' g' ws' (awaiting?_of_settle hsettle₀')]
  | escape hescape => exact absurd hescape hw
  | long hof htake hread =>
    obtain ⟨g₂', htake', hfollows⟩ := hg.takeLong (longOption?_ne_of_kept hof hvalue) htake
    exact .inr ⟨_, g₂', hfollows, hread, fun ws' =>
      readLevel_long (Word.head?_of_ofBytes (by simp [hof])) hof htake'⟩
  | letters hof htake hread =>
    obtain ⟨-, n, -, rfl, -⟩ := takeLetters_ok (Word.ne_nil_of_ofBytes_letters hof) htake
    obtain ⟨g₂', htake', hfollows⟩ := hg.takeLetters 0 htake
    exact .inr ⟨_, g₂', hfollows, hread, fun ws' =>
      readLevel_letters (Word.head?_of_ofBytes (by simp [hof])) hof htake'⟩
  | value hawaiting => cases (awaiting?_of_settle hsettle₀).symm.trans hawaiting

/-- **The words of a level are read as before** where more detail is asked for, up to the command, and what
is left behind it asks for the rest. -/
theorem readLevel_of_addsVerbosity {k : Nat} {ws ws' : List Bytes} (hadds : AddsVerbosity k ws ws') {j : Nat}
    {g' : Given} (hg : Given.Follows j g g') (hread : readLevel l g ws = .ok (g₁, next))
    (hsettle : g₁.settle = .ok h) :
    ∃ g₁' next' m n, readLevel l g' ws' = .ok (g₁', next') ∧ Given.Follows (j + m) g₁ g₁' ∧
      Continues l n next next' ∧ k = m + n := by
  -- Induction on the words; the wishes that were read go from `k` to `j`.
  induction hadds generalizing j g g' with
  | nil =>
    rw [readLevel] at hread
    cases hread
    exact ⟨g', none, 0, 0, by rw [readLevel], hg, .finish l, rfl⟩
  | escape rest =>
    obtain ⟨h₀, h₀', hsettle₀, hsettle₀', -⟩ := id hg
    cases reads_of_readLevel hread with
    | command c hcommand =>
      rw [commandAt_dash rfl] at hcommand
      cases hcommand
    | escape _ hrest =>
      subst hrest
      refine ⟨g', none, 0, 0, ?_, hg, .finish l, rfl⟩
      rw [readLevel.eq_def]
      simp only [commandAt_dash (show [dash, dash].head? = some dash from rfl)]
      rfl
    | long hof => cases hof
    | letters hof => cases hof
    | value _ hof => cases hof
  | @long k ws ws' hadds ih =>
    obtain ⟨h₀, h₀', hsettle₀, hsettle₀', hexceeds⟩ := hg
    have htake := (Given.takeLong_switch (Level.longOption?_verbose l)).trans (Given.turnOn_verbose hsettle₀')
    obtain ⟨g₁', next', m, n, hread', hfollows, hcontinues, rfl⟩ :=
      ih ((hexceeds.raised_right 1).follows_of_settle hsettle₀) hread
    refine ⟨g₁', next', m + 1, n, ?_, ?_, hcontinues, by omega⟩
    · rw [readLevel_long (AnyOption.head?_word _) (AnyOption.ofBytes_word (.switch .verbose)) htake, hread']
    · rwa [Nat.add_assoc, Nat.add_comm 1] at hfollows
  | @letters n₀ k ws ws' hadds ih =>
    obtain ⟨h₀, h₀', hsettle₀, hsettle₀', hexceeds⟩ := hg
    have htake := Given.takeLetters_replicate (l := l) hsettle₀' n₀
    obtain ⟨g₁', next', m, n, hread', hfollows, hcontinues, rfl⟩ :=
      ih ((hexceeds.raised_right (n₀ + 1)).follows_of_settle hsettle₀) hread
    refine ⟨g₁', next', m + (n₀ + 1), n, ?_, ?_, hcontinues, by omega⟩
    · rw [readLevel_letters rfl (Word.ofBytes_detailLetters n₀) htake, hread']
    · rwa [Nat.add_assoc, Nat.add_comm (n₀ + 1)] at hfollows
  | @more m₀ n₀ k ws ws' hadds ih =>
    obtain ⟨h₀, h₀', hsettle₀, hsettle₀', hexceeds⟩ := id hg
    have htake := Given.takeLetters_replicate (l := l) hsettle₀ m₀
    obtain ⟨g₂', htake', hfollows⟩ := hg.takeLetters n₀ htake
    rw [readLevel_letters rfl (Word.ofBytes_detailLetters m₀) htake] at hread
    obtain ⟨g₁', next', m, n, hread', hfollows', hcontinues, rfl⟩ := ih hfollows hread
    refine ⟨g₁', next', m + n₀, n, ?_, ?_, hcontinues, by omega⟩
    · have hword : Word.ofBytes (detailLetters (m₀ + 1 + n₀)) =
          .letters (List.replicate (m₀ + 1 + n₀) detailLetter) := by
        rw [Nat.add_right_comm]
        exact Word.ofBytes_detailLetters (m₀ + n₀)
      rw [readLevel_letters rfl hword htake', hread']
    · rwa [Nat.add_assoc, Nat.add_comm n₀] at hfollows'
  | value o v hadds ih =>
    obtain ⟨g₂, g₂', hfollows, hread₂, hstep⟩ := hg.value hread hsettle
    obtain ⟨g₁', next', m, n, hread', hrest⟩ := ih hfollows hread₂
    exact ⟨g₁', next', m, n, (hstep _).trans hread', hrest⟩
  | @kept w hw hvalue k ws ws' hadds ih =>
    obtain ⟨c, rfl, rfl, rfl, hcommand⟩ | ⟨g₂, g₂', hfollows, hread₂, hstep⟩ := hg.kept hw hvalue hread
    · exact ⟨g', _, 0, k, hcommand ws', hg, .command c hadds, (Nat.zero_add k).symm⟩
    · obtain ⟨g₁', next', m, n, hread', hrest⟩ := ih hfollows hread₂
      exact ⟨g₁', next', m, n, (hstep ws').trans hread', hrest⟩

end Levels

/-! ### Command lines -/

/-- What both levels ask for is the same but for the detail. -/
theorem invocationOf_of_exceeds {before before' behind behind' : Given} {m n : Nat} (c : CommandName)
    (hbefore : Given.Exceeds m before before') (hbehind : Given.Exceeds n behind behind') :
    invocationOf before' behind' c =
      { invocationOf before behind c with
        verbosity := if behind'.verbosity == 0 then before'.verbosity else behind'.verbosity } := by
  simp only [invocationOf, valueOf, Given.value?, commandOf, hbefore.values, hbehind.values, hbehind.switches]

/-- **A command line is read as before** where more detail is asked for `k` times more. Where none was asked
for before, as much is asked for as there are wishes at one level. -/
theorem parse_of_addsVerbosity {ws ws' : List Bytes} {k : Nat} {i : Invocation} (hparse : parse ws = .ok i)
    (hadds : AddsVerbosity k ws ws') :
    ∃ v, parse ws' = .ok { i with verbosity := v } ∧ (i.verbosity = 0 → v ≤ k ∧ (0 < k → 0 < v)) := by
  have hnone : Given.Follows 0 .none .none := Given.Exceeds.follows {
    values := rfl
    switches := rfl
    verbosity := rfl
    settled := rfl
    settled' := rfl }
  obtain ⟨g, c, rest, before, g', next, behind, hread, hsettle, hread', hsettle', rfl⟩ :=
    parse_eq_ok_iff.mp hparse
  obtain ⟨g₁, next₁, m, n, hread₁, hfollows₁, hcontinues₁, rfl⟩ :=
    readLevel_of_addsVerbosity hadds hnone hread hsettle
  cases hcontinues₁ with
  | @command _ _ _ rest' hrest =>
    obtain ⟨g₂, next₂, m', n', hread₂, hfollows₂, hcontinues₂, rfl⟩ :=
      readLevel_of_addsVerbosity hrest hnone hread' hsettle'
    -- Behind the command no other command is met.
    cases hcontinues₂ with
    | finish =>
      obtain ⟨before₀, before', hbefore₀, hbefore', hexceeds₁⟩ := hfollows₁
      obtain ⟨behind₀, behind', hbehind₀, hbehind', hexceeds₂⟩ := hfollows₂
      obtain rfl : before = before₀ := Except.ok.inj (hsettle.symm.trans hbefore₀)
      obtain rfl : behind = behind₀ := Except.ok.inj (hsettle'.symm.trans hbehind₀)
      refine ⟨_, parse_eq_ok_iff.mpr ⟨g₁, c, rest', before', g₂, none, behind', hread₁, hbefore', hread₂,
        hbehind', (invocationOf_of_exceeds c hexceeds₁ hexceeds₂).symm⟩, fun hi => ?_⟩
      have hbefore := hexceeds₁.verbosity
      have hbehind := hexceeds₂.verbosity
      simp only [invocationOf, maxVerbosity, beq_iff_eq] at hi hbefore hbehind ⊢
      split at hi <;> split <;> omega

end ReleasePublisher.CommandLine
