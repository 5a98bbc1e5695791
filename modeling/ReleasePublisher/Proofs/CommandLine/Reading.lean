import ReleasePublisher.CommandLine.Parser
import ReleasePublisher.Proofs.Text.Utf8Reading

/-!
# Reading options

The value of an option is looked at late: when the next option is met, or at the end. What the options say
is therefore told of the state in which nothing is pending any more, which each state leads to unless a value
is missing or cannot be used.

## Main definitions

* `AnyOption.word o`, `ValueOption.wordWith o v`: the words that state an option, without and with a value
* `Given.raised h n`: more detail was asked for
* `Reads l g w rest g₁ next`: what a word does at a level

## Main results

* `Given.settle_settled`: what was looked at is not looked at again
* `Given.takeLong_value`, `Given.takeLong_switch`, `Given.takeLong_ok`: what an option does
* `readLevel_long`, `readLevel_value`, `readLevel_command`: what a word does at a level
* `reads_of_readLevel`: what a word does, in all cases
* `parse_eq_ok_iff`: both levels are read and put together
-/

namespace ReleasePublisher.CommandLine

/-! ### Words -/

/-- The word that states an option by its long name. -/
def AnyOption.word (o : AnyOption) : Bytes :=
  Utf8.encode ("--" ++ o.longName)

/-- The word that states an option with its value. -/
def ValueOption.wordWith (o : ValueOption) (v : String) : Bytes :=
  Utf8.encode ("--" ++ o.longName ++ "=" ++ v)

/-- The long name of an option is not empty and has no equals sign. -/
theorem AnyOption.encode_longName (o : AnyOption) :
    Utf8.encode o.longName ≠ [] ∧ 0x3D ∉ Utf8.encode o.longName := by
  rcases o with o | s
  · cases o <;> decide
  · cases s <;> decide

theorem bne_equalsSign_of_mem {name : Bytes} {c : UInt8} (hname : 0x3D ∉ name) (hc : c ∈ name) :
    (c != 0x3D) = true := by
  rw [bne_iff_ne]
  rintro rfl
  exact hname hc

theorem takeWhile_bne_equalsSign {name : Bytes} (hname : 0x3D ∉ name) :
    name.takeWhile (· != 0x3D) = name := by
  have happend : (name ++ []).takeWhile (· != 0x3D) = name ++ [].takeWhile (· != 0x3D) :=
    List.takeWhile_append_of_pos fun c hc => bne_equalsSign_of_mem hname hc
  simpa using happend

/-- A word that begins with two dashes states a long name. -/
theorem Word.ofBytes_name {name : Bytes} (hname : name ≠ [] ∧ 0x3D ∉ name) :
    Word.ofBytes (dash :: dash :: name) = .long name none := by
  obtain ⟨b, bs, rfl⟩ := List.exists_cons_of_ne_nil hname.1
  have hall := takeWhile_bne_equalsSign hname.2
  have hnone : (b :: bs).contains 0x3D = false := by simpa using hname.2
  have hof : Word.ofBytes (dash :: dash :: b :: bs) =
      .long ((b :: bs).takeWhile (· != 0x3D))
        (if (b :: bs).contains 0x3D then
          some ((b :: bs).drop (((b :: bs).takeWhile (· != 0x3D)).length + 1)) else none) := rfl
  rw [hof, hall, hnone]
  rfl

/-- What stands behind the first equals sign is the value. -/
theorem Word.ofBytes_name_value {name : Bytes} (hname : name ≠ [] ∧ 0x3D ∉ name) (v : Bytes) :
    Word.ofBytes (dash :: dash :: (name ++ 0x3D :: v)) = .long name (some v) := by
  obtain ⟨b, bs, rfl⟩ := List.exists_cons_of_ne_nil hname.1
  have hall : ((b :: bs) ++ 0x3D :: v).takeWhile (· != 0x3D) = b :: bs := by
    rw [List.takeWhile_append_of_pos fun c hc => bne_equalsSign_of_mem hname.2 hc]
    simp
  simp only [List.cons_append] at hall ⊢
  simp [Word.ofBytes, hall]

theorem AnyOption.word_eq (o : AnyOption) : o.word = dash :: dash :: Utf8.encode o.longName := by
  rw [word, Utf8.encode_append]
  rfl

theorem ValueOption.wordWith_eq (o : ValueOption) (v : String) :
    o.wordWith v = dash :: dash :: (Utf8.encode o.longName ++ 0x3D :: Utf8.encode v) := by
  rw [wordWith, Utf8.encode_append, Utf8.encode_append, Utf8.encode_append, List.append_assoc,
    List.append_assoc]
  rfl

theorem AnyOption.head?_word (o : AnyOption) : o.word.head? = some dash := by
  rw [word_eq, List.head?_cons]

theorem ValueOption.head?_wordWith (o : ValueOption) (v : String) : (o.wordWith v).head? = some dash := by
  rw [wordWith_eq, List.head?_cons]

theorem AnyOption.ofBytes_word (o : AnyOption) :
    Word.ofBytes o.word = .long (Utf8.encode o.longName) none := by
  rw [word_eq, Word.ofBytes_name o.encode_longName]

theorem ValueOption.ofBytes_wordWith (o : ValueOption) (v : String) :
    Word.ofBytes (o.wordWith v) = .long (Utf8.encode o.longName) (some (Utf8.encode v)) := by
  rw [wordWith_eq]
  exact Word.ofBytes_name_value (AnyOption.encode_longName (.value o)) (Utf8.encode v)

/-- **What words look like**, by what they are read as. -/
theorem Word.ofBytes_cases (w : Bytes) :
    Word.ofBytes w = .plain ∨
      w = [dash, dash] ∧ Word.ofBytes w = .escape ∨
      (∃ more attached, w = dash :: dash :: more ∧
        Word.ofBytes w = .long (more.takeWhile (· != 0x3D)) attached ∧ (attached = none → 0x3D ∉ more)) ∨
      ∃ cs, cs ≠ [] ∧ w = dash :: cs ∧ Word.ofBytes w = .letters cs := by
  match w with
  | [] => exact .inl rfl
  | b :: rest =>
    by_cases hb : b = dash
    · subst hb
      match rest with
      | [] => exact .inl rfl
      | c :: more =>
        by_cases hc : c = dash
        · subst hc
          match more with
          | [] => exact .inr (.inl ⟨rfl, rfl⟩)
          | d :: more =>
            refine .inr (.inr (.inl ⟨d :: more, _, rfl, rfl, fun hnone => ?_⟩))
            simpa using hnone
        · exact .inr (.inr (.inr ⟨c :: more, List.cons_ne_nil _ _, rfl, by simp [Word.ofBytes, hc]⟩))
    · exact .inl (by simp [Word.ofBytes, hb])

/-- A word that states a long name alone is two dashes and the name. -/
theorem Word.eq_of_ofBytes_long {w name : Bytes} (h : Word.ofBytes w = .long name none) :
    w = dash :: dash :: name := by
  obtain hw | ⟨-, hw⟩ | ⟨more, attached, rfl, hw, hnone⟩ | ⟨cs, -, -, hw⟩ := Word.ofBytes_cases w
  · cases hw.symm.trans h
  · cases hw.symm.trans h
  · obtain ⟨hname, hattached⟩ := Word.long.inj (hw.symm.trans h)
    rw [← hname, takeWhile_bne_equalsSign (hnone hattached)]
  · cases hw.symm.trans h

/-- The word that ends the options is two dashes. -/
theorem Word.eq_of_ofBytes_escape {w : Bytes} (h : Word.ofBytes w = .escape) : w = [dash, dash] := by
  obtain hw | ⟨hdashes, -⟩ | ⟨more, attached, -, hw, -⟩ | ⟨cs, -, -, hw⟩ := Word.ofBytes_cases w
  · cases hw.symm.trans h
  · exact hdashes
  · cases hw.symm.trans h
  · cases hw.symm.trans h

/-- Letters stand behind one dash. -/
theorem Word.ne_nil_of_ofBytes_letters {w cs : Bytes} (h : Word.ofBytes w = .letters cs) : cs ≠ [] := by
  obtain hw | ⟨-, hw⟩ | ⟨more, attached, -, hw, -⟩ | ⟨cs', hne, -, hw⟩ := Word.ofBytes_cases w
  · cases hw.symm.trans h
  · cases hw.symm.trans h
  · cases hw.symm.trans h
  · exact Word.letters.inj (hw.symm.trans h) ▸ hne

/-- A word that does not begin with a dash is plain. -/
theorem Word.ofBytes_plain {w : Bytes} (h : w.head? ≠ some dash) : Word.ofBytes w = .plain := by
  cases w with
  | nil => rfl
  | cons b rest =>
    have hb : (b != dash) = true := by simpa using h
    simp [Word.ofBytes, hb]

theorem Word.head?_of_ofBytes {w : Bytes} (h : Word.ofBytes w ≠ .plain) : w.head? = some dash :=
  Decidable.of_not_not fun hhead => h (Word.ofBytes_plain hhead)

/-! ### Which options are known -/

/-- Options with a value are known at all levels. -/
theorem Level.longOption?_value (l : Level) (o : ValueOption) :
    l.longOption? (Utf8.encode o.longName) = some (.value o) := by
  rcases l with _ | c
  · cases o <;> decide
  · cases c <;> cases o <;> decide

/-- The switches of a level are known there. -/
theorem Level.longOption?_ownSwitch {l : Level} {s : Switch} (h : s ∈ l.ownSwitches) :
    l.longOption? (Utf8.encode s.longName) = some (.switch s) := by
  rcases l with _ | c
  · cases h
  · cases c <;> cases s <;> first | decide | exact absurd h (by decide)

/-- More detail can be asked for at all levels. -/
theorem Level.longOption?_verbose (l : Level) :
    l.longOption? (Utf8.encode Switch.verbose.longName) = some (.switch .verbose) := by
  rcases l with _ | c
  · decide
  · cases c <;> decide

/-- Commands have two switches of their own. -/
theorem Level.eq_of_mem_ownSwitches {l : Level} {s : Switch} (h : s ∈ l.ownSwitches) :
    s = .json ∨ s = .dryRun := by
  rcases l with _ | c
  · cases h
  · cases c <;> cases s <;> first | decide | exact absurd h (by decide)

theorem Level.letterOption?_verbose (l : Level) : l.letterOption? 'v' = some (.switch .verbose) := by
  rcases l with _ | c
  · decide
  · cases c <;> decide

/-! ### Values that are looked at -/

namespace Given

variable {g h g₁ : Given} {l : Level} {name : Bytes} {o : ValueOption} {v : Bytes} {s : Switch}

/-- **A value is stored** only once, and only if it can be used. -/
theorem store_eq_ok_iff :
    g.store o v = .ok g₁ ↔ g.value? o = .none ∧ (o.takesPath = true → v ≠ []) ∧
      (o.takesPath = false → (Utf8.decode? v).isSome = true) ∧
      g₁ = { g with values := g.values ++ [(o, v)], used := g.used ++ [.value o] } := by
  unfold store
  cases hvalue : g.value? o with
  | some w => simp
  | none =>
    cases hpath : o.takesPath with
    | true =>
      cases v with
      | nil => simp
      | cons b bs => simpa using eq_comm
    | false =>
      cases hdecode : Utf8.decode? v with
      | none => simp
      | some text => simpa using eq_comm

/-- **What was looked at** is not looked at again. -/
theorem settle_settled (h₁ : g.settle = .ok h) : h.pending = .none ∧ h.settle = .ok h := by
  have hpending : h.pending = .none := by
    unfold settle at h₁
    split at h₁
    · rename_i hnone
      cases h₁
      exact hnone
    · cases h₁
    · obtain ⟨-, -, -, rfl⟩ := store_eq_ok_iff.mp h₁
      rfl
  exact ⟨hpending, by rw [settle, hpending]⟩

/-- An option whose value is missing is not settled. -/
theorem awaiting?_of_settle (h₁ : g.settle = .ok h) : g.awaiting? = .none := by
  unfold awaiting?
  split
  · rename_i o hpending
    rw [settle, hpending] at h₁
    cases h₁
  · rfl

theorem settle_of_pending (h₁ : g.pending = .none) : g.settle = .ok g := by
  rw [settle, h₁]

/-- A value that was met is stored as soon as it is looked at. -/
theorem settle_of_met (h₁ : h.pending = .none) (o : ValueOption) (v : Bytes) :
    settle { h with pending := some (o, some v) } = h.store o v := by
  have hsame : { h with pending := .none } = h := by rw [← h₁]
  rw [settle]
  dsimp only
  rw [hsame]

/-- **An option with its value** is stored after what was pending. -/
theorem takeLong_value (hname : l.longOption? name = some (.value o)) (h₁ : g.settle = .ok h) :
    g.takeLong l name (some v) = h.store o v ∧
      g.takeLong l name .none = .ok { h with pending := some (o, .none) } := by
  simp [takeLong, hname, begin, h₁]

theorem takeLong_switch (hname : l.longOption? name = some (.switch s)) :
    g.takeLong l name .none = g.turnOn l s := by
  rw [takeLong, hname]

/-- More detail was asked for some times more. -/
def raised (h : Given) (n : Nat) : Given :=
  { h with
    verbosity := min maxVerbosity (h.verbosity + n)
    used := h.used.filter (· != .switch .verbose) ++ [.switch .verbose] }

theorem raised_raised (h : Given) (m n : Nat) : (h.raised m).raised n = h.raised (m + n) := by
  have hverbosity : min maxVerbosity (min maxVerbosity (h.verbosity + m) + n) =
      min maxVerbosity (h.verbosity + (m + n)) := by omega
  simp [raised, hverbosity]

/-- **A wish for more detail** is counted. -/
theorem turnOn_verbose (h₁ : g.settle = .ok h) : g.turnOn l .verbose = .ok (h.raised 1) := by
  rw [turnOn, h₁]
  rfl

/-- **A switch of a command** is turned on once. -/
theorem turnOn_fresh (hs : s = .json ∨ s = .dryRun) (h₁ : g.settle = .ok h) (hfresh : s ∉ h.switches) :
    g.turnOn l s = .ok { h with switches := h.switches ++ [s], used := h.used ++ [.switch s] } := by
  rcases hs with rfl | rfl <;>
  · rw [turnOn, h₁]
    simp [hfresh]

/-- **What a switch does**, where it does not end the reading. -/
theorem turnOn_ok (h₁ : g.turnOn l s = .ok g₁) : ∃ h, g.settle = .ok h ∧
    (s = .verbose ∧ g₁ = h.raised 1 ∨
      (s = .json ∨ s = .dryRun) ∧ s ∉ h.switches ∧
        g₁ = { h with switches := h.switches ++ [s], used := h.used ++ [.switch s] }) := by
  unfold turnOn at h₁
  split at h₁
  · cases h₁
  · rename_i h hsettle
    refine ⟨h, hsettle, ?_⟩
    cases s with
    | help | version => cases h₁
    | verbose => exact .inl ⟨rfl, (Except.ok.inj h₁).symm⟩
    | json | dryRun =>
      dsimp only at h₁
      split at h₁
      · cases h₁
      · rename_i hcontains
        exact .inr ⟨by simp, by simpa using hcontains, (Except.ok.inj h₁).symm⟩

/-- **What an option does**, where it does not end the reading. -/
theorem takeLong_ok {attached : Option Bytes} (h₁ : g.takeLong l name attached = .ok g₁) :
    ∃ h, g.settle = .ok h ∧
      ((∃ o v, l.longOption? name = some (.value o) ∧ attached = some v ∧ h.store o v = .ok g₁) ∨
        (∃ o, l.longOption? name = some (.value o) ∧ attached = .none ∧
          g₁ = { h with pending := some (o, .none) }) ∨
        ∃ s, l.longOption? name = some (.switch s) ∧ attached = .none ∧ g.turnOn l s = .ok g₁) := by
  unfold takeLong at h₁
  split at h₁
  · cases h₁
  · rename_i o hname
    unfold begin at h₁
    split at h₁
    · cases h₁
    · rename_i h hsettle
      refine ⟨h, hsettle, ?_⟩
      cases attached with
      | some v => exact .inl ⟨o, v, hname, rfl, h₁⟩
      | none => exact .inr (.inl ⟨o, hname, rfl, (Except.ok.inj h₁).symm⟩)
  · rename_i s hname
    cases attached with
    | some v => cases h₁
    | none =>
      obtain ⟨h, hsettle, -⟩ := turnOn_ok h₁
      exact ⟨h, hsettle, .inr (.inr ⟨s, hname, rfl, h₁⟩)⟩

end Given

/-! ### Commands -/

/-- No command begins with a dash. -/
theorem commandAt_dash {l : Level} {g : Given} {w : Bytes} {rest : List Bytes}
    (h : w.head? = some dash) : commandAt l g w rest = none := by
  have hhelp : (w == helpWord) = false := by
    simp only [beq_eq_false_iff_ne]
    rintro rfl
    exact absurd h (by decide)
  have hword : CommandName.ofWord? w = none := by
    rw [CommandName.ofWord?, List.find?_eq_none]
    rintro c - hc
    obtain rfl := eq_of_beq hc
    cases c <;> exact absurd h (by decide)
  unfold commandAt
  split
  · rfl
  · simp [hhelp, hword]

/-- A word that is expected as a value is no command. -/
theorem commandAt_awaiting {l : Level} {g : Given} {w : Bytes} {rest : List Bytes}
    (h : g.awaiting? ≠ none) : commandAt l g w rest = none := by
  have hsome : g.awaiting?.isSome = true := Option.isSome_iff_ne_none.mpr h
  simp [commandAt, hsome]

theorem commandAt_word {g : Given} {c : CommandName} {rest : List Bytes} (h : g.awaiting? = none) :
    commandAt .program g (Utf8.encode c.word) rest = some (.ok (c, rest)) := by
  have hword : CommandName.ofWord? (Utf8.encode c.word) = some c := by cases c <;> decide
  have hhelp : (Utf8.encode c.word == helpWord) = false := by cases c <;> decide
  simp [commandAt, h, hword, hhelp]

/-- **A command is met** before any other, and the words behind it are left. -/
theorem commandAt_ok {l : Level} {g : Given} {w : Bytes} {rest more : List Bytes} {c : CommandName}
    (h : commandAt l g w rest = some (.ok (c, more))) : l = .program ∧ more = rest ∧
      ∀ (g' : Given) (rest' : List Bytes), g'.awaiting? = none →
        commandAt l g' w rest' = some (.ok (c, rest')) := by
  unfold commandAt at h
  split at h
  · cases h
  · rename_i hlevel
    rw [Bool.or_eq_true, not_or] at hlevel
    split at h
    · cases h
    · rename_i hhelp
      obtain ⟨c', hc', hpair⟩ := Option.map_eq_some_iff.mp h
      cases hpair
      have hprogram : (l != .program) = false := by simpa using hlevel.1
      refine ⟨by simpa using hprogram, rfl, fun g' rest' hg' => ?_⟩
      rw [commandAt, hprogram, hg', Bool.false_or, Option.isSome_none]
      simp [hhelp, hc']

/-! ### Words at a level -/

section Levels

variable {l : Level} {g g₁ h : Given} {w : Bytes} {rest : List Bytes}

/-- **A long option** is taken, and the reading goes on. -/
theorem readLevel_long {name : Bytes} {attached : Option Bytes} (hdash : w.head? = some dash)
    (hw : Word.ofBytes w = .long name attached) (htake : g.takeLong l name attached = .ok g₁) :
    readLevel l g (w :: rest) = readLevel l g₁ rest := by
  rw [readLevel.eq_def]
  simp only [commandAt_dash hdash]
  simp only [hw, htake]

/-- **Letters** are taken, and the reading goes on. -/
theorem readLevel_letters {cs : Bytes} (hdash : w.head? = some dash) (hw : Word.ofBytes w = .letters cs)
    (htake : g.takeLetters l cs = .ok g₁) : readLevel l g (w :: rest) = readLevel l g₁ rest := by
  rw [readLevel.eq_def]
  simp only [commandAt_dash hdash]
  simp only [hw, htake]

/-- **An option without its value** waits for it. -/
theorem readLevel_option (o : ValueOption) (hsettle : g.settle = .ok h) :
    readLevel l g (AnyOption.word (.value o) :: rest) =
      readLevel l { h with pending := some (o, none) } rest :=
  readLevel_long (AnyOption.head?_word _) (AnyOption.ofBytes_word _)
    (Given.takeLong_value (v := []) (Level.longOption?_value l o) hsettle).2

/-- **A plain word is the value** of an option that waits for one. -/
theorem readLevel_value {o : ValueOption} (hg : g.pending = some (o, none)) (hw : Word.ofBytes w = .plain) :
    readLevel l g (w :: rest) = readLevel l { g with pending := some (o, some w) } rest := by
  have hawaiting : g.awaiting? = some o := by rw [Given.awaiting?, hg]
  rw [readLevel.eq_def]
  have hnone : commandAt l g w rest = none := commandAt_awaiting (by simp [hawaiting])
  simp only [hnone, hw, hawaiting]

/-- **What a word does** at a level, where the words are read: up to the state `g₁`, and with `next` left. -/
inductive Reads (l : Level) (g : Given) (w : Bytes) (rest : List Bytes) :
    Given → Option (CommandName × List Bytes) → Prop
  | command (c : CommandName) (h : commandAt l g w rest = some (.ok (c, rest))) :
    Reads l g w rest g (some (c, rest))
  | escape (hw : w = [dash, dash]) (hrest : rest = []) : Reads l g w rest g none
  | long {name : Bytes} {attached : Option Bytes} {g₁ g₂ : Given} {next : Option (CommandName × List Bytes)}
    (hw : Word.ofBytes w = .long name attached) (htake : g.takeLong l name attached = .ok g₂)
    (hread : readLevel l g₂ rest = .ok (g₁, next)) : Reads l g w rest g₁ next
  | letters {cs : Bytes} {g₁ g₂ : Given} {next : Option (CommandName × List Bytes)}
    (hw : Word.ofBytes w = .letters cs) (htake : g.takeLetters l cs = .ok g₂)
    (hread : readLevel l g₂ rest = .ok (g₁, next)) : Reads l g w rest g₁ next
  | value {o : ValueOption} {g₁ : Given} {next : Option (CommandName × List Bytes)}
    (hawaiting : g.awaiting? = some o) (hw : Word.ofBytes w = .plain)
    (hread : readLevel l { g with pending := some (o, some w) } rest = .ok (g₁, next)) :
    Reads l g w rest g₁ next

/-- **These are all the things that a word can do.** -/
theorem reads_of_readLevel {next : Option (CommandName × List Bytes)}
    (hread : readLevel l g (w :: rest) = .ok (g₁, next)) : Reads l g w rest g₁ next := by
  rw [readLevel.eq_def] at hread
  dsimp only at hread
  split at hread
  · rename_i c hcommand
    cases hread
    obtain ⟨-, hrest, -⟩ := commandAt_ok hcommand
    rw [← Prod.eta c, hrest] at hcommand ⊢
    exact .command c.1 hcommand
  · cases hread
  · split at hread
    · rename_i hw
      split at hread
      · cases hread
        exact .escape (Word.eq_of_ofBytes_escape hw) rfl
      · cases hread
    · rename_i hw
      split at hread
      · rename_i htake
        exact .long hw htake hread
      · cases hread
    · rename_i hw
      split at hread
      · rename_i htake
        exact .letters hw htake hread
      · cases hread
    · rename_i hw
      split at hread
      · rename_i hawaiting
        exact .value hawaiting hw hread
      · cases hread

/-- **The command** ends the options before it. -/
theorem readLevel_command {c : CommandName} (hg : g.awaiting? = none) :
    readLevel .program g (Utf8.encode c.word :: rest) = .ok (g, some (c, rest)) := by
  rw [readLevel.eq_def]
  simp only [commandAt_word hg]

end Levels

/-! ### Command lines -/

/-- **A command line is read** level by level, and what both levels state is put together. -/
theorem parse_eq_ok_iff {ws : List Bytes} {i : Invocation} :
    parse ws = .ok i ↔ ∃ g c rest before g' next behind,
      readLevel .program .none ws = .ok (g, some (c, rest)) ∧ g.settle = .ok before ∧
      readLevel (.command c) .none rest = .ok (g', next) ∧ g'.settle = .ok behind ∧
      i = invocationOf before behind c := by
  constructor
  · intro h
    unfold parse at h
    split at h
    · cases h
    · rename_i g c rest hread
      unfold parseCommand at h
      dsimp only at h
      split at h
      · cases h
      · rename_i behind hbehind
        split at h
        · cases h
        · rename_i before hsettle
          cases h
          cases hread' : readLevel (.command c) .none rest with
          | error e =>
            rw [hread'] at hbehind
            cases hbehind
          | ok r =>
            rw [hread'] at hbehind
            exact ⟨g, c, rest, before, r.1, r.2, behind, hread, hsettle, hread', hbehind, rfl⟩
    · split at h <;> cases h
  · rintro ⟨g, c, rest, before, g', next, behind, hread, hsettle, hread', hsettle', rfl⟩
    rw [parse, hread]
    dsimp only
    rw [parseCommand, hread']
    simp only [Except.bind, hsettle', hsettle]

end ReleasePublisher.CommandLine
