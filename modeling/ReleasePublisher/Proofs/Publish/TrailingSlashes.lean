import ReleasePublisher.Program
import ReleasePublisher.Proofs.Publish.Dialogues
import ReleasePublisher.Proofs.Publish.Upload
import ReleasePublisher.Proofs.Release.BaseAddresses

/-!
# Slashes at the end of base addresses

A base address may be given with slashes at its end, and in a variable also with blanks around it. They are taken
off where a configuration is resolved, where the address of a secret is made, and where a client of the release host
is made, each time in its own way. All three agree on what is left: the address without slashes, and in a
configuration also without the blanks before it.

## Main definitions

* `IsBase b`: a base address with nothing at its end to take off
* `slashes n`: slashes
* `IsPadded b n raw`: the value is the address with slashes behind it, and blanks around both
* `Environment.PadsBases b n env env'`: variables of base addresses that are padded
* `SlashesAreIdle b n`: the slashes behind an address change nothing

## Main results

* `IsBase.trimEndChar_slashed`: slashes are taken off the end, however many there are
* `IsPadded.trimBase_eq`: a padded value is trimmed as the address itself
* `resolve_of_padsBases`, `perform_of_padsBases`: padded base addresses change neither a configuration nor a run
* `IsBase.slashesAreIdle`: slashes at the end of base addresses never matter
-/

namespace ReleasePublisher

/-- **A base address with nothing at its end to take off.** Blanks may stand before it. -/
structure IsBase (b : String) : Prop where
  ne_empty : b ≠ ""
  last : ∀ c ∈ b.toList.getLast?, Text.isBlank c = false ∧ c ≠ '/'

/-- Slashes. -/
def slashes (n : Nat) : String :=
  String.ofList (List.replicate n '/')

theorem append_no_slashes (b : String) : b ++ slashes 0 = b := by
  rw [slashes, List.replicate_zero, String.ofList_nil, String.append_empty]

/-- **The value is the address with slashes behind it**, and blanks around both. -/
def IsPadded (b : String) (n : Nat) (raw : String) : Prop :=
  ∃ before after, raw = before ++ (b ++ slashes n) ++ after ∧
    Text.isBlankText before = true ∧ Text.isBlankText after = true

/-- The text without the blanks at its start. -/
def Text.trimStart (s : String) : String :=
  String.ofList (s.toList.dropWhile isBlank)

/-- Blanks stand before what is left of a text, which begins with none. -/
theorem Text.exists_blanks_trimStart (s : String) :
    ∃ blanks, s.toList = blanks ++ (trimStart s).toList ∧ (∀ c ∈ blanks, isBlank c = true) ∧
      ∀ c ∈ (trimStart s).toList.head?, isBlank c = false := by
  rw [trimStart, String.toList_ofList]
  exact dropWhile_eq_iff.mp rfl

variable {b raw : String} {n : Nat}

theorem IsPadded.pads (h : IsPadded b n raw) : Pads b raw := by
  obtain ⟨before, after, rfl, hbefore, hafter⟩ := h
  refine ⟨before.toList, (slashes n).toList, after.toList, ?_, ?_, ?_, ?_⟩
  · simp only [String.toList_append]
  · exact List.all_eq_true.mp hbefore
  · intro c hc
    rw [slashes, String.toList_ofList] at hc
    exact List.eq_of_mem_replicate hc
  · exact List.all_eq_true.mp hafter

/-- Blanks before an address are as good as blanks before what is left of it without them. -/
theorem Pads.trimStart (h : Pads b raw) : Pads (Text.trimStart b) raw := by
  obtain ⟨before, slashes, after, hraw, hbefore, hslashes, hafter⟩ := h
  obtain ⟨blanks, hb, hblanks, -⟩ := Text.exists_blanks_trimStart b
  refine ⟨before ++ blanks, slashes, after, ?_, ?_, hslashes, hafter⟩
  · calc raw.toList
        = before ++ (b.toList ++ slashes) ++ after := hraw
      _ = before ++ (blanks ++ (Text.trimStart b).toList ++ slashes) ++ after := by rw [← hb]
      _ = before ++ blanks ++ ((Text.trimStart b).toList ++ slashes) ++ after := by
          simp only [List.append_assoc]
  · intro c hc
    rcases List.mem_append.mp hc with hc | hc
    · exact hbefore c hc
    · exact hblanks c hc

namespace IsBase

theorem toList_ne_nil (h : IsBase b) : b.toList ≠ [] := by
  intro hnil
  exact h.ne_empty (String.toList_eq_nil_iff.mp hnil)

/-- A base address is not blank: its last character is none. -/
theorem not_isBlankText (h : IsBase b) : Text.isBlankText b = false := by
  apply Bool.eq_false_iff.mpr
  intro hblank
  have hend := List.getLast?_eq_some_getLast h.toList_ne_nil
  have hlast := (h.last _ hend).1
  rw [List.all_eq_true.mp hblank _ (List.mem_of_getLast? hend)] at hlast
  cases hlast

/-- **Without the blanks before it**, a base address is in normal form. -/
theorem isNormalBase_trimStart (h : IsBase b) : IsNormalBase (Text.trimStart b) := by
  obtain ⟨blanks, hb, hblanks, hhead⟩ := Text.exists_blanks_trimStart b
  -- Something is left, for otherwise all of the address would be blank.
  have hne : Text.trimStart b ≠ "" := by
    intro hempty
    have hall : Text.isBlankText b = true := by
      rw [Text.isBlankText, hb, hempty, String.toList_empty, List.append_nil]
      exact List.all_eq_true.mpr hblanks
    rw [h.not_isBlankText] at hall
    cases hall
  constructor
  · exact hne
  · exact hhead
  · intro c hc
    apply h.last c
    rw [hb, List.getLast?_append, hc]
    rfl

/-- **An address keeps all before the slashes** that are taken off its end, however many there are. -/
theorem trimEndChar_slashed (h : IsBase b) (n : Nat) : Text.trimEndChar '/' (b ++ slashes n) = b := by
  rw [Text.trimEndChar, ← String.toList_inj, String.toList_ofList]
  refine Text.dropEndWhile_eq_iff.mpr ⟨List.replicate n '/', ?_, ?_, ?_⟩
  · rw [String.toList_append, slashes, String.toList_ofList]
  · intro c hc
    rw [List.eq_of_mem_replicate hc]
    rfl
  · intro c hc
    exact beq_eq_false_iff_ne.mpr (h.last c hc).2

theorem trimEndChar_eq (h : IsBase b) : Text.trimEndChar '/' b = b := by
  have hslashed := h.trimEndChar_slashed 0
  rwa [append_no_slashes] at hslashed

/-- An address pads itself. -/
theorem isPadded_self (b : String) : IsPadded b 0 b :=
  ⟨"", "", by rw [append_no_slashes, String.empty_append, String.append_empty], rfl, rfl⟩

end IsBase

/-- **A padded value is trimmed** to the address without the blanks before it. -/
theorem IsPadded.trimBase_eq (hraw : IsPadded b n raw) (h : IsBase b) : trimBase raw = Text.trimStart b :=
  h.isNormalBase_trimStart.trimBase_eq hraw.pads.trimStart

/-- A padded value is not blank. -/
theorem IsPadded.not_isBlankText (hraw : IsPadded b n raw) (h : IsBase b) : Text.isBlankText raw = false := by
  obtain ⟨before, after, rfl, -, -⟩ := hraw
  have hb := h.not_isBlankText
  unfold Text.isBlankText at hb ⊢
  simp only [String.toList_append, List.all_append, hb, Bool.false_and, Bool.and_false]

/-! ### Variables -/

/-- **Variables of base addresses are padded**: where one of them is `b`, the other environment may hold `b` with
slashes behind it and blanks around both. All else is the same. -/
structure Environment.PadsBases (b : String) (n : Nat) (env env' : Environment) : Prop where
  base : ∀ name ∈ [apiVariable, proxyVariable], env' name = env name ∨
    env name = some b ∧ ∃ raw, env' name = some raw ∧ IsPadded b n raw
  other : ∀ name ∉ [apiVariable, proxyVariable], env' name = env name

variable {env env' : Environment}

namespace Environment.PadsBases

/-- Padding a variable does not make it count as unset, and makes no difference to what is left of it. -/
theorem map_trimBase_set? (henv : env.PadsBases b n env') (h : IsBase b) {name : String}
    (hname : name ∈ [apiVariable, proxyVariable]) :
    (env'.set? name).map trimBase = (env.set? name).map trimBase := by
  rcases henv.base name hname with heq | ⟨hb, raw, hraw, hpadded⟩
  · rw [Environment.set?, Environment.set?, heq]
  · have hset : env.set? name = some b := set?_eq_some_iff.mpr ⟨hb, h.not_isBlankText⟩
    have hset' : env'.set? name = some raw := set?_eq_some_iff.mpr ⟨hraw, hpadded.not_isBlankText h⟩
    rw [hset, hset', Option.map_some, Option.map_some, hpadded.trimBase_eq h,
      (IsBase.isPadded_self b).trimBase_eq h]

end Environment.PadsBases

/-- The first value that is there, trimmed, is the first trimmed value. -/
theorem trimBase_getD (a b : Option String) (d : String) :
    trimBase ((a <|> b).getD d) = (a.map trimBase).getD (trimBase (b.getD d)) := by
  cases a <;> rfl

/-- **Padded base addresses change no configuration.** -/
theorem resolve_of_padsBases (h : IsBase b) (henv : env.PadsBases b n env') (t : FileTree) (root : Path)
    (overrides : Overrides) : resolve t root overrides env' = resolve t root overrides env := by
  have hproject : env'.set? projectVariable = env.set? projectVariable := by
    rw [Environment.set?, Environment.set?, henv.other projectVariable (by decide)]
  -- The addresses are read from variables that may be padded, but are trimmed before they are compared.
  have hapi : (env'.set? apiVariable).map trimBase = (env.set? apiVariable).map trimBase :=
    henv.map_trimBase_set? h (by decide)
  have hproxy : (env'.set? proxyVariable).map trimBase = (env.set? proxyVariable).map trimBase :=
    henv.map_trimBase_set? h (by decide)
  have hwith : ∀ file, resolveWith root overrides env' file = resolveWith root overrides env file := by
    intro file
    unfold resolveWith
    simp only [trimBase_getD, hproject, hapi, hproxy]
  simp only [resolve, hwith]

/-- **Padded base addresses change no run**: what an invocation does is the same. -/
theorem perform_of_padsBases [Gzip.Writer] (h : IsBase b) (henv : env.PadsBases b n env')
    (i : CommandLine.Invocation) (root : Path)
    (isWatched : Bool) : perform i root env' isWatched = perform i root env isWatched := by
  simp only [perform, resolveIn, resolve_of_padsBases h henv]

/-- The first of the sources gives the value, if it gives one. -/
theorem IsFirst.eq_of_head {α : Type} {a x : α} {sources : List (Option α)} (h : IsFirst (some a :: sources) x) :
    x = a := by
  rw [isFirst_iff, List.findSome?_cons] at h
  exact (Option.some.inj h).symm

/-- **What is resolved** of a base address in a variable is the address without the blanks before it. -/
theorem IsBase.resolved {t : FileTree} {root : Path} {overrides : Overrides} {c : Config} (h : IsBase b)
    (hc : resolve t root overrides env = .ok c) :
    (env apiVariable = some b → c.apiUrl = Text.trimStart b) ∧
      (env proxyVariable = some b → c.proxyUrl = some (Text.trimStart b)) := by
  obtain ⟨file, -, hfollows⟩ := resolve_eq_ok_iff.mp hc
  have htrims : TrimsTo b (Text.trimStart b) := trimBase_eq_iff.mp ((isPadded_self b).trimBase_eq h)
  have hset : ∀ name, env name = some b → env.set? name = some b :=
    fun name hname => set?_eq_some_iff.mpr ⟨hname, h.not_isBlankText⟩
  constructor
  · intro hapi
    obtain ⟨raw, hraw, hfirst⟩ := hfollows.apiUrl
    rw [hset _ hapi] at hfirst
    obtain rfl := hfirst.eq_of_head
    exact (trimBase_eq_iff.mpr hraw).symm.trans (trimBase_eq_iff.mpr htrims)
  · intro hproxy
    exact (hfollows.proxyUrl _).mpr ⟨b, hset _ hproxy, htrims⟩

/-! ### Addresses -/

/-- **A client of an address with slashes** asks below the address without them. -/
theorem IsBase.ofBase_slashed (h : IsBase b) (n : Nat) (token : DeployToken) :
    HostClient.ofBase (b ++ slashes n) token = ⟨b, token⟩ := by
  rw [HostClient.ofBase, h.trimEndChar_slashed n]

/-- **The slashes behind a base address change nothing.** -/
structure SlashesAreIdle (b : String) (n : Nat) : Prop where
  /-- Where variables of base addresses are padded, the configuration is the same, or fails in the same way. -/
  resolve_eq : ∀ t root overrides env env', Environment.PadsBases b n env env' →
    resolve t root overrides env' = resolve t root overrides env
  /-- The base addresses of the configuration are the address without the blanks before it. -/
  resolved : ∀ t root overrides env c, resolve t root overrides env = .ok c →
    (env apiVariable = some b → c.apiUrl = Text.trimStart b) ∧
      (env proxyVariable = some b → c.proxyUrl = some (Text.trimStart b))
  /-- The secret of a project has the same address, right below that of the proxy. -/
  secretUrl_eq : ∀ project, secretUrl (b ++ slashes n) project = secretUrl b project ∧
    secretUrl b project = b ++ "/secrets/v1/secret/project/relman/" ++ project ++ "/deploy"
  /-- A client of the release host sends the same and brings back the same, in every dialogue. -/
  dialogue_eq : ∀ token s, ∀ d : Dialogue,
    d.run (.ofBase (b ++ slashes n) token) s = d.run (.ofBase b token) s
  /-- Each of its look-ups goes to its endpoint, right below the address. -/
  isAddressed : ∀ token s, ∀ d : Dialogue, ∀ x ∈ (d.run (.ofBase (b ++ slashes n) token) s).1, x.IsAddressed b

/-- **Slashes at the end of base addresses never matter.** For every address that is not empty and does not end in a
blank or a slash, and any number of slashes: a configuration with the address in its variables is the one with
slashes behind it and blanks around both, the secret of a project is read at the same address, and a client of the
release host does the same in every dialogue. -/
theorem IsBase.slashesAreIdle (h : IsBase b) (n : Nat) : SlashesAreIdle b n where
  resolve_eq := by
    intro t root overrides env env' henv
    exact resolve_of_padsBases h henv t root overrides
  resolved := by
    intro t root overrides env c hc
    exact h.resolved hc
  secretUrl_eq := by
    intro project
    constructor
    · rw [secretUrl, secretUrl, h.trimEndChar_slashed n, h.trimEndChar_eq]
    · rw [secretUrl, h.trimEndChar_eq]
  dialogue_eq := by
    intro token s d
    rw [h.ofBase_slashed n, HostClient.ofBase, h.trimEndChar_eq]
  isAddressed := by
    intro token s d x hx
    rw [h.ofBase_slashed n] at hx
    exact d.run_isAddressed ⟨b, token⟩ s x hx

/-- An address with a blank before it, with two slashes behind it: both variables may be padded, and a look-up after
one that failed goes to its endpoint. -/
theorem slashesAreIdle_sample :
    IsBase " http://h" ∧ SlashesAreIdle " http://h" 2 ∧
      Environment.PadsBases " http://h" 2 (Sample.bases " http://h" " http://h")
        (Sample.bases "\t  http://h// " " http://h//\n") ∧
      resolve Sample.bare (.ofText "/w") ⟨none, none, none, none, none⟩
        (Sample.bases "\t  http://h// " " http://h//\n") = .ok (Sample.withBases "http://h" "http://h") ∧
      ((Dialogue.errand (.repository "o" "a") fun _ => .errand (.latestRelease ⟨1, "o/a", none⟩) fun _ => .ended).run
        (.ofBase (" http://h" ++ slashes 2) ⟨"t"⟩) (Sample.surroundings [])).1.map
          (fun x => x.requests.map (·.url.text)) =
        [["http://h/repos/o/a"], ["http://h/repos/o/a/releases/latest"]] := by
  have hbase : IsBase " http://h" := by
    refine ⟨by decide, ?_⟩
    rintro c ⟨⟩
    decide
  refine ⟨hbase, hbase.slashesAreIdle 2, ?_, by decide +kernel, by decide +kernel⟩
  constructor
  · intro name hname
    simp only [List.mem_cons, List.not_mem_nil, or_false] at hname
    rcases hname with rfl | rfl
    · exact .inr ⟨rfl, _, rfl, "\t ", " ", by decide, by decide, by decide⟩
    · exact .inr ⟨rfl, _, rfl, "", "\n", by decide, by decide, by decide⟩
  · intro name hname
    simp only [List.mem_cons, List.not_mem_nil, or_false, not_or] at hname
    unfold Sample.bases
    split
    · rfl
    · exact absurd rfl hname.1
    · exact absurd rfl hname.2
    · rfl

end ReleasePublisher
