import ReleasePublisher.Proofs.Release.Precedence

/-!
# Base addresses in normal form

A base address loses the blanks around it and then the slashes at its end, once. What is left begins with no
blank and ends in no slash, but it is in normal form only if the value was a normal one with slashes behind it
and blanks around both: a blank before the slashes stays, and of slashes alone nothing is left.

## Main definitions

* `IsNormalBase url`: the address is not empty, has no blank at either end, and no slash at its end
* `Pads url raw`: the value is the address with slashes behind it, and blanks around both
* `Normalizes raw url`: when the address that a value is trimmed to is in normal form

## Main results

* `TrimsTo.normalizes`: what trimming achieves
* `resolve_bases`: which base addresses of a configuration are in normal form
-/

namespace ReleasePublisher

variable {t : FileTree} {root : Path} {overrides : Overrides} {env : Environment} {c : Config}
  {raw url : String}

/-- **A base address in normal form.** -/
structure IsNormalBase (url : String) : Prop where
  ne_empty : url ≠ ""
  head : ∀ c ∈ url.toList.head?, Text.isBlank c = false
  last : ∀ c ∈ url.toList.getLast?, Text.isBlank c = false ∧ c ≠ '/'

/-- **The value is the address with slashes behind it**, and blanks around both. -/
def Pads (url raw : String) : Prop :=
  ∃ before slashes after, raw.toList = before ++ (url.toList ++ slashes) ++ after ∧
    (∀ c ∈ before, Text.isBlank c = true) ∧ (∀ c ∈ slashes, c = '/') ∧
    ∀ c ∈ after, Text.isBlank c = true

theorem TrimsTo.pads (h : TrimsTo raw url) : Pads url raw := by
  obtain ⟨before, slashes, after, hraw, hbefore, hslashes, hafter, -⟩ := h
  exact ⟨before, slashes, after, hraw, hbefore, hslashes, hafter⟩

theorem isBlank_slash : Text.isBlank '/' = false := by decide

/-! ### What trimming achieves -/

/-- The first character of an address is no blank. -/
theorem TrimsTo.head_not_blank (h : TrimsTo raw url) : ∀ c ∈ url.toList.head?, Text.isBlank c = false := by
  obtain ⟨before, slashes, after, -, -, -, -, hhead, -⟩ := h
  intro c hc
  apply hhead
  rw [List.head?_append, hc]
  rfl

/-- The last character of an address is no slash. -/
theorem TrimsTo.last_ne_slash (h : TrimsTo raw url) : ∀ c ∈ url.toList.getLast?, c ≠ '/' := by
  obtain ⟨before, slashes, after, -, -, -, -, -, -, hlast⟩ := h
  exact hlast

/-- **A value is trimmed to the address that it pads**, if the address has nothing at its ends to take off. -/
theorem trimsTo_of_pads (hraw : Pads url raw) (hhead : ∀ c ∈ url.toList.head?, Text.isBlank c = false)
    (hlast : ∀ c ∈ url.toList.getLast?, Text.isBlank c = false ∧ c ≠ '/') : TrimsTo raw url := by
  obtain ⟨before, slashes, after, hraw, hbefore, hslashes, hafter⟩ := hraw
  refine ⟨before, slashes, after, hraw, hbefore, hslashes, hafter, ?_, ?_, fun c hc => (hlast c hc).2⟩
  · intro c hc
    rw [List.head?_append, Option.mem_def, Option.or_eq_some_iff] at hc
    rcases hc with hc | ⟨-, hc⟩
    · exact hhead c hc
    · rw [hslashes c (List.mem_of_head? hc)]
      exact isBlank_slash
  · intro c hc
    rw [List.getLast?_append, Option.mem_def, Option.or_eq_some_iff] at hc
    rcases hc with hc | ⟨-, hc⟩
    · rw [hslashes c (List.mem_of_getLast? hc)]
      exact isBlank_slash
    · exact (hlast c hc).1

theorem IsNormalBase.trimBase_eq (hurl : IsNormalBase url) (hraw : Pads url raw) : trimBase raw = url :=
  trimBase_eq_iff.mpr (trimsTo_of_pads hraw hurl.head hurl.last)

/-- An address pads itself. -/
theorem pads_self (url : String) : Pads url url :=
  ⟨[], [], [], by simp, nofun, nofun, nofun⟩

/-- **An address is in normal form** exactly if it is not empty and trimming leaves it as it is. -/
theorem isNormalBase_iff : IsNormalBase url ↔ trimBase url = url ∧ url ≠ "" := by
  constructor
  · intro h
    exact ⟨h.trimBase_eq (pads_self url), h.ne_empty⟩
  · rintro ⟨hfixed, hne⟩
    have htrims := trimBase_eq_iff.mp hfixed
    refine ⟨hne, htrims.head_not_blank, fun c hc => ⟨?_, htrims.last_ne_slash c hc⟩⟩
    -- Nothing is taken off, so that the last character is one that no blank stands behind.
    obtain ⟨before, slashes, after, hurl, -, -, -, -, hlast, -⟩ := htrims
    have hlength := congrArg List.length hurl
    simp only [List.length_append] at hlength
    obtain rfl : slashes = [] := List.length_eq_zero_iff.mp (by omega)
    rw [List.append_nil] at hlast
    exact hlast c hc

/-- **How the address that a value is trimmed to comes out.** -/
structure Normalizes (raw url : String) : Prop where
  /-- It never begins with a blank, and never ends in a slash. -/
  ends : (∀ c ∈ url.toList.head?, Text.isBlank c = false) ∧ ∀ c ∈ url.toList.getLast?, c ≠ '/'
  /-- It is in normal form exactly if the value pads such an address. -/
  isNormal_iff : IsNormalBase url ↔ ∃ base, IsNormalBase base ∧ Pads base raw
  /-- It is so exactly if trimming it again changes nothing, and something is left. -/
  isNormal_iff_fixed : IsNormalBase url ↔ trimBase url = url ∧ url ≠ ""
  /-- Nothing is left exactly of slashes between blanks. -/
  eq_empty_iff : url = "" ↔ Pads "" raw

/-- **What trimming achieves.** -/
theorem TrimsTo.normalizes (h : TrimsTo raw url) : Normalizes raw url where
  ends := ⟨h.head_not_blank, h.last_ne_slash⟩
  isNormal_iff := by
    constructor
    · intro hurl
      exact ⟨url, hurl, h.pads⟩
    · rintro ⟨base, hbase, hpads⟩
      rw [← trimBase_eq_iff.mpr h, hbase.trimBase_eq hpads]
      exact hbase
  isNormal_iff_fixed := isNormalBase_iff
  eq_empty_iff := by
    constructor
    · rintro rfl
      exact h.pads
    · intro hpads
      exact (trimBase_eq_iff.mpr h).symm.trans (trimBase_eq_iff.mpr (trimsTo_of_pads hpads nofun nofun))

/-! ### The base addresses of a configuration -/

/-- **The base addresses of a configuration**, with the values that they come from. -/
structure HasBases (t : FileTree) (root : Path) (env : Environment) (c : Config) : Prop where
  /-- The address of the release host comes from its variable, the file, or the default. -/
  host : ∃ file raw, FileConfig.Loads t root file ∧
    IsFirst [env.set? apiVariable, FileConfig.stated file (·.apiUrl), some "https://api.github.com"] raw ∧
      Normalizes raw c.apiUrl
  /-- The address of the secret proxy comes from its variable, which is not blank. -/
  proxy : ∀ url, c.requireProxy = .ok url →
    ∃ raw, env proxyVariable = some raw ∧ Text.isBlankText raw = false ∧ Normalizes raw url

theorem requireProxy_eq_ok_iff : c.requireProxy = .ok url ↔ c.proxyUrl = some url := by
  unfold Config.requireProxy
  split
  · rename_i url' h
    rw [h, Except.ok.injEq, Option.some.injEq]
  · rename_i h
    rw [h]
    exact ⟨nofun, nofun⟩

theorem set?_eq_some_iff {name : String} :
    env.set? name = some raw ↔ env name = some raw ∧ Text.isBlankText raw = false := by
  rw [Environment.set?, Option.filter_eq_some_iff, Bool.not_eq_true']

/-- **Which base addresses are in normal form.** Whatever the files, the command line and the variables are:
a base address of a configuration never begins with a blank and never ends in a slash. It is in normal form
exactly if the value that it comes from is such an address with any slashes behind it and any blanks around
both, and nothing is left of it exactly if that value is slashes between blanks. -/
theorem resolve_bases (h : resolve t root overrides env = .ok c) : HasBases t root env c := by
  obtain ⟨file, hfile, hc⟩ := resolve_eq_ok_iff.mp h
  obtain ⟨raw, htrims, hfirst⟩ := hc.apiUrl
  refine ⟨⟨file, raw, hfile, hfirst, htrims.normalizes⟩, fun url hurl => ?_⟩
  obtain ⟨raw, hset, htrims⟩ := (hc.proxyUrl url).mp (requireProxy_eq_ok_iff.mp hurl)
  obtain ⟨hraw, hblank⟩ := set?_eq_some_iff.mp hset
  exact ⟨raw, hraw, hblank, htrims.normalizes⟩

namespace Sample

/-- Variables that give the two base addresses. -/
def bases (api proxy : String) : Environment
  | "PROJECT_NAME" => some "f"
  | "GITHUB_API_URL" => some api
  | "TASKCLUSTER_PROXY_URL" => some proxy
  | _ => none

/-- A configuration with two base addresses, the rest by default. -/
def withBases (api proxy : String) : Config :=
  { project := "f", owner := "mozilla", platform := "linux-x86_64", buildDir := .ofText "/w/target/release"
    outputDir := .ofText "/w/", apiUrl := api, proxyUrl := some proxy, configFile := none }

/-- The working directory `w`, without a configuration file. -/
def bare : FileTree where
  nodes := [([[0x77]], .folder)]
  current := some [[0x77]]
  now := 1

end Sample

/-- Addresses with slashes behind them and blanks around are resolved to addresses in normal form. -/
theorem resolve_bases_sample :
    resolve Sample.bare (.ofText "/w") ⟨none, none, none, none, none⟩ (Sample.bases " h// " "p/") =
        .ok (Sample.withBases "h" "p") ∧
      HasBases Sample.bare (.ofText "/w") (Sample.bases " h// " "p/") (Sample.withBases "h" "p") ∧
      IsNormalBase (Sample.withBases "h" "p").apiUrl := by
  have hresolve : resolve Sample.bare (.ofText "/w") ⟨none, none, none, none, none⟩
      (Sample.bases " h// " "p/") = .ok (Sample.withBases "h" "p") := by
    decide
  have hnormal : IsNormalBase "h" := by
    refine ⟨by decide, ?_, ?_⟩
    · rintro c ⟨⟩
      decide
    · rintro c ⟨⟩
      decide
  exact ⟨hresolve, resolve_bases hresolve, hnormal⟩

/-- **A proxy of a single slash is an empty address**, which is taken for one that is set; a blank before the
slash at the end of the other address stays at its end. -/
theorem base_of_slash_is_empty :
    ∃ c, resolve Sample.bare (.ofText "/w") ⟨none, none, none, none, none⟩ (Sample.bases "h /" "/") = .ok c ∧
      c.requireProxy = .ok "" ∧ c.apiUrl = "h " ∧ ¬ IsNormalBase c.apiUrl := by
  have hresolve : resolve Sample.bare (.ofText "/w") ⟨none, none, none, none, none⟩
      (Sample.bases "h /" "/") = .ok (Sample.withBases "h " "") := by
    decide
  refine ⟨_, hresolve, rfl, rfl, fun hnormal => ?_⟩
  cases (hnormal.last ' ' rfl).1

end ReleasePublisher
