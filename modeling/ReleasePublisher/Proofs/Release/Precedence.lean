import ReleasePublisher.Proofs.Files.Contents
import ReleasePublisher.Proofs.Release.Resolve
import ReleasePublisher.Proofs.Text.Trimming

/-!
# Which source a value comes from

Each value of a configuration has its sources in order, and the first one that gives a value wins. A
configuration is resolved exactly to what this precedence asks for, and the outcome, be it a configuration
or a failure, depends on nothing but the command line, three variables, and one file.

## Main definitions

* `IsFirst sources x`: `x` is the first value that the sources give
* `FileConfig.IsChosen t root p`, `FileConfig.Loads t root file`: the file that is read, and what it states
* `FollowsPrecedence root overrides env file c`: each value of `c` comes from the first of its sources
* `SameSources root t t' env env'`: the file that is read and the three variables are the same

## Main results

* `resolveWith_eq_ok_iff`: what is resolved is what follows the precedence
* `FileConfig.load_eq_ok_iff`, `FileConfig.load_of_sameSources`: what is read of the files
* `resolve_byPrecedence`: what resolving gives, and what it depends on
-/

namespace ReleasePublisher

variable {t t' : FileTree} {root : Path} {overrides : Overrides} {env env' : Environment}
  {file : Option (Path × FileConfig)} {c : Config}

/-! ### First values -/

/-- **The first value that the sources give.** -/
def IsFirst {α : Type} (sources : List (Option α)) (x : α) : Prop :=
  ∃ before after, sources = before ++ some x :: after ∧ ∀ y ∈ before, y = none

theorem isFirst_iff {α : Type} {sources : List (Option α)} {x : α} :
    IsFirst sources x ↔ sources.findSome? id = some x := by
  rw [List.findSome?_eq_some_iff]
  constructor
  · rintro ⟨before, after, hsources, hbefore⟩
    exact ⟨before, some x, after, hsources, rfl, hbefore⟩
  · rintro ⟨before, y, after, hsources, rfl, hbefore⟩
    exact ⟨before, after, hsources, hbefore⟩

/-- The first of three sources. -/
theorem isFirst_three {α : Type} {a b d : Option α} {x : α} :
    IsFirst [a, b, d] x ↔ (a <|> b <|> d) = some x := by
  rw [isFirst_iff]
  cases a <;> cases b <;> cases d <;> rfl

/-- The first of two sources, or else a default. -/
theorem isFirst_default {α : Type} {a b : Option α} {d x : α} :
    IsFirst [a, b, some d] x ↔ (a <|> b).getD d = x := by
  rw [isFirst_iff]
  cases a <;> cases b <;> simp

/-! ### The configuration file -/

namespace FileConfig

/-- **The candidate that is read**: the first one that is a regular file. -/
def IsChosen (t : FileTree) (root p : Path) : Prop :=
  ∃ before after, candidates root = before ++ p :: after ∧ t.isFile p = true ∧
    ∀ q ∈ before, t.isFile q = false

/-- **What is read of the files.** -/
inductive Loads (t : FileTree) (root : Path) : Option (Path × FileConfig) → Prop
  | absent : (∀ p ∈ candidates root, t.isFile p = false) → Loads t root none
  | present {p : Path} {bytes : Bytes} {f : FileConfig} : IsChosen t root p →
      t.read p = .ok bytes → ofBytes p bytes = .ok f → Loads t root (some (p, f))

/-- What the file states, if there is one. -/
def stated {α : Type} (file : Option (Path × FileConfig)) (value : FileSection → Option α) :
    Option α :=
  file.bind fun f => value f.2.release

theorem stated_eq {α : Type} (file : Option (Path × FileConfig)) {value : FileSection → Option α}
    (h : value .empty = none) :
    value ((file.map fun f => f.2.release).getD .empty) = stated file value := by
  cases file with
  | none => exact h
  | some f => rfl

/-- One source, then what the file states, or else a default. -/
theorem isFirst_stated {α : Type} {value : FileSection → Option α} (h : value .empty = none)
    {a : Option α} {d x : α} :
    IsFirst [a, stated file value, some d] x ↔
      (a <|> value ((file.map fun f => f.2.release).getD .empty)).getD d = x := by
  rw [isFirst_default, stated_eq file h]

theorem find?_eq_some_iff {p : Path} : find? t root = some p ↔ IsChosen t root p := by
  rw [find?, List.find?_eq_some_iff_append]
  constructor
  · rintro ⟨hp, before, after, hcandidates, hbefore⟩
    exact ⟨before, after, hcandidates, hp, by simpa using hbefore⟩
  · rintro ⟨before, after, hcandidates, hp, hbefore⟩
    exact ⟨hp, before, after, hcandidates, by simpa using hbefore⟩

theorem find?_eq_none_iff : find? t root = none ↔ ∀ p ∈ candidates root, t.isFile p = false := by
  simp [find?]

/-- **Loading gives** what is read of the files. -/
theorem load_eq_ok_iff : load t root = .ok file ↔ Loads t root file := by
  unfold load
  constructor
  · intro h
    split at h
    · rename_i hnone
      obtain rfl := Except.ok.inj h
      exact .absent (find?_eq_none_iff.mp hnone)
    · rename_i p hp
      split at h
      · cases h
      · rename_i bytes hbytes
        cases hf : ofBytes p bytes with
        | error e =>
          rw [hf] at h
          cases h
        | ok f =>
          rw [hf] at h
          obtain rfl := Except.ok.inj h
          exact .present (find?_eq_some_iff.mp hp) hbytes hf
  · intro h
    cases h with
    | absent hnone => rw [find?_eq_none_iff.mpr hnone]
    | present hp hbytes hf =>
      simp only [find?_eq_some_iff.mpr hp, hbytes, hf]
      rfl

end FileConfig

/-! ### Precedence -/

/-- **Each value comes from the first of its sources**: the command line, a variable that is not blank, the
configuration file, a default. -/
structure FollowsPrecedence (root : Path) (overrides : Overrides) (env : Environment)
    (file : Option (Path × FileConfig)) (c : Config) : Prop where
  project : IsFirst
    [overrides.project, env.set? projectVariable, FileConfig.stated file (·.project)] c.project
  /-- The project is neither blank nor a dot segment, and holds no separator, whatever its source. -/
  usable : Text.isBlankText c.project = false ∧ (c.project ≠ "." ∧ c.project ≠ "..") ∧
    '/' ∉ c.project.toList ∧ '\\' ∉ c.project.toList
  owner : IsFirst [overrides.owner, FileConfig.stated file (·.owner), some "mozilla"] c.owner
  platform : IsFirst
    [overrides.platform, FileConfig.stated file (·.platform), some "linux-x86_64"] c.platform
  buildDir : ∃ d, c.buildDir = root.join d ∧ IsFirst
    [overrides.buildDir, FileConfig.stated file (·.buildDir), some (.ofText "target/release")] d
  outputDir : ∃ d, c.outputDir = root.join d ∧ IsFirst
    [overrides.outputDir, FileConfig.stated file (·.outputDir), some (.ofText "")] d
  apiUrl : ∃ raw, TrimsTo raw c.apiUrl ∧ IsFirst
    [env.set? apiVariable, FileConfig.stated file (·.apiUrl), some "https://api.github.com"] raw
  proxyUrl : ∀ url, c.proxyUrl = some url ↔ ∃ raw, env.set? proxyVariable = some raw ∧ TrimsTo raw url
  configFile : c.configFile = file.map (·.1)

theorem checkProject_eq_ok_iff {name project : String} :
    checkProject name = .ok project ↔ project = name ∧ projectFault? name = none := by
  refine ⟨checkProject_eq_ok, ?_⟩
  rintro ⟨rfl, h⟩
  rw [checkProject, h]

/-- **What is resolved** is what follows the precedence. -/
theorem resolveWith_eq_ok_iff :
    resolveWith root overrides env file = .ok c ↔ FollowsPrecedence root overrides env file c := by
  constructor
  · intro h
    unfold resolveWith at h
    extract_lets given at h
    split at h
    · cases h
    rename_i name hname
    cases hproject : checkProject name with
    | error e =>
      rw [hproject] at h
      cases h
    | ok project =>
      rw [hproject] at h
      -- The configuration is known now, and each of its values is compared with its sources.
      obtain ⟨rfl, hfault⟩ := checkProject_eq_ok hproject
      obtain rfl := Except.ok.inj h
      refine ⟨?_, projectFault?_eq_none_iff.mp hfault, ?_, ?_, ?_, ?_, ?_, ?_, rfl⟩
      · rw [isFirst_three, ← FileConfig.stated_eq file rfl]
        exact hname
      · exact (FileConfig.isFirst_stated rfl).mpr rfl
      · exact (FileConfig.isFirst_stated rfl).mpr rfl
      · exact ⟨_, rfl, (FileConfig.isFirst_stated rfl).mpr rfl⟩
      · exact ⟨_, rfl, (FileConfig.isFirst_stated rfl).mpr rfl⟩
      · exact ⟨_, trimBase_eq_iff.mp rfl, (FileConfig.isFirst_stated rfl).mpr rfl⟩
      · intro url
        simp [trimBase_eq_iff]
  · intro h
    have hproject := isFirst_three.mp h.project
    have hcheck : checkProject c.project = .ok c.project :=
      checkProject_eq_ok_iff.mpr ⟨rfl, projectFault?_eq_none_iff.mpr h.usable⟩
    have howner := (FileConfig.isFirst_stated rfl).mp h.owner
    have hplatform := (FileConfig.isFirst_stated rfl).mp h.platform
    obtain ⟨buildDir, hbuildDir, hbuild⟩ := h.buildDir
    obtain ⟨outputDir, houtputDir, houtput⟩ := h.outputDir
    obtain ⟨apiUrl, hapiUrl, hapi⟩ := h.apiUrl
    have hproxyUrl : (env.set? proxyVariable).map trimBase = c.proxyUrl := by
      ext url
      simp [h.proxyUrl, trimBase_eq_iff]
    rw [← FileConfig.stated_eq file rfl] at hproject
    rw [FileConfig.isFirst_stated rfl] at hbuild houtput hapi
    simp only [resolveWith, hproject, hcheck, howner, hplatform, hbuild, houtput, hapi, hproxyUrl,
      ← hbuildDir, ← houtputDir, trimBase_eq_iff.mpr hapiUrl, ← h.configFile]
    rfl

theorem resolve_eq_ok_iff :
    resolve t root overrides env = .ok c ↔
      ∃ file, FileConfig.Loads t root file ∧ FollowsPrecedence root overrides env file c := by
  simp only [← resolveWith_eq_ok_iff, ← FileConfig.load_eq_ok_iff]
  unfold resolve
  cases hfile : FileConfig.load t root with
  | error e =>
    refine ⟨nofun, ?_⟩
    rintro ⟨_, h, -⟩
    cases h
  | ok file =>
    constructor
    · intro h
      exact ⟨file, rfl, h⟩
    · rintro ⟨_, h, hc⟩
      obtain rfl := Except.ok.inj h
      exact hc

/-! ### What the outcome depends on -/

/-- **The same sources**: trees that differ at most in files other than the one that is read, and
environments that differ at most in other variables. -/
structure SameSources (root : Path) (t t' : FileTree) (env env' : Environment) : Prop where
  shape : t.SameShape t'
  lookup_eq : ∀ p l f, FileConfig.IsChosen t root p → t.find p = .ok (.existing l (.file f)) →
    t'.lookup l = t.lookup l
  env_eq : ∀ name ∈ [projectVariable, proxyVariable, apiVariable], env' name = env name

/-- **Only the file that is read matters**, and it matters by what it holds. -/
theorem FileConfig.load_of_sameSources (h : SameSources root t t' env env') :
    load t' root = load t root := by
  have hfind : find? t' root = find? t root :=
    congrArg (List.find? · (candidates root)) (funext fun p => FileTree.isFile_of_sameShape h.shape p)
  rw [load, load, hfind]
  cases hp : find? t root with
  | none => rfl
  | some p =>
    have hchosen := find?_eq_some_iff.mp hp
    obtain ⟨l, f, hl⟩ := FileTree.isFile_iff.mp (List.find?_some hp)
    have hread := FileTree.read_of_sameShape h.shape hl (h.lookup_eq p l f hchosen hl)
    simp only [hread]

/-- **Only three variables matter.** -/
theorem resolveWith_of_sameSources (h : SameSources root t t' env env') :
    resolveWith root overrides env' file = resolveWith root overrides env file := by
  have hset : ∀ name ∈ [projectVariable, proxyVariable, apiVariable], env'.set? name = env.set? name := by
    intro name hname
    rw [Environment.set?, Environment.set?, h.env_eq name hname]
  have hproject := hset projectVariable (by simp)
  have hproxy := hset proxyVariable (by simp)
  have hapi := hset apiVariable (by simp)
  simp only [resolveWith, hproject, hproxy, hapi]

/-- **What resolving gives** by precedence, and what that depends on. -/
structure ResolvesByPrecedence (t : FileTree) (root : Path) (overrides : Overrides) (env : Environment)
    (out : Except Failure Config) : Prop where
  ok_iff : ∀ c, out = .ok c ↔
    ∃ file, FileConfig.Loads t root file ∧ FollowsPrecedence root overrides env file c
  /-- Other variables and what other files hold change neither a configuration nor a failure. -/
  unchanged : ∀ t' env', SameSources root t t' env env' → resolve t' root overrides env' = out

/-- **Resolving follows the precedence of the sources.** Whatever the files, the root, the command line and
the variables are: a configuration comes out exactly if the file that is read can be read and the first
name that is given can be used, and then each of its values comes from the first of its sources. The outcome,
be it a configuration or a failure, is the same with any other variables and with any contents of all files
but the one that is read. -/
theorem resolve_byPrecedence (t : FileTree) (root : Path) (overrides : Overrides) (env : Environment) :
    ResolvesByPrecedence t root overrides env (resolve t root overrides env) where
  ok_iff _ := resolve_eq_ok_iff
  unchanged t' env' h := by
    rw [resolve, resolve, FileConfig.load_of_sameSources h]
    cases FileConfig.load t root with
    | error e => rfl
    | ok file => exact resolveWith_of_sameSources h

namespace Sample

/-- The place of the second candidate in the working directory `w`. -/
def secondCandidate : Location := [[0x77], Utf8.encode ".relup.toml"]

/-- The working directory `w` with a configuration file, and with the given bytes in the second candidate. -/
def configured (second : Bytes) : FileTree :=
  FileTree.put
    { nodes := [([[0x77]], .folder), ([[0x77], Utf8.encode "relup.toml"],
        .file ⟨Utf8.encode "[release]\nproject = \"f\"\nowner = \"f\"\napi_url = \"http://f/\"\n", 0o644, 0⟩)]
      current := some [[0x77]]
      now := 1 }
    secondCandidate (.file ⟨second, 0o644, 0⟩)

/-- A blank project, and a variable that does not matter. -/
def blankProject (other : String) : Environment
  | "PROJECT_NAME" => some " "
  | "HOME" => some other
  | _ => none

/-- The owner is that of the command line, the rest that of the file or the default. -/
def fromFile : Config :=
  { project := "f", owner := "o", platform := "linux-x86_64", buildDir := .ofText "/w/target/release"
    outputDir := .ofText "/w/", apiUrl := "http://f", proxyUrl := none
    configFile := some (.ofText "/w/relup.toml") }

theorem configured_sameSources (second second' : Bytes) (other other' : String) :
    SameSources (.ofText "/w") (configured second) (configured second') (blankProject other)
      (blankProject other') where
  shape := by
    refine ⟨rfl, fun l => ?_⟩
    by_cases hl : l = secondCandidate
    · subst hl
      exact .inr ⟨_, _, FileTree.lookup_put_self (List.cons_ne_nil _ _) _ _,
        FileTree.lookup_put_self (List.cons_ne_nil _ _) _ _⟩
    · exact .inl ((FileTree.lookup_put_of_ne hl _ _).trans (FileTree.lookup_put_of_ne hl _ _).symm)
  lookup_eq := by
    intro p l f hp hl
    have hfirst : FileConfig.find? (configured second) (.ofText "/w") = some (.ofText "/w/relup.toml") :=
      rfl
    obtain rfl := Option.some.inj (hfirst.symm.trans (FileConfig.find?_eq_some_iff.mpr hp))
    have hfind : ((configured second).find (.ofText "/w/relup.toml")).map Found.location =
        .ok [[0x77], Utf8.encode "relup.toml"] := rfl
    rw [hl] at hfind
    obtain rfl : l = [[0x77], Utf8.encode "relup.toml"] := Except.ok.inj hfind
    rfl
  env_eq := by
    intro name hname
    simp only [List.mem_cons, List.not_mem_nil, or_false] at hname
    rcases hname with rfl | rfl | rfl <;> rfl

end Sample

/-- The sample is resolved by precedence, also with another second candidate and another variable. -/
theorem resolve_byPrecedence_sample :
    resolve (Sample.configured []) (.ofText "/w") ⟨none, some "o", none, none, none⟩
        (Sample.blankProject "x") = .ok Sample.fromFile ∧
      resolve (Sample.configured [0xFF]) (.ofText "/w") ⟨none, some "o", none, none, none⟩
        (Sample.blankProject "y") = .ok Sample.fromFile := by
  have hresolve : resolve (Sample.configured []) (.ofText "/w") ⟨none, some "o", none, none, none⟩
      (Sample.blankProject "x") = .ok Sample.fromFile := by
    decide +kernel
  have hsame := Sample.configured_sameSources [] [0xFF] "x" "y"
  exact ⟨hresolve, ((resolve_byPrecedence _ _ _ _).unchanged _ _ hsame).trans hresolve⟩

end ReleasePublisher
