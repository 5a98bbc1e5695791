import ReleasePublisher.Proofs.Publish.Credentials
import ReleasePublisher.Proofs.Release.Resolve
import ReleasePublisher.Proofs.Url.Endpoint

/-!
# Projects in requests

The name of a project is put into the address of its secret and of its repository. A name that is accepted
has no separators, but it may still have characters that mean something else in an address: then another
secret or another repository is asked for. Where it has none, it is one segment of the path, and no two
projects ask for the same.

## Main definitions

* `IsPlainName name`, `EndsVisibly name`: the name has no such characters
* `Config.IsServed c proxy`: an accepted configuration whose base addresses are hosts alone
* `Config.StatesProject c proxy token s`: how the project stands in its requests

## Main results

* `Config.IsServed.statesProject`: a project is one segment exactly if its name is plain
* `project_leaves_its_segment`: other accepted names are read as something else
-/

namespace ReleasePublisher

open Url

/-- **A plain name** has no character that is dropped from an address or ends its path, and no escape. -/
def IsPlainName (name : String) : Prop :=
  (∀ c ∈ name.toList, c ∉ ['\t', '\n', '\r', '?', '#']) ∧ statesEscape name.toList = false

/-- The last character is neither a blank nor a control character. -/
def EndsVisibly (name : String) : Prop :=
  ∀ c ∈ name.toList.getLast?, 0x20 < c.toNat

instance (name : String) : Decidable (IsPlainName name) :=
  inferInstanceAs (Decidable (_ ∧ _))

instance (name : String) : Decidable (EndsVisibly name) :=
  inferInstanceAs (Decidable (∀ c ∈ name.toList.getLast?, 0x20 < c.toNat))

/-- Taking user info out of an address leaves what follows the authority. -/
theorem tail_takeCredentials (u : Url) : (takeCredentials u).1.tail = u.tail := by
  rcases takeCredentials_cases u with h | ⟨username, password, h⟩
  · rw [h]
  · rw [h]
    rfl

/-- What is asked of the characters of a plain name, in the terms of the reader of addresses. -/
theorem isPlainName_iff {name : String} :
    IsPlainName name ↔ (∀ c ∈ name.toList, isKept c = true) ∧
      (∀ c ∈ name.toList, endsPath c = false) ∧ statesEscape name.toList = false := by
  have hchar : ∀ c : Char, c ∉ ['\t', '\n', '\r', '?', '#'] ↔
      isKept c = true ∧ endsPath c = false := by
    intro c
    simp only [isKept, endsPath, List.mem_cons, List.not_mem_nil, or_false, not_or, Bool.and_eq_true,
      bne_iff_ne, ne_eq, Bool.or_eq_false_iff, beq_eq_false_iff_ne, and_assoc]
  unfold IsPlainName
  simp only [hchar]
  exact ⟨fun h => ⟨fun c hc => (h.1 c hc).1, fun c hc => (h.1 c hc).2, h.2⟩,
    fun h => ⟨fun c hc => ⟨h.1 c hc, h.2.1 c hc⟩, h.2.2⟩⟩

theorem endsVisibly_iff {name : String} :
    EndsVisibly name ↔ ∀ c ∈ name.toList.getLast?, isEdge c = false := by
  unfold EndsVisibly
  simp only [isEdge, decide_eq_false_iff_not, Nat.not_le]

/-! ### Endpoints -/

/-- The segments before a project in the path of its secret. -/
def secretBefore : List (List Char) :=
  ["secrets".toList, "v1".toList, "secret".toList, "project".toList, "relman".toList]

/-- The segment behind it. -/
def secretAfter : List (List Char) :=
  ["deploy".toList]

/-- The segments before a project in the path of its repository. -/
def repositoryBefore (owner : String) : List (List Char) :=
  ["repos".toList, owner.toList]

/-- Letters and digits make a segment. -/
theorem isSegment_of_isAlphanum {s : List Char} (h : ∀ c ∈ s, c.isAlphanum = true) : IsSegment s := by
  have hchar : ∀ c : Char, c.isAlphanum = true →
      c.toNat < 0x80 ∧ pathSet c = false ∧ isSlash true c = false ∧ c ≠ '.' ∧ c ≠ '%' := by
    intro c hc
    have hlt : c.toNat < 0x80 := toNat_lt_of_isSchemeChar (by simp [isSchemeChar, hc])
    exact ⟨hlt, Utf8.forall_char (P := fun c => c.isAlphanum = true →
      pathSet c = false ∧ isSlash true c = false ∧ c ≠ '.' ∧ c ≠ '%') (by decide +kernel) c hlt hc⟩
  have hdecode : decodeDots s = s := by
    refine decodeDots_of_not_statesEscape (statesEscape_of_not_mem fun hin => ?_)
    exact (hchar _ (h _ hin)).2.2.2.2 rfl
  have hdot : ∀ ds : List Char, s ≠ '.' :: ds := by
    rintro ds rfl
    exact (hchar _ (h _ List.mem_cons_self)).2.2.2.1 rfl
  constructor
  · intro c hc
    exact ⟨(hchar c (h c hc)).1, (hchar c (h c hc)).2.1⟩
  · intro c hc
    exact (hchar c (h c hc)).2.2.1
  · rw [isSingleDot, hdecode]
    exact beq_eq_false_iff_ne.mpr (hdot _)
  · rw [isDoubleDot, hdecode]
    exact beq_eq_false_iff_ne.mpr (hdot _)

theorem isSegment_secret : (∀ s ∈ secretBefore, IsSegment s) ∧ ∀ s ∈ secretAfter, IsSegment s := by
  have hall : (secretBefore ++ secretAfter).all (·.all Char.isAlphanum) = true := by decide
  have hsegment : ∀ s ∈ secretBefore ++ secretAfter, IsSegment s := fun s hs =>
    isSegment_of_isAlphanum (List.all_eq_true.mp (List.all_eq_true.mp hall s hs))
  exact List.forall_mem_append.mp hsegment

theorem isSegment_repository {owner : String} (h : ∀ c ∈ owner.toList, c.isAlphanum = true) :
    ∀ s ∈ repositoryBefore owner, IsSegment s := by
  have hrepos : IsSegment "repos".toList :=
    isSegment_of_isAlphanum (List.all_eq_true.mp (by decide))
  simp only [repositoryBefore, List.forall_mem_cons]
  exact ⟨hrepos, isSegment_of_isAlphanum h, by simp⟩

/-- The address of a secret is that of an endpoint at the base. -/
theorem secretUrl_eq (proxy project : String) :
    ∃ endpoint, secretUrl proxy project = Text.trimEndChar '/' proxy ++ endpoint ∧
      endpoint.toList = '/' :: withName secretBefore project.toList secretAfter := by
  refine ⟨"/secrets/v1/secret/project/relman/" ++ project ++ "/deploy", ?_, ?_⟩
  · simp only [secretUrl, String.append_assoc]
  · simp only [String.toList_append, List.append_assoc]
    rfl

theorem repositoryEndpoint_eq_withName (owner name : String) :
    (HostClient.repositoryEndpoint owner name).toList =
      '/' :: withName (repositoryBefore owner) name.toList [] := by
  rw [HostClient.repositoryEndpoint_eq_cons, withName, repositoryBefore]
  simp

/-! ### Configurations -/

namespace Config

/-- **A configuration that was accepted**, for two base addresses that are hosts alone and an owner of
letters and digits. -/
structure IsServed (c : Config) (proxy : String) : Prop where
  resolved : ∃ t root overrides env, resolve t root overrides env = .ok c
  proxyUrl : c.proxyUrl = some proxy
  proxy : IsHostBase proxy
  api : IsHostBase c.apiUrl
  owner : ∀ ch ∈ c.owner.toList, ch.isAlphanum = true

/-- What is asked of the secret proxy for a project. -/
def secretErrand (c : Config) (proxy : String) : Errand :=
  .secret proxy c.project

/-- What is asked of the release host for the repository of a project. -/
def repositoryErrand (c : Config) (token : DeployToken) : Errand :=
  .host (.ofBase c.apiUrl token) (.repository c.owner c.project)

/-- **How a project stands in the requests** for its secret and its repository, from `s`. -/
structure StatesProject (c : Config) (proxy : String) (token : DeployToken) (s : Surroundings) :
    Prop where
  /-- It is one segment of the path of its secret exactly if its name is plain. -/
  secret : ∀ q, ((c.secretErrand proxy).requests s).head? = some q →
    (q.url.tail.Names secretBefore c.project.toList secretAfter ↔ IsPlainName c.project)
  /-- In that of its repository, where nothing follows it, its end must be visible too. -/
  repository : ∀ q, ((c.repositoryErrand token).requests s).head? = some q →
    (q.url.tail.Names (repositoryBefore c.owner) c.project.toList [] ↔
      IsPlainName c.project ∧ EndsVisibly c.project)
  /-- The secret is asked for where the proxy can be reached and the address is not too long. -/
  asks_secret : s.network.isReachable = true →
    (∀ u, Url.parse (secretUrl proxy c.project) = .ok u → isSendable u = true) →
    ∃ q, ((c.secretErrand proxy).requests s).head? = some q
  /-- So is the repository, with a token that can be sent. -/
  asks_repository : s.network.isReachable = true → isHeaderValue token.value = true →
    (∀ u, Url.parse (Text.trimEndChar '/' c.apiUrl ++
      HostClient.repositoryEndpoint c.owner c.project) = .ok u → isSendable u = true) →
    ∃ q, ((c.repositoryErrand token).requests s).head? = some q
  /-- Two projects with plain names do not ask for the same secret. -/
  secrets_apart : ∀ (c' : Config) (proxy' : String) (s' : Surroundings), c'.IsServed proxy' →
    IsPlainName c.project → IsPlainName c'.project → c.project ≠ c'.project → ∀ q q' : Request,
    ((c.secretErrand proxy).requests s).head? = some q →
    ((c'.secretErrand proxy').requests s').head? = some q' → q.url.path ≠ q'.url.path
  /-- Nor for the same repository, where the ends of the names are visible. -/
  repositories_apart : ∀ (c' : Config) (proxy' : String) (token' : DeployToken) (s' : Surroundings),
    c'.IsServed proxy' →
    IsPlainName c.project ∧ EndsVisibly c.project →
    IsPlainName c'.project ∧ EndsVisibly c'.project → c.project ≠ c'.project → ∀ q q' : Request,
    ((c.repositoryErrand token).requests s).head? = some q →
    ((c'.repositoryErrand token').requests s').head? = some q' → q.url.path ≠ q'.url.path

namespace IsServed

variable {c : Config} {proxy : String}

/-- What is known of the characters of a project. -/
theorem project_facts (h : c.IsServed proxy) :
    (∀ ch ∈ c.project.toList, isSlash true ch = false) ∧ c.project.toList ≠ [] ∧
      c.project.toList ≠ ['.'] ∧ c.project.toList ≠ ['.', '.'] := by
  obtain ⟨t, root, overrides, env, hresolve⟩ := h.resolved
  obtain ⟨hblank, ⟨hone, htwo⟩, hslash, hback⟩ :=
    projectFault?_eq_none_iff.mp (projectFault?_of_resolve hresolve)
  refine ⟨fun ch hch => ?_, fun hnil => ?_, fun heq => ?_, fun heq => ?_⟩
  · have hne : ch ≠ '/' ∧ ch ≠ '\\' :=
      ⟨fun heq => hslash (heq ▸ hch), fun heq => hback (heq ▸ hch)⟩
    simp [isSlash, hne]
  · simp [Text.isBlankText, hnil] at hblank
  · exact hone (String.toList_inj.mp heq)
  · exact htwo (String.toList_inj.mp heq)

/-- **In the path of its secret** a project is one segment exactly if its name is plain. -/
theorem names_secret (h : c.IsServed proxy) {s : Surroundings} {q : Request}
    (hq : ((c.secretErrand proxy).requests s).head? = some q) :
    q.url.tail.Names secretBefore c.project.toList secretAfter ↔ IsPlainName c.project := by
  obtain ⟨d, hd, hmakes, -⟩ := Errand.makes_of_head? hq
  obtain rfl := Except.ok.inj hd
  obtain ⟨u, hu, -, hurl, -⟩ := hmakes.eq
  obtain ⟨endpoint, haddress, hend⟩ := secretUrl_eq proxy c.project
  obtain ⟨hslash, hne, hdots⟩ := h.project_facts
  rw [haddress] at hu
  rw [hurl, tail_takeCredentials, h.proxy.names_iff isSegment_secret.1 isSegment_secret.2 hslash hne
    hdots hend hu, isPlainName_iff]
  simp [secretAfter]

/-- **In the path of its repository** a project is one segment exactly if its name is plain and ends
visibly. -/
theorem names_repository (h : c.IsServed proxy) {token : DeployToken} {s : Surroundings} {q : Request}
    (hq : ((c.repositoryErrand token).requests s).head? = some q) :
    q.url.tail.Names (repositoryBefore c.owner) c.project.toList [] ↔
      IsPlainName c.project ∧ EndsVisibly c.project := by
  obtain ⟨d, hd, hmakes, -⟩ := Errand.makes_of_head? hq
  obtain rfl := Except.ok.inj hd
  obtain ⟨u, hu, -, hurl, -⟩ := hmakes.eq
  obtain ⟨hslash, hne, hdots⟩ := h.project_facts
  rw [hurl, tail_takeCredentials, h.api.names_iff (isSegment_repository h.owner) (by simp) hslash hne
    hdots (repositoryEndpoint_eq_withName c.owner c.project) hu, isPlainName_iff, endsVisibly_iff]
  simp only [forall_const]
  exact and_right_comm

/-- **A project is one segment exactly if its name is plain.** Whatever the files, the answers, the
command line, the variables and the configuration file are: a project that is accepted, for base
addresses that are hosts alone, stands in the requests for its secret and its repository as one segment
that states its name, without a query, exactly where its name has no character that means something else
there. No two such projects ask for the same. -/
theorem statesProject (h : c.IsServed proxy) (token : DeployToken) (s : Surroundings) :
    c.StatesProject proxy token s where
  secret q hq := h.names_secret hq
  repository q hq := h.names_repository hq
  asks_secret hreach hfits := by
    obtain ⟨endpoint, haddress, hend⟩ := secretUrl_eq proxy c.project
    obtain ⟨u, hu, hscheme⟩ := h.proxy.exists_parse_append hend
    rw [← haddress] at hu
    have hc : s.network.connects u = true := by simp [Network.connects, hreach, hscheme]
    exact Errand.exists_head? rfl hu hc rfl (hfits u hu) (by rintro p ⟨⟩)
  asks_repository hreach htoken hfits := by
    obtain ⟨u, hu, hscheme⟩ := h.api.exists_parse_append
      (repositoryEndpoint_eq_withName c.owner c.project)
    have hc : s.network.connects u = true := by simp [Network.connects, hreach, hscheme]
    refine Errand.exists_head? rfl hu hc ?_ (hfits u hu) (by rintro p ⟨⟩)
    exact HostErrand.headers_ofBase c.apiUrl htoken
  secrets_apart c' proxy' s' h' hplain hplain' hne q q' hq hq' hpath := by
    have hnames := (h.names_secret hq).mpr hplain
    have hnames' := (h'.names_secret hq').mpr hplain'
    exact hne (String.toList_inj.mp (hnames.injective hnames' rfl hpath))
  repositories_apart c' proxy' token' s' h' hplain hplain' hne q q' hq hq' hpath := by
    have hnames := (h.names_repository hq).mpr hplain
    have hnames' := (h'.names_repository hq').mpr hplain'
    exact hne (String.toList_inj.mp (hnames.injective hnames' rfl hpath))

end IsServed

end Config

/-! ### Names that are accepted -/

/-- The variables of the sample, for a project. -/
def Sample.variables (project : String) : Environment
  | "PROJECT_NAME" => some project
  | "TASKCLUSTER_PROXY_URL" => some "http://s:81"
  | "GITHUB_API_URL" => some "http://h"
  | _ => none

/-- The configuration that they give. -/
def Sample.resolved (project : String) : Config :=
  { project := project, owner := "mozilla", platform := "linux-x86_64",
    buildDir := .ofText "/w/target/release", outputDir := .ofText "/w/", apiUrl := "http://h",
    proxyUrl := some "http://s:81", configFile := none }

namespace Config.IsServed

/-- The sample project `a-1` is one segment in both of its requests. -/
theorem statesProject_sample :
    (Sample.resolved "a-1").IsServed "http://s:81" ∧ IsPlainName "a-1" ∧
      (Sample.resolved "a-1").StatesProject "http://s:81" ⟨"t"⟩ (Sample.surroundings []) := by
  have hserved : (Sample.resolved "a-1").IsServed "http://s:81" := by
    have hresolve : resolve Sample.files (.ofText "/w") ⟨none, none, none, none, none⟩
        (Sample.variables "a-1") = .ok (Sample.resolved "a-1") := by decide +kernel
    have hread : ∃ u, Url.parse "http://s:81" = .ok u :=
      ⟨⟨['h', 't', 't', 'p'], [], none, some ['s'], some 81, .segments [[]], none, none⟩, by
        decide +kernel⟩
    have hreadApi : ∃ u, Url.parse "http://h" = .ok u :=
      ⟨⟨['h', 't', 't', 'p'], [], none, some ['h'], none, .segments [[]], none, none⟩, by
        decide +kernel⟩
    exact
      { resolved := ⟨_, _, _, _, hresolve⟩
        proxyUrl := rfl
        proxy := ⟨⟨"s:81".toList, by decide, by simp [isEdge, endsAuthority, isSlash, endsPath]⟩,
          hread⟩
        api := ⟨⟨"h".toList, by decide, by simp [isEdge, endsAuthority, isSlash, endsPath]⟩,
          hreadApi⟩
        owner := by simp [Sample.resolved] }
  have hplain : IsPlainName "a-1" := ⟨by simp, by decide⟩
  exact ⟨hserved, hplain, hserved.statesProject ⟨"t"⟩ (Sample.surroundings [])⟩

end Config.IsServed

/-- **An accepted name may leave its segment.** What stands behind a question mark is read as a query,
and what stands behind a number sign is not sent: so this project asks for the repository of another. -/
theorem project_leaves_its_segment :
    (∀ project ∈ ["a?b", "a#b", "a"], resolve Sample.files (.ofText "/w")
        ⟨none, none, none, none, none⟩ (Sample.variables project) = .ok (Sample.resolved project)) ∧
      (((Sample.resolved "a?b").secretErrand "http://s:81").requests (Sample.surroundings [])).map
          (fun q => (q.url.path, q.url.query)) =
        [(.segments (secretBefore ++ ["a".toList]), some "b/deploy".toList)] ∧
      (((Sample.resolved "a#b").repositoryErrand ⟨"t"⟩).requests (Sample.surroundings [])).map
          (·.url.target.text) = ["http://h/repos/mozilla/a"] ∧
      (((Sample.resolved "a").repositoryErrand ⟨"t"⟩).requests (Sample.surroundings [])).map
          (·.url.target.text) = ["http://h/repos/mozilla/a"] := by
  decide +kernel

end ReleasePublisher
