import ReleasePublisher.Proofs.Http.Requests
import ReleasePublisher.Proofs.Run.Effects
import ReleasePublisher.Proofs.Url.Written

/-!
# Errands

Each call of publishing is an errand: it is turned into a draft, which may fail, the draft is sent once,
and the answer is judged. What an errand sends first is what its draft makes, and an errand that succeeds
has sent something.

## Main definitions

* `Call`: the calls that publishing makes
* `HostErrand`, `Errand`: the calls, with all that they are made from
* `Errand.draft`, `Errand.judge`, `Errand.run`: what an errand asks for, how it takes the answer, and both
* `Errand.outcome k s`: how an errand ends
* `Errand.requests k s`: what an errand sends
* `Errand.Opens k t q`: the request is the first one of an errand

## Main results

* `Errand.run_cases`, `Errand.run_eq_judge`: an errand ends before it is sent, or as its answer is judged
* `Errand.makes_of_head?`, `Errand.exists_head?`: the first request of an errand
* `Errand.opens_of_head?`, `Errand.requests_ne_nil`: its address, and that there is one
-/

namespace ReleasePublisher

/-- The calls that publishing makes. -/
inductive Call where
  | secret
  | repository
  | latestRelease
  | upload
  deriving DecidableEq, Repr

/-- The method of a call. -/
def Call.method : Call → Method
  | upload => .post
  | _ => .get

/-! ### Endpoints -/

theorem HostClient.repositoryEndpoint_eq_cons (owner name : String) :
    (repositoryEndpoint owner name).toList =
      '/' :: ("repos/".toList ++ owner.toList ++ "/".toList ++ name.toList) := by
  simp only [repositoryEndpoint, String.toList_append]
  rfl

theorem HostClient.latestEndpoint_eq_cons (fullName : String) :
    (latestEndpoint fullName).toList =
      '/' :: ("repos/".toList ++ fullName.toList ++ "/releases/latest".toList) := by
  simp only [latestEndpoint, String.toList_append]
  rfl

/-! ### Errands and their answers -/

/-- A step sends what a draft makes, unless there is none, and judges the answer. -/
def Run.Asks {α : Type} (draft : FileTree → Except Failure Draft)
    (judge : Response → Except Failure α) (m : Run α) : Prop :=
  ∀ s, match draft s.files with
    | .error e => (m s).1 = .error e ∧ (m s).2.network = s.network
    | .ok d => (m s).1 = ((send d s.network).1.mapError .http).bind judge ∧
        (m s).2.network = (send d s.network).2

/-- An errand to the release host. -/
inductive HostErrand where
  | repository (owner name : String)
  | latestRelease (found : Repository)
  | upload (release : Release) (archive : PackagedArchive) (contentType : String)
      (showsProgress : Bool)

/-- A call of publishing, with all that it is made from. -/
inductive Errand where
  | secret (proxy project : String)
  | host (client : HostClient) (errand : HostErrand)

/-- What an errand to the release host asks for, with the files as they are. -/
def HostErrand.draft (c : HostClient) : HostErrand → FileTree → Except Failure Draft
  | repository owner name, _ => .ok (c.lookup (HostClient.repositoryEndpoint owner name))
  | latestRelease found, _ => .ok (c.lookup (HostClient.latestEndpoint found.fullName))
  | upload release archive contentType showsProgress, t => do
    let url ← uploadEndpoint release.uploadUrl archive.fileName
    let node ← HostClient.openAsset archive.path t
    return c.uploadDraft url node archive.size contentType showsProgress

/-- The draft of an upload needs an address, and a file that can be opened. -/
theorem HostErrand.draft_upload_eq_ok_iff {c : HostClient} {t : FileTree} {release : Release}
    {archive : PackagedArchive} {contentType : String} {showsProgress : Bool} {d : Draft} :
    (upload release archive contentType showsProgress).draft c t = .ok d ↔
      ∃ url node, uploadEndpoint release.uploadUrl archive.fileName = .ok url ∧
        HostClient.openAsset archive.path t = .ok node ∧
        c.uploadDraft url node archive.size contentType showsProgress = d := by
  have hdraft : (upload release archive contentType showsProgress).draft c t =
      (uploadEndpoint release.uploadUrl archive.fileName).bind fun url =>
        (HostClient.openAsset archive.path t).bind fun node =>
          .ok (c.uploadDraft url node archive.size contentType showsProgress) := rfl
  rw [hdraft]
  cases uploadEndpoint release.uploadUrl archive.fileName with
  | error e => simp [Except.bind]
  | ok url =>
    cases HostClient.openAsset archive.path t with
    | error e => simp [Except.bind]
    | ok node => simp [Except.bind]

namespace Errand

/-- The call that an errand is. -/
def call : Errand → Call
  | secret _ _ => .secret
  | host _ (.repository _ _) => .repository
  | host _ (.latestRelease _) => .latestRelease
  | host _ (.upload _ _ _ _) => .upload

/-- What an errand brings back. -/
def Outcome : Errand → Type
  | secret _ _ => DeployToken
  | host _ (.repository _ _) => Repository
  | host _ (.latestRelease _) => Release
  | host _ (.upload _ _ _ _) => Asset

/-- What an errand asks for, with the files as they are. -/
def draft : Errand → FileTree → Except Failure Draft
  | secret proxy project, _ =>
    .ok { method := .get, address := secretUrl proxy project, headers := [], payload := none }
  | host c errand, t => errand.draft c t

/-- How the answer to an errand is taken. -/
def judge : (k : Errand) → Response → Except Failure k.Outcome
  | secret proxy project => DeployToken.ofResponse (secretUrl proxy project)
  | host _ (.repository owner name) => HostClient.repositoryOf owner name
  | host _ (.latestRelease repository) => HostClient.releaseOf repository
  | host _ (.upload _ archive _ _) => HostClient.assetOf archive.fileName

/-- Runs an errand. -/
def run : (k : Errand) → Run k.Outcome
  | secret proxy project => fetchToken proxy project
  | host c (.repository owner name) => c.repository owner name
  | host c (.latestRelease repository) => c.latestRelease repository
  | host c (.upload release archive contentType showsProgress) =>
    c.uploadAsset release archive contentType showsProgress

/-- **How an errand ends** from `s`: as its draft does, as the draft is sent, or as the answer is judged. -/
def outcome (k : Errand) (s : Surroundings) : Except Failure k.Outcome := do
  let d ← k.draft s.files
  let a ← (send d s.network).1.mapError .http
  k.judge a

/-- What an errand sends. -/
def requests (k : Errand) (s : Surroundings) : List Request :=
  (k.run s).2.network.sent.drop s.network.sent.length

/-! ### Runs -/

/-- Asking for the token sends one draft; that it was retrieved is only told. -/
theorem fetchToken_asks (proxy project : String) :
    (fetchToken proxy project).Asks (secret proxy project).draft
      (DeployToken.ofResponse (secretUrl proxy project)) := by
  intro s
  have hdraft : (secret proxy project).draft s.files =
      .ok ⟨.get, secretUrl proxy project, [], none⟩ := rfl
  rw [hdraft]
  dsimp only
  generalize hd : (⟨.get, secretUrl proxy project, [], none⟩ : Draft) = d
  simp only [fetchToken, Run.bind_apply, Run.note_apply, Run.request_apply, Run.ofExcept_apply, hd]
  cases (send d s.network).1 with
  | error e => exact ⟨rfl, rfl⟩
  | ok a =>
    simp only [mapError_ok, Except.bind]
    cases DeployToken.ofResponse (secretUrl proxy project) a with
    | error e => exact ⟨rfl, rfl⟩
    | ok token => exact ⟨rfl, rfl⟩

/-- A look-up sends one draft. -/
theorem lookup_asks {α : Type} (d : Draft) (judge : Response → Except Failure α) :
    (Run.request d >>= fun a => Run.ofExcept (judge a)).Asks (fun _ => .ok d) judge := by
  intro s
  rw [Run.ask_apply]
  exact ⟨rfl, rfl⟩

/-- An upload sends one draft, if it has an address and its file can be opened. -/
theorem uploadAsset_asks (c : HostClient) (release : Release) (archive : PackagedArchive)
    (contentType : String) (showsProgress : Bool) :
    (c.uploadAsset release archive contentType showsProgress).Asks
      ((HostErrand.upload release archive contentType showsProgress).draft c)
      (HostClient.assetOf archive.fileName) := by
  intro s
  have hdraft : (HostErrand.upload release archive contentType showsProgress).draft c s.files =
      (uploadEndpoint release.uploadUrl archive.fileName).bind fun url =>
        (HostClient.openAsset archive.path s.files).bind fun node =>
          .ok (c.uploadDraft url node archive.size contentType showsProgress) := rfl
  rw [hdraft, HostClient.uploadAsset, Run.bind_apply, Run.ofExcept_apply]
  cases uploadEndpoint release.uploadUrl archive.fileName with
  | error e => exact ⟨rfl, rfl⟩
  | ok url =>
    dsimp only
    rw [Run.bind_of_ok (Run.files_apply s), Run.bind_apply, Run.ofExcept_apply]
    cases HostClient.openAsset archive.path s.files with
    | error e => exact ⟨rfl, rfl⟩
    | ok node =>
      dsimp only
      rw [Run.bind_of_ok (Run.note_apply _ s), Run.ask_apply]
      dsimp only [Except.bind]
      exact ⟨rfl, rfl⟩

theorem run_asks (k : Errand) : k.run.Asks k.draft k.judge := by
  rcases k with ⟨proxy, project⟩ | ⟨c, ⟨owner, name⟩ | found | ⟨release, archive, type, shows⟩⟩
  · exact fetchToken_asks proxy project
  · exact lookup_asks _ _
  · exact lookup_asks _ _
  · show (c.uploadAsset release archive type shows).Asks
      ((HostErrand.upload release archive type shows).draft c) (HostClient.assetOf archive.fileName)
    -- Were the statement unfolded here, the draft would be computed.
    with_reducible exact uploadAsset_asks c release archive type shows

/-- Where a proxy is configured, it is asked. -/
theorem run_secret {c : Config} {proxy : String} (h : c.proxyUrl = some proxy) :
    (secret proxy c.project).run = fetchConfiguredToken c := by
  funext s
  have hproxy : Run.ofExcept c.requireProxy s = (.ok proxy, s) := by
    rw [Run.ofExcept_apply, Config.requireProxy, h]
  rw [fetchConfiguredToken, Run.bind_of_ok hproxy, run]

/-- **An errand** fails before anything is sent, or sends its draft and judges the answer. -/
theorem run_cases (k : Errand) (s : Surroundings) :
    (∃ e, k.draft s.files = .error e ∧ (k.run s).1 = .error e ∧
      (k.run s).2.network = s.network) ∨
    ∃ d, k.draft s.files = .ok d ∧
      (k.run s).1 = ((send d s.network).1.mapError .http).bind k.judge ∧
      (k.run s).2.network = (send d s.network).2 := by
  have hk := k.run_asks s
  cases hd : k.draft s.files with
  | error e =>
    rw [hd] at hk
    exact .inl ⟨e, rfl, hk⟩
  | ok d =>
    rw [hd] at hk
    exact .inr ⟨d, rfl, hk⟩

theorem run_eq_outcome (k : Errand) (s : Surroundings) : (k.run s).1 = k.outcome s := by
  rcases k.run_cases s with ⟨e, hd, hr, -⟩ | ⟨d, hd, hr, -⟩
  · rw [hr, outcome, hd]
    rfl
  · rw [hr, outcome, hd]
    rfl

/-- **An errand judges the final answer** to what it asked for. -/
theorem run_eq_judge {k : Errand} {s : Surroundings} {d : Draft} {a : Response} {n : Network}
    (hd : k.draft s.files = .ok d) (hsend : send d s.network = (.ok a, n)) :
    (k.run s).1 = k.judge a := by
  rcases k.run_cases s with ⟨e, he, -⟩ | ⟨d', hd', hr, -⟩
  · cases hd.symm.trans he
  · obtain rfl := Except.ok.inj (hd.symm.trans hd')
    rw [hr, hsend]
    rfl

/-! ### The first request -/

variable {k : Errand} {s : Surroundings} {q : Request}

/-- **What an errand sends first** is what its draft makes. -/
theorem makes_of_head? (h : (k.requests s).head? = some q) :
    ∃ d, k.draft s.files = .ok d ∧ d.Makes q ∧ s.network.connects q.url = true := by
  unfold requests at h
  rcases k.run_cases s with ⟨e, -, -, hn⟩ | ⟨d, hd, -, hn⟩
  · rw [hn, List.drop_length] at h
    cases h
  · rw [hn] at h
    obtain ⟨hq, hc⟩ := head?_of_send (Prod.eta _).symm h
    exact ⟨d, hd, hq, hc⟩

/-- **The request opens an errand**, with the files as they are: it is what the draft of the errand makes,
and goes to the address that the draft states, without the user info in it. -/
def Opens (k : Errand) (t : FileTree) (q : Request) : Prop :=
  ∃ d u, k.draft t = .ok d ∧ d.Makes q ∧ Url.parse d.address = .ok u ∧ q.url = (takeCredentials u).1

theorem opens_of_head? (h : (k.requests s).head? = some q) : k.Opens s.files q := by
  obtain ⟨d, hd, hq, -⟩ := makes_of_head? h
  obtain ⟨u, hu, -, hurl, -⟩ := hq.eq
  exact ⟨d, u, hd, hq, hu, hurl⟩

/-- **An errand that succeeds has sent something.** -/
theorem requests_ne_nil {a : k.Outcome} (h : (k.run s).1 = .ok a) : k.requests s ≠ [] := by
  unfold requests
  rcases k.run_cases s with ⟨e, -, hr, -⟩ | ⟨d, -, hr, hn⟩
  · cases h.symm.trans hr
  · rcases hsend : send d s.network with ⟨e | a, n⟩
    · rw [hr, hsend] at h
      cases h
    · obtain ⟨rs, hne, hnet⟩ := after_of_send_ok hsend
      rw [hn, hsend]
      dsimp only
      rw [hnet, Network.sent_after, List.drop_left]
      exact hne

/-- **An errand sends something** where its draft can be built for an address that can be reached, and its
body has the promised length. -/
theorem exists_head? {d : Draft} {u : Url} (hd : k.draft s.files = .ok d)
    (hu : Url.parse d.address = .ok u) (hc : s.network.connects u = true)
    (hheaders : d.headers.all (isHeaderValue ·.2) = true) (hfits : isSendable u = true)
    (hbody : ∀ p ∈ d.payload, ∃ pieces, p.pieces = .ok pieces ∧ p.length ≤ pieces.flatten.length) :
    ∃ q, (k.requests s).head? = some q := by
  have hweb : isWebScheme u = true := Network.isWebScheme_of_connects hc
  obtain ⟨host, hhost, hh⟩ := (Url.isNormal_of_parse hu (Url.hasAuthority_of_isWebScheme hweb)).host
  have hhas : u.hasHost = true := by
    simp [Url.hasHost, hhost, hh.ne_nil]
  obtain ⟨r, hr⟩ := Draft.build_of_parse hu hhas hheaders hweb hfits
  obtain ⟨u', hu', -, hurl, -⟩ := Draft.build_eq_ok hr
  obtain rfl := Except.ok.inj (hu.symm.trans hu')
  have hc : s.network.connects r.url = true := by
    rw [hurl, Network.connects_congr _ (scheme_takeCredentials u), hc]
  obtain ⟨q, hq, hqurl, hqbody⟩ := Draft.exists_makes hr hbody
  obtain ⟨rs, hrs⟩ := send_of_makes hq (hqurl ▸ hc) hqbody
  refine ⟨q, ?_⟩
  unfold requests
  rcases k.run_cases s with ⟨e, he, -⟩ | ⟨d', hd', -, hn⟩
  · cases hd.symm.trans he
  · obtain rfl := Except.ok.inj (hd.symm.trans hd')
    rw [hn, hrs, Network.sent_after, List.drop_left]
    rfl

end Errand

end ReleasePublisher
