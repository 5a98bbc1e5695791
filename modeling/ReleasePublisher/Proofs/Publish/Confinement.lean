import ReleasePublisher.Proofs.Http.Authorization
import ReleasePublisher.Proofs.Publish.Errands
import ReleasePublisher.Proofs.Publish.UploadRequest
import ReleasePublisher.Proofs.Url.Base

/-!
# Where the deploy token goes

The deploy token is told to the release host, and in the upload to the host of the address that the
release states for uploads. It is never told where it is asked for. Wherever an answer leads, the token
does not go along to another host or port, and does not return from there.

## Main definitions

* `Stage.TokenHost c s api`: the addresses that may learn the token in a stage
* `Progress.rest? c`: what is left of the part before the upload

## Main results

* `Progress.step_isConfined`: one stage tells the token only there
* `publish_confines_token`: a whole run does
* `token_leaves_malformed_base`: a base that is no address itself may lead the token elsewhere
-/

namespace ReleasePublisher

open Run

/-- **The addresses that may learn the token** in a stage of a run from `s`, where the base address of the
release host is `api`. -/
def Stage.TokenHost [Gzip.Writer] (c : Config) (s : Surroundings) (api : Url) : Stage → Url → Prop
  | repository, u => api.sameOrigin u = true
  | latestRelease, u => api.sameOrigin u = true
  | attachment, u =>
    ∃ x s₁ base, rehearse c s = (.ok x, s₁) ∧
      Url.parse (beforeTemplate x.release.uploadUrl) = .ok base ∧ base.sameOrigin u = true
  | _, _ => False

/-! ### The calls -/

/-- A step tells a bearer token to addresses with `may` only. -/
def Run.Confines {α : Type} (may : Url → Prop) (m : Run α) : Prop :=
  SendsWith (fun _ => IsConfined may) m

namespace Run.Confines

variable {α β : Type} {may : Url → Prop}

theorem of_keeps {m : Run α} (h : Keeps Surroundings.network m) : Confines may m :=
  SendsWith.of_keeps (fun _ => .nil may) h

theorem request {d : Draft}
    (h : ∀ token u v, "Bearer " ++ token ∈ d.headers.values "authorization" →
      Url.parse d.address = .ok u → isWebScheme u = true → u.sameOrigin v = true → may v) :
    Confines may (Run.request d) := fun s =>
  send_isConfined s.network h

theorem bind {m : Run α} {f : α → Run β} (hm : Confines may m)
    (hf : ∀ a, Keeps Surroundings.network (f a)) : Confines may (m >>= f) :=
  SendsWith.bind hm hf

theorem keeps_bind {m : Run α} {f : α → Run β} (hm : Keeps Surroundings.network m)
    (hf : ∀ a s s₁, m s = (.ok a, s₁) → Confines may (f a)) : Confines may (m >>= f) :=
  SendsWith.keeps_bind (fun _ => .nil may) hm hf

end Run.Confines

/-- **The question for the token** carries none. -/
theorem fetchConfiguredToken_confines (c : Config) :
    Confines (fun _ => False) (fetchConfiguredToken c) := by
  refine .keeps_bind (.ofExcept _) fun proxy _ _ _ => ?_
  refine .keeps_bind (.note_network _) fun _ _ _ _ => ?_
  refine .bind (.request fun token u v ht => ?_) fun _ => ?_
  · simp [Headers.values] at ht
  · exact .bind (.ofExcept _) fun _ => .bind (.note_network _) fun _ => .pure _

namespace HostClient

variable {apiUrl : String} {api : Url}

/-- **Looking something up** tells the token to the host of the base address. -/
theorem lookup_confines (hapi : Url.parse apiUrl = .ok api) (token : DeployToken) {endpoint : String}
    {more : List Char} (hend : endpoint.toList = '/' :: more) :
    Confines (api.sameOrigin · = true) (Run.request ((ofBase apiUrl token).lookup endpoint)) := by
  refine .request fun _ u v _ hu hweb hv => ?_
  exact Url.sameOrigin_trans (Url.sameOrigin_of_parse_append hend hapi hu hweb) hv

theorem repository_confines (hapi : Url.parse apiUrl = .ok api) (token : DeployToken)
    (owner name : String) :
    Confines (api.sameOrigin · = true) ((ofBase apiUrl token).repository owner name) := by
  have hlookup := lookup_confines hapi token (repositoryEndpoint_eq_cons owner name)
  exact .bind hlookup fun _ => .ofExcept _

theorem latestRelease_confines (hapi : Url.parse apiUrl = .ok api) (token : DeployToken)
    (repository : Repository) :
    Confines (api.sameOrigin · = true) ((ofBase apiUrl token).latestRelease repository) := by
  have hlookup := lookup_confines hapi token (latestEndpoint_eq_cons repository.fullName)
  exact .bind hlookup fun _ => .ofExcept _

/-- **An upload** tells the token to the host of the address that the release states for uploads. -/
theorem uploadAsset_confines (c : HostClient) (release : Release) (archive : PackagedArchive)
    (contentType : String) (showsProgress : Bool) :
    Confines (fun u => ∃ base, Url.parse (beforeTemplate release.uploadUrl) = .ok base ∧
      base.sameOrigin u = true) (c.uploadAsset release archive contentType showsProgress) := by
  refine .keeps_bind (.ofExcept _) fun url s s₁ hurl => ?_
  obtain ⟨base, hbase, rfl⟩ := uploadEndpoint_eq_ok (Prod.mk.inj hurl).1
  refine .keeps_bind .files fun t _ _ _ => .keeps_bind (.ofExcept _) fun node _ _ _ => ?_
  refine .keeps_bind (.note_network _) fun _ _ _ _ => .bind (.request ?_) fun _ => .ofExcept _
  intro _ u v _ hu hweb hv
  -- The client reads the address from its text again, and one more pair does not change its host.
  have hread : u = base.addPair "name" archive.fileName :=
    Url.eq_of_parse_text_addPair hbase hu hweb
  refine ⟨base, hbase, ?_⟩
  have hpair : base.sameOrigin u = true := by
    rw [hread]
    exact Url.sameOrigin_iff.mpr ⟨rfl, rfl⟩
  exact Url.sameOrigin_trans hpair hv

end HostClient

/-! ### The stages -/

section Stages

variable [Gzip.Writer]

/-- What is left of the part before the upload. -/
def Progress.rest? (c : Config) (p : Progress) : Option (Run Rehearsal) :=
  let resolved (archive : PackagedArchive) (token : DeployToken) (repository : Repository)
      (release : Release) : Run Rehearsal := Pure.pure { archive, token, repository, release }
  let located (archive : PackagedArchive) (token : DeployToken) (repository : Repository) :=
    resolveRelease (HostClient.ofBase c.apiUrl token) repository >>= resolved archive token repository
  let admitted (archive : PackagedArchive) (token : DeployToken) :=
    (HostClient.ofBase c.apiUrl token).repository c.owner c.project >>= located archive token
  let packed (archive : PackagedArchive) := fetchConfiguredToken c >>= admitted archive
  match p with
  | .begun => some (rehearse c)
  | .checked => some (package c >>= packed)
  | .packed archive => some (packed archive)
  | .admitted archive token => some (admitted archive token)
  | .located archive token repository => some (located archive token repository)
  | .resolved archive token repository release => some (resolved archive token repository release)
  | .done _ => none

variable {c : Config} {o : PublishOptions}

/-- What is left is a stage, and what is left behind it. -/
theorem Progress.rest?_of_bind {α : Type} {p : Progress} {s s₁ : Surroundings} {q : Progress}
    {m : Run α} {next : α → Progress} {f : α → Run Rehearsal}
    (hstep : p.step c o = m >>= fun a => Pure.pure (next a)) (hp : p.rest? c = some (m >>= f))
    (hf : ∀ a, (next a).rest? c = some (f a)) (h : p.step c o s = (.ok q, s₁)) :
    ∀ n ∈ q.rest? c, ∃ n' ∈ p.rest? c, n' s = n s₁ := by
  intro n hn
  rw [hstep] at h
  obtain ⟨a, s₂, ha, h⟩ := Run.bind_ok h
  obtain ⟨hq, rfl⟩ := Prod.mk.inj h
  obtain rfl := Except.ok.inj hq
  rw [hf a] at hn
  obtain rfl := Option.some.inj hn
  exact ⟨_, hp, Run.bind_of_ok ha⟩

/-- **A stage does the beginning of what is left.** -/
theorem Progress.rest?_step {p q : Progress} {s s₁ : Surroundings}
    (h : p.step c o s = (.ok q, s₁)) :
    ∀ m ∈ q.rest? c, ∃ m' ∈ p.rest? c, m' s = m s₁ := by
  cases p with
  | begun => exact rest?_of_bind rfl rfl (fun _ => rfl) h
  | checked => exact rest?_of_bind rfl rfl (fun _ => rfl) h
  | packed archive => exact rest?_of_bind rfl rfl (fun _ => rfl) h
  | admitted archive token => exact rest?_of_bind rfl rfl (fun _ => rfl) h
  | located archive token repository => exact rest?_of_bind rfl rfl (fun _ => rfl) h
  | resolved archive token repository release =>
    obtain ⟨asset, s₂, -, h⟩ := Run.bind_ok h
    obtain ⟨hq, -⟩ := Prod.mk.inj h
    obtain rfl := Except.ok.inj hq
    intro m hm
    cases hm
  | done report =>
    obtain ⟨hq, -⟩ := Prod.mk.inj h
    obtain rfl := Except.ok.inj hq
    intro m hm
    cases hm

/-- **A stage tells the token** only to the addresses that may learn it then. -/
theorem Progress.step_isConfined {api : Url} (hapi : Url.parse c.apiUrl = .ok api) {p : Progress}
    {g : Stage} {gs : List Stage} (hp : p.ahead = g :: gs) {s₀ s : Surroundings}
    (hrest : ∀ m ∈ p.rest? c, rehearse c s₀ = m s) :
    ∃ rs, IsConfined (g.TokenHost c s₀ api) rs ∧
      (p.step c o s).2.network = s.network.after rs := by
  cases p with
  | done => cases hp
  | begun =>
    cases hp
    have hstep : Confines (fun _ => False) (Progress.begun.step c o) :=
      .of_keeps (.bind (.ofExcept _) fun _ => .pure _)
    exact hstep s
  | checked =>
    cases hp
    have hstep : Confines (fun _ => False) (Progress.checked.step c o) :=
      .of_keeps (.bind (package_keeps_network c) fun _ => .pure _)
    exact hstep s
  | packed archive =>
    cases hp
    have hstep : Confines (fun _ => False) ((Progress.packed archive).step c o) :=
      .bind (fetchConfiguredToken_confines c) fun _ => .pure _
    exact hstep s
  | admitted archive token =>
    cases hp
    have hstep : Confines (api.sameOrigin · = true) ((Progress.admitted archive token).step c o) :=
      .bind (HostClient.repository_confines hapi token c.owner c.project) fun _ => .pure _
    exact hstep s
  | located archive token repository =>
    cases hp
    have hstep : Confines (api.sameOrigin · = true)
        ((Progress.located archive token repository).step c o) :=
      .bind (.bind (HostClient.latestRelease_confines hapi token repository) fun _ =>
        .bind (.note_network _) fun _ => .pure _) fun _ => .pure _
    exact hstep s
  | resolved archive token repository release =>
    cases hp
    -- What the upload is told is what the part before it has found.
    have hrehearse : rehearse c s₀ = (.ok ⟨archive, token, repository, release⟩, s) :=
      hrest _ rfl
    have hstep : Confines (fun u => ∃ base,
        Url.parse (beforeTemplate release.uploadUrl) = .ok base ∧ base.sameOrigin u = true)
        ((Progress.resolved archive token repository release).step c o) := by
      refine .bind ?_ fun _ => .pure _
      cases hd : o.dryRun with
      | true =>
        simp only [uploadUnlessDry, hd, if_true]
        exact .of_keeps (.bind (.note_network _) fun _ => .pure _)
      | false =>
        simp only [uploadUnlessDry, hd]
        exact .bind (HostClient.uploadAsset_confines _ _ _ _ _) fun _ =>
          .bind (.note_network _) fun _ => .pure _
    obtain ⟨rs, hrs, hn⟩ := hstep s
    refine ⟨rs, hrs.mono fun u hu => ?_, hn⟩
    obtain ⟨base, hbase, horigin⟩ := hu
    exact ⟨_, s, base, hrehearse, hbase, horigin⟩

/-- **A run of the machine** tells the token in each stage only to the addresses that may learn it. -/
theorem Journey.isConfined {api : Url} (hapi : Url.parse c.apiUrl = .ok api) {p : Progress}
    {s₀ s s' : Surroundings} {records : List StageRecord} {out : Except Failure PublishReport}
    (h : Journey c o p s records out s') (hrest : ∀ m ∈ p.rest? c, rehearse c s₀ = m s) :
    ∀ r ∈ records, IsConfined (r.stage.TokenHost c s₀ api) r.requests := by
  have hrecord : ∀ {p : Progress} {g : Stage} {gs : List Stage} {s s₁ : Surroundings}
      {r : Except Failure Progress} {failure : Option Failure},
      p.ahead = g :: gs → p.step c o s = (r, s₁) → (∀ m ∈ p.rest? c, rehearse c s₀ = m s) →
      IsConfined (g.TokenHost c s₀ api) (StageRecord.requests ⟨g, p, s, s₁, failure⟩) := by
    intro p g gs s s₁ r failure hp hs hrest
    obtain ⟨rs, hrs, hn⟩ := Progress.step_isConfined (o := o) hapi hp hrest
    rw [hs] at hn
    have hsent : StageRecord.requests ⟨g, p, s, s₁, failure⟩ = rs := StageRecord.requests_of_after hn
    rw [hsent]
    exact hrs
  -- By induction on the run: what is left of the part before the upload, run from here, ends as that
  -- part does from the start.
  induction h with
  | done => simp
  | failed hp hs =>
    intro r hr
    obtain rfl := List.mem_singleton.mp hr
    exact hrecord hp hs hrest
  | entered hp hs _ ih =>
    refine List.forall_mem_cons.mpr ⟨hrecord hp hs hrest, ih fun m hm => ?_⟩
    obtain ⟨m', hm', heq⟩ := Progress.rest?_step hs m hm
    rw [hrest m' hm', heq]

/-- **The deploy token stays on its hosts.** Whatever the options, the files and the answers are, a run
whose base address is an address tells the token to the host and port of that address, and in the upload
to those of the address that the release states; it never tells it where it asks for it. Each stage
makes one chain of requests, and where that has left the host and port that it began on, the token is
told no more, also where it returns. -/
theorem publish_confines_token {c : Config} {api : Url} (hapi : Url.parse c.apiUrl = .ok api)
    (o : PublishOptions) (s : Surroundings) :
    ∃ records, Journey c o .begun s records (publish c o s).1 (publish c o s).2 ∧
      (publish c o s).2.network.sent = s.network.sent ++ records.flatMap (·.requests) ∧
      ∀ r ∈ records, r.IsGenuine c o ∧ IsConfined (r.stage.TokenHost c s api) r.requests := by
  obtain ⟨records, h⟩ := publish_journey c o s
  refine ⟨records, h, by rw [h.network_eq, Network.sent_after], fun r hr => ?_⟩
  refine ⟨h.isGenuine r hr, h.isConfined hapi ?_ r hr⟩
  rintro m ⟨⟩
  rfl

end Stages

/-! ### A release behind a detour -/

/-- The sample network, where the question for the repository is led to another host, with transport
security, and back. -/
def Sample.detour : Surroundings :=
  let script := (surroundings [assetAnswer]).network.script
  let redirects := [answer 302 [("location", "https://g/x")] "", answer 302 [("location", "http://h/y")] ""]
  { surroundings [] with
    network := { (surroundings []).network with script := script.take 1 ++ redirects ++ script.drop 1 } }

/-- The token does not go along on the detour, and does not return from it; later stages tell it again. -/
theorem publish_confines_token_sample :
    ∃ api s, s = Sample.detour ∧ Url.parse Sample.config.apiUrl = .ok api ∧
      (publish Sample.config ⟨false, false⟩ s).2.network.sent.map (·.authorizations) =
        [[], ["Bearer t"], [], [], ["Bearer t"], ["Bearer t"]] ∧
      ∃ records, Journey Sample.config ⟨false, false⟩ .begun s records
          (publish Sample.config ⟨false, false⟩ s).1 (publish Sample.config ⟨false, false⟩ s).2 ∧
        (publish Sample.config ⟨false, false⟩ s).2.network.sent =
          s.network.sent ++ records.flatMap (·.requests) ∧
        ∀ r ∈ records, r.IsGenuine Sample.config ⟨false, false⟩ ∧
          IsConfined (r.stage.TokenHost Sample.config s api) r.requests := by
  generalize hs : Sample.detour = s
  have hapi : Url.parse Sample.config.apiUrl =
      .ok ⟨['h', 't', 't', 'p'], [], none, some ['h'], none, .segments [[]], none, none⟩ := by
    decide +kernel
  have hsent : (publish Sample.config ⟨false, false⟩ s).2.network.sent.map (·.authorizations) =
      [[], ["Bearer t"], [], [], ["Bearer t"], ["Bearer t"]] := by
    subst hs
    decide +kernel
  exact ⟨_, s, rfl, hapi, hsent, publish_confines_token hapi ⟨false, false⟩ s⟩

/-- **A base that is no address** may become one with an endpoint behind it: the slashes before the host are
dropped with those at the end, and the first name of the endpoint is taken for the host. -/
theorem token_leaves_malformed_base :
    Url.parse "http://" = .error .emptyHost ∧
      ∃ q ∈ (publish { Sample.config with apiUrl := "http://" } ⟨false, false⟩
          (Sample.surroundings [Sample.assetAnswer])).2.network.sent,
        q.method = .get ∧ "Bearer t" ∈ q.authorizations ∧
          q.url.host = some ['r', 'e', 'p', 'o', 's'] := by
  decide +kernel

end ReleasePublisher
