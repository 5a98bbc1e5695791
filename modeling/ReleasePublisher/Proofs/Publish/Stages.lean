import ReleasePublisher.Proofs.Publish.Errands

/-!
# The stages of publishing

Publishing as a machine: a stage is entered in the surroundings that the stage before left, and it
fails or leads to more progress. A run of the machine keeps a record of each stage that it enters.

What a stage sends is told by the errand that it runs, with all that the stages before have obtained. So
the record of a stage names the address that its call is made to, and a stage that succeeds has made its
call: the request that the draft of the errand makes was sent, and the answer in the end was accepted.

## Main definitions

* `Stage`, `Stage.call? o`: the stages, and the calls that some of them make
* `Progress`, `Progress.step`: what has been obtained so far, and the next stage
* `Progress.errand? c o`: the errand that the next stage runs, if it makes a call
* `Run.Does k m`: a step sends what the errand sends, and fails as it does
* `StageRecord`, `Journey`: what is kept of a stage, and a run of the machine
* `StageRecord.IsGenuine c o r`: what is kept of a stage is what it did

## Main results

* `publish_journey`: publishing is a run of the machine
* `Progress.step_ahead`, `Progress.step_sends`, `Progress.step_does`: what one stage does
* `Progress.opens_of_step`, `Progress.succeeded_of_step`, `Progress.step_isGenuine`: the record of a stage
* `Journey.stages_prefix`, `Journey.network_eq`, `Journey.isGenuine`: what a whole run does
-/

namespace ReleasePublisher

/-- The stages of publishing. -/
inductive Stage where
  | configuration
  | packaging
  | secret
  | repository
  | latestRelease
  /-- The archive is attached to the release, unless it is a dry run. -/
  | attachment
  deriving DecidableEq, Repr

/-- All stages, in their order. -/
def Stage.all : List Stage :=
  [configuration, packaging, secret, repository, latestRelease, attachment]

/-- The call that a stage makes. -/
def Stage.call? (o : PublishOptions) : Stage → Option Call
  | configuration => none
  | packaging => none
  | secret => some .secret
  | repository => some .repository
  | latestRelease => some .latestRelease
  | attachment => if o.dryRun then none else some .upload

/-- The calls that a run makes if nothing fails. -/
def plannedCalls (o : PublishOptions) : List Call :=
  [.secret, .repository, .latestRelease] ++ if o.dryRun then [] else [.upload]

theorem filterMap_call?_all (o : PublishOptions) :
    Stage.all.filterMap (Stage.call? o) = plannedCalls o := by
  cases h : o.dryRun <;> simp [Stage.all, List.filterMap, Stage.call?, plannedCalls, h]

/-- What has been obtained so far. -/
inductive Progress where
  | begun
  | checked
  | packed (archive : PackagedArchive)
  | admitted (archive : PackagedArchive) (token : DeployToken)
  | located (archive : PackagedArchive) (token : DeployToken) (repository : Repository)
  | resolved (archive : PackagedArchive) (token : DeployToken) (repository : Repository)
      (release : Release)
  | done (report : PublishReport)

/-- Looks up the latest release, and tells of it. -/
def resolveRelease (client : HostClient) (repository : Repository) : Run Release := do
  let release ← client.latestRelease repository
  Run.note
    { level := .info, target := publishTarget, message := "latest release resolved"
      values := [("repository", repository.fullName), ("tag", release.tag),
        ("release_id", toString release.id)] }
  return release

namespace Progress

/-- The stages that are still ahead. -/
def ahead : Progress → List Stage
  | begun => Stage.all
  | checked => Stage.all.drop 1
  | packed _ => Stage.all.drop 2
  | admitted _ _ => Stage.all.drop 3
  | located _ _ _ => Stage.all.drop 4
  | resolved _ _ _ _ => Stage.all.drop 5
  | done _ => []

/-- The next stage. -/
def step [Gzip.Writer] (c : Config) (o : PublishOptions) : Progress → Run Progress
  | begun => do
    let _ ← Run.ofExcept c.requireProxy
    return checked
  | checked => do
    let archive ← package c
    return packed archive
  | packed archive => do
    let token ← fetchConfiguredToken c
    return admitted archive token
  | admitted archive token => do
    let repository ← (HostClient.ofBase c.apiUrl token).repository c.owner c.project
    return located archive token repository
  | located archive token repository => do
    let release ← resolveRelease (HostClient.ofBase c.apiUrl token) repository
    return resolved archive token repository release
  | resolved archive token repository release => do
    let asset ← uploadUnlessDry (HostClient.ofBase c.apiUrl token) release archive o
    return done
      { project := c.project, repository := repository.fullName, releaseTag := release.tag,
        releaseUrl := release.pageUrl, archive, asset, dryRun := o.dryRun }
  | done report => return done report

/-- The errand that the next stage runs, if it makes a call. The secret is asked for where a proxy is
configured, and nothing is uploaded in a dry run. -/
def errand? (c : Config) (o : PublishOptions) : Progress → Option Errand
  | packed _ => c.proxyUrl.map fun proxy => .secret proxy c.project
  | admitted _ token => some (.host (.ofBase c.apiUrl token) (.repository c.owner c.project))
  | located _ token repository => some (.host (.ofBase c.apiUrl token) (.latestRelease repository))
  | resolved archive token _ release =>
    if o.dryRun then none
    else some (.host (.ofBase c.apiUrl token) (.upload release archive octetStream o.showsProgress))
  | _ => none

end Progress

/-- What is kept of a stage that was entered. -/
structure StageRecord where
  stage : Stage
  /-- What the stages before have obtained. -/
  progress : Progress
  before : Surroundings
  after : Surroundings
  /-- How the stage failed, if it did. -/
  failure : Option Failure

/-- The requests that were sent in a stage. -/
def StageRecord.requests (r : StageRecord) : List Request :=
  r.after.network.sent.drop r.before.network.sent.length

/-- **A run of the machine** from some progress: it enters the stages ahead one after the other, each
in the surroundings that the one before left, up to the report or to the first failure. -/
inductive Journey [Gzip.Writer] (c : Config) (o : PublishOptions) :
    Progress → Surroundings → List StageRecord → Except Failure PublishReport → Surroundings → Prop
  | done {report s} : Journey c o (.done report) s [] (.ok report) s
  | failed {p s g gs e s'} : p.ahead = g :: gs → p.step c o s = (.error e, s') →
      Journey c o p s [⟨g, p, s, s', some e⟩] (.error e) s'
  | entered {p s g gs q s₁ rs out s'} : p.ahead = g :: gs → p.step c o s = (.ok q, s₁) →
      Journey c o q s₁ rs out s' → Journey c o p s (⟨g, p, s, s₁, none⟩ :: rs) out s'

variable {c : Config} {o : PublishOptions}

/-- A run that makes `m` as its first stage and goes on with `f` is a run of the machine if `f` is. -/
theorem Journey.of_bind [Gzip.Writer] {α : Type} {p : Progress} {g : Stage} {gs : List Stage}
    {x : Run PublishReport} {m : Run α} {next : α → Progress} {f : α → Run PublishReport}
    (hx : x = m >>= f) (hp : p.ahead = g :: gs) (hm : p.step c o = m >>= fun a => pure (next a))
    (hf : ∀ a s, ∃ rs, Journey c o (next a) s rs (f a s).1 (f a s).2) (s : Surroundings) :
    ∃ rs, Journey c o p s rs (x s).1 (x s).2 := by
  subst hx
  rcases h : m s with ⟨e | a, s₁⟩
  · have hs : p.step c o s = (.error e, s₁) := by rw [hm, Run.bind_of_error h]
    rw [Run.bind_of_error h]
    exact ⟨_, .failed hp hs⟩
  · have hs : p.step c o s = (.ok (next a), s₁) := by rw [hm, Run.bind_of_ok h]; rfl
    obtain ⟨rs, hrs⟩ := hf a s₁
    rw [Run.bind_of_ok h]
    exact ⟨_, .entered hp hs hrs⟩

/-- **Publishing is a run of the machine.** -/
theorem publish_journey [Gzip.Writer] (c : Config) (o : PublishOptions) (s : Surroundings) :
    ∃ rs, Journey c o .begun s rs (publish c o s).1 (publish c o s).2 := by
  refine Journey.of_bind (m := Run.ofExcept c.requireProxy) rfl rfl rfl (fun _ => ?_) s
  refine Journey.of_bind (m := package c) rfl rfl rfl fun archive => ?_
  refine Journey.of_bind (m := fetchConfiguredToken c) rfl rfl rfl fun token => ?_
  refine Journey.of_bind (m := HostClient.repository _ _ _) rfl rfl rfl fun repository => ?_
  refine Journey.of_bind (m := resolveRelease _ _) (by rw [resolveRelease, Run.bind_assoc]; rfl)
    rfl rfl fun release => ?_
  exact Journey.of_bind (m := uploadUnlessDry _ _ _ _) rfl rfl rfl fun asset s => ⟨[], .done⟩

/-! ### What one stage does -/

/-- What a stage sends: its call, if it makes one, and nothing else. -/
def Stage.Sends {α : Type} (o : PublishOptions) (g : Stage) (m : Run α) : Prop :=
  match g.call? o with
  | some k => Run.MakesCall k.method m
  | none => Run.Keeps Surroundings.network m

theorem uploadUnlessDry_sends (client : HostClient) (release : Release) (archive : PackagedArchive) :
    Stage.attachment.Sends o (uploadUnlessDry client release archive o) := by
  cases hd : o.dryRun with
  | true =>
    simp only [Stage.Sends, Stage.call?, uploadUnlessDry, hd, if_true]
    exact .bind (.note_network _) fun _ => .pure _
  | false =>
    simp only [Stage.Sends, Stage.call?, uploadUnlessDry, hd]
    exact .bind (client.uploadAsset_makesCall _ _ _ _) fun _ =>
      .bind (.note_network _) fun _ => .pure _

theorem Stage.Sends.bind_pure {α β : Type} {g : Stage} {m : Run α} {next : α → β}
    (h : g.Sends o m) : g.Sends o (m >>= fun a => pure (next a)) := by
  unfold Sends at h ⊢
  split at h
  · exact .bind h fun _ => .pure _
  · exact .bind h fun _ => .pure _

/-- **A step runs an errand**: it sends what the errand sends, and fails exactly as the errand does. -/
def Run.Does {α : Type} (k : Errand) (m : Run α) : Prop :=
  ∀ s, (m s).2.network = (k.run s).2.network ∧ ∀ e, (m s).1 = .error e ↔ (k.run s).1 = .error e

namespace Run.Does

variable {α β : Type} {k : Errand} {m : Run α}

theorem run (k : Errand) : Run.Does k k.run := fun _ => ⟨rfl, fun _ => Iff.rfl⟩

/-- What follows the errand neither fails nor sends anything. -/
theorem bind {f : α → Run β} (hm : Run.Does k m)
    (hf : ∀ a s, (∃ b, (f a s).1 = .ok b) ∧ (f a s).2.network = s.network) :
    Run.Does k (m >>= f) := by
  intro s
  obtain ⟨hn, he⟩ := hm s
  rcases h : m s with ⟨e | a, s₁⟩
  · rw [h] at hn he
    rw [Run.bind_of_error h]
    refine ⟨hn, fun e' => Iff.trans ?_ (he e')⟩
    simp
  · obtain ⟨⟨b, hb⟩, hfn⟩ := hf a s₁
    rw [h] at hn he
    rw [Run.bind_of_ok h]
    refine ⟨hfn.trans hn, fun e' => Iff.trans ?_ (he e')⟩
    simp [hb]

theorem bind_pure (next : α → β) (hm : Run.Does k m) : Run.Does k (m >>= fun a => pure (next a)) :=
  hm.bind fun _ _ => ⟨⟨_, rfl⟩, rfl⟩

theorem bind_note (record : α → LogRecord) (next : α → β) (hm : Run.Does k m) :
    Run.Does k (m >>= fun a => Run.note (record a) >>= fun _ => pure (next a)) :=
  hm.bind fun _ _ => ⟨⟨_, rfl⟩, rfl⟩

end Run.Does

namespace Progress

variable [Gzip.Writer] {p : Progress} {g : Stage} {gs : List Stage}

/-- A stage leads to the ones behind it. -/
theorem step_ahead {q : Progress} {s s' : Surroundings} (hp : p.ahead = g :: gs)
    (h : p.step c o s = (.ok q, s')) : q.ahead = gs := by
  cases p with
  | done => cases hp
  | _ =>
    obtain ⟨a, s₁, -, h⟩ := Run.bind_ok h
    cases h
    cases hp
    rfl

/-- **A stage sends its call**, if it makes one, and nothing else. -/
theorem step_sends (hp : p.ahead = g :: gs) : g.Sends o (p.step c o) := by
  cases p with
  | done => cases hp
  | begun => cases hp; exact .bind (.ofExcept _) fun _ => .pure _
  | checked => cases hp; exact .bind (package_keeps_network c) fun _ => .pure _
  | packed => cases hp; exact .bind (fetchConfiguredToken_makesCall c) fun _ => .pure _
  | admitted => cases hp; exact .bind (HostClient.repository_makesCall _ _ _) fun _ => .pure _
  | located =>
    cases hp
    exact .bind (.bind (HostClient.latestRelease_makesCall _ _) fun _ =>
      .bind (.note_network _) fun _ => .pure _) fun _ => .pure _
  | resolved => cases hp; exact (uploadUnlessDry_sends _ _ _).bind_pure

/-- **A stage runs its errand**, if it has one. -/
theorem step_does {k : Errand} (hk : p.errand? c o = some k) : Run.Does k (p.step c o) := by
  cases p with
  | begun => cases hk
  | checked => cases hk
  | done => cases hk
  | packed archive =>
    obtain ⟨proxy, hproxy, rfl⟩ := Option.map_eq_some_iff.mp hk
    have hrun : Run.Does (.secret proxy c.project) (fetchConfiguredToken c) := by
      rw [← Errand.run_secret hproxy]
      exact .run _
    exact .bind_pure _ hrun
  | admitted archive token =>
    obtain rfl := Option.some.inj hk
    exact .bind_pure _ (.run _)
  | located archive token repository =>
    obtain rfl := Option.some.inj hk
    refine .bind_pure _ ?_
    unfold resolveRelease
    exact .bind_note _ _ (.run (.host _ (.latestRelease repository)))
  | resolved archive token repository release =>
    simp only [errand?] at hk
    split at hk
    · cases hk
    · rename_i hd
      obtain rfl := Option.some.inj hk
      refine .bind_pure _ ?_
      simp only [uploadUnlessDry, hd]
      exact .bind_note _ _ (.run (.host _ (.upload release archive octetStream o.showsProgress)))

/-- A stage that makes a call has an errand for it. Only without a proxy it has none, and fails. -/
theorem errand?_of_call? {k : Call} (hp : p.ahead = g :: gs) (hk : g.call? o = some k) :
    (∃ e, p.errand? c o = some e ∧ e.call = k) ∨
      ∀ s, ∃ e, p.step c o s = (.error e, s) := by
  cases p with
  | done => cases hp
  | begun => cases hp; cases hk
  | checked => cases hp; cases hk
  | packed archive =>
    cases hp
    cases hk
    cases hproxy : c.proxyUrl with
    | some proxy => exact .inl ⟨_, by rw [errand?, hproxy]; rfl, rfl⟩
    | none =>
      refine .inr fun s => ⟨.config (.missingVariable proxyVariable), ?_⟩
      simp only [step, fetchConfiguredToken, Config.requireProxy, hproxy]
      rfl
  | admitted => cases hp; cases hk; exact .inl ⟨_, rfl, rfl⟩
  | located => cases hp; cases hk; exact .inl ⟨_, rfl, rfl⟩
  | resolved =>
    cases hp
    simp only [Stage.call?] at hk
    split at hk
    · cases hk
    · rename_i hd
      cases hk
      exact .inl ⟨_, by rw [errand?, if_neg hd], rfl⟩

end Progress

/-- **The record tells what the stage did**: it sent its call, if it makes one, and nothing else. -/
structure StageRecord.IsGenuine (c : Config) (o : PublishOptions) (r : StageRecord) : Prop where
  network_eq : r.after.network = r.before.network.after r.requests
  isCall : ∀ k, r.stage.call? o = some k → IsCall k.method r.before.network r.requests
  silent : r.stage.call? o = none → r.requests = []
  /-- What was sent first is what the draft of the errand makes, at the address of the draft. -/
  opens : ∀ q, r.requests.head? = some q →
    ∃ k, r.progress.errand? c o = some k ∧ k.Opens r.before.files q
  /-- A call that succeeded sent a request, and what was answered in the end was accepted. -/
  succeeded : r.failure = none → ∀ call, r.stage.call? o = some call →
    r.requests ≠ [] ∧ ∃ k a, r.progress.errand? c o = some k ∧ k.call = call ∧
      k.outcome r.before = .ok a
  /-- A call that failed ended as its errand did. -/
  failed : ∀ e k, r.failure = some e → r.progress.errand? c o = some k →
    k.outcome r.before = .error e

/-! ### The record of a stage -/

theorem StageRecord.requests_of_after {r : StageRecord} {rs : List Request}
    (h : r.after.network = r.before.network.after rs) : r.requests = rs := by
  simp [requests, h]

namespace Progress

variable [Gzip.Writer] {p : Progress} {g : Stage} {gs : List Stage} {s s' : Surroundings}
  {r : Except Failure Progress} {failure : Option Failure}

/-- **What a stage sends**, as its record tells it: the requests of its call, if it makes one. -/
theorem step_requests (hp : p.ahead = g :: gs) (h : p.step c o s = (r, s'))
    (failure : Option Failure) :
    ∃ rs, StageRecord.requests ⟨g, p, s, s', failure⟩ = rs ∧ s'.network = s.network.after rs ∧
      (∀ call, g.call? o = some call → IsCall call.method s.network rs) ∧
      (g.call? o = none → rs = []) := by
  have hsends := step_sends (c := c) (o := o) hp
  cases hcall : g.call? o with
  | none =>
    have hkeeps : Run.Keeps Surroundings.network (p.step c o) := by
      simpa only [Stage.Sends, hcall] using hsends
    have hn : s'.network = s.network.after [] := by
      have hn := hkeeps s
      rw [h] at hn
      rw [Network.after_nil, ← hn]
    exact ⟨[], StageRecord.requests_of_after hn, hn, nofun, fun _ => rfl⟩
  | some call =>
    have hmakes : Run.MakesCall call.method (p.step c o) := by
      simpa only [Stage.Sends, hcall] using hsends
    obtain ⟨rs, hrs, hn⟩ := hmakes s
    rw [h] at hn
    refine ⟨rs, StageRecord.requests_of_after hn, hn, fun call' hcall' => ?_, nofun⟩
    obtain rfl := Option.some.inj hcall'
    exact hrs

/-- The requests of a stage are those of the errand that it runs. -/
theorem requests_of_errand? {k : Errand} (hk : p.errand? c o = some k)
    (h : p.step c o s = (r, s')) (g : Stage) (failure : Option Failure) :
    StageRecord.requests ⟨g, p, s, s', failure⟩ = k.requests s := by
  have hn := (step_does hk s).1
  rw [h] at hn
  rw [StageRecord.requests, Errand.requests, ← hn]

/-- A stage fails as the errand that it runs. -/
theorem error_iff_of_errand? {k : Errand} (hk : p.errand? c o = some k)
    (h : p.step c o s = (r, s')) (e : Failure) : r = .error e ↔ k.outcome s = .error e := by
  have he := (step_does hk s).2 e
  rwa [h, k.run_eq_outcome s] at he

/-- What a stage sends first is what its errand asks for. -/
theorem opens_of_step (hp : p.ahead = g :: gs) (h : p.step c o s = (r, s')) {q : Request}
    (hq : (StageRecord.requests ⟨g, p, s, s', failure⟩).head? = some q) :
    ∃ k, p.errand? c o = some k ∧ k.Opens s.files q := by
  obtain ⟨rs, hrs, -, -, hsilent⟩ := step_requests hp h failure
  cases hcall : g.call? o with
  | none =>
    rw [hrs, hsilent hcall] at hq
    cases hq
  | some call =>
    rcases errand?_of_call? (c := c) hp hcall with ⟨k, hk, -⟩ | hfails
    · rw [requests_of_errand? hk h] at hq
      exact ⟨k, hk, Errand.opens_of_head? hq⟩
    · -- Without a proxy nothing is sent.
      obtain ⟨e, he⟩ := hfails s
      obtain ⟨-, rfl⟩ := Prod.mk.inj (h.symm.trans he)
      rw [StageRecord.requests_of_after s'.network.after_nil.symm] at hq
      cases hq

/-- **A stage that succeeds has made its call**: it sent something, and its errand succeeded. -/
theorem succeeded_of_step {q : Progress} {call : Call} (hp : p.ahead = g :: gs)
    (hcall : g.call? o = some call) (h : p.step c o s = (.ok q, s')) :
    StageRecord.requests ⟨g, p, s, s', failure⟩ ≠ [] ∧
      ∃ k a, p.errand? c o = some k ∧ k.call = call ∧ k.outcome s = .ok a := by
  rcases errand?_of_call? (c := c) hp hcall with ⟨k, hk, hkcall⟩ | hfails
  · cases ho : k.outcome s with
    | error e => cases (error_iff_of_errand? hk h e).mpr ho
    | ok a =>
      refine ⟨?_, k, a, hk, hkcall, ho⟩
      rw [requests_of_errand? hk h]
      exact Errand.requests_ne_nil ((k.run_eq_outcome s).trans ho)
  · -- Without a proxy the stage fails.
    obtain ⟨e, he⟩ := hfails s
    cases h.symm.trans he

/-- **The record of a stage is genuine.** -/
theorem step_isGenuine (hp : p.ahead = g :: gs) (h : p.step c o s = (r, s'))
    (hfailure : ∀ e, failure = some e ↔ r = .error e) :
    StageRecord.IsGenuine c o ⟨g, p, s, s', failure⟩ := by
  obtain ⟨rs, hrs, hn, hcalls, hsilent⟩ := step_requests hp h failure
  refine ⟨hrs.symm ▸ hn, hrs.symm ▸ hcalls, hrs.symm ▸ hsilent, fun q => opens_of_step hp h,
    fun hnone call hcall => ?_, fun e k he hk => ?_⟩
  · cases r with
    | error e => cases hnone.symm.trans ((hfailure e).mpr rfl)
    | ok q => exact succeeded_of_step hp hcall h
  · exact (error_iff_of_errand? hk h e).mp ((hfailure e).mp he)

end Progress

/-! ### What a whole run does -/

namespace Journey

variable [Gzip.Writer] {p : Progress} {s s' : Surroundings} {rs : List StageRecord}
  {out : Except Failure PublishReport}

/-- **The stages are entered in their order**, each once. -/
theorem stages_prefix (h : Journey c o p s rs out s') : rs.map (·.stage) <+: p.ahead := by
  induction h with
  | done => exact List.nil_prefix
  | failed hp _ => rw [hp]; exact ⟨_, rfl⟩
  | entered hp hs _ ih =>
    rw [hp]
    exact List.cons_prefix_cons.mpr ⟨rfl, Progress.step_ahead hp hs ▸ ih⟩

/-- A run succeeds only if all stages were entered. -/
theorem stages_eq {report : PublishReport} (h : Journey c o p s rs (.ok report) s') :
    rs.map (·.stage) = p.ahead := by
  generalize ho : Except.ok report = out at h
  induction h with
  | done => rfl
  | failed => cases ho
  | entered hp hs _ ih => rw [hp, List.map_cons, ih ho, Progress.step_ahead hp hs]

theorem isGenuine (h : Journey c o p s rs out s') : ∀ r ∈ rs, r.IsGenuine c o := by
  induction h with
  | done => simp
  | failed hp hs => simpa using Progress.step_isGenuine hp hs (by simp)
  | entered hp hs _ ih =>
    exact List.forall_mem_cons.mpr ⟨Progress.step_isGenuine hp hs (by simp), ih⟩

/-- **The requests of a run** are those of its stages, one stage after the other. -/
theorem network_eq (h : Journey c o p s rs out s') :
    s'.network = s.network.after (rs.flatMap (·.requests)) := by
  -- By induction on the run, with the record of each stage.
  have hgenuine := h.isGenuine
  induction h with
  | done => simp
  | failed => simpa using (hgenuine _ List.mem_cons_self).network_eq
  | entered _ _ _ ih =>
    obtain ⟨hr, hrs⟩ := List.forall_mem_cons.mp hgenuine
    rw [ih hrs, hr.network_eq, Network.after_after, List.flatMap_cons]

/-- **A stage is entered only after those before it succeeded.** -/
theorem failure_of_past (h : Journey c o p s rs out s') {past future : List StageRecord}
    {r : StageRecord} (hr : rs = past ++ r :: future) : ∀ x ∈ past, x.failure = none := by
  induction h generalizing past with
  | done => simp at hr
  | failed =>
    obtain rfl : past = [] := by cases past <;> simp_all
    simp
  | entered _ _ _ ih =>
    cases past with
    | nil => simp
    | cons x past =>
      obtain ⟨rfl, hrs⟩ := List.cons.inj hr
      exact List.forall_mem_cons.mpr ⟨rfl, ih hrs⟩

/-- A run succeeds only if no stage failed. -/
theorem failure_of_ok {report : PublishReport} (h : Journey c o p s rs (.ok report) s') :
    ∀ r ∈ rs, r.failure = none := by
  generalize ho : Except.ok report = out at h
  induction h with
  | done => simp
  | failed => cases ho
  | entered _ _ _ ih => exact List.forall_mem_cons.mpr ⟨rfl, ih ho⟩

/-- **A run fails as its last stage does.** -/
theorem failure_of_error {e : Failure} (h : Journey c o p s rs (.error e) s') :
    ∃ past last, rs = past ++ [last] ∧ last.failure = some e := by
  generalize ho : Except.error e = out at h
  induction h with
  | done => cases ho
  | failed =>
    cases ho
    exact ⟨[], _, rfl, rfl⟩
  | entered _ _ _ ih =>
    obtain ⟨past, last, rfl, hl⟩ := ih ho
    exact ⟨_ :: past, last, rfl, hl⟩

end Journey

end ReleasePublisher
