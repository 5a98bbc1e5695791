import ReleasePublisher.Proofs.Run.Effects

/-!
# Failures before any work

Whether the configuration names a proxy, and what stands in the place of the binary, is looked at before
anything is written or asked for. No later step fails for such a reason, and so a run that does has left
everything as it was.

## Main definitions

* `Run.FailsWith P m`: a step fails only with failures that satisfy `P`
* `Failure.IsPreparatory e`: the failure tells of the configuration or of the binary
* `SurfacesEarly c s out s'`: how a run from `s` that ends with `out` in `s'` tells of them

## Main results

* `publish_of_noProxy`, `publish_of_sourceFault`: the runs that end before any work
* `publish_failsLater`: the other runs fail for other reasons
* `publish_surfacesEarly`: failures of the configuration and of the binary come before any work
-/

namespace ReleasePublisher

namespace Run

variable {α β : Type}

/-- **The step fails only with failures that satisfy `P`.** -/
def FailsWith (P : Failure → Prop) (m : Run α) : Prop :=
  ∀ s e s', m s = (.error e, s') → P e

namespace FailsWith

variable {P : Failure → Prop}

theorem pure (a : α) : FailsWith P (Pure.pure a) := by
  intro s e s' h
  cases h

theorem note (r : LogRecord) : FailsWith P (note r) := by
  intro s e s' h
  cases h

theorem files : FailsWith P files := by
  intro s e s' h
  cases h

theorem ofExcept {r : Except Failure α} (hr : ∀ e, r = .error e → P e) :
    FailsWith P (ofExcept r) := by
  intro s e s' h
  exact hr e (Prod.mk.inj h).1

theorem changeFiles {f : FileTree → FileTree × Except Failure α}
    (hf : ∀ t e, (f t).2 = .error e → P e) : FailsWith P (changeFiles f) := by
  intro s e s' h
  exact hf s.files e (Prod.mk.inj h).1

theorem request (d : Draft) (hP : ∀ f, P (.http f)) : FailsWith P (request d) := by
  intro s e s' h
  rw [request_apply] at h
  generalize (send d s.network).1 = out at h
  cases out with
  | ok a => cases h
  | error f =>
    obtain rfl := Except.error.inj (Prod.mk.inj h).1
    exact hP f

theorem bind {m : Run α} {f : α → Run β} (hm : FailsWith P m) (hf : ∀ a, FailsWith P (f a)) :
    FailsWith P (m >>= f) := by
  intro s e s' h
  rcases bind_cases h with ⟨e', hm', he⟩ | ⟨a, s₁, -, h⟩
  · obtain rfl := Except.error.inj he
    exact hm s e s' hm'
  · exact hf a s₁ e s' h

end FailsWith

end Run

open Run

/-- **The failure tells of the configuration or of the binary.** -/
def Failure.IsPreparatory : Failure → Prop
  | config _ => True
  | archive _ => True
  | _ => False

/-! ### The steps behind the first two -/

/-- A failure of another kind is not preparatory, whatever it was before. -/
theorem not_isPreparatory_of_mapError {ε α : Type} {r : Except ε α} {f : ε → Failure} {e : Failure}
    (hf : ∀ x, ¬ (f x).IsPreparatory) (h : r.mapError f = .error e) : ¬ e.IsPreparatory := by
  cases r with
  | ok a => cases h
  | error x =>
    obtain rfl := Except.error.inj h
    exact hf x

theorem not_isPreparatory_of_decoded {α : Type} {decode : Bytes → Except Json.Fault α} {r : Response}
    {e : Failure} (h : decoded decode r = .error e) : ¬ e.IsPreparatory := by
  unfold decoded at h
  split at h
  · cases h
  · obtain rfl := Except.error.inj h
    exact id

/-- **The answer to a call** is judged for other reasons. -/
theorem not_isPreparatory_of_answer {r : Response} {e : Failure} :
    (∀ url, DeployToken.ofResponse url r = .error e → ¬ e.IsPreparatory) ∧
    (∀ owner name, HostClient.repositoryOf owner name r = .error e → ¬ e.IsPreparatory) ∧
    (∀ repository, HostClient.releaseOf repository r = .error e → ¬ e.IsPreparatory) ∧
    ∀ fileName, HostClient.assetOf fileName r = .error e → ¬ e.IsPreparatory := by
  refine ⟨fun url h => ?_, fun owner name h => ?_, fun repository h => ?_, fun fileName h => ?_⟩
  · unfold DeployToken.ofResponse at h
    split at h
    · obtain rfl := Except.error.inj h
      exact id
    · split at h
      · obtain rfl := Except.error.inj h
        exact id
      · exact not_isPreparatory_of_mapError (fun _ => id) h
  · unfold HostClient.repositoryOf at h
    split at h
    · exact not_isPreparatory_of_decoded h
    · split at h <;> obtain rfl := Except.error.inj h <;> exact id
  · unfold HostClient.releaseOf at h
    split at h
    · exact not_isPreparatory_of_decoded h
    · split at h <;> obtain rfl := Except.error.inj h <;> exact id
  · unfold HostClient.assetOf at h
    split at h
    · exact not_isPreparatory_of_decoded h
    · split at h <;> obtain rfl := Except.error.inj h <;> exact id

/-- A step behind the first two fails for other reasons. -/
abbrev FailsLater {α : Type} (m : Run α) : Prop :=
  FailsWith (fun e => ¬ e.IsPreparatory) m

theorem digestFile_failsLater (t : FileTree) (p : Path) : FailsLater (Run.ofExcept (digestFile t p)) := by
  apply FailsWith.ofExcept
  intro e h
  unfold digestFile at h
  split at h
  · obtain rfl := Except.error.inj h
    exact id
  · dsimp only at h
    split at h
    · obtain rfl := Except.error.inj h
      exact id
    · cases h

/-- **Packing a binary that is in order** fails for other reasons. -/
theorem package_failsLater [Gzip.Writer] {c : Config} {s s' : Surroundings} {e : Failure}
    (hsource : sourceFault? s.files (Layout.ofConfig c) = none)
    (h : package c s = (.error e, s')) : ¬ e.IsPreparatory := by
  rw [package, bind_of_ok (files_apply s)] at h
  simp only [hsource] at h
  -- What follows writes the archive and reads it again.
  refine (?_ : FailsLater _) s e s' h
  refine .bind (.note _) fun _ => ?_
  refine .bind (.changeFiles fun t e => not_isPreparatory_of_mapError fun _ => id) fun _ => ?_
  refine .bind (.changeFiles fun t e => not_isPreparatory_of_mapError fun _ => id) fun _ => ?_
  refine .bind .files fun t => .bind (digestFile_failsLater _ _) fun _ => ?_
  exact .bind (.note _) fun _ => .pure _

theorem fetchConfiguredToken_failsLater {c : Config} {proxy : String} (h : c.proxyUrl = some proxy) :
    FailsLater (fetchConfiguredToken c) := by
  refine .bind (.ofExcept fun e he => ?_) fun proxy => ?_
  · rw [Config.requireProxy, h] at he
    cases he
  · refine .bind (.note _) fun _ => .bind (.request _ fun _ => id) fun r => ?_
    refine .bind (.ofExcept fun e => not_isPreparatory_of_answer.1 _) fun _ => ?_
    exact .bind (.note _) fun _ => .pure _

namespace HostClient

variable (c : HostClient)

theorem repository_failsLater (owner name : String) : FailsLater (c.repository owner name) :=
  .bind (.request _ fun _ => id) fun _ =>
    .ofExcept fun _ => not_isPreparatory_of_answer.2.1 _ _

theorem latestRelease_failsLater (r : Repository) : FailsLater (c.latestRelease r) :=
  .bind (.request _ fun _ => id) fun _ =>
    .ofExcept fun _ => not_isPreparatory_of_answer.2.2.1 _

theorem uploadAsset_failsLater (release : Release) (archive : PackagedArchive)
    (contentType : String) (showsProgress : Bool) :
    FailsLater (c.uploadAsset release archive contentType showsProgress) := by
  refine .bind (.ofExcept fun e h => ?_) fun url => .bind .files fun t => ?_
  · -- An address for uploads that cannot be read is a fault of the release.
    unfold uploadEndpoint at h
    split at h
    · cases h
    · obtain rfl := Except.error.inj h
      exact id
  · refine .bind (.ofExcept fun e => not_isPreparatory_of_mapError fun _ => id) fun node => ?_
    refine .bind (.note _) fun _ => .bind (.request _ fun _ => id) fun _ => ?_
    exact .ofExcept fun _ => not_isPreparatory_of_answer.2.2.2 _

end HostClient

theorem uploadUnlessDry_failsLater (client : HostClient) (release : Release)
    (archive : PackagedArchive) (o : PublishOptions) :
    FailsLater (uploadUnlessDry client release archive o) := by
  unfold uploadUnlessDry
  split
  · exact .bind (.note _) fun _ => .pure _
  · exact .bind (client.uploadAsset_failsLater _ _ _ _) fun _ => .bind (.note _) fun _ => .pure _

/-! ### Runs of publishing -/

variable {c : Config} {s s' : Surroundings}

/-- **Without a proxy** nothing is done. -/
theorem publish_of_noProxy [Gzip.Writer] (o : PublishOptions) (h : c.proxyUrl = none) :
    publish c o s = (.error (.config (.missingVariable proxyVariable)), s) := by
  rw [publish, Config.requireProxy, h]
  rfl

/-- **Where the binary is not in order** nothing is done either. -/
theorem publish_of_sourceFault [Gzip.Writer] {proxy : String} {e : Failure} (o : PublishOptions)
    (h : c.proxyUrl = some proxy) (he : sourceFault? s.files (Layout.ofConfig c) = some e) :
    publish c o s = (.error e, s) := by
  have hpackage : package c s = (.error e, s) := by
    rw [package, bind_of_ok (files_apply s)]
    simp only [he, fail_apply]
  rw [publish, Config.requireProxy, h, bind_of_ok (ofExcept_apply _ s), bind_of_error hpackage]

/-- **All other runs** fail for other reasons, if they do. -/
theorem publish_failsLater [Gzip.Writer] {proxy : String} {o : PublishOptions} {e : Failure}
    (h : c.proxyUrl = some proxy) (hsource : sourceFault? s.files (Layout.ofConfig c) = none)
    (hrun : publish c o s = (.error e, s')) : ¬ e.IsPreparatory := by
  rw [publish, Config.requireProxy, h, bind_of_ok (ofExcept_apply _ s)] at hrun
  rcases bind_cases hrun with ⟨e', hpackage, he⟩ | ⟨archive, s₁, -, hrun⟩
  · obtain rfl := Except.error.inj he
    exact package_failsLater hsource hpackage
  · refine (?_ : FailsLater _) s₁ e s' hrun
    refine .bind (fetchConfiguredToken_failsLater h) fun token => ?_
    refine .bind (HostClient.repository_failsLater _ _ _) fun repository => ?_
    refine .bind (HostClient.latestRelease_failsLater _ _) fun release => .bind (.note _) fun _ => ?_
    exact .bind (uploadUnlessDry_failsLater _ _ _ _) fun asset => .pure _

/-- **What stands in the place of the binary** decides whether a run with a proxy gets to its work. -/
theorem publish_binary_cases [Gzip.Writer] {proxy : String} (o : PublishOptions) (s : Surroundings)
    (h : c.proxyUrl = some proxy) {source : Path} (hp : c.buildDir.join (.ofText c.project) = source) :
    (∃ f, s.files.status source = .ok (.file f) ∧
      ∀ e, (publish c o s).1 = .error e → ¬ e.IsPreparatory) ∨
    (∃ n, s.files.status source = .ok n ∧ (∀ f, n ≠ .file f) ∧
      publish c o s = (.error (.archive (.sourceNotFile source)), s)) ∨
    (∃ x, s.files.status source = .error x ∧ x.isNotFound = true ∧
      publish c o s = (.error (.archive (.sourceNotFound source)), s)) ∨
    ∃ x context, s.files.status source = .error x ∧ x.isNotFound = false ∧
      publish c o s = (.error (.io x (some context)), s) := by
  subst hp
  cases hs : s.files.status (c.buildDir.join (.ofText c.project)) with
  | ok n =>
    by_cases hn : ∃ f, n = .file f
    · obtain ⟨f, rfl⟩ := hn
      have hfault : sourceFault? s.files (Layout.ofConfig c) = none := by
        rw [sourceFault?, Layout.ofConfig, hs]
      exact .inl ⟨f, rfl, fun e he => publish_failsLater h hfault (Prod.ext he rfl)⟩
    · have hne : ∀ f, n ≠ .file f := fun f hf => hn ⟨f, hf⟩
      have hfault : sourceFault? s.files (Layout.ofConfig c) =
          some (.archive (.sourceNotFile (c.buildDir.join (.ofText c.project)))) := by
        rw [sourceFault?, Layout.ofConfig, hs]
        cases n with
        | file f => exact absurd rfl (hne f)
        | _ => rfl
      exact .inr (.inl ⟨n, rfl, hne, publish_of_sourceFault o h hfault⟩)
  | error x =>
    refine .inr (.inr ?_)
    cases hx : x.isNotFound with
    | true =>
      refine .inl ⟨x, rfl, hx, publish_of_sourceFault o h ?_⟩
      rw [sourceFault?, Layout.ofConfig, hs]
      exact if_pos hx
    | false =>
      have hfault : sourceFault? s.files (Layout.ofConfig c) =
          some (.io x (some ("Failed to stat " ++ (Layout.ofConfig c).source.display))) := by
        rw [sourceFault?, Layout.ofConfig, hs]
        exact if_neg (by simp [hx])
      exact .inr ⟨x, _, rfl, hx, publish_of_sourceFault o h hfault⟩

/-- **Failures of configuration and binary come first** in a run from `s` that ends with `out` in
`s'`. -/
structure SurfacesEarly (c : Config) (s : Surroundings) (out : Except Failure PublishReport)
    (s' : Surroundings) : Prop where
  /-- A run that fails for such a reason has sent nothing and written nothing, not even a record. -/
  unchanged : ∀ e, out = .error e →
    (e.IsPreparatory ∨ ∃ x, s.files.status (c.buildDir.join (.ofText c.project)) = .error x) → s' = s
  missing_iff : (∃ name, out = .error (.config (.missingVariable name))) ↔ c.proxyUrl = none
  /-- No other failure of the configuration comes up. -/
  config : ∀ f, out = .error (.config f) → f = .missingVariable proxyVariable
  notFound_iff : c.proxyUrl ≠ none → ((∃ p, out = .error (.archive (.sourceNotFound p))) ↔
    ∃ x, s.files.status (c.buildDir.join (.ofText c.project)) = .error x ∧ x.isNotFound = true)
  notFile_iff : c.proxyUrl ≠ none → ((∃ p, out = .error (.archive (.sourceNotFile p))) ↔
    ∃ n, s.files.status (c.buildDir.join (.ofText c.project)) = .ok n ∧ ∀ f, n ≠ .file f)
  /-- Every other failure to examine the binary is told as it is. -/
  notExamined : c.proxyUrl ≠ none →
    ∀ x, s.files.status (c.buildDir.join (.ofText c.project)) = .error x → x.isNotFound = false →
      ∃ context, out = .error (.io x (some context))
  /-- What is told of the binary names it. -/
  names : ∀ f, out = .error (.archive f) →
    f = .sourceNotFound (c.buildDir.join (.ofText c.project)) ∨
      f = .sourceNotFile (c.buildDir.join (.ofText c.project))

/-- **Failures of the configuration and of the binary come before any work.** Whatever the
configuration, the files, the options and the answers are: a run that fails for such a reason, or because
the binary cannot be examined, has left files and network as they were. A run fails for want of a proxy
exactly where there is none; else it fails because the binary is missing, or is no regular file, exactly
where looking at its path through links shows that. -/
theorem publish_surfacesEarly [Gzip.Writer] (c : Config) (o : PublishOptions) (s : Surroundings) :
    SurfacesEarly c s (publish c o s).1 (publish c o s).2 := by
  cases h : c.proxyUrl with
  | none =>
    rw [publish_of_noProxy o h]
    constructor <;> simp [h]
  | some proxy =>
    have hproxy : c.proxyUrl ≠ none := by simp [h]
    rcases publish_binary_cases o s h rfl with ⟨f, hs, hlater⟩ | ⟨n, hs, hn, hrun⟩ | ⟨x, hs, hx, hrun⟩ |
      ⟨x, context, hs, hx, hrun⟩
    · -- The binary is in order, and no later failure is preparatory.
      have hconfig : ∀ f, (publish c o s).1 ≠ .error (.config f) := fun f hf => hlater _ hf trivial
      have harchive : ∀ f, (publish c o s).1 ≠ .error (.archive f) := fun f hf => hlater _ hf trivial
      constructor
      · rintro e he (hprep | ⟨x, hx⟩)
        · exact absurd hprep (hlater e he)
        · cases hs.symm.trans hx
      · simp [hconfig, hproxy]
      · simp [hconfig]
      · simp [harchive, hs]
      · simp [harchive, hs]
      · simp [hs]
      · simp [harchive]
    · rw [hrun]
      constructor <;> simp [hs, hn, hproxy]
    · rw [hrun]
      constructor <;> simp [hs, hx, hproxy]
    · rw [hrun]
      constructor <;> simp [hs, hx, hproxy]

end ReleasePublisher
