import ReleasePublisher.Proofs.Publish.Upload

/-!
# Dry runs

A dry run does all that a run does before the upload, and nothing else. What it tells is what the run
would have told: the same failure, or the report but for the asset. Only the upload can still fail.

## Main definitions

* `FailsInUpload c watched s e`: the upload of the run from `s` fails with `e`
* `Foretells c watched s dry real`: what the outcome of a dry run tells of the run itself

## Main results

* `publish_dry_cases`: a dry run ends where the part before the upload does
* `publish_real_cases`: a run goes on with the upload from there
* `publish_foretells`: a dry run foretells the run
-/

namespace ReleasePublisher

variable [Gzip.Writer]

/-- **The upload fails** with `e`, in the run from `s` that has done all before it. -/
def FailsInUpload (c : Config) (watched : Bool) (s : Surroundings) (e : Failure) : Prop :=
  ∃ x s₁ s₂, rehearse c s = (.ok x, s₁) ∧
    (HostClient.ofBase c.apiUrl x.token).uploadAsset x.release x.archive octetStream watched s₁ =
      (.error e, s₂)

/-- **What a dry run tells of the run.** From `s`, a dry run ends as `dry` does and the run as `real`
does. -/
structure Foretells (c : Config) (watched : Bool) (s : Surroundings)
    (dry real : Except Failure PublishReport × Surroundings) : Prop where
  /-- Where the dry run fails, the run fails in the same way, and nothing else is different. -/
  of_error : ∀ e s₁, dry = (.error e, s₁) → real = (.error e, s₁)
  /-- Where the dry run succeeds, the run has the same files, and sends only the requests of one
  upload more. -/
  of_ok : ∀ r s₁, dry = (.ok r, s₁) → r.dryRun = true ∧ r.asset = none ∧
    real.2.files = s₁.files ∧
    ∃ rs, IsCall .post s₁.network rs ∧ real.2.network = s₁.network.after rs
  /-- Where the dry run succeeds, only the upload can fail; else the reports are the same but for the
  asset. -/
  outcome : ∀ r s₁, dry = (.ok r, s₁) →
    (∃ e, real.1 = .error e ∧ FailsInUpload c watched s e) ∨
      ∃ asset, real.1 = .ok { r with dryRun := false, asset := some asset }

variable {c : Config} {s s₁ : Surroundings} {x : Rehearsal}

/-- A failure before the upload ends every run, dry or not. -/
theorem publish_of_rehearse_error {e : Failure} (o : PublishOptions)
    (h : rehearse c s = (.error e, s₁)) : publish c o s = (.error e, s₁) := by
  rw [publish_eq_rehearse, Run.bind_of_error h]

theorem publish_of_rehearse_ok (o : PublishOptions) (h : rehearse c s = (.ok x, s₁)) :
    publish c o s = conclude c o x s₁ := by
  rw [publish_eq_rehearse, Run.bind_of_ok h]

/-- **A dry run ends where the part before the upload does**: it only tells of the upload. -/
theorem publish_dry_cases (c : Config) (watched : Bool) (s : Surroundings) :
    (∃ e s₁, rehearse c s = (.error e, s₁) ∧ publish c ⟨true, watched⟩ s = (.error e, s₁)) ∨
    ∃ x s₁ s₂, rehearse c s = (.ok x, s₁) ∧
      publish c ⟨true, watched⟩ s = (.ok (x.report c ⟨true, watched⟩ none), s₂) ∧
      s₂.files = s₁.files ∧ s₂.network = s₁.network := by
  rcases h : rehearse c s with ⟨e | x, s₁⟩
  · exact .inl ⟨e, s₁, rfl, publish_of_rehearse_error _ h⟩
  · refine .inr ⟨x, s₁, (conclude c ⟨true, watched⟩ x s₁).2, rfl, ?_, rfl, rfl⟩
    rw [publish_of_rehearse_ok _ h]
    rfl

/-- **A run goes on with the upload**: it fails as the upload does, or reports the asset. -/
theorem publish_real_cases (watched : Bool) (h : rehearse c s = (.ok x, s₁)) :
    (publish c ⟨false, watched⟩ s).2.files = s₁.files ∧
      (∃ rs, IsCall .post s₁.network rs ∧
        (publish c ⟨false, watched⟩ s).2.network = s₁.network.after rs) ∧
      ((∃ e, (publish c ⟨false, watched⟩ s).1 = .error e ∧ FailsInUpload c watched s e) ∨
        ∃ asset, (publish c ⟨false, watched⟩ s).1 =
          .ok (x.report c ⟨false, watched⟩ (some asset))) := by
  rw [publish_of_rehearse_ok _ h]
  obtain ⟨rs, hcall, hnet⟩ := (HostClient.ofBase c.apiUrl x.token).uploadAsset_makesCall x.release
    x.archive octetStream watched s₁
  rcases hu : (HostClient.ofBase c.apiUrl x.token).uploadAsset x.release x.archive octetStream
    watched s₁ with ⟨r, s₂⟩
  rw [hu] at hnet
  obtain ⟨hout, hn, hf⟩ := conclude_of_ok (c := c) (o := ⟨false, watched⟩) rfl hu
  refine ⟨?_, ⟨rs, hcall, hn.trans hnet⟩, ?_⟩
  · rw [hf]
    exact (HostClient.uploadAsset_keeps_files _ _ _ _ _).eq hu
  · rw [hout]
    cases r with
    | error e => exact .inl ⟨e, rfl, x, s₁, s₂, h, hu⟩
    | ok asset => exact .inr ⟨asset, rfl⟩

/-- **A dry run foretells the run.** Whatever the configuration, the files and the answers are, and
whether or not progress is shown: a dry run that fails fails as the run does, and after one that
succeeds the run has the same files, the same requests and those of the upload, and the same report
but for the asset, unless the upload fails. -/
theorem publish_foretells (c : Config) (dryWatched watched : Bool) (s : Surroundings) :
    Foretells c watched s (publish c ⟨true, dryWatched⟩ s) (publish c ⟨false, watched⟩ s) := by
  rcases publish_dry_cases c dryWatched s with ⟨e, s₁, he, hdry⟩ | ⟨x, s₁, s₂, hx, hdry, hf, hn⟩
  · rw [hdry, publish_of_rehearse_error _ he]
    constructor
    · intro e' s' h
      exact h
    · intro r s' h
      cases h
    · intro r s' h
      cases h
  · obtain ⟨hfiles, ⟨rs, hcall, hnet⟩, hout⟩ := publish_real_cases watched hx
    rw [hdry]
    constructor
    · intro e s' h
      cases h
    · intro r s' h
      obtain ⟨hr, rfl⟩ := Prod.mk.inj h
      obtain rfl := Except.ok.inj hr
      refine ⟨rfl, rfl, hfiles.trans hf.symm, rs, ?_, ?_⟩
      · rw [hn]
        exact hcall
      · rw [hn]
        exact hnet
    · intro r s' h
      obtain rfl := Except.ok.inj (Prod.mk.inj h).1
      exact hout

end ReleasePublisher
