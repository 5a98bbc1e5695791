import ReleasePublisher.Proofs.Publish.Stages

/-!
# The part of publishing before the upload

A run that publishes and a dry run begin in the same way: they pack the binary and look up the
release. This part only asks; what it leaves in the files is what packing leaves there.

## Main definitions

* `rehearse c`: the part before the upload
* `conclude c o`: the upload, unless it is a dry run, and the report

## Main results

* `publish_eq_rehearse`: publishing is one after the other
* `rehearse_reads`, `rehearse_ok`: the part before the upload only asks, and keeps what packing left
-/

namespace ReleasePublisher

/-- What is known before the upload. -/
structure Rehearsal where
  archive : PackagedArchive
  token : DeployToken
  repository : Repository
  release : Release

/-- Packs the binary and looks up the release. -/
def rehearse [Gzip.Writer] (c : Config) : Run Rehearsal := do
  let _ ← Run.ofExcept c.requireProxy
  let archive ← package c
  let token ← fetchConfiguredToken c
  let repository ← (HostClient.ofBase c.apiUrl token).repository c.owner c.project
  let release ← resolveRelease (HostClient.ofBase c.apiUrl token) repository
  return { archive, token, repository, release }

/-- The report on a run that knew `r` before the upload. -/
def Rehearsal.report (r : Rehearsal) (c : Config) (o : PublishOptions) (asset : Option Asset) :
    PublishReport :=
  { project := c.project, repository := r.repository.fullName, releaseTag := r.release.tag,
    releaseUrl := r.release.pageUrl, archive := r.archive, asset := asset, dryRun := o.dryRun }

/-- Uploads the archive, unless it is a dry run, and reports. -/
def conclude (c : Config) (o : PublishOptions) (r : Rehearsal) : Run PublishReport := do
  let asset ← uploadUnlessDry (HostClient.ofBase c.apiUrl r.token) r.release r.archive o
  return r.report c o asset

/-- **Publishing is the part before the upload, and the rest.** -/
theorem publish_eq_rehearse [Gzip.Writer] (c : Config) (o : PublishOptions) :
    publish c o = rehearse c >>= conclude c o := by
  simp only [publish, rehearse, resolveRelease, Run.bind_assoc]
  rfl

theorem resolveRelease_reads (client : HostClient) (repository : Repository) :
    Run.Reads (resolveRelease client repository) :=
  .of_makesCall (.bind (client.latestRelease_makesCall _) fun _ =>
    .bind (.note_network _) fun _ => .pure _)

theorem resolveRelease_keeps_files (client : HostClient) (repository : Repository) :
    Run.Keeps Surroundings.files (resolveRelease client repository) :=
  .bind (client.latestRelease_keeps_files _) fun _ => .bind (.note_files _) fun _ => .pure _

/-- **The part before the upload only asks.** -/
theorem rehearse_reads [Gzip.Writer] (c : Config) : Run.Reads (rehearse c) :=
  .bind (.of_keeps (.ofExcept _)) fun _ => .bind (.of_keeps (package_keeps_network c)) fun _ =>
    .bind (.of_makesCall (fetchConfiguredToken_makesCall c)) fun _ =>
      .bind (.of_makesCall (HostClient.repository_makesCall _ _ _)) fun _ =>
        .bind (resolveRelease_reads _ _) fun _ => .of_keeps (.pure _)

/-- **The part before the upload** succeeds only if packing does, and keeps the files that it left. -/
theorem rehearse_ok [Gzip.Writer] {c : Config} {s s' : Surroundings} {r : Rehearsal}
    (h : rehearse c s = (.ok r, s')) :
    ∃ s₁, package c s = (.ok r.archive, s₁) ∧ s'.files = s₁.files := by
  obtain ⟨proxy, s₀, hp, h⟩ := Run.bind_ok h
  obtain ⟨archive, s₁, ha, h⟩ := Run.bind_ok h
  obtain ⟨token, s₂, ht, h⟩ := Run.bind_ok h
  obtain ⟨repository, s₃, hr, h⟩ := Run.bind_ok h
  obtain ⟨release, s₄, hl, h⟩ := Run.bind_ok h
  rw [Run.ofExcept_apply] at hp
  cases h
  obtain ⟨-, rfl⟩ := Prod.mk.inj hp
  refine ⟨s₁, ha, ?_⟩
  calc s'.files = s₃.files := (resolveRelease_keeps_files _ _).eq hl
    _ = s₂.files := (HostClient.repository_keeps_files _ _ _).eq hr
    _ = s₁.files := (fetchConfiguredToken_keeps_files c).eq ht

end ReleasePublisher
