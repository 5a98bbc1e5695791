import ReleasePublisher.Proofs.Publish.Upload

/-!
# What publishing leaves in the files

Publishing packs the binary, and all that follows only reads the archive again. Whether a run ends with a
report or with a failure, and wherever that comes from, the files are those that packing leaves.

## Main definitions

* `LeavesAsPacked c s out s'`: a run from `s` that ends with `out` in `s'` leaves what packing leaves

## Main results

* `uploadUnlessDry_keeps_files`: the upload changes no file
* `publish_of_package_error`: a run whose packing fails is over
* `publish_leavesAsPacked`: publishing leaves what packing leaves
-/

namespace ReleasePublisher

open Run

variable {c : Config} {s s' : Surroundings} {proxy : String}

/-- **The upload changes no file**, nor does what a dry run does instead. -/
theorem uploadUnlessDry_keeps_files (client : HostClient) (release : Release)
    (archive : PackagedArchive) (o : PublishOptions) :
    Keeps Surroundings.files (uploadUnlessDry client release archive o) := by
  unfold uploadUnlessDry
  split
  · exact .bind (.note_files _) fun _ => .pure _
  · exact .bind (client.uploadAsset_keeps_files _ _ _ _) fun _ => .bind (.note_files _) fun _ => .pure _

/-- **A run whose packing fails is over**: it ends as packing does. -/
theorem publish_of_package_error [Gzip.Writer] {e : Failure} (o : PublishOptions)
    (h : c.proxyUrl = some proxy)
    (he : package c s = (.error e, s')) : publish c o s = (.error e, s') := by
  rw [publish, Config.requireProxy, h, bind_of_ok (ofExcept_apply _ s), bind_of_error he]

/-- **What follows packing** changes no file, wherever it ends. -/
theorem publish_files [Gzip.Writer] (o : PublishOptions) (h : c.proxyUrl = some proxy)
    (s : Surroundings) : (publish c o s).2.files = (package c s).2.files := by
  rcases hp : package c s with ⟨e | archive, s₁⟩
  · rw [publish_of_package_error o h hp]
  · rw [publish, Config.requireProxy, h, bind_of_ok (ofExcept_apply _ s), bind_of_ok hp]
    refine (?_ : Keeps Surroundings.files _) s₁
    refine .bind (fetchConfiguredToken_keeps_files c) fun token => ?_
    refine .bind (HostClient.repository_keeps_files _ _ _) fun repository => ?_
    refine .bind (HostClient.latestRelease_keeps_files _ _) fun release => .bind (.note_files _) fun _ => ?_
    exact .bind (uploadUnlessDry_keeps_files _ _ _ _) fun asset => .pure _

/-- **The report tells of the archive** that packing told of. -/
theorem archive_of_publish [Gzip.Writer] {o : PublishOptions} {r : PublishReport}
    (hr : publish c o s = (.ok r, s')) : (package c s).1 = .ok r.archive := by
  rw [publish_eq_rehearse] at hr
  obtain ⟨x, s₁, hx, hr⟩ := bind_ok hr
  obtain ⟨asset, s₂, -, hr⟩ := bind_ok hr
  obtain rfl := Except.ok.inj (Prod.mk.inj hr).1
  obtain ⟨s₀, hp, -⟩ := rehearse_ok hx
  rw [hp]
  rfl

/-- **A run from `s` that ends with `out` in `s'` leaves what packing leaves.** -/
structure LeavesAsPacked [Gzip.Writer] (c : Config) (s : Surroundings)
    (out : Except Failure PublishReport) (s' : Surroundings) : Prop where
  files_eq : s'.files = (package c s).2.files
  /-- A failure of packing is the failure of the run, which has sent nothing and done nothing more. -/
  of_error : ∀ e, (package c s).1 = .error e →
    out = .error e ∧ s' = (package c s).2 ∧ s'.network = s.network
  archive_eq : ∀ r, out = .ok r → (package c s).1 = .ok r.archive

/-- **Publishing leaves what packing leaves.** Whatever the files, the options and the answers are, and
wherever the run ends: with a proxy to ask, the files after publishing are those after packing with the same
configuration. Where packing fails, publishing fails in the same way and sends nothing; and the archive of a
report is the one that packing tells of. -/
theorem publish_leavesAsPacked [Gzip.Writer] (o : PublishOptions) (s : Surroundings)
    (h : c.proxyUrl = some proxy) :
    LeavesAsPacked c s (publish c o s).1 (publish c o s).2 where
  files_eq := publish_files o h s
  of_error e he := by
    have hrun := publish_of_package_error o h (Prod.ext he rfl)
    have hnetwork := package_keeps_network c s
    rw [hrun]
    exact ⟨rfl, rfl, hnetwork⟩
  archive_eq r hr := archive_of_publish (Prod.ext hr rfl)

/-- The sample is packed, and then its upload is not answered. -/
theorem publish_leavesAsPacked_sample :
    Sample.config.proxyUrl = some "http://s" ∧
      (package Sample.config (Sample.surroundings [])).1.isOk = true ∧
      (publish Sample.config ⟨false, true⟩ (Sample.surroundings [])).1.isOk = false ∧
      LeavesAsPacked Sample.config (Sample.surroundings [])
        (publish Sample.config ⟨false, true⟩ (Sample.surroundings [])).1
        (publish Sample.config ⟨false, true⟩ (Sample.surroundings [])).2 :=
  ⟨rfl, by decide +kernel, by decide +kernel,
    publish_leavesAsPacked ⟨false, true⟩ (Sample.surroundings []) rfl⟩

end ReleasePublisher
