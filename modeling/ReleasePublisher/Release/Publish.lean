import ReleasePublisher.Release.Host

/-!
# Publishing a release

Publishing packs the binary, asks for the deploy token, looks up the repository and its latest
release, and uploads the archive. It stops at the first failure, and nothing is tried twice. A dry
run stops before the upload.

## Main definitions

* `PublishOptions`, `PublishReport`: what is asked for, and what was done
* `publish c options`: publishes a release
-/

namespace ReleasePublisher

/-- What is asked for beside the configuration. -/
structure PublishOptions where
  /-- Do all but the upload. -/
  dryRun : Bool
  /-- Show how much of the upload is done. -/
  showsProgress : Bool
  deriving DecidableEq, Repr

/-- What was done. -/
structure PublishReport where
  project : String
  repository : String
  releaseTag : String
  releaseUrl : Option String
  archive : PackagedArchive
  /-- The asset that was made, unless it was a dry run. -/
  asset : Option Asset
  dryRun : Bool
  deriving DecidableEq, Repr

namespace PublishReport

/-- The object that describes a report, around the one that describes the archive. What is missing
is left out. -/
def toJsonWith (r : PublishReport) (archive : Json) : Json :=
  .object ([("project", Json.text r.project), ("repository", .text r.repository),
      ("release_tag", .text r.releaseTag)]
    ++ (r.releaseUrl.toList.map fun u => ("release_url", .text u))
    ++ [("archive", archive)]
    ++ (r.asset.toList.map fun a => ("asset", a.toJson))
    ++ [("dry_run", .bool r.dryRun)])

/-- The object that describes a report, if the path of the archive is text. -/
def toJson (r : PublishReport) : Option Json :=
  r.archive.toJson.map r.toJsonWith

end PublishReport

/-- The part of the program that publishes. -/
def publishTarget : String := "relup::release"

/-- Uploads the archive, or tells that a dry run does not. -/
def uploadUnlessDry (client : HostClient) (release : Release) (archive : PackagedArchive)
    (options : PublishOptions) : Run (Option Asset) := do
  if options.dryRun then
    Run.note
      { level := .info, target := publishTarget, message := "dry run, upload skipped"
        values := [("archive", archive.fileName)] }
    return none
  else
    let asset ← client.uploadAsset release archive octetStream options.showsProgress
    Run.note
      { level := .info, target := publishTarget, message := "asset uploaded"
        values := [("asset", asset.name), ("asset_id", toString asset.id),
          ("tag", release.tag)] }
    return some asset

/-- Packs the binary and attaches it to the latest release. -/
def publish [Gzip.Writer] (c : Config) (options : PublishOptions) : Run PublishReport := do
  -- Nothing is written if the token could not be asked for anyway.
  let _ ← Run.ofExcept c.requireProxy
  let archive ← package c
  let token ← fetchConfiguredToken c
  let client := HostClient.ofBase c.apiUrl token
  let repository ← client.repository c.owner c.project
  let release ← client.latestRelease repository
  Run.note
    { level := .info, target := publishTarget, message := "latest release resolved"
      values := [("repository", repository.fullName), ("tag", release.tag),
        ("release_id", toString release.id)] }
  let asset ← uploadUnlessDry client release archive options
  return { project := c.project, repository := repository.fullName, releaseTag := release.tag,
           releaseUrl := release.pageUrl, archive, asset, dryRun := options.dryRun }

end ReleasePublisher
