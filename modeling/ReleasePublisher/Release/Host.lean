import ReleasePublisher.Release.Archive
import ReleasePublisher.Release.Records
import ReleasePublisher.Release.Secret
import ReleasePublisher.Url.Form

/-!
# The release host

Three calls are made to the release host, each with the deploy token: the repository is looked up,
then its latest release, and an archive is uploaded as an asset of a release. A refusal is told by
its status; what the host says about it is only shown.

## Main definitions

* `HostClient`: the base address and the token
* `HostClient.repository`, `HostClient.latestRelease`, `HostClient.uploadAsset`: the calls
* `uploadEndpoint`: the address that an upload goes to
* `refusalText`: what the host says about a refusal
-/

namespace ReleasePublisher

/-- The base address of the release host, and the token for it. -/
structure HostClient where
  apiUrl : String
  token : DeployToken
  deriving DecidableEq, Repr

/-- The type of content that has no other type. -/
def octetStream : String := "application/octet-stream"

/-- The part of the program that talks to the release host. -/
def hostTarget : String := "relup::release::github"

/-- What the host says about a refusal: its message if there is one, else the start of the body,
else the reason that belongs to the status. -/
def refusalText (r : Response) : String :=
  let body := r.text.getD ""
  match HostMessage.decode (Utf8.encode body) with
  | .ok m => m.message
  | .error _ =>
    let text := Text.trim body
    if text.isEmpty then (reason? r.status).getD "unknown error"
    -- A long page of markup would drown the message.
    else String.ofList (text.toList.take 200)

/-- The failure that a refusal is, where no status but 401 has a meaning of its own. -/
def refusal (endpoint : String) (r : Response) : HostFailure :=
  if r.status == 401 then .unauthorized (refusalText r)
  else .refused endpoint r.status (refusalText r)

/-- The record that the body of an answer states. -/
def decoded {α : Type} (decode : Bytes → Except Json.Fault α) (r : Response) : Except Failure α :=
  match r.document.map decode with
  | some (.ok a) => .ok a
  | _ => .error (.http .notDecoded)

/-- The address that an upload goes to: the one before the template, with the name of the asset. -/
def uploadEndpoint (uploadUrl fileName : String) : Except Failure Url :=
  match Url.parse (String.ofList (uploadUrl.toList.takeWhile (· != '{'))) with
  | .ok u => .ok (u.addPair "name" fileName)
  | .error e =>
    .error (.plain ("Invalid upload_url '" ++ uploadUrl ++ "' in release: " ++ e.message) none
      (some "Check that GITHUB_API_URL points at a GitHub REST API."))

namespace HostClient

/-- A client for a base address, which may end in slashes. -/
def ofBase (apiUrl : String) (token : DeployToken) : HostClient :=
  { apiUrl := Text.trimEndChar '/' apiUrl, token := token }

/-- The headers of every request to the host. -/
def headers (c : HostClient) : Headers :=
  [("authorization", "Bearer " ++ c.token.value), ("accept", "application/vnd.github+json"),
    ("x-github-api-version", "2022-11-28")]

/-- The request that reads something at an endpoint. -/
def lookup (c : HostClient) (endpoint : String) : Draft :=
  { method := .get, address := c.apiUrl ++ endpoint, headers := c.headers, payload := none }

/-- The endpoint of a repository. -/
def repositoryEndpoint (owner name : String) : String :=
  "/repos/" ++ owner ++ "/" ++ name

/-- The endpoint of the latest release of a repository. -/
def latestEndpoint (fullName : String) : String :=
  "/repos/" ++ fullName ++ "/releases/latest"

/-- The repository that an answer describes. -/
def repositoryOf (owner name : String) (r : Response) : Except Failure Repository :=
  if r.isSuccess then decoded Repository.decode r
  else if r.status == 404 then .error (.host (.repositoryNotFound (owner ++ "/" ++ name)))
  else .error (.host (refusal (repositoryEndpoint owner name) r))

/-- The release that an answer describes. A repository without a published release has none. -/
def releaseOf (repository : Repository) (r : Response) : Except Failure Release :=
  if r.isSuccess then decoded Release.decode r
  else if r.status == 404 then .error (.host (.noRelease repository.fullName))
  else .error (.host (refusal (latestEndpoint repository.fullName) r))

/-- The asset that the answer to an upload describes. -/
def assetOf (fileName : String) (r : Response) : Except Failure Asset :=
  if r.isSuccess then decoded Asset.decode r
  else if r.status == 401 then .error (.host (.unauthorized (refusalText r)))
  else .error (.host (.uploadRejected fileName r.status (refusalText r)))

/-- Looks up a repository. -/
def repository (c : HostClient) (owner name : String) : Run Repository := do
  let response ← Run.request (c.lookup (repositoryEndpoint owner name))
  Run.ofExcept (repositoryOf owner name response)

/-- Looks up the latest release of a repository. -/
def latestRelease (c : HostClient) (repository : Repository) : Run Release := do
  let response ← Run.request (c.lookup (latestEndpoint repository.fullName))
  Run.ofExcept (releaseOf repository response)

/-- The body of an upload: an opened file up to a length. The reader is metered where progress is
shown. -/
def uploadBody (node : FileNode) (length : Nat) (showsProgress : Bool) : Payload :=
  let source := Source.ofNode node
  if showsProgress then .ofReader (metered Source.read) ⟨source, []⟩ length
  else .ofReader Source.read source length

/-- Opens a file for an upload. -/
def openAsset (p : Path) (t : FileTree) : Except Failure FileNode :=
  (t.openRead p).mapError fun e => .io e (some ("Failed to open " ++ p.display))

/-- The request that uploads a file of a given size. -/
def uploadDraft (c : HostClient) (url : Url) (node : FileNode) (size : Nat) (contentType : String)
    (showsProgress : Bool) : Draft :=
  { method := .post
    address := url.text
    headers := c.headers ++ [("content-type", contentType)]
    payload := some (uploadBody node size showsProgress) }

/-- Uploads an archive as an asset of a release. -/
def uploadAsset (c : HostClient) (release : Release) (archive : PackagedArchive)
    (contentType : String) (showsProgress : Bool) : Run Asset := do
  let url ← Run.ofExcept (uploadEndpoint release.uploadUrl archive.fileName)
  let t ← Run.files
  let node ← Run.ofExcept (openAsset archive.path t)
  Run.note
    { level := .debug, target := hostTarget, message := "uploading asset"
      values := [("url", url.text), ("size", toString archive.size)] }
  let response ← Run.request (c.uploadDraft url node archive.size contentType showsProgress)
  Run.ofExcept (assetOf archive.fileName response)

end HostClient

end ReleasePublisher
