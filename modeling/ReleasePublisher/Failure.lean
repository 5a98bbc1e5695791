import ReleasePublisher.Files.IoError
import ReleasePublisher.Files.Path
import ReleasePublisher.Json.Fault

/-!
# Failures

Every failure is fatal. A failure is a cause: what was wrong with the configuration, the archive,
the deploy secret, an answer of the release host, the transport, or the files. It has a message, an
exit code and, where there is an obvious remedy, a help line. Context can be added to failures of
files and to plain messages; the outermost context is shown first.

## Main definitions

* `Failure`: a failure, with `ConfigFailure`, `ArchiveFailure`, `SecretFailure`, `HostFailure` and
  `HttpFailure` for the parts of the job
* `Failure.message`, `Failure.help`, `Failure.exitCode`: what the user sees
* `Failure.addContext`: adds a context
* `Failure.debug`: the failure as a log shows it
-/

namespace ReleasePublisher

/-- What can be wrong with the configuration. -/
inductive ConfigFailure where
  /-- A variable that must be set is unset or blank. -/
  | missingVariable (name : String)
  | invalidProject (name reason : String)
  /-- The configuration file cannot be used. -/
  | invalidFile (path : Path) (reason : String)
  deriving DecidableEq, Repr

/-- What can be wrong with the release binary. -/
inductive ArchiveFailure where
  | sourceNotFound (path : Path)
  | sourceNotFile (path : Path)
  deriving DecidableEq, Repr

/-- What can be wrong with the deploy secret. -/
inductive SecretFailure where
  | status (url : String) (status : Nat)
  | malformed (reason : String)
  deriving DecidableEq, Repr

/-- What the release host can refuse. -/
inductive HostFailure where
  | unauthorized (message : String)
  | repositoryNotFound (repository : String)
  | noRelease (repository : String)
  | uploadRejected (asset : String) (status : Nat) (message : String)
  | refused (endpoint : String) (status : Nat) (message : String)
  deriving DecidableEq, Repr

/-- What can go wrong in the transport of a request or its answer. -/
inductive HttpFailure where
  /-- The request cannot be built; there is an address only where it could be read. -/
  | notBuilt (url : Option String)
  | notSent (url : String)
  /-- The body of the request could not be sent. -/
  | bodyNotSent (url : String)
  | tooManyRedirects (url : String)
  /-- The body of the answer cannot be read, or does not state what it should. -/
  | notDecoded
  deriving DecidableEq, Repr

/-- A failure of the program. -/
inductive Failure where
  | config (f : ConfigFailure)
  | archive (f : ArchiveFailure)
  | secret (f : SecretFailure)
  | host (f : HostFailure)
  | http (f : HttpFailure)
  | io (e : IoError) (context : Option String)
  | plain (message : String) (context help : Option String)
  deriving DecidableEq, Repr

/-- What a failure of the transport says. -/
def HttpFailure.message : HttpFailure → String
  | notBuilt none => "builder error"
  | notBuilt (some url) => "builder error for url (" ++ url ++ ")"
  | notSent url => "error sending request for url (" ++ url ++ ")"
  | bodyNotSent url => "request or response body error for url (" ++ url ++ ")"
  | tooManyRedirects url => "error following redirect for url (" ++ url ++ ")"
  | notDecoded => "error decoding response body"

namespace Failure

/-- A message and the context below it. -/
def withContext (message : String) : Option String → String
  | none => message
  | some context => message ++ "\n" ++ context

/-- What a failure says. -/
def message : Failure → String
  | config (.missingVariable name) => "Missing required environment variable: " ++ name
  | config (.invalidProject name reason) => "Invalid project name '" ++ name ++ "': " ++ reason
  | config (.invalidFile path reason) =>
    "Invalid configuration in " ++ path.display ++ ": " ++ reason
  | archive (.sourceNotFound path) => "Release binary not found: " ++ path.display
  | archive (.sourceNotFile path) => "Release binary is not a file: " ++ path.display
  | secret (.status url status) =>
    "Secret proxy returned HTTP " ++ toString status ++ " for " ++ url
  | secret (.malformed reason) => "Malformed deploy secret: " ++ reason
  | host (.unauthorized message) => "GitHub authentication failed: " ++ message
  | host (.repositoryNotFound repository) => "GitHub repository not found: " ++ repository
  | host (.noRelease repository) => "No published release found for " ++ repository
  | host (.uploadRejected asset status message) =>
    "Upload of '" ++ asset ++ "' rejected (HTTP " ++ toString status ++ "): " ++ message
  | host (.refused endpoint status message) =>
    "GitHub API error on " ++ endpoint ++ " (HTTP " ++ toString status ++ "): " ++ message
  | http f => "HTTP request failed: " ++ f.message
  | io e context => withContext ("I/O error: " ++ e.message) context
  | plain message context _ => withContext message context

/-- The remedy, where there is an obvious one. -/
def help : Failure → Option String
  | config (.missingVariable name) =>
    if name == "PROJECT_NAME" then some "Set PROJECT_NAME or pass --project <NAME>."
    else if name == "TASKCLUSTER_PROXY_URL" then
      some ("TASKCLUSTER_PROXY_URL is provided by the Taskcluster proxy feature. " ++
        "Enable `taskclusterProxy` in the task definition.")
    else none
  | config (.invalidProject _ _) =>
    some "The project name must match the binary name under target/release."
  | archive (.sourceNotFound _) => some "Build the binary first with `cargo build --release`."
  | secret (.status _ status) =>
    if status == 401 || status == 403 then
      some ("The task is not allowed to read this secret. Check the task's scopes for " ++
        "secrets:get:project/relman/...")
    else if status == 404 then
      some "No deploy secret exists for this project under project/relman/."
    else none
  | secret (.malformed _) =>
    some "The secret must be shaped as \x7b\"github\": \x7b\"token\": \"...\"\x7d\x7d."
  | host (.unauthorized _) =>
    some "The deploy token was rejected. Rotate the github.token field of the deploy secret."
  | host (.repositoryNotFound repository) =>
    some ("Check that " ++ repository ++ " exists and that the deploy token can see it.")
  | host (.noRelease repository) =>
    some ("Publish a release on " ++ repository ++
      " before uploading assets (drafts and prereleases are not 'latest').")
  | host (.uploadRejected asset status _) =>
    if status == 422 then
      some ("An asset named '" ++ asset ++
        "' probably already exists on this release. Delete it and re-run.")
    else none
  | plain _ _ help => help
  | _ => none

/-- The exit code: 1 for what the user can mend, 2 for the system and the hosts, 3 for payloads and
releases that are not as they should be. -/
def exitCode : Failure → Nat
  | config _ => 1
  | archive _ => 1
  | secret (.status _ _) => 2
  | secret (.malformed _) => 3
  | host (.noRelease _) => 3
  | host _ => 2
  | http _ => 2
  | io _ _ => 2
  | plain _ _ _ => 1

/-- The text of the error below a failure, if there is one. -/
def cause? : Failure → Option String
  | http f => some f.message
  | io e _ => some e.message
  | _ => none

/-- A context above those there are. -/
def outerContext (context : String) : Option String → String
  | none => context
  | some inner => context ++ "\n" ++ inner

/-- Adds a context to a failure of files or a plain message; other failures say enough. -/
def addContext (context : String) : Failure → Failure
  | io e inner => io e (some (outerContext context inner))
  -- The newest context stands above the older ones.
  | plain message inner help => plain message (some (outerContext context inner)) help
  | f => f

/-- The failure of a JSON text. -/
def ofJson (text : Bytes) (f : Json.Fault) : Failure :=
  plain ("JSON error: " ++ f.message text) none none

/-! ### Failures in logs -/

/-- A record with named fields, as a log shows it. -/
def debugRecord (name : String) (fields : List (String × String)) : String :=
  name ++ " \x7b " ++ ", ".intercalate (fields.map fun (n, v) => n ++ ": " ++ v) ++ " \x7d"

/-- A value that may be missing, as a log shows it. -/
def debugOption : Option String → String
  | none => "None"
  | some s => "Some(" ++ s ++ ")"

/-- A failure of the transport as a log shows it. -/
def debugHttp : HttpFailure → String
  | .notBuilt none => "reqwest::Error \x7b kind: Builder \x7d"
  | .notBuilt (some url) => shown "Builder" url
  | .notSent url => shown "Request" url
  | .bodyNotSent url => shown "Body" url
  | .tooManyRedirects url => shown "Redirect" url
  | .notDecoded => "reqwest::Error \x7b kind: Decode \x7d"
where
  /-- The kind of the failure and its address. -/
  shown (kind url : String) : String :=
    debugRecord "reqwest::Error" [("kind", kind), ("url", Text.quoted url)]

/-- A failure as a log shows it. -/
def debug : Failure → String
  | config (.missingVariable name) =>
    "Config(" ++ debugRecord "MissingEnv" [("var", Text.quoted name)] ++ ")"
  | config (.invalidProject name reason) =>
    "Config(" ++ debugRecord "InvalidProject" [("name", Text.quoted name),
      ("reason", Text.quoted reason)] ++ ")"
  | config (.invalidFile path reason) =>
    "Config(" ++ debugRecord "Invalid" [("path", path.quoted),
      ("reason", Text.quoted reason)] ++ ")"
  | archive (.sourceNotFound path) =>
    "Archive(" ++ debugRecord "SourceNotFound" [("path", path.quoted)] ++ ")"
  | archive (.sourceNotFile path) =>
    "Archive(" ++ debugRecord "SourceNotFile" [("path", path.quoted)] ++ ")"
  | secret (.status url status) =>
    "Secret(" ++ debugRecord "Status" [("url", Text.quoted url), ("status", toString status)]
      ++ ")"
  | secret (.malformed reason) =>
    "Secret(" ++ debugRecord "Malformed" [("reason", Text.quoted reason)] ++ ")"
  | host (.unauthorized message) =>
    "Github(" ++ debugRecord "Unauthorized" [("message", Text.quoted message)] ++ ")"
  | host (.repositoryNotFound repository) =>
    "Github(" ++ debugRecord "RepoNotFound" [("repo", Text.quoted repository)] ++ ")"
  | host (.noRelease repository) =>
    "Github(" ++ debugRecord "NoRelease" [("repo", Text.quoted repository)] ++ ")"
  | host (.uploadRejected asset status message) =>
    "Github(" ++ debugRecord "UploadRejected" [("asset", Text.quoted asset),
      ("status", toString status), ("message", Text.quoted message)] ++ ")"
  | host (.refused endpoint status message) =>
    "Github(" ++ debugRecord "Api" [("endpoint", Text.quoted endpoint),
      ("status", toString status), ("message", Text.quoted message)] ++ ")"
  | http f => "Http(" ++ debugHttp f ++ ")"
  | io e context =>
    debugRecord "Io" [("source", e.debug), ("context", debugOption (context.map Text.quoted))]
  | plain message context help =>
    debugRecord "Message" [("message", Text.quoted message),
      ("context", debugOption (context.map Text.quoted)),
      ("help", debugOption (help.map Text.quoted))]

end Failure

/-- Outcomes can be compared. -/
instance decidableEqExcept {ε α : Type} [DecidableEq ε] [DecidableEq α] : DecidableEq (Except ε α)
  | .ok a, .ok b => decidable_of_iff (a = b) ⟨congrArg _, Except.ok.inj⟩
  | .error a, .error b => decidable_of_iff (a = b) ⟨congrArg _, Except.error.inj⟩
  | .ok _, .error _ => isFalse nofun
  | .error _, .ok _ => isFalse nofun

end ReleasePublisher
