import ReleasePublisher.Json.Parser
import ReleasePublisher.Release.Config
import ReleasePublisher.Run

/-!
# The deploy secret

The secret proxy hands out the deploy token of a project as the member `token` of the member
`github` of an object.

## Main definitions

* `DeployToken`: a token, which is never shown
* `secretUrl proxy project`: where the deploy secret of a project is read
* `DeployToken.ofText`: the token that the text of a secret states
* `fetchToken`, `fetchConfiguredToken`: asks the proxy for a token
-/

namespace ReleasePublisher

/-- The token that gives access to the release host. -/
structure DeployToken where
  value : String
  deriving DecidableEq, Repr

/-- The token as a log shows it. -/
def DeployToken.debug (_ : DeployToken) : String := "DeployToken(***)"

/-- Where the deploy secret of a project is read. -/
def secretUrl (proxy project : String) : String :=
  Text.trimEndChar '/' proxy ++ "/secrets/v1/secret/project/relman/" ++ project ++ "/deploy"

/-- The token that the text of a secret states. -/
def DeployToken.ofText (text : Bytes) : Except SecretFailure DeployToken :=
  match Json.parse text with
  | .error f => .error (.malformed ("response is not JSON (" ++ f.message text ++ ")"))
  | .ok v =>
    match v.pointer? ["github", "token"] with
    | none => .error (.malformed "missing field github.token")
    -- The token must be a text with at least one character.
    | some (.text token) =>
      if token.isEmpty then .error (.malformed "github.token is empty") else .ok ⟨token⟩
    | some _ => .error (.malformed "github.token is not a string")

/-- The token that the answer of the proxy states. -/
def DeployToken.ofResponse (url : String) (r : Response) : Except Failure DeployToken :=
  if !r.isSuccess then .error (.secret (.status url r.status))
  else match r.text with
    | none => .error (.http .notDecoded)
    | some text => (DeployToken.ofText (Utf8.encode text)).mapError .secret

/-- The part of the program that asks for secrets. -/
def secretTarget : String := "relup::release::secret"

/-- Asks the proxy for the deploy token of a project, once. -/
def fetchToken (proxy project : String) : Run DeployToken := do
  let url := secretUrl proxy project
  Run.note
    { level := .debug, target := secretTarget, message := "requesting deploy secret"
      values := [("url", url)] }
  let response ← Run.request { method := .get, address := url, headers := [], payload := none }
  let token ← Run.ofExcept (DeployToken.ofResponse url response)
  Run.note
    { level := .info, target := secretTarget, message := "deploy token retrieved"
      values := [("project", Text.quoted project)] }
  return token

/-- Asks the configured proxy for the deploy token of the configured project. -/
def fetchConfiguredToken (c : Config) : Run DeployToken := do
  let proxy ← Run.ofExcept c.requireProxy
  fetchToken proxy c.project

end ReleasePublisher
