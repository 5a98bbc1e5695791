import ReleasePublisher.Url.Host

/-!
# Addresses

An address is kept in its canonical parts: what is written by `text` is what travels in requests
and stands in messages. The path is a list of segments, or a text of its own where no slash follows
the scheme, as in `mailto:`.

## Main definitions

* `Url`: an address in its parts
* `Url.text u`: the address as it is written
* `Url.hidden u`: the address without user name and password
* `Url.sameOrigin u v`: the addresses have the same host and port
* `Url.isSpecial`, `Url.defaultPort?`: the schemes whose addresses always have a host
-/

namespace ReleasePublisher

/-- The path of an address. -/
inductive UrlPath where
  /-- Segments, each behind a slash. -/
  | segments (parts : List (List Char))
  /-- A text without structure. -/
  | rootless (text : List Char)
  deriving DecidableEq, Repr

/-- An address in its canonical parts. -/
structure Url where
  scheme : List Char
  username : List Char
  password : Option (List Char)
  /-- The host; an empty one is written, a missing one is not. -/
  host : Option (List Char)
  /-- The port, unless it is the one that the scheme implies. -/
  port : Option Nat
  path : UrlPath
  query : Option (List Char)
  fragment : Option (List Char)
  deriving DecidableEq, Repr

namespace Url

/-- The schemes whose addresses have a host and a path of segments. -/
def isSpecial (scheme : List Char) : Bool :=
  [['h', 't', 't', 'p'], ['h', 't', 't', 'p', 's'], ['w', 's'], ['w', 's', 's'], ['f', 't', 'p'],
    ['f', 'i', 'l', 'e']].contains scheme

/-- The port that a scheme implies. -/
def defaultPort? (scheme : List Char) : Option Nat :=
  if scheme == ['h', 't', 't', 'p'] || scheme == ['w', 's'] then some 80
  else if scheme == ['h', 't', 't', 'p', 's'] || scheme == ['w', 's', 's'] then some 443
  else if scheme == ['f', 't', 'p'] then some 21
  else none

/-- A path as it is written. -/
def pathText : UrlPath → List Char
  | .segments parts => parts.flatMap fun s => '/' :: s
  | .rootless text => text

/-- The user name and password as they are written, with the sign behind them. -/
def userInfoText (u : Url) : List Char :=
  if u.username.isEmpty && u.password.isNone then []
  else u.username ++ (match u.password with
    | some p => ':' :: p
    | none => []) ++ ['@']

/-- The part of an address that names the host. A path that begins with an empty segment would be
read as a host where there is none, so a dot segment stands before it. -/
def authorityText (u : Url) : List Char :=
  match u.host, u.path with
  | some host, _ =>
    '/' :: '/' :: userInfoText u ++ host ++ (match u.port with
      | some n => ':' :: Nat.toDigits 10 n
      | none => [])
  | none, .segments ([] :: _ :: _) => ['/', '.']
  | none, _ => []

/-- The characters of an address as it is written. -/
def characters (u : Url) : List Char :=
  u.scheme ++ ':' :: authorityText u ++ pathText u.path ++
    (match u.query with
      | some q => '?' :: q
      | none => []) ++
    (match u.fragment with
      | some f => '#' :: f
      | none => [])

/-- The address as it is written. -/
def text (u : Url) : String :=
  String.ofList u.characters

/-- The address without user name and password. -/
def hidden (u : Url) : Url :=
  { u with username := [], password := none }

/-- The address as a request line names it: without user name, password and fragment. -/
def target (u : Url) : Url :=
  { u.hidden with fragment := none }

/-- The address names a host. -/
def hasHost (u : Url) : Bool :=
  u.host.any (!·.isEmpty)

/-- The port of an address, with the one that the scheme implies. -/
def effectivePort (u : Url) : Option Nat :=
  u.port.orElse fun _ => defaultPort? u.scheme

/-- The addresses have the same host and port. -/
def sameOrigin (u v : Url) : Bool :=
  u.host == v.host && u.effectivePort == v.effectivePort

end Url

end ReleasePublisher
