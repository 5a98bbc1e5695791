import ReleasePublisher.Failure
import ReleasePublisher.Files.Reader
import ReleasePublisher.Http.Network
import ReleasePublisher.Text.Base64
import ReleasePublisher.Url.Parser

/-!
# The client

The client turns a draft into a request, sends it, and follows redirects: at most ten, telling each
time where it came from, and taking the authorization along only as long as host and port stay the
same. Every failure names the address that was asked for first.

## Main definitions

* `Payload`: the body of a request, read while it is sent
* `Draft`: what a request is made from
* `Draft.build`: the request, unless it cannot be built
* `nextHop`: the request that a redirect leads to
* `send`: sends a draft and follows redirects
-/

namespace ReleasePublisher

/-- The name under which the client presents itself. -/
def agentName : String := "relup/0.1.0"

/-! ### Bodies -/

/-- The body of a request, read while it is sent. -/
structure Payload where
  /-- The promised length. -/
  length : Nat
  /-- The pieces up to that length or to the end, unless reading fails. -/
  pieces : Except IoError (List Bytes)

/-- The size of the pieces in which a body is read. -/
def pieceSize (length : Nat) : Nat :=
  min length 8192

/-- Reads pieces until `left` bytes have been read or nothing is left. Each piece but the last holds
a byte, so fuel of `left` suffices. -/
def readPieces {σ : Type} (read : Read σ) (size : Nat) :
    Nat → Nat → σ → Except IoError (List Bytes)
  | 0, _, _ => .ok []
  | _, 0, _ => .ok []
  | fuel + 1, left, s =>
    match read s size with
    | (.error e, _) => .error e
    | (.ok [], _) => .ok []
    | (.ok piece, s) =>
      (readPieces read size fuel (left - piece.length) s).map (piece :: ·)

/-- The body of a given length that a reader gives. -/
def Payload.ofReader {σ : Type} (read : Read σ) (s : σ) (length : Nat) : Payload :=
  { length := length
    pieces := readPieces read (pieceSize length) length length s }

/-! ### Drafts -/

/-- What a request is made from. -/
structure Draft where
  method : Method
  address : String
  headers : Headers
  payload : Option Payload

/-- The value can stand in a header: it has no control characters but tabs. -/
def isHeaderValue (s : String) : Bool :=
  s.toList.all fun c => c == '\t' || !(Url.controls c)

/-- A user name and a password as a header states them. -/
def basicValue (username : String) (password : Option String) : String :=
  "Basic " ++ String.ofList (Base64.encode (Utf8.encode (username ++ ":" ++ password.getD "")))

/-- Takes user name and password out of an address. A user name that is not text stays. -/
def takeCredentials (u : Url) : Url × Option String :=
  let plain (cs : List Char) : Option String := Utf8.decode? (Url.percentDecode cs)
  match plain u.username with
  | none => (u, none)
  | some username =>
    let password := u.password.bind plain
    -- An address without user info states no credentials.
    if username.isEmpty && password.isNone then (u, none)
    else (u.hidden, some (basicValue username password))

/-- The address is not too long for a request line. -/
def isSendable (u : Url) : Bool :=
  u.target.characters.length ≤ 65534

/-- The scheme is one that the client speaks. -/
def isWebScheme (u : Url) : Bool :=
  u.scheme == ['h', 't', 't', 'p'] || u.scheme == ['h', 't', 't', 'p', 's']

namespace Draft

/-- The headers that a draft sends: its own, and those of the client that it does not set. -/
def allHeaders (d : Draft) (credentials : Option String) : Headers :=
  -- Credentials of the address stand before a token.
  let own : Headers := (credentials.toList.map fun v => ("authorization", v)) ++ d.headers
  let named : Headers := own.withDefault "user-agent" agentName
  let full : Headers := named.withDefault "accept" "*/*"
  match d.payload with
  | some p => full ++ [("content-length", toString p.length)]
  | none => full

/-- The request that a draft makes, without its body. An address that cannot be read comes before a
bad header, and a bad header before a scheme that the client does not speak. -/
def build (d : Draft) : Except HttpFailure Request :=
  match Url.parse d.address with
  | .error _ => .error (.notBuilt none)
  | .ok u =>
    if !u.hasHost then .error (.notBuilt (some u.text))
    else if !d.headers.all (isHeaderValue ·.2) then .error (.notBuilt none)
    else
      let (u, credentials) := takeCredentials u
      if isWebScheme u && isSendable u then
        .ok { method := d.method, url := u, headers := d.allHeaders credentials, body := [] }
      else .error (.notBuilt (some u.text))

end Draft

/-! ### Redirects -/

/-- The greatest number of redirects that are followed. -/
def maxRedirects : Nat := 10

/-- The statuses that tell where to ask again. -/
def isRedirect (status : Nat) : Bool :=
  status == 301 || status == 302 || status == 303 || status == 307 || status == 308

/-- The redirect keeps the method and the body. -/
def keepsBody (status : Nat) : Bool :=
  status == 307 || status == 308

/-- Where an answer leads, if it leads somewhere. -/
def locationOf? (u : Url) (r : Response) : Option Url :=
  match (r.headers.values "location").head? with
  | none => none
  | some l =>
    match u.join l with
    | .ok v => if isSendable v then some v else none
    | .error _ => none

/-- The headers of a request that follows one to `source`. -/
def hopHeaders (hs : Headers) (source next : Url) : Headers :=
  let hs :=
    -- A secure address is not told to an insecure one.
    if next.scheme == ['h', 't', 't', 'p'] && source.scheme == ['h', 't', 't', 'p', 's'] then hs
    else hs.without "referer" ++ [("referer", source.target.text)]
  if source.sameOrigin next then hs else hs.without "authorization"

/-- The request that a redirect leads to. Only the redirects that keep the method keep the body,
and a body that was read while it was sent is gone: those are not followed. -/
def nextHop (r : Request) (isStreamed : Bool) (a : Response) : Option Request :=
  if !isRedirect a.status || (keepsBody a.status && isStreamed) then none
  else (locationOf? r.url a).map fun next =>
    if keepsBody a.status then
      { r with url := next, headers := hopHeaders r.headers r.url next }
    else
      -- The other redirects ask with a plain request, without the headers of the lost body.
      let typeless : Headers := r.headers.without "content-type"
      let hs : Headers := typeless.without "content-length"
      { method := .get, url := next, headers := hopHeaders hs r.url next, body := [] }

/-- Sends a request and follows at most `allowed` redirects. -/
def follow (first : String) : Nat → Request → Bool → Network →
    Except HttpFailure Response × Network
  | allowed, r, isStreamed, n =>
    match n.exchange r with
    | (none, n) => (.error (.notSent first), n)
    | (some a, n) =>
      match nextHop r isStreamed a with
      | none => (.ok a, n)
      | some next =>
        match allowed with
        | 0 => (.error (.tooManyRedirects first), n)
        | allowed + 1 =>
          if isWebScheme next.url then
            follow first allowed next (isStreamed && keepsBody a.status) n
          else (.error (.notBuilt (some first)), n)

/-- Sends a draft and follows redirects. A body that cannot be read, or is shorter than promised, is
given up half-way, and so is one of several pieces that nobody takes. -/
def send (d : Draft) (n : Network) : Except HttpFailure Response × Network :=
  match d.build with
  | .error e => (.error e, n)
  | .ok r =>
    let first := r.url.text
    match d.payload with
    | none => follow first maxRedirects r false n
    | some p =>
      match p.pieces with
      | .error _ => (.error (.bodyNotSent first), n)
      | .ok pieces =>
        -- The first piece is taken before the connection fails, the second finds nobody.
        if !n.connects r.url && 1 < pieces.length then (.error (.bodyNotSent first), n)
        else
          let body := pieces.flatten
          -- The other side waits for bytes that never come.
          if n.connects r.url && body.length < p.length then (.error (.notSent first), n)
          else follow first maxRedirects { r with body := body.take p.length } true n

end ReleasePublisher
