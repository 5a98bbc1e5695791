import ReleasePublisher.Http.Message

/-!
# The network

The network answers requests from a script, one answer for each request, and keeps the requests it
was sent. It may also be out of reach, for all requests or for those with transport security; then no
request is answered.

## Main definitions

* `Network`: what is left of the script, and the requests so far
* `Network.connects n u`: the addresses that can be reached
* `Network.exchange n r`: sends a request
-/

namespace ReleasePublisher

/-- What the network does with a request. -/
inductive Answer where
  /-- The connection is closed without an answer. -/
  | dropped
  | response (r : Response)
  deriving DecidableEq, Repr

/-- The network that a run reaches. -/
structure Network where
  /-- Connections can be made. -/
  isReachable : Bool
  /-- So can those with transport security. -/
  isSecure : Bool := true
  /-- The answers to the next requests. -/
  script : List Answer
  /-- The requests that were sent, the first one first. -/
  sent : List Request
  deriving DecidableEq, Repr

namespace Network

/-- The answer to requests for which the script has none. -/
def unscripted : Response :=
  { status := 500
    headers := []
    body := Utf8.encode "unscripted request"
    isComplete := true }

/-- An answer as it arrives: some have no body, whatever they were given. -/
def delivered (r : Response) : Response :=
  if r.status == 204 || r.status == 304 then { r with body := [], isComplete := true } else r

/-- A connection can be made to an address, with transport security or without it. -/
def connects (n : Network) (u : Url) : Bool :=
  n.isReachable &&
    (u.scheme == ['h', 't', 't', 'p'] || n.isSecure && u.scheme == ['h', 't', 't', 'p', 's'])

/-- Sends a request. There is no answer if no connection is made or the connection is closed. -/
def exchange (n : Network) (r : Request) : Option Response × Network :=
  if n.connects r.url then
    let n := { n with sent := n.sent ++ [r] }
    match n.script with
    -- The script has run out.
    | [] => (some unscripted, n)
    | .dropped :: script => (none, { n with script := script })
    | .response a :: script => (some (delivered a), { n with script := script })
  else (none, n)

end Network

end ReleasePublisher
