import ReleasePublisher.Url.Basic

/-!
# Form encoding

Pairs of names and values travel in the query of an address: an equals sign stands within a pair and
an ampersand between pairs, a blank is a plus sign, and all but letters, digits and four marks is
percent-encoded.

## Main definitions

* `Form.encode s`: a name or a value as it stands in a query
* `Form.pairs query`: the pairs that a query states
* `Url.addPair u name value`: the address with one more pair in its query
-/

namespace ReleasePublisher

namespace Form

/-- A byte that stands for itself. -/
def isPlain (b : UInt8) : Bool :=
  let c := Char.ofNat b.toNat
  b < 0x80 && (c.isAlphanum || c == '*' || c == '-' || c == '.' || c == '_')

/-- A byte as it stands in a query. -/
def encodeByte (b : UInt8) : List Char :=
  if b == 0x20 then ['+'] else if isPlain b then [Char.ofNat b.toNat] else Url.percentByte b

/-- A name or a value as it stands in a query. -/
def encode (s : String) : List Char :=
  (Utf8.encode s).flatMap encodeByte

/-- What a name or a value in a query states. -/
def decode (cs : List Char) : String :=
  Utf8.lossy (Url.percentDecode (cs.map fun c => if c == '+' then ' ' else c))

/-- The pieces between ampersands. -/
def pieces : List Char → List (List Char)
  | [] => [[]]
  | c :: cs =>
    if c == '&' then [] :: pieces cs
    else match pieces cs with
      | [] => [[c]]
      | p :: ps => (c :: p) :: ps

/-- The pairs that a query states. Empty pieces state none. -/
def pairs (query : List Char) : List (String × String) :=
  ((pieces query).filter (!·.isEmpty)).map fun p =>
    (decode (p.takeWhile (· != '=')), decode ((p.dropWhile (· != '=')).drop 1))

end Form

/-- The address with one more pair in its query. -/
def Url.addPair (u : Url) (name value : String) : Url :=
  let query := u.query.getD []
  let pair := Form.encode name ++ '=' :: Form.encode value
  { u with query := some (query ++ (if query.isEmpty then [] else ['&']) ++ pair) }

end ReleasePublisher
