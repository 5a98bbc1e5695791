import ReleasePublisher.Text.Hex

/-!
# Percent encoding

A character that may not stand in a part of an address is written as the bytes of its UTF-8 form,
each as a percent sign and two upper-case hexadecimal digits. Each part has its own set of
characters to encode; characters outside ASCII are always encoded.

## Main definitions

* `Url.controls`, `Url.fragmentSet`, `Url.querySet`, `Url.specialQuerySet`, `Url.pathSet`,
  `Url.userInfoSet`: the characters that are encoded in each part
* `Url.percentEncode set cs`: the encoded characters
* `Url.percentDecode cs`: the bytes that encoded characters stand for
-/

namespace ReleasePublisher.Url

/-- Control characters. -/
def controls (c : Char) : Bool :=
  c.toNat < 0x20 || c.toNat == 0x7F

/-- The characters that are encoded in a fragment. -/
def fragmentSet (c : Char) : Bool :=
  controls c || c == ' ' || c == '"' || c == '<' || c == '>' || c == '\x60'

/-- The characters that are encoded in a query. -/
def querySet (c : Char) : Bool :=
  controls c || c == ' ' || c == '"' || c == '#' || c == '<' || c == '>'

/-- The characters that are encoded in the query of an address with a special scheme. -/
def specialQuerySet (c : Char) : Bool :=
  querySet c || c == '\''

/-- The characters that are encoded in a path. -/
def pathSet (c : Char) : Bool :=
  fragmentSet c || c == '#' || c == '?' || c == '{' || c == '}'

/-- The characters that are encoded in a user name or password. -/
def userInfoSet (c : Char) : Bool :=
  pathSet c || c == '/' || c == ':' || c == ';' || c == '=' || c == '@' || c == '[' ||
    c == '\\' || c == ']' || c == '^' || c == '|'

/-- A byte as a percent sign and two digits. -/
def percentByte (b : UInt8) : List Char :=
  ['%', Hex.upperDigit (b.toNat / 16), Hex.upperDigit (b.toNat % 16)]

/-- A character as it stands in a part of an address. -/
def percentChar (set : Char → Bool) (c : Char) : List Char :=
  if c.toNat < 0x80 && !set c then [c] else (Utf8.encodeChar c).flatMap percentByte

/-- Characters as they stand in a part of an address. -/
def percentEncode (set : Char → Bool) (cs : List Char) : List Char :=
  cs.flatMap (percentChar set)

/-- The bytes that encoded characters stand for. A percent sign without two digits stands for
itself. -/
def percentDecode : List Char → Bytes
  | [] => []
  | '%' :: a :: b :: rest =>
    match Hex.value? a, Hex.value? b with
    | some hi, some lo => UInt8.ofNat (hi * 16 + lo) :: percentDecode rest
    | _, _ => 0x25 :: percentDecode (a :: b :: rest)
  | c :: rest => Utf8.encodeChar c ++ percentDecode rest

end ReleasePublisher.Url
