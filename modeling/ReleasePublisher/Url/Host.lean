import ReleasePublisher.Url.Domain

/-!
# Hosts

The host of an address is a domain name or an address of the internet protocol, in its canonical
text: four decimal numbers, or groups of hexadecimal digits with the longest run of zero groups
left out. A domain name whose last part is a number is read as the former.

## Main definitions

* `Url.UrlError`: why an address cannot be read
* `Url.parseHost cs`: the canonical text of a host
-/

namespace ReleasePublisher.Url

/-- Why an address cannot be read. -/
inductive UrlError where
  | emptyHost
  | invalidDomain
  | invalidPort
  | invalidIpv4
  | invalidIpv6
  | invalidHostCharacter
  | relativeWithoutBase
  deriving DecidableEq, Repr

/-- What the failure to read an address says. -/
def UrlError.message : UrlError → String
  | emptyHost => "empty host"
  | invalidDomain => "invalid international domain name"
  | invalidPort => "invalid port number"
  | invalidIpv4 => "invalid IPv4 address"
  | invalidIpv6 => "invalid IPv6 address"
  | invalidHostCharacter => "invalid domain character"
  | relativeWithoutBase => "relative URL without a base"

/-! ### Four numbers -/

/-- The number that digits state in a base. -/
def numberIn (base : Nat) (ds : List Char) : Nat :=
  ds.foldl (fun n d => n * base + (Hex.value? d).getD 0) 0

/-- The characters are digits of a base. -/
def allDigits (base : Nat) (ds : List Char) : Bool :=
  ds.all fun d => (Hex.value? d).any (· < base)

/-- The number that a part states: decimal, octal behind a zero, hexadecimal behind `0x`. -/
def partNumber? (cs : List Char) : Option Nat :=
  let (base, ds) := match cs with
    | '0' :: 'x' :: rest => (16, rest)
    | '0' :: 'X' :: rest => (16, rest)
    | '0' :: d :: rest => (8, d :: rest)
    | _ => (10, cs)
  if cs.isEmpty then none
  else if allDigits base ds then some (numberIn base ds) else none

/-- The parts of a domain name, without an empty one at its end. -/
def numberParts (cs : List Char) : List (List Char) :=
  let parts := splitDots cs
  if 1 < parts.length && parts.getLast? == some [] then parts.dropLast else parts

/-- The last part of a domain name is a number. -/
def endsInNumber (cs : List Char) : Bool :=
  match (numberParts cs).getLast? with
  | some last => (!last.isEmpty && allDigits 10 last) || (partNumber? last).isSome
  | none => false

/-- The address that the parts of a domain name state: the last part fills all bytes that are
left. -/
def ipv4 (cs : List Char) : Except UrlError Nat :=
  let parts := numberParts cs
  if 4 < parts.length then .error .invalidIpv4
  else match parts.mapM partNumber? with
    | none => .error .invalidIpv4
    | some numbers =>
      let front := numbers.dropLast
      let last := numbers.getLastD 0
      if front.any (255 < ·) || Nat.pow 256 (4 - front.length) ≤ last then .error .invalidIpv4
      else
        let high := front.foldl (fun n k => n * 256 + k) 0
        -- The last part stands for all bytes that the others leave.
        .ok (high * Nat.pow 256 (4 - front.length) + last)

/-- The text of an address of four bytes. -/
def ipv4Text (n : Nat) : List Char :=
  List.intercalate ['.'] ([n / 16777216, n / 65536 % 256, n / 256 % 256, n % 256].map
    (Nat.toDigits 10))

/-! ### Groups of hexadecimal digits -/

/-- The groups at the start of a text, with single colons between them, and the rest. -/
structure Groups where
  groups : List Nat
  /-- How many groups stood before the two colons, if those were met. -/
  gap : Option Nat

/-- The two groups that four decimal numbers state. -/
def dottedGroups? (cs : List Char) : Option (List Nat) :=
  let byte? (ds : List Char) : Option Nat :=
    if ds.isEmpty || !allDigits 10 ds || (1 < ds.length && ds.head? == some '0') ||
      255 < numberIn 10 ds then none else some (numberIn 10 ds)
  match (splitDots cs).mapM byte? with
  | some [a, b, c, d] => some [a * 256 + b, c * 256 + d]
  | _ => none

/-- Reads groups. `g` holds those read before; a group, two colons, or the end may stand next. -/
def readGroups : Nat → Groups → List Char → Option Groups
  | 0, _, _ => none
  | fuel + 1, g, cs =>
    match cs with
    | [] => some g
    | ':' :: rest =>
      if g.gap.isSome then none else readGroups fuel { g with gap := some g.groups.length } rest
    | _ =>
      let ds := (cs.take 4).takeWhile fun c => (Hex.value? c).isSome
      let rest := cs.drop ds.length
      let read := g.groups ++ [numberIn 16 ds]
      match rest with
      | [] => if ds.isEmpty then none else some { g with groups := read }
      | ':' :: more =>
        if ds.isEmpty || more.isEmpty then none
        else readGroups fuel { g with groups := read } more
      | '.' :: _ => (dottedGroups? cs).map fun ns => { g with groups := g.groups ++ ns }
      | _ => none

/-- The eight groups that a text between brackets states. -/
def ipv6 (cs : List Char) : Except UrlError (List Nat) :=
  let start := match cs with
    | ':' :: ':' :: rest => some rest
    | ':' :: _ => none
    | _ => some cs
  let gap := if cs.take 2 == [':', ':'] then some 0 else none
  match start.bind (readGroups (cs.length + 1) ⟨[], gap⟩) with
  | none => .error .invalidIpv6
  | some ⟨groups, none⟩ => if groups.length == 8 then .ok groups else .error .invalidIpv6
  | some ⟨groups, some gap⟩ =>
    -- Two colons stand for at least one group.
    if 7 < groups.length then .error .invalidIpv6
    else .ok (groups.take gap ++ List.replicate (8 - groups.length) 0 ++ groups.drop gap)

/-- The length of the run of zeros at the start. -/
def zeroRun (gs : List Nat) : Nat :=
  (gs.takeWhile (· == 0)).length

/-- Where the longest run of at least two zeros starts, and how long it is; of several, the
first. -/
def longestZeros (gs : List Nat) : Option (Nat × Nat) :=
  let runs := (List.range gs.length).map fun i => (i, zeroRun (gs.drop i))
  let best := runs.foldl (fun b r => if b.2 < r.2 then r else b) ((0, 0) : Nat × Nat)
  if 2 ≤ best.2 then some best else none

/-- The text of eight groups, in brackets. -/
def ipv6Text (gs : List Nat) : List Char :=
  let shown (gs : List Nat) : List Char := List.intercalate [':'] (gs.map Hex.ofNat)
  let inner := match longestZeros gs with
    | none => shown gs
    | some (i, n) => shown (gs.take i) ++ ':' :: ':' :: shown (gs.drop (i + n))
  '[' :: inner ++ [']']

/-! ### Hosts -/

/-- The canonical text of a host in brackets. -/
def bracketHost (cs : List Char) : Except UrlError (List Char) :=
  if cs.getLast? == some ']' then (ipv6 (cs.drop 1).dropLast).map ipv6Text
  else .error .invalidIpv6

/-- The canonical text of the host of an address with a special scheme. -/
def parseHost (cs : List Char) : Except UrlError (List Char) :=
  if cs.head? == some '[' then bracketHost cs
  else match domainToAscii? (percentDecode cs) with
    | none => .error .invalidDomain
    | some domain =>
      if domain.isEmpty then .error .emptyHost
      else if endsInNumber domain then (ipv4 domain).map ipv4Text
      else .ok domain

/-- A character that may not stand in the host of an address with another scheme. -/
def isForbiddenHost (c : Char) : Bool :=
  ['\x00', '\t', '\n', '\r', ' ', '#', '/', ':', '<', '>', '?', '@', '[', '\\', ']', '^',
    '|'].contains c

/-- The canonical text of the host of an address with another scheme. -/
def parseOtherHost (cs : List Char) : Except UrlError (List Char) :=
  if cs.head? == some '[' then bracketHost cs
  else if cs.any isForbiddenHost then .error .invalidHostCharacter
  else .ok (percentEncode controls cs)

end ReleasePublisher.Url
