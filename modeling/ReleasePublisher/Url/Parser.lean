import ReleasePublisher.Text.Blank
import ReleasePublisher.Url.Basic

/-!
# Reading addresses

An address is read into its canonical parts: blanks at its ends, tabs and line ends are dropped,
dots in the path are resolved, ports that the scheme implies are left out, and characters that may
not stand in a part are percent-encoded. A text without a scheme is an address only as seen from
another one.

## Main definitions

* `Url.parse s`: the address that a text states
* `Url.join base s`: the address that a text states on a page with the address `base`
* `Url.resolveDots`: the segments of a path, with dot segments resolved
-/

namespace ReleasePublisher.Url

/-- Drops tabs and line ends, and blanks and control characters at both ends. -/
def clean (cs : List Char) : List Char :=
  let isEdge (c : Char) : Bool := c.toNat ≤ 0x20
  (Text.dropEndWhile isEdge (cs.dropWhile isEdge)).filter fun c =>
    c != '\t' && c != '\n' && c != '\r'

/-- A character of a scheme. -/
def isSchemeChar (c : Char) : Bool :=
  c.isAlphanum || c == '+' || c == '-' || c == '.'

/-- The scheme at the start of a text, and what follows its colon. -/
def splitScheme? (cs : List Char) : Option (List Char × List Char) :=
  match cs.dropWhile isSchemeChar with
  | ':' :: rest =>
    if cs.head?.any Char.isAlpha then some ((cs.takeWhile isSchemeChar).map Char.toLower, rest)
    else none
  | _ => none

/-- A slash, or a backslash where the scheme is special. -/
def isSlash (special : Bool) (c : Char) : Bool :=
  c == '/' || (special && c == '\\')

/-- A character that ends the path. -/
def endsPath (c : Char) : Bool :=
  c == '?' || c == '#'

/-- Splits a text at the characters that satisfy `p`. -/
def splitAll (p : Char → Bool) : List Char → List (List Char)
  | [] => [[]]
  | c :: cs =>
    if p c then [] :: splitAll p cs
    else match splitAll p cs with
      | [] => [[c]]
      | part :: parts => (c :: part) :: parts

/-- Splits a text at the last character `c`. -/
def splitLast? (c : Char) (cs : List Char) : Option (List Char × List Char) :=
  if cs.contains c then
    let after := (cs.reverse.takeWhile (· != c)).reverse
    some (cs.take (cs.length - after.length - 1), after)
  else none

/-! ### Paths -/

/-- A segment with its encoded dots decoded. -/
def decodeDots : List Char → List Char
  | '%' :: '2' :: e :: rest =>
    if e == 'e' || e == 'E' then '.' :: decodeDots rest else '%' :: '2' :: e :: rest
  | c :: rest => c :: decodeDots rest
  | [] => []

/-- The segment stands for the directory itself. -/
def isSingleDot (s : List Char) : Bool :=
  decodeDots s == ['.']

/-- The segment stands for the directory above. -/
def isDoubleDot (s : List Char) : Bool :=
  decodeDots s == ['.', '.']

/-- The letter of a drive, in the two spellings of such a segment. -/
def driveLetter? : List Char → Option Char
  | [c, ':'] => if c.isAlpha then some c else none
  | [c, '|'] => if c.isAlpha then some c else none
  | _ => none

/-- A segment as it stands in an address. The path of a file may name a drive. -/
def segmentText (isFile : Bool) (s : List Char) : List Char :=
  match isFile, driveLetter? s with
  | true, some c => [c, ':']
  | _, _ => percentEncode pathSet s

/-- The segments above the last one. A drive has nothing above it. -/
def above (isFile : Bool) (done : List (List Char)) : List (List Char) :=
  if isFile && (done.getLast?.bind driveLetter?).isSome then done else done.dropLast

/-- The segments of a path behind those in `done`, with dot segments resolved. A dot segment at the
end leaves an empty segment. -/
def resolveDots (isFile : Bool) (done : List (List Char)) :
    List (List Char) → List (List Char)
  | [] => done
  | s :: rest =>
    let done :=
      if isDoubleDot s then above isFile done
      else if isSingleDot s then done
      else done ++ [segmentText isFile s]
    let isDots := isDoubleDot s || isSingleDot s
    -- A directory at the end keeps its slash.
    if rest.isEmpty && isDots then done ++ [[]] else resolveDots isFile done rest

/-- The parts of an address that follow the authority: path, query and fragment. -/
structure Tail where
  path : UrlPath
  query : Option (List Char)
  fragment : Option (List Char)

/-- Reads the fragment. -/
def parseFragment : List Char → Option (List Char)
  | '#' :: rest => some (percentEncode fragmentSet rest)
  | _ => none

/-- Reads the query and the fragment. -/
def parseQuery (special : Bool) (path : UrlPath) (cs : List Char) : Tail :=
  match cs with
  | '?' :: rest =>
    let set := if special then specialQuerySet else querySet
    { path := path
      query := some (percentEncode set (rest.takeWhile (· != '#')))
      fragment := parseFragment (rest.dropWhile (· != '#')) }
  | _ => { path := path, query := none, fragment := parseFragment cs }

/-- Reads a path behind the segments in `done`, then the query and the fragment. -/
def parseSegments (special : Bool) (done : List (List Char)) (cs : List Char) : Tail :=
  let text := cs.takeWhile (!endsPath ·)
  parseQuery special (.segments (resolveDots false done (splitAll (isSlash special) text)))
    (cs.dropWhile (!endsPath ·))

/-- Drops one slash. -/
def dropSlash (special : Bool) : List Char → List Char
  | [] => []
  | c :: rest => if isSlash special c then rest else c :: rest

/-- Reads what follows the authority. Only an address with a special scheme always has a path. -/
def parseTail (special : Bool) (cs : List Char) : Tail :=
  if !special && (cs.isEmpty || cs.head?.any endsPath) then
    parseQuery special (.segments []) cs
  else parseSegments special [] (if special then dropSlash true cs else dropSlash false cs)

/-! ### Authorities -/

/-- The host at the start of an authority ends at the first colon outside brackets. Gives its
length. -/
def hostLength (inBrackets : Bool) : List Char → Nat
  | [] => 0
  | c :: rest =>
    if c == ':' && !inBrackets then 0
    else hostLength (if c == '[' then true else if c == ']' then false else inBrackets) rest + 1

/-- The port that follows a host, and what follows it. No digits state no port, nor does the port
that the scheme implies. -/
def parsePort (scheme : List Char) : List Char → Except UrlError (Option Nat × List Char)
  | ':' :: rest =>
    let digits := rest.takeWhile Char.isDigit
    let more := rest.dropWhile Char.isDigit
    let n := numberIn 10 digits
    if 65535 < n || !(more.isEmpty || more.head? == some '\\') then .error .invalidPort
    else .ok (if digits.isEmpty || some n == defaultPort? scheme then none else some n, more)
  | rest => .ok (none, rest)

/-- The user name and password that stand before a host. An empty password does not count. -/
def parseUserInfo (cs : List Char) : List Char × Option (List Char) :=
  let name := cs.takeWhile (· != ':')
  let password := match cs.dropWhile (· != ':') with
    | _ :: c :: rest => some (percentEncode userInfoSet (c :: rest))
    | _ => none
  (percentEncode userInfoSet name, password)

/-- The character ends an authority. -/
def endsAuthority (special : Bool) (c : Char) : Bool :=
  isSlash special c || endsPath c

/-- An authority, taken apart. -/
structure AuthorityParts where
  userInfo : List Char
  hostText : List Char
  /-- What follows the host, from the colon on. -/
  portText : List Char

/-- Takes an authority apart. -/
def partsOf (authority : List Char) : AuthorityParts :=
  -- The last at sign counts: those before it belong to the user info.
  let (userInfo, hostPort) := (splitLast? '@' authority).getD ([], authority)
  let n := hostLength false hostPort
  { userInfo := userInfo, hostText := hostPort.take n, portText := hostPort.drop n }

/-- Reads an address from its authority on. -/
def parseAuthority (scheme cs : List Char) : Except UrlError Url :=
  let special := isSpecial scheme
  let authority := cs.takeWhile (!endsAuthority special ·)
  let after := cs.dropWhile (!endsAuthority special ·)
  let parts := partsOf authority
  if (authority == ['@'] && !after.isEmpty) || (parts.hostText.isEmpty && special) then
    .error .emptyHost
  else match if special then parseHost parts.hostText else parseOtherHost parts.hostText with
    | .error e => .error e
    | .ok host =>
      if host.isEmpty && parts.portText.head? == some ':' then .error .emptyHost
      else match parsePort scheme parts.portText with
        | .error e => .error e
        | .ok (port, more) =>
          let (username, password) := parseUserInfo parts.userInfo
          -- Only a host can have a user.
          if host.isEmpty && !(username.isEmpty && password.isNone) then .error .emptyHost
          else
            let tail := parseTail special (more ++ after)
            .ok { scheme, username, password, host := some host, port, path := tail.path,
                  query := tail.query, fragment := tail.fragment }

/-- Reads the path of a file. Slashes at its start count once. -/
def parseFilePath (scheme host cs : List Char) : Url :=
  let parts := resolveDots true [] (splitAll (isSlash true) (cs.takeWhile (!endsPath ·)))
  let trimmed := parts.dropWhile List.isEmpty
  let path := if trimmed.isEmpty then [[]] else trimmed
  let tail := parseQuery true (.segments path) (cs.dropWhile (!endsPath ·))
  { scheme, username := [], password := none, host := some host, port := none, path := tail.path,
    query := tail.query, fragment := tail.fragment }

/-- Reads the address of a file. The local host is not written, and a drive is not a host. -/
def parseFile (scheme : List Char) : List Char → Except UrlError Url
  | a :: b :: rest =>
    if isSlash true a && isSlash true b then do
      let isEnd (c : Char) : Bool := isSlash true c || endsPath c
      let hostText := rest.takeWhile (!isEnd ·)
      -- The letter of a drive in the place of the host begins the path.
      if hostText.isEmpty || (driveLetter? hostText).isSome then
        return parseFilePath scheme [] rest
      let host ← parseHost hostText
      let isLocal := host == ['l', 'o', 'c', 'a', 'l', 'h', 'o', 's', 't']
      return parseFilePath scheme (if isLocal then [] else host) (rest.dropWhile (!isEnd ·))
    else .ok (parseFilePath scheme [] (a :: b :: rest))
  | cs => .ok (parseFilePath scheme [] cs)

/-- Reads an address whose scheme is not special. -/
def parseOther (scheme : List Char) : List Char → Except UrlError Url
  | '/' :: '/' :: rest => parseAuthority scheme rest
  | cs =>
    let tail := match cs with
      | '/' :: rest => parseSegments false [] rest
      | _ =>
        parseQuery false (.rootless (percentEncode controls (cs.takeWhile (!endsPath ·))))
          (cs.dropWhile (!endsPath ·))
    .ok { scheme, username := [], password := none, host := none, port := none,
          path := tail.path, query := tail.query, fragment := tail.fragment }

/-- Reads what follows a scheme. -/
def parseAfterScheme (scheme cs : List Char) : Except UrlError Url :=
  if scheme == ['f', 'i', 'l', 'e'] then parseFile scheme cs
  else if isSpecial scheme then parseAuthority scheme (cs.dropWhile (isSlash true))
  else parseOther scheme cs

/-- The address that a text states. -/
def parse (s : String) : Except UrlError Url :=
  match splitScheme? (clean s.toList) with
  | some (scheme, rest) => parseAfterScheme scheme rest
  | none => .error .relativeWithoutBase

/-! ### Relative addresses -/

/-- The segments of a path without the last one. -/
def directoryOf : UrlPath → List (List Char)
  | .segments parts => parts.dropLast
  | .rootless _ => []

/-- The address that a text without a scheme states, as seen from `base`. -/
def parseRelative (base : Url) (cs : List Char) : Except UrlError Url :=
  let special := isSpecial base.scheme
  let withTail (tail : Tail) : Except UrlError Url :=
    .ok { base with path := tail.path, query := tail.query, fragment := tail.fragment }
  match cs with
  | [] => .ok { base with fragment := none }
  | '?' :: _ => withTail (parseQuery special base.path cs)
  | '#' :: _ => withTail { parseQuery special base.path cs with query := base.query }
  | '/' :: '/' :: rest => parseAuthority base.scheme rest
  | a :: rest =>
    if isSlash special a then
      if rest.head?.any (isSlash special) then
        parseAuthority base.scheme (rest.dropWhile (isSlash special))
      else withTail (parseSegments special [] rest)
    else withTail (parseSegments special (directoryOf base.path) cs)

/-- The address that a text states, as seen from `base`. -/
def join (base : Url) (s : String) : Except UrlError Url :=
  let cs := clean s.toList
  match splitScheme? cs with
  | some (scheme, rest) =>
    let slashes := (rest.takeWhile (isSlash true)).length
    -- The scheme of the base without an authority is no address of its own.
    if isSpecial scheme && scheme == base.scheme && slashes < 2 then parseRelative base rest
    else parseAfterScheme scheme rest
  | none => parseRelative base cs

end ReleasePublisher.Url
