import ReleasePublisher.Text.Blank
import ReleasePublisher.Text.Quoted

/-!
# Paths

A path is a byte string in which slashes separate names. It need not be text: it is shown with
U+FFFD for what is not UTF-8. Joining keeps paths as they are written; nothing is normalised.

## Main definitions

* `Path`: a path
* `Path.join p q`: `q` seen from the directory `p`
* `Path.components p`: the normal components of a path
* `Path.display p`, `Path.text? p`, `Path.quoted p`: the path as text
-/

namespace ReleasePublisher

/-- A path: names separated by slashes. -/
structure Path where
  bytes : Bytes
  deriving DecidableEq, Repr, Inhabited

/-- A component of a path. -/
inductive PathComponent where
  /-- The slash at the start of an absolute path. -/
  | root
  /-- A single dot at the start of a relative path. -/
  | current
  /-- Two dots. -/
  | parent
  | name (bytes : Bytes)
  deriving DecidableEq, Repr

namespace Path

/-- The slash. -/
def slash : UInt8 := 0x2F

/-- The dot. -/
def dot : UInt8 := 0x2E

/-- The path that a text states. -/
def ofText (s : String) : Path :=
  ⟨Utf8.encode s⟩

/-- The path as it is shown. -/
def display (p : Path) : String :=
  Utf8.lossy p.bytes

/-- The path as a text, if it is one. -/
def text? (p : Path) : Option String :=
  Utf8.decode? p.bytes

/-- The bytes of a path inside quotes: characters as in quoted text, single quotes escaped too, and
bytes that are not UTF-8 by their numbers. -/
def quotedBytes : Bytes → List Char
  | [] => []
  | b :: rest =>
    let number (b : UInt8) : List Char :=
      ['\\', 'x', Hex.upperDigit (b.toNat / 16), Hex.upperDigit (b.toNat % 16)]
    let (c, n) := Utf8.step b rest
    -- A piece that is no character is shown byte by byte.
    let shown := match c with
      | some c => if c == '\'' then ['\\', c] else Text.escapeChar c
      | none => (b :: rest.take n).flatMap number
    shown ++ quotedBytes (rest.drop n)
termination_by bs => bs.length
decreasing_by (simp only [List.length_drop, List.length_cons]; omega)

/-- The quoted path. -/
def quoted (p : Path) : String :=
  String.ofList ('"' :: quotedBytes p.bytes ++ ['"'])

/-- The path starts at the root. -/
def isAbsolute (p : Path) : Bool :=
  p.bytes.head? == some slash

/-- `q` seen from the directory `p`: an absolute `q` stands for itself, and one slash separates
the two where `p` has none at its end. -/
def join (p q : Path) : Path :=
  if q.isAbsolute then q
  else if p.bytes.isEmpty || p.bytes.getLast? == some slash then ⟨p.bytes ++ q.bytes⟩
  else ⟨p.bytes ++ slash :: q.bytes⟩

/-- The pieces between slashes, empty ones included. -/
def splitSlash : Bytes → List Bytes
  | [] => [[]]
  | b :: rest =>
    if b == slash then [] :: splitSlash rest
    else match splitSlash rest with
      | [] => [[b]]
      | piece :: more => (b :: piece) :: more

/-- The names between slashes. Empty ones do not count. -/
def names (p : Path) : List Bytes :=
  (splitSlash p.bytes).filter (!·.isEmpty)

/-- The component that a name states; a single dot states none. -/
def component? (name : Bytes) : Option PathComponent :=
  if name == [dot] then none
  else if name == [dot, dot] then some .parent
  else some (.name name)

/-- The components of a path. Single dots count only at the start of a relative path. -/
def components (p : Path) : List PathComponent :=
  let start : List PathComponent :=
    if p.isAbsolute then [.root]
    else if (splitSlash p.bytes).head? == some [dot] then [.current] else []
  start ++ p.names.filterMap component?

/-- The path ends in a slash. -/
def endsInSlash (p : Path) : Bool :=
  p.bytes.getLast? == some slash

/-- The names with slashes between them. -/
def ofNames (absolute : Bool) (names : List Bytes) : Path :=
  ⟨(if absolute then [slash] else []) ++ List.intercalate [slash] names⟩

/-- The names without the single dots at the end. A single dot at the start of a relative path
stays. -/
def trimDots (absolute : Bool) (names : List Bytes) : List Bytes :=
  match absolute, names with
  | false, first :: rest => first :: Text.dropEndWhile (· == [dot]) rest
  | _, names => Text.dropEndWhile (· == [dot]) names

/-- The path without its last component, if it has one to lose. -/
def parent? (p : Path) : Option Path :=
  match trimDots p.isAbsolute p.names with
  | [] => none
  | names => some (ofNames p.isAbsolute (trimDots p.isAbsolute names.dropLast))

/-- The last name of a path, if it ends in one. -/
def fileName? (p : Path) : Option Bytes :=
  match p.components.getLast? with
  | some (.name n) => some n
  | _ => none

end Path

end ReleasePublisher
