import ReleasePublisher.Archive.Tar
import ReleasePublisher.Files.IoError
import ReleasePublisher.Files.Path

/-!
# Names of entries

The name of an entry is a path without dots, relative to the directory where the archive is
unpacked. A path that leads elsewhere has no such name. A name that is too long for a header is
stated by an entry of its own, and its start stands in the header.

## Main definitions

* `Tar.NameFault`: why a path is no name of an entry
* `Tar.nameOf p`: the name that a path states
* `Tar.placeName p`: the entries that stand before the header, and the name in the header
-/

namespace ReleasePublisher.Tar

/-- Why a path is no name of an entry, and the part of the name before that. -/
inductive NameFault where
  | absolute (written : Bytes)
  | leadsAbove (written : Bytes)
  | tooLong (written : Bytes)
  | empty
  deriving DecidableEq, Repr

/-- What the fault of a name says. -/
def NameFault.message : NameFault → String
  | absolute written =>
    "paths in archives must be relative when setting path for " ++ Utf8.lossy written
  | leadsAbove written =>
    "paths in archives must not have `..` when setting path for " ++ Utf8.lossy written
  | tooLong written => "provided value is too long when setting path for " ++ Utf8.lossy written
  | empty => "paths in archives must have at least one component when setting path for "

/-- A name with one more component, behind a slash if there is one before. -/
def addName (written name : Bytes) : Bytes :=
  if written.isEmpty then name else written ++ Path.slash :: name

/-- The longer name, if a header has room for it. -/
def extendName (written name : Bytes) : Except NameFault Bytes :=
  let longer := addName written name
  if nameSize < longer.length then .error (.tooLong written) else .ok longer

/-- Adds components to a name. Where only the start of a name is wanted, two dots at its end may be
the start of another component. -/
def addComponents (isStart : Bool) (written : Bytes) :
    List PathComponent → Except NameFault Bytes
  | [] => if written.isEmpty then .error .empty else .ok written
  | .root :: _ => .error (.absolute written)
  | .current :: rest =>
    if written.isEmpty && rest.isEmpty then .ok [Path.dot] else addComponents isStart written rest
  | .parent :: rest =>
    -- The name was cut here, so that the dots need not be a whole component.
    if isStart && rest.isEmpty then extendName written [Path.dot, Path.dot]
    else .error (.leadsAbove written)
  | .name n :: rest =>
    match extendName written n with
    | .ok longer => addComponents isStart longer rest
    | .error e => .error e

/-- The name that a path states. A slash at the end is kept. -/
def nameOf (isStart : Bool) (p : Path) : Except NameFault Bytes :=
  match addComponents isStart [] p.components with
  | .error e => .error e
  | .ok name =>
    if !p.endsInSlash then .ok name
    else if name.length < nameSize then .ok (name ++ [Path.slash])
    else .error (.tooLong name)

/-- The longest piece of whole characters at the start of a name. -/
def wholeCharacters : Nat → Bytes → Bytes
  | 0, _ => []
  | _, [] => []
  | fuel + 1, b :: rest =>
    match Utf8.step b rest with
    | (some _, n) => b :: rest.take n ++ wholeCharacters fuel (rest.drop n)
    | (none, _) => []

/-- The entries that stand before the header of a path, and the name in the header. A path that is
too long for it is stated in full. -/
def placeName (p : Path) : List Entry × Except NameFault Bytes :=
  match nameOf false p with
  | .ok name => ([], .ok name)
  | .error e =>
    -- A short name fails for another reason than its length.
    if p.bytes.length < nameSize then ([], .error e)
    else
      let start := wholeCharacters nameSize (p.bytes.take nameSize)
      ([longNameEntry p.bytes], nameOf true ⟨start⟩)

end ReleasePublisher.Tar
