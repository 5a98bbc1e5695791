import ReleasePublisher.Files.IoError
import ReleasePublisher.Files.Path

/-!
# A tree of files

The tree is a finite map from locations to nodes. A location is the list of names that leads to a
node from the root, without links and dots; a path is led to its location by `walk`, which follows
symbolic links as the operating system does: at most forty, none to nowhere, and directories only
where the path goes on.

## Main definitions

* `FileMode`, `RegularFile`, `FileNode`: what stands in a tree
* `FileTree`: a tree of files with a working directory
* `FileTree.walk`: follows names and links from a location
* `FileTree.find t p`: what a path leads to
* `FileTree.status`, `FileTree.openRead`, `FileTree.create`, `FileTree.write`: looking at, reading
  and writing files
* `FileTree.makeDirectory`, `FileTree.makeDirectories`, `FileTree.makeLink`, `FileTree.remove`:
  changing the tree
* `FileTree.listing t`: all that is below the working directory
-/

namespace ReleasePublisher

/-- The names that lead to a node from the root. -/
abbrev Location := List Bytes

/-- The mode of a file in twelve bits: the permissions, set-identity and sticky bits. -/
structure FileMode where
  bits : Nat
  bits_lt : bits < 0o10000
  deriving DecidableEq, Repr

/-- The mode with the lowest twelve bits of a number. The others tell of the kind of a node. -/
def FileMode.ofNat (n : Nat) : FileMode :=
  ⟨n % 0o10000, Nat.mod_lt _ (by decide)⟩

instance : Coe Nat FileMode := ⟨FileMode.ofNat⟩

instance (n : Nat) : OfNat FileMode n := ⟨FileMode.ofNat n⟩

instance : Inhabited FileMode := ⟨0⟩

/-- A regular file. -/
structure RegularFile where
  data : Bytes
  mode : FileMode
  /-- The time of the last change, in seconds. -/
  modified : Nat
  deriving DecidableEq, Repr, Inhabited

/-- What stands at a location. -/
inductive FileNode where
  | file (f : RegularFile)
  /-- A directory, which may or may not take new entries. -/
  | directory (isWritable : Bool)
  | link (target : Bytes)
  /-- A device: neither a file nor a directory. -/
  | device
  deriving DecidableEq, Repr

/-- A directory that takes new entries. -/
def FileNode.folder : FileNode := .directory true

/-- A tree of files. -/
structure FileTree where
  nodes : List (Location × FileNode)
  /-- The working directory, unless it was removed. -/
  current : Option Location
  /-- The time that changed files get. -/
  now : Nat
  deriving DecidableEq, Repr

/-- What a path leads to. -/
inductive Found where
  /-- A node that exists. -/
  | existing (location : Location) (node : FileNode)
  /-- A name that is still free in a directory. -/
  | vacant (directory : Location) (name : Bytes)
  deriving DecidableEq, Repr

namespace FileTree

/-- The node at a location. The root is a directory that takes no new entries. -/
def lookup (t : FileTree) (l : Location) : Option FileNode :=
  if l.isEmpty then some (.directory false) else (t.nodes.find? (·.1 == l)).map (·.2)

/-- The directory that a walk has come to. A working directory that was removed is empty. -/
def directoryAt (t : FileTree) (l : Location) : FileNode :=
  match t.lookup l with
  | some (.directory isWritable) => .directory isWritable
  | _ => .folder

/-- The tree with a node put at a location. -/
def put (t : FileTree) (l : Location) (n : FileNode) : FileTree :=
  { t with nodes := (l, n) :: t.nodes.filter (·.1 != l) }

/-- The names that a walk along a path takes. A slash at the end asks for a directory, as a single
dot does. -/
def steps (p : Bytes) : List Bytes :=
  let names := Path.names ⟨p⟩
  if Path.endsInSlash ⟨p⟩ && !names.isEmpty then names ++ [[Path.dot]] else names

/-- Follows names from a location. A link inside a path is always followed, and one at its end only
where `follow` asks for it: `jump` takes the location of the directory that holds the link, the
target, and the names that are left. -/
def walkNames (t : FileTree) (follow : Bool)
    (jump : Location → Bytes → List Bytes → Except OsError Found) (here : Location) :
    List Bytes → Except OsError Found
  | [] => .ok (.existing here (t.directoryAt here))
  | name :: rest =>
    if name == [Path.dot] then walkNames t follow jump here rest
    -- The root is its own parent.
    else if name == [Path.dot, Path.dot] then walkNames t follow jump here.dropLast rest
    else if 255 < name.length then .error .nameTooLong
    else
      let there := here ++ [name]
      match t.lookup there with
      | none => if rest.isEmpty then .ok (.vacant here name) else .error .noEntry
      | some (.directory _) => walkNames t follow jump there rest
      | some (.link target) =>
        if rest.isEmpty && !follow then .ok (.existing there (.link target))
        else jump here target rest
      | some node => if rest.isEmpty then .ok (.existing there node) else .error .notDirectory

/-- Follows names from a location, and at most `links` symbolic links. -/
def walk (t : FileTree) (follow : Bool) : Nat → Location → List Bytes → Except OsError Found
  | 0 => walkNames t follow fun _ _ _ => .error .tooManyLinks
  | links + 1 => walkNames t follow fun here target rest =>
    if target.isEmpty then .error .noEntry
    else
      -- The target is seen from the directory that holds the link.
      walk t follow links (if Path.isAbsolute ⟨target⟩ then [] else here) (steps target ++ rest)

/-- The greatest number of symbolic links that one path may lead through. -/
def maxLinks : Nat := 40

/-- What the names of a path lead to, seen from the working directory or from the root. -/
def findNames (t : FileTree) (follow : Bool) (p : Path) (names : List Bytes) :
    Except IoError Found :=
  if p.bytes.contains 0 then .error .zeroByteInPath
  else if p.bytes.isEmpty then .error (.os .noEntry)
  else if 4095 < p.bytes.length then .error (.os .nameTooLong)
  else
    match if p.isAbsolute then some [] else t.current with
    | none => .error (.os .noEntry)
    | some here => (t.walk follow maxLinks here names).mapError .os

/-- What a path leads to, with a link at its end followed. -/
def find (t : FileTree) (p : Path) : Except IoError Found :=
  t.findNames true p (steps p.bytes)

/-- The node that a path leads to. -/
def status (t : FileTree) (p : Path) : Except IoError FileNode :=
  match t.find p with
  | .error e => .error e
  | .ok (.existing _ n) => .ok n
  | .ok (.vacant _ _) => .error (.os .noEntry)

/-- The path leads to a regular file. -/
def isFile (t : FileTree) (p : Path) : Bool :=
  match t.status p with
  | .ok (.file _) => true
  | _ => false

/-- The path leads to a directory. -/
def isDirectory (t : FileTree) (p : Path) : Bool :=
  match t.status p with
  | .ok (.directory _) => true
  | _ => false

/-- The owner may read a file with this mode. -/
def mayRead (mode : FileMode) : Bool :=
  mode.bits / 0o400 % 2 == 1

/-- The owner may write a file with this mode. -/
def mayWrite (mode : FileMode) : Bool :=
  mode.bits / 0o200 % 2 == 1

/-- Opens what a path leads to for reading. Directories can be opened, but not read. -/
def openRead (t : FileTree) (p : Path) : Except IoError FileNode :=
  match t.status p with
  | .ok (.file f) => if mayRead f.mode then .ok (.file f) else .error (.os .noAccess)
  | r => r

/-- What reading an opened node to its end gives. -/
def contents : FileNode → Except IoError Bytes
  | .file f => .ok f.data
  | .directory _ => .error (.os .isDirectory)
  | _ => .ok []

/-- Reads the file that a path leads to. -/
def read (t : FileTree) (p : Path) : Except IoError Bytes :=
  (t.openRead p).bind contents

/-- The mode of a new file. -/
def newFileMode : FileMode := 0o644

/-- A location that takes a new entry. -/
def takesEntry (t : FileTree) (directory : Location) : Bool :=
  match t.lookup directory with
  | some (.directory isWritable) => isWritable
  | _ => false

/-- Opens the file that a path leads to for writing: a file that exists loses its contents, and one
that does not is made. -/
def create (t : FileTree) (p : Path) : Except IoError (Location × FileTree) :=
  match t.find p with
  | .error e => .error e
  | .ok (.existing l (.file f)) =>
    if mayWrite f.mode then .ok (l, t.put l (.file { f with data := [], modified := t.now }))
    else .error (.os .noAccess)
  | .ok (.existing _ (.directory _)) => .error (.os .isDirectory)
  | .ok (.existing l _) => .ok (l, t)
  | .ok (.vacant directory name) =>
    if t.takesEntry directory then
      let l := directory ++ [name]
      .ok (l, t.put l (.file ⟨[], newFileMode, t.now⟩))
    else .error (.os .noAccess)

/-- Gives the file at a location these contents. -/
def write (t : FileTree) (l : Location) (data : Bytes) : FileTree :=
  match t.lookup l with
  | some (.file f) => t.put l (.file { f with data := data, modified := t.now })
  | _ => t

/-- Makes a directory. -/
def makeDirectory (t : FileTree) (p : Path) : Except IoError FileTree :=
  match t.findNames false p p.names with
  | .error e => .error e
  | .ok (.existing _ _) => .error (.os .alreadyExists)
  | .ok (.vacant directory name) =>
    if t.takesEntry directory then .ok (t.put (directory ++ [name]) .folder)
    else .error (.os .noAccess)

/-- Makes directories, a later one inside an earlier one. -/
def makeEach (t : FileTree) : List Path → FileTree × Except IoError Unit
  | [] => (t, .ok ())
  | p :: rest =>
    match t.makeDirectory p with
    | .ok t => makeEach t rest
    -- It may be there already, under another name.
    | .error e => if t.isDirectory p then makeEach t rest else (t, .error e)

/-- The directories to be made for a path to be one: the path and those above it up to the first
that exists. Each directory above has fewer names, so the fuel suffices. -/
def missingDirectories (t : FileTree) : Nat → Path → List Path → Except IoError (List Path)
  | 0, _, missing => .ok missing
  | fuel + 1, p, missing =>
    if p.bytes.isEmpty then .ok missing
    else
      let above (missing : List Path) : Except IoError (List Path) :=
        match p.parent? with
        | none => .ok missing
        | some q => missingDirectories t fuel q missing
      match t.makeDirectory p with
      | .ok _ => .ok (p :: missing)
      | .error e =>
        -- A directory above is missing too: that one comes first.
        if e.isNotFound then above (p :: missing)
        else if t.isDirectory p then .ok missing
        else .error e

/-- Makes a directory and those above it that are missing. Directories made before a failure
stay. -/
def makeDirectories (t : FileTree) (p : Path) : FileTree × Except IoError Unit :=
  match t.missingDirectories (p.names.length + 1) p [] with
  | .error e => (t, .error e)
  | .ok missing => t.makeEach missing

/-- Makes a symbolic link. -/
def makeLink (t : FileTree) (p : Path) (target : Bytes) : Except IoError FileTree :=
  match t.findNames false p (steps p.bytes) with
  | .error e => .error e
  | .ok (.existing _ _) => .error (.os .alreadyExists)
  | .ok (.vacant directory name) =>
    if t.takesEntry directory then .ok (t.put (directory ++ [name]) (.link target))
    else .error (.os .noAccess)

/-- Removes a node and all that is below it. Links are not followed. -/
def remove (t : FileTree) (p : Path) : Except IoError FileTree :=
  match t.findNames false p (steps p.bytes) with
  | .error e => .error e
  | .ok (.vacant _ _) => .error (.os .noEntry)
  | .ok (.existing l _) => .ok { t with nodes := t.nodes.filter fun (m, _) => !l.isPrefixOf m }

/-- The path of the working directory. -/
def workingDirectory (t : FileTree) : Except IoError Path :=
  match t.current with
  | some l => .ok (Path.ofNames true l)
  | none => .error (.os .noEntry)

/-- All that is below the working directory: paths from there, in the order of their bytes, with a
slash behind those of directories. -/
def listing (t : FileTree) : List Path :=
  match t.current with
  | none => []
  | some here =>
    let entries := t.nodes.filterMap fun (l, n) =>
      if here.isPrefixOf l && here.length < l.length then
        let p := Path.ofNames false (l.drop here.length)
        match n with
        | .directory _ => some ⟨p.bytes ++ [Path.slash]⟩
        | _ => some p
      else none
    entries.mergeSort fun (p q : Path) => decide (p.bytes ≤ q.bytes)

end FileTree

end ReleasePublisher
