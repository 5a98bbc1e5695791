import ReleasePublisher.Archive.Stored
import ReleasePublisher.Program

/-!
# The executable

The files that a run looks at are read into a tree, the program runs on it, and what it changed is
written back. No connections are made, so requests fail as they do on a machine without a network.

## Main definitions

* `main`: the executable
-/

namespace ReleasePublisher.Executable

/-- The location of a path, with its dots resolved. -/
def locationOf (p : Path) : Location :=
  p.names.foldl (fun l n =>
    if n == [Path.dot] then l else if n == [Path.dot, Path.dot] then l.dropLast else l ++ [n]) []

/-- The place of a location in the file system. -/
def placeOf (l : Location) : String :=
  (Path.ofNames true l).display

/-- The mode that files are taken to have. -/
def assumedMode : FileMode := 0o755

/-- The node at a location of the file system, if there is one. -/
def readNode (l : Location) : IO (Option FileNode) := do
  let place := System.mkFilePath [placeOf l]
  if ← place.isDir then return some .folder
  else if ← place.pathExists then
    let data ← IO.FS.readBinFile place
    let metadata ← place.metadata
    return some (.file ⟨data.toList, assumedMode, metadata.modified.sec.toNat⟩)
  else return none

/-- Puts the nodes that lead to a path into a tree. -/
def loadPath (t : FileTree) (p : Path) : IO FileTree := do
  let l := locationOf p
  let mut t := t
  for n in List.range l.length do
    let here := l.take (n + 1)
    match ← readNode here with
    | some node => t := t.put here node
    | none => pure ()
  return t

/-- Puts the nodes that lead to some paths into a tree. -/
def loadPaths (t : FileTree) (ps : List Path) : IO FileTree :=
  ps.foldlM loadPath t

/-- Writes back what differs between two trees. -/
def save (old new : FileTree) : IO Unit := do
  for (l, node) in new.nodes do
    if old.lookup l != some node then
      match node with
      | .directory _ => IO.FS.createDirAll (placeOf l)
      | .file f => IO.FS.writeBinFile (placeOf l) ⟨f.data.toArray⟩
      | _ => pure ()

/-- The variables that a run looks at. -/
def readVariables : IO (List (String × Bytes)) := do
  let names := [projectVariable, proxyVariable, apiVariable, filterVariable]
  let mut found := []
  for name in names do
    match ← IO.getEnv name with
    | some value => found := found ++ [(name, Utf8.encode value)]
    | none => pure ()
  return found

/-- The working directory, unless it was removed. -/
def readCurrent : IO (Option Path) := do
  try
    let here ← IO.currentDir
    return some (.ofText here.toString)
  catch _ => return none

/-- Runs the program with some words. -/
def execute (words : List String) : IO UInt32 := do
  let found ← readVariables
  let errors ← IO.getStderr
  let start : Start :=
    { words := words.map Utf8.encode
      environmentValue := fun name => found.lookup name
      isWatched := ← errors.isTty }
  let current ← readCurrent
  let root := current.getD ⟨[Path.slash]⟩
  let empty : FileTree := { nodes := [], current := current.map locationOf, now := 0 }
  -- The configuration file comes first: only with it the other paths can be told.
  let known ← loadPaths empty (root :: pathsOf start empty root)
  let files ← loadPaths known (pathsOf start known root)
  let network : Network := { isReachable := false, script := [], sent := [] }
  let (outcome, after) := run start { files := files, network := network, log := [] }
  save files after.files
  for record in outcome.shown do
    IO.eprintln record.line
  IO.print outcome.output
  IO.eprint outcome.errors
  return UInt32.ofNat outcome.exitCode

end ReleasePublisher.Executable

/-- The executable. -/
def main (words : List String) : IO UInt32 :=
  ReleasePublisher.Executable.execute words
