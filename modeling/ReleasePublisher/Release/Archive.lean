import ReleasePublisher.Archive.EntryName
import ReleasePublisher.Archive.Gzip
import ReleasePublisher.Archive.Sha256
import ReleasePublisher.Release.Config
import ReleasePublisher.Run

/-!
# The release archive

Packaging writes the release binary as the only member of a compressed archive. The binary is looked
at before anything is written, so that a missing one leaves no trace. The file that was written is
read again for its size and digest. How the archive is compressed is up to a writer of compressed files.

## Main definitions

* `PackagedArchive`: an archive that was written
* `sourceFault? t l`: what is wrong with the binary
* `writeArchive t l`: writes the archive
* `package c`: checks, writes and reads again
-/

namespace ReleasePublisher

/-- An archive that was written. -/
structure PackagedArchive where
  path : Path
  fileName : String
  entry : String
  size : Nat
  /-- The digest of the file, in hexadecimal digits. -/
  sha256 : String
  deriving DecidableEq, Repr

namespace PackagedArchive

/-- The members of the object that describes an archive. A path is written only if it is text. -/
def toJson (a : PackagedArchive) : Option Json :=
  a.path.text?.map fun path =>
    .object [("path", .text path), ("file_name", .text a.fileName), ("entry", .text a.entry),
      ("size", .ofNat a.size), ("sha256", .text a.sha256)]

end PackagedArchive

/-- What is wrong with the binary: it is missing, cannot be looked at, or is not a regular file. -/
def sourceFault? (t : FileTree) (l : Layout) : Option Failure :=
  match t.status l.source with
  | .ok (.file _) => none
  | .ok _ => some (.archive (.sourceNotFile l.source))
  | .error e =>
    if e.isNotFound then some (.archive (.sourceNotFound l.source))
    else some (.io e (some ("Failed to stat " ++ l.source.display)))

/-- The bits of a mode that tell of a regular file. -/
def regularMode : Nat := 0o100000

/-- The entries for a binary, as far as they can be made. The header states what the file was before
its data are read, and by then the start of the archive is in the output. -/
def entriesOf (t : FileTree) (output : Location) (l : Layout) :
    List Tar.Entry × Except IoError Unit :=
  match t.status l.source, t.read l.source with
  | .ok (.file f), .ok _ =>
    match Tar.placeName l.entry with
    | (before, .error e) => (before, .error (.other e.message))
    | (before, .ok name) =>
      let header : Tar.Header :=
        -- The mode tells the kind of the file as well as its permissions.
        { name := name
          mode := regularMode + f.mode.bits
          size := f.data.length
          modified := f.modified
          kind := Tar.regular }
      match (t.write output Gzip.header).read l.source with
      | .ok data => (before ++ [⟨header, data⟩], .ok ())
      | .error e => (before, .error e)
  | _, .error e => ([], .error e)
  | .error e, _ => ([], .error e)
  | .ok _, .ok _ => ([], .error (.os .isDirectory))

/-- A file that was written can be brought to the disk; a device cannot. -/
def flush (t : FileTree) (output : Location) : Except IoError Unit :=
  match t.lookup output with
  | some .device => .error (.os .invalidArgument)
  | _ => .ok ()

/-- Writes the archive. An archive that was begun is ended, also after a failure. -/
def writeArchive [Gzip.Writer] (t : FileTree) (l : Layout) : FileTree × Except IoError Unit :=
  match t.create l.output with
  | .error e => (t, .error e)
  | .ok (output, t) =>
    let (entries, r) := entriesOf t output l
    -- What was begun is ended with the closing blocks before a failure is told.
    let t := t.write output (Gzip.compress (Tar.archive entries))
    match r with
    | .error e => (t, .error e)
    | .ok () => (t, flush t output)

/-- The size of the pieces in which a file is copied. -/
def copySize : Nat := 8192

/-- The size and the digest of the archive, which is copied from the disk to a hasher. -/
def digestFile (t : FileTree) (p : Path) : Except Failure (Nat × String) :=
  match t.openRead p with
  | .error e => .error (.io e (some ("Failed to reopen " ++ p.display)))
  | .ok node =>
    let source := Source.ofNode node
    match copy Source.read Sha256.Hasher.update copySize (source.left + 1) source .begin with
    | .error e => .error (.io e none)
    | .ok (size, hasher) => .ok (size, Hex.encode hasher.finish)

/-- The part of the program that packs. -/
def archiveTarget : String := "relup::release::archive"

/-- An outcome of a step on files, with a context for its failure. -/
def withContext {α : Type} (context : String) (r : FileTree × Except IoError α) :
    FileTree × Except Failure α :=
  (r.1, r.2.mapError fun e => .io e (some context))

/-- The entry as it is reported, with slashes between names. -/
def shownEntry (p : Path) : String :=
  String.ofList (p.display.toList.map fun c => if c == '\\' then '/' else c)

/-- Packs the release binary. -/
def package [Gzip.Writer] (c : Config) : Run PackagedArchive := do
  let l := Layout.ofConfig c
  let t ← Run.files
  match sourceFault? t l with
  | some e => Run.fail e
  | none =>
    Run.note
      { level := .debug, target := archiveTarget, message := "creating archive"
        values := [("source", l.source.display), ("output", l.output.display)] }
    Run.changeFiles fun t =>
      withContext ("Failed to create output directory " ++ c.outputDir.display)
        (t.makeDirectories c.outputDir)
    Run.changeFiles fun t =>
      withContext ("Failed to write archive " ++ l.output.display) (writeArchive t l)
    let t ← Run.files
    let (size, sha256) ← Run.ofExcept (digestFile t l.output)
    Run.note
      { level := .info, target := archiveTarget, message := "archive created"
        values := [("archive", l.archiveName), ("entry", l.entry.display),
          ("size", toString size), ("sha256", sha256)] }
    return { path := l.output, fileName := l.archiveName, entry := shownEntry l.entry,
             size, sha256 }

end ReleasePublisher
