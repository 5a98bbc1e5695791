import ReleasePublisher.Files.Path
import ReleasePublisher.Json.Real
import ReleasePublisher.Release.Records
import ReleasePublisher.Toml.Document

/-!
# The sections of a configuration file

A configuration file has one section, in which each value may be left out.

## Main definitions

* `FileSection`: the values that a file may give
* `FileConfig`: a configuration file
* `FileConfig.ofToml`: reads a file's values from a TOML text
* `FileConfig.decode`: reads a file's values from a JSON text
* `FileConfig.toJson`: the JSON object with a file's values
-/

namespace ReleasePublisher

open Json (Datum Field)

/-- The values that a configuration file may give. -/
structure FileSection where
  project : Option String
  owner : Option String
  platform : Option String
  buildDir : Option Path
  outputDir : Option Path
  apiUrl : Option String
  deriving DecidableEq, Repr

/-- A configuration file. -/
structure FileConfig where
  release : FileSection
  deriving DecidableEq, Repr

namespace FileSection

/-- The section that gives no value. -/
def empty : FileSection :=
  ⟨none, none, none, none, none, none⟩

/-- The fields, in the order of their declaration. -/
def fields : List Field :=
  [.optionalText "project" "a string", .optionalText "owner" "a string",
    .optionalText "platform" "a string", .optionalText "build_dir" "path string",
    .optionalText "output_dir" "path string", .optionalText "api_url" "a string"]

/-- The section that these data describe. -/
def ofData : List Datum → Option FileSection
  | [project, owner, platform, buildDir, outputDir, apiUrl] =>
    some ⟨project.text?, owner.text?, platform.text?, buildDir.text?.map .ofText,
      outputDir.text?.map .ofText, apiUrl.text?⟩
  | _ => none

/-- The object with the values of a section. -/
def toJson (s : FileSection) : Json :=
  let path (p : Option Path) : Json := .ofOption (.text ·.display) p
  .object [("project", .ofOption .text s.project), ("owner", .ofOption .text s.owner),
    ("platform", .ofOption .text s.platform), ("build_dir", path s.buildDir),
    ("output_dir", path s.outputDir), ("api_url", .ofOption .text s.apiUrl)]

end FileSection

namespace FileConfig

/-- The field that holds the section. -/
def releaseField : Field :=
  { name := "release"
    read := fun s =>
      (Json.readRecord "FileReleaseSection" FileSection.fields s).map fun (l, s) => (.record l, s)
    fallback := some (.record (FileSection.fields.map fun _ => .absent)) }

/-- The file that these data describe. -/
def ofData : List Datum → Option FileConfig
  | [.record release] => (FileSection.ofData release).map (⟨·⟩)
  | _ => none

/-- Reads a whole JSON text as a configuration file. -/
def decode : Bytes → Except Json.Fault FileConfig :=
  decodeRecord "FileConfig" [releaseField] ofData

/-- The object with the values of a file. -/
def toJson (c : FileConfig) : Json :=
  .object [("release", c.release.toJson)]

end FileConfig

/-! ### From TOML -/

/-- What a message calls a floating-point number. -/
def floatName (x : Float) : String :=
  if x.isNaN then "NaN"
  else if x.isInf then (if x < 0 then "-inf" else "inf")
  else
    let b := Binary64.ofBits x.toBits
    let (d, k) := b.decimal
    let ds := Nat.toDigits 10 d
    let text := if 0 ≤ k then ds ++ List.replicate k.toNat '0' ++ ['.', '0']
      else
        let places := (-k).toNat
        let ds := List.replicate (places + 1 - ds.length) '0' ++ ds
        ds.take (ds.length - places) ++ '.' :: ds.drop (ds.length - places)
    (if b.negative then "-" else "") ++ String.ofList text

/-- What a message calls a node. -/
def nodeName : Toml.Node → String
  | .scalar (.text s) _ => "string " ++ Text.quoted s
  | .scalar (.integer i) _ => "integer `" ++ toString i ++ "`"
  | .scalar (.float x) _ => "floating point `" ++ floatName x ++ "`"
  | .scalar (.boolean b) _ => "boolean `" ++ toString b ++ "`"
  | .scalar .datetime _ => "map"
  | .array _ _ => "sequence"
  | .table _ _ _ => "map"
  | .tables _ _ => "sequence"

/-- The fault of a node that stands where `expected` is expected: at the node, or at its name where
the node has no place of its own. -/
def mistypedNode (expected : String) (name : Toml.Span) (v : Toml.Node) : Toml.Fault :=
  let span := v.span?.getD name
  ⟨"invalid type: " ++ nodeName v ++ ", expected " ++ expected, span.start, span.stop⟩

/-- The text that a node holds. -/
def nodeText (expected : String) (name : Toml.Span) : Toml.Node → Except Toml.Fault String
  | .scalar (.text s) _ => .ok s
  | v => .error (mistypedNode expected name v)

namespace FileSection

/-- The names of the values, and what a message expects them to be. -/
def names : List (String × String) :=
  [("project", "a string"), ("owner", "a string"), ("platform", "a string"),
    ("build_dir", "path string"), ("output_dir", "path string"), ("api_url", "a string")]

/-- The section with these values. -/
def ofValues (values : List (String × String)) : FileSection :=
  let value (name : String) : Option String := (values.find? (·.1 == name)).map (·.2)
  ⟨value "project", value "owner", value "platform", (value "build_dir").map .ofText,
    (value "output_dir").map .ofText, value "api_url"⟩

/-- The values among the entries of a table. Entries of other names do not matter. -/
def entryValues : Toml.Entries → Except Toml.Fault (List (String × String))
  | [] => .ok []
  | (n, v) :: rest =>
    match names.find? (·.1 == n.text) with
    | none => entryValues rest
    | some (_, expected) => do
      let t ← nodeText expected n.span v
      return (n.text, t) :: (← entryValues rest)

/-- The values that the items of an array are, in the order of the names. Further items do not
matter. -/
def itemValues (whole : Toml.Span) :
    List (String × String) → List Toml.Node → Except Toml.Fault (List (String × String))
  | (name, expected) :: names, v :: vs => do
    let t ← nodeText expected whole v
    return (name, t) :: (← itemValues whole names vs)
  | _, _ => .ok []

/-- The section that a node states. -/
def ofNode (name : Toml.Span) : Toml.Node → Except Toml.Fault FileSection
  | .table _ entries _ => (entryValues entries).map ofValues
  | .array items span => (itemValues span names items).map ofValues
  | .tables elements span => (itemValues span names elements).map ofValues
  | .scalar .datetime _ => .ok empty
  | v => .error (mistypedNode "struct FileReleaseSection" name v)

end FileSection

/-- Reads a whole TOML text as a configuration file. -/
def FileConfig.ofToml (text : List Char) : Except Toml.Fault FileConfig := do
  let entries ← Toml.parse text
  match entries.find? (·.1.text == "release") with
  | none => return ⟨.empty⟩
  | some (n, v) => return ⟨← FileSection.ofNode n.span v⟩

end ReleasePublisher
