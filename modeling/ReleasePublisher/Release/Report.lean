import ReleasePublisher.Json.Printer
import ReleasePublisher.Release.Publish

/-!
# Reports

What each command writes when it is done: lines for people, or an indented JSON value. A path that
is not text has no JSON value, and then there is no report.

## Main definitions

* `Config.toJson`, `Config.debug`: a configuration as a JSON value, and as a log shows it
* `Config.report`, `PackagedArchive.report`, `PublishReport.report`: the reports
-/

namespace ReleasePublisher

/-- The failure to write a path that is not text. -/
def pathNotText : Failure :=
  .plain "JSON error: path contains invalid UTF-8 characters" none none

/-- A report as an indented JSON value. -/
def jsonReport (v : Option Json) : Except Failure String :=
  match v with
  | some v => .ok (v.pretty ++ "\n")
  | none => .error pathNotText

/-- Lines, each with its end. -/
def linesOf (ls : List String) : String :=
  String.join (ls.map (· ++ "\n"))

theorem linesOf_append (ls ms : List String) : linesOf (ls ++ ms) = linesOf ls ++ linesOf ms := by
  simp [linesOf]

namespace Config

/-- The object that describes a configuration. What is missing is left out. -/
def toJson (c : Config) : Option Json := do
  let buildDir ← c.buildDir.text?
  let outputDir ← c.outputDir.text?
  let configFile ← match c.configFile with
    | some p => p.text?.map fun s => [("config_file", Json.text s)]
    | none => some []
  return .object ([("project", Json.text c.project), ("owner", .text c.owner),
      ("platform", .text c.platform), ("build_dir", .text buildDir),
      ("output_dir", .text outputDir), ("api_url", .text c.apiUrl)]
    ++ (c.proxyUrl.toList.map fun u => ("proxy_url", .text u))
    ++ configFile)

/-- A configuration as a log shows it. -/
def debug (c : Config) : String :=
  Failure.debugRecord "ReleaseConfig"
    [("project", Text.quoted c.project), ("owner", Text.quoted c.owner),
      ("platform", Text.quoted c.platform), ("build_dir", c.buildDir.quoted),
      ("output_dir", c.outputDir.quoted), ("api_url", Text.quoted c.apiUrl),
      ("proxy_url", Failure.debugOption (c.proxyUrl.map Text.quoted)),
      ("config_file", Failure.debugOption (c.configFile.map Path.quoted))]

/-- The lines that describe a configuration, resolved in a directory. -/
def lines (c : Config) (root : Path) : List String :=
  let l := Layout.ofConfig c
  ["⚙️  relup configuration (" ++ root.display ++ ")",
    "",
    "  project:     " ++ c.project,
    "  repository:  " ++ c.slug,
    "  binary:      " ++ l.source.display,
    "  archive:     " ++ l.output.display,
    "  entry:       " ++ l.entry.display,
    "  github api:  " ++ c.apiUrl,
    "  proxy:       " ++ c.proxyUrl.getD "(unset, required for publish)",
    "  config file: " ++ (c.configFile.map Path.display).getD "(none)"]

/-- The report on a configuration. -/
def report (c : Config) (root : Path) (json : Bool) : Except Failure String :=
  if json then jsonReport c.toJson else .ok (linesOf (c.lines root))

end Config

namespace PackagedArchive

/-- The lines that describe an archive. -/
def lines (a : PackagedArchive) : List String :=
  ["📦 Packaged " ++ a.fileName,
    "   entry:  " ++ a.entry,
    "   path:   " ++ a.path.display,
    "   size:   " ++ toString a.size ++ " bytes",
    "   sha256: " ++ a.sha256]

/-- The report on an archive. -/
def report (a : PackagedArchive) (json : Bool) : Except Failure String :=
  if json then jsonReport a.toJson else .ok (linesOf a.lines)

end PackagedArchive

namespace PublishReport

/-- The lines on the asset, or on what a dry run left out. -/
def assetLines (r : PublishReport) : List String :=
  match r.asset with
  | some a =>
    ("✅ Uploaded " ++ a.name ++ " (asset id " ++ toString a.id ++ ")") ::
      (a.downloadUrl.toList.map fun u => "   " ++ u)
  | none =>
    "🔍 Dry-run mode (upload skipped)" ::
      (r.releaseUrl.toList.map fun u => "   would upload to " ++ u)

/-- The lines that describe what was published. -/
def lines (r : PublishReport) : List String :=
  ["📦 " ++ r.archive.fileName ++ " (" ++ toString r.archive.size ++ " bytes)",
    "   sha256: " ++ r.archive.sha256,
    "🏷️  " ++ r.repository ++ " @ " ++ r.releaseTag] ++ r.assetLines

/-- The report on what was published. -/
def report (r : PublishReport) (json : Bool) : Except Failure String :=
  if json then jsonReport r.toJson else .ok (linesOf r.lines)

end PublishReport

end ReleasePublisher
