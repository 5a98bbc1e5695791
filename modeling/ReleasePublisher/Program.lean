import ReleasePublisher.CommandLine.Usage
import ReleasePublisher.Log.Filter
import ReleasePublisher.Release.Report

/-!
# The program

An invocation resolves the configuration in the working directory, does what the command asks for,
and writes a report. A failure leaves the report empty; its message, the remedy and the exit code
tell what happened. The log does not depend on how much of it is shown.

## Main definitions

* `Start`: what a program is started with
* `Outcome`: what it leaves behind, beside files and requests
* `perform`: carries out an invocation
* `run`: the program
* `pathsOf`: the paths that a run looks at
-/

namespace ReleasePublisher

open CommandLine

/-- What a program is started with. -/
structure Start where
  words : List Bytes
  /-- The values of the environment variables that are set. -/
  environmentValue : String → Option Bytes
  /-- Someone watches: progress can be shown. -/
  isWatched : Bool

/-- What a program leaves behind, beside files and requests. -/
structure Outcome where
  exitCode : Nat
  output : String
  /-- What is written for the user, without the log. -/
  errors : String
  /-- The records of the log that are shown. -/
  shown : List LogRecord
  deriving DecidableEq, Repr

/-- The variables whose values are text. -/
def Start.environment (s : Start) : Environment := fun name =>
  (s.environmentValue name).bind Utf8.decode?

/-- The variable that holds a log filter. -/
def filterVariable : String := "RELUP_LOG"

/-- The part of the program that all parts belong to. -/
def mainTarget : String := "relup"

/-- The part of the program that resolves configurations. -/
def contextTarget : String := "relup::core::context"

/-- Resolves the configuration in a directory. -/
def resolveIn (root : Path) (overrides : Overrides) (env : Environment) : Run Config := do
  let t ← Run.files
  let c ← Run.ofExcept (resolve t root overrides env)
  Run.note
    { level := .debug, target := contextTarget, message := "configuration resolved"
      values := [("config", c.debug)] }
  return c

/-- Carries out a command and gives its report. -/
def carryOut [Gzip.Writer] (c : Config) (root : Path) (isWatched : Bool) : Command → Run String
  | .publish dryRun json => do
    let r ← publish c { dryRun := dryRun, showsProgress := isWatched && !json }
    Run.ofExcept (r.report json)
  | .package json => do
    let a ← package c
    Run.ofExcept (a.report json)
  | .config json => Run.ofExcept (c.report root json)

/-- Carries out an invocation in a directory and gives its report. -/
def perform [Gzip.Writer] (i : Invocation) (root : Path) (env : Environment) (isWatched : Bool) :
    Run String := do
  let c ← resolveIn root i.overrides env
  carryOut c root isWatched i.command

/-- What a failure shows the user. -/
def failureText (e : Failure) : String :=
  "\n❌ " ++ e.message ++ "\n\n" ++ (match e.help with
    | some help => "💡 Help: " ++ help ++ "\n\n"
    | none => "")

/-- The record of a failure. -/
def failureRecord (e : Failure) : LogRecord :=
  { level := .debug, target := mainTarget, message := "command failed"
    values := [("error", e.debug)] }

/-- What an invocation leaves behind. -/
def invoke [Gzip.Writer] (i : Invocation) (start : Start) (s : Surroundings) :
    Outcome × Surroundings :=
  let filter := LogFilter.ofVerbosity i.verbosity (start.environment filterVariable)
  -- Without a working directory there is nothing to resolve, and nothing is logged.
  match s.files.workingDirectory with
  | .error e =>
    (⟨1, "", "Error: Failed to get current directory: " ++ e.message ++ "\n", []⟩, s)
  | .ok root =>
    match perform i root start.environment start.isWatched s with
    | (.ok report, s) => (⟨0, report, "", s.log.filter filter.shows⟩, s)
    | (.error e, s) =>
      -- A failure is logged as well as shown.
      let s := { s with log := s.log ++ [failureRecord e] }
      (⟨e.exitCode, "", failureText e, s.log.filter filter.shows⟩, s)

/-- What a refused command line leaves behind. -/
def refuse (r : Refusal) : Outcome :=
  if r.isAsked then ⟨r.exitCode, r.text, "", []⟩ else ⟨r.exitCode, "", r.text, []⟩

/-- The paths that a run in a directory looks at, as far as they can be told from the files that are
known. -/
def pathsOf (start : Start) (t : FileTree) (root : Path) : List Path :=
  FileConfig.candidates root ++
    match CommandLine.parse start.words with
    | .error _ => []
    | .ok i =>
      match resolve t root i.overrides start.environment with
      | .error _ => []
      | .ok c =>
        let l := Layout.ofConfig c
        [l.source, c.outputDir, l.output]

/-- The program. -/
def run [Gzip.Writer] (start : Start) (s : Surroundings) : Outcome × Surroundings :=
  match CommandLine.parse start.words with
  | .error r => (refuse r, s)
  | .ok i => invoke i start s

end ReleasePublisher
