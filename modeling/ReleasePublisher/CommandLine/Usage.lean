import ReleasePublisher.CommandLine.Parser

/-!
# Help and usage

The texts that answer a command line which names nothing to do: help, the version, or what is wrong
with it and how the program is used.

## Main definitions

* `helpText t`: the help on a topic
* `versionText l`: the version
* `Refusal.text`, `Refusal.exitCode`: what is written, and the exit code
-/

namespace ReleasePublisher.CommandLine

/-- The name of the program. -/
def programName : String := "relup"

/-- The version of the program. -/
def programVersion : String := "0.1.0"

/-- What a level is for. -/
def Level.about : Level → String
  | program => "Package a release binary and attach it to the latest GitHub release"
  | command .publish => "Package the binary and upload it to the latest release"
  | command .package => "Build the release archive only (no network access)"
  | command .config => "Show the resolved configuration"

/-- What the command for help is for. -/
def helpAbout : String := "Print this message or the help of the given subcommand(s)"

/-- What an option with a value is for. -/
def ValueOption.about : ValueOption → String
  | project => "Project, binary and repository name [env: PROJECT_NAME]"
  | owner => "GitHub repository owner (default: mozilla)"
  | platform => "Platform suffix of the archive name (default: linux-x86_64)"
  | buildDir => "Directory holding the compiled binary (default: target/release)"
  | outputDir => "Directory the archive is written to (default: current directory)"

/-- What a switch is for. -/
def Switch.about (l : Level) : Switch → String
  | verbose => "Increase log verbosity (-v debug, -vv trace)"
  | json =>
    match l with
    | .command .package => "Output the archive details in JSON format"
    | .command .config => "Output configuration in JSON format"
    | _ => "Output the report in JSON format"
  | dryRun => "Resolve the release but skip the upload"
  | help => "Print help"
  | version => "Print version"

/-- What an option is for. -/
def AnyOption.about (l : Level) : AnyOption → String
  | value o => o.about
  | switch s => s.about l

/-- A text with blanks behind it up to a width. -/
def padded (width : Nat) (s : String) : String :=
  s ++ String.ofList (List.replicate (width - s.length) ' ')

/-- Lines with two columns: the second one starts two blanks behind the longest text of the
first. -/
def columns (rows : List (String × String)) : String :=
  let width := (rows.map fun (a, _) => a.length).foldl max 0
  String.join (rows.map fun (a, b) => "  " ++ padded width a ++ "  " ++ b ++ "\n")

/-- An option in the list of options. -/
def AnyOption.listed (o : AnyOption) : String :=
  let letter := match o.letter? with
    | some c => "-" ++ String.singleton c ++ ", "
    -- Options without a letter are indented as if they had one.
    | none => "    "
  letter ++ o.shown

/-- The list of the options of a level. -/
def Level.optionList (l : Level) : String :=
  "Options:\n" ++ columns (l.options.map fun o => (o.listed, o.about l))

/-- The words that call a level. -/
def Level.called : Level → String
  | program => programName
  | command c => programName ++ " " ++ c.word

/-- How a level is called. -/
def Level.usage (l : Level) : String :=
  "Usage: " ++ l.called ++ (match l with
    | program => " [OPTIONS] <COMMAND>"
    | command _ => " [OPTIONS]")

/-- How a level is called with the options that were given. -/
def Level.usageWith (l : Level) (used : List AnyOption) : String :=
  if used.isEmpty then l.usage
  else "Usage: " ++ l.called ++ String.join (used.map fun o => " " ++ o.shown) ++ (match l with
    | program => " <COMMAND>"
    | command _ => "")

/-- The list of the commands. -/
def commandList : String :=
  "Commands:\n" ++ columns ((CommandName.all.map fun c => (c.word, (Level.command c).about))
    ++ [("help", helpAbout)])

/-- The help on a topic. -/
def helpText : Topic → String
  | .level .program =>
    Level.program.about ++ "\n\n" ++ Level.program.usage ++ "\n\n" ++ commandList ++ "\n" ++
      Level.program.optionList
  | .level l => l.about ++ "\n\n" ++ l.usage ++ "\n\n" ++ l.optionList
  | .help =>
    helpAbout ++ "\n\nUsage: " ++ programName ++ " help [COMMAND]...\n\nArguments:\n" ++
      columns [("[COMMAND]...", "Print help for the subcommand(s)")]

/-- The version, as a level tells it. -/
def versionText : Level → String
  | .program => programName ++ " " ++ programVersion ++ "\n"
  | .command c => programName ++ "-" ++ c.word ++ " " ++ programVersion ++ "\n"

/-- A message about a command line, with a usage where there is one. -/
def complaint (message : String) (usage : Option String) : String :=
  "error: " ++ message ++ "\n\n" ++ (match usage with
    | some u => u ++ "\n\n"
    | none => "") ++ "For more information, try '--help'.\n"

namespace Refusal

/-- The text that answers a refused command line. -/
def text (r : Refusal) : String :=
  let usage := some r.level.usage
  match r.fault with
  | .unknownOption shown used =>
    complaint ("unexpected argument '" ++ shown ++ "' found") (some (r.level.usageWith used))
  | .unexpectedWord w => complaint ("unexpected argument '" ++ Utf8.lossy w ++ "' found") usage
  | .dashedCommand w =>
    let name := Utf8.lossy w
    complaint ("unexpected argument '" ++ name ++ "' found\n\n  tip: subcommand '" ++ name ++
      "' exists; to use it, remove the '--' before it") usage
  | .unknownCommand w => complaint ("unrecognized subcommand '" ++ Utf8.lossy w ++ "'") usage
  | .missingValue o =>
    complaint ("a value is required for '" ++ (AnyOption.value o).shown ++
      "' but none was supplied") none
  | .repeated o =>
    complaint ("the argument '" ++ o.shown ++ "' cannot be used multiple times") usage
  | .unwantedValue s v used =>
    complaint ("unexpected value '" ++ Utf8.lossy v ++ "' for '" ++ (AnyOption.switch s).shown ++
      "' found; no more were expected") (some (r.level.usageWith used))
  | .notText => complaint "invalid UTF-8 was detected in one or more arguments" usage
  | .missingCommand =>
    complaint ("'" ++ programName ++ "' requires a subcommand but one was not provided\n" ++
      "  [subcommands: publish, package, config, help]") usage
  | .nothing => helpText (.level .program)
  | .helpAsked t => helpText t
  | .versionAsked l => versionText l

/-- The user asked for the text. -/
def isAsked (r : Refusal) : Bool :=
  match r.fault with
  | .helpAsked _ => true
  | .versionAsked _ => true
  | _ => false

/-- The exit code: only a text that was asked for is a success. -/
def exitCode (r : Refusal) : Nat :=
  if r.isAsked then 0 else 2

end Refusal

end ReleasePublisher.CommandLine
