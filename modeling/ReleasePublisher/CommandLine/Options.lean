import ReleasePublisher.Text.Utf8

/-!
# Options of the command line

A command line names a command, and options before and behind it. Options with values may stand in
both places; each command has switches of its own.

## Main definitions

* `CommandName`: the commands
* `ValueOption`, `Switch`: the options with a value, and those without
* `Level.options`: the options that are known before a command or behind it
-/

namespace ReleasePublisher.CommandLine

/-- The commands. -/
inductive CommandName where
  | publish
  | package
  | config
  deriving DecidableEq, Repr

/-- An option with a value. -/
inductive ValueOption where
  | project
  | owner
  | platform
  | buildDir
  | outputDir
  deriving DecidableEq, Repr

/-- An option without a value. -/
inductive Switch where
  | verbose
  | json
  | dryRun
  | help
  | version
  deriving DecidableEq, Repr

/-- An option. -/
inductive AnyOption where
  | value (o : ValueOption)
  | switch (s : Switch)
  deriving DecidableEq, Repr

/-- Where options stand: before the command, or behind it. -/
inductive Level where
  | program
  | command (c : CommandName)
  deriving DecidableEq, Repr

/-- The word for a command. -/
def CommandName.word : CommandName → String
  | publish => "publish"
  | package => "package"
  | config => "config"

/-- All commands, in the order in which they are listed. -/
def CommandName.all : List CommandName := [publish, package, config]

/-- The command that a word names. -/
def CommandName.ofWord? (w : Bytes) : Option CommandName :=
  all.find? fun c => Utf8.encode c.word == w

namespace ValueOption

/-- The long name of an option. -/
def longName : ValueOption → String
  | project => "project"
  | owner => "owner"
  | platform => "platform"
  | buildDir => "build-dir"
  | outputDir => "output-dir"

/-- The name of the value. -/
def placeholder : ValueOption → String
  | project => "PROJECT"
  | owner => "OWNER"
  | platform => "PLATFORM"
  | buildDir => "BUILD_DIR"
  | outputDir => "OUTPUT_DIR"

/-- The value is a path, which need not be text but must not be empty. -/
def takesPath : ValueOption → Bool
  | buildDir => true
  | outputDir => true
  | _ => false

/-- All options with a value, in the order in which they are listed. -/
def all : List ValueOption := [project, owner, platform, buildDir, outputDir]

end ValueOption

namespace Switch

/-- The long name of a switch. -/
def longName : Switch → String
  | verbose => "verbose"
  | json => "json"
  | dryRun => "dry-run"
  | help => "help"
  | version => "version"

/-- The letter of a switch, if it has one. -/
def letter? : Switch → Option Char
  | verbose => some 'v'
  | help => some 'h'
  | version => some 'V'
  | _ => none

end Switch

namespace AnyOption

/-- The long name of an option. -/
def longName : AnyOption → String
  | value o => o.longName
  | switch s => s.longName

/-- The letter of an option, if it has one. -/
def letter? : AnyOption → Option Char
  | value _ => none
  | switch s => s.letter?

/-- An option as messages name it. -/
def shown : AnyOption → String
  | value o => "--" ++ o.longName ++ " <" ++ o.placeholder ++ ">"
  | switch .verbose => "--verbose..."
  | switch s => "--" ++ s.longName

end AnyOption

namespace Level

/-- The switches that only this level knows. -/
def ownSwitches : Level → List Switch
  | program => []
  | command .publish => [.dryRun, .json]
  | command _ => [.json]

/-- The options that are known at a level, in the order in which they are listed. -/
def options (l : Level) : List AnyOption :=
  l.ownSwitches.map .switch ++ ValueOption.all.map .value ++
    [.switch .verbose, .switch .help, .switch .version]

/-- The option with a long name. -/
def longOption? (l : Level) (name : Bytes) : Option AnyOption :=
  l.options.find? fun o => Utf8.encode o.longName == name

/-- The option with a letter. -/
def letterOption? (l : Level) (c : Char) : Option AnyOption :=
  l.options.find? fun o => o.letter? == some c

end Level

end ReleasePublisher.CommandLine
