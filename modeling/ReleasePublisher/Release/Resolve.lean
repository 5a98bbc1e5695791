import ReleasePublisher.Files.Tree
import ReleasePublisher.Release.Config
import ReleasePublisher.Release.ConfigFile

/-!
# Resolving a configuration

Each value of a configuration has its sources, in order: the command line, the environment, the
configuration file, a default. The file is the first of three candidates that exists; a variable
that is blank counts as unset.

## Main definitions

* `Overrides`: the values given on the command line
* `Environment`: the values of variables
* `FileConfig.candidates root`, `FileConfig.find? t root`: where the file is looked for
* `FileConfig.load t root`: reads the file, if there is one
* `projectFault? name`: why a project name cannot be used
* `resolve t root overrides env`: the configuration
-/

namespace ReleasePublisher

/-- The values given on the command line. -/
structure Overrides where
  project : Option String
  owner : Option String
  platform : Option String
  buildDir : Option Path
  outputDir : Option Path
  deriving DecidableEq, Repr

/-- The value of a variable, if it is set. -/
abbrev Environment := String → Option String

namespace FileConfig

/-- Where the configuration file is looked for, in order. -/
def candidates (root : Path) : List Path :=
  [root.join (.ofText "relup.toml"), root.join (.ofText ".relup.toml"),
    (root.join (.ofText ".config")).join (.ofText "relup.toml")]

/-- The configuration file: the first candidate that is a regular file. -/
def find? (t : FileTree) (root : Path) : Option Path :=
  (candidates root).find? t.isFile

/-- The values that a file with these bytes gives. -/
def ofBytes (path : Path) (bytes : Bytes) : Except Failure FileConfig :=
  match Utf8.decodeChars? bytes with
  | none => .error (.io .notText (some ("Failed to read config from " ++ path.display)))
  | some text =>
    (ofToml text).mapError fun f => .config (.invalidFile path (f.report text))

/-- Reads the configuration file, if there is one. -/
def load (t : FileTree) (root : Path) : Except Failure (Option (Path × FileConfig)) :=
  match find? t root with
  | none => .ok none
  | some path =>
    match t.read path with
    | .error e => .error (.io e (some ("Failed to read config from " ++ path.display)))
    | .ok bytes => (ofBytes path bytes).map fun c => some (path, c)

end FileConfig

/-- Why a project name cannot be used. -/
def projectFault? (name : String) : Option String :=
  if Text.isBlankText name then some "name is empty"
  else if name == "." || name == ".." then some "name is a relative path component"
  else if name.toList.any fun c => c == '/' || c == '\\' then
    some "name contains a path separator"
  else none

/-- A project name that can be used. -/
def checkProject (name : String) : Except Failure String :=
  match projectFault? name with
  | some reason => .error (.config (.invalidProject name reason))
  | none => .ok name

/-- A variable that is blank counts as unset. -/
def Environment.set? (env : Environment) (name : String) : Option String :=
  (env name).filter fun v => !Text.isBlankText v

/-- The configuration that the values of a file, the command line and the environment give. -/
def resolveWith (root : Path) (overrides : Overrides) (env : Environment)
    (file : Option (Path × FileConfig)) : Except Failure Config :=
  let given := (file.map fun f => f.2.release).getD .empty
  -- A name on the command line counts even if it is blank, and is then refused.
  match overrides.project <|> env.set? projectVariable <|> given.project with
  | none => .error (.config (.missingVariable projectVariable))
  | some project => do
    let project ← checkProject project
    let pathOr (a b : Option Path) (fallback : String) : Path :=
      root.join ((a <|> b).getD (.ofText fallback))
    return {
      project := project
      owner := (overrides.owner <|> given.owner).getD "mozilla"
      platform := (overrides.platform <|> given.platform).getD "linux-x86_64"
      buildDir := pathOr overrides.buildDir given.buildDir "target/release"
      outputDir := pathOr overrides.outputDir given.outputDir ""
      apiUrl := trimBase ((env.set? apiVariable <|> given.apiUrl).getD "https://api.github.com")
      proxyUrl := (env.set? proxyVariable).map trimBase
      configFile := file.map (·.1) }

/-- The configuration that a root directory, the command line and the environment give. -/
def resolve (t : FileTree) (root : Path) (overrides : Overrides) (env : Environment) :
    Except Failure Config := do
  resolveWith root overrides env (← FileConfig.load t root)

end ReleasePublisher
