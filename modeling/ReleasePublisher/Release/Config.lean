import ReleasePublisher.Failure
import ReleasePublisher.Json.Value
import ReleasePublisher.Text.Blank

/-!
# The release configuration

A configuration says which project is published and where everything is. It also fixes the names
of the archive: the binary `<build directory>/<project>` is packed as the only entry
`<project>-<platform>/<project>` of `<output directory>/<project>-<platform>.tar.gz`.

## Main definitions

* `Config`: a resolved configuration
* `Config.slug`: owner and project as a repository's full name
* `Config.requireProxy`: the secret proxy, which only publishing needs
* `Layout.ofConfig`: the names and places of a packaging run
* `trimBase`: the normal form of a base address
-/

namespace ReleasePublisher

/-- A resolved configuration. -/
structure Config where
  /-- The name of the project, its binary and its repository. -/
  project : String
  /-- The owner of the repository. -/
  owner : String
  /-- The last part of the archive's name. -/
  platform : String
  /-- The directory that holds the compiled binary. -/
  buildDir : Path
  /-- The directory that the archive is written to. -/
  outputDir : Path
  /-- The base address of the release host. -/
  apiUrl : String
  /-- The base address of the secret proxy. -/
  proxyUrl : Option String
  /-- The file that values were read from. -/
  configFile : Option Path
  deriving DecidableEq, Repr

/-- The environment variable that names the project. -/
def projectVariable : String := "PROJECT_NAME"

/-- The environment variable that holds the address of the secret proxy. -/
def proxyVariable : String := "TASKCLUSTER_PROXY_URL"

/-- The environment variable that holds the address of the release host. -/
def apiVariable : String := "GITHUB_API_URL"

/-- The normal form of a base address: no blanks around it, no slashes at its end. -/
def trimBase (url : String) : String :=
  Text.trimEndChar '/' (Text.trim url)

namespace Config

/-- Owner and project, with a slash between them. -/
def slug (c : Config) : String :=
  c.owner ++ "/" ++ c.project

/-- The address of the secret proxy, which must be there. -/
def requireProxy (c : Config) : Except Failure String :=
  match c.proxyUrl with
  | some url => .ok url
  | none => .error (.config (.missingVariable proxyVariable))

end Config

/-- The names and places of a packaging run. -/
structure Layout where
  baseDir : String
  archiveName : String
  source : Path
  entry : Path
  output : Path
  deriving DecidableEq, Repr

/-- The names and places that a configuration asks for. -/
def Layout.ofConfig (c : Config) : Layout :=
  let baseDir := c.project ++ "-" ++ c.platform
  let archiveName := baseDir ++ ".tar.gz"
  { baseDir := baseDir
    archiveName := archiveName
    source := c.buildDir.join (.ofText c.project)
    entry := (Path.ofText baseDir).join (.ofText c.project)
    output := c.outputDir.join (.ofText archiveName) }

end ReleasePublisher
