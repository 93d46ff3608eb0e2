import MibDrivers.Host.Basic
import MibDrivers.Settings.Expansion
import MibDrivers.Settings.Layering
import MibDrivers.Settings.Overrides
import MibDrivers.Settings.Reader
import MibDrivers.Settings.Validity

/-!
# Loading settings

Settings come from four sources, each one above the one before: the defaults, the global
configuration file, the configuration file of the project, and the environment. A file that
does not exist specifies nothing, unless the user names it. When all layers are in place,
variables are expanded in the options that are paths or programs, and the result has to be
valid.

## Main definitions

* `ConfigFile` — a configuration file as it is found
* `Settings.Sources` — the files, the environment and the home directory
* `Settings.ofSources` — the settings that the sources specify
* `Settings.load` — looks at the files of a host and loads their settings
-/

namespace MibDrivers

/-- A configuration file as it is found. -/
inductive ConfigFile where
  | missing
  | unreadable (reason : String)
  | present (text : String)
  deriving DecidableEq, Repr

namespace ConfigFile

/-- The layer that the file at a path specifies. -/
def layer (path : String) : ConfigFile → Except ConfigError Layer
  | .missing => .ok {}
  | .unreadable reason => .error (.unreadable path reason)
  | .present text =>
    match Layer.ofToml? text with
    | some specified => .ok specified
    | none => .error (.malformed path)

/-- Looks at the file at a path. -/
def find {m : Type → Type} [Monad m] [Host m] (path : String) : m ConfigFile := do
  if ← Host.hasPath path then
    match ← Host.readText path with
    | .ok text => return .present text
    | .error reason => return .unreadable reason
  else return .missing

end ConfigFile

namespace Settings

/-! ### Places -/

/-- The path of a name in a directory. -/
def inDirectory (directory name : String) : String :=
  if directory.toList.getLast? = some '/' then directory ++ name else directory ++ "/" ++ name

/-- The name of every configuration file. -/
def fileName : String := "mibgen.toml"

/-- The configuration file of a project for which the user names none. -/
def defaultProjectPath : String := inDirectory "." fileName

/-- The directory for configuration files: the one that `XDG_CONFIG_HOME` names by an absolute
path, or else `.config` in the home directory. Without a home directory there is none. -/
def configDirectory? (environment : Environment) (home? : Option String) : Option String :=
  home?.map fun home =>
    ((environment.value? "XDG_CONFIG_HOME").filter (·.toList.head? = some '/')).getD
      (inDirectory home ".config")

/-- The place of the global configuration file. -/
def globalPath? (environment : Environment) (home? : Option String) : Option String :=
  (configDirectory? environment home?).map fun directory =>
    inDirectory (inDirectory directory "mibgen") fileName

/-! ### Loading -/

/-- The sources of settings. -/
structure Sources where
  /-- The global file with its path, if there is a place for it. -/
  globalFile : Option (String × ConfigFile) := none
  /-- The user names the file of the project. -/
  projectNamed : Bool := false
  projectPath : String := defaultProjectPath
  projectFile : ConfigFile := .missing
  environment : Environment := []
  home : Option String := none
  deriving DecidableEq, Repr

/-- The settings with variables expanded in the options that are paths or programs. -/
def expandPaths (settings : Settings) (environment : Environment) (home? : Option String) :
    Settings :=
  { settings with
    mib.path := settings.mib.path.map (Expansion.expand environment home?)
    dump.command := settings.dump.command.map (Expansion.expand environment home?)
    generator.baseline := settings.generator.baseline.map (Expansion.expand environment home?)
    generator.output := settings.generator.output.map (Expansion.expand environment home?) }

/-- The layer of the global file. -/
def Sources.globalLayer (sources : Sources) : Except ConfigError Layer :=
  match sources.globalFile with
  | some (path, file) => file.layer path
  | none => .ok {}

/-- The layer of the project. A file that the user names has to exist. -/
def Sources.projectLayer (sources : Sources) : Except ConfigError Layer :=
  if sources.projectNamed && sources.projectFile = .missing then
    .error (.notFound sources.projectPath)
  else sources.projectFile.layer sources.projectPath

/-- The settings that the sources specify. -/
def ofSources (sources : Sources) : Except ConfigError Settings := do
  let globalLayer ← sources.globalLayer
  let projectLayer ← sources.projectLayer
  let layered := (({} : Settings).withGlobal globalLayer).withProject projectLayer
  let settings :=
    (layered.withOverrides sources.environment).expandPaths sources.environment sources.home
  settings.validate
  return settings

/-- The home directory on a host. -/
def findHome {m : Type → Type} [Monad m] [Host m] (environment : Environment) :
    m (Option String) :=
  return Expansion.home? environment (← Host.accountHome)

/-- Looks at the files of a host. The user may name the file of the project. -/
def findSources {m : Type → Type} [Monad m] [Host m] (environment : Environment)
    (named? : Option String) : m Sources := do
  let home ← findHome environment
  let globalFile ← match globalPath? environment home with
    | some path => pure (some (path, ← ConfigFile.find path))
    | none => pure none
  let projectPath := named?.getD defaultProjectPath
  let projectFile ← ConfigFile.find projectPath
  return {
    globalFile, projectNamed := named?.isSome, projectPath, projectFile, environment, home }

/-- Loads the settings of a host. The user may name the file of the project. -/
def load {m : Type → Type} [Monad m] [Host m] (environment : Environment)
    (named? : Option String) : m (Except ConfigError Settings) := do
  return ofSources (← findSources environment named?)

end Settings

end MibDrivers
