import MibDrivers.CommandLine.Completion
import MibDrivers.CommandLine.Invocation
import MibDrivers.Forest.Display
import MibDrivers.Generation.Report
import MibDrivers.Settings.Load
import MibDrivers.Settings.Writer

/-!
# Sessions

A session carries out what the arguments ask for. It ends with an exit code and with what is
to be printed: results on standard output, failures on standard error.

## Main definitions

* `CommandError` — why a session fails
* `Transcript` — what a session ends with
* `Invocation.run` — carries out an invocation
* `CommandLine.session` — reads arguments and carries out what they ask for
-/

namespace MibDrivers.CommandLine

/-! ### Failures -/

/-- Why a session fails. -/
inductive CommandError where
  /-- No command is given. -/
  | noCommand
  /-- There is no file to check. -/
  | nothingToCheck
  /-- A configuration file is already there. -/
  | alreadyExists (path : String)
  /-- A configuration file cannot be written. -/
  | configNotWritten (path : String)
  /-- The generation of a driver fails. -/
  | generation (cause : Failure)

namespace CommandError

/-- The wording of an error. -/
def message : CommandError → String
  | .noCommand => "no command given, see `mibgen --help`"
  | .nothingToCheck =>
    "invalid arguments: no file to check: pass a path or set generator.output"
  | .alreadyExists path => path ++ " already exists, use --force to overwrite"
  | .configNotWritten path => "I/O error: write " ++ path
  | .generation cause => cause.message

/-- The exit code of a session that fails. -/
def exitCode : CommandError → Nat
  | .noCommand | .nothingToCheck | .alreadyExists _ => ExitCode.usage
  | .configNotWritten _ => ExitCode.ioError
  | .generation cause => cause.exitCode

end CommandError

/-! ### Transcripts -/

/-- What a session ends with. -/
structure Transcript where
  exitCode : Nat := ExitCode.ok
  stdout : String := ""
  stderr : String := ""
  deriving DecidableEq, Repr

namespace Transcript

/-- A session that prints a text and ends the line. -/
def info (text : String) : Transcript := { stdout := text ++ "\n" }

/-- A session that reports a success. -/
def success (text : String) : Transcript := info ("✓ " ++ text)

/-- A session that reports that a file is not what it should be. -/
def stale (text : String) : Transcript :=
  { info ("✗ " ++ text) with exitCode := ExitCode.stale }

/-- A session that fails. -/
def ofError (error : CommandError) : Transcript :=
  { exitCode := error.exitCode, stderr := "error: " ++ error.message ++ "\n" }

/-- What is said about a generated driver. A source that was not written is printed. -/
def ofReport (report : Report) : Transcript :=
  match report.output with
  | some path =>
    success ("generated " ++ path ++ " (" ++ toString report.classes ++ " classes, " ++
      toString report.scalars ++ " scalars)")
  | none => info (Text.trimEnd report.source)

/-- What is said about a file that was checked. -/
def ofFreshness (path : String) : Freshness → Transcript
  | .fresh => success (path ++ " is up to date")
  | .stale => stale (path ++ " is stale, run `mibgen generate`")
  | .missing => stale (path ++ " does not exist")

/-- What is said about the places of the configuration files. -/
def ofPlaces (globalPlace? : Option (String × Bool)) (projectPlace : String × Bool) :
    Transcript where
  stdout := (globalPlace?.map (line "Global")).getD "" ++ line "Project" projectPlace
  stderr :=
    if globalPlace?.isSome then ""
    else "Warning: " ++ ConfigError.noGlobalDirectory.message ++ "\n"
where
  /-- A line about one place, and whether there is something. -/
  line (label : String) (place : String × Bool) : String :=
    label ++ ": " ++ place.1 ++ (if place.2 then " (exists)\n" else " (not found)\n")

end Transcript

/-! ### Running -/

namespace Invocation

variable {m : Type → Type} [Monad m] [Host m]

/-- A generation whose failure is one of the session. -/
def generation {α : Type} (run : ExceptT Failure m α) : ExceptT CommandError m α :=
  run.adapt .generation

/-- A configuration error as a failure of the session. -/
def configFault (cause : ConfigError) : CommandError := .generation (.config cause)

/-- The settings of a session. -/
def settings (environment : Environment) (invocation : Invocation) :
    ExceptT CommandError m Settings := do
  match ← Settings.load environment invocation.configPath with
  | .ok settings => return settings
  | .error cause => throw (configFault cause)

/-- The request that the settings and the choice of the user make. -/
def request (environment : Environment) (invocation : Invocation) (choice : SourceChoice) :
    ExceptT CommandError m Request := do
  let settings ← invocation.settings environment
  match Request.ofSettings (settings.withChoice choice) choice.dumpFile with
  | .ok request => return request
  | .error cause => throw (configFault cause)

/-- Generates a driver. -/
def runGenerate (environment : Environment) (invocation : Invocation) (choice : SourceChoice)
    (output? : Option String) (toStdout : Bool) : ExceptT CommandError m Transcript := do
  let request ← invocation.request environment choice
  let output? := if toStdout then none else output?.or request.output
  return .ofReport (← generation { request with output := output? }.generate)

/-- Checks a file. -/
def runCheck (environment : Environment) (invocation : Invocation) (choice : SourceChoice)
    (file? : Option String) : ExceptT CommandError m Transcript := do
  let request ← invocation.request environment choice
  match file?.or request.output with
  | some path => return .ofFreshness path (← generation (request.check path))
  | none => throw .nothingToCheck

/-- Shows the forest. -/
def runTree (environment : Environment) (invocation : Invocation) (choice : SourceChoice) :
    ExceptT CommandError m Transcript := do
  let request ← invocation.request environment choice
  let mib ← generation request.forest
  return .info (mib.forest.display (mib.moduleName.getD "mib"))

/-- The configuration file of the project. -/
def projectPath (invocation : Invocation) : String :=
  invocation.configPath.getD Settings.defaultProjectPath

/-- Shows where the configuration files are. -/
def runShowPaths (environment : Environment) (invocation : Invocation) :
    ExceptT CommandError m Transcript := do
  let globalPlace? ← match Settings.globalPath? environment (← Settings.findHome environment) with
    | some path => pure (some (path, ← Host.hasPath path))
    | none => pure none
  return .ofPlaces globalPlace? (invocation.projectPath, ← Host.hasPath invocation.projectPath)

/-- Writes a configuration file that explains every option. -/
def runInitConfig (environment : Environment) (invocation : Invocation)
    (globalConfig force : Bool) : ExceptT CommandError m Transcript := do
  let path ←
    if globalConfig then
      match Settings.globalPath? environment (← Settings.findHome environment) with
      | some path => pure path
      | none => throw (configFault .noGlobalDirectory)
    else pure invocation.projectPath
  if (← Host.hasPath path) && !force then throw (.alreadyExists path)
  if ← Host.writeText path Settings.template then return .success ("created " ++ path)
  else throw (.configNotWritten path)

/-- Carries out an invocation. -/
def run (environment : Environment) (invocation : Invocation) :
    ExceptT CommandError m Transcript := do
  match invocation.action with
  | none => throw .noCommand
  | some (.generate choice output? toStdout) =>
    invocation.runGenerate environment choice output? toStdout
  | some (.check choice file?) => invocation.runCheck environment choice file?
  | some (.tree choice) => invocation.runTree environment choice
  | some .showConfig => return .info (← invocation.settings environment).toToml
  | some .showPaths => invocation.runShowPaths environment
  | some (.initConfig globalConfig force) =>
    invocation.runInitConfig environment globalConfig force
  | some (.completion shell) => return { stdout := shell.completions }

/-- Carries out an invocation, and reports a failure. -/
def transcript (environment : Environment) (invocation : Invocation) : m Transcript := do
  match ← (invocation.run environment).run with
  | .ok transcript => return transcript
  | .error error => return .ofError error

end Invocation

/-- Reads arguments and carries out what they ask for. -/
def session {m : Type → Type} [Monad m] [Host m] (environment : Environment)
    (arguments : List String) : m (Except Stop Transcript) := do
  match Arguments.read arguments with
  | .ok reading => return .ok (← (Invocation.ofReading reading).transcript environment)
  | .error stop => return .error stop

end MibDrivers.CommandLine
