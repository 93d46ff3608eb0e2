import MibDrivers.Dump.Basic
import MibDrivers.Text.Utf8

/-!
# Failures

Why a run fails: the objects of the module are refused, the dump cannot be had or read, the
module is not the expected one, the configuration is at fault, or a file cannot be read or
written. Each failure has its wording and an exit code that follows the BSD conventions.

## Main definitions

* `ConfigError`, `DumpFault` — faults of the configuration and of a dump
* `Failure` — why a run fails
* `Failure.message`, `Failure.exitCode` — the wording and the exit code
-/

namespace MibDrivers

/-! ### Exit codes -/

namespace ExitCode

/-- The run succeeded. -/
def ok : Nat := 0

/-- A generated file is not what would be generated now. -/
def stale : Nat := 1

/-- The command line is wrong. -/
def usage : Nat := 64

/-- The input data is wrong. -/
def dataError : Nat := 65

/-- The input does not hold what was asked for. -/
def noInput : Nat := 66

/-- A program that is needed fails. -/
def unavailable : Nat := 69

/-- A file cannot be read or written. -/
def ioError : Nat := 74

/-- The configuration is wrong. -/
def config : Nat := 78

end ExitCode

/-! ### Faults -/

/-- What is wrong with the configuration. -/
inductive ConfigError where
  /-- A configuration file cannot be read. -/
  | unreadable (path reason : String)
  /-- A configuration file is no TOML document or has a value of the wrong type. -/
  | malformed (path : String)
  /-- The configuration file that the user names does not exist. -/
  | notFound (path : String)
  /-- The name of the root class is none. -/
  | rootName (text : String)
  /-- The path of the runtime types is none. -/
  | runtimePath (text : String)
  /-- There is a dump command but no MIB file for it. -/
  | mibPathUnset
  /-- There is neither a dump command nor a dump file. -/
  | noDumpSource
  /-- There is no place for the global configuration file. -/
  | noGlobalDirectory
  deriving DecidableEq, Repr

/-- The wording of a configuration error. What is wrong with a malformed file is not
told. -/
def ConfigError.message : ConfigError → String
  | .unreadable path reason => "read " ++ path ++ ": " ++ reason
  | .malformed path => "parse " ++ path ++ ": <toml>"
  | .notFound path => "config file not found: " ++ path
  | .rootName text => "generator.root_name must be a CamelCase identifier: " ++ Text.quoted text
  | .runtimePath text => "generator.runtime_path must be a module path: " ++ Text.quoted text
  | .mibPathUnset => "mib.path is not set"
  | .noDumpSource => "no dump source: set dump.command or pass --dump-file"
  | .noGlobalDirectory => "cannot determine global config directory"

/-- What is wrong with a dump. -/
inductive DumpFault where
  | refused (cause : DumpError)
  | notText (cause : Utf8.Error)
  | noNodes

/-- The wording of a fault of a dump. -/
def DumpFault.message : DumpFault → String
  | .refused cause => cause.message
  | .notText cause => cause.message
  | .noNodes => "no nodes"

/-- Why a run fails. -/
inductive Failure where
  /-- The objects of the module are refused. -/
  | objects (cause : MibError)
  /-- The dump command fails, with the given exit code if it has one. -/
  | dumpFailed (command : String) (code : Option Int) (stderr : String)
  /-- The dump from the given origin cannot be read. -/
  | invalidDump (origin : String) (fault : DumpFault)
  /-- The dump declares another module than the expected one, or none. -/
  | moduleNotFound (expected : String) (found : Option String)
  /-- The configuration is at fault. -/
  | config (cause : ConfigError)
  /-- A file cannot be read or written, or the dump command cannot be started. -/
  | operation (context : String)

namespace Failure

/-- The wording of a failure. -/
def message : Failure → String
  | .objects cause => cause.message
  | .dumpFailed command code stderr =>
    "mib dump command `" ++ command ++ "` failed (exit code " ++
      (match code with
        | some code => toString code
        | none => "none") ++ "): " ++ stderr
  | .invalidDump origin fault => "unparsable mib dump from " ++ origin ++ ": " ++ fault.message
  | .moduleNotFound expected found =>
    "expected mib module " ++ expected ++ " not found in dump (found: " ++
      found.getD "nothing" ++ ")"
  | .config cause => "config error: " ++ cause.message
  | .operation context => "operation failed: " ++ context

/-- The exit code of a run that fails. -/
def exitCode : Failure → Nat
  | .objects _ => ExitCode.dataError
  | .dumpFailed .. => ExitCode.unavailable
  | .invalidDump .. => ExitCode.dataError
  | .moduleNotFound .. => ExitCode.noInput
  | .config _ => ExitCode.config
  | .operation _ => ExitCode.ioError

end Failure

end MibDrivers
