import MibDrivers.CommandLine.Arguments
import MibDrivers.Settings.Basic

/-!
# Invocations

An invocation is what the arguments ask for, if they ask for a run at all.

## Main definitions

* `SourceChoice` — where the user wants the dump to come from
* `Action` — what is to be done
* `Invocation` — an action and the configuration file that the user names
* `Invocation.ofReading` — the invocation that was read
-/

namespace MibDrivers

namespace CommandLine

/-- Where the user wants the dump to come from, as far as the settings do not say so. -/
structure SourceChoice where
  dumpFile : Option String := none
  mibPath : Option String := none
  moduleName : Option String := none
  deriving DecidableEq, Repr

/-- What is to be done. -/
inductive Action where
  /-- Generate a driver, with another output than the settings have, or to standard output. -/
  | generate (choice : SourceChoice) (output : Option String) (toStdout : Bool)
  /-- Check a file, which is the output of the settings unless the user names one. -/
  | check (choice : SourceChoice) (file : Option String)
  /-- Show the forest. -/
  | tree (choice : SourceChoice)
  /-- Show the settings. -/
  | showConfig
  /-- Show where the configuration files are. -/
  | showPaths
  /-- Write a configuration file that explains every option. -/
  | initConfig (globalConfig force : Bool)
  /-- Write completions for a shell. -/
  | completion (shell : Shell)
  deriving DecidableEq, Repr

/-- What the arguments ask for: an action, if a command is given, under the configuration
file that the user names. -/
structure Invocation where
  configPath : Option String := none
  action : Option Action := none
  deriving DecidableEq, Repr

/-- Where the user wants the dump to come from. -/
def SourceChoice.ofReading (reading : Reading) : SourceChoice where
  dumpFile := reading.value? .dumpFile
  mibPath := reading.value? .mibPath
  moduleName := reading.value? .moduleName

/-- The action of a command. The commands that only lead to others have none. -/
def Action.ofReading (reading : Reading) : Option Action :=
  let choice := SourceChoice.ofReading reading
  match reading.command with
  | .main | .config | .help => none
  | .generate => some (.generate choice (reading.value? .output) (reading.has .toStdout))
  | .check => some (.check choice (reading.value? .file))
  | .tree => some (.tree choice)
  | .showConfig => some .showConfig
  | .showPaths => some .showPaths
  | .initConfig => some (.initConfig (reading.has .globalConfig) (reading.has .force))
  | .completion => do
    let shell ← Shell.names.lookup (← reading.value? .shell)
    return .completion shell

/-- The invocation that was read. -/
def Invocation.ofReading (reading : Reading) : Invocation where
  configPath := reading.value? .configPath
  action := Action.ofReading reading

end CommandLine

/-- The settings with the choice of the user in place of theirs. -/
def Settings.withChoice (settings : Settings) (choice : CommandLine.SourceChoice) : Settings :=
  { settings with
    mib.path := choice.mibPath.or settings.mib.path
    mib.moduleName := choice.moduleName.or settings.mib.moduleName }

end MibDrivers
