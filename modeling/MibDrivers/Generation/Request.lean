import MibDrivers.Driver.Plan
import MibDrivers.Dump.Source
import MibDrivers.Settings.Basic

/-!
# Requests for a driver

A request says all that the generation of a driver depends on. It follows from the settings
and a dump file that the user may name instead of running the dump command.

## Main definitions

* `Request` — what a driver is generated from, and where it goes
* `Request.ofSettings` — the request that settings make
-/

namespace MibDrivers

/-- What a driver is generated from, and where it goes. -/
structure Request where
  source : DumpSource
  /-- The module that the dump has to declare, if any will not do. -/
  expected : Option String := none
  /-- The names of objects that are left out. -/
  excluded : List String := []
  /-- The path of a dump that replaces the system group. -/
  baseline : Option String := none
  options : Driver.Options := {}
  /-- The path of the file to write, if one is to be written. -/
  output : Option String := none
  deriving DecidableEq, Repr

namespace Request

/-- Where settings have a dump come from. The dump file that the user names comes first; a
dump command needs a MIB file. -/
def sourceOf (settings : Settings) (dumpFile? : Option String) :
    Except ConfigError DumpSource :=
  match dumpFile?, settings.dump.command with
  | some path, _ => .ok (.file path)
  | none, some program =>
    match settings.mib.path with
    | some mibPath =>
      .ok (.ofCommand program settings.dump.args mibPath settings.mib.moduleName)
    | none => .error .mibPathUnset
  | none, none => .error .noDumpSource

/-- The request that settings make, with a dump file that the user may name. -/
def ofSettings (settings : Settings) (dumpFile? : Option String) :
    Except ConfigError Request := do
  let source ← sourceOf settings dumpFile?
  return {
    source
    expected := settings.mib.moduleName
    excluded := settings.generator.exclude
    baseline := settings.generator.baseline
    options := {
      rootName := settings.generator.rootName
      runtimePath := settings.generator.runtimePath
      moduleName := settings.mib.moduleName }
    output := settings.generator.output }

end Request

end MibDrivers
