/-!
# Settings

The settings of a run come in three sections: the MIB, the dump command, and the generator.
An option without a default may be unset.

## Main definitions

* `Settings` — the settings, with their defaults
* `Layer` — what one layer of configuration specifies
-/

namespace MibDrivers

/-- The MIB that a driver is generated for: the file that is handed to the dump command, and
the module that the dump has to declare. -/
structure MibSettings where
  path : Option String := none
  moduleName : Option String := none
  deriving DecidableEq, Repr, Inhabited

/-- The dump command and the templates of its arguments. -/
structure DumpSettings where
  command : Option String := none
  args : List String := ["\x7bmib\x7d"]
  deriving DecidableEq, Repr, Inhabited

/-- The generator: the names it leaves out, the root class, the path of the runtime types,
a dump in place of the built-in baseline, and the file to write. -/
structure GeneratorSettings where
  exclude : List String := ["uhp", "uhpV32"]
  rootName : String := "MibDriver"
  runtimePath : String := "crate::snmp"
  baseline : Option String := none
  output : Option String := none
  deriving DecidableEq, Repr, Inhabited

/-- The settings of a run. -/
structure Settings where
  mib : MibSettings := {}
  dump : DumpSettings := {}
  generator : GeneratorSettings := {}
  deriving DecidableEq, Repr, Inhabited

/-- What a layer specifies about the dump command. -/
structure DumpLayer where
  command : Option String := none
  args : Option (List String) := none
  deriving DecidableEq, Repr, Inhabited

/-- What a layer specifies about the generator. -/
structure GeneratorLayer where
  exclude : Option (List String) := none
  rootName : Option String := none
  runtimePath : Option String := none
  baseline : Option String := none
  output : Option String := none
  deriving DecidableEq, Repr, Inhabited

/-- What one layer of configuration specifies. An unset option is left to the layers
below. -/
structure Layer where
  mib : MibSettings := {}
  dump : DumpLayer := {}
  generator : GeneratorLayer := {}
  deriving DecidableEq, Repr, Inhabited

end MibDrivers
