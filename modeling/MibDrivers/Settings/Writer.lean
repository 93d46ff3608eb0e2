import MibDrivers.Settings.Basic
import MibDrivers.Toml.Quoting

/-!
# Settings as TOML

The settings are written as a TOML document with their three sections, separated by empty
lines. An unset option is left out.

## Main definitions

* `Settings.toToml` — the document that shows settings
* `Settings.template` — a document that explains every option and sets none
-/

namespace MibDrivers.Settings

/-- A line that sets an option. -/
def optionLine (key : String) (value : List Char) : List Char :=
  key.toList ++ " = ".toList ++ value ++ ['\n']

/-- The line that sets an option to a string. -/
def stringLine (key text : String) : List Char := optionLine key (Toml.stringChars text)

/-- The line that sets an option to a string, or none if it is unset. -/
def optionalLine (key : String) : Option String → List Char
  | some text => stringLine key text
  | none => []

/-- The line that sets an option to a list of strings. -/
def listLine (key : String) (items : List String) : List Char :=
  optionLine key (Toml.listChars items)

/-- The characters of the document that shows settings. -/
def tomlChars (settings : Settings) : List Char :=
  "[mib]\n".toList ++
  optionalLine "path" settings.mib.path ++
  optionalLine "module" settings.mib.moduleName ++
  "\n[dump]\n".toList ++
  optionalLine "command" settings.dump.command ++
  listLine "args" settings.dump.args ++
  "\n[generator]\n".toList ++
  listLine "exclude" settings.generator.exclude ++
  stringLine "root_name" settings.generator.rootName ++
  stringLine "runtime_path" settings.generator.runtimePath ++
  optionalLine "baseline" settings.generator.baseline ++
  optionalLine "output" settings.generator.output

/-- The document that shows settings. -/
def toToml (settings : Settings) : String := String.ofList settings.tomlChars

/-- The lines of a document that explains every option and sets none. -/
def templateLines : List String := [
  "# mibgen configuration",
  "#",
  "# Locations (by precedence, lowest to highest):",
  "#   Global:  ~/.config/mibgen/mibgen.toml  (defines your baseline)",
  "#   Project: ./mibgen.toml or --config     (project-specific additions)",
  "#   Env:     MIBGEN_* environment variables, e.g. MIBGEN_MIB__MODULE",
  "#",
  "# Array Merge Semantics:",
  "#   Global config REPLACES compiled defaults.",
  "#   Project config UNIONS with global for generator.exclude.",
  "#   Use \"!name\" in project config to REMOVE an inherited item:",
  "#     exclude = [\"debugTable\", \"!uhp\"]  # adds debugTable, keeps uhp in the tree",
  "",
  "[mib]",
  "# Vendor MIB file, substituted for \x7bmib\x7d in dump.args",
  "# path = \"mibs/VENDOR-MIB.txt\"",
  "",
  "# Module the dump must declare",
  "# module = \"VENDOR-MIB\"",
  "",
  "[dump]",
  "# Program printing the JSON node dump on stdout",
  "# command = \"mibdump\"",
  "# args = [\"\x7bmib\x7d\"]",
  "",
  "[generator]",
  "# Descriptor names left out of the working set",
  "# exclude = [\"uhp\", \"uhpV32\"]",
  "",
  "# Name of the generated root driver struct",
  "# root_name = \"MibDriver\"",
  "",
  "# Module path providing SnmpContext, SnmpDriver, RoLeaf and RwLeaf",
  "# runtime_path = \"crate::snmp\"",
  "",
  "# Baseline dump replacing the built-in MIB-2 system group",
  "# baseline = \"mibs/baseline.json\"",
  "",
  "# Output file (stdout when unset)",
  "# output = \"src/snmp/generated.rs\""]

/-- A document that explains every option and sets none. -/
def template : String := String.join (templateLines.map (· ++ "\n"))

end MibDrivers.Settings
