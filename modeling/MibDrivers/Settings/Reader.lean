import MibDrivers.Settings.Basic
import MibDrivers.Toml.Document

/-!
# Reading a layer of settings

A layer is a TOML document with the sections `mib`, `dump` and `generator`. Other keys are
ignored, but the known options must have values of their type. A section may also be given
as a list of its options in their order, of which the last ones may be missing and any
further items are ignored.

## Main definitions

* `Layer.ofToml?` — the layer that a document specifies
-/

namespace MibDrivers

namespace Toml

/-- The text of a string. -/
def Value.text? : Value → Option String
  | .string text => some text
  | _ => none

/-- The texts of a list of strings. -/
def Value.texts? : Value → Option (List String)
  | .list items => items.mapM Value.text?
  | _ => none

/-- The option of a section with the given key and place, read by `read`. It may be unset,
but it must not have a value of another type. -/
def Value.option? {α : Type} (read : Value → Option α) (key : String) (place : Nat) :
    Value → Option (Option α)
  | .table entries => optional (entries.lookup key)
  | .list items => optional items[place]?
  | _ => none
where
  /-- Reads a value that may be missing. -/
  optional : Option Value → Option (Option α)
    | none => some none
    | some value => (read value).map some

/-- The value of a key, or an empty section. -/
def section? (entries : List (String × Value)) (key : String) : Value :=
  (entries.lookup key).getD (.table [])

end Toml

open Toml in
/-- The section about the MIB. -/
def MibSettings.ofToml? (value : Value) : Option MibSettings := do
  let path ← value.option? Value.text? "path" 0
  let moduleName ← value.option? Value.text? "module" 1
  return { path, moduleName }

open Toml in
/-- The section about the dump command. -/
def DumpLayer.ofToml? (value : Value) : Option DumpLayer := do
  let command ← value.option? Value.text? "command" 0
  let args ← value.option? Value.texts? "args" 1
  return { command, args }

open Toml in
/-- The section about the generator. -/
def GeneratorLayer.ofToml? (value : Value) : Option GeneratorLayer := do
  let exclude ← value.option? Value.texts? "exclude" 0
  let rootName ← value.option? Value.text? "root_name" 1
  let runtimePath ← value.option? Value.text? "runtime_path" 2
  let baseline ← value.option? Value.text? "baseline" 3
  let output ← value.option? Value.text? "output" 4
  return { exclude, rootName, runtimePath, baseline, output }

/-- The layer that a document specifies. -/
def Layer.ofToml? (text : String) : Option Layer := do
  let entries ← Toml.ofText? text
  let mib ← MibSettings.ofToml? (Toml.section? entries "mib")
  let dump ← DumpLayer.ofToml? (Toml.section? entries "dump")
  let generator ← GeneratorLayer.ofToml? (Toml.section? entries "generator")
  return { mib, dump, generator }

end MibDrivers
