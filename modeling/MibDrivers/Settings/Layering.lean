import MibDrivers.Settings.Basic
import MibDrivers.Text.Split

/-!
# Layers of settings

A layer replaces the options that it specifies. The list of excluded names is special: the
global layer replaces it as a whole, while the project layer extends it, and an item that
begins with `!` takes the rest of the item out of what is there so far.

## Main definitions

* `Settings.mergeExclusions` — a list extended by another, with removals
* `Settings.withGlobal`, `Settings.withProject` — settings under a further layer
-/

namespace MibDrivers

namespace Settings

/-- The items without repetitions, each at its first place. -/
def distinct (items : List String) : List String :=
  items.foldl (fun result item => if item ∈ result then result else result ++ [item]) []

/-- The item that a pattern takes out, if it begins with `!`. -/
def negated? (pattern : String) : Option String :=
  (Text.dropPrefix? ['!'] pattern.toList).map String.ofList

/-- Adds an item that is not there yet, or takes one out. -/
def applyPattern (items : List String) (pattern : String) : List String :=
  match negated? pattern with
  | some item => items.filter (· ≠ item)
  | none => if pattern ∈ items then items else items ++ [pattern]

/-- The base without repetitions, changed by the patterns of the overlay one after
another. -/
def mergeExclusions (base overlay : List String) : List String :=
  overlay.foldl applyPattern (distinct base)

end Settings

/-- The options of a layer, where it has them. -/
def MibSettings.under (base layer : MibSettings) : MibSettings where
  path := layer.path.or base.path
  moduleName := layer.moduleName.or base.moduleName

/-- The options of a layer, where it has them. The arguments are replaced as a whole. -/
def DumpSettings.under (base : DumpSettings) (layer : DumpLayer) : DumpSettings where
  command := layer.command.or base.command
  args := layer.args.getD base.args

/-- The options of a layer, where it has them, with the given exclusions. -/
def GeneratorSettings.under (base : GeneratorSettings) (layer : GeneratorLayer)
    (exclude : List String) : GeneratorSettings where
  exclude := exclude
  rootName := layer.rootName.getD base.rootName
  runtimePath := layer.runtimePath.getD base.runtimePath
  baseline := layer.baseline.or base.baseline
  output := layer.output.or base.output

namespace Settings

/-- The settings under the global layer, whose exclusions replace those of the base. -/
def withGlobal (base : Settings) (layer : Layer) : Settings where
  mib := base.mib.under layer.mib
  dump := base.dump.under layer.dump
  generator := base.generator.under layer.generator
    (layer.generator.exclude.getD base.generator.exclude)

/-- The settings under the project layer, whose exclusions extend those of the base. -/
def withProject (base : Settings) (layer : Layer) : Settings where
  mib := base.mib.under layer.mib
  dump := base.dump.under layer.dump
  generator := base.generator.under layer.generator
    (match layer.generator.exclude with
      | some overlay => mergeExclusions base.generator.exclude overlay
      | none => base.generator.exclude)

end Settings

end MibDrivers
