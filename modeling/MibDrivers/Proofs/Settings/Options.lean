import MibDrivers.Settings.Load

/-!
# Options

Seven options of the settings hold a text, and two hold a list of texts. What loading does is the
same for each of the seven, so it is said here once with the option as a parameter: a layer puts
its text in place of the one below, the environment does so again, and in four of the options
variables are expanded in the end.

## Main definitions

* `TextOption`, `ListOption`, `SettingsOption` — the options, with their sections and keys
* `Settings.text?`, `Layer.text?`, `TextOption.override?` — the text that settings, a layer and
  an environment have for an option
* `Settings.items`, `Layer.items?` — the list that settings and a layer have for an option
* `TextOption.expand` — what loading makes of the text of an option in the end

## Main results

* `Settings.text?_withGlobal`, `Settings.text?_withProject`, `Settings.text?_withOverrides`,
  `Settings.text?_expandPaths` — the text of an option after each step of loading
* `Settings.ext_text?`, `Layer.ext_text?` — settings and layers are determined by their texts and
  their two lists
-/

namespace MibDrivers

/-- An option that holds a text. -/
inductive TextOption where
  | mibPath
  | moduleName
  | dumpCommand
  | rootName
  | runtimePath
  | baseline
  | output
  deriving DecidableEq, Repr

namespace TextOption

/-- The section in which an option stands. -/
def sectionName : TextOption → String
  | .mibPath | .moduleName => "mib"
  | .dumpCommand => "dump"
  | .rootName | .runtimePath | .baseline | .output => "generator"

/-- The key of an option in its section. -/
def key : TextOption → String
  | .mibPath => "path"
  | .moduleName => "module"
  | .dumpCommand => "command"
  | .rootName => "root_name"
  | .runtimePath => "runtime_path"
  | .baseline => "baseline"
  | .output => "output"

/-- Variables are expanded in an option that is a path or a program. -/
def isExpanded : TextOption → Bool
  | .mibPath | .dumpCommand | .baseline | .output => true
  | .moduleName | .rootName | .runtimePath => false

/-- The text that the variables of an environment give an option. -/
def override? (option : TextOption) (environment : Environment) : Option String :=
  Overrides.text? environment option.sectionName option.key

/-- The text of an option when loading ends. -/
def expand (option : TextOption) (environment : Environment) (home? : Option String)
    (text : String) : String :=
  if option.isExpanded then Expansion.expand environment home? text else text

end TextOption

/-- The text of an option, if it is set. -/
def Settings.text? (settings : Settings) : TextOption → Option String
  | .mibPath => settings.mib.path
  | .moduleName => settings.mib.moduleName
  | .dumpCommand => settings.dump.command
  | .rootName => some settings.generator.rootName
  | .runtimePath => some settings.generator.runtimePath
  | .baseline => settings.generator.baseline
  | .output => settings.generator.output

/-- The text that a layer specifies for an option. -/
def Layer.text? (layer : Layer) : TextOption → Option String
  | .mibPath => layer.mib.path
  | .moduleName => layer.mib.moduleName
  | .dumpCommand => layer.dump.command
  | .rootName => layer.generator.rootName
  | .runtimePath => layer.generator.runtimePath
  | .baseline => layer.generator.baseline
  | .output => layer.generator.output

/-- An option that holds a list of texts. -/
inductive ListOption where
  | args
  | exclude
  deriving DecidableEq, Repr

namespace ListOption

/-- The section in which an option stands. -/
def sectionName : ListOption → String
  | .args => "dump"
  | .exclude => "generator"

/-- The key of an option in its section. -/
def key : ListOption → String
  | .args => "args"
  | .exclude => "exclude"

end ListOption

/-- The list of an option. -/
def Settings.items (settings : Settings) : ListOption → List String
  | .args => settings.dump.args
  | .exclude => settings.generator.exclude

/-- The list that a layer specifies for an option. -/
def Layer.items? (layer : Layer) : ListOption → Option (List String)
  | .args => layer.dump.args
  | .exclude => layer.generator.exclude

/-- An option of the settings. -/
inductive SettingsOption where
  | text (option : TextOption)
  | list (option : ListOption)
  deriving DecidableEq, Repr

namespace SettingsOption

/-- The section in which an option stands. -/
def sectionName : SettingsOption → String
  | .text option => option.sectionName
  | .list option => option.sectionName

/-- The key of an option in its section. -/
def key : SettingsOption → String
  | .text option => option.key
  | .list option => option.key

end SettingsOption

/-- Layers are the same if they specify the same texts and the same lists. -/
theorem Layer.ext_text? {layer other : Layer}
    (htext : ∀ option, layer.text? option = other.text? option)
    (hitems : ∀ option, layer.items? option = other.items? option) : layer = other := by
  obtain ⟨⟨path, moduleName⟩, ⟨command, args⟩,
    ⟨exclude, rootName, runtimePath, baseline, output⟩⟩ := layer
  obtain rfl : path = _ := htext .mibPath
  obtain rfl : moduleName = _ := htext .moduleName
  obtain rfl : command = _ := htext .dumpCommand
  obtain rfl : rootName = _ := htext .rootName
  obtain rfl : runtimePath = _ := htext .runtimePath
  obtain rfl : baseline = _ := htext .baseline
  obtain rfl : output = _ := htext .output
  obtain rfl : args = _ := hitems .args
  obtain rfl : exclude = _ := hitems .exclude
  rfl

namespace Settings

variable {settings other : Settings}

/-- Settings are the same if they have the same texts and the same two lists. -/
theorem ext_text? (htext : ∀ option, settings.text? option = other.text? option)
    (hargs : settings.dump.args = other.dump.args)
    (hexclude : settings.generator.exclude = other.generator.exclude) : settings = other := by
  obtain ⟨⟨path, moduleName⟩, ⟨command, args⟩,
    ⟨exclude, rootName, runtimePath, baseline, output⟩⟩ := settings
  obtain rfl : path = _ := htext .mibPath
  obtain rfl : moduleName = _ := htext .moduleName
  obtain rfl : command = _ := htext .dumpCommand
  obtain rfl : rootName = _ := Option.some.inj (htext .rootName)
  obtain rfl : runtimePath = _ := Option.some.inj (htext .runtimePath)
  obtain rfl : baseline = _ := htext .baseline
  obtain rfl : output = _ := htext .output
  obtain rfl : args = _ := hargs
  obtain rfl : exclude = _ := hexclude
  rfl

/-- An option that always has a value has that of a layer or else its own. -/
theorem some_getD {α : Type} (value? : Option α) (value : α) :
    some (value?.getD value) = value?.or (some value) := by
  cases value? <;> rfl

variable (base : Settings) (layer : Layer) (environment : Environment) (home? : Option String)
  (option : TextOption)

theorem text?_withGlobal :
    (base.withGlobal layer).text? option = (layer.text? option).or (base.text? option) := by
  cases option <;> first | rfl | exact some_getD _ _

theorem text?_withProject :
    (base.withProject layer).text? option = (layer.text? option).or (base.text? option) := by
  cases option <;> first | rfl | exact some_getD _ _

theorem text?_withOverrides :
    (base.withOverrides environment).text? option =
      (option.override? environment).or (base.text? option) := by
  cases option <;> first | rfl | exact some_getD _ _

theorem items_withOverrides (option : ListOption) :
    (base.withOverrides environment).items option =
      (Overrides.texts? environment option.sectionName option.key).getD (base.items option) := by
  cases option <;> rfl

theorem text?_expandPaths :
    (base.expandPaths environment home?).text? option =
      (base.text? option).map (option.expand environment home?) := by
  unfold TextOption.expand
  cases option <;> simp [text?, expandPaths, TextOption.isExpanded]

end Settings

end MibDrivers
