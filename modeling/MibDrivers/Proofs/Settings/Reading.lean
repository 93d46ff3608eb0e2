import MibDrivers.Proofs.Settings.Options

/-!
# Which layer a document specifies

A document has a value for an option under the key of the option in its section. A section that is
a list has the values of its options at their places. The layer that the document specifies has for
each option what this value holds, and nothing for an option without a value.

## Main definitions

* `SettingsOption.value?` — the value that a document has for an option
* `Layer.WrittenIn` — a layer has what is written in a document

## Main results

* `Layer.ofToml?_eq_some_iff` — a text specifies the layer that is written in it
-/

namespace MibDrivers

namespace Toml

variable {α : Type} {value : Value} {entries : List (String × Value)} {text : String}
  {texts : List String}

/-! ### Values -/

theorem text?_eq_some_iff : value.text? = some text ↔ value = .string text := by
  cases value <;> simp [Value.text?]

theorem mapM_text?_eq_some_iff {items : List Value} :
    items.mapM Value.text? = some texts ↔ items = texts.map .string := by
  induction items generalizing texts with
  | nil => simp [eq_comm]
  | cons item items ih =>
    rw [List.mapM_cons]
    simp only [Option.bind_eq_bind, Option.bind_eq_some_iff, text?_eq_some_iff, ih]
    constructor
    · rintro ⟨first, rfl, rest, rfl, htexts⟩
      rw [← Option.some.inj htexts, List.map_cons]
    · intro h
      obtain ⟨first, rest, rfl, rfl, rfl⟩ := List.map_eq_cons_iff.mp h.symm
      exact ⟨first, rfl, rest, rfl, rfl⟩

theorem texts?_eq_some_iff : value.texts? = some texts ↔ value = .list (texts.map .string) := by
  cases value <;> simp [Value.texts?, mapM_text?_eq_some_iff]

/-- A section is a table or a list. -/
def Value.IsSection : Value → Prop
  | .table _ | .list _ => True
  | .atom | .string _ => False

/-- What a section has under a key, or at a place if it is a list. -/
def Value.at? (key : String) (place : Nat) : Value → Option Value
  | .table entries => entries.lookup key
  | .list items => items[place]?
  | .atom | .string _ => none

/-- An option is read from a section if what is there for it holds a value that can be read. -/
theorem option?_eq_some_iff {read : Value → Option α} {shown : α → Value}
    (hread : ∀ value found, read value = some found ↔ value = shown found) {key : String}
    {place : Nat} {found? : Option α} :
    value.option? read key place = some found? ↔
      value.IsSection ∧ value.at? key place = found?.map shown := by
  have hoptional : ∀ there?, Value.option?.optional read there? = some found? ↔
      there? = found?.map shown := by
    intro there?
    cases there? <;> cases found? <;> simp [Value.option?.optional, hread]
  cases value <;> simp [Value.option?, Value.IsSection, Value.at?, hoptional]

theorem at?_section? (name key : String) (place : Nat) :
    (section? entries name).at? key place = (entries.lookup name).bind (Value.at? key place) := by
  cases hsection : entries.lookup name <;> simp [section?, hsection, Value.at?]

/-- A section that is missing counts as one without options. -/
theorem isSection_section? (name : String) :
    (section? entries name).IsSection ↔
      ∀ value, entries.lookup name = some value → value.IsSection := by
  cases hsection : entries.lookup name <;> simp [section?, hsection, Value.IsSection]

end Toml

/-! ### Layers -/

/-- The place of an option in a section that is a list. -/
def SettingsOption.place : SettingsOption → Nat
  | .text .mibPath | .text .dumpCommand | .list .exclude => 0
  | .text .moduleName | .list .args | .text .rootName => 1
  | .text .runtimePath => 2
  | .text .baseline => 3
  | .text .output => 4

/-- The value that a document has for an option. -/
def SettingsOption.value? (entries : List (String × Toml.Value)) (option : SettingsOption) :
    Option Toml.Value :=
  (entries.lookup option.sectionName).bind (Toml.Value.at? option.key option.place)

/-- The layer has what a document has for the options, of which each is a string or a list of
strings. -/
structure Layer.WrittenIn (entries : List (String × Toml.Value)) (layer : Layer) : Prop where
  text : ∀ option, (SettingsOption.text option).value? entries = (layer.text? option).map .string
  list : ∀ option, (SettingsOption.list option).value? entries =
    (layer.items? option).map fun items => .list (items.map .string)
  isSection : ∀ (option : SettingsOption) value, entries.lookup option.sectionName = some value →
    value.IsSection

open Toml

variable {value : Value} {entries : List (String × Value)} {text : String} {layer : Layer}

theorem MibSettings.ofToml?_eq_some_iff {mib : MibSettings} :
    MibSettings.ofToml? value = some mib ↔ value.IsSection ∧
      value.at? "path" 0 = mib.path.map .string ∧
      value.at? "module" 1 = mib.moduleName.map .string := by
  obtain ⟨path, moduleName⟩ := mib
  simp only [MibSettings.ofToml?, Option.bind_eq_bind, Option.bind_eq_some_iff,
    option?_eq_some_iff fun _ _ => text?_eq_some_iff]
  constructor
  · rintro ⟨_, ⟨hsection, hpath⟩, _, ⟨-, hmodule⟩, ⟨⟩⟩
    exact ⟨hsection, hpath, hmodule⟩
  · rintro ⟨hsection, hpath, hmodule⟩
    exact ⟨_, ⟨hsection, hpath⟩, _, ⟨hsection, hmodule⟩, rfl⟩

theorem DumpLayer.ofToml?_eq_some_iff {dump : DumpLayer} :
    DumpLayer.ofToml? value = some dump ↔ value.IsSection ∧
      value.at? "command" 0 = dump.command.map .string ∧
      value.at? "args" 1 = dump.args.map fun items => .list (items.map .string) := by
  obtain ⟨command, args⟩ := dump
  simp only [DumpLayer.ofToml?, Option.bind_eq_bind, Option.bind_eq_some_iff,
    option?_eq_some_iff fun _ _ => text?_eq_some_iff,
    option?_eq_some_iff fun _ _ => texts?_eq_some_iff]
  constructor
  · rintro ⟨_, ⟨hsection, hcommand⟩, _, ⟨-, hargs⟩, ⟨⟩⟩
    exact ⟨hsection, hcommand, hargs⟩
  · rintro ⟨hsection, hcommand, hargs⟩
    exact ⟨_, ⟨hsection, hcommand⟩, _, ⟨hsection, hargs⟩, rfl⟩

theorem GeneratorLayer.ofToml?_eq_some_iff {generator : GeneratorLayer} :
    GeneratorLayer.ofToml? value = some generator ↔ value.IsSection ∧
      value.at? "exclude" 0 = (generator.exclude.map fun items => .list (items.map .string)) ∧
      value.at? "root_name" 1 = generator.rootName.map .string ∧
      value.at? "runtime_path" 2 = generator.runtimePath.map .string ∧
      value.at? "baseline" 3 = generator.baseline.map .string ∧
      value.at? "output" 4 = generator.output.map .string := by
  obtain ⟨exclude, rootName, runtimePath, baseline, output⟩ := generator
  simp only [GeneratorLayer.ofToml?, Option.bind_eq_bind, Option.bind_eq_some_iff,
    option?_eq_some_iff fun _ _ => text?_eq_some_iff,
    option?_eq_some_iff fun _ _ => texts?_eq_some_iff]
  constructor
  · rintro ⟨_, ⟨hsection, hexclude⟩, _, ⟨-, hroot⟩, _, ⟨-, hruntime⟩, _, ⟨-, hbaseline⟩, _,
      ⟨-, houtput⟩, ⟨⟩⟩
    exact ⟨hsection, hexclude, hroot, hruntime, hbaseline, houtput⟩
  · rintro ⟨hsection, hexclude, hroot, hruntime, hbaseline, houtput⟩
    exact ⟨_, ⟨hsection, hexclude⟩, _, ⟨hsection, hroot⟩, _, ⟨hsection, hruntime⟩, _,
      ⟨hsection, hbaseline⟩, _, ⟨hsection, houtput⟩, rfl⟩

/-- The three sections of a document are read as those of the layer that is written in it. -/
theorem Layer.writtenIn_iff : layer.WrittenIn entries ↔
    MibSettings.ofToml? (section? entries "mib") = some layer.mib ∧
    DumpLayer.ofToml? (section? entries "dump") = some layer.dump ∧
    GeneratorLayer.ofToml? (section? entries "generator") = some layer.generator := by
  simp only [MibSettings.ofToml?_eq_some_iff, DumpLayer.ofToml?_eq_some_iff,
    GeneratorLayer.ofToml?_eq_some_iff, at?_section?, isSection_section?]
  constructor
  · rintro ⟨htext, hlist, hsection⟩
    exact ⟨⟨hsection (.text .mibPath), htext .mibPath, htext .moduleName⟩,
      ⟨hsection (.list .args), htext .dumpCommand, hlist .args⟩,
      ⟨hsection (.list .exclude), hlist .exclude, htext .rootName, htext .runtimePath,
        htext .baseline, htext .output⟩⟩
  · rintro ⟨⟨hmib, hpath, hmodule⟩, ⟨hdump, hcommand, hargs⟩,
      ⟨hgenerator, hexclude, hroot, hruntime, hbaseline, houtput⟩⟩
    constructor
    case text => intro option; cases option <;> assumption
    case list => intro option; cases option <;> assumption
    case isSection => rintro (option | option) <;> cases option <;> assumption

/-- A text specifies the layer that is written in it. -/
theorem Layer.ofToml?_eq_some_iff : Layer.ofToml? text = some layer ↔
    ∃ entries, Toml.ofText? text = some entries ∧ layer.WrittenIn entries := by
  obtain ⟨mib, dump, generator⟩ := layer
  simp only [Layer.ofToml?, Option.bind_eq_bind, Option.bind_eq_some_iff, writtenIn_iff]
  constructor
  · rintro ⟨entries, hentries, _, hmib, _, hdump, _, hgenerator, ⟨⟩⟩
    exact ⟨entries, hentries, hmib, hdump, hgenerator⟩
  · rintro ⟨entries, hentries, hmib, hdump, hgenerator⟩
    exact ⟨entries, hentries, _, hmib, _, hdump, _, hgenerator, rfl⟩

end MibDrivers
