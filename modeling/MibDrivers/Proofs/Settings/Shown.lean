import MibDrivers.Proofs.Settings.Reading
import MibDrivers.Proofs.Toml.Sections
import MibDrivers.Settings.Layering
import MibDrivers.Settings.Writer

/-!
# Shown settings are read back

The document that shows settings has one line for each option that is set. Such a document can be
written for any layer. Read as a layer, it specifies these options and no other. So the defaults
under the layer that shows settings are the settings. A project layer extends the excluded names
instead of replacing them, and this is the only difference.

## Main definitions

* `Layer.toToml` — the document that shows a layer
* `Layer.sections` — its sections
* `Settings.layer` — the layer that specifies what settings show

## Main results

* `Layer.statements?_tomlChars` — the document is read as its sections
* `Layer.ofToml?_toToml` — the document is read as the layer
* `Settings.toToml_eq` — what settings show is what their layer shows
* `Settings.toToml_restores` — settings are restored from the document that shows them
-/

namespace MibDrivers

open Toml (Sets Shows isBareKey statements?)

variable {key : String}

/-! ### Lines -/

namespace Settings

theorem sets_optionLine {chars : List Char} {value : Toml.Value} (hkey : isBareKey key)
    (h : Shows chars value) : Sets (optionLine key chars) [(key, value)] := fun rest => by
  have hline : optionLine key chars ++ rest =
      key.toList ++ ' ' :: '=' :: ' ' :: (chars ++ '\n' :: rest) := by
    simp [optionLine]
  rw [hline, Toml.statements?_assignment hkey h]
  rfl

/-- The line that sets an option to a list of strings, or none if it is unset. -/
def optionalListLine (key : String) : Option (List String) → List Char
  | some items => listLine key items
  | none => []

/-- What the document sets of an option that may be unset. -/
def optionalEntry (key : String) (value? : Option Toml.Value) : List (String × Toml.Value) :=
  (value?.map fun value => (key, value)).toList

theorem sets_optionalLine (hkey : isBareKey key) (text? : Option String) :
    Sets (optionalLine key text?) (optionalEntry key (text?.map .string)) := by
  cases text? with
  | none => exact Toml.sets_nil
  | some text => exact sets_optionLine hkey (Toml.shows_stringChars text)

theorem sets_optionalListLine (hkey : isBareKey key) (items? : Option (List String)) :
    Sets (optionalListLine key items?)
      (optionalEntry key (items?.map fun items => .list (items.map .string))) := by
  cases items? with
  | none => exact Toml.sets_nil
  | some items => exact sets_optionLine hkey (Toml.shows_listChars items)

theorem keys_optionalEntry (key : String) (value? : Option Toml.Value) :
    ((optionalEntry key value?).map Prod.fst).Sublist [key] := by
  cases value? with
  | none => exact List.nil_sublist _
  | some text => exact List.Sublist.refl _

theorem lookup_optionalEntry (key other : String) (value? : Option Toml.Value) :
    (optionalEntry key value?).lookup other = if other = key then value? else none := by
  cases value? with
  | none => exact (ite_self _).symm
  | some value =>
    by_cases h : other = key
    · simp [optionalEntry, h]
    · have hne : (other == key) = false := by simpa using h
      simp [optionalEntry, List.lookup_cons, h, hne]

end Settings

/-! ### Sections -/

namespace Layer

open Settings

/-- The section about the MIB. -/
def mibSection (mib : MibSettings) : Toml.Section where
  name := "mib"
  entries := optionalEntry "path" (mib.path.map .string) ++
    optionalEntry "module" (mib.moduleName.map .string)

/-- The lines of the section about the MIB. -/
def mibLines (mib : MibSettings) : List Char :=
  optionalLine "path" mib.path ++ optionalLine "module" mib.moduleName

/-- The section about the dump command. -/
def dumpSection (dump : DumpLayer) : Toml.Section where
  name := "dump"
  entries := optionalEntry "command" (dump.command.map .string) ++
    optionalEntry "args" (dump.args.map fun items => .list (items.map .string))

/-- The lines of the section about the dump command. -/
def dumpLines (dump : DumpLayer) : List Char :=
  optionalLine "command" dump.command ++ optionalListLine "args" dump.args

/-- The section about the generator. -/
def generatorSection (generator : GeneratorLayer) : Toml.Section where
  name := "generator"
  entries := optionalEntry "exclude"
      (generator.exclude.map fun items => .list (items.map .string)) ++
    (optionalEntry "root_name" (generator.rootName.map .string) ++
      (optionalEntry "runtime_path" (generator.runtimePath.map .string) ++
        (optionalEntry "baseline" (generator.baseline.map .string) ++
          optionalEntry "output" (generator.output.map .string))))

/-- The lines of the section about the generator. -/
def generatorLines (generator : GeneratorLayer) : List Char :=
  optionalListLine "exclude" generator.exclude ++
    (optionalLine "root_name" generator.rootName ++
      (optionalLine "runtime_path" generator.runtimePath ++
        (optionalLine "baseline" generator.baseline ++ optionalLine "output" generator.output)))

/-- The sections of the document that shows a layer. -/
def sections (layer : Layer) : List Toml.Section :=
  [mibSection layer.mib, dumpSection layer.dump, generatorSection layer.generator]

/-- The characters of the document that shows a layer: its sections with empty lines between
them. -/
def tomlChars (layer : Layer) : List Char :=
  Toml.sectionChars (mibSection layer.mib).name (mibLines layer.mib) ++
  '\n' :: (Toml.sectionChars (dumpSection layer.dump).name (dumpLines layer.dump) ++
  '\n' :: (Toml.sectionChars (generatorSection layer.generator).name
    (generatorLines layer.generator) ++ []))

/-- The document that shows a layer. -/
def toToml (layer : Layer) : String := String.ofList layer.tomlChars

theorem sets_mibLines (mib : MibSettings) : Sets (mibLines mib) (mibSection mib).entries := by
  rw [mibLines, mibSection]
  exact (sets_optionalLine (by decide) _).append (sets_optionalLine (by decide) _)

theorem sets_dumpLines (dump : DumpLayer) : Sets (dumpLines dump) (dumpSection dump).entries := by
  rw [dumpLines, dumpSection]
  exact (sets_optionalLine (by decide) _).append (sets_optionalListLine (by decide) _)

theorem sets_generatorLines (generator : GeneratorLayer) :
    Sets (generatorLines generator) (generatorSection generator).entries := by
  rw [generatorLines, generatorSection]
  refine (sets_optionalListLine (by decide) _).append ?_
  refine (sets_optionalLine (by decide) _).append ?_
  refine (sets_optionalLine (by decide) _).append ?_
  exact (sets_optionalLine (by decide) _).append (sets_optionalLine (by decide) _)

/-- The document that shows a layer is read as its sections. -/
theorem statements?_tomlChars (layer : Layer) :
    statements? layer.tomlChars = some (layer.sections.flatMap Toml.Section.statements) := by
  have hmib : isBareKey (mibSection layer.mib).name := show isBareKey "mib" by decide
  have hdump : isBareKey (dumpSection layer.dump).name := show isBareKey "dump" by decide
  have hgenerator : isBareKey (generatorSection layer.generator).name :=
    show isBareKey "generator" by decide
  have hend : statements? [] = some [] := by rw [statements?]
  rw [tomlChars, Toml.statements?_section hmib (sets_mibLines _), Toml.statements?_blank,
    Toml.statements?_section hdump (sets_dumpLines _), Toml.statements?_blank,
    Toml.statements?_section hgenerator (sets_generatorLines _), hend]
  rfl

/-- No key is set twice in a section. -/
theorem nodup_keys_sections (layer : Layer) :
    ∀ part ∈ layer.sections, (part.entries.map Prod.fst).Nodup := by
  have hmib : ((mibSection layer.mib).entries.map Prod.fst).Sublist ["path", "module"] := by
    rw [mibSection, List.map_append]
    exact (keys_optionalEntry _ _).append (keys_optionalEntry _ _)
  have hdump : ((dumpSection layer.dump).entries.map Prod.fst).Sublist ["command", "args"] := by
    rw [dumpSection, List.map_append]
    exact (keys_optionalEntry _ _).append (keys_optionalEntry _ _)
  have hgenerator : ((generatorSection layer.generator).entries.map Prod.fst).Sublist
      ["exclude", "root_name", "runtime_path", "baseline", "output"] := by
    rw [generatorSection]
    simp only [List.map_append]
    exact (keys_optionalEntry _ _).append <| (keys_optionalEntry _ _).append <|
      (keys_optionalEntry _ _).append <| (keys_optionalEntry _ _).append (keys_optionalEntry _ _)
  rw [sections]
  simp only [List.forall_mem_cons]
  exact ⟨hmib.nodup (by decide), hdump.nodup (by decide), hgenerator.nodup (by decide), by simp⟩

/-- A layer is written in its sections. -/
theorem writtenIn_sections (layer : Layer) :
    layer.WrittenIn (layer.sections.map fun part => (part.name, .table part.entries)) := by
  have hmib : (layer.sections.map fun part => (part.name, Toml.Value.table part.entries)).lookup
      "mib" = some (.table (mibSection layer.mib).entries) := rfl
  have hdump : (layer.sections.map fun part => (part.name, Toml.Value.table part.entries)).lookup
      "dump" = some (.table (dumpSection layer.dump).entries) := rfl
  have hgenerator : (layer.sections.map fun part =>
      (part.name, Toml.Value.table part.entries)).lookup "generator" =
        some (.table (generatorSection layer.generator).entries) := rfl
  simp only [writtenIn_iff, MibSettings.ofToml?_eq_some_iff, DumpLayer.ofToml?_eq_some_iff,
    GeneratorLayer.ofToml?_eq_some_iff, Toml.section?, hmib, hdump, hgenerator, Option.getD_some,
    Toml.Value.IsSection, Toml.Value.at?, mibSection, dumpSection, generatorSection,
    List.lookup_append, lookup_optionalEntry]
  simp

/-- The document that shows a layer is read as this layer. -/
theorem ofToml?_toToml (layer : Layer) : Layer.ofToml? layer.toToml = some layer := by
  have hstatements : statements? (Toml.dropByteOrderMark layer.toToml.toList) =
      some (layer.sections.flatMap Toml.Section.statements) := by
    have hmark : Toml.dropByteOrderMark layer.tomlChars = layer.tomlChars := rfl
    rw [toToml, String.toList_ofList, hmark, statements?_tomlChars]
  have hnames : (layer.sections.map Toml.Section.name).Nodup :=
    show ["mib", "dump", "generator"].Nodup by decide
  exact ofToml?_eq_some_iff.mpr
    ⟨_, Toml.ofText?_of_sections hstatements hnames layer.nodup_keys_sections,
      layer.writtenIn_sections⟩

end Layer

/-! ### Settings -/

namespace Settings

/-- The layer that specifies what settings show. -/
def layer (settings : Settings) : Layer where
  mib := settings.mib
  dump := { command := settings.dump.command, args := some settings.dump.args }
  generator := {
    exclude := some settings.generator.exclude
    rootName := some settings.generator.rootName
    runtimePath := some settings.generator.runtimePath
    baseline := settings.generator.baseline
    output := settings.generator.output }

/-- What settings show is what the layer shows that specifies them. -/
theorem toToml_eq (settings : Settings) : settings.toToml = settings.layer.toToml := by
  have hmib : "[mib]\n".toList = '[' :: ("mib".toList ++ [']', '\n']) := rfl
  have hdump : "\n[dump]\n".toList = '\n' :: '[' :: ("dump".toList ++ [']', '\n']) := rfl
  have hgenerator : "\n[generator]\n".toList =
      '\n' :: '[' :: ("generator".toList ++ [']', '\n']) := rfl
  unfold toToml tomlChars Layer.toToml Layer.tomlChars
  simp only [hmib, hdump, hgenerator, Toml.sectionChars, Layer.mibSection, Layer.mibLines,
    Layer.dumpSection, Layer.dumpLines, Layer.generatorSection, Layer.generatorLines, layer,
    optionalListLine, optionalLine, List.append_assoc, List.cons_append, List.nil_append,
    List.append_nil]

/-- Settings are restored from the document that shows them, if this is the global layer over the
defaults. As the project layer, it extends the excluded names. -/
theorem toToml_restores (settings : Settings) :
    ∃ layer, Layer.ofToml? settings.toToml = some layer ∧
      ({} : Settings).withGlobal layer = settings ∧
      ({} : Settings).withProject layer = { settings with
        generator.exclude :=
          mergeExclusions ({} : Settings).generator.exclude settings.generator.exclude } := by
  refine ⟨settings.layer, by rw [toToml_eq, Layer.ofToml?_toToml], ?_, ?_⟩
  · simp [withGlobal, layer, MibSettings.under, DumpSettings.under, GeneratorSettings.under]
  · simp [withProject, layer, MibSettings.under, DumpSettings.under, GeneratorSettings.under]

end Settings

end MibDrivers
