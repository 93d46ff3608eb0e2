import MibDrivers.Proofs.Settings.Overrides
import MibDrivers.Proofs.Text.Split
import MibDrivers.Settings.Writer

/-!
# Which variables are heard

A variable is heard if its name begins with `MIBGEN__`, in any case, and settings depend on no
other one. The template of a configuration file spells the names with one underscore after
`MIBGEN`. Variables of these names are not heard, and nothing says so: whoever follows the template
gets the settings that there were without the variable. With a second underscore there, the same
variable sets its option.

## Main definitions

* `Overrides.isHeard` — a variable of this name can be about an option
* `SettingsOption.variableName` — the variable of an option, spelled in one way or another
* `Settings.Holds` — an option has what a text says

## Main results

* `Settings.withOverrides_filter_isHeard` — settings depend on the variables that are heard
* `Settings.withOverrides_template_spelling` — what the two spellings come to
-/

namespace MibDrivers

/-! ### Variables that are heard -/

namespace Overrides

/-- The name of a variable begins like those of overrides, in any case. -/
def isHeard (name : String) : Bool :=
  (Text.dropPrefix? nameStart.toList (Text.lowercaseAll name.toList)).isSome

/-- A variable that names an option is heard. -/
theorem ofName?_eq_none_of_not_isHeard {name : String} (h : ¬ isHeard name) :
    Target.ofName? name = none := by
  have hnone : Text.dropPrefix? nameStart.toList (Text.lowercaseAll name.toList) = none := by
    simpa [isHeard] using h
  rw [Target.ofName?, hnone]
  rfl

/-- What variables make of an option depends on those that are heard. -/
theorem find?_filter_isHeard (environment : Environment) (sectionName key : String) :
    find? (environment.filter (isHeard ·.1)) sectionName key =
      find? environment sectionName key := by
  rw [find?, List.foldl_filter, find?]
  refine congrArg (List.foldl · none environment) ?_
  funext held entry
  obtain ⟨name, text⟩ := entry
  by_cases hheard : isHeard name
  · simp only [if_pos hheard]
  · simp only [if_neg hheard, ofName?_eq_none_of_not_isHeard hheard]

end Overrides

/-- Settings depend on the variables that are heard. -/
theorem Settings.withOverrides_filter_isHeard (base : Settings) (environment : Environment) :
    base.withOverrides (environment.filter (Overrides.isHeard ·.1)) =
      base.withOverrides environment := by
  simp only [withOverrides, Overrides.text?, Overrides.texts?, Overrides.find?_filter_isHeard]

/-! ### Variables of options -/

namespace SettingsOption

/-- The variable of an option: `MIBGEN`, some underscores, the section, two underscores and the
key, all in capitals. -/
def variableName (underscores : List Char) (option : SettingsOption) : String :=
  String.ofList <| "MIBGEN".toList ++ underscores ++
    option.sectionName.toList.map Char.toUpper ++ "__".toList ++
      option.key.toList.map Char.toUpper

/-- What the template of a configuration file puts after `MIBGEN`. -/
def templateUnderscores : List Char := ['_']

/-- What stands after `MIBGEN` in the names that are heard. -/
def heardUnderscores : List Char := ['_', '_']

theorem not_isHeard_template (option : SettingsOption) :
    ¬ Overrides.isHeard (option.variableName templateUnderscores) := by
  rcases option with option | option <;> cases option <;> decide +kernel

theorem ofName?_variableName_heard (option : SettingsOption) :
    Overrides.Target.ofName? (option.variableName heardUnderscores) =
      some ⟨option.sectionName, [.member option.key.toList]⟩ := by
  rcases option with option | option <;> cases option <;> decide +kernel

end SettingsOption

namespace Settings

/-- The option has what a text says: the text itself, or the parts between its commas. -/
def Holds (settings : Settings) (text : String) : SettingsOption → Prop
  | .text option => settings.text? option = some text
  | .list option => settings.items option = (Text.splitAt ',' text.toList).map String.ofList

variable {base : Settings} {option : SettingsOption} {text : String} {environment : Environment}

/-- An option of which the variables make one text has what this text says. -/
theorem holds_withOverrides (h : Overrides.find? environment option.sectionName option.key =
    some (.value (.text text))) : (base.withOverrides environment).Holds text option := by
  cases option with
  | text option =>
    have hoverride : option.override? environment = some text := by
      rw [TextOption.override?, Overrides.text?]
      exact (congrArg (Option.bind · Overrides.Holding.text?) h).trans rfl
    rw [Holds, text?_withOverrides, hoverride, Option.some_or]
  | list option =>
    have hoverride : Overrides.texts? environment option.sectionName option.key =
        some ((Text.splitAt ',' text.toList).map String.ofList) := by
      rw [Overrides.texts?]
      refine (congrArg (Option.bind · Overrides.Holding.texts?) h).trans ?_
      simp [Overrides.Holding.texts?, Overrides.Content.parts?, Overrides.Content.canonical,
        Function.comp_def]
    rw [Holds, items_withOverrides, hoverride, Option.getD_some]

/-- A variable that is spelled as in the template makes no difference to any option, whatever its
text. With a second underscore after `MIBGEN`, a text that is neither a boolean nor a number is
what its option gets, unless a later variable is about the option too. -/
theorem withOverrides_template_spelling (base : Settings) (option : SettingsOption)
    (text : String) (before after : Environment) :
    base.withOverrides
        (before ++ (option.variableName SettingsOption.templateUnderscores, text) :: after) =
      base.withOverrides (before ++ after) ∧
    (Overrides.Content.ofText text = .text text →
      (∀ other ∈ after, ¬ Overrides.Concerns other.1 option.sectionName option.key) →
        (base.withOverrides (before ++
          (option.variableName SettingsOption.heardUnderscores, text) :: after)).Holds
            text option) := by
  constructor
  · have hfilter : (before ++
          (option.variableName SettingsOption.templateUnderscores, text) :: after).filter
            (Overrides.isHeard ·.1) = (before ++ after).filter (Overrides.isHeard ·.1) := by
      simp [List.filter_append, option.not_isHeard_template]
    rw [← withOverrides_filter_isHeard, hfilter, withOverrides_filter_isHeard]
  · intro htext hafter
    refine holds_withOverrides ?_
    rw [Overrides.find?_of_last option.ofName?_variableName_heard hafter, htext]

/-- The arguments of the dump command are those of the variable with two underscores, also if one
that is spelled as in the template follows. -/
theorem withOverrides_template_spelling_args :
    Overrides.Content.ofText "-m,SNMPv2-SMI" = .text "-m,SNMPv2-SMI" ∧
      (({} : Settings).withOverrides [("MIBGEN__DUMP__ARGS", "-m,SNMPv2-SMI"),
        ("MIBGEN_DUMP__ARGS", "-a")]).dump.args = ["-m", "SNMPv2-SMI"] := by
  have htext : Overrides.Content.ofText "-m,SNMPv2-SMI" = .text "-m,SNMPv2-SMI" := by
    decide +kernel
  have hheard : SettingsOption.variableName SettingsOption.heardUnderscores (.list .args) =
      "MIBGEN__DUMP__ARGS" := by decide +kernel
  have htemplate : SettingsOption.variableName SettingsOption.templateUnderscores (.list .args) =
      "MIBGEN_DUMP__ARGS" := by decide +kernel
  have hignored := (withOverrides_template_spelling {} (.list .args) "-a"
    [("MIBGEN__DUMP__ARGS", "-m,SNMPv2-SMI")] []).1
  have hholds := (withOverrides_template_spelling {} (.list .args) "-m,SNMPv2-SMI" [] []).2 htext
    (by simp)
  rw [htemplate] at hignored
  rw [hheard] at hholds
  refine ⟨htext, ?_⟩
  exact (congrArg (Settings.items · .args) hignored).trans (hholds.trans (by decide +kernel))

/-- The template names the variable for the module as an example, but a run with this variable has
no module. -/
theorem withOverrides_ignores_template_name :
    (∃ line ∈ templateLines, "MIBGEN_MIB__MODULE".toList <:+ line.toList) ∧
      Overrides.Content.ofText "A-MIB" = .text "A-MIB" ∧
      (({} : Settings).withOverrides [("MIBGEN_MIB__MODULE", "A-MIB")]).mib.moduleName = none := by
  refine ⟨?_, by decide +kernel, by decide +kernel⟩
  exact ⟨_, List.mem_of_getElem? (i := 5) rfl, by decide +kernel⟩

end Settings

end MibDrivers
