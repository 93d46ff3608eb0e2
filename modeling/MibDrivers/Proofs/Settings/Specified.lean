import MibDrivers.Proofs.Settings.VariableNames

/-!
# What an environment specifies

The variables of an environment are applied one after another, so for each option the last one that
is about it decides. A variable with the name of the option replaces what there is, and others
change a part of it, or leave nothing of it. What the variables specify for all options makes a
layer, as does a configuration file.

## Main definitions

* `Overrides.Specifies` — what the variables of an environment specify for an option
* `Layer.FromEnvironment` — the layer that the variables of an environment specify

## Main results

* `Overrides.specifies_iff` — applying the variables gives what they specify
* `Layer.fromEnvironment_iff` — every environment specifies one layer
-/

namespace MibDrivers

namespace Overrides

/-- What the variables of an environment specify for an option. -/
inductive Specifies (option : SettingsOption) : Environment → Option Holding → Prop where
  /-- No variable is about the option. -/
  | unset {environment : Environment}
      (h : ∀ entry ∈ environment, ¬ Concerns entry.1 option.sectionName option.key) :
      Specifies option environment none
  /-- The last variable about the option has its name, in any case. -/
  | own {before after : Environment} {name : String} (text : String)
      (hname : Text.lowercaseAll name.toList =
        Text.lowercaseAll (option.variableName SettingsOption.heardUnderscores).toList)
      (hafter : ∀ other ∈ after, ¬ Concerns other.1 option.sectionName option.key) :
      Specifies option (before ++ (name, text) :: after) (some (.value (Content.ofText text)))
  /-- The last variable about the option names it in whatever way, or a part of what it holds. It
  changes what the variables before it specify. -/
  | changed {before after : Environment} {name : String} {steps : List Step}
      {held : Option Holding} (text : String)
      (hname : Target.ofName? name =
        some ⟨option.sectionName, .member option.key.toList :: steps⟩)
      (hafter : ∀ other ∈ after, ¬ Concerns other.1 option.sectionName option.key)
      (hbefore : Specifies option before held) :
      Specifies option (before ++ (name, text) :: after)
        (Holding.put held steps (Content.ofText text))
  /-- The last variable about the option comes in place of its section. -/
  | removed {before after : Environment} {name : String} {steps : List Step} (text : String)
      (hname : Target.ofName? name = some ⟨option.sectionName, steps⟩)
      (hsteps : ∀ other rest, steps ≠ .member other :: rest)
      (hafter : ∀ other ∈ after, ¬ Concerns other.1 option.sectionName option.key) :
      Specifies option (before ++ (name, text) :: after) none

variable {option : SettingsOption} {environment : Environment} {held : Option Holding}
  {name : String}

/-- Names that differ in case name the same. -/
theorem Target.ofName?_eq_of_lowercaseAll {other : String}
    (h : Text.lowercaseAll name.toList = Text.lowercaseAll other.toList) :
    Target.ofName? name = Target.ofName? other := by
  rw [Target.ofName?, h, Target.ofName?]

/-- What comes in place of a section leaves none of its options. -/
theorem Holding.putBelow_of_not_member {steps : List Step} {key : String} {content : Content}
    (h : ∀ other rest, steps ≠ .member other :: rest) :
    Holding.putBelow held key steps content = none := by
  cases steps with
  | nil => rfl
  | cons step rest =>
    cases step with
    | item index => rfl
    | member other => exact absurd rfl (h other rest)

/-- Applying the variables gives what they specify. -/
theorem Specifies.find?_eq (h : Specifies option environment held) :
    find? environment option.sectionName option.key = held := by
  induction h with
  | @unset environment hnone =>
    rw [← List.nil_append environment, find?_append hnone]
    rfl
  | own text hname hafter =>
    exact find?_of_last ((Target.ofName?_eq_of_lowercaseAll hname).trans
      option.ofName?_variableName_heard) hafter
  | changed text hname hafter _ ih =>
    rw [find?_cons_of_last hname hafter, Holding.putBelow, String.ofList_toList, if_pos rfl, ih]
  | removed text hname hsteps hafter =>
    rw [find?_cons_of_last hname hafter, Holding.putBelow_of_not_member hsteps]

/-- A variable about something else makes no difference. -/
theorem Specifies.concat (h : Specifies option environment held) (text : String)
    (hname : ¬ Concerns name option.sectionName option.key) :
    Specifies option (environment ++ [(name, text)]) held := by
  have hlast : ∀ other ∈ [(name, text)],
      ¬ Concerns other.1 option.sectionName option.key := by
    rintro other hother
    rwa [List.mem_singleton.mp hother]
  cases h with
  | unset hnone => exact .unset (List.forall_mem_append.mpr ⟨hnone, hlast⟩)
  | own _ hown hafter =>
    rw [List.append_assoc]
    exact .own _ hown (List.forall_mem_append.mpr ⟨hafter, hlast⟩)
  | changed _ hchanged hafter hbefore =>
    rw [List.append_assoc]
    exact .changed _ hchanged (List.forall_mem_append.mpr ⟨hafter, hlast⟩) hbefore
  | removed _ hremoved hsteps hafter =>
    rw [List.append_assoc]
    exact .removed _ hremoved hsteps (List.forall_mem_append.mpr ⟨hafter, hlast⟩)

/-- Every environment specifies something for an option. -/
theorem specifies_find? (option : SettingsOption) (environment : Environment) :
    Specifies option environment (find? environment option.sectionName option.key) := by
  induction environment using List.reverseRecOn with
  | nil => exact .unset (by simp)
  | append_singleton before last ih =>
    obtain ⟨name, text⟩ := last
    by_cases hconcerns : Concerns name option.sectionName option.key
    · have hafter : ∀ other ∈ ([] : Environment),
          ¬ Concerns other.1 option.sectionName option.key := by simp
      obtain ⟨steps, hname, hkey⟩ := hconcerns
      rw [find?_concat hname]
      by_cases hmember : ∃ other rest, steps = .member other :: rest
      · obtain ⟨other, rest, rfl⟩ := hmember
        obtain rfl : other = option.key.toList := by
          rw [← hkey other rest rfl, String.toList_ofList]
        rw [Holding.putBelow, String.ofList_toList, if_pos rfl]
        exact .changed text hname hafter ih
      · have hsteps : ∀ other rest, steps ≠ .member other :: rest :=
          fun other rest heq => hmember ⟨other, rest, heq⟩
        rw [Holding.putBelow_of_not_member hsteps]
        exact .removed text hname hsteps hafter
    · rw [find?_concat_of_not_concerns hconcerns]
      exact ih.concat text hconcerns

theorem specifies_iff : Specifies option environment held ↔
    find? environment option.sectionName option.key = held := by
  constructor
  · exact Specifies.find?_eq
  · rintro rfl
    exact specifies_find? option environment

/-- The layer that the variables of an environment make. -/
def layer (environment : Environment) : Layer where
  mib := {
    path := text? environment "mib" "path"
    moduleName := text? environment "mib" "module" }
  dump := {
    command := text? environment "dump" "command"
    args := texts? environment "dump" "args" }
  generator := {
    exclude := texts? environment "generator" "exclude"
    rootName := text? environment "generator" "root_name"
    runtimePath := text? environment "generator" "runtime_path"
    baseline := text? environment "generator" "baseline"
    output := text? environment "generator" "output" }

theorem text?_layer (environment : Environment) (option : TextOption) :
    (layer environment).text? option = option.override? environment := by
  cases option <;> rfl

theorem items?_layer (environment : Environment) (option : ListOption) :
    (layer environment).items? option =
      texts? environment option.sectionName option.key := by
  cases option <;> rfl

end Overrides

/-- The layer has for each option what the variables of an environment specify. -/
structure Layer.FromEnvironment (environment : Environment) (layer : Layer) : Prop where
  text : ∀ option held, Overrides.Specifies (.text option) environment held →
    layer.text? option = held.bind Overrides.Holding.text?
  list : ∀ option held, Overrides.Specifies (.list option) environment held →
    layer.items? option = held.bind Overrides.Holding.texts?

/-- Every environment specifies one layer. -/
theorem Layer.fromEnvironment_iff {environment : Environment} {layer : Layer} :
    layer.FromEnvironment environment ↔ layer = Overrides.layer environment := by
  constructor
  · intro h
    refine Layer.ext_text? (fun option => ?_) fun option => ?_
    · rw [h.text option _ (Overrides.specifies_iff.mpr rfl), Overrides.text?_layer]
      rfl
    · rw [h.list option _ (Overrides.specifies_iff.mpr rfl), Overrides.items?_layer]
      rfl
  · rintro rfl
    constructor
    · intro option held hheld
      rw [Overrides.text?_layer, ← Overrides.specifies_iff.mp hheld]
      rfl
    · intro option held hheld
      rw [Overrides.items?_layer, ← Overrides.specifies_iff.mp hheld]
      rfl

end MibDrivers
