import MibDrivers.Proofs.Host.Files
import MibDrivers.Proofs.Host.Runs
import MibDrivers.Proofs.Results
import MibDrivers.Proofs.Settings.Shown
import MibDrivers.Proofs.Settings.Specified

/-!
# Which layer decides

Each option has the value of the highest layer that specifies it, of the environment, the file of
the project, the global file and the defaults. The list of excluded names is the one exception: the
project extends what it inherits. A file that cannot be understood fails the loading, whatever the
other layers say.

## Main definitions

* `Settings.highest` — the first of several layers that specifies something
* `Settings.Resolved` — settings in which every option comes from the layer that decides it
* `FileTree.Specifies` — the layer that a configuration file specifies
* `Settings.LayersAt` — the layers that an environment and the files of a host specify

## Main results

* `Settings.resolved_iff` — settings are resolved if they come from the layers one after another
* `FileTree.specifies_iff_of_toToml` — the layer that a written file specifies
* `Settings.load_resolves` — loading gives the resolved settings if they are valid
-/

namespace MibDrivers

namespace Settings

/-- What the first layer says that says anything. -/
def highest {α : Type} (layers : List (Option α)) : Option α := layers.findSome? id

/-- The names that are excluded before the project says anything. -/
def inheritedExclusions (globalLayer : Layer) : List String :=
  globalLayer.generator.exclude.getD ({} : Settings).generator.exclude

/-- Every option comes from the layer that decides it: the one of the environment, of the project,
of the global file, or the defaults. In the end variables and a home directory are put in. -/
structure Resolved (environment : Environment) (home? : Option String)
    (overrides globalLayer projectLayer : Layer) (settings : Settings) : Prop where
  text : ∀ option, settings.text? option =
    (highest [overrides.text? option, projectLayer.text? option, globalLayer.text? option,
      ({} : Settings).text? option]).map (option.expand environment home?)
  args : some settings.dump.args =
    highest [overrides.dump.args, projectLayer.dump.args, globalLayer.dump.args,
      some ({} : Settings).dump.args]
  /-- The environment replaces the excluded names. -/
  exclude_of_override : ∀ items, overrides.generator.exclude = some items →
    settings.generator.exclude = items
  /-- The project extends the excluded names that it inherits. -/
  exclude_of_project : overrides.generator.exclude = none →
    ∀ patterns, projectLayer.generator.exclude = some patterns →
      settings.generator.exclude = mergeExclusions (inheritedExclusions globalLayer) patterns
  /-- The excluded names are inherited if neither says anything about them. -/
  exclude_of_none : overrides.generator.exclude = none →
    projectLayer.generator.exclude = none →
      settings.generator.exclude = inheritedExclusions globalLayer

theorem highest_nil {α : Type} : highest ([] : List (Option α)) = none := rfl

theorem highest_cons {α : Type} (layer : Option α) (below : List (Option α)) :
    highest (layer :: below) = layer.or (highest below) := by
  cases layer <;> rfl

variable {environment : Environment} {home? : Option String}
  {overrides globalLayer projectLayer : Layer} {settings : Settings}

/-- The settings that the layers specify one after another, with variables expanded. -/
def layered (environment : Environment) (home? : Option String)
    (globalLayer projectLayer : Layer) : Settings :=
  (((({} : Settings).withGlobal globalLayer).withProject projectLayer).withOverrides
    environment).expandPaths environment home?

theorem resolved_layered (environment : Environment) (home? : Option String)
    (globalLayer projectLayer : Layer) :
    (layered environment home? globalLayer projectLayer).Resolved environment home?
      (Overrides.layer environment) globalLayer projectLayer where
  text option := by
    rw [layered, text?_expandPaths, text?_withOverrides, text?_withProject, text?_withGlobal,
      Overrides.text?_layer]
    simp only [highest_cons, highest_nil, Option.or_none]
  args := by
    simp only [highest_cons, highest_nil, Option.or_none]
    rw [← some_getD, ← some_getD, ← some_getD]
    rfl
  exclude_of_override items h := by
    change (Overrides.texts? environment "generator" "exclude").getD _ = items
    rw [show Overrides.texts? environment "generator" "exclude" = some items from h,
      Option.getD_some]
  exclude_of_project h patterns hproject := by
    change (Overrides.texts? environment "generator" "exclude").getD _ = _
    rw [show Overrides.texts? environment "generator" "exclude" = none from h, Option.getD_none]
    simp only [withProject, hproject]
    rfl
  exclude_of_none h hproject := by
    change (Overrides.texts? environment "generator" "exclude").getD _ = _
    rw [show Overrides.texts? environment "generator" "exclude" = none from h, Option.getD_none]
    simp only [withProject, hproject]
    rfl

/-- The layers leave no option open. -/
theorem Resolved.unique {other : Settings}
    (h : settings.Resolved environment home? overrides globalLayer projectLayer)
    (hother : other.Resolved environment home? overrides globalLayer projectLayer) :
    settings = other := by
  refine ext_text? (fun option => (h.text option).trans (hother.text option).symm)
    (Option.some.inj (h.args.trans hother.args.symm)) ?_
  -- The three conditions on the excluded names leave no case open.
  cases hoverride : overrides.generator.exclude with
  | some items =>
    exact (h.exclude_of_override items hoverride).trans
      (hother.exclude_of_override items hoverride).symm
  | none =>
    cases hproject : projectLayer.generator.exclude with
    | some patterns =>
      exact (h.exclude_of_project hoverride patterns hproject).trans
        (hother.exclude_of_project hoverride patterns hproject).symm
    | none =>
      exact (h.exclude_of_none hoverride hproject).trans
        (hother.exclude_of_none hoverride hproject).symm

/-- Resolved settings are those that the layers specify one after another. -/
theorem resolved_iff :
    settings.Resolved environment home? (Overrides.layer environment) globalLayer projectLayer ↔
      settings = layered environment home? globalLayer projectLayer := by
  constructor
  · intro h
    exact h.unique (resolved_layered environment home? globalLayer projectLayer)
  · rintro rfl
    exact resolved_layered environment home? globalLayer projectLayer

/-- The sources specify the resolved settings if their files can be understood and the settings are
valid. -/
theorem ofSources_eq_ok_iff {sources : Sources} :
    ofSources sources = .ok settings ↔ ∃ globalLayer projectLayer,
      sources.globalLayer = .ok globalLayer ∧ sources.projectLayer = .ok projectLayer ∧
        settings.Resolved sources.environment sources.home
          (Overrides.layer sources.environment) globalLayer projectLayer ∧
        settings.validate = .ok () := by
  simp only [ofSources, bind_eq_ok, resolved_iff]
  constructor
  · rintro ⟨globalLayer, hglobal, projectLayer, hproject, _, hvalid, hsettings⟩
    obtain rfl := Except.ok.inj hsettings
    exact ⟨globalLayer, projectLayer, hglobal, hproject, rfl, hvalid⟩
  · rintro ⟨globalLayer, projectLayer, hglobal, hproject, rfl, hvalid⟩
    exact ⟨globalLayer, hglobal, projectLayer, hproject, (), hvalid, rfl⟩

end Settings

/-! ### Hosts -/

namespace FileTree

/-- The layer that the configuration file at a path specifies. If there is nothing, it specifies
nothing, and otherwise what is written in it. -/
inductive Specifies (tree : FileTree) (path : String) : Layer → Prop where
  | missing (h : (tree.find path).isOk = false) : Specifies tree path {}
  | present {text : String} {entries : List (String × Toml.Value)} {layer : Layer}
      (hread : tree.readText path = .ok text) (hentries : Toml.ofText? text = some entries)
      (hlayer : layer.WrittenIn entries) : Specifies tree path layer

/-- The configuration file at a path has no text, or one in which no layer is written. -/
inductive Malformed (tree : FileTree) (path : String) : Prop where
  | unreadable {fault : PathFault} (hfind : (tree.find path).isOk)
      (hread : tree.readText path = .error fault) : Malformed tree path
  | unwritten {text : String} (hread : tree.readText path = .ok text)
      (hnone : ∀ entries (layer : Layer), Toml.ofText? text = some entries →
        ¬ layer.WrittenIn entries) :
      Malformed tree path

/-- A configuration file as it is found at a path. -/
def configFile (tree : FileTree) (path : String) : ConfigFile :=
  match tree.find path with
  | .error _ => .missing
  | .ok _ =>
    match tree.readText path with
    | .ok text => .present text
    | .error fault => .unreadable fault.message

variable {tree : FileTree} {path text : String} {layer : Layer}

theorem configFile_eq_missing_iff :
    tree.configFile path = .missing ↔ (tree.find path).isOk = false := by
  unfold configFile
  cases tree.find path with
  | error fault => exact iff_of_true rfl rfl
  | ok node => cases tree.readText path <;> exact iff_of_false nofun nofun

theorem configFile_of_readText (h : tree.readText path = .ok text) :
    tree.configFile path = .present text := by
  have hfind := isOk_find_of_read (readText_eq_ok_iff.mp h)
  unfold configFile
  rw [h]
  cases hfound : tree.find path with
  | error fault =>
    rw [hfound] at hfind
    cases hfind
  | ok node => rfl

/-- A file that is found as it is specifies the layer that it has. -/
theorem layer_configFile_iff :
    (tree.configFile path).layer path = .ok layer ↔ tree.Specifies path layer := by
  constructor
  · unfold configFile
    intro h
    cases hfind : tree.find path with
    | error fault =>
      rw [hfind] at h
      obtain rfl : {} = layer := Except.ok.inj h
      exact .missing (by rw [hfind]; rfl)
    | ok node =>
      cases hread : tree.readText path with
      | error fault =>
        simp only [hfind, hread] at h
        cases h
      | ok text =>
        simp only [hfind, hread, ConfigFile.layer] at h
        cases hlayer : Layer.ofToml? text with
        | none =>
          rw [hlayer] at h
          cases h
        | some specified =>
          rw [hlayer] at h
          obtain rfl := Except.ok.inj h
          obtain ⟨entries, hentries, hwritten⟩ := Layer.ofToml?_eq_some_iff.mp hlayer
          exact .present hread hentries hwritten
  · intro h
    cases h with
    | missing hmissing => rw [configFile_eq_missing_iff.mpr hmissing, ConfigFile.layer]
    | present hread hentries hwritten =>
      rw [configFile_of_readText hread, ConfigFile.layer,
        Layer.ofToml?_eq_some_iff.mpr ⟨_, hentries, hwritten⟩]

/-- A file with the document that shows a layer specifies this layer and no other. -/
theorem specifies_iff_of_toToml {specified : Layer} (h : tree.readText path = .ok layer.toToml) :
    tree.Specifies path specified ↔ specified = layer := by
  rw [← layer_configFile_iff, configFile_of_readText h, ConfigFile.layer, Layer.ofToml?_toToml,
    Except.ok.injEq, eq_comm]

theorem Specifies.not_malformed (h : tree.Specifies path layer) : ¬ tree.Malformed path := by
  rintro (⟨hfind, herror⟩ | ⟨hother, hnone⟩)
  · cases h with
    | missing hmissing =>
      rw [hmissing] at hfind
      cases hfind
    | present hread => cases hread.symm.trans herror
  · cases h with
    | missing hmissing =>
      have hfind := isOk_find_of_read (readText_eq_ok_iff.mp hother)
      rw [hmissing] at hfind
      cases hfind
    | present hread hentries hwritten =>
      obtain rfl := Except.ok.inj (hread.symm.trans hother)
      exact hnone _ _ hentries hwritten

end FileTree

/-- To find a configuration file is to look it up in the tree. -/
theorem ConfigFile.run_find (host : TreeHost) (path : String) :
    (ConfigFile.find path : StateM TreeHost ConfigFile).run host =
      (host.tree.configFile path, host) := by
  have hhas : (Host.hasPath path : StateM TreeHost Bool).run host =
      ((host.tree.find path).isOk, host) := rfl
  have hread : (Host.readText path : StateM TreeHost (Except String String)).run host =
      ((host.tree.readText path).mapError PathFault.message, host) := rfl
  unfold find FileTree.configFile
  refine (TreeHost.run_bind_of_run_eq hhas _).trans ?_
  cases host.tree.find path with
  | error fault => rfl
  | ok node =>
    refine (TreeHost.run_bind_of_run_eq hread _).trans ?_
    cases host.tree.readText path <;> rfl

/-- The home directory on a host. -/
def TreeHost.home? (host : TreeHost) (environment : Environment) : Option String :=
  Expansion.home? environment host.accountHome

namespace Settings

/-- The layers that an environment and the files of a host specify. There may be no place for the
global file, and the file of the project has to exist if the user names it. -/
structure LayersAt (host : TreeHost) (environment : Environment) (named? : Option String)
    (overrides globalLayer projectLayer : Layer) : Prop where
  fromEnvironment : overrides.FromEnvironment environment
  globalFile : ∀ path, globalPath? environment (host.home? environment) = some path →
    host.tree.Specifies path globalLayer
  noGlobalFile : globalPath? environment (host.home? environment) = none → globalLayer = {}
  projectFile : host.tree.Specifies (named?.getD defaultProjectPath) projectLayer
  named : ∀ path, named? = some path → (host.tree.find path).isOk

/-- The sources that are found on a host. -/
def sourcesAt (host : TreeHost) (environment : Environment) (named? : Option String) :
    Sources where
  globalFile := (globalPath? environment (host.home? environment)).map fun path =>
    (path, host.tree.configFile path)
  projectNamed := named?.isSome
  projectPath := named?.getD defaultProjectPath
  projectFile := host.tree.configFile (named?.getD defaultProjectPath)
  environment
  home := host.home? environment

theorem run_load (environment : Environment) (named? : Option String) (host : TreeHost) :
    (load environment named? : StateM TreeHost (Except ConfigError Settings)).run host =
      (ofSources (sourcesAt host environment named?), host) := by
  have hhome : (findHome environment : StateM TreeHost (Option String)).run host =
      (host.home? environment, host) := rfl
  have hsources : (findSources environment named? : StateM TreeHost Sources).run host =
      (sourcesAt host environment named?, host) := by
    unfold findSources sourcesAt
    refine (TreeHost.run_bind_of_run_eq hhome _).trans ?_
    cases globalPath? environment (host.home? environment) with
    | none =>
      simp only [pure_bind, StateT.run_bind, ConfigFile.run_find]
      rfl
    | some path =>
      simp only [pure_bind, StateT.run_bind, ConfigFile.run_find]
      rfl
  rw [load, StateT.run_bind, hsources]
  rfl

variable {host : TreeHost} {environment : Environment} {named? : Option String}
  {overrides globalLayer projectLayer : Layer} {settings : Settings}

/-- The layers of the sources that are found are those that the files specify. -/
theorem layersAt_iff :
    LayersAt host environment named? overrides globalLayer projectLayer ↔
      overrides = Overrides.layer environment ∧
        (sourcesAt host environment named?).globalLayer = .ok globalLayer ∧
        (sourcesAt host environment named?).projectLayer = .ok projectLayer := by
  have hglobal : (sourcesAt host environment named?).globalLayer = .ok globalLayer ↔
      (∀ path, globalPath? environment (host.home? environment) = some path →
        host.tree.Specifies path globalLayer) ∧
      (globalPath? environment (host.home? environment) = none → globalLayer = {}) := by
    unfold Sources.globalLayer sourcesAt
    cases globalPath? environment (host.home? environment) with
    | none => simp [eq_comm]
    | some path => simp [FileTree.layer_configFile_iff]
  have hproject : (sourcesAt host environment named?).projectLayer = .ok projectLayer ↔
      host.tree.Specifies (named?.getD defaultProjectPath) projectLayer ∧
        ∀ path, named? = some path → (host.tree.find path).isOk := by
    unfold Sources.projectLayer sourcesAt
    dsimp only
    rw [← FileTree.layer_configFile_iff]
    cases named? with
    | none => simp
    | some path =>
      cases hfind : (host.tree.find path).isOk with
      | false => simp [FileTree.configFile_eq_missing_iff.mpr hfind, hfind]
      | true =>
        have hpresent : host.tree.configFile path ≠ .missing := by
          rw [Ne, FileTree.configFile_eq_missing_iff, hfind]
          exact nofun
        simp [hpresent, hfind]
  rw [hglobal, hproject, ← Layer.fromEnvironment_iff]
  exact ⟨fun h => ⟨h.fromEnvironment, ⟨h.globalFile, h.noGlobalFile⟩, h.projectFile, h.named⟩,
    fun h => ⟨h.1, h.2.1.1, h.2.1.2, h.2.2.1, h.2.2.2⟩⟩

/-- Loading gives the settings in which every option comes from the layer that decides it, if they
are valid. It fails if a file is malformed, or if the file is missing that the user names. Whatever
a layer says can be written in a file, which then specifies this layer. -/
theorem load_resolves (environment : Environment) (named? : Option String) (host : TreeHost) :
    (∀ settings,
      (load environment named? : StateM TreeHost (Except ConfigError Settings)).run host =
          (.ok settings, host) ↔
        ∃ overrides globalLayer projectLayer,
          LayersAt host environment named? overrides globalLayer projectLayer ∧
          settings.Resolved environment (host.home? environment) overrides globalLayer
            projectLayer ∧
          settings.validate = .ok ()) ∧
    ((∃ path, globalPath? environment (host.home? environment) = some path ∧
          host.tree.Malformed path) ∨
        host.tree.Malformed (named?.getD defaultProjectPath) ∨
        (∃ path, named? = some path ∧ (host.tree.find path).isOk = false) →
      ∃ error, (load environment named? : StateM TreeHost (Except ConfigError Settings)).run host =
        (.error error, host)) ∧
    (∀ path layer, host.tree.readText path = .ok layer.toToml →
      ∀ specified, host.tree.Specifies path specified ↔ specified = layer) := by
  have hok : ∀ settings, ofSources (sourcesAt host environment named?) = .ok settings ↔
      ∃ overrides globalLayer projectLayer,
        LayersAt host environment named? overrides globalLayer projectLayer ∧
        settings.Resolved environment (host.home? environment) overrides globalLayer
          projectLayer ∧
        settings.validate = .ok () := by
    intro settings
    rw [ofSources_eq_ok_iff]
    constructor
    · rintro ⟨globalLayer, projectLayer, hglobal, hproject, hresolved, hvalid⟩
      exact ⟨_, globalLayer, projectLayer, layersAt_iff.mpr ⟨rfl, hglobal, hproject⟩, hresolved,
        hvalid⟩
    · rintro ⟨_, globalLayer, projectLayer, hlayers, hresolved, hvalid⟩
      obtain ⟨rfl, hglobal, hproject⟩ := layersAt_iff.mp hlayers
      exact ⟨globalLayer, projectLayer, hglobal, hproject, hresolved, hvalid⟩
  rw [run_load]
  refine ⟨fun settings => by rw [← hok, Prod.mk.injEq, and_iff_left rfl], fun hbad => ?_,
    fun path layer hread specified => FileTree.specifies_iff_of_toToml hread⟩
  cases hresult : ofSources (sourcesAt host environment named?) with
  | error error => exact ⟨error, rfl⟩
  | ok settings =>
    obtain ⟨overrides, globalLayer, projectLayer, hlayers, -⟩ := (hok settings).mp hresult
    -- A file that is malformed or has to exist specifies no layer from which settings come.
    rcases hbad with ⟨path, hpath, hmalformed⟩ | hmalformed | ⟨path, hpath, hmissing⟩
    · exact absurd hmalformed (hlayers.globalFile path hpath).not_malformed
    · exact absurd hmalformed hlayers.projectFile.not_malformed
    · rw [hlayers.named path hpath] at hmissing
      cases hmissing

/-- A global layer. -/
def sampleGlobalLayer : Layer where
  mib.moduleName := some "G-MIB"
  dump := { command := some "gdump", args := some ["-g"] }
  generator.exclude := some ["a", "b"]

/-- A layer of a project that disagrees with `sampleGlobalLayer`. -/
def sampleProjectLayer : Layer where
  mib.moduleName := some "P-MIB"
  dump.args := some ["-p"]
  generator := { exclude := some ["!a", "c"], output := some "~/driver.rs" }

/-- A host with the two layers, of whose account the home directory is known. -/
def sampleHost : TreeHost where
  tree := {
    nodes := [
      (["home"], .directory),
      (["user", "home"], .directory),
      ([".config", "user", "home"], .directory),
      (["mibgen", ".config", "user", "home"], .directory),
      (["mibgen.toml", "mibgen", ".config", "user", "home"], .file (Utf8.encode (
        "[mib]\nmodule = \"G-MIB\"\n\n" ++
        "[dump]\ncommand = \"gdump\"\nargs = [\"-g\"]\n\n" ++
        "[generator]\nexclude = [\n    \"a\",\n    \"b\",\n]\n"))),
      (["mibgen.toml"], .file (Utf8.encode (
        "[mib]\nmodule = \"P-MIB\"\n\n" ++
        "[dump]\nargs = [\"-p\"]\n\n" ++
        "[generator]\nexclude = [\n    \"!a\",\n    \"c\",\n]\noutput = \"~/driver.rs\"\n")))]
    working := [] }
  accountHome := some "/home/user"

/-- Variables that disagree with both layers. -/
def sampleVariables : Environment :=
  [("MIBGEN__MIB__MODULE", "E-MIB"), ("MIBGEN__DUMP__ARGS", "-e"),
    ("MIBGEN__GENERATOR__EXCLUDE", "e")]

/-- The settings of `sampleHost` with the variables, and without them. -/
theorem load_resolves_disagreement :
    (load sampleVariables none : StateM TreeHost (Except ConfigError Settings)).run sampleHost =
        (.ok {
          mib.moduleName := some "E-MIB"
          dump := { command := some "gdump", args := ["-e"] }
          generator := { exclude := ["e"], output := some "/home/user/driver.rs" } },
          sampleHost) ∧
      (load [] none : StateM TreeHost (Except ConfigError Settings)).run sampleHost =
        (.ok {
          mib.moduleName := some "P-MIB"
          dump := { command := some "gdump", args := ["-p"] }
          generator := { exclude := ["b", "c"], output := some "/home/user/driver.rs" } },
          sampleHost) := by
  have hglobal : sampleHost.tree.readText "/home/user/.config/mibgen/mibgen.toml" =
      .ok sampleGlobalLayer.toToml := by
    rw [FileTree.readText_eq_ok_iff]
    decide +kernel
  have hproject : sampleHost.tree.readText "./mibgen.toml" = .ok sampleProjectLayer.toToml := by
    rw [FileTree.readText_eq_ok_iff]
    decide +kernel
  have hlayers : ∀ environment,
      globalPath? environment (sampleHost.home? environment) =
        some "/home/user/.config/mibgen/mibgen.toml" →
      LayersAt sampleHost environment none (Overrides.layer environment) sampleGlobalLayer
        sampleProjectLayer := by
    intro environment hplace
    have hwritten := (load_resolves environment none sampleHost).2.2
    constructor
    case fromEnvironment => exact Layer.fromEnvironment_iff.mpr rfl
    case globalFile =>
      intro path hpath
      obtain rfl := Option.some.inj (hplace.symm.trans hpath)
      exact (hwritten _ _ hglobal _).mpr rfl
    case noGlobalFile =>
      intro hnone
      cases hplace.symm.trans hnone
    case projectFile => exact (hwritten _ _ hproject _).mpr rfl
    case named =>
      intro path hnamed
      cases hnamed
  constructor
  · refine ((load_resolves sampleVariables none sampleHost).1 _).mpr
      ⟨_, _, _, hlayers sampleVariables (by decide +kernel), resolved_iff.mpr ?_, ?_⟩ <;>
        decide +kernel
  · refine ((load_resolves [] none sampleHost).1 _).mpr
      ⟨_, _, _, hlayers [] (by decide +kernel), resolved_iff.mpr ?_, ?_⟩ <;> decide +kernel

end Settings

end MibDrivers
