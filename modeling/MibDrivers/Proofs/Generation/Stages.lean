import MibDrivers.CommandLine.Session
import MibDrivers.Proofs.Driver.Mirror
import MibDrivers.Proofs.Host.Files
import MibDrivers.Proofs.Host.Runs

/-!
# The stages of a generation

All stages before the last one only read, and so does everything that a command does before it
generates: the settings, the request that they make, the dump, the baseline. What is rendered is
the same on two hosts on which the dump and the baseline read the same, as they do before and after
the last stage if it writes neither of them. Only this stage writes.

## Main definitions

* `Request.SameSources` — the dump and the baseline of a request read the same on two hosts

## Main results

* `Request.readsOnly_render` — to render is only to read
* `Request.exists_plan_of_render` — what is rendered is the source of a plan
* `Request.SameSources.render` — what is rendered is the same if the sources are
* `Request.SameSources.of_write` — the sources are the same after another file was written
* `Request.perform_generate_of_ok`, `Request.perform_check` — the last stage, after rendering
-/

namespace MibDrivers

open TreeHost (ReadsOnly Alike)

variable {request : Request} {host first second : TreeHost}

/-! ### Stages that only read -/

/-- To read a file is to look it up in the tree. -/
theorem DumpSource.perform_readFile (host : TreeHost) (action path : String) :
    host.perform (DumpSource.readFile action path) =
      ((host.tree.readText path).mapError fun _ => .operation (action ++ ": " ++ path), host) := by
  have hasked : host.perform
      (Host.readText path : ExceptT Failure (StateM TreeHost) (Except String String)) =
      (.ok ((host.tree.readText path).mapError PathFault.message), host) :=
    rfl
  rw [readFile, TreeHost.perform_bind, hasked]
  cases host.tree.readText path <;> rfl

theorem DumpSource.readsOnly_readFile (action path : String) :
    ReadsOnly (DumpSource.readFile action path) :=
  fun host => congrArg Prod.snd (perform_readFile host action path)

/-- A file reads the same on two hosts if it does in their trees. -/
theorem DumpSource.alike_readFile (action : String) {path : String}
    (h : first.tree.readText path = second.tree.readText path) :
    Alike first second (DumpSource.readFile action path) := by
  rw [Alike, perform_readFile, perform_readFile, h]

theorem DumpSource.readText_of_readFile {action path text : String}
    (h : (host.perform (DumpSource.readFile action path)).1 = .ok text) :
    host.tree.readText path = .ok text := by
  rw [perform_readFile] at h
  exact mapError_eq_ok.mp h

theorem DumpSource.readsOnly_text (source : DumpSource) : ReadsOnly source.text := by
  cases source with
  | file path => exact readsOnly_readFile _ path
  | program name args =>
    refine (ReadsOnly.runProgram name args).bind fun output? => ?_
    cases output? with
    | some output => exact .ofExcept _
    | none => exact .throw _

theorem DumpSource.readsOnly_load (source : DumpSource) : ReadsOnly source.load :=
  source.readsOnly_text.bind fun _ => .ofExcept _

theorem WorkingSet.readsOnly_baseline (path? : Option String) :
    ReadsOnly (WorkingSet.baseline path?) := by
  cases path? with
  | some path => exact (DumpSource.readsOnly_readFile _ path).bind fun _ => .ofExcept _
  | none => exact .pure _

namespace Request

theorem readsOnly_workingSet (request : Request) : ReadsOnly request.workingSet :=
  request.source.readsOnly_load.bind fun _ => (ReadsOnly.ofExcept _).bind fun _ =>
    (WorkingSet.readsOnly_baseline request.baseline).bind fun _ => .pure _

theorem readsOnly_forest (request : Request) : ReadsOnly request.forest :=
  request.readsOnly_workingSet.bind fun _ => (ReadsOnly.ofExcept _).bind fun _ => .pure _

/-- To render is only to read. -/
theorem readsOnly_render (request : Request) : ReadsOnly request.render :=
  request.readsOnly_forest.bind fun _ => .ofExcept _

/-! ### What the stages depend on -/

/-- The dump reads the same on both hosts, be it a file or what a program prints, and so does the
baseline if it is a file. -/
structure SameSources (request : Request) (first second : TreeHost) : Prop where
  dump : Alike first second request.source.text
  baseline : ∀ path ∈ request.baseline,
    Alike first second (DumpSource.readFile "read baseline" path)

theorem SameSources.workingSet (h : request.SameSources first second) :
    Alike first second request.workingSet := by
  have hbaseline : Alike first second (WorkingSet.baseline request.baseline) := by
    cases hpath : request.baseline with
    | some path =>
      exact .bind (DumpSource.readsOnly_readFile _ path) (h.baseline path hpath) fun _ => rfl
    | none => rfl
  -- How a dump is read from its text depends on no host.
  have hload : Alike first second request.source.load :=
    .bind request.source.readsOnly_text h.dump fun _ => rfl
  exact .bind request.source.readsOnly_load hload fun _ =>
    .bind (.ofExcept _) (.ofExcept _) fun _ =>
      .bind (WorkingSet.readsOnly_baseline _) hbaseline fun _ => rfl

/-- What is rendered is the same if the sources are. -/
theorem SameSources.render (h : request.SameSources first second) :
    Alike first second request.render :=
  .bind request.readsOnly_forest
    (.bind request.readsOnly_workingSet h.workingSet fun _ =>
      .bind (.ofExcept _) (.ofExcept _) fun _ => rfl)
    fun _ => rfl

variable {report : Report} {failure : Failure} {path text : String}

/-- What is rendered comes from a dump, and from a baseline if there is one, that could be read. -/
theorem exists_sources_of_render (h : (host.perform request.render).1 = .ok report) :
    (∃ dump, (host.perform request.source.text).1 = .ok dump) ∧
      ∀ path ∈ request.baseline, ∃ text, host.tree.readText path = .ok text := by
  obtain ⟨mib, hforest, -⟩ := request.readsOnly_forest.exists_of_bind h
  obtain ⟨objects, hobjects, -⟩ := request.readsOnly_workingSet.exists_of_bind hforest
  obtain ⟨dump, hload, hrest⟩ := request.source.readsOnly_load.exists_of_bind hobjects
  constructor
  · obtain ⟨text, htext, -⟩ := request.source.readsOnly_text.exists_of_bind hload
    exact ⟨text, htext⟩
  · intro path hpath
    obtain ⟨vendor, -, hrest⟩ := (ReadsOnly.ofExcept _).exists_of_bind hrest
    obtain ⟨baseline, hbaseline, -⟩ :=
      (WorkingSet.readsOnly_baseline request.baseline).exists_of_bind hrest
    rw [hpath] at hbaseline
    obtain ⟨text, htext, -⟩ :=
      (DumpSource.readsOnly_readFile "read baseline" path).exists_of_bind hbaseline
    exact ⟨text, DumpSource.readText_of_readFile htext⟩

/-- The dump and the baseline read the same after a file was written that is neither of them, if a
program that is asked for the dump answers the same. -/
theorem SameSources.of_write {after : TreeHost}
    (hrender : (host.perform request.render).1 = .ok report)
    (hwrite : host.tree.write path text = (after.tree, true))
    (hfiles : ∀ file, request.source = .file file ∨ request.baseline = some file →
      after.tree.locate file ≠ after.tree.locate path)
    (hprogram : ∀ name args, request.source = .program name args →
      Alike host after request.source.text) :
    request.SameSources host after := by
  obtain ⟨⟨dump, hdump⟩, hbaseline⟩ := exists_sources_of_render hrender
  constructor
  case dump =>
    cases hsource : request.source with
    | program name args => exact hsource ▸ hprogram name args hsource
    | file file =>
      rw [hsource] at hdump
      have hread := DumpSource.readText_of_readFile hdump
      have hlater := FileTree.readText_of_write_elsewhere hwrite hread (hfiles file (.inl hsource))
      exact DumpSource.alike_readFile _ (hread.trans hlater.symm)
  case baseline =>
    intro file hfile
    obtain ⟨content, hread⟩ := hbaseline file hfile
    have hlater := FileTree.readText_of_write_elsewhere hwrite hread (hfiles file (.inr hfile))
    exact DumpSource.alike_readFile _ (hread.trans hlater.symm)

/-- What is rendered is the source of the plan for a working set that was merged. -/
theorem exists_plan_of_render (h : (host.perform request.render).1 = .ok report) :
    ∃ baseline vendor forest options classes,
      Forest.ofWorkingSet (WorkingSet.merge request.excluded baseline vendor) = .ok forest ∧
      Driver.plan options forest = .ok classes ∧
      report.source = Driver.render classes options ∧ report.output = none := by
  obtain ⟨mib, hforest, hreport⟩ := request.readsOnly_forest.exists_of_bind h
  obtain ⟨⟨moduleName, objects⟩, hobjects, hmade⟩ :=
    request.readsOnly_workingSet.exists_of_bind hforest
  obtain ⟨dump, -, hrest⟩ := request.source.readsOnly_load.exists_of_bind hobjects
  obtain ⟨vendor, -, hrest⟩ := (ReadsOnly.ofExcept _).exists_of_bind hrest
  obtain ⟨baseline, -, hmerged⟩ :=
    (WorkingSet.readsOnly_baseline request.baseline).exists_of_bind hrest
  obtain ⟨-, rfl⟩ := Prod.mk.inj (Except.ok.inj hmerged)
  obtain ⟨forest, hbuilt, hmib⟩ := (ReadsOnly.ofExcept _).exists_of_bind hmade
  obtain rfl := Except.ok.inj hmib
  have hbuilt := mapError_eq_ok.mp hbuilt
  obtain ⟨classes, hplan, hrendered⟩ := bind_eq_ok.mp (mapError_eq_ok.mp hreport)
  obtain rfl := Except.ok.inj hrendered
  exact ⟨baseline, vendor, forest, _, classes, hbuilt, hplan, rfl, rfl⟩

/-! ### The last stage -/

/-- If nothing can be rendered, nothing is done. -/
theorem perform_generate_of_error (h : (host.perform request.render).1 = .error failure) :
    host.perform request.generate = (.error failure, host) := by
  rw [generate, TreeHost.perform_bind, request.readsOnly_render.perform_eq, h]

/-- What is rendered is written, if the request has a file. -/
theorem perform_generate_of_ok (h : (host.perform request.render).1 = .ok report) :
    host.perform request.generate = match request.output with
      | some path => host.perform (write report path)
      | none => (.ok report, host) := by
  rw [generate, TreeHost.perform_bind, request.readsOnly_render.perform_eq, h]
  cases request.output <;> rfl

/-- To write a report is to write its source. -/
theorem perform_write (host : TreeHost) (report : Report) (path : String) :
    host.perform (write report path) =
      (if (host.tree.write path report.source).2 then .ok { report with output := some path }
        else .error (.operation ("write generated source: " ++ path)),
        { host with tree := (host.tree.write path report.source).1 }) := by
  have hwrite : host.perform
      (Host.writeText path report.source : ExceptT Failure (StateM TreeHost) Bool) =
      (.ok (host.tree.write path report.source).2,
        { host with tree := (host.tree.write path report.source).1 }) :=
    rfl
  rw [write, TreeHost.perform_bind, hwrite]
  dsimp only
  cases (host.tree.write path report.source).2 <;> rfl

/-- If there is something at the path, its text is compared with what is rendered. -/
theorem perform_check (h : (host.perform request.render).1 = .ok report) (path : String) :
    host.perform (request.check path) =
      (if (host.tree.find path).isOk then
        ((host.tree.readText path).mapError fun _ =>
          .operation ("read generated source: " ++ path)).map report.compare
      else .ok .missing, host) := by
  have hpath : host.perform (Host.hasPath path : ExceptT Failure (StateM TreeHost) Bool) =
      (.ok (host.tree.find path).isOk, host) :=
    rfl
  rw [check, TreeHost.perform_bind, request.readsOnly_render.perform_eq, h]
  dsimp only
  rw [TreeHost.perform_bind, hpath]
  dsimp only
  cases (host.tree.find path).isOk with
  | false => rfl
  | true =>
    rw [if_pos rfl, if_pos rfl, TreeHost.perform_bind, DumpSource.perform_readFile]
    cases host.tree.readText path <;> rfl

end Request

end MibDrivers
