import MibDrivers.Proofs.Generation.Stages
import MibDrivers.Proofs.Text.Lines

/-!
# Writing, printing and checking agree

A source can be written to a file, printed, or compared with what a file holds, and each time it
is rendered anew. Since rendering only reads, all three see the same source as long as the dump and
the baseline read the same. A file is compared by its text, and a file whose bytes are no text is
not called stale but cannot be checked. What is printed loses the blanks at its end and gets a line feed, and
this makes no difference: a source ends in a line feed, and what is before it is not blank.

## Main definitions

* `Request.Coherent` — what writing, printing and checking have to do with each other

## Main results

* `Driver.trimEnd_render` — nothing is lost of a source that is printed
* `Request.perform_check_of_generate` — a file compared with the source of a generation
* `Request.perform_runGenerate` — what the command prints
* `Request.coherent` — every request is coherent on every host
-/

namespace MibDrivers

open TreeHost (ReadsOnly Alike)

/-! ### The end of a source -/

theorem Text.trimEnd_append_feed (cs : List Char) {c : Char} (hc : isBlank c = false) :
    trimEnd (String.ofList (cs ++ [c, '\n'])) = String.ofList (cs ++ [c]) := by
  have hfeed : isBlank '\n' := by decide
  rw [trimEnd, dropBlanksRight, String.toList_ofList, List.reverse_append]
  simp [hc, hfeed]

namespace Driver

/-- Each class ends with a bracket. -/
theorem exists_classLines_eq (c : Class) : ∃ before, classLines c = before ++ ["\x7d".toList] := by
  have hdriver : driverLines c = [] ∨ ∃ before, driverLines c = before ++ ["\x7d".toList] := by
    unfold driverLines
    cases c.kind with
    | root => exact .inr ⟨[_, _, _, _, _], rfl⟩
    | group => exact .inl rfl
    | leaves => exact .inl rfl
  unfold classLines
  rcases hdriver with hnone | ⟨before, hbefore⟩
  · rw [hnone, List.append_nil]
    exact ⟨_, rfl⟩
  · rw [hbefore, ← List.append_assoc]
    exact ⟨_, rfl⟩

/-- The last line of a source does not end with a blank. -/
theorem exists_sourceLines_eq (classes : List Class) (options : Options) :
    ∃ before line c, sourceLines classes options = before ++ [line ++ [c]] ∧
      Text.isBlank c = false := by
  rw [sourceLines]
  rcases List.eq_nil_or_concat (sourceOrder classes) with hnone | ⟨others, last, hlast⟩
  · -- Without classes the import is last, and it ends with a semicolon.
    have hsemicolon : "\x7d;".toList = ['\x7d'] ++ [';'] := by decide
    rw [hnone, List.flatMap_nil, List.append_nil]
    unfold headerLines
    rw [hsemicolon, ← List.append_assoc]
    exact ⟨[_, _, _], _, ';', rfl, by decide⟩
  · obtain ⟨before, hbefore⟩ := exists_classLines_eq last
    have hbracket : "\x7d".toList = [] ++ ['\x7d'] := by decide
    rw [hlast, List.concat_eq_append, List.flatMap_append, List.flatMap_singleton, hbefore,
      hbracket, ← List.cons_append, ← List.append_assoc, ← List.append_assoc]
    exact ⟨_, [], '\x7d', rfl, by decide⟩

/-- Nothing is lost of a source that is printed without the blanks at its end and with a line feed
after it. -/
theorem trimEnd_render (classes : List Class) (options : Options) :
    Text.trimEnd (render classes options) ++ "\n" = render classes options := by
  obtain ⟨before, line, c, hlines, hc⟩ := exists_sourceLines_eq classes options
  have hrender : render classes options =
      String.ofList (Text.joinLines before ++ line ++ [c, '\n']) := by
    rw [render, hlines, List.flatMap_append]
    simp [Text.joinLines]
  rw [hrender, Text.trimEnd_append_feed _ hc, ← String.toList_inj]
  simp

end Driver

/-! ### Commands -/

namespace CommandLine.Invocation

variable {environment : Environment} {invocation : Invocation}

theorem readsOnly_find (path : String) :
    ReadsOnly (ConfigFile.find path : ExceptT CommandError (StateM TreeHost) ConfigFile) := by
  refine (ReadsOnly.hasPath path).bind fun found => ?_
  cases found with
  | false => exact .pure _
  | true =>
    refine (ReadsOnly.readText path).bind fun result => ?_
    cases result <;> exact .pure _

/-- To find settings is only to read. -/
theorem readsOnly_settings (environment : Environment) (invocation : Invocation) :
    ReadsOnly (invocation.settings environment :
      ExceptT CommandError (StateM TreeHost) Settings) := by
  have hsources : ReadsOnly (Settings.findSources environment invocation.configPath :
      ExceptT CommandError (StateM TreeHost) Settings.Sources) := by
    rw [Settings.findSources, Settings.findHome]
    refine (ReadsOnly.accountHome.bind fun _ => .pure _).bind fun home => ?_
    cases Settings.globalPath? environment home with
    | none => exact (ReadsOnly.pure _).bind fun _ => (readsOnly_find _).bind fun _ => .pure _
    | some path =>
      exact (readsOnly_find path).bind fun _ => (ReadsOnly.pure _).bind fun _ =>
        (readsOnly_find _).bind fun _ => .pure _
  refine (hsources.bind fun _ => .pure _).bind fun loaded => ?_
  cases loaded with
  | ok settings => exact .pure _
  | error cause => exact .throw _

/-- To make a request is only to read. -/
theorem readsOnly_request (environment : Environment) (invocation : Invocation)
    (choice : SourceChoice) :
    ReadsOnly (invocation.request environment choice :
      ExceptT CommandError (StateM TreeHost) Request) := by
  refine (readsOnly_settings environment invocation).bind fun settings => ?_
  cases hmade : Request.ofSettings (settings.withChoice choice) choice.dumpFile with
  | ok request => exact .pure _
  | error cause => exact .throw _

end CommandLine.Invocation

/-! ### Requests -/

namespace Request

open CommandLine (Invocation SourceChoice Transcript)

variable {request : Request} {host after : TreeHost} {report : Report} {path : String}

/-- What a generation that succeeds has rendered and, if the request has a file, has written. -/
theorem exists_of_generate (h : host.perform request.generate = (.ok report, after)) :
    ∃ rendered, (host.perform request.render).1 = .ok rendered ∧
      report.source = rendered.source ∧ match request.output with
        | some path => report.output = some path ∧
            host.tree.write path rendered.source = (after.tree, true)
        | none => report = rendered ∧ after = host := by
  cases hrender : (host.perform request.render).1 with
  | error failure =>
    rw [perform_generate_of_error hrender] at h
    cases h
  | ok rendered =>
    refine ⟨rendered, rfl, ?_⟩
    rw [perform_generate_of_ok hrender] at h
    cases houtput : request.output with
    | none =>
      rw [houtput] at h
      -- Nothing is written, and the report is the one that was rendered.
      obtain ⟨hreport, hafter⟩ := Prod.mk.inj h
      obtain rfl := Except.ok.inj hreport
      exact ⟨rfl, rfl, hafter.symm⟩
    | some path =>
      rw [houtput] at h
      dsimp only at h
      rw [perform_write] at h
      cases hwrite : host.tree.write path rendered.source with
      | mk tree succeeded =>
        rw [hwrite] at h
        cases succeeded with
        | false => cases h
        | true =>
          obtain ⟨hreport, hafter⟩ := Prod.mk.inj h
          obtain rfl := Except.ok.inj hreport
          exact ⟨rfl, rfl, by rw [← hafter, hwrite]⟩

/-- A source that is rendered is printed as it is. -/
theorem ofReport_of_render (h : (host.perform request.render).1 = .ok report) :
    Transcript.ofReport report = { stdout := report.source } := by
  obtain ⟨_, _, _, options, classes, -, -, hsource, hnone⟩ := exists_plan_of_render h
  have hprinted : Transcript.ofReport report = .info (Text.trimEnd report.source) := by
    rw [Transcript.ofReport, hnone]
  rw [hprinted, Transcript.info, hsource, Driver.trimEnd_render]

/-- A generation that fails makes, changes and removes no file. -/
theorem node?_of_generate_failed {failure : Failure}
    (h : host.perform request.generate = (.error failure, after)) (place : Place)
    (content : List UInt8) :
    after.tree.node? place = some (.file content) ↔
      host.tree.node? place = some (.file content) := by
  cases hrender : (host.perform request.render).1 with
  | error cause =>
    rw [perform_generate_of_error hrender] at h
    rw [(Prod.mk.inj h).2]
  | ok rendered =>
    rw [perform_generate_of_ok hrender] at h
    cases houtput : request.output with
    | none =>
      rw [houtput] at h
      cases h
    | some path =>
      rw [houtput] at h
      dsimp only at h
      rw [perform_write] at h
      cases hwrite : host.tree.write path rendered.source with
      | mk tree succeeded =>
        rw [hwrite] at h
        cases succeeded with
        | true => cases h
        | false =>
          -- The directories above the file may have been made.
          rw [← (Prod.mk.inj h).2]
          exact FileTree.node?_of_write_failed hwrite place content

/-- A generation that succeeds leaves the source in the file of the request. -/
theorem read_of_generate (h : host.perform request.generate = (.ok report, after))
    (houtput : request.output = some path) :
    report.output = some path ∧ after.tree.read path = .ok (Utf8.encode report.source) := by
  obtain ⟨rendered, -, hsource, hwritten⟩ := exists_of_generate h
  rw [houtput] at hwritten
  rw [hsource]
  exact ⟨hwritten.1, FileTree.read_of_write hwritten.2⟩

section Checking

variable {current : TreeHost} {text : String} {content : List UInt8}

/-- A check compares the text of a file with the source that a generation left, as long as the dump
and the baseline read the same. -/
theorem perform_check_of_generate (h : host.perform request.generate = (.ok report, after))
    (hsame : request.SameSources host current) (hread : current.tree.read path = .ok content) :
    current.perform (request.check path) =
      (((current.tree.readText path).mapError fun _ =>
          .operation ("read generated source: " ++ path)).map fun text =>
        if text = report.source then .fresh else .stale, current) := by
  obtain ⟨rendered, hrender, hsource, -⟩ := exists_of_generate h
  rw [perform_check (hsame.render.symm.trans hrender), if_pos (FileTree.isOk_find_of_read hread),
    hsource]
  rfl

/-- So a file with a text is fresh exactly if the text is the source, -/
theorem perform_check_of_text (h : host.perform request.generate = (.ok report, after))
    (hsame : request.SameSources host current)
    (hread : current.tree.read path = .ok (Utf8.encode text)) :
    current.perform (request.check path) =
      (.ok (if text = report.source then .fresh else .stale), current) := by
  rw [perform_check_of_generate h hsame hread, FileTree.readText_eq_ok_iff.mpr hread]
  rfl

/-- and a file without a text cannot be checked. -/
theorem perform_check_of_not_isText (h : host.perform request.generate = (.ok report, after))
    (hsame : request.SameSources host current) (hread : current.tree.read path = .ok content)
    (hcontent : ¬ Utf8.IsText content) :
    current.perform (request.check path) =
      (.error (.operation ("read generated source: " ++ path)), current) := by
  rw [perform_check_of_generate h hsame hread,
    FileTree.readText_of_not_isText hread hcontent]
  rfl

end Checking

/-- The sources are the same after a generation whose file is neither the dump nor the baseline, if
a program that is asked for the dump answers the same. -/
theorem SameSources.of_generate (h : host.perform request.generate = (.ok report, after))
    (houtput : request.output = some path)
    (hfiles : ∀ file, request.source = .file file ∨ request.baseline = some file →
      after.tree.locate file ≠ after.tree.locate path)
    (hprogram : ∀ name args, request.source = .program name args →
      Alike host after request.source.text) :
    request.SameSources host after := by
  obtain ⟨rendered, hrender, -, hwritten⟩ := exists_of_generate h
  rw [houtput] at hwritten
  exact .of_write hrender hwritten.2 hfiles hprogram

/-- The command without a file prints the source that the request that it makes renders. -/
theorem perform_runGenerate {environment : Environment} {invocation : Invocation}
    {choice : SourceChoice} {output? : Option String} {toStdout : Bool}
    (hrequest : (host.perform (invocation.request environment choice)).1 = .ok request)
    (hnone : toStdout = true ∨ output? = none ∧ request.output = none)
    (hrender : (host.perform request.render).1 = .ok report) :
    host.perform (invocation.runGenerate environment choice output? toStdout) =
      (.ok { stdout := report.source }, host) := by
  have houtput : (if toStdout then none else output?.or request.output) = none := by
    rcases hnone with rfl | ⟨rfl, hnone⟩
    · rfl
    · rw [hnone, Option.or_none, ite_self]
  -- What is rendered does not depend on the file.
  have hrendered : (host.perform { request with output := none }.render).1 = .ok report := hrender
  have hgenerate : host.perform { request with output := none }.generate = (.ok report, host) :=
    perform_generate_of_ok hrendered
  rw [Invocation.runGenerate, TreeHost.perform_bind,
    (Invocation.readsOnly_request environment invocation choice).perform_eq, hrequest]
  dsimp only
  rw [houtput, TreeHost.perform_bind, Invocation.generation, TreeHost.perform_adapt, hgenerate]
  exact congrArg (fun transcript => (Except.ok transcript, host)) (ofReport_of_render hrender)

/-! ### Coherence -/

/-- What writing the source of a request, printing it and checking a file have to do with each
other on a host. -/
structure Coherent (request : Request) (host : TreeHost) : Prop where
  /-- A generation that fails before it writes leaves the host as it is. -/
  untouched : ∀ failure after, host.perform request.render = (.error failure, after) →
    host.perform request.generate = (.error failure, host)
  /-- A generation that fails makes, changes and removes no file. -/
  unwritten : ∀ failure after, host.perform request.generate = (.error failure, after) →
    ∀ place content, after.tree.node? place = some (.file content) ↔
      host.tree.node? place = some (.file content)
  /-- A generation that succeeds leaves the source in the file of the request. -/
  written : ∀ report after path, host.perform request.generate = (.ok report, after) →
    request.output = some path →
    report.output = some path ∧ after.tree.read path = .ok (Utf8.encode report.source)
  /-- Later, as long as the dump and the baseline read the same, a file is fresh exactly if it holds
  the source. It is stale if it holds another text, and it cannot be checked if it holds bytes that
  are no text. -/
  compared : ∀ report after path, host.perform request.generate = (.ok report, after) →
    ∀ current content, request.SameSources host current → current.tree.read path = .ok content →
    (current.perform (request.check path) = (.ok .fresh, current) ↔
      content = Utf8.encode report.source) ∧
    (current.perform (request.check path) = (.ok .stale, current) ↔
      content ≠ Utf8.encode report.source ∧ Utf8.IsText content) ∧
    (current.perform (request.check path) =
        (.error (.operation ("read generated source: " ++ path)), current) ↔
      ¬ Utf8.IsText content)
  /-- Right after the generation the file is fresh, if it is neither the dump nor the baseline and
  a program that is asked for the dump answers the same. -/
  fresh : ∀ report after path, host.perform request.generate = (.ok report, after) →
    request.output = some path →
    (∀ file, request.source = .file file ∨ request.baseline = some file →
      after.tree.locate file ≠ after.tree.locate path) →
    (∀ name args, request.source = .program name args → Alike host after request.source.text) →
    after.perform (request.check path) = (.ok .fresh, after)
  /-- The command that makes this request prints the source if it is given no file. It is the
  one that is written to any file that the command is given instead. -/
  printed : ∀ environment (invocation : Invocation) choice output? toStdout,
    (host.perform (invocation.request environment choice)).1 = .ok request →
    toStdout = true ∨ output? = none ∧ request.output = none →
    ∀ report, (host.perform request.render).1 = .ok report →
    host.perform (invocation.runGenerate environment choice output? toStdout) =
      (.ok { stdout := report.source }, host) ∧
    ∀ path written after,
      host.perform { request with output := some path }.generate = (.ok written, after) →
      after.tree.read path = .ok (Utf8.encode report.source)

/-- Every request is coherent on every host. -/
theorem coherent (request : Request) (host : TreeHost) : request.Coherent host := by
  constructor
  case untouched =>
    intro failure after h
    exact perform_generate_of_error (congrArg Prod.fst h)
  case unwritten =>
    intro failure after h
    exact node?_of_generate_failed h
  case written =>
    intro report after path h houtput
    exact read_of_generate h houtput
  case compared =>
    intro report after path h current content hsame hread
    by_cases hcontent : Utf8.IsText content
    · obtain ⟨text, rfl⟩ := hcontent
      have htext : Utf8.IsText (Utf8.encode text) := ⟨text, rfl⟩
      rw [perform_check_of_text h hsame hread]
      simp only [ne_eq, Utf8.encode_injective.eq_iff]
      by_cases hsource : text = report.source
      · simp [hsource, hsource ▸ htext]
      · simp [hsource, htext]
    · have hother : content ≠ Utf8.encode report.source := fun heq => hcontent ⟨_, heq⟩
      rw [perform_check_of_not_isText h hsame hread hcontent]
      simp [hother, hcontent]
  case fresh =>
    intro report after path h houtput hfiles hprogram
    have hsame := SameSources.of_generate h houtput hfiles hprogram
    rw [perform_check_of_text h hsame (read_of_generate h houtput).2, if_pos rfl]
  case printed =>
    intro environment invocation choice output? toStdout hrequest hnone report hrender
    refine ⟨perform_runGenerate hrequest hnone hrender, fun path written after h => ?_⟩
    obtain ⟨rendered, hrendered, -, hwritten⟩ := exists_of_generate h
    obtain rfl := Except.ok.inj (hrendered.symm.trans hrender)
    exact FileTree.read_of_write hwritten.2

/-- A host with a dump of one branch and an empty baseline. -/
def sampleHost : TreeHost where
  tree := {
    nodes := [
      (["dump.json"], .file (Utf8.encode ("\x7b\"nodes\":\x7b\"sys\":\x7b\"name\":\"sys\"," ++
        "\"nodetype\":\"node\",\"oid\":\"1.3\"\x7d\x7d\x7d"))),
      (["baseline.json"], .file (Utf8.encode "\x7b\"nodes\":\x7b\x7d\x7d"))]
    working := [] }

/-- A request on `sampleHost`, with a file in a directory that is to be made. -/
def sampleRequest : Request where
  source := .file "dump.json"
  baseline := some "baseline.json"
  output := some "generated/driver.rs"

theorem coherent_sample :
    ∃ report after, sampleHost.perform sampleRequest.generate = (.ok report, after) ∧
      after.tree.read "generated/driver.rs" = .ok (Utf8.encode report.source) ∧
      after.perform (sampleRequest.check "generated/driver.rs") = (.ok .fresh, after) := by
  have hcoherent := coherent sampleRequest sampleHost
  have hsucceeds : (sampleHost.perform sampleRequest.generate).1.toOption.isSome := by
    decide +kernel
  have hplaces : ∀ file ∈ ["dump.json", "baseline.json"],
      (sampleHost.perform sampleRequest.generate).2.tree.locate file ≠
        (sampleHost.perform sampleRequest.generate).2.tree.locate "generated/driver.rs" := by
    decide +kernel
  cases hgenerate : sampleHost.perform sampleRequest.generate with
  | mk result after =>
    rw [hgenerate] at hsucceeds hplaces
    cases result with
    | error failure => cases hsucceeds
    | ok report =>
      refine ⟨report, after, rfl, (hcoherent.written report after _ hgenerate rfl).2, ?_⟩
      refine hcoherent.fresh report after _ hgenerate rfl (fun file hfile => hplaces file ?_) ?_
      · rcases hfile with hdump | hbaseline
        · exact List.mem_cons.mpr (.inl (DumpSource.file.inj hdump).symm)
        · exact List.mem_cons_of_mem _ (List.mem_singleton.mpr (Option.some.inj hbaseline).symm)
      · intro name args hprogram
        cases hprogram

/-- After a generation, other bytes in the file need not make it stale. Bytes that are no text make
the check fail, although the dump and the baseline read the same. -/
theorem check_fails_of_no_text :
    ∃ report after current, sampleHost.perform sampleRequest.generate = (.ok report, after) ∧
      current = { after with
        tree := after.tree.put ["driver.rs", "generated"] (.file [0xFF]) } ∧
      sampleRequest.SameSources sampleHost current ∧
      current.tree.read "generated/driver.rs" = .ok [0xFF] ∧
      [0xFF] ≠ Utf8.encode report.source ∧
      current.perform (sampleRequest.check "generated/driver.rs") =
        (.error (.operation "read generated source: generated/driver.rs"), current) := by
  have hsucceeds : (sampleHost.perform sampleRequest.generate).1.toOption.isSome := by
    decide +kernel
  have hsources : ∀ file ∈ ["dump.json", "baseline.json"],
      sampleHost.tree.readText file =
        ((sampleHost.perform sampleRequest.generate).2.tree.put ["driver.rs", "generated"]
          (.file [0xFF])).readText file := by
    decide +kernel
  have hread : ((sampleHost.perform sampleRequest.generate).2.tree.put ["driver.rs", "generated"]
      (.file [0xFF])).read "generated/driver.rs" = .ok [0xFF] := by
    decide +kernel
  have hno : ¬ Utf8.IsText [0xFF] := by
    rintro ⟨text, htext⟩
    have hnone : (Utf8.decode [0xFF]).toOption = none := by decide +kernel
    rw [Utf8.decode_eq_ok_iff.mpr htext] at hnone
    cases hnone
  cases hgenerate : sampleHost.perform sampleRequest.generate with
  | mk result after =>
    rw [hgenerate] at hsucceeds hsources hread
    cases result with
    | error failure => cases hsucceeds
    | ok report =>
      have hsame : sampleRequest.SameSources sampleHost { after with
          tree := after.tree.put ["driver.rs", "generated"] (.file [0xFF]) } := by
        constructor
        case dump => exact DumpSource.alike_readFile _ (hsources _ List.mem_cons_self)
        case baseline =>
          intro file hfile
          obtain rfl := Option.mem_some.mp hfile
          exact DumpSource.alike_readFile _
            (hsources _ (List.mem_cons_of_mem _ List.mem_cons_self))
      exact ⟨report, after, _, rfl, rfl, hsame, hread, fun heq => hno ⟨_, heq⟩,
        perform_check_of_not_isText hgenerate hsame hread hno⟩

end Request

end MibDrivers
