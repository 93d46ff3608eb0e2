import MibDrivers.Generation.Request
import MibDrivers.Proofs.Driver.Header
import MibDrivers.Proofs.Driver.Reading

/-!
# The name of the root class

A source introduces the names of types in two ways: it imports those of the runtime, and it
defines one structure for each class. The names of all classes but the root class are handed out
by a registry, so they are no names of the runtime. The root class has the name that the settings
give it. Settings are accepted if this is an upper case letter with letters, digits and `_` after
it. This lets through `Self`, which is a keyword, and the names of the runtime types, which are
imported. To reserve a name that is reserved already has no effect, so planning does not notice
either.

## Main definitions

* `Driver.introduced`, `Driver.introducedTypes` — the types that lines of a source introduce
* `Driver.typesIn` — the types that a text introduces

## Main results

* `Driver.typesIn_render_of_plan` — the types that the source of a plan introduces
* `Driver.plan_root_definable_iff` — when the root class of a plan can be defined
-/

namespace MibDrivers

/-! ### Accepted settings -/

namespace Settings

variable {settings : Settings} {cs : List Char} {name : String}

theorem isRootName_of_validate (h : settings.validate = .ok ()) :
    isRootName settings.generator.rootName.toList := by
  by_contra hnot
  rw [validate, if_pos (by simpa using hnot)] at h
  cases h

theorem isRuntimePath_of_validate (h : settings.validate = .ok ()) :
    isRuntimePath settings.generator.runtimePath.toList := by
  by_contra hnot
  rw [validate, if_neg (by simpa using isRootName_of_validate h),
    if_pos (by simpa using hnot)] at h
  cases h

/-- What begins a segment may also stand in it. -/
theorem isNameChar_of_isNameStart {c : Char} (h : isNameStart c) : isNameChar c := by
  simp only [isNameStart, isNameChar, Text.isAsciiAlphanumeric, Bool.or_eq_true] at h ⊢
  tauto

/-- The characters of paths. -/
def isPathChar (c : Char) : Bool := isNameChar c || c = ':'

theorem isPathChar_of_isRuntimePath (cs : List Char) :
    isRuntimePath cs → ∀ x ∈ cs, isPathChar x := by
  have hname : ∀ c, isNameChar c → isPathChar c := fun c hc => by simp [isPathChar, hc]
  -- The induction is on the path, where a segment begins and where it goes on.
  refine isRuntimePath.induct (fun cs => isRuntimePath cs → ∀ x ∈ cs, isPathChar x)
    (fun cs => isPathRest cs → ∀ x ∈ cs, isPathChar x) ?_ ?_ ?_ ?_ ?_ cs
  · simp
  · intro c rest ih h
    rw [isRuntimePath, Bool.and_eq_true] at h
    exact List.forall_mem_cons.mpr ⟨hname c (isNameChar_of_isNameStart h.1), ih h.2⟩
  · simp
  · intro rest ih h
    rw [isPathRest] at h
    exact List.forall_mem_cons.mpr ⟨rfl, List.forall_mem_cons.mpr ⟨rfl, ih h⟩⟩
  · intro c rest hcolons ih h
    rw [isPathRest.eq_3 c rest hcolons, Bool.and_eq_true] at h
    exact List.forall_mem_cons.mpr ⟨hname c h.1, ih h.2⟩

/-- An accepted name is an identifier unless it is `Self`, the one word with a capital that the
language keeps. -/
theorem isPlain_rootName_iff (h : isRootName name.toList) :
    Naming.IsPlain name ↔ name ≠ "Self" := by
  constructor
  · rintro hplain rfl
    exact hplain.not_kept (by decide)
  · intro hne
    have hword := fun x => Naming.isWordChar_of_isRootName (x := x) h
    cases hname : name.toList with
    | nil =>
      rw [hname] at h
      cases h
    | cons c rest =>
      rw [hname] at h hword
      simp only [isRootName, Bool.and_eq_true, decide_eq_true_eq] at h
      -- The first letter is a capital, and of the words that are kept only `Self` has one.
      have hcapital : 'A' ≤ c ∧ c ≤ 'Z' := h.1
      refine ⟨⟨c, rest, hname, ?_, fun x hx => hword x (List.mem_cons_of_mem _ hx)⟩, ?_, ?_⟩
      · simp [Naming.isLetter, hcapital]
      · rintro rfl
        obtain rfl : c = '_' := (List.cons.inj hname).1.symm
        exact absurd hcapital (by decide)
      · intro hkept
        have hsmall : ∀ word ∈ Naming.keptWords, word ≠ "Self" →
            word.toList.head?.any (fun d => 'A' ≤ d ∧ d ≤ 'Z') = false := by
          decide
        have hfirst := hsmall name hkept hne
        rw [hname, List.head?_cons, Option.any_some, decide_eq_false_iff_not] at hfirst
        exact hfirst hcapital

end Settings

namespace Driver

open Naming (isWordChar)

variable {line : List Char} {c : Class} {m : Member} {options : Options} {forest : Forest}
  {classes : List Class}

/-! ### Introduced types -/

/-- What stands in the first braces of a text. -/
def inBraces (cs : List Char) : List Char :=
  (cs.dropWhile (· ≠ '\x7b')).tail.takeWhile (· ≠ '\x7d')

/-- The types that a line of a source introduces: those in the braces of an import, or the
structure that it begins to define. -/
def introduced (line : List Char) : List String :=
  match Text.dropPrefix? "use ".toList line, Text.dropPrefix? "pub struct ".toList line with
  | some path, _ =>
    (Text.splitAt ',' (inBraces path)).map fun name => String.ofList (Text.trimChars name)
  | none, some rest => [String.ofList (rest.takeWhile (· ≠ ' '))]
  | none, none => []

/-- The types that lines of a source introduce, in their order. -/
def introducedTypes (lines : List (List Char)) : List String := lines.flatMap introduced

/-- The types that the lines of a text introduce. -/
def typesIn (text : String) : List String := introducedTypes (Text.splitAt '\n' text.toList)

/-- A line introduces nothing unless it begins as an import or a definition does. -/
theorem introduced_eq_nil (h : ∀ x ∈ line.head?, x ≠ 'u' ∧ x ≠ 'p') : introduced line = [] := by
  have hnone : ∀ start : List Char, start.head? = some 'u' ∨ start.head? = some 'p' →
      Text.dropPrefix? start line = none := by
    intro start hstart
    refine Option.eq_none_iff_forall_not_mem.mpr fun rest hrest => ?_
    obtain rfl := Text.dropPrefix?_eq_some_iff.mp hrest
    rcases hstart with hu | hp
    · exact (h 'u' (by rw [List.head?_append, hu]; rfl)).1 rfl
    · exact (h 'p' (by rw [List.head?_append, hp]; rfl)).2 rfl
  rw [introduced, hnone "use ".toList (.inl (by decide)),
    hnone "pub struct ".toList (.inr (by decide))]

theorem inBraces_append {before inside after : List Char} (hbefore : '\x7b' ∉ before)
    (hinside : '\x7d' ∉ inside) :
    inBraces (before ++ '\x7b' :: (inside ++ '\x7d' :: after)) = inside := by
  have hskip : ∀ x ∈ before, decide (x ≠ '\x7b') :=
    fun x hx => decide_eq_true fun heq => hbefore (heq ▸ hx)
  have htake : ∀ x ∈ inside, decide (x ≠ '\x7d') :=
    fun x hx => decide_eq_true fun heq => hinside (heq ▸ hx)
  rw [inBraces, List.dropWhile_append_of_pos hskip, List.dropWhile_cons_of_neg (by simp),
    List.tail_cons, List.takeWhile_append_of_pos htake, List.takeWhile_cons_of_neg (by simp),
    List.append_nil]

/-- An import introduces the types in its braces. -/
theorem introduced_import {path names : List Char} (hpath : '\x7b' ∉ path)
    (hnames : '\x7d' ∉ names) :
    introduced ("use ".toList ++ path ++ "::\x7b".toList ++ names ++ "\x7d;".toList) =
      (Text.splitAt ',' names).map fun name => String.ofList (Text.trimChars name) := by
  have hdrop : Text.dropPrefix? "use ".toList
      ("use ".toList ++ path ++ "::\x7b".toList ++ names ++ "\x7d;".toList) =
      some ((path ++ "::".toList) ++ '\x7b' :: (names ++ '\x7d' :: ";".toList)) := by
    rw [Text.dropPrefix?_eq_some_iff]
    simp
  rw [introduced, hdrop]
  simp only [inBraces_append (show '\x7b' ∉ path ++ "::".toList by simp [hpath]) hnames]

/-- The first line of a structure introduces its name. -/
theorem introduced_struct {name : String} (hname : ∀ x ∈ name.toList, isWordChar x)
    (after : List Char) :
    introduced ("pub struct ".toList ++ name.toList ++ ' ' :: after) = [name] := by
  have huse : Text.dropPrefix? "use ".toList
      ("pub struct ".toList ++ name.toList ++ ' ' :: after) = none := by
    simp [Text.dropPrefix?]
  have hdrop : Text.dropPrefix? "pub struct ".toList
      ("pub struct ".toList ++ name.toList ++ ' ' :: after) =
      some (name.toList ++ ' ' :: after) := by
    rw [Text.dropPrefix?_eq_some_iff]
    simp
  have hword : ∀ x ∈ name.toList, decide (x ≠ ' ') := by
    intro x hx
    rw [decide_eq_true_eq]
    rintro rfl
    exact absurd (hname _ hx) (by decide)
  rw [introduced, huse, hdrop]
  simp only []
  rw [List.takeWhile_append_of_pos hword]
  simp

theorem introducedTypes_nil : introducedTypes [] = [] := rfl

theorem introducedTypes_cons (line : List Char) (lines : List (List Char)) :
    introducedTypes (line :: lines) = introduced line ++ introducedTypes lines :=
  List.flatMap_cons

theorem introducedTypes_append (first second : List (List Char)) :
    introducedTypes (first ++ second) = introducedTypes first ++ introducedTypes second :=
  List.flatMap_append

/-- Lines introduce nothing unless one begins as an import or a definition does. -/
theorem introducedTypes_eq_nil {lines : List (List Char)}
    (h : ∀ line ∈ lines, ∀ x ∈ line.head?, x ≠ 'u' ∧ x ≠ 'p') : introducedTypes lines = [] :=
  List.flatMap_eq_nil_iff.mpr fun line hline => introduced_eq_nil (h line hline)

theorem head?_of_docMark_prefix (indent : List Char) (hindent : ∀ x ∈ indent, x = ' ')
    (h : docMark indent <+: line) : ∀ x ∈ line.head?, x ≠ 'u' ∧ x ≠ 'p' := by
  obtain ⟨after, rfl⟩ := h
  cases indent with
  | nil => simp [docMark]
  | cons c rest =>
    obtain rfl := hindent c List.mem_cons_self
    simp [docMark]

/-- The lines of a member introduce nothing. -/
theorem introducedTypes_memberLines (m : Member) : introducedTypes (memberLines m) = [] := by
  refine introducedTypes_eq_nil fun line hline => ?_
  rw [memberLines_eq, List.mem_append, List.mem_cons] at hline
  rcases hline with hdocs | rfl | hbody
  · exact head?_of_docMark_prefix "    ".toList (by simp) (docMark_prefix_of_mem_docLines hdocs)
  · unfold Member.headline
    simp
  · have hall : ∀ line ∈ m.target.body, ∀ x ∈ line.head?, x ≠ 'u' ∧ x ≠ 'p' := by
      cases m.target <;> unfold Target.body <;> simp
    exact hall line hbody

/-- The lines of a class introduce the class. -/
theorem introducedTypes_classLines (hname : ∀ x ∈ c.name.toList, isWordChar x) :
    introducedTypes (classLines c) = [c.name] := by
  have hdocs : introducedTypes (classDocLines c) = [] := introducedTypes_eq_nil fun _ hline =>
    head?_of_docMark_prefix [] (by simp) (docMark_prefix_of_mem_classDocLines hline)
  have hmembers : introducedTypes (c.members.flatMap fun m => [] :: memberLines m) = [] := by
    rw [introducedTypes, List.flatMap_assoc, List.flatMap_eq_nil_iff]
    intro m hm
    rw [List.flatMap_cons, introduced_eq_nil (by simp), List.nil_append]
    exact introducedTypes_memberLines m
  have hdriver : introducedTypes (driverLines c) = [] := by
    refine introducedTypes_eq_nil ?_
    unfold driverLines
    cases c.kind <;> simp
  have hclose : introducedTypes ["\x7d".toList] = [] := introducedTypes_eq_nil (by simp)
  -- Of the lines with code only the second one defines a type.
  have hcode : introducedTypes [
      "#[derive(Clone)]".toList,
      "pub struct ".toList ++ c.name.toList ++ " \x7b".toList,
      "    ctx: ".toList ++ contextType.toList ++ ",".toList,
      "\x7d".toList,
      [],
      "impl ".toList ++ c.name.toList ++ " \x7b".toList,
      "    pub fn new(ctx: ".toList ++ contextType.toList ++ ") -> Self \x7b".toList,
      "        Self \x7b ctx \x7d".toList,
      "    \x7d".toList] = [c.name] := by
    have hstruct : introduced ("pub struct ".toList ++ c.name.toList ++ " \x7b".toList) =
        [c.name] := introduced_struct hname _
    rw [introducedTypes_cons, introducedTypes_cons, hstruct,
      introduced_eq_nil (by simp), introducedTypes_eq_nil (by simp), List.append_nil,
      List.nil_append]
  rw [classLines, introducedTypes_append, introducedTypes_append, introducedTypes_append,
    introducedTypes_append, hdocs, hcode, hmembers, hclose, hdriver]
  rfl

/-- The types in the import of a source, in its order. -/
def importedTypes : List String := [readOnlyType, readWriteType, contextType, driverTrait]

/-- The header of a source introduces the types of the runtime, after its first line. -/
theorem introducedTypes_headerLines (hpath : Settings.isRuntimePath options.runtimePath.toList) :
    introducedTypes (headerLines options).tail = importedTypes := by
  have hbrace : '\x7b' ∉ options.runtimePath.toList := by
    intro hmem
    exact absurd (Settings.isPathChar_of_isRuntimePath _ hpath _ hmem) (by decide)
  have himport := introduced_import hbrace
    (show '\x7d' ∉ Text.joinWith ", ".toList (importedTypes.map String.toList) by decide)
  have hnames : (Text.splitAt ',' (Text.joinWith ", ".toList (importedTypes.map String.toList))).map
      (fun name => String.ofList (Text.trimChars name)) = importedTypes := by
    decide +kernel
  rw [hnames] at himport
  rw [headerLines, List.tail_cons, introducedTypes_cons, introduced_eq_nil (by simp),
    introducedTypes_cons, introduced_eq_nil (by simp), introducedTypes_cons, introducedTypes_nil,
    List.append_nil, List.nil_append, List.nil_append]
  exact himport

theorem feed_not_mem_headerLines (hpath : Settings.isRuntimePath options.runtimePath.toList) :
    ∀ line ∈ (headerLines options).tail, '\n' ∉ line := by
  have hfeed : '\n' ∉ options.runtimePath.toList :=
    feed_not_mem (Settings.isPathChar_of_isRuntimePath _ hpath) (by decide)
  have htypes : '\n' ∉ Text.joinWith ", ".toList
      ([readOnlyType, readWriteType, contextType, driverTrait].map String.toList) := by
    decide
  rw [headerLines, List.tail_cons]
  simp only [List.forall_mem_cons, List.mem_append, hfeed, htypes]
  simp

/-- The source of a plan introduces what the lines of its header comment do, the types of the
runtime, and its classes. -/
theorem typesIn_render_of_plan (h : plan options forest = .ok classes)
    (hroot : Settings.isRootName options.rootName.toList)
    (hpath : Settings.isRuntimePath options.runtimePath.toList) (moduleName : Option String) :
    typesIn (render classes { options with moduleName := moduleName }) =
      introducedTypes (Text.splitAt '\n' (headline moduleName)) ++
        (importedTypes ++ classes.map (·.name)) := by
  have hregular : ∀ c ∈ classes, c.Regular := fun c => plan_regular h hroot
  have hclasses : ∀ {ds : List Class}, (∀ d ∈ ds, d.Regular) →
      introducedTypes (ds.flatMap fun d => [] :: classLines d) = ds.map (·.name) := by
    intro ds hds
    induction ds with
    | nil => rfl
    | cons d rest ih =>
      obtain ⟨hd, hrest⟩ := List.forall_mem_cons.mp hds
      rw [List.flatMap_cons, introducedTypes_append, introducedTypes_cons,
        introduced_eq_nil (by simp), introducedTypes_classLines hd.name, ih hrest]
      rfl
  have htail : (sourceLines classes options).tail =
      (headerLines options).tail ++ classes.flatMap fun d => [] :: classLines d := by
    rw [sourceLines, sourceOrder_eq_of_plan h]
    rfl
  have hfeed : ∀ line ∈ (sourceLines classes options).tail, '\n' ∉ line := by
    rw [htail]
    exact List.forall_mem_append.mpr
      ⟨feed_not_mem_headerLines hpath, feed_not_mem_classLines hregular⟩
  have hempty : introducedTypes [[]] = [] := introducedTypes_eq_nil (by simp)
  rw [typesIn, toList_render, sourceLines_eq, Text.joinLines_cons, Text.splitAt_append_separator,
    Text.splitAt_joinLines hfeed, htail, introducedTypes_append, introducedTypes_append,
    introducedTypes_append, introducedTypes_headerLines hpath, hclasses hregular, hempty,
    List.append_nil]

/-- A comment of one line introduces nothing, -/
theorem introducedTypes_headline {moduleName : Option String}
    (h : ∀ name ∈ moduleName, '\n' ∉ name.toList) :
    introducedTypes (Text.splitAt '\n' (headline moduleName)) = [] := by
  have hline : '\n' ∉ headline moduleName := by
    cases moduleName with
    | none => decide
    | some name =>
      have hstart : '\n' ∉ headerStart.toList := by decide
      have hend : '\n' ∉ headerEnd.toList := by decide
      simp [headline, hstart, h name rfl, hend]
  have hslash : (headline moduleName).head? = some '/' := by
    cases moduleName with
    | none => decide
    | some name =>
      have hstart : headerStart.toList.head? = some '/' := by decide
      rw [headline, List.head?_append, hstart]
      rfl
  rw [Text.splitAt_of_not_mem hline]
  refine introducedTypes_eq_nil fun line hmem => ?_
  rw [List.mem_singleton.mp hmem, hslash]
  simp

/-- but a name of several lines can define a type. -/
theorem mem_introducedTypes_headline {name : String} (hname : ∀ x ∈ name.toList, isWordChar x)
    (before after : List Char) :
    name ∈ introducedTypes (Text.splitAt '\n' (headline (some (String.ofList
      (before ++ '\n' :: ("pub struct ".toList ++ name.toList ++ ' ' :: after)))))) := by
  have hline : '\n' ∉ "pub struct ".toList ++ name.toList := by
    have hfeed : '\n' ∉ name.toList := feed_not_mem hname (by decide)
    simp [hfeed]
  have htext : headline (some (String.ofList
      (before ++ '\n' :: ("pub struct ".toList ++ name.toList ++ ' ' :: after)))) =
      (headerStart.toList ++ before) ++ '\n' ::
        ("pub struct ".toList ++ name.toList ++ ' ' :: (after ++ headerEnd.toList)) := by
    simp [headline]
  obtain ⟨piece, pieces, hpieces⟩ :=
    Text.exists_splitAt_eq_cons '\n' (after ++ headerEnd.toList)
  have hspace : Text.splitAt '\n' (' ' :: (after ++ headerEnd.toList)) =
      (' ' :: piece) :: pieces := by
    rw [Text.splitAt_cons_of_ne (by decide), hpieces]
    rfl
  rw [htext, Text.splitAt_append_separator, Text.splitAt_append_of_not_mem hline, hspace,
    introducedTypes_append, introducedTypes_cons]
  refine List.mem_append_right _ (List.mem_append_left _ ?_)
  exact (introduced_struct hname piece).symm ▸ List.mem_singleton_self name

/-! ### The root class -/

variable {settings : Settings} {dumpFile? : Option String} {request : Request}

/-- From accepted settings, the root class of a plan has a name that no other class has. It is an
identifier unless it is `Self`. If the name of the module is of one line, all types that the source
introduces have different names unless the root class is called like a type of the runtime. A
module name of several lines can define the root class once more. -/
theorem plan_root_definable_iff (hvalid : settings.validate = .ok ())
    (hrequest : Request.ofSettings settings dumpFile? = .ok request)
    (hplan : plan request.options forest = .ok classes) :
    ∃ root, classes.getLast? = some root ∧ root.kind = .root ∧
      root.name = settings.generator.rootName ∧ (classes.map (·.name)).Nodup ∧
      (Naming.IsPlain root.name ↔ root.name ≠ "Self") ∧
      (∀ moduleName : Option String, (∀ name ∈ moduleName, '\n' ∉ name.toList) →
        ((typesIn (render classes { request.options with moduleName := moduleName })).Nodup ↔
          root.name ∉ runtimeTypes)) ∧
      ∀ before after, ¬ (typesIn (render classes { request.options with
        moduleName := some (String.ofList (before ++ '\n' ::
          ("pub struct ".toList ++ root.name.toList ++ ' ' :: after))) })).Nodup := by
  have hroot := Settings.isRootName_of_validate hvalid
  have hpath := Settings.isRuntimePath_of_validate hvalid
  obtain ⟨source, -, hmade⟩ := bind_eq_ok.mp hrequest
  obtain rfl := Except.ok.inj hmade
  obtain ⟨planned, root, -, hmirrors, rfl, hname, hkind, -, -⟩ := exists_laid_of_plan hplan
  have hnodup := hmirrors.nodup_names hname
  -- What is imported is what the registry has reserved, in another order.
  have hruntime : ∀ name, name ∈ importedTypes ↔ name ∈ runtimeTypes := by
    intro name
    refine List.Perm.mem_iff ?_
    decide
  refine ⟨root, List.getLast?_concat, hkind, hname, hnodup, ?_, ?_, ?_⟩
  · rw [hname]
    exact Settings.isPlain_rootName_iff hroot
  · intro moduleName hmodule
    rw [typesIn_render_of_plan hplan hroot hpath, introducedTypes_headline hmodule,
      List.nil_append, List.nodup_append]
    constructor
    · rintro ⟨-, -, hapart⟩ hmem
      exact hapart root.name ((hruntime _).mpr hmem) root.name (by simp) rfl
    · intro hnot
      refine ⟨by decide, hnodup, ?_⟩
      rintro name himported other hother rfl
      rw [List.map_append, List.mem_append] at hother
      rcases hother with hclass | hlast
      · -- The names of the other classes were handed out when those of the runtime were taken.
        refine hmirrors.names.free name hclass (taken_classNames.mpr ?_)
        exact List.mem_cons_of_mem _ ((hruntime name).mp himported)
      · rw [List.mem_singleton.mp hlast] at himported
        exact hnot ((hruntime _).mp himported)
  · intro before after htypes
    rw [typesIn_render_of_plan hplan hroot hpath] at htypes
    have hword : ∀ x ∈ root.name.toList, isWordChar x := by
      rw [hname]
      exact fun x => Naming.isWordChar_of_isRootName hroot
    -- The class is introduced by the header and then by its own lines.
    exact List.disjoint_of_nodup_append htypes (mem_introducedTypes_headline hword before after)
      (by simp)

/-- Settings with a name for the root class, and perhaps one for the module. -/
def settingsNaming (rootName : String) (moduleName : Option String) : Settings :=
  { mib := { moduleName }, generator := { rootName } }

/-- What `settingsNaming` request, with a file for the dump. -/
def requestNaming (rootName : String) (moduleName : Option String) : Request where
  source := .file "dump.json"
  expected := moduleName
  excluded := ["uhp", "uhpV32"]
  options := { rootName, moduleName }

/-- The plan for an empty forest. -/
def rootOnly (rootName : String) : List Class :=
  [{ name := rootName, kind := .root, oid := none, description := "", members := [] }]

theorem ofSettings_settingsNaming (rootName : String) (moduleName : Option String) :
    Request.ofSettings (settingsNaming rootName moduleName) (some "dump.json") =
      .ok (requestNaming rootName moduleName) :=
  rfl

theorem plan_empty (rootName : String) (moduleName : Option String) :
    plan (requestNaming rootName moduleName).options ⟨[]⟩ = .ok (rootOnly rootName) := by
  rw [plan, planSiblings]
  rfl

theorem plan_root_definable_default :
    ((settingsNaming "MibDriver" (some "A-MIB")).validate = .ok () ∧
      plan (requestNaming "MibDriver" (some "A-MIB")).options ⟨[]⟩ =
        .ok (rootOnly "MibDriver")) ∧
    Naming.IsPlain "MibDriver" ∧
    (typesIn (render (rootOnly "MibDriver")
      (requestNaming "MibDriver" (some "A-MIB")).options)).Nodup := by
  have hvalid : (settingsNaming "MibDriver" (some "A-MIB")).validate = .ok () := by decide +kernel
  have hplan := plan_empty "MibDriver" (some "A-MIB")
  obtain ⟨root, hlast, -, hname, -, hplain, hnodup, -⟩ :=
    plan_root_definable_iff hvalid (ofSettings_settingsNaming _ _) hplan
  have hname : root.name = "MibDriver" := hname
  have hmodule : ∀ name ∈ some "A-MIB", '\n' ∉ name.toList := by
    rintro name ⟨⟩
    decide
  rw [hname] at hplain hnodup
  exact ⟨⟨hvalid, hplan⟩, hplain.mpr (by decide), (hnodup _ hmodule).mpr (by decide)⟩

/-- Accepted settings make a root class that is called by a keyword, or one whose name the source
imports or, by way of the name of the module, defines as well. -/
theorem plan_root_not_definable :
    ((settingsNaming "Self" none).validate = .ok () ∧
      plan (requestNaming "Self" none).options ⟨[]⟩ = .ok (rootOnly "Self") ∧
      ¬ Naming.IsPlain "Self") ∧
    ((settingsNaming "RoLeaf" none).validate = .ok () ∧
      plan (requestNaming "RoLeaf" none).options ⟨[]⟩ = .ok (rootOnly "RoLeaf") ∧
      ¬ (typesIn (render (rootOnly "RoLeaf") (requestNaming "RoLeaf" none).options)).Nodup) ∧
    ((settingsNaming "MibDriver" (some "A-MIB\npub struct MibDriver \x7b\x7d\n//")).validate =
        .ok () ∧
      plan (requestNaming "MibDriver"
          (some "A-MIB\npub struct MibDriver \x7b\x7d\n//")).options ⟨[]⟩ =
        .ok (rootOnly "MibDriver") ∧
      ¬ (typesIn (render (rootOnly "MibDriver") (requestNaming "MibDriver"
        (some "A-MIB\npub struct MibDriver \x7b\x7d\n//")).options)).Nodup) := by
  have hpath : Settings.isRuntimePath "crate::snmp".toList := by decide +kernel
  have hleaf := typesIn_render_of_plan (plan_empty "RoLeaf" none) (by decide) hpath none
  have hdriver := typesIn_render_of_plan (plan_empty "MibDriver" none) (by decide) hpath
    (some "A-MIB\npub struct MibDriver \x7b\x7d\n//")
  refine ⟨⟨by decide +kernel, plan_empty _ _, fun h => h.not_kept (by decide)⟩,
    ⟨by decide +kernel, plan_empty _ _, fun hnodup => ?_⟩,
    ⟨by decide +kernel, plan_empty _ _, fun hnodup => ?_⟩⟩
  · exact absurd (hleaf ▸ hnodup) (by decide +kernel)
  · exact absurd (hdriver ▸ hnodup) (by decide +kernel)

end Driver

end MibDrivers
