import MibDrivers.Proofs.Driver.Docs
import MibDrivers.Proofs.Driver.Spelling

/-!
# Reading a plan off its source

A source is a row of blocks, and each block shows where it ends: a doc comment before the first
line without its mark, the name of a method before the bracket, a method before an empty line or
the bracket that closes its class. So whatever follows a block, the block determines the class or
the member that it was made for, up to what the source does not show. Of a description this is
how its lines are indented and which empty lines are around them.

What the kind of a class is, is not written out either. It follows from its members, and for the
root class from the missing identifier.

## Main definitions

* `Driver.Member.Agrees`, `Driver.Class.Agrees` — equal up to what descriptions do not say

## Main results

* `Driver.memberLines_append`, `Driver.classLines_append` — a block determines its origin
* `Driver.render_eq_iff` — two plans have one source exactly if they agree
-/

namespace MibDrivers

namespace Driver

open Naming (isWordChar isMethodChar)

/-! ### Blocks -/

section Blocks

variable {α β : Type} {xs ys : List α} {x y : α} {rest others : List α}

/-- Two rows of elements with a property, each with one without it after them, are the same
exactly if they are up to there and from there on. -/
theorem append_cons_inj {p : α → Prop} (hxs : ∀ a ∈ xs, p a) (hys : ∀ a ∈ ys, p a) (hx : ¬ p x)
    (hy : ¬ p y) :
    xs ++ x :: rest = ys ++ y :: others ↔ xs = ys ∧ x = y ∧ rest = others := by
  induction xs generalizing ys with
  | nil =>
    cases ys with
    | nil => simp
    | cons b ys =>
      have hb : x ≠ b := fun h => hx (h ▸ hys b List.mem_cons_self)
      simp [hb]
  | cons a xs ih =>
    cases ys with
    | nil =>
      have ha : a ≠ y := fun h => hy (h ▸ hxs a List.mem_cons_self)
      simp [ha]
    | cons b ys =>
      obtain ⟨-, hxs⟩ := List.forall_mem_cons.mp hxs
      obtain ⟨-, hys⟩ := List.forall_mem_cons.mp hys
      rw [List.cons_append, List.cons_append, List.cons.injEq, ih hxs hys, List.cons.injEq,
        and_assoc]

/-- If a block determines what it was made for and where it ends, so does a row of blocks that
each begin with a mark, as long as what follows does not begin with the mark. -/
theorem flatMap_append {p : α → Prop} {R : α → α → Prop} {block : α → List β} {mark : β}
    {after later : List β}
    (hblock : ∀ x y, p x → p y → ∀ after later, block x ++ after = block y ++ later →
      R x y ∧ after = later)
    (hxs : ∀ x ∈ xs, p x) (hys : ∀ y ∈ ys, p y) (hafter : after.head? ≠ some mark)
    (hlater : later.head? ≠ some mark)
    (h : (xs.flatMap fun x => mark :: block x) ++ after =
      (ys.flatMap fun y => mark :: block y) ++ later) :
    List.Forall₂ R xs ys ∧ after = later := by
  induction xs generalizing ys with
  | nil =>
    cases ys with
    | nil => exact ⟨.nil, h⟩
    | cons y ys => exact absurd (congrArg List.head? h) hafter
  | cons x xs ih =>
    cases ys with
    | nil => exact absurd (congrArg List.head? h).symm hlater
    | cons y ys =>
      obtain ⟨hx, hxs⟩ := List.forall_mem_cons.mp hxs
      obtain ⟨hy, hys⟩ := List.forall_mem_cons.mp hys
      simp only [List.flatMap_cons, List.cons_append, List.append_assoc] at h
      obtain ⟨hfirst, h⟩ := hblock x y hx hy _ _ (List.cons.inj h).2
      obtain ⟨hrest, hend⟩ := ih hxs hys h
      exact ⟨.cons hfirst hrest, hend⟩

theorem flatMap_congr {R : α → α → Prop} {block : α → List β} (h : List.Forall₂ R xs ys)
    (hblock : ∀ x y, R x y → block x = block y) : xs.flatMap block = ys.flatMap block := by
  induction h with
  | nil => rfl
  | cons hfirst _ ih => rw [List.flatMap_cons, List.flatMap_cons, hblock _ _ hfirst, ih]

end Blocks

/-! ### What a source shows -/

/-- Two members offer the same under one name, and their descriptions say the same. -/
structure Member.Agrees (m n : Member) : Prop where
  method : m.method = n.method
  target : m.target = n.target
  description : paragraphs m.description = paragraphs n.description

/-- Two classes stand for the same under one name, their members agree in their order, and their
descriptions say the same. -/
structure Class.Agrees (c d : Class) : Prop where
  name : c.name = d.name
  kind : c.kind = d.kind
  oid : c.oid = d.oid
  description : paragraphs c.description = paragraphs d.description
  members : List.Forall₂ Member.Agrees c.members d.members

variable {m n : Member} {c d : Class} {target target' : Target} {rest rest' : List (List Char)}

/-! ### Members -/

theorem typeName_injective : Function.Injective LeafKind.typeName := by
  intro kind kind' h
  cases kind <;> cases kind' <;> first | rfl | exact absurd h (by decide)

/-- The parameters of a method. -/
def Target.parameters : Target → String
  | .child _ => "&self"
  | .leaf .. => "&self, index: Option<u32>"

/-- The type of what a method gives. -/
def Target.typeName : Target → String
  | .child name => name
  | .leaf kind _ => kind.typeName

/-- The lines of a method after the first one. -/
def Target.body : Target → List (List Char)
  | .child name => ["        ".toList ++ name.toList ++ "::new(self.ctx.clone())".toList,
      "    \x7d".toList]
  | .leaf kind oid => [
      "        let oid = format!(\"".toList ++ oid.dottedChars ++
        ".\x7b\x7d\", index.unwrap_or(0));".toList,
      "        ".toList ++ kind.typeName.toList ++ (match kind with
        | .readOnly => "::new(oid, self.ctx.getter())".toList
        | .readWrite => "::new(oid, self.ctx.getter(), self.ctx.setter())".toList),
      "    \x7d".toList]

/-- The first line of a method. -/
def Member.headline (m : Member) : List Char :=
  "    pub fn ".toList ++ (m.method.toList ++ '(' :: (m.target.parameters.toList ++ ')' ::
    (" -> ".toList ++ m.target.typeName.toList ++ " \x7b".toList)))

theorem memberLines_eq (m : Member) :
    memberLines m =
      docLines "    ".toList m.description ++ m.headline :: m.target.body := by
  have hchild : "(&self) -> ".toList = '(' :: ("&self".toList ++ ')' :: " -> ".toList) := by
    decide
  have hleaf : "(&self, index: Option<u32>) -> ".toList =
      '(' :: ("&self, index: Option<u32>".toList ++ ')' :: " -> ".toList) := by
    decide
  unfold memberLines Member.headline
  cases m.target with
  | child name =>
    simp only [Target.parameters, Target.typeName, hchild, List.append_assoc, List.cons_append]
    rfl
  | leaf kind oid =>
    simp only [Target.parameters, Target.typeName, hleaf, List.append_assoc, List.cons_append]
    rfl

theorem ne_close_of_mem_parameters (target : Target) :
    ∀ x ∈ target.parameters.toList, x ≠ ')' := by
  cases target <;> simp [Target.parameters]

/-- A method determines what it leads to. -/
theorem Target.eq_of_lines (hparameters : target.parameters = target'.parameters)
    (htype : target.typeName = target'.typeName)
    (hbody : target.body ++ rest = target'.body ++ rest') : target = target' ∧ rest = rest' := by
  cases target with
  | child name =>
    cases target' with
    | child name' =>
      obtain rfl : name = name' := htype
      exact ⟨rfl, List.append_cancel_left hbody⟩
    | leaf kind' oid' => simp [parameters] at hparameters
  | leaf kind oid =>
    cases target' with
    | child name' => simp [parameters] at hparameters
    | leaf kind' oid' =>
      obtain rfl : kind = kind' := typeName_injective htype
      obtain ⟨hoid, hbody⟩ := List.cons.inj hbody
      rw [List.append_cancel_right_eq, List.append_cancel_left_eq] at hoid
      exact ⟨by rw [Oid.dottedChars_injective hoid], (List.cons.inj (List.cons.inj hbody).2).2⟩

/-- A method is no line of a doc comment. -/
theorem not_docMark_prefix_headline (m : Member) : ¬ docMark "    ".toList <+: m.headline := by
  rintro ⟨after, h⟩
  unfold docMark Member.headline at h
  simp at h

/-- The lines of a member determine it, whatever follows them. -/
theorem memberLines_append (hm : ∀ x ∈ m.method.toList, isMethodChar x)
    (hn : ∀ x ∈ n.method.toList, isMethodChar x)
    (h : memberLines m ++ rest = memberLines n ++ rest') : m.Agrees n ∧ rest = rest' := by
  rw [memberLines_eq, memberLines_eq, List.append_assoc, List.append_assoc, List.cons_append,
    List.cons_append] at h
  obtain ⟨hdocs, hline, hbody⟩ :=
    (append_cons_inj (fun _ => docMark_prefix_of_mem_docLines)
      (fun _ => docMark_prefix_of_mem_docLines) (not_docMark_prefix_headline m)
      (not_docMark_prefix_headline n)).mp h
  -- The name of the method ends at the first character that is in no name.
  obtain ⟨hmethod, -, hsignature⟩ :=
    (append_cons_inj hm hn (by decide) (by decide)).mp (List.append_cancel_left hline)
  -- The parameters end at the bracket, and the type is between fixed texts.
  obtain ⟨hparameters, -, htype⟩ :=
    (append_cons_inj (p := (· ≠ ')')) (ne_close_of_mem_parameters m.target)
      (ne_close_of_mem_parameters n.target) (by simp) (by simp)).mp hsignature
  rw [List.append_cancel_right_eq, List.append_cancel_left_eq] at htype
  obtain ⟨htarget, hrest⟩ := Target.eq_of_lines (String.toList_inj.mp hparameters)
    (String.toList_inj.mp htype) hbody
  exact ⟨⟨String.toList_inj.mp hmethod, htarget, docLines_inj.mp hdocs⟩, hrest⟩

theorem Member.Agrees.memberLines_eq (h : m.Agrees n) : memberLines m = memberLines n := by
  rw [Driver.memberLines_eq, Driver.memberLines_eq, docLines_inj.mpr h.description]
  unfold headline
  rw [h.method, h.target]

/-! ### Classes -/

/-- Regular classes with one identifier and members that agree are of one kind. -/
theorem Class.Regular.kind_eq (hc : c.Regular) (hd : d.Regular) (hoid : c.oid = d.oid)
    (hmembers : List.Forall₂ Member.Agrees c.members d.members) : c.kind = d.kind := by
  have hleads : (∃ m ∈ c.members, ∃ name, m.target = .child name) ↔
      ∃ m ∈ d.members, ∃ name, m.target = .child name := by
    constructor
    · rintro ⟨m, hm, name, htarget⟩
      obtain ⟨n, hn, hagrees⟩ := exists_of_forall₂ hmembers hm
      exact ⟨n, hn, name, hagrees.target ▸ htarget⟩
    · rintro ⟨n, hn, name, htarget⟩
      obtain ⟨m, hm, hagrees⟩ := exists_of_forall₂ hmembers.flip hn
      exact ⟨m, hm, name, hagrees.target ▸ htarget⟩
  -- The root class is the one without identifier, and of the others the groups lead to classes.
  by_cases hnone : c.oid = none
  · rw [hc.root.mpr hnone, hd.root.mpr (hoid ▸ hnone)]
  · have hcroot : c.kind ≠ .root := fun h => hnone (hc.root.mp h)
    have hdroot : d.kind ≠ .root := fun h => hnone (hoid ▸ hd.root.mp h)
    have hgroup := ((hc.group hcroot).trans hleads).trans (hd.group hdroot).symm
    cases hkind : c.kind <;> cases hkind' : d.kind <;> simp_all

/-- The lines of a class determine it, whatever follows them. -/
theorem classLines_append (hc : c.Regular) (hd : d.Regular)
    (h : classLines c ++ rest = classLines d ++ rest') : c.Agrees d ∧ rest = rest' := by
  -- The doc comment ends before the first line without the mark.
  have hderive : ¬ docMark [] <+: "#[derive(Clone)]".toList := by decide
  simp only [classLines, List.append_assoc, List.cons_append, List.nil_append] at h
  obtain ⟨hdocs, -, hlines⟩ := (append_cons_inj (fun _ => docMark_prefix_of_mem_classDocLines)
    (fun _ => docMark_prefix_of_mem_classDocLines) hderive hderive).mp h
  obtain ⟨hoid, hdescription⟩ := (classDocLines_inj hc.undescribed hd.undescribed).mp hdocs
  simp only [List.cons.injEq, List.append_cancel_left_eq, List.append_cancel_right_eq,
    String.toList_inj, true_and] at hlines
  obtain ⟨hname, -, hlines⟩ := hlines
  -- A method comes after an empty line, and the bracket that closes the class is none.
  obtain ⟨hmembers, hclose⟩ := flatMap_append
    (fun m n hm hn _ _ => memberLines_append hm hn) hc.methods hd.methods (by simp) (by simp) hlines
  have hkind := hc.kind_eq hd hoid hmembers
  have hdriver : driverLines c = driverLines d := by rw [driverLines, driverLines, hkind, hname]
  rw [hdriver] at hclose
  exact ⟨⟨hname, hkind, hoid, hdescription, hmembers⟩,
    List.append_cancel_left (List.cons.inj hclose).2⟩

theorem Class.Agrees.classLines_eq (h : c.Agrees d) : classLines c = classLines d := by
  have hdriver : driverLines c = driverLines d := by rw [driverLines, driverLines, h.kind, h.name]
  have hmembers := flatMap_congr h.members fun m n hagree =>
    congrArg (List.cons []) hagree.memberLines_eq
  rw [classLines, classLines, classDocLines_congr h.oid h.description, hdriver, h.name, hmembers]

/-! ### Line feeds -/

theorem feed_not_mem {p : Char → Bool} {cs : List Char} (h : ∀ x ∈ cs, p x)
    (hp : p '\n' = false) : '\n' ∉ cs := by
  intro hmem
  rw [h _ hmem] at hp
  cases hp

theorem feed_not_mem_headline (hm : '\n' ∉ m.method.toList)
    (htype : '\n' ∉ m.target.typeName.toList) : '\n' ∉ m.headline := by
  have hparameters : '\n' ∉ m.target.parameters.toList := by
    cases m.target <;> simp [Target.parameters]
  unfold Member.headline
  simp [hm, htype, hparameters]

theorem feed_not_mem_body (htype : '\n' ∉ target.typeName.toList) :
    ∀ line ∈ target.body, '\n' ∉ line := by
  cases target with
  | child name =>
    unfold Target.body
    simpa [Target.typeName] using htype
  | leaf kind oid =>
    have hoid := Oid.feed_not_mem_dottedChars oid
    unfold Target.body
    cases kind <;> simpa [hoid, Target.typeName] using htype

/-- Every type in a class is spelled in words. -/
theorem Class.Regular.isWordChar_typeName (hc : c.Regular) (hm : m ∈ c.members) :
    ∀ x ∈ m.target.typeName.toList, isWordChar x := by
  cases htarget : m.target with
  | child name => exact hc.children m hm name htarget
  | leaf kind oid =>
    have hall : ∀ name ∈ runtimeTypes, name.toList.all isWordChar := by decide
    refine List.all_eq_true.mp (hall kind.typeName ?_)
    cases kind <;> decide

/-- The lines of a regular class have no line feeds. -/
theorem Class.Regular.feed_not_mem (hc : c.Regular) : ∀ line ∈ classLines c, '\n' ∉ line := by
  have hname : '\n' ∉ c.name.toList := Driver.feed_not_mem hc.name (by decide)
  have hmembers : ∀ line ∈ c.members.flatMap fun m => [] :: memberLines m, '\n' ∉ line := by
    intro line hline
    obtain ⟨m, hm, hline⟩ := List.mem_flatMap.mp hline
    have hmethod : '\n' ∉ m.method.toList := Driver.feed_not_mem (hc.methods m hm) (by decide)
    have htype : '\n' ∉ m.target.typeName.toList :=
      Driver.feed_not_mem (hc.isWordChar_typeName hm) (by decide)
    rw [memberLines_eq, List.mem_cons, List.mem_append, List.mem_cons] at hline
    rcases hline with rfl | hdocs | rfl | hbody
    · exact List.not_mem_nil
    · exact not_mem_of_mem_docLines (by decide) hdocs
    · exact feed_not_mem_headline hmethod htype
    · exact feed_not_mem_body htype line hbody
  have hdriver : ∀ line ∈ driverLines c, '\n' ∉ line := by
    unfold driverLines driverTrait contextType
    cases c.kind <;> simp [hname]
  unfold classLines contextType
  simp only [List.forall_mem_append, List.forall_mem_cons]
  refine ⟨⟨⟨⟨fun _ => feed_not_mem_classDocLines, ?_⟩, hmembers⟩, by simp⟩, hdriver⟩
  simp [hname]

/-- Nor have those of regular classes. -/
theorem feed_not_mem_classLines {ds : List Class} (hds : ∀ d ∈ ds, d.Regular) :
    ∀ line ∈ ds.flatMap fun d => [] :: classLines d, '\n' ∉ line := by
  intro line hline
  obtain ⟨d, hd, hline⟩ := List.mem_flatMap.mp hline
  rcases List.mem_cons.mp hline with rfl | hline
  · exact List.not_mem_nil
  · exact (hds d hd).feed_not_mem line hline

/-! ### Whole sources -/

variable {options : Options} {forest forest' : Forest} {classes classes' : List Class}

/-- The root class of a plan comes last in the source, as in the plan. -/
theorem sourceOrder_eq_of_plan (h : plan options forest = .ok classes) :
    sourceOrder classes = classes := by
  obtain ⟨planned, root, -, hmade, rfl, -, hkind, -, -⟩ := exists_laid_of_plan h
  have hnone : planned.classes.filter (·.kind = .root) = [] := by
    rw [List.filter_eq_nil_iff]
    intro c hc
    obtain ⟨b, -, hmirrors⟩ := exists_of_forall₂ hmade.classes hc
    simpa using hmirrors.kind_ne_root
  rw [sourceOrder, hmade.filter_kind hkind, List.filter_append, hnone, List.nil_append,
    List.filter_cons_of_pos (by simp [hkind]), List.filter_nil]

/-- The text of a source is that of its header and that of its classes. -/
theorem toList_render_of_plan (h : plan options forest = .ok classes) :
    (render classes options).toList =
      Text.joinLines (headerLines options) ++
        Text.joinLines (classes.flatMap fun c => [] :: classLines c) := by
  rw [toList_render, sourceLines, sourceOrder_eq_of_plan h, Text.joinLines_append]

/-- Two plans with the same options have one source exactly if they have as many classes and
these agree in their order, as long as the name of the root class is one. -/
theorem render_eq_iff (hroot : Settings.isRootName options.rootName.toList)
    (h : plan options forest = .ok classes) (h' : plan options forest' = .ok classes') :
    render classes options = render classes' options ↔
      List.Forall₂ Class.Agrees classes classes' := by
  have hregular : ∀ c ∈ classes, c.Regular := fun c => plan_regular h hroot
  have hregular' : ∀ c ∈ classes', c.Regular := fun c => plan_regular h' hroot
  rw [← String.toList_inj, toList_render_of_plan h, toList_render_of_plan h',
    List.append_cancel_left_eq]
  constructor
  · intro heq
    -- No line has a line feed, so the texts have the same lines.
    have hlines := Text.joinLines_injective (feed_not_mem_classLines hregular)
      (feed_not_mem_classLines hregular') heq
    rw [← List.append_nil (classes.flatMap _), ← List.append_nil (classes'.flatMap _)] at hlines
    exact (flatMap_append (fun c d hc hd _ _ => classLines_append hc hd) hregular hregular'
      (by simp) (by simp) hlines).1
  · intro hagree
    rw [flatMap_congr hagree fun c d hclass => congrArg (List.cons []) hclass.classLines_eq]

/-- A forest of one branch, with a leaf and a description. -/
def described (description : String) : Forest where
  roots := [.branch {
    name := "system", oid := ⟨[1, 3]⟩, description
    leaves := [{
      name := "sysUpTime", oid := ⟨[1, 3, 1]⟩, access := .readOnly, description := "OID `1.4`" }] }]

/-- The plan for `described`. -/
def describedPlan (description : String) : List Class :=
  [{ name := "System", kind := .leaves, oid := some ⟨[1, 3]⟩, description,
      members := [⟨"sys_up_time", .leaf .readOnly ⟨[1, 3, 1]⟩, "OID `1.4`"⟩] },
    { name := "MibDriver", kind := .root, oid := none, description := "",
      members := [⟨"system", .child "System", description⟩] }]

theorem render_described_padded :
    describedPlan "A text.\n\n b" ≠ describedPlan "\n  A text. \n\n\tb\n\n" ∧
      render (describedPlan "A text.\n\n b") {} =
        render (describedPlan "\n  A text. \n\n\tb\n\n") {} := by
  have h : plan {} (described "A text.\n\n b") = .ok (describedPlan "A text.\n\n b") := by
    decide +kernel
  have h' : plan {} (described "\n  A text. \n\n\tb\n\n") =
      .ok (describedPlan "\n  A text. \n\n\tb\n\n") := by
    decide +kernel
  have hsame : paragraphs "A text.\n\n b" = paragraphs "\n  A text. \n\n\tb\n\n" := by
    decide +kernel
  refine ⟨by decide, (render_eq_iff (by decide) h h').mpr (.cons ?_ (.cons ?_ .nil))⟩
  · exact ⟨rfl, rfl, rfl, hsame, .cons ⟨rfl, rfl, rfl⟩ .nil⟩
  · exact ⟨rfl, rfl, rfl, rfl, .cons ⟨rfl, rfl, hsame⟩ .nil⟩

end Driver

end MibDrivers
