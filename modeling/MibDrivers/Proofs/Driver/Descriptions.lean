import MibDrivers.Proofs.Driver.Docs

/-!
# Descriptions stay in comments

Descriptions come from whoever wrote the MIB module, and they may hold line feeds, comment marks
and code. In a source each of them becomes lines that begin with the mark of a doc comment and
that hold no line feed. So two sources for classes that differ in their descriptions only have the
same lines beside those of doc comments.

Whether the identifier of a class stands apart from its description is decided by a test of its
own, which agrees with whether the description gives any line.

## Main definitions

* `Driver.Class.undescribed` — a class without descriptions
* `Driver.undocumentedLines` — the lines of a text that belong to no doc comment

## Main results

* `Driver.undocumentedLines_render` — the descriptions of a source bring in no other lines
* `Driver.splitAt_render_of_sourceOrder` — where a source has the description of a class
* `Driver.render_descriptions_irrelevant` — sources that differ in descriptions only
-/

namespace MibDrivers

namespace Driver

/-- The member without its description. -/
def Member.undescribed (m : Member) : Member := { m with description := "" }

/-- The class without its description and those of its members. -/
def Class.undescribed (c : Class) : Class :=
  { c with description := "", members := c.members.map Member.undescribed }

/-- A line belongs to a doc comment if its mark is what comes first but for blanks. -/
def isDocLine (line : List Char) : Bool := (docMark []).isPrefixOf (line.dropWhile Text.isBlank)

/-- The lines of a text that belong to no doc comment. -/
def undocumentedLines (text : List Char) : List (List Char) :=
  (Text.splitAt '\n' text).filter (!isDocLine ·)

variable {indent line : List Char} {lines : List (List Char)} {c : Class}

/-! ### Texts of lines -/

/-- The lines of a text of blocks are those of the blocks, and the end of the text. -/
theorem undocumentedLines_joinLines (lines : List (List Char)) :
    undocumentedLines (Text.joinLines lines) = lines.flatMap undocumentedLines ++ [[]] := by
  induction lines with
  | nil => rfl
  | cons line rest ih =>
    rw [Text.joinLines_cons, List.flatMap_cons, List.append_assoc, ← ih, undocumentedLines,
      Text.splitAt_append_separator, List.filter_append, undocumentedLines, undocumentedLines]

theorem isDocLine_of_docMark_prefix (hindent : ∀ x ∈ indent, Text.isBlank x)
    (h : docMark indent <+: line) : isDocLine line := by
  obtain ⟨rest, rfl⟩ := h
  have hmark : docMark indent ++ rest = indent ++ (docMark [] ++ rest) := by simp [docMark]
  have hdrop : (docMark [] ++ rest).dropWhile Text.isBlank = docMark [] ++ rest :=
    List.dropWhile_cons_of_neg (by decide)
  rw [isDocLine, hmark, List.dropWhile_append_of_pos hindent, hdrop, List.isPrefixOf_iff_prefix]
  exact List.prefix_append _ _

/-- A block of doc comment leaves nothing. -/
theorem flatMap_undocumentedLines_eq_nil (h : ∀ line ∈ lines, '\n' ∉ line ∧ isDocLine line) :
    lines.flatMap undocumentedLines = [] := by
  apply List.flatMap_eq_nil_iff.mpr
  intro line hline
  obtain ⟨hfeed, hdoc⟩ := h line hline
  rw [undocumentedLines, Text.splitAt_of_not_mem hfeed, List.filter_cons_of_neg (by simp [hdoc]),
    List.filter_nil]

/-! ### Members and classes -/

theorem docLines_eq_nil_iff {description : String} :
    docLines indent description = [] ↔ paragraphs description = [] := by
  rw [docLines_eq, List.map_eq_nil_iff]

/-- A description does not touch the lines of a member beside its doc comment. -/
theorem undocumentedLines_memberLines (m : Member) :
    (memberLines m.undescribed).flatMap undocumentedLines =
      (memberLines m).flatMap undocumentedLines := by
  have hdocs : (docLines "    ".toList m.description).flatMap undocumentedLines = [] := by
    apply flatMap_undocumentedLines_eq_nil
    intro line hline
    refine ⟨not_mem_of_mem_docLines (by decide) hline, ?_⟩
    exact isDocLine_of_docMark_prefix (by simp [Text.isBlank]) (docMark_prefix_of_mem_docLines hline)
  have hsplit : memberLines m =
      docLines "    ".toList m.description ++ memberLines m.undescribed := rfl
  rw [hsplit, List.flatMap_append, hdocs, List.nil_append]

theorem undocumentedLines_classDocLines (c : Class) :
    (classDocLines c).flatMap undocumentedLines = [] := by
  apply flatMap_undocumentedLines_eq_nil
  intro line hline
  refine ⟨feed_not_mem_classDocLines hline, ?_⟩
  exact isDocLine_of_docMark_prefix (by simp) (docMark_prefix_of_mem_classDocLines hline)

/-- Descriptions do not touch the lines of a class beside its doc comments. -/
theorem undocumentedLines_classLines (c : Class) :
    (classLines c.undescribed).flatMap undocumentedLines =
      (classLines c).flatMap undocumentedLines := by
  have hmembers :
      (c.undescribed.members.flatMap fun m => [] :: memberLines m).flatMap undocumentedLines =
        (c.members.flatMap fun m => [] :: memberLines m).flatMap undocumentedLines := by
    simp only [Class.undescribed, List.flatMap_assoc, List.flatMap_map, List.flatMap_cons,
      undocumentedLines_memberLines]
  have hdriver : driverLines c.undescribed = driverLines c := rfl
  have hname : c.undescribed.name = c.name := rfl
  simp only [classLines, List.flatMap_append, undocumentedLines_classDocLines, hmembers, hdriver,
    hname]

/-! ### Sources -/

theorem sourceOrder_map_undescribed (classes : List Class) :
    sourceOrder (classes.map Class.undescribed) = (sourceOrder classes).map Class.undescribed := by
  simp only [sourceOrder, List.map_append, List.filter_map]
  rfl

/-- A source without descriptions has the lines beside its doc comments that it has with them. -/
theorem undocumentedLines_render (classes : List Class) (options : Options) :
    undocumentedLines (render (classes.map Class.undescribed) options).toList =
      undocumentedLines (render classes options).toList := by
  have hclasses :
      ((sourceOrder (classes.map Class.undescribed)).flatMap fun c =>
          [] :: classLines c).flatMap undocumentedLines =
        ((sourceOrder classes).flatMap fun c => [] :: classLines c).flatMap undocumentedLines := by
    simp only [sourceOrder_map_undescribed, List.flatMap_assoc, List.flatMap_map,
      List.flatMap_cons, undocumentedLines_classLines]
  simp only [toList_render, undocumentedLines_joinLines, sourceLines, List.flatMap_append, hclasses]

/-- A source has every class. -/
theorem sourceOrder_perm (classes : List Class) : (sourceOrder classes).Perm classes := by
  have hsplit := List.filter_append_perm (fun c : Class => decide (c.kind ≠ .root)) classes
  have hroot : (fun c : Class => !decide (c.kind ≠ .root)) = fun c => decide (c.kind = .root) := by
    funext c
    simp
  rwa [hroot] at hsplit

/-- In the order of a source, only root classes come after a root class. -/
theorem pairwise_sourceOrder (classes : List Class) :
    (sourceOrder classes).Pairwise fun c d => c.kind = .root → d.kind = .root := by
  rw [sourceOrder, List.pairwise_append]
  refine ⟨List.pairwise_of_forall_mem_list fun c hc d _ hroot => ?_,
    List.pairwise_of_forall_mem_list fun c _ d hd _ => ?_, fun c _ d hd _ => ?_⟩
  · exact absurd hroot (by simpa using (List.mem_filter.mp hc).2)
  · simpa using (List.mem_filter.mp hd).2
  · simpa using (List.mem_filter.mp hd).2

/-- Classes in the order of a source stay in it. -/
theorem sourceOrder_eq_self {classes : List Class}
    (h : classes.Pairwise fun c d => c.kind = .root → d.kind = .root) :
    sourceOrder classes = classes := by
  induction classes with
  | nil => rfl
  | cons c rest ih =>
    obtain ⟨hfirst, hrest⟩ := List.pairwise_cons.mp h
    have hinner := ih hrest
    rw [sourceOrder] at hinner ⊢
    by_cases hroot : c.kind = .root
    · have hnone : rest.filter (·.kind ≠ .root) = [] := by
        rw [List.filter_eq_nil_iff]
        intro d hd
        simp [hfirst d hd hroot]
      rw [hnone, List.nil_append] at hinner
      rw [List.filter_cons_of_neg (by simp [hroot]), List.filter_cons_of_pos (by simp [hroot]),
        hnone, hinner, List.nil_append]
    · rw [List.filter_cons_of_pos (by simp [hroot]), List.filter_cons_of_neg (by simp [hroot]),
        List.cons_append, hinner]

/-- After the source of the classes before it, a class has its description and its identifier. -/
theorem splitAt_render_of_sourceOrder {classes before after : List Class} {oid : Oid}
    (h : sourceOrder classes = before ++ c :: after) (hoid : c.oid = some oid)
    (options : Options) :
    ∃ rest, Text.splitAt '\n' (render classes options).toList =
      Text.splitAt '\n' (render before options).toList ++
        (descriptionLines c.description ++ oidLine oid :: rest) := by
  have hbefore : sourceOrder before = before := by
    have hordered := pairwise_sourceOrder classes
    rw [h] at hordered
    exact sourceOrder_eq_self (List.pairwise_append.mp hordered).1
  have hclass : ∃ lines, classLines c = classDocLines c ++ lines :=
    ⟨_, by rw [classLines, List.append_assoc, List.append_assoc, List.append_assoc]⟩
  obtain ⟨lines, hlines⟩ := hclass
  have hsource : sourceLines classes options = sourceLines before options ++
      [] :: (classDocLines c ++ (lines ++ after.flatMap fun d => [] :: classLines d)) := by
    simp [sourceLines, h, hbefore, hlines]
  rw [toList_render, toList_render, hsource, Text.joinLines_append, Text.joinLines_cons,
    List.nil_append, Text.splitAt_append_separator, Text.joinLines_append,
    Text.splitAt_joinLines_append fun _ => feed_not_mem_classDocLines, classDocLines_of_some hoid,
    List.append_assoc]
  exact ⟨_, rfl⟩

/-- Sources for classes that are equal but for their descriptions have the same lines beside those
of doc comments. A source has all its classes, and after the lines of the classes before it, each
class has those of its description and the line with its identifier. Between the two there is an
empty line of doc comment exactly if the description gives any line. -/
theorem render_descriptions_irrelevant {classes others : List Class}
    (h : classes.map Class.undescribed = others.map Class.undescribed) (options : Options) :
    undocumentedLines (render classes options).toList =
        undocumentedLines (render others options).toList ∧
      (sourceOrder classes).Perm classes ∧
      ∀ before c after oid, sourceOrder classes = before ++ c :: after → c.oid = some oid →
        ∃ separator rest, Text.splitAt '\n' (render classes options).toList =
            Text.splitAt '\n' (render before options).toList ++
              (docLines [] c.description ++ separator ++ oidLine oid :: rest) ∧
          (separator = [docMark []] ↔ docLines [] c.description ≠ []) ∧
          (separator = [] ↔ docLines [] c.description = []) := by
  refine ⟨?_, sourceOrder_perm classes, ?_⟩
  · rw [← undocumentedLines_render classes, h, undocumentedLines_render]
  · intro before c after oid hclass hoid
    obtain ⟨rest, hrest⟩ := splitAt_render_of_sourceOrder hclass hoid options
    refine ⟨if paragraphs c.description = [] then [] else [docMark []], rest, hrest, ?_⟩
    rw [Ne, docLines_eq_nil_iff]
    by_cases hnone : paragraphs c.description = [] <;> simp [hnone]

/-- A class with one leaf, both with the same description. -/
def annotated (description : String) : Class where
  name := "System"
  kind := .leaves
  oid := some ⟨[1, 3]⟩
  description := description
  members := [⟨"sys_up_time", .leaf .readOnly ⟨[1, 3, 1]⟩, description⟩]

/-- What would end a comment elsewhere and go on with code, and what says nothing. -/
theorem render_descriptions_irrelevant_annotated :
    undocumentedLines (render [annotated "*/ \x7d\r\n\n  mod stray; // a"] {}).toList =
        undocumentedLines (render [annotated " \n"] {}).toList ∧
      (∃ rest, Text.splitAt '\n'
          (render [annotated "*/ \x7d\r\n\n  mod stray; // a"] {}).toList =
        Text.splitAt '\n' (render [] {}).toList ++
          (["/// */ \x7d".toList, "///".toList, "/// mod stray; // a".toList, "///".toList,
            "/// OID `1.3`".toList] ++ rest)) ∧
      ∃ rest, Text.splitAt '\n' (render [annotated " \n"] {}).toList =
        Text.splitAt '\n' (render [] {}).toList ++ ("/// OID `1.3`".toList :: rest) := by
  have h : [annotated "*/ \x7d\r\n\n  mod stray; // a"].map Class.undescribed =
      [annotated " \n"].map Class.undescribed := by decide
  have hfirst : docLines [] "*/ \x7d\r\n\n  mod stray; // a" =
      ["/// */ \x7d".toList, "///".toList, "/// mod stray; // a".toList] := by decide +kernel
  have hsecond : docLines [] " \n" = [] := by decide +kernel
  have hoid : oidLine ⟨[1, 3]⟩ = "/// OID `1.3`".toList := by decide +kernel
  obtain ⟨hsame, -, hseparated⟩ := render_descriptions_irrelevant h {}
  obtain ⟨-, -, hempty⟩ := render_descriptions_irrelevant h.symm {}
  obtain ⟨separator, rest, hlines, hmark, -⟩ :=
    hseparated [] (annotated "*/ \x7d\r\n\n  mod stray; // a") [] ⟨[1, 3]⟩ rfl rfl
  obtain ⟨none, after, hbare, -, hnone⟩ := hempty [] (annotated " \n") [] ⟨[1, 3]⟩ rfl rfl
  refine ⟨hsame, ⟨rest, ?_⟩, ⟨after, ?_⟩⟩
  · have hdocs : docLines [] (annotated "*/ \x7d\r\n\n  mod stray; // a").description = _ := hfirst
    rw [hlines, hmark.mpr (by simp [hdocs]), hoid, hdocs]
    rfl
  · have hdocs : docLines [] (annotated " \n").description = [] := hsecond
    rw [hbare, hnone.mpr hdocs, hoid, hdocs]
    rfl

end Driver

end MibDrivers
