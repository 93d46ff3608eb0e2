import MibDrivers.Driver.Source
import MibDrivers.Proofs.Dotted
import MibDrivers.Proofs.Text.Lines

/-!
# Doc comments

A description becomes the lines of a doc comment, of which each begins with the mark. What they
say is the description with each line trimmed, from the first to the last one that is not empty,
and this can be read back from them. The comment of a class ends with its identifier, also if its
description has a line that looks like one.

## Main definitions

* `Driver.docMark` — what a line of a doc comment begins with
* `Driver.docLine` — a line of a description as a line of a doc comment
* `Driver.descriptionLines`, `Driver.oidLine` — the two parts of the doc comment of a class

## Main results

* `Driver.paragraphs_eq_nil_iff` — which descriptions give no doc comment
* `Driver.docLines_inj` — a doc comment determines what it says
* `Driver.classDocLines_inj` — and that of a class also determines its identifier
-/

namespace MibDrivers

namespace Driver

variable {indent line : List Char} {description other : String}

/-- The text of a source is that of its lines. -/
theorem toList_render (classes : List Class) (options : Options) :
    (render classes options).toList = Text.joinLines (sourceLines classes options) :=
  String.toList_ofList

/-! ### Paragraphs -/

/-- A description says nothing exactly if it is blank. -/
theorem paragraphs_eq_nil_iff : paragraphs description = [] ↔ (Text.trim description).isEmpty := by
  have hlines : paragraphs description = [] ↔
      ∀ line ∈ Text.lines description.toList, ∀ c ∈ line, Text.isBlank c := by
    refine Text.dropBoth_eq_nil_iff.trans ?_
    simp only [List.forall_mem_map, List.isEmpty_iff, Text.trimChars_eq_nil_iff]
  rw [hlines, Text.forall_lines_isBlank_iff, ← Text.trimChars_eq_nil_iff, Text.trim]
  simp

/-- What a description says are trimmed lines of it. -/
theorem exists_of_mem_paragraphs (h : line ∈ paragraphs description) :
    ∃ whole ∈ Text.lines description.toList, Text.trimChars whole = line := by
  rw [paragraphs, List.mem_reverse] at h
  have hmem := (List.dropWhile_sublist _).subset h
  rw [List.mem_reverse] at hmem
  exact List.mem_map.mp ((List.dropWhile_sublist _).subset hmem)

/-- What a description says has no line feeds. -/
theorem not_mem_of_mem_paragraphs (h : line ∈ paragraphs description) : '\n' ∉ line := by
  obtain ⟨whole, hwhole, rfl⟩ := exists_of_mem_paragraphs h
  exact fun hfeed => Text.not_mem_of_mem_lines hwhole (Text.mem_of_mem_trimChars hfeed)

/-! ### Lines of a comment -/

/-- What a line of a doc comment begins with. -/
def docMark (indent : List Char) : List Char := indent ++ "///".toList

/-- A line of a description as a line of a doc comment. -/
def docLine (indent line : List Char) : List Char :=
  if line.isEmpty then indent ++ "///".toList else indent ++ "/// ".toList ++ line

theorem docLines_eq (indent : List Char) (description : String) :
    docLines indent description = (paragraphs description).map (docLine indent) :=
  rfl

/-- After the mark comes the line, if it is not empty, with a space before it. -/
theorem docLine_eq (indent line : List Char) :
    docLine indent line = docMark indent ++ if line.isEmpty then [] else ' ' :: line := by
  have hspace : "/// ".toList = "///".toList ++ [' '] := by decide
  rw [docLine, docMark, hspace]
  split_ifs <;> simp

theorem docLine_injective (indent : List Char) : Function.Injective (docLine indent) := by
  intro first second h
  rw [docLine_eq, docLine_eq, List.append_cancel_left_eq] at h
  cases first with
  | nil =>
    cases second with
    | nil => rfl
    | cons c rest => cases h
  | cons c rest =>
    cases second with
    | nil => cases h
    | cons d others => exact (List.cons.inj h).2

theorem docMark_prefix_of_mem_docLines (h : line ∈ docLines indent description) :
    docMark indent <+: line := by
  obtain ⟨text, -, rfl⟩ := List.mem_map.mp h
  exact ⟨_, (docLine_eq indent text).symm⟩

/-- Doc comments are the same exactly if they say the same. -/
theorem docLines_inj :
    docLines indent description = docLines indent other ↔
      paragraphs description = paragraphs other := by
  rw [docLines_eq, docLines_eq, (List.map_injective_iff.mpr (docLine_injective indent)).eq_iff]

theorem not_mem_of_mem_docLines (hindent : '\n' ∉ indent) (h : line ∈ docLines indent description) :
    '\n' ∉ line := by
  rw [docLines_eq] at h
  obtain ⟨text, htext, rfl⟩ := List.mem_map.mp h
  have hfeed := not_mem_of_mem_paragraphs htext
  have hmark : '\n' ∉ docMark indent := by simpa [docMark] using hindent
  rw [docLine_eq, List.mem_append, not_or]
  refine ⟨hmark, ?_⟩
  split_ifs
  · exact List.not_mem_nil
  · simpa using hfeed

/-! ### The comment of a class -/

variable {c d : Class} {oid : Oid}

theorem docMark_prefix_of_mem_classDocLines {line : List Char} (h : line ∈ classDocLines c) :
    docMark [] <+: line := by
  have hmark : ∀ after, docMark [] <+: "/// OID `".toList ++ after := by
    intro after
    exact ⟨" OID `".toList ++ after, by simp [docMark]⟩
  rw [classDocLines, List.mem_append] at h
  rcases h with hdocs | hoid
  · exact docMark_prefix_of_mem_docLines hdocs
  · cases hclass : c.oid with
    | none => simp [hclass] at hoid
    | some oid =>
      simp only [hclass, List.mem_append, List.mem_singleton] at hoid
      rcases hoid with hempty | rfl
      · split_ifs at hempty
        · cases hempty
        · rw [List.mem_singleton.mp hempty]
          exact List.prefix_rfl
      · rw [List.append_assoc]
        exact hmark _

/-- What the doc comment of a class says before its identifier, with an empty line between if
this is anything. -/
def descriptionLines (description : String) : List (List Char) :=
  docLines [] description ++ if paragraphs description = [] then [] else ["///".toList]

/-- The line of a doc comment with an identifier. -/
def oidLine (oid : Oid) : List Char := "/// OID `".toList ++ oid.dottedChars ++ "`".toList

theorem classDocLines_of_none (h : c.oid = none) : classDocLines c = docLines [] c.description := by
  rw [classDocLines, h, List.append_nil]

theorem classDocLines_of_some {oid : Oid} (h : c.oid = some oid) :
    classDocLines c = descriptionLines c.description ++ [oidLine oid] := by
  unfold classDocLines descriptionLines oidLine
  simp only [h, paragraphs_eq_nil_iff, List.append_assoc]

theorem oidLine_injective : Function.Injective oidLine := by
  intro oid oid' h
  exact Oid.dottedChars_injective (List.append_cancel_left (List.append_cancel_right h))

/-- Descriptions that say the same have the same lines, and only they do. -/
theorem descriptionLines_inj {description other : String} :
    descriptionLines description = descriptionLines other ↔
      paragraphs description = paragraphs other := by
  have hnil : ∀ text, docLines [] text = [] ↔ paragraphs text = [] := by simp [docLines_eq]
  constructor
  · intro h
    rw [descriptionLines, descriptionLines] at h
    by_cases hfirst : paragraphs description = []
    · rw [if_pos hfirst, (hnil _).mpr hfirst, List.nil_append] at h
      have hsecond := List.append_eq_nil_iff.mp h.symm
      rw [hfirst, (hnil _).mp hsecond.1]
    · by_cases hsecond : paragraphs other = []
      · rw [if_pos hsecond, (hnil _).mpr hsecond, List.nil_append] at h
        exact absurd ((hnil _).mp (List.append_eq_nil_iff.mp h).1) hfirst
      · rw [if_neg hfirst, if_neg hsecond] at h
        exact docLines_inj.mp (List.append_cancel_right h)
  · intro h
    rw [descriptionLines, descriptionLines, h, docLines_inj.mpr h]

/-- Classes with one identifier have the same doc comment if their descriptions say the same. -/
theorem classDocLines_congr (hoid : c.oid = d.oid)
    (hdescription : paragraphs c.description = paragraphs d.description) :
    classDocLines c = classDocLines d := by
  cases hfirst : c.oid with
  | none =>
    rw [classDocLines_of_none hfirst, classDocLines_of_none (hoid ▸ hfirst),
      docLines_inj.mpr hdescription]
  | some oid =>
    rw [classDocLines_of_some hfirst, classDocLines_of_some (hoid ▸ hfirst),
      descriptionLines_inj.mpr hdescription]

/-- The doc comment of a class determines its identifier and what its description says, if a class
without identifier has no description. -/
theorem classDocLines_inj (hc : c.oid = none → c.description = "")
    (hd : d.oid = none → d.description = "") :
    classDocLines c = classDocLines d ↔
      c.oid = d.oid ∧ paragraphs c.description = paragraphs d.description := by
  refine ⟨fun h => ?_, fun h => classDocLines_congr h.1 h.2⟩
  have hempty : ∀ e : Class, e.oid = none → e.description = "" → classDocLines e = [] := by
    intro e hnone hdescription
    rw [classDocLines_of_none hnone, hdescription]
    decide
  cases hfirst : c.oid with
  | none =>
    cases hsecond : d.oid with
    | none => exact ⟨rfl, by rw [hc hfirst, hd hsecond]⟩
    | some oid' =>
      rw [hempty c hfirst (hc hfirst), classDocLines_of_some hsecond] at h
      simp at h
  | some oid =>
    cases hsecond : d.oid with
    | none =>
      rw [hempty d hsecond (hd hsecond), classDocLines_of_some hfirst] at h
      simp at h
    | some oid' =>
      rw [classDocLines_of_some hfirst, classDocLines_of_some hsecond] at h
      -- The identifier is the last line, whatever the description says.
      obtain ⟨hdescription, hoid⟩ := List.append_inj' h rfl
      exact ⟨by rw [oidLine_injective (List.singleton_injective hoid)],
        descriptionLines_inj.mp hdescription⟩

theorem feed_not_mem_classDocLines (h : line ∈ classDocLines c) : '\n' ∉ line := by
  have hdocs : ∀ line ∈ docLines [] c.description, '\n' ∉ line :=
    fun _ => not_mem_of_mem_docLines List.not_mem_nil
  cases hclass : c.oid with
  | none =>
    rw [classDocLines_of_none hclass] at h
    exact hdocs line h
  | some oid =>
    rw [classDocLines_of_some hclass, descriptionLines, List.mem_append, List.mem_append] at h
    rcases h with (hdescription | hempty) | hoid
    · exact hdocs line hdescription
    · split_ifs at hempty
      · cases hempty
      · rw [List.mem_singleton.mp hempty]
        decide
    · rw [List.mem_singleton.mp hoid]
      have hfeed := Oid.feed_not_mem_dottedChars oid
      unfold oidLine
      simp [hfeed]

end Driver

end MibDrivers
