import MibDrivers.Proofs.Driver.Docs

/-!
# Line breaks in doc comments

A line of a doc comment has a line feed at its end only. A carriage return is another matter: one
right before a line feed belongs to the end of the line, and those at the ends of a line are
trimmed like all blanks. But one with other text on both sides stays where it is, and the compiler
of the source refuses it in a doc comment.

## Main definitions

* `Text.HasInnerReturn` — a carriage return has text of its line on both sides

## Main results

* `Driver.exists_mem_paragraphs_iff` — when a description keeps a carriage return
* `Driver.docLines_unbroken_iff` — when the lines of a doc comment have no line break
-/

namespace MibDrivers

/-- A carriage return in the text stands between two characters of its line that are not blank. -/
def Text.HasInnerReturn (cs : List Char) : Prop :=
  ∃ c between d, c :: (between ++ [d]) <:+: cs ∧ ¬ isBlank c ∧ ¬ isBlank d ∧ '\n' ∉ between ∧
    '\r' ∈ between

namespace Driver

variable {indent line : List Char} {description : String}

theorem mem_dropWhile_of_neg {α : Type} {p : α → Bool} {xs : List α} {x : α} (h : x ∈ xs)
    (hx : ¬ p x) : x ∈ xs.dropWhile p := by
  rw [← xs.takeWhile_append_dropWhile (p := p), List.mem_append] at h
  exact h.resolve_left fun htake => hx (List.mem_takeWhile_imp htake)

/-- Of the trimmed lines of a description, those that are not empty are all kept. -/
theorem mem_paragraphs {whole : List Char} (h : whole ∈ Text.lines description.toList)
    (hne : Text.trimChars whole ≠ []) : Text.trimChars whole ∈ paragraphs description := by
  have hempty : ¬ (Text.trimChars whole).isEmpty := by simpa using hne
  rw [paragraphs, List.mem_reverse]
  refine mem_dropWhile_of_neg (List.mem_reverse.mpr ?_) hempty
  exact mem_dropWhile_of_neg (List.mem_map_of_mem h) hempty

/-- A description keeps a carriage return exactly if one has text of its line on both sides. -/
theorem exists_mem_paragraphs_iff :
    (∃ line ∈ paragraphs description, '\r' ∈ line) ↔
      Text.HasInnerReturn description.toList := by
  have hreturn : Text.isBlank '\r' := by decide
  have hfeed : Text.isBlank '\n' := by decide
  constructor
  · rintro ⟨line, hline, hmem⟩
    obtain ⟨whole, hwhole, rfl⟩ := exists_of_mem_paragraphs hline
    obtain ⟨c, between, d, htrim, hc, hd, hbetween⟩ :=
      Text.exists_between_of_mem_trimChars hreturn hmem
    have hinfix := (Text.trimChars_infix whole).trans (Text.infix_of_mem_lines hwhole)
    rw [htrim] at hinfix
    refine ⟨c, between, d, hinfix, hc, hd, ?_, hbetween⟩
    intro hmem
    have hin : '\n' ∈ Text.trimChars whole := by simp [htrim, hmem]
    exact Text.not_mem_of_mem_lines hwhole (Text.mem_of_mem_trimChars hin)
  · rintro ⟨c, between, d, hinfix, hc, hd, hnone, hbetween⟩
    have hne : ∀ {x}, ¬ Text.isBlank x → ∀ {y}, Text.isBlank y → y ≠ x :=
      fun hx _ hy heq => hx (heq ▸ hy)
    -- The part around the carriage return lies in one line and is not trimmed.
    obtain ⟨whole, hwhole, hpart⟩ := Text.exists_mem_lines_of_infix
      (by simp [hnone, hne hc hfeed, hne hd hfeed])
      (by simp [List.getLast?_cons, (hne hd hreturn).symm]) (by simp) hinfix
    have htrim := Text.infix_trimChars hc hd hpart
    have hmem : '\r' ∈ Text.trimChars whole := htrim.subset (by simp [hbetween])
    exact ⟨_, mem_paragraphs hwhole (List.ne_nil_of_mem hmem), hmem⟩

theorem mem_docLine_iff {c : Char} (hc : c ≠ '/') (hspace : c ≠ ' ') :
    c ∈ docLine indent line ↔ c ∈ indent ∨ c ∈ line := by
  rw [docLine_eq, docMark]
  cases line <;> simp [hc, hspace]

/-- Beside its mark, a line of a doc comment has what its indentation and the description have. -/
theorem exists_mem_docLines_iff {c : Char} (hc : c ≠ '/') (hspace : c ≠ ' ') :
    (∃ line ∈ docLines indent description, c ∈ line) ↔
      paragraphs description ≠ [] ∧ c ∈ indent ∨ ∃ line ∈ paragraphs description, c ∈ line := by
  simp only [docLines_eq, List.mem_map, exists_exists_and_eq_and, mem_docLine_iff hc hspace]
  constructor
  · rintro ⟨line, hline, hindent | hmem⟩
    · exact .inl ⟨List.ne_nil_of_mem hline, hindent⟩
    · exact .inr ⟨line, hline, hmem⟩
  · rintro (⟨hne, hindent⟩ | ⟨line, hline, hmem⟩)
    · obtain ⟨line, hline⟩ := List.exists_mem_of_ne_nil _ hne
      exact ⟨line, hline, .inl hindent⟩
    · exact ⟨line, hline, .inr hmem⟩

theorem eq_of_mem_docLines (h : line ∈ docLines indent description) :
    line = docMark indent ∨ ∃ whole ∈ Text.lines description.toList,
      line = docMark indent ++ ' ' :: Text.trimChars whole := by
  rw [docLines_eq] at h
  obtain ⟨text, htext, rfl⟩ := List.mem_map.mp h
  obtain ⟨whole, hwhole, rfl⟩ := exists_of_mem_paragraphs htext
  rw [docLine_eq]
  split_ifs
  · exact .inl (List.append_nil _)
  · exact .inr ⟨whole, hwhole, rfl⟩

/-- Every line of a doc comment is its mark, alone or with a space and a trimmed line of the
description. The lines have no line break exactly if no carriage return in the description has
text of its line on both sides and, unless the description says nothing, the indentation has no
line break either. -/
theorem docLines_unbroken_iff (indent : List Char) (description : String) :
    (∀ line ∈ docLines indent description, line = docMark indent ∨
      ∃ whole ∈ Text.lines description.toList,
        line = docMark indent ++ ' ' :: Text.trimChars whole) ∧
    ((∀ line ∈ docLines indent description, '\n' ∉ line ∧ '\r' ∉ line) ↔
      ¬ Text.HasInnerReturn description.toList ∧
        ((Text.trim description).isEmpty ∨ '\n' ∉ indent ∧ '\r' ∉ indent)) := by
  refine ⟨fun line hline => eq_of_mem_docLines hline, ?_⟩
  have hfeed : ¬ ∃ line ∈ paragraphs description, '\n' ∈ line :=
    fun ⟨_, hline, hmem⟩ => not_mem_of_mem_paragraphs hline hmem
  have hsplit : (∀ line ∈ docLines indent description, '\n' ∉ line ∧ '\r' ∉ line) ↔
      ¬ (∃ line ∈ docLines indent description, '\n' ∈ line) ∧
        ¬ ∃ line ∈ docLines indent description, '\r' ∈ line := by
    simp only [not_exists, not_and, forall_and]
  rw [hsplit, exists_mem_docLines_iff (by decide) (by decide),
    exists_mem_docLines_iff (by decide) (by decide), ← exists_mem_paragraphs_iff,
    ← paragraphs_eq_nil_iff]
  simp only [hfeed, or_false]
  by_cases hnone : paragraphs description = []
  · simp [hnone]
  · simp only [ne_eq, hnone, not_false_eq_true, true_and, false_or, not_or]
    rw [← and_assoc, and_comm]

/-- A carriage return within a line stays in the doc comment. -/
theorem docLines_broken :
    ¬ ∀ line ∈ docLines [] "The name.\rThe place.", '\n' ∉ line ∧ '\r' ∉ line := by
  decide +kernel

end Driver

end MibDrivers
