import Mathlib.Data.List.DropRight
import Mathlib.Data.List.TakeWhile
import MibDrivers.Proofs.Text.Split
import MibDrivers.Text.Blank

/-!
# Lines and blanks

A text of lines that each end in a line feed has these lines as its pieces. The lines of a text
have no line feed, and they leave out only blank characters of the text. So a text is blank
exactly if each of its lines is. A part of a text without line feeds is found again in a line, and
what trimming takes from the line begins or ends it.

## Main results

* `Text.joinLines_injective` — a text of lines determines the lines
* `Text.not_mem_of_mem_lines` — a line has no line feed
* `Text.forall_lines_isBlank_iff` — when the lines of a text are blank
* `Text.infix_of_mem_lines`, `Text.exists_mem_lines_of_infix` — the parts of lines
* `Text.infix_trimChars`, `Text.exists_between_of_mem_trimChars` — what trimming keeps
* `Text.trimChars_append_append`, `Text.exists_blanks_around` — what trimming takes
-/

namespace MibDrivers

namespace Text

variable {separator : Char} {cs current line part : List Char} {first second : List (List Char)}

/-! ### Texts of lines -/

/-- A text of lines that each end in a line feed. -/
def joinLines (lines : List (List Char)) : List Char := lines.flatMap (· ++ ['\n'])

theorem joinLines_append (first second : List (List Char)) :
    joinLines (first ++ second) = joinLines first ++ joinLines second :=
  List.flatMap_append

theorem joinLines_cons (line : List Char) (lines : List (List Char)) :
    joinLines (line :: lines) = line ++ '\n' :: joinLines lines := by
  simp [joinLines]

/-- The lines of a text come before those of what follows it. -/
theorem splitAt_joinLines_append (h : ∀ line ∈ first, '\n' ∉ line) (cs : List Char) :
    splitAt '\n' (joinLines first ++ cs) = first ++ splitAt '\n' cs := by
  induction first with
  | nil => rfl
  | cons line rest ih =>
    obtain ⟨hline, hrest⟩ := List.forall_mem_cons.mp h
    rw [joinLines_cons, List.append_assoc, List.cons_append, splitAt_append_separator,
      splitAt_of_not_mem hline, ih hrest]
    rfl

theorem splitAt_joinLines (h : ∀ line ∈ first, '\n' ∉ line) :
    splitAt '\n' (joinLines first) = first ++ [[]] := by
  rw [← List.append_nil (joinLines first), splitAt_joinLines_append h]
  rfl

/-- A text of lines without line feeds determines the lines. -/
theorem joinLines_injective (hfirst : ∀ line ∈ first, '\n' ∉ line)
    (hsecond : ∀ line ∈ second, '\n' ∉ line) (h : joinLines first = joinLines second) :
    first = second := by
  have hsplit := congrArg (splitAt '\n') h
  rw [splitAt_joinLines hfirst, splitAt_joinLines hsecond] at hsplit
  exact List.append_cancel_right hsplit

/-! ### Blanks -/

/-- What is left of a list without the elements at both ends that have a property, is nothing
exactly if all elements have the property. -/
theorem dropBoth_eq_nil_iff {α : Type} {p : α → Bool} {xs : List α} :
    ((xs.dropWhile p).reverse.dropWhile p).reverse = [] ↔ ∀ x ∈ xs, p x := by
  rw [List.reverse_eq_nil_iff, List.dropWhile_eq_nil_iff]
  constructor
  · intro h
    rw [← List.dropWhile_eq_nil_iff]
    -- The first element that is not dropped would not have the property.
    cases hdrop : xs.dropWhile p with
    | nil => rfl
    | cons x rest =>
      have hx := h x (by simp [hdrop])
      have hhead := List.head?_dropWhile_not p xs
      rw [hdrop, List.head?_cons] at hhead
      simp [hx] at hhead
  · intro h x hx
    rw [List.dropWhile_eq_nil_iff.mpr h] at hx
    cases hx

theorem trimChars_eq_nil_iff : trimChars cs = [] ↔ ∀ c ∈ cs, isBlank c := dropBoth_eq_nil_iff

theorem mem_of_mem_trimChars {c : Char} (h : c ∈ trimChars cs) : c ∈ cs := by
  rw [trimChars, dropBlanksRight, List.mem_reverse] at h
  have hmem := (List.dropWhile_sublist _).subset h
  rw [List.mem_reverse] at hmem
  exact (List.dropWhile_sublist _).subset hmem

/-! ### Lines of a text -/

/-- What follows a character that is read: it ends a line, with or without a carriage return
before it, or it belongs to the line. -/
theorem linesFrom_cons (current rest : List Char) (c : Char) :
    (c = '\n' ∧ ∃ before, (current = before ∨ current = '\r' :: before) ∧
      linesFrom current (c :: rest) = before.reverse :: linesFrom [] rest) ∨
    (c ≠ '\n' ∧ linesFrom current (c :: rest) = linesFrom (c :: current) rest) := by
  by_cases hc : c = '\n'
  · refine .inl ⟨hc, ?_⟩
    subst hc
    cases current with
    | nil => exact ⟨[], .inl rfl, by simp [linesFrom]⟩
    | cons last before =>
      by_cases hlast : last = '\r'
      · exact ⟨before, .inr (by rw [hlast]), by simp [linesFrom, hlast]⟩
      · exact ⟨last :: before, .inl rfl, by simp [linesFrom, hlast]⟩
  · exact .inr ⟨hc, by simp [linesFrom, hc]⟩

theorem not_mem_of_mem_linesFrom (hcurrent : '\n' ∉ current) (h : line ∈ linesFrom current cs) :
    '\n' ∉ line := by
  induction cs generalizing current with
  | nil =>
    rw [linesFrom] at h
    split at h
    · cases h
    · rw [List.mem_singleton.mp h, List.mem_reverse]
      exact hcurrent
  | cons c rest ih =>
    rcases linesFrom_cons current rest c with ⟨-, before, hbefore, heq⟩ | ⟨hc, heq⟩
    · -- The line that ends here is what was read so far.
      rw [heq] at h
      rcases List.mem_cons.mp h with rfl | hrest
      · rw [List.mem_reverse]
        rcases hbefore with rfl | rfl
        · exact hcurrent
        · exact fun hmem => hcurrent (List.mem_cons_of_mem _ hmem)
      · exact ih (List.not_mem_nil) hrest
    · rw [heq] at h
      exact ih (List.not_mem_cons_of_ne_of_not_mem (Ne.symm hc) hcurrent) h

/-- A line has no line feed. -/
theorem not_mem_of_mem_lines (h : line ∈ lines cs) : '\n' ∉ line :=
  not_mem_of_mem_linesFrom List.not_mem_nil h

theorem forall_linesFrom_isBlank_iff :
    (∀ line ∈ linesFrom current cs, ∀ c ∈ line, isBlank c) ↔
      (∀ c ∈ current, isBlank c) ∧ ∀ c ∈ cs, isBlank c := by
  induction cs generalizing current with
  | nil =>
    rw [linesFrom]
    split
    · simp_all
    · simp
  | cons c rest ih =>
    rcases linesFrom_cons current rest c with ⟨rfl, before, hbefore, heq⟩ | ⟨hc, heq⟩
    · -- What ends a line is blank.
      have hblank : isBlank '\n' ∧ isBlank '\r' := by decide
      rw [heq, List.forall_mem_cons, ih]
      rcases hbefore with rfl | rfl <;> simp [hblank]
    · rw [heq, ih]
      simp only [List.forall_mem_cons]
      tauto

/-- The lines of a text are blank exactly if the text is. -/
theorem forall_lines_isBlank_iff :
    (∀ line ∈ lines cs, ∀ c ∈ line, isBlank c) ↔ ∀ c ∈ cs, isBlank c := by
  rw [lines, forall_linesFrom_isBlank_iff]
  simp

/-! ### Parts of lines -/

/-- What is within a line is within the text. -/
theorem infix_of_mem_linesFrom (h : line ∈ linesFrom current cs) :
    line <:+: current.reverse ++ cs := by
  induction cs generalizing current with
  | nil =>
    rw [linesFrom] at h
    split at h
    · cases h
    · rw [List.mem_singleton.mp h]
      exact (List.prefix_append _ _).isInfix
  | cons c rest ih =>
    rcases linesFrom_cons current rest c with ⟨-, before, hbefore, heq⟩ | ⟨-, heq⟩
    · rw [heq] at h
      rcases List.mem_cons.mp h with rfl | hrest
      · have hstart : before.reverse <+: current.reverse := by
          rcases hbefore with rfl | rfl
          · exact List.prefix_rfl
          · exact List.reverse_prefix.mpr (List.suffix_cons _ _)
        exact (hstart.trans (List.prefix_append _ _)).isInfix
      · exact (ih hrest).trans ⟨current.reverse ++ [c], [], by simp⟩
    · rw [heq] at h
      simpa using ih h

theorem infix_of_mem_lines (h : line ∈ lines cs) : line <:+: cs := infix_of_mem_linesFrom h

theorem linesFrom_append_of_not_mem (h : '\n' ∉ part) :
    linesFrom current (part ++ cs) = linesFrom (part.reverse ++ current) cs := by
  induction part generalizing current with
  | nil => rfl
  | cons c rest ih =>
    rw [List.mem_cons, not_or] at h
    obtain ⟨hc, hrest⟩ := h
    have hstep : linesFrom current (c :: (rest ++ cs)) = linesFrom (c :: current) (rest ++ cs) := by
      simp [linesFrom, Ne.symm hc]
    rw [List.cons_append, hstep, ih hrest, List.reverse_cons, List.append_assoc,
      List.singleton_append]

/-- What was read of a line stays within it, unless it ends in a carriage return. -/
theorem exists_mem_linesFrom_of_suffix (hlast : part.getLast? ≠ some '\r') (hne : part ≠ [])
    (h : part <:+: current.reverse) : ∃ line ∈ linesFrom current cs, part <:+: line := by
  induction cs generalizing current with
  | nil =>
    have hcurrent : ¬ current.isEmpty := by
      intro hempty
      rw [List.isEmpty_iff.mp hempty] at h
      exact hne (List.infix_nil.mp h)
    rw [linesFrom, if_neg hcurrent]
    exact ⟨_, List.mem_singleton_self _, h⟩
  | cons c rest ih =>
    rcases linesFrom_cons current rest c with ⟨-, before, hbefore, heq⟩ | ⟨-, heq⟩
    · rw [heq]
      refine ⟨_, List.mem_cons_self, ?_⟩
      rcases hbefore with rfl | rfl
      · exact h
      · rw [List.reverse_cons, List.infix_concat_iff, List.suffix_concat_iff] at h
        rcases h with (hnil | ⟨start, rfl, -⟩) | hbefore
        · exact absurd hnil hne
        · simp at hlast
        · exact hbefore
    · rw [heq]
      exact ih (by simpa using h.trans (List.infix_append' [] _ _))

/-- A part without line feeds is within one line, unless it ends in a carriage return. -/
theorem exists_mem_lines_of_infix (hfeed : '\n' ∉ part) (hlast : part.getLast? ≠ some '\r')
    (hne : part ≠ []) (h : part <:+: cs) : ∃ line ∈ lines cs, part <:+: line := by
  obtain ⟨before, after, rfl⟩ := h
  -- The induction is on what comes before the part, with any beginning of a line before that.
  suffices hfrom : ∀ current, ∃ line ∈ linesFrom current (before ++ part ++ after), part <:+: line
    from hfrom []
  induction before with
  | nil =>
    intro current
    rw [List.nil_append, linesFrom_append_of_not_mem hfeed]
    apply exists_mem_linesFrom_of_suffix hlast hne
    rw [List.reverse_append, List.reverse_reverse]
    exact (List.suffix_append _ _).isInfix
  | cons c rest ih =>
    intro current
    rw [List.cons_append, List.cons_append]
    rcases linesFrom_cons current (rest ++ part ++ after) c with ⟨-, start, -, heq⟩ | ⟨-, heq⟩
    · obtain ⟨line, hline, hpart⟩ := ih []
      exact ⟨line, heq ▸ List.mem_cons_of_mem _ hline, hpart⟩
    · rw [heq]
      exact ih _

/-! ### What trimming keeps -/

theorem trimChars_infix (cs : List Char) : trimChars cs <:+: cs := by
  have hleft : cs.dropWhile isBlank <:+ cs := List.dropWhile_suffix _
  have hright : trimChars cs <+: cs.dropWhile isBlank := by
    rw [trimChars, dropBlanksRight, ← List.reverse_suffix, List.reverse_reverse]
    exact List.dropWhile_suffix _
  exact hright.isInfix.trans hleft.isInfix

theorem not_isBlank_of_dropWhile {c : Char} {rest : List Char}
    (h : cs.dropWhile isBlank = c :: rest) : ¬ isBlank c := by
  have hhead := List.head?_dropWhile_not isBlank cs
  rw [h, List.head?_cons] at hhead
  simpa using hhead

/-- What trimming leaves begins with a character that is not blank, -/
theorem not_isBlank_head {c : Char} {rest : List Char} (h : trimChars cs = c :: rest) :
    ¬ isBlank c := by
  have hstart : trimChars cs <+: cs.dropWhile isBlank := List.rdropWhile_prefix _ _
  rw [h] at hstart
  obtain ⟨after, hafter⟩ := hstart
  exact not_isBlank_of_dropWhile hafter.symm

/-- and it ends with one. -/
theorem not_isBlank_last {c : Char} {start : List Char} (h : trimChars cs = start ++ [c]) :
    ¬ isBlank c := by
  have hreverse : (cs.dropWhile isBlank).reverse.dropWhile isBlank = c :: start.reverse := by
    rw [← List.reverse_inj, List.reverse_cons, List.reverse_reverse]
    exact h
  exact not_isBlank_of_dropWhile hreverse

theorem dropWhile_append_append {before after : List Char} (hbefore : ∀ c ∈ before, isBlank c)
    (hne : cs ≠ []) (hfirst : ∀ c ∈ cs.head?, ¬ isBlank c) :
    (before ++ (cs ++ after)).dropWhile isBlank = cs ++ after := by
  obtain ⟨c, rest, rfl⟩ := List.exists_cons_of_ne_nil hne
  rw [List.dropWhile_append_of_pos hbefore, List.cons_append,
    List.dropWhile_cons_of_neg (hfirst c rfl)]

/-- Trimming takes the blanks around a text that neither begins nor ends with one, -/
theorem trimChars_append_append {before after : List Char} (hbefore : ∀ c ∈ before, isBlank c)
    (hafter : ∀ c ∈ after, isBlank c) (hfirst : ∀ c ∈ cs.head?, ¬ isBlank c)
    (hlast : ∀ c ∈ cs.getLast?, ¬ isBlank c) : trimChars (before ++ (cs ++ after)) = cs := by
  by_cases hnil : cs = []
  · subst hnil
    refine trimChars_eq_nil_iff.mpr fun c hc => ?_
    rcases List.mem_append.mp hc with hmem | hmem
    · exact hbefore c hmem
    · exact hafter c hmem
  · -- Read from its end, the text is in the same position with `after` and `before` exchanged.
    have hright : (after.reverse ++ (cs.reverse ++ [])).dropWhile isBlank = cs.reverse ++ [] :=
      dropWhile_append_append (by simpa using hafter) (List.reverse_ne_nil_iff.mpr hnil)
        (by simpa using hlast)
    rw [List.append_nil, ← List.reverse_append] at hright
    rw [trimChars, dropWhile_append_append hbefore hnil hfirst, dropBlanksRight, hright,
      List.reverse_reverse]

/-- and it takes nothing else. -/
theorem exists_blanks_around (cs : List Char) :
    ∃ before after, cs = before ++ (trimChars cs ++ after) ∧ (∀ c ∈ before, isBlank c) ∧
      ∀ c ∈ after, isBlank c := by
  refine ⟨cs.takeWhile isBlank, (cs.dropWhile isBlank).rtakeWhile isBlank, ?_, ?_, ?_⟩
  · calc
      cs = cs.takeWhile isBlank ++ cs.dropWhile isBlank := List.takeWhile_append_dropWhile.symm
      _ = _ := congrArg _ List.rdropWhile_append_rtakeWhile.symm
  · exact fun c => List.mem_takeWhile_imp
  · exact fun c => List.mem_rtakeWhile_imp

theorem trimChars_trimChars (cs : List Char) : trimChars (trimChars cs) = trimChars cs := by
  have hfirst : ∀ c ∈ (trimChars cs).head?, ¬ isBlank c := by
    intro c hc
    obtain ⟨rest, hrest⟩ := List.head?_eq_some_iff.mp hc
    exact not_isBlank_head hrest
  have hlast : ∀ c ∈ (trimChars cs).getLast?, ¬ isBlank c := by
    intro c hc
    obtain ⟨start, hstart⟩ := List.getLast?_eq_some_iff.mp hc
    exact not_isBlank_last hstart
  have htwice : trimChars ([] ++ (trimChars cs ++ [])) = trimChars cs :=
    trimChars_append_append nofun nofun hfirst hlast
  rwa [List.nil_append, List.append_nil] at htwice

theorem trim_trim (s : String) : trim (trim s) = trim s := by
  rw [trim, trim, String.toList_ofList, trimChars_trimChars]

/-- A part that begins with a character that is not blank is left when blanks are dropped. -/
theorem infix_dropWhile {c : Char} {rest : List Char} (hc : ¬ isBlank c) (h : c :: rest <:+: cs) :
    c :: rest <:+: cs.dropWhile isBlank := by
  induction cs with
  | nil => exact h
  | cons d others ih =>
    by_cases hd : isBlank d
    · rw [List.dropWhile_cons_of_pos hd]
      rcases List.infix_cons_iff.mp h with hfront | hothers
      · rw [(List.cons_prefix_cons.mp hfront).1] at hc
        exact absurd hd hc
      · exact ih hothers
    · rwa [List.dropWhile_cons_of_neg hd]

/-- A part that begins and ends with characters that are not blank is left by trimming. -/
theorem infix_trimChars {c d : Char} {between : List Char} (hc : ¬ isBlank c) (hd : ¬ isBlank d)
    (h : c :: (between ++ [d]) <:+: cs) : c :: (between ++ [d]) <:+: trimChars cs := by
  have hreverse : ∀ c d : Char,
      (c :: (between ++ [d])).reverse = d :: (between.reverse ++ [c]) := by simp
  have hleft := List.reverse_infix.mpr (infix_dropWhile hc h)
  rw [hreverse] at hleft
  rw [trimChars, dropBlanksRight, ← List.reverse_infix, hreverse, List.reverse_reverse]
  exact infix_dropWhile hd hleft

/-- A blank character that trimming leaves is between two characters that are not blank. -/
theorem exists_between_of_mem_trimChars {x : Char} (hx : isBlank x) (h : x ∈ trimChars cs) :
    ∃ c between d, trimChars cs = c :: (between ++ [d]) ∧ ¬ isBlank c ∧ ¬ isBlank d ∧
      x ∈ between := by
  have hne : ∀ {c}, ¬ isBlank c → x ≠ c := fun hc heq => hc (heq ▸ hx)
  obtain ⟨c, rest, hcons⟩ := List.exists_cons_of_ne_nil (List.ne_nil_of_mem h)
  have hc := not_isBlank_head hcons
  rw [hcons] at h
  have hrest := (List.mem_cons.mp h).resolve_left (hne hc)
  obtain ⟨between, d, rfl⟩ := (List.eq_nil_or_concat rest).resolve_left (List.ne_nil_of_mem hrest)
  rw [List.concat_eq_append] at hcons hrest
  have hd : ¬ isBlank d := by
    rw [← List.cons_append] at hcons
    exact not_isBlank_last hcons
  refine ⟨c, between, d, hcons, hc, hd, ?_⟩
  simpa [hne hd] using hrest

end Text

end MibDrivers
