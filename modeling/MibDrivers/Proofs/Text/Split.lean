import Mathlib.Data.List.Basic
import MibDrivers.Text.Split

/-!
# The pieces of a text

A separator divides the pieces of what is before it from the pieces of what is after it. Without
a separator a text is one piece, and put before another text it makes the first piece longer.

## Main results

* `Text.splitAt_append_separator` — the pieces around a separator
* `Text.splitAt_append_of_not_mem` — the pieces after a beginning without separator
* `Text.splitAt_joinWith`, `Text.joinWith_splitAt` — joining and splitting undo each other
* `Text.dropPrefix?_eq_some_iff` — what follows a beginning
-/

namespace MibDrivers

namespace Text

variable {separator : Char} {start cs : List Char}

theorem splitAt_cons_separator : splitAt separator (separator :: cs) = [] :: splitAt separator cs :=
  if_pos rfl

theorem splitAt_cons_of_ne {c : Char} (h : c ≠ separator) :
    splitAt separator (c :: cs) =
      (c :: (splitAt separator cs).headD []) :: (splitAt separator cs).tail :=
  if_neg h

/-- A text has at least one piece. -/
theorem exists_splitAt_eq_cons (separator : Char) (cs : List Char) :
    ∃ piece pieces, splitAt separator cs = piece :: pieces := by
  cases cs with
  | nil => exact ⟨[], [], rfl⟩
  | cons c rest =>
    by_cases hc : c = separator
    · subst hc
      exact ⟨_, _, splitAt_cons_separator⟩
    · exact ⟨_, _, splitAt_cons_of_ne hc⟩

/-- A separator divides the pieces before it from those after it. -/
theorem splitAt_append_separator (cs ds : List Char) :
    splitAt separator (cs ++ separator :: ds) = splitAt separator cs ++ splitAt separator ds := by
  induction cs with
  | nil => exact splitAt_cons_separator
  | cons c rest ih =>
    rw [List.cons_append]
    by_cases hc : c = separator
    · subst hc
      rw [splitAt_cons_separator, splitAt_cons_separator, ih, List.cons_append]
    · obtain ⟨piece, pieces, hpieces⟩ := exists_splitAt_eq_cons separator rest
      rw [splitAt_cons_of_ne hc, splitAt_cons_of_ne hc, ih, hpieces]
      rfl

/-- A beginning without separator belongs to the first piece. -/
theorem splitAt_append_of_not_mem (h : separator ∉ start) :
    splitAt separator (start ++ cs) =
      (start ++ (splitAt separator cs).headD []) :: (splitAt separator cs).tail := by
  induction start with
  | nil =>
    obtain ⟨piece, pieces, hpieces⟩ := exists_splitAt_eq_cons separator cs
    rw [List.nil_append, hpieces]
    rfl
  | cons c rest ih =>
    rw [List.mem_cons, not_or] at h
    rw [List.cons_append, splitAt_cons_of_ne (Ne.symm h.1), ih h.2]
    rfl

/-- A text without separator is one piece. -/
theorem splitAt_of_not_mem (h : separator ∉ cs) : splitAt separator cs = [cs] := by
  calc
    splitAt separator cs = splitAt separator (cs ++ []) := by rw [List.append_nil]
    _ = [cs ++ []] := splitAt_append_of_not_mem h
    _ = [cs] := by rw [List.append_nil]

/-- Each character but the separators is in a piece. -/
theorem exists_mem_splitAt {separator c : Char} {cs : List Char} (hc : c ∈ cs)
    (hne : c ≠ separator) : ∃ piece ∈ splitAt separator cs, c ∈ piece := by
  induction cs with
  | nil => cases hc
  | cons d rest ih =>
    by_cases hd : d = separator
    · subst hd
      obtain ⟨piece, hpiece, hmem⟩ := ih ((List.mem_cons.mp hc).resolve_left hne)
      rw [splitAt_cons_separator]
      exact ⟨piece, List.mem_cons_of_mem _ hpiece, hmem⟩
    · obtain ⟨first, others, hsplit⟩ := exists_splitAt_eq_cons separator rest
      rw [splitAt_cons_of_ne hd, hsplit]
      rcases List.mem_cons.mp hc with rfl | hrest
      · exact ⟨_, List.mem_cons_self, List.mem_cons_self⟩
      · obtain ⟨piece, hpiece, hmem⟩ := ih hrest
        rw [hsplit] at hpiece
        rcases List.mem_cons.mp hpiece with rfl | hother
        · exact ⟨_, List.mem_cons_self, List.mem_cons_of_mem _ hmem⟩
        · exact ⟨piece, List.mem_cons_of_mem _ hother, hmem⟩

theorem joinWith_cons {separator piece : List Char} {pieces : List (List Char)}
    (h : pieces ≠ []) :
    joinWith separator (piece :: pieces) = piece ++ separator ++ joinWith separator pieces := by
  cases pieces with
  | nil => exact absurd rfl h
  | cons next rest => rfl

theorem joinWith_append {separator : List Char} {first second : List (List Char)}
    (hfirst : first ≠ []) (hsecond : second ≠ []) :
    joinWith separator (first ++ second) =
      joinWith separator first ++ separator ++ joinWith separator second := by
  induction first with
  | nil => exact absurd rfl hfirst
  | cons piece rest ih =>
    rw [List.cons_append, joinWith_cons (List.append_ne_nil_of_right_ne_nil rest hsecond)]
    by_cases hlast : rest = []
    · rw [hlast]
      rfl
    · rw [ih hlast, joinWith_cons hlast]
      simp only [List.append_assoc]

/-- A text that was joined from pieces without the separator has these pieces. -/
theorem splitAt_joinWith {pieces : List (List Char)} (hne : pieces ≠ [])
    (h : ∀ piece ∈ pieces, separator ∉ piece) :
    splitAt separator (joinWith [separator] pieces) = pieces := by
  induction pieces with
  | nil => exact absurd rfl hne
  | cons piece rest ih =>
    obtain ⟨hpiece, hrest⟩ := List.forall_mem_cons.mp h
    by_cases hlast : rest = []
    · subst hlast
      exact splitAt_of_not_mem hpiece
    · rw [joinWith_cons hlast, List.append_assoc, List.singleton_append, splitAt_append_separator,
        splitAt_of_not_mem hpiece, ih hlast hrest, List.singleton_append]

/-- The pieces of a text give the text again. -/
theorem joinWith_splitAt (separator : Char) (cs : List Char) :
    joinWith [separator] (splitAt separator cs) = cs := by
  induction cs with
  | nil => rfl
  | cons c rest ih =>
    obtain ⟨piece, pieces, hpieces⟩ := exists_splitAt_eq_cons separator rest
    by_cases hc : c = separator
    · subst hc
      rw [splitAt_cons_separator, joinWith_cons (by simp [hpieces]), ih]
      rfl
    · rw [hpieces] at ih
      rw [splitAt_cons_of_ne hc, hpieces]
      -- The first piece is longer by one character, whether or not others follow.
      cases pieces with
      | nil => exact congrArg (c :: ·) ih
      | cons next others => exact congrArg (c :: ·) ih

theorem mem_joinWith {joint : List Char} {pieces : List (List Char)} {c : Char}
    (h : c ∈ joinWith joint pieces) : c ∈ joint ∨ ∃ piece ∈ pieces, c ∈ piece := by
  induction pieces with
  | nil => cases h
  | cons piece rest ih =>
    by_cases hlast : rest = []
    · subst hlast
      exact .inr ⟨piece, List.mem_cons_self, h⟩
    · rw [joinWith_cons hlast, List.mem_append, List.mem_append] at h
      rcases h with (hpiece | hjoint) | hrest
      · exact .inr ⟨piece, List.mem_cons_self, hpiece⟩
      · exact .inl hjoint
      · exact (ih hrest).imp_right fun ⟨other, hother, hc⟩ =>
          ⟨other, List.mem_cons_of_mem _ hother, hc⟩

theorem dropPrefix?_eq_some_iff {text rest : List Char} :
    dropPrefix? start text = some rest ↔ text = start ++ rest := by
  induction start generalizing text with
  | nil => simp [dropPrefix?]
  | cons s start ih =>
    cases text with
    | nil => simp [dropPrefix?]
    | cons c text =>
      by_cases hc : s = c
      · simp [dropPrefix?, hc, ih]
      · simp [dropPrefix?, hc, Ne.symm hc]

end Text

end MibDrivers
