import Mathlib.Data.List.Infix
import MibDrivers.Text.Replace

/-!
# Occurrences and their replacement

A part that begins with a character which it has nowhere else does not overlap with itself, nor
with another such part that begins with the same character. So a text can be cut before each
occurrence of this character, and occurrences are counted and replaced on both sides of the cut
alone.

## Main definitions

* `Text.BeginsOnce` — a part has its first character once
* `Text.occurrences` — the number of places at which a part stands

## Main results

* `Text.inductParts`, `Text.inductPart` — induction along the occurrences of parts
* `Text.replace_append_part`, `Text.occurrences_append_part` — what is around an occurrence
* `Text.length_replace` — the length of a text with its occurrences replaced
* `Text.replace_eq_self_iff` — when replacing changes nothing
-/

namespace MibDrivers

namespace Text

variable {part value cs ds : List Char} {p c : Char}

/-- The part begins with the character and has it nowhere else. -/
def BeginsOnce (p : Char) (part : List Char) : Prop := ∃ rest, part = p :: rest ∧ p ∉ rest

/-- The number of places in a text at which a part stands. -/
def occurrences (part cs : List Char) : Nat := cs.tails.countP part.isPrefixOf

theorem BeginsOnce.ne_nil (h : BeginsOnce p part) : part ≠ [] := by
  obtain ⟨rest, rfl, -⟩ := h
  exact List.cons_ne_nil _ _

theorem BeginsOnce.eq_of_prefix_cons (h : BeginsOnce p part) (hpart : part <+: c :: cs) :
    c = p := by
  obtain ⟨rest, rfl, -⟩ := h
  exact (List.cons_prefix_cons.mp hpart).1.symm

/-- A part does not reach beyond the next occurrence of its first character. -/
theorem BeginsOnce.prefix_append_iff (h : BeginsOnce p part) :
    part <+: c :: cs ++ p :: ds ↔ part <+: c :: cs := by
  refine ⟨fun hpart => ?_, fun hpart => hpart.trans (List.prefix_append _ _)⟩
  obtain ⟨rest, rfl, hp⟩ := h
  rcases List.prefix_or_prefix_of_prefix hpart (List.prefix_append (c :: cs) (p :: ds)) with
    hshort | ⟨beyond, hlong⟩
  · exact hshort
  · obtain ⟨-, htail⟩ := List.cons.inj hlong
    cases beyond with
    | nil => rw [← hlong, List.append_nil]
    | cons d beyond =>
      rw [← hlong, List.prefix_append_right_inj, List.cons_prefix_cons] at hpart
      exact absurd (by simp [← htail, hpart.1]) hp

/-- Induction along the occurrences of some parts, of which none is empty. -/
@[elab_as_elim]
theorem inductParts {motive : List Char → Prop} (parts : List (List Char))
    (hparts : ∀ part ∈ parts, part ≠ []) (nil : motive [])
    (found : ∀ part ∈ parts, ∀ rest, motive rest → motive (part ++ rest))
    (other : ∀ c rest, (∀ part ∈ parts, ¬ part <+: c :: rest) → motive rest → motive (c :: rest))
    (cs : List Char) : motive cs := by
  -- The induction is on the length, since a whole part is taken off at once.
  induction hlength : cs.length using Nat.strongRecOn generalizing cs with
  | ind n ih =>
    by_cases hfound : ∃ part ∈ parts, part <+: cs
    · obtain ⟨part, hpart, rest, rfl⟩ := hfound
      have hpos := List.length_pos_iff.mpr (hparts part hpart)
      rw [List.length_append] at hlength
      exact found part hpart rest (ih _ (by omega) rest rfl)
    · cases cs with
      | nil => exact nil
      | cons c rest =>
        rw [List.length_cons] at hlength
        exact other c rest (by simpa using hfound) (ih _ (by omega) rest rfl)

/-- Induction along the occurrences of a part. -/
@[elab_as_elim]
theorem inductPart {motive : List Char → Prop} (h : part ≠ []) (nil : motive [])
    (found : ∀ rest, motive rest → motive (part ++ rest))
    (other : ∀ c rest, ¬ part <+: c :: rest → motive rest → motive (c :: rest))
    (cs : List Char) : motive cs := by
  refine inductParts [part] ?_ nil ?_ ?_ cs
  · simpa using h
  · simpa using found
  · simpa using other

/-! ### Replacing -/

theorem replaceFrom_eq (n : Nat) (cs : List Char) :
    replaceFrom part value n cs = replace part value (cs.drop n) := by
  induction cs generalizing n with
  | nil => cases n <;> rfl
  | cons c rest ih =>
    cases n with
    | zero => rfl
    | succ n => exact ih n

theorem replace_cons_of_neg (h : ¬ part <+: c :: cs) :
    replace part value (c :: cs) = c :: replace part value cs :=
  if_neg (by simpa using h)

/-- An occurrence at the beginning is replaced. -/
theorem replace_part_append (h : part ≠ []) (cs : List Char) :
    replace part value (part ++ cs) = value ++ replace part value cs := by
  cases part with
  | nil => exact absurd rfl h
  | cons p rest =>
    have hpart : (p :: rest).isPrefixOf (p :: (rest ++ cs)) := by simp
    have hskip : replaceFrom (p :: rest) value rest.length (rest ++ cs) =
        replace (p :: rest) value cs := by rw [replaceFrom_eq, List.drop_left]
    rw [List.cons_append, replace, replaceFrom, if_pos hpart, ← hskip]
    rfl

theorem replace_append_of_not_mem (h : BeginsOnce p part) (hp : p ∉ cs) :
    replace part value (cs ++ ds) = cs ++ replace part value ds := by
  induction cs with
  | nil => rfl
  | cons c rest ih =>
    rw [List.mem_cons, not_or] at hp
    have hnot : ¬ part <+: c :: (rest ++ ds) :=
      fun hpart => hp.1 (h.eq_of_prefix_cons hpart).symm
    rw [List.cons_append, replace_cons_of_neg hnot, ih hp.2, List.cons_append]

/-- Another part that begins with the same character is left as it is. -/
theorem replace_other_append {other : List Char} (h : BeginsOnce p part)
    (hother : BeginsOnce p other) (hnot : ¬ part <+: other ++ cs) :
    replace part value (other ++ cs) = other ++ replace part value cs := by
  obtain ⟨rest, rfl, hp⟩ := hother
  rw [List.cons_append] at hnot
  rw [List.cons_append, replace_cons_of_neg hnot, replace_append_of_not_mem h hp,
    List.cons_append]

/-- Before each occurrence of the first character of a part a text can be cut. -/
theorem replace_append_cons (h : BeginsOnce p part) (cs ds : List Char) :
    replace part value (cs ++ p :: ds) =
      replace part value cs ++ replace part value (p :: ds) := by
  induction cs using inductPart h.ne_nil with
  | nil => rfl
  | found rest ih =>
    rw [List.append_assoc, replace_part_append h.ne_nil, replace_part_append h.ne_nil, ih,
      List.append_assoc]
  | other c rest hshort ih =>
    have hlong : ¬ part <+: c :: (rest ++ p :: ds) := by
      rwa [← List.cons_append, h.prefix_append_iff]
    rw [List.cons_append, replace_cons_of_neg hlong, replace_cons_of_neg hshort, ih,
      List.cons_append]

/-- What is around an occurrence is replaced on its own. -/
theorem replace_append_part (h : BeginsOnce p part) (cs ds : List Char) :
    replace part value (cs ++ (part ++ ds)) =
      replace part value cs ++ (value ++ replace part value ds) := by
  rw [← replace_part_append h.ne_nil]
  obtain ⟨rest, hpart, -⟩ := id h
  rw [hpart, List.cons_append, ← hpart, replace_append_cons h]

/-! ### Counting -/

theorem occurrences_cons_of_neg (h : ¬ part <+: c :: cs) :
    occurrences part (c :: cs) = occurrences part cs := by
  rw [occurrences, List.tails_cons, List.countP_cons_of_neg (by simpa using h), occurrences]

theorem occurrences_cons_of_pos (h : part <+: c :: cs) :
    occurrences part (c :: cs) = occurrences part cs + 1 := by
  rw [occurrences, List.tails_cons, List.countP_cons_of_pos (by simpa using h), occurrences]

theorem occurrences_nil (h : part ≠ []) : occurrences part [] = 0 := by
  simp [occurrences, h]

theorem occurrences_append_of_not_mem (h : BeginsOnce p part) (hp : p ∉ cs) :
    occurrences part (cs ++ ds) = occurrences part ds := by
  induction cs with
  | nil => rfl
  | cons c rest ih =>
    rw [List.mem_cons, not_or] at hp
    have hnot : ¬ part <+: c :: (rest ++ ds) :=
      fun hpart => hp.1 (h.eq_of_prefix_cons hpart).symm
    rw [List.cons_append, occurrences_cons_of_neg hnot, ih hp.2]

theorem occurrences_part_append (h : BeginsOnce p part) (cs : List Char) :
    occurrences part (part ++ cs) = occurrences part cs + 1 := by
  obtain ⟨rest, hpart, hp⟩ := id h
  have hfound : part <+: p :: (rest ++ cs) := by
    rw [← List.cons_append, ← hpart]
    exact List.prefix_append _ _
  calc
    occurrences part (part ++ cs) = occurrences part (p :: (rest ++ cs)) := by
      rw [← List.cons_append, ← hpart]
    _ = occurrences part cs + 1 := by
      rw [occurrences_cons_of_pos hfound, occurrences_append_of_not_mem h hp]

theorem occurrences_other_append {other : List Char} (h : BeginsOnce p part)
    (hother : BeginsOnce p other) (hnot : ¬ part <+: other ++ cs) :
    occurrences part (other ++ cs) = occurrences part cs := by
  obtain ⟨rest, rfl, hp⟩ := hother
  rw [List.cons_append] at hnot
  rw [List.cons_append, occurrences_cons_of_neg hnot, occurrences_append_of_not_mem h hp]

theorem occurrences_append_cons (h : BeginsOnce p part) (cs ds : List Char) :
    occurrences part (cs ++ p :: ds) = occurrences part cs + occurrences part (p :: ds) := by
  induction cs with
  | nil => rw [occurrences_nil h.ne_nil, Nat.zero_add, List.nil_append]
  | cons c rest ih =>
    have hiff : part <+: c :: (rest ++ p :: ds) ↔ part <+: c :: rest := by
      rw [← List.cons_append, h.prefix_append_iff]
    rw [List.cons_append]
    by_cases hfound : part <+: c :: rest
    · rw [occurrences_cons_of_pos (hiff.mpr hfound), occurrences_cons_of_pos hfound, ih]
      omega
    · rw [occurrences_cons_of_neg (mt hiff.mp hfound), occurrences_cons_of_neg hfound, ih]

/-- What is around an occurrence is counted on its own. -/
theorem occurrences_append_part (h : BeginsOnce p part) (cs ds : List Char) :
    occurrences part (cs ++ (part ++ ds)) =
      occurrences part cs + (occurrences part ds + 1) := by
  rw [← occurrences_part_append h]
  obtain ⟨rest, hpart, -⟩ := id h
  rw [hpart, List.cons_append, ← hpart, occurrences_append_cons h]

/-! ### What replacing changes -/

/-- Each occurrence makes way for the value. -/
theorem length_replace (h : BeginsOnce p part) (cs : List Char) :
    (replace part value cs).length + occurrences part cs * part.length =
      cs.length + occurrences part cs * value.length := by
  induction cs using inductPart h.ne_nil with
  | nil => simp [occurrences_nil h.ne_nil, replace, replaceFrom]
  | found rest ih =>
    rw [replace_part_append h.ne_nil, occurrences_part_append h]
    simp only [List.length_append, Nat.add_mul, Nat.one_mul]
    omega
  | other c rest hnot ih =>
    rw [replace_cons_of_neg hnot, occurrences_cons_of_neg hnot, List.length_cons,
      List.length_cons]
    omega

theorem replace_of_occurrences_eq_zero (hnone : occurrences part cs = 0) :
    replace part value cs = cs := by
  induction cs with
  | nil => rfl
  | cons c rest ih =>
    by_cases hfound : part <+: c :: rest
    · rw [occurrences_cons_of_pos hfound] at hnone
      cases hnone
    · rw [occurrences_cons_of_neg hfound] at hnone
      rw [replace_cons_of_neg hfound, ih hnone]

/-- A part replaced by itself changes nothing. -/
theorem replace_part_self (h : BeginsOnce p part) (cs : List Char) :
    replace part part cs = cs := by
  induction cs using inductPart h.ne_nil with
  | nil => rfl
  | found rest ih => rw [replace_part_append h.ne_nil, ih]
  | other c rest hnot ih => rw [replace_cons_of_neg hnot, ih]

/-- Replacing by another value changes nothing exactly if there is no occurrence. -/
theorem replace_eq_self_iff (h : BeginsOnce p part) (hvalue : value ≠ part) (cs : List Char) :
    replace part value cs = cs ↔ occurrences part cs = 0 := by
  refine ⟨fun hself => ?_, replace_of_occurrences_eq_zero⟩
  by_contra hsome
  have hlength : part.length = value.length := by
    have hsum : (replace part value cs).length + occurrences part cs * part.length =
        cs.length + occurrences part cs * value.length := length_replace h cs
    rw [hself] at hsum
    exact Nat.eq_of_mul_eq_mul_left (Nat.pos_of_ne_zero hsome) (Nat.add_left_cancel hsum)
  -- What is before the first occurrence stays, so the value stands where the part was.
  apply hsome
  clear hsome
  induction cs using inductPart h.ne_nil with
  | nil => exact occurrences_nil h.ne_nil
  | found rest _ =>
    rw [replace_part_append h.ne_nil] at hself
    exact absurd (List.append_inj_left hself hlength.symm) hvalue
  | other c rest hnot ih =>
    rw [replace_cons_of_neg hnot] at hself
    rw [occurrences_cons_of_neg hnot]
    exact ih (List.cons.inj hself).2

end Text

end MibDrivers
