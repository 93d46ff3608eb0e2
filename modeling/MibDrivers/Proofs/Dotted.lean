import Mathlib.Logic.Function.Basic
import MibDrivers.Oid
import MibDrivers.Proofs.Text.Decimal
import MibDrivers.Proofs.Text.Lines

/-!
# Dotted texts

An identifier has one dotted text that is written, and more that are read: there may be blanks
around it, and an arc may have a plus sign and leading zeros. In what is written, the points keep
the arcs apart, so one text begins with another and a point exactly if the arcs do.

## Main definitions

* `Oid.DenotesArc`, `Oid.DenotesArcs`, `Oid.Denotes` — the texts of an arc, of arcs and of an
  identifier

## Main results

* `Oid.isDigit_or_of_mem_dottedChars` — the characters of a dotted text
* `Oid.dottedChars_injective` — a dotted text has one identifier
* `Oid.ofDotted_reads` — exactly the texts that denote an identifier are read
* `Oid.dotted_append_point_iff` — containment can be told from the dotted texts
-/

namespace MibDrivers

namespace Oid

/-- A dotted text has digits and points only. -/
theorem isDigit_or_of_mem_dottedChars {oid : Oid} {c : Char} (h : c ∈ oid.dottedChars) :
    Text.isDigit c ∨ c = '.' := by
  rcases Text.mem_joinWith h with hpoint | ⟨piece, hpiece, hc⟩
  · exact .inr (List.mem_singleton.mp hpoint)
  · obtain ⟨arc, -, rfl⟩ := List.mem_map.mp hpiece
    exact .inl (Text.isDigit_of_mem_decimal hc)

theorem feed_not_mem_dottedChars (oid : Oid) : '\n' ∉ oid.dottedChars := by
  intro hmem
  rcases isDigit_or_of_mem_dottedChars hmem with hdigit | hpoint
  · exact absurd hdigit (by decide)
  · exact absurd hpoint (by decide)

/-- The pieces of a dotted text are the numerals of the arcs, or one empty piece if there are no
arcs. -/
theorem splitAt_dottedChars (oid : Oid) :
    Text.splitAt '.' oid.dottedChars =
      if oid.arcs = [] then [[]] else oid.arcs.map fun arc => Text.decimal arc.toNat := by
  split_ifs with hnone
  · rw [dottedChars, hnone]
    rfl
  · refine Text.splitAt_joinWith (by simpa using hnone) fun piece hpiece hpoint => ?_
    obtain ⟨arc, -, rfl⟩ := List.mem_map.mp hpiece
    exact absurd (Text.isDigit_of_mem_decimal hpoint) (by decide)

theorem numeral_injective : Function.Injective fun arc : UInt32 => Text.decimal arc.toNat :=
  fun _ _ h => UInt32.toNat_inj.mp (Text.decimal_injective h)

/-- Different identifiers have different dotted texts. -/
theorem dottedChars_injective : Function.Injective dottedChars := by
  intro a b h
  have hpieces : Text.splitAt '.' a.dottedChars = Text.splitAt '.' b.dottedChars := by rw [h]
  rw [splitAt_dottedChars, splitAt_dottedChars] at hpieces
  -- A numeral has at least one digit, so no arcs are told from some arcs.
  have hnumeral : ∀ arcs : List UInt32, [[]] ≠ arcs.map fun arc => Text.decimal arc.toNat := by
    intro arcs heq
    have hmem : [] ∈ arcs.map fun arc => Text.decimal arc.toNat := by rw [← heq]; simp
    obtain ⟨arc, -, hnil⟩ := List.mem_map.mp hmem
    exact Text.decimal_ne_nil _ hnil
  have harcs : a.arcs = b.arcs := by
    split_ifs at hpieces with ha hb hb
    · rw [ha, hb]
    · exact absurd hpieces (hnumeral b.arcs)
    · exact absurd hpieces.symm (hnumeral a.arcs)
    · exact List.map_injective_iff.mpr numeral_injective hpieces
  cases a
  cases b
  exact congrArg Oid.mk harcs

/-! ### Texts that are read -/

variable {cs : List Char} {arc : UInt32} {arcs : List UInt32} {text : String} {oid : Oid}

/-- A text denotes an arc: digits, after at most one plus sign, of a value that fits 32 bits. -/
inductive DenotesArc : List Char → UInt32 → Prop
  | digits {cs : List Char} {n : Nat} (hcs : Text.Numeral cs n) (hfits : n ≤ 4294967295) :
      DenotesArc cs (UInt32.ofNat n)
  | plus {cs : List Char} {n : Nat} (hcs : Text.Numeral cs n) (hfits : n ≤ 4294967295) :
      DenotesArc ('+' :: cs) (UInt32.ofNat n)

/-- A text denotes arcs, at least one, with a point between neighbours. -/
inductive DenotesArcs : List Char → List UInt32 → Prop
  | last {piece : List Char} {arc : UInt32} (h : DenotesArc piece arc) : DenotesArcs piece [arc]
  | cons {piece rest : List Char} {arc : UInt32} {arcs : List UInt32} (h : DenotesArc piece arc)
      (hrest : DenotesArcs rest arcs) : DenotesArcs (piece ++ '.' :: rest) (arc :: arcs)

/-- A text denotes an identifier: apart from blanks around, it denotes its arcs. -/
def Denotes (text : String) (oid : Oid) : Prop :=
  ∃ before inner after, text.toList = before ++ (inner ++ after) ∧
    (∀ c ∈ before, Text.isBlank c) ∧ (∀ c ∈ after, Text.isBlank c) ∧ DenotesArcs inner oid.arcs

/-- Without its sign, an arc is read if it is a numeral of a value that fits. -/
theorem fits_eq_some_iff :
    ((Text.digits? cs).bind fun value =>
      if value < UInt32.size then some (UInt32.ofNat value) else none) = some arc ↔
      ∃ n, Text.Numeral cs n ∧ n ≤ 4294967295 ∧ UInt32.ofNat n = arc := by
  simp only [Option.bind_eq_some_iff, Text.digits?_eq_some_iff, Option.ite_none_right_eq_some,
    Option.some.injEq, UInt32.size, Nat.lt_succ_iff]

theorem arc?_eq_some_iff : arc? cs = some arc ↔ DenotesArc cs arc := by
  unfold arc?
  constructor
  · intro h
    dsimp only at h
    split at h
    · obtain ⟨n, hcs, hfits, rfl⟩ := fits_eq_some_iff.mp h
      exact .plus hcs hfits
    · obtain ⟨n, hcs, hfits, rfl⟩ := fits_eq_some_iff.mp h
      exact .digits hcs hfits
  · rintro (⟨hcs, hfits⟩ | ⟨hcs, hfits⟩)
    · -- A numeral has no plus sign, so the two forms exclude each other.
      dsimp only
      split
      · exact absurd (hcs.isDigit_of_mem List.mem_cons_self) (by decide)
      · exact fits_eq_some_iff.mpr ⟨_, hcs, hfits, rfl⟩
    · exact fits_eq_some_iff.mpr ⟨_, hcs, hfits, rfl⟩

theorem DenotesArc.isDigit_or_of_mem {c : Char} (h : DenotesArc cs arc) (hc : c ∈ cs) :
    Text.isDigit c ∨ c = '+' := by
  obtain ⟨hcs, -⟩ | ⟨hcs, -⟩ := h
  · exact .inl (hcs.isDigit_of_mem hc)
  · exact (List.mem_cons.mp hc).symm.imp_left hcs.isDigit_of_mem

theorem DenotesArc.point_not_mem (h : DenotesArc cs arc) : '.' ∉ cs := fun hmem =>
  absurd (h.isDigit_or_of_mem hmem) (by decide)

theorem DenotesArcs.not_isBlank {c : Char} (h : DenotesArcs cs arcs) (hc : c ∈ cs) :
    ¬ Text.isBlank c := by
  have hpiece : ∀ {piece arc}, DenotesArc piece arc → c ∈ piece → ¬ Text.isBlank c := by
    intro piece arc hpiece hmem
    rcases hpiece.isDigit_or_of_mem hmem with hdigit | rfl
    · exact Text.not_isBlank_of_isDigit hdigit
    · decide
  induction h with
  | last h => exact hpiece h hc
  | cons h _ ih =>
    rcases List.mem_append.mp hc with hmem | hmem
    · exact hpiece h hmem
    · rcases List.mem_cons.mp hmem with rfl | hrest
      · decide
      · exact ih hrest

theorem DenotesArcs.ne_nil (h : DenotesArcs cs arcs) : arcs ≠ [] := by
  cases h <;> simp

/-- Pieces that are read as arcs denote these arcs when points are put between them. -/
theorem denotesArcs_joinWith {pieces : List (List Char)} (hne : pieces ≠ [])
    (h : pieces.mapM arc? = some arcs) : DenotesArcs (Text.joinWith ['.'] pieces) arcs := by
  induction pieces generalizing arcs with
  | nil => exact absurd rfl hne
  | cons piece rest ih =>
    rw [List.mapM_cons, Option.bind_eq_bind, Option.bind_eq_some_iff] at h
    obtain ⟨arc, harc, h⟩ := h
    obtain ⟨others, hothers, h⟩ := Option.bind_eq_some_iff.mp h
    obtain rfl := Option.some.inj h
    have hpiece := arc?_eq_some_iff.mp harc
    -- Only the last piece has no point after it.
    by_cases hlast : rest = []
    · subst hlast
      obtain rfl := Option.some.inj hothers
      exact .last hpiece
    · rw [Text.joinWith_cons hlast, List.append_assoc]
      exact .cons hpiece (ih hlast hothers)

/-- The arcs that a text denotes are those of its pieces, as no piece has a point. -/
theorem DenotesArcs.mapM_arc? (h : DenotesArcs cs arcs) :
    (Text.splitAt '.' cs).mapM arc? = some arcs := by
  induction h with
  | last h =>
    rw [Text.splitAt_of_not_mem h.point_not_mem, List.mapM_cons, arc?_eq_some_iff.mpr h]
    rfl
  | cons h _ ih =>
    rw [Text.splitAt_append_separator, Text.splitAt_of_not_mem h.point_not_mem,
      List.singleton_append, List.mapM_cons, arc?_eq_some_iff.mpr h, ih]
    rfl

theorem mapM_arc?_eq_some_iff :
    (Text.splitAt '.' cs).mapM arc? = some arcs ↔ DenotesArcs cs arcs := by
  refine ⟨fun h => ?_, DenotesArcs.mapM_arc?⟩
  obtain ⟨piece, pieces, hpieces⟩ := Text.exists_splitAt_eq_cons '.' cs
  have hne : Text.splitAt '.' cs ≠ [] := by simp [hpieces]
  exact Text.joinWith_splitAt '.' cs ▸ denotesArcs_joinWith hne h

/-- A text is read as the identifier that it denotes. -/
theorem ofDotted?_eq_some_iff : ofDotted? text = some oid ↔ Denotes text oid := by
  have htrim : ofDotted? text = some oid ↔ DenotesArcs (Text.trimChars text.toList) oid.arcs := by
    rw [ofDotted?, Option.map_eq_some_iff, ← mapM_arc?_eq_some_iff]
    constructor
    · rintro ⟨arcs, harcs, rfl⟩
      exact harcs
    · intro h
      exact ⟨oid.arcs, h, rfl⟩
  -- What denotes arcs has no blanks at all, so trimming takes exactly those around it.
  rw [htrim]
  constructor
  · intro h
    obtain ⟨before, after, htext, hbefore, hafter⟩ := Text.exists_blanks_around text.toList
    exact ⟨before, _, after, htext, hbefore, hafter, h⟩
  · rintro ⟨before, inner, after, htext, hbefore, hafter, h⟩
    rwa [htext, Text.trimChars_append_append hbefore hafter]
    · exact fun c hc => h.not_isBlank (List.mem_of_mem_head? hc)
    · exact fun c hc => h.not_isBlank (List.mem_of_mem_getLast? hc)

theorem ofDotted_eq_ok_iff : ofDotted text = .ok oid ↔ Denotes text oid := by
  rw [ofDotted, ← ofDotted?_eq_some_iff]
  cases ofDotted? text <;> simp

theorem ofDotted_eq_error_iff :
    ofDotted text = .error (.invalidOid text) ↔ ∀ oid, ¬ Denotes text oid := by
  simp only [ofDotted, ← ofDotted?_eq_some_iff]
  cases ofDotted? text <;> simp

/-! ### What is written is read -/

theorem denotesArc_decimal (arc : UInt32) : DenotesArc (Text.decimal arc.toNat) arc := by
  have hnumeral := Text.digits?_eq_some_iff.mp (Text.digits?_decimal arc.toNat)
  have hfits : arc.toNat ≤ 4294967295 := Nat.le_of_lt_succ arc.toNat_lt
  have hdigits := DenotesArc.digits hnumeral hfits
  rwa [UInt32.ofNat_toNat] at hdigits

theorem denotesArcs_dottedChars (h : oid.arcs ≠ []) : DenotesArcs oid.dottedChars oid.arcs := by
  obtain ⟨arcs⟩ := oid
  induction arcs with
  | nil => exact absurd rfl h
  | cons arc rest ih =>
    cases rest with
    | nil => exact .last (denotesArc_decimal arc)
    | cons next others =>
      have hcons := DenotesArcs.cons (denotesArc_decimal arc) (ih nofun)
      rwa [← List.singleton_append, ← List.append_assoc] at hcons

/-- A dotted text denotes its identifier, unless there are no arcs. -/
theorem denotes_dotted_iff : Denotes oid.dotted oid ↔ oid.arcs ≠ [] := by
  constructor
  · rintro ⟨before, inner, after, -, -, -, h⟩
    exact h.ne_nil
  · intro h
    exact ⟨[], oid.dottedChars, [], by simp [dotted], nofun, nofun, denotesArcs_dottedChars h⟩

theorem dotted_injective : Function.Injective dotted := fun _ _ h =>
  dottedChars_injective (String.ofList_injective h)

/-- A text is read as an identifier exactly if it denotes it, and otherwise the error quotes the
whole text. An identifier with arcs is read back from its dotted text, which no other one has. -/
theorem ofDotted_reads (text : String) (oid other : Oid) :
    (ofDotted text = .ok oid ↔ Denotes text oid) ∧
      (ofDotted text = .error (.invalidOid text) ↔ ∀ o, ¬ Denotes text o) ∧
      (ofDotted oid.dotted = .ok oid ↔ oid.arcs ≠ []) ∧
      (oid.dotted = other.dotted ↔ oid = other) :=
  ⟨ofDotted_eq_ok_iff, ofDotted_eq_error_iff, ofDotted_eq_ok_iff.trans denotes_dotted_iff,
    dotted_injective.eq_iff⟩

/-! ### Containment -/

variable {a b : Oid}

theorem isAncestorOf_iff_exists_arcs :
    a.isAncestorOf b = true ↔ ∃ arcs, arcs ≠ [] ∧ b.arcs = a.arcs ++ arcs := by
  rw [isAncestorOf, Bool.and_eq_true, decide_eq_true_eq, List.isPrefixOf_iff_prefix]
  constructor
  · rintro ⟨hlength, arcs, harcs⟩
    refine ⟨arcs, ?_, harcs.symm⟩
    rintro rfl
    simp [← harcs] at hlength
  · rintro ⟨arcs, hne, harcs⟩
    have hpos := List.length_pos_of_ne_nil hne
    refine ⟨?_, arcs, harcs.symm⟩
    rw [harcs, List.length_append]
    omega

/-- The arcs that stand before a point of a dotted text. -/
theorem exists_arcs_of_dottedChars {rest : List Char}
    (h : b.dottedChars = a.dottedChars ++ '.' :: rest) :
    a.arcs ≠ [] ∧ ∃ arcs, arcs ≠ [] ∧ b.arcs = a.arcs ++ arcs := by
  have hb : b.arcs ≠ [] := by
    intro hnone
    simp [dottedChars, hnone, Text.joinWith] at h
  obtain ⟨piece, pieces, hrest⟩ := Text.exists_splitAt_eq_cons '.' rest
  have hpieces := congrArg (Text.splitAt '.') h
  rw [Text.splitAt_append_separator, splitAt_dottedChars, if_neg hb, splitAt_dottedChars,
    hrest] at hpieces
  split_ifs at hpieces with ha
  · -- A numeral is not empty, as the piece before the point would be.
    obtain ⟨arc, others, hcons⟩ := List.exists_cons_of_ne_nil hb
    rw [hcons, List.map_cons, List.singleton_append, List.cons.injEq] at hpieces
    exact absurd hpieces.1 (Text.decimal_ne_nil _)
  · -- The pieces before the point are those of `a`, and numerals tell their arcs.
    obtain ⟨front, back, hsplit, hfront, hback⟩ := List.map_eq_append_iff.mp hpieces
    obtain rfl : front = a.arcs := List.map_injective_iff.mpr numeral_injective hfront
    refine ⟨ha, back, ?_, hsplit⟩
    rintro rfl
    cases hback

/-- The dotted text of an identifier begins with that of another one and a point exactly if the
other one has arcs and contains it. -/
theorem dotted_append_point_iff (a b : Oid) :
    (∃ rest, b.dotted = a.dotted ++ "." ++ rest) ↔ a.arcs ≠ [] ∧ a.isAncestorOf b = true := by
  have hchars (rest : String) :
      b.dotted = a.dotted ++ "." ++ rest ↔ b.dottedChars = a.dottedChars ++ '.' :: rest.toList := by
    rw [← String.toList_inj]
    simp [dotted]
  simp only [hchars, isAncestorOf_iff_exists_arcs]
  constructor
  · rintro ⟨rest, h⟩
    exact exists_arcs_of_dottedChars h
  · rintro ⟨ha, arcs, hne, harcs⟩
    refine ⟨dotted ⟨arcs⟩, ?_⟩
    rw [dotted, String.toList_ofList, dottedChars, dottedChars, dottedChars, harcs, List.map_append,
      Text.joinWith_append (by simpa using ha) (by simpa using hne), List.append_assoc,
      List.singleton_append]

/-- The digits of an arc may begin those of another one. -/
example : (⟨[1, 1]⟩ : Oid).isAncestorOf ⟨[1, 10]⟩ = false := by decide

end Oid

end MibDrivers
