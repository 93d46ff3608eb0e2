import Mathlib.Data.List.MinMax
import MibDrivers.Oid

/-!
# Containment of object identifiers

Identifiers are partially ordered by containment: `a ≤ b` if the arcs of `a` are the first
arcs of `b`, and `a < b` if `b` has more of them. The identifiers that contain a given one
form a chain, so of any number of identifiers there is at most one deepest that contains it,
and at most one shallowest.
Two identifiers of which neither contains the other stand apart, and so does everything
below them.

## Main definitions

* `Oid.Apart` — neither identifier contains the other
* `Oid.deepest?`, `Oid.shallowest?` — the longest and the shortest identifier of a list that
  strictly contain a given one

## Main results

* `Oid.le_or_le` — the identifiers above a given one form a chain
* `Oid.Apart.mono` — what is below identifiers that stand apart stands apart
* `Oid.deepest?_eq_some_iff`, `Oid.deepest?_eq_none_iff` — the deepest identifier above a
  given one is the one below all others
-/

namespace MibDrivers.Oid

variable {a b c x y : Oid} {candidates others : List Oid}

/-- Containment: the arcs of the smaller identifier are the first arcs of the greater one. -/
instance : PartialOrder Oid where
  le a b := a.arcs <+: b.arcs
  le_refl a := List.prefix_refl a.arcs
  le_trans _ _ _ := List.IsPrefix.trans
  le_antisymm a b hab hba := by
    have harcs : a.arcs = b.arcs := hab.eq_of_length_le hba.length_le
    cases a
    cases b
    simpa using harcs

theorem le_def : a ≤ b ↔ a.arcs <+: b.arcs := Iff.rfl

/-- The test for strict containment decides the strict order. -/
@[simp] theorem isAncestorOf_iff : a.isAncestorOf b = true ↔ a < b := by
  simp only [isAncestorOf, Bool.and_eq_true, decide_eq_true_eq, List.isPrefixOf_iff_prefix]
  rw [lt_iff_le_not_ge (a := a), le_def, le_def]
  constructor
  · rintro ⟨hlen, hpre⟩
    exact ⟨hpre, fun hle => absurd hle.length_le (by omega)⟩
  · rintro ⟨hpre, hnot⟩
    refine ⟨?_, hpre⟩
    by_contra hlen
    exact hnot (hpre.eq_of_length_le (by omega) ▸ List.prefix_refl _)

@[simp] theorem isAncestorOf_eq_false_iff : a.isAncestorOf b = false ↔ ¬ a < b := by
  rw [← Bool.not_eq_true, isAncestorOf_iff]

instance : DecidableLE Oid := fun a b => inferInstanceAs (Decidable (a.arcs <+: b.arcs))

instance : DecidableLT Oid := fun _ _ => decidable_of_iff _ isAncestorOf_iff

/-- The identifiers that contain a given one form a chain. -/
theorem le_or_le (ha : a ≤ x) (hb : b ≤ x) : a ≤ b ∨ b ≤ a :=
  List.prefix_or_prefix_of_prefix ha hb

theorem lt_of_not_le (ha : a ≤ x) (hb : b ≤ x) (h : ¬ b ≤ a) : a < b :=
  ((le_or_le ha hb).resolve_right h).lt_of_not_ge h

/-- Of two identifiers above a given one, the longer one is below the other. -/
theorem le_of_length_le (ha : a ≤ x) (hb : b ≤ x) (h : a.length ≤ b.length) : a ≤ b := by
  rcases le_or_le ha hb with hab | hba
  · exact hab
  · have harcs : b.arcs = a.arcs := (le_def.mp hba).eq_of_length_le h
    exact le_def.mpr ⟨[], by rw [List.append_nil, harcs]⟩

/-! ### Identifiers that stand apart -/

/-- Neither identifier contains the other, and they differ. -/
def Apart (a b : Oid) : Prop := ¬ a ≤ b ∧ ¬ b ≤ a

theorem Apart.symm (h : Apart a b) : Apart b a := ⟨h.2, h.1⟩

/-- What is below identifiers that stand apart stands apart. -/
theorem Apart.mono (h : Apart a b) (hx : a ≤ x) (hy : b ≤ y) : Apart x y := by
  -- Were the lower identifiers related, both upper ones would contain the lower of them.
  constructor
  · intro hxy
    rcases le_or_le (hx.trans hxy) hy with hab | hba
    · exact h.1 hab
    · exact h.2 hba
  · intro hyx
    rcases le_or_le hx (hy.trans hyx) with hab | hba
    · exact h.1 hab
    · exact h.2 hba

theorem Apart.ne (h : Apart a b) : a ≠ b := fun hab => h.1 hab.le

theorem Apart.not_lt (h : Apart a b) : ¬ a < b := fun hab => h.1 hab.le

theorem Apart.not_gt (h : Apart a b) : ¬ b < a := fun hba => h.2 hba.le

/-- Two identifiers stand apart, are equal, or one strictly contains the other. -/
theorem apart_or_related (a b : Oid) : Apart a b ∨ a = b ∨ a < b ∨ b < a := by
  by_cases hab : a ≤ b
  · exact .inr (hab.eq_or_lt.imp_right .inl)
  · by_cases hba : b ≤ a
    · rcases hba.eq_or_lt with heq | hlt
      · exact .inr (.inl heq.symm)
      · exact .inr (.inr (.inr hlt))
    · exact .inl ⟨hab, hba⟩

/-! ### The deepest identifier above a given one -/

/-- The longest identifier of a list that strictly contains `x`. -/
def deepest? (candidates : List Oid) (x : Oid) : Option Oid :=
  (candidates.filter (·.isAncestorOf x)).argmax Oid.length

theorem deepest?_eq_none_iff : deepest? candidates x = none ↔ ∀ c ∈ candidates, ¬ c < x := by
  simp only [deepest?, List.argmax_eq_none, List.filter_eq_nil_iff, isAncestorOf_iff]

theorem mem_of_deepest? (h : deepest? candidates x = some a) : a ∈ candidates ∧ a < x := by
  have hmem : a ∈ candidates.filter (·.isAncestorOf x) := List.argmax_mem h
  rwa [List.mem_filter, isAncestorOf_iff] at hmem

theorem length_le_deepest? (h : deepest? candidates x = some a) (hc : c ∈ candidates)
    (hcx : c < x) : c.length ≤ a.length := by
  have hmem : c ∈ candidates.filter (·.isAncestorOf x) :=
    List.mem_filter.mpr ⟨hc, isAncestorOf_iff.mpr hcx⟩
  exact List.le_of_mem_argmax hmem h

/-- An identifier is the deepest one above `x` iff every other one above `x` contains it. -/
theorem deepest?_eq_some_iff :
    deepest? candidates x = some a ↔
      a ∈ candidates ∧ a < x ∧ ∀ c ∈ candidates, c < x → c ≤ a := by
  constructor
  · intro h
    obtain ⟨hmem, hlt⟩ := mem_of_deepest? h
    refine ⟨hmem, hlt, ?_⟩
    intro c hc hcx
    exact le_of_length_le hcx.le hlt.le (length_le_deepest? h hc hcx)
  · rintro ⟨hmem, hlt, hmax⟩
    cases hd : deepest? candidates x with
    | none => exact absurd hlt (deepest?_eq_none_iff.mp hd a hmem)
    | some d =>
      -- The two contain each other: `d` is at least as long, and `a` is below all others.
      obtain ⟨hdmem, hdlt⟩ := mem_of_deepest? hd
      have hle : a ≤ d := le_of_length_le hlt.le hdlt.le (length_le_deepest? hd hmem hlt)
      rw [le_antisymm (hmax d hdmem hdlt) hle]

/-- The deepest identifier above `x` depends on which identifiers of the list are above `x`. -/
theorem deepest?_congr (h : ∀ c, c < x → (c ∈ candidates ↔ c ∈ others)) :
    deepest? candidates x = deepest? others x := by
  cases hd : deepest? others x with
  | none =>
    rw [deepest?_eq_none_iff] at hd ⊢
    exact fun c hc hlt => hd c ((h c hlt).mp hc) hlt
  | some d =>
    rw [deepest?_eq_some_iff] at hd ⊢
    exact ⟨(h d hd.2.1).mpr hd.1, hd.2.1, fun c hc hlt => hd.2.2 c ((h c hlt).mp hc) hlt⟩

/-! ### The shallowest identifier above a given one -/

/-- The shortest identifier of a list that strictly contains `x`. -/
def shallowest? (candidates : List Oid) (x : Oid) : Option Oid :=
  (candidates.filter (·.isAncestorOf x)).argmin Oid.length

theorem shallowest?_eq_none_iff : shallowest? candidates x = none ↔ ∀ c ∈ candidates, ¬ c < x := by
  simp only [shallowest?, List.argmin_eq_none, List.filter_eq_nil_iff, isAncestorOf_iff]

/-- An identifier above `x` that contains every other one above `x` is the shallowest. -/
theorem shallowest?_eq_some (hmem : a ∈ candidates) (hlt : a < x)
    (hmin : ∀ c ∈ candidates, c < x → a ≤ c) : shallowest? candidates x = some a := by
  have ha : a ∈ candidates.filter (·.isAncestorOf x) :=
    List.mem_filter.mpr ⟨hmem, isAncestorOf_iff.mpr hlt⟩
  cases hs : shallowest? candidates x with
  | none => exact absurd hlt (shallowest?_eq_none_iff.mp hs a hmem)
  | some s =>
    have hsmem : s ∈ candidates.filter (·.isAncestorOf x) := List.argmin_mem hs
    rw [List.mem_filter, isAncestorOf_iff] at hsmem
    have hle : s ≤ a := le_of_length_le hsmem.2.le hlt.le (List.le_of_mem_argmin ha hs)
    rw [le_antisymm hle (hmin s hsmem.1 hsmem.2)]

end MibDrivers.Oid
