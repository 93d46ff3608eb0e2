import Mathlib.Data.List.DropRight
import MibDrivers.Proofs.Naming.Registry

/-!
# Rows of requests

The variants of a candidate are numbered, the candidate itself being the first. A request is
met with the first variant that is free. So as long as no other candidate has a variant in
common with it, a row of requests hands out the variants of a candidate one after the other, as
many as there are requests for it. Two candidates that do not end in a digit have no variant in
common, since a variant without the digits at its end is the candidate.

## Main definitions

* `NameRegistry.variant` — the variants of a candidate by their numbers
* `NameRegistry.stem` — a name without the digits at its end
* `NameRegistry.allocateAll` — a row of requests

## Main results

* `NameRegistry.stem_variant` — all variants of a candidate have one stem
* `NameRegistry.mem_allocateAll_variant_iff` — which variants of a candidate are handed out
-/

namespace MibDrivers

namespace NameRegistry

variable {names : NameRegistry} {candidate other name : String} {candidates : List String}
  {i j start : Nat}

/-! ### Variants -/

/-- The candidate itself, and then the candidate with each positive number after it. -/
def variant (candidate : String) : Nat → String
  | 0 => candidate
  | n + 1 => numbered candidate (n + 1)

theorem variant_of_pos (h : 0 < i) : variant candidate i = numbered candidate i := by
  cases i with
  | zero => cases h
  | succ n => rfl

theorem variant_iff : Variant candidate name ↔ ∃ i, name = variant candidate i := by
  constructor
  · rintro (rfl | ⟨n, rfl⟩)
    · exact ⟨0, rfl⟩
    · exact ⟨n + 1, rfl⟩
  · rintro ⟨i, rfl⟩
    cases i with
    | zero => exact .inl rfl
    | succ n => exact .inr ⟨n, rfl⟩

theorem variant_injective (candidate : String) : Function.Injective (variant candidate) := by
  intro i j h
  cases i with
  | zero =>
    cases j with
    | zero => rfl
    | succ n => exact absurd h.symm (numbered_ne candidate (n + 1))
  | succ m =>
    cases j with
    | zero => exact absurd h (numbered_ne candidate (m + 1))
    | succ n => exact numbered_injective candidate h

/-- A search through the numbers finds the first one with a result. -/
theorem exists_of_findSome?_range {α : Type} {f : Nat → Option α} {bound : Nat} {found : α}
    (h : (List.range bound).findSome? f = some found) :
    ∃ m, f m = some found ∧ ∀ k < m, f k = none := by
  obtain ⟨before, m, after, hrange, hm, hbefore⟩ := List.findSome?_eq_some_iff.mp h
  refine ⟨m, hm, fun k hk => hbefore k ?_⟩
  have hsorted := List.pairwise_lt_range (n := bound)
  have hmem : k ∈ List.range bound := by
    have hbound : m ∈ List.range bound := by simp [hrange]
    exact List.mem_range.mpr (hk.trans (List.mem_range.mp hbound))
  rw [hrange] at hsorted hmem
  -- A smaller number does not come later.
  rcases List.mem_append.mp hmem with hfirst | hlater
  · exact hfirst
  · have hafter := (List.pairwise_cons.mp (List.pairwise_append.mp hsorted).2.1).1
    rcases List.mem_cons.mp hlater with rfl | hmem
    · exact absurd hk (lt_irrefl k)
    · exact absurd (hafter k hmem) hk.le.not_gt

/-- The name for a candidate is a variant of which all earlier ones are taken. -/
theorem exists_freeName_eq (names : NameRegistry) (candidate : String) :
    ∃ i, names.freeName candidate = variant candidate i ∧
      ∀ j < i, variant candidate j ∈ names.taken := by
  by_cases hmem : candidate ∈ names.taken
  · obtain ⟨n, hname, -⟩ := freeName_of_mem hmem
    have hsearch := hname
    rw [freeName, if_pos (by simpa [contains] using hmem)] at hsearch
    cases hfind : (List.range names.taken.length).findSome? fun n =>
        let name := numbered candidate (n + 1)
        if names.contains name then none else some name with
    | none =>
      -- Then the candidate would be handed out, which is no numbered name.
      rw [hfind, Option.getD_none] at hsearch
      exact absurd hsearch.symm (numbered_ne candidate (n + 1))
    | some found =>
      rw [hfind, Option.getD_some] at hsearch
      obtain ⟨m, hm, hskipped⟩ := exists_of_findSome?_range hfind
      simp only [Option.ite_none_left_eq_some, Option.some.injEq] at hm
      refine ⟨m + 1, ?_, fun j hj => ?_⟩
      · rw [hname, ← hsearch, ← hm.2, variant]
      · cases j with
        | zero => exact hmem
        | succ k =>
          have htaken := hskipped k (Nat.lt_of_succ_lt_succ hj)
          rw [ite_eq_left_iff] at htaken
          by_contra hfree
          exact absurd (htaken (by simpa [contains, variant] using hfree)) (by simp)
  · exact ⟨0, freeName_of_not_mem hmem, fun j hj => absurd hj (Nat.not_lt_zero j)⟩

/-- If the variants that are taken are those up to a number, the next one is handed out. -/
theorem freeName_eq_variant (h : ∀ i, variant candidate i ∈ names.taken ↔ i < start) :
    names.freeName candidate = variant candidate start := by
  obtain ⟨i, hname, htaken⟩ := exists_freeName_eq names candidate
  -- It is free, so its number is no smaller, and those before it are taken, so it is no greater.
  have hfree := names.freeName_not_mem candidate
  rw [hname, h] at hfree
  have hle : i ≤ start := by
    by_contra hlt
    exact absurd ((h start).mp (htaken start (by omega))) (lt_irrefl start)
  rw [hname, show i = start by omega]

/-! ### Stems -/

/-- A name without the digits at its end. -/
def stem (name : String) : List Char := name.toList.rdropWhile Text.isDigit

theorem stem_of_endsIn (h : Text.endsIn Text.isDigit name = false) : stem name = name.toList := by
  rw [stem, List.rdropWhile_eq_self_iff]
  intro hne hlast
  rw [Text.endsIn, List.getLast?_eq_some_getLast hne, Option.any_some, hlast] at h
  cases h

theorem stem_prefix (name : String) : stem name <+: name.toList := List.rdropWhile_prefix _ _

theorem stem_numbered (candidate : String) (n : Nat) :
    stem (numbered candidate n) = stem candidate := by
  have hdigits : ∀ c ∈ (Text.decimal n).reverse, Text.isDigit c := by
    intro c hc
    exact Text.isDigit_of_mem_decimal (List.mem_reverse.mp hc)
  rw [stem, toList_numbered, List.rdropWhile, List.reverse_append,
    List.dropWhile_append_of_pos hdigits, ← List.rdropWhile, stem]

theorem stem_variant (candidate : String) (i : Nat) :
    stem (variant candidate i) = stem candidate := by
  cases i with
  | zero => rfl
  | succ n => exact stem_numbered candidate (n + 1)

/-! ### Rows -/

/-- Meets requests one after the other: the names that are handed out, and the registry
afterwards. -/
def allocateAll (names : NameRegistry) : List String → List String × NameRegistry
  | [] => ([], names)
  | candidate :: rest =>
    let (name, names) := names.allocate candidate
    let (handed, names) := names.allocateAll rest
    (name :: handed, names)

@[simp] theorem allocateAll_nil : names.allocateAll [] = ([], names) := rfl

theorem allocateAll_cons (candidate : String) (rest : List String) :
    names.allocateAll (candidate :: rest) =
      ((names.allocate candidate).1 :: ((names.allocate candidate).2.allocateAll rest).1,
        ((names.allocate candidate).2.allocateAll rest).2) :=
  rfl

theorem allocateAll_append (first second : List String) :
    names.allocateAll (first ++ second) =
      ((names.allocateAll first).1 ++ ((names.allocateAll first).2.allocateAll second).1,
        ((names.allocateAll first).2.allocateAll second).2) := by
  induction first generalizing names with
  | nil => rfl
  | cons candidate rest ih =>
    rw [List.cons_append, allocateAll_cons, allocateAll_cons, ih, List.cons_append]

theorem handsOut_allocateAll (names : NameRegistry) (candidates : List String) :
    HandsOut names (names.allocateAll candidates).1 (names.allocateAll candidates).2 := by
  induction candidates generalizing names with
  | nil => exact .refl names
  | cons candidate rest ih =>
    rw [allocateAll_cons]
    exact (handsOut_allocate names candidate).trans (ih _)

/-- Each name is a variant of a candidate that was asked for. -/
theorem exists_variant_of_mem_allocateAll (h : name ∈ (names.allocateAll candidates).1) :
    ∃ candidate ∈ candidates, Variant candidate name := by
  induction candidates generalizing names with
  | nil => cases h
  | cons first rest ih =>
    rw [allocateAll_cons] at h
    rcases List.mem_cons.mp h with rfl | hrest
    · exact ⟨first, List.mem_cons_self, names.variant_freeName first⟩
    · obtain ⟨candidate, hmem, hvariant⟩ := ih hrest
      exact ⟨candidate, List.mem_cons_of_mem _ hmem, hvariant⟩

/-- What was asked for is taken afterwards. -/
theorem mem_taken_allocateAll (names : NameRegistry) (h : candidate ∈ candidates) :
    candidate ∈ (names.allocateAll candidates).2.taken := by
  induction candidates generalizing names with
  | nil => cases h
  | cons first rest ih =>
    rw [allocateAll_cons]
    rcases List.mem_cons.mp h with rfl | hrest
    · exact (handsOut_allocateAll _ rest).subset (mem_taken_allocate names candidate)
    · exact ih _ hrest

/-- If no other candidate has a variant in common with it, a row of requests hands out the
variants of a candidate from the first one that is free, as many as there are requests for it. -/
theorem mem_allocateAll_variant_iff
    (hother : ∀ d ∈ candidates, d = candidate ∨ ∀ i j, variant candidate i ≠ variant d j)
    (htaken : ∀ i, variant candidate i ∈ names.taken ↔ i < start) :
    variant candidate i ∈ (names.allocateAll candidates).1 ↔
      start ≤ i ∧ i < start + candidates.count candidate := by
  induction candidates generalizing names start with
  | nil =>
    simp only [allocateAll_nil, List.not_mem_nil, List.count_nil, false_iff]
    omega
  | cons d rest ih =>
    have hrest : ∀ e ∈ rest, e = candidate ∨ ∀ i j, variant candidate i ≠ variant e j :=
      fun e he => hother e (List.mem_cons_of_mem _ he)
    rw [allocateAll_cons, List.mem_cons]
    by_cases hd : d = candidate
    · -- A request for the candidate takes the next variant.
      subst hd
      have hname : (names.allocate d).1 = variant d start := freeName_eq_variant htaken
      have hnext : ∀ i, variant d i ∈ (names.allocate d).2.taken ↔ i < start + 1 := by
        intro i
        rw [(handsOut_allocate names d).taken, htaken, List.mem_singleton, hname,
          (variant_injective d).eq_iff]
        omega
      rw [ih hrest hnext, hname, (variant_injective d).eq_iff, List.count_cons_self]
      omega
    · -- A request for another candidate takes none.
      have happart := (hother d List.mem_cons_self).resolve_left hd
      have hne : ∀ i, variant candidate i ≠ (names.allocate d).1 := by
        intro i heq
        obtain ⟨j, hname⟩ := variant_iff.mp (names.variant_freeName d)
        exact happart i j (heq.trans hname)
      have hnext : ∀ i, variant candidate i ∈ (names.allocate d).2.taken ↔ i < start := by
        intro i
        rw [(handsOut_allocate names d).taken, htaken, List.mem_singleton, or_iff_right (hne i)]
      rw [ih hrest hnext, or_iff_right (hne i), List.count_cons_of_ne hd]

end NameRegistry

end MibDrivers
