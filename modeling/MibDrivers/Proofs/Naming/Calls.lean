import Mathlib.Data.Finset.Card
import Mathlib.Order.Bounds.Basic
import MibDrivers.Proofs.Naming.Requests

/-!
# Calls on a registry

A registry is reserved names and asked for names in any order. What is taken at any time is what
was reserved or returned before, and it stays taken. The name for a candidate is the candidate
itself if it is free, and else the candidate with the least positive number that makes it free. The
smaller numbers all belong to names that are taken, and so does the candidate. So the number is no
greater than the number of taken names, however long the search could go on.

## Main definitions

* `NameRegistry.Call` — reserving names, or asking for one
* `NameRegistry.serveAll` — calls one after another
* `NameRegistry.Next` — the name for a candidate if some names are taken

## Main results

* `NameRegistry.contains_serveAll` — what is taken after calls
* `NameRegistry.next_freeName` — the name for a candidate is the next one
* `NameRegistry.serveAll_allocate` — names that are handed out after any calls
-/

namespace MibDrivers

namespace NameRegistry

variable {names : NameRegistry} {known : List String} {candidate name : String}

/-! ### Calls -/

/-- A call on a registry. -/
inductive Call where
  /-- Reserve names. -/
  | reserve (reserved : List String)
  /-- Hand out a name for a candidate. -/
  | allocate (candidate : String)
  deriving DecidableEq, Repr

/-- The names that a call reserves or returns, and the registry afterwards. -/
def serve (names : NameRegistry) : Call → List String × NameRegistry
  | .reserve reserved => (reserved, names.reserve reserved)
  | .allocate candidate => ([(names.allocate candidate).1], (names.allocate candidate).2)

/-- The names that calls reserve or return one after another, and the registry afterwards. -/
def serveAll (names : NameRegistry) : List Call → List String × NameRegistry
  | [] => ([], names)
  | call :: rest =>
    let (first, names) := names.serve call
    let (others, names) := names.serveAll rest
    (first ++ others, names)

theorem serveAll_cons (call : Call) (rest : List Call) :
    names.serveAll (call :: rest) =
      ((names.serve call).1 ++ ((names.serve call).2.serveAll rest).1,
        ((names.serve call).2.serveAll rest).2) :=
  rfl

theorem serveAll_append (first second : List Call) :
    names.serveAll (first ++ second) =
      ((names.serveAll first).1 ++ ((names.serveAll first).2.serveAll second).1,
        ((names.serveAll first).2.serveAll second).2) := by
  induction first generalizing names with
  | nil => rfl
  | cons call rest ih =>
    rw [List.cons_append, serveAll_cons, serveAll_cons, ih, List.append_assoc]

/-- A call takes the names that it reserves or returns, and no others. -/
theorem mem_taken_serve (call : Call) :
    name ∈ (names.serve call).2.taken ↔ name ∈ (names.serve call).1 ∨ name ∈ names.taken := by
  cases call with
  | reserve reserved => simp [serve, reserve]
  | allocate candidate => exact (handsOut_allocate names candidate).taken name

/-- What is taken after calls is what they reserved or returned, and what was taken before. -/
theorem mem_taken_serveAll (calls : List Call) :
    name ∈ (names.serveAll calls).2.taken ↔
      name ∈ (names.serveAll calls).1 ∨ name ∈ names.taken := by
  induction calls generalizing names with
  | nil => simp [serveAll]
  | cons call rest ih =>
    rw [serveAll_cons, ih, mem_taken_serve, List.mem_append]
    tauto

/-- A new registry knows the names that were reserved or returned. -/
theorem contains_serveAll (calls : List Call) :
    (empty.serveAll calls).2.contains name ↔ name ∈ (empty.serveAll calls).1 := by
  rw [contains, List.contains_iff_mem, mem_taken_serveAll]
  exact or_iff_left List.not_mem_nil

/-! ### The next name -/

/-- The name for a candidate if the known names are taken. -/
structure Next (known : List String) (candidate name : String) : Prop where
  /-- No known name is handed out again. -/
  free : name ∉ known
  /-- A candidate that is free is handed out as it is. -/
  of_free : candidate ∉ known → name = candidate
  /-- A candidate that is taken gets the least number that makes it free. As many numbers as there
  are known names are enough, so a counter of 31 bits does not run over before names do. -/
  of_taken : candidate ∈ known → ∃ n, IsLeast {n | 1 ≤ n ∧ numbered candidate n ∉ known} n ∧
    n ≤ known.toFinset.card ∧ name = numbered candidate n

/-- If the variants up to a number are taken, there are at least as many taken names. -/
theorem le_card_of_variants {bound : Nat} (h : ∀ i < bound, variant candidate i ∈ known) :
    bound ≤ known.toFinset.card := by
  have hsub : (Finset.range bound).image (variant candidate) ⊆ known.toFinset := by
    intro name hname
    obtain ⟨i, hi, rfl⟩ := Finset.mem_image.mp hname
    exact List.mem_toFinset.mpr (h i (Finset.mem_range.mp hi))
  have hcard := Finset.card_le_card hsub
  rwa [Finset.card_image_of_injective _ (variant_injective candidate), Finset.card_range] at hcard

/-- The name for a candidate is the next one. -/
theorem next_freeName (names : NameRegistry) (candidate : String) :
    Next names.taken candidate (names.freeName candidate) := by
  have hfree := names.freeName_not_mem candidate
  refine ⟨hfree, freeName_of_not_mem, fun htaken => ?_⟩
  obtain ⟨n, hname, hvariants⟩ := names.exists_freeName_eq candidate
  rw [hname] at hfree ⊢
  -- The candidate is taken, so the name has a number.
  have hpos : 0 < n := by
    rcases Nat.eq_zero_or_pos n with rfl | hpos
    · exact absurd htaken hfree
    · exact hpos
  rw [variant_of_pos hpos] at hfree ⊢
  refine ⟨n, ⟨⟨hpos, hfree⟩, fun m hm => ?_⟩, le_card_of_variants hvariants, rfl⟩
  by_contra hlt
  apply hm.2
  rw [← variant_of_pos hm.1]
  exact hvariants m (not_le.mp hlt)

theorem Next.congr {taken : List String} (h : Next taken candidate name)
    (hiff : ∀ other, other ∈ taken ↔ other ∈ known) : Next known candidate name := by
  have hset : taken.toFinset = known.toFinset := by
    ext other
    rw [List.mem_toFinset, List.mem_toFinset, hiff]
  have hnumbers : {n | 1 ≤ n ∧ numbered candidate n ∉ taken} =
      {n | 1 ≤ n ∧ numbered candidate n ∉ known} := by
    ext n
    exact and_congr_right fun _ => not_congr (hiff _)
  refine ⟨mt (hiff name).mpr h.free, fun hfree => h.of_free (mt (hiff candidate).mp hfree),
    fun htaken => ?_⟩
  rw [← hset, ← hnumbers]
  exact h.of_taken ((hiff candidate).mpr htaken)

/-- Whatever was called before, the name for a candidate is the next one, and all names that were
reserved or returned stay taken. -/
theorem serveAll_allocate (calls : List Call) :
    (∀ candidate, Next (empty.serveAll calls).1 candidate
      ((empty.serveAll calls).2.allocate candidate).1) ∧
    (∀ name, (empty.serveAll calls).2.contains name ↔ name ∈ (empty.serveAll calls).1) ∧
    ∀ later, ∀ name ∈ (empty.serveAll calls).1,
      (empty.serveAll (calls ++ later)).2.contains name := by
  refine ⟨fun candidate => ?_, fun name => contains_serveAll calls, fun later name hname => ?_⟩
  · apply (next_freeName (empty.serveAll calls).2 candidate).congr
    intro other
    rw [mem_taken_serveAll]
    exact or_iff_left List.not_mem_nil
  · rw [contains_serveAll, serveAll_append]
    exact List.mem_append_left _ hname

end NameRegistry

end MibDrivers
