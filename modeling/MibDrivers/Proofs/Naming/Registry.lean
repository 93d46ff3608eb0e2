import Mathlib.Data.List.Nodup
import Mathlib.Data.List.Range
import MibDrivers.Naming.Registry
import MibDrivers.Proofs.Text.Decimal

/-!
# Names that are handed out are free

A candidate and its numbered variants are all different, so there are more of them than
taken names as soon as there are as many variants as taken names and the candidate itself is
taken. One of them is free, and it is the name that is handed out. So the names of a row of
requests are distinct, and none of them was taken before.

## Main definitions

* `NameRegistry.Variant` — a candidate, or a candidate with a number after it
* `NameRegistry.HandsOut` — the names that a row of requests hands out

## Main results

* `NameRegistry.freeName_not_mem` — the name for a candidate is free
* `NameRegistry.HandsOut.trans` — rows of requests can be put together
-/

namespace MibDrivers

namespace Text

/-- The text has a last character, and this character has the property. -/
def endsIn (p : Char → Bool) (text : String) : Bool := text.toList.getLast?.any p

theorem endsIn_append {p : Char → Bool} (text : String) {more : String} (h : endsIn p more) :
    endsIn p (text ++ more) := by
  cases hlast : more.toList.getLast? with
  | none => simp [endsIn, hlast] at h
  | some c =>
    rw [endsIn, String.toList_append, List.getLast?_append, hlast]
    rwa [endsIn, hlast] at h

theorem endsIn_mono {p q : Char → Bool} {text : String} (hpq : ∀ c, p c → q c)
    (h : endsIn p text) : endsIn q text := by
  obtain ⟨c, hlast, hp⟩ := (Option.any_eq_true _ _).mp h
  exact (Option.any_eq_true _ _).mpr ⟨c, hlast, hpq c hp⟩

theorem toList_ne_nil_of_endsIn {p : Char → Bool} {text : String} (h : endsIn p text) :
    text.toList ≠ [] := by
  intro hnil
  simp [endsIn, hnil] at h

end Text

namespace NameRegistry

variable {names mid after : NameRegistry} {first second : List String} {candidate : String}

theorem toList_numbered (candidate : String) (n : Nat) :
    (numbered candidate n).toList = candidate.toList ++ Text.decimal n := by
  simp [numbered]

/-- Different numbers make different variants. -/
theorem numbered_injective (candidate : String) : Function.Injective (numbered candidate) := by
  intro m n h
  have hlist : candidate.toList ++ Text.decimal m = candidate.toList ++ Text.decimal n := by
    rw [← toList_numbered, ← toList_numbered, h]
  exact Text.decimal_injective (List.append_cancel_left hlist)

/-- No variant is the candidate itself. -/
theorem numbered_ne (candidate : String) (n : Nat) : numbered candidate n ≠ candidate := by
  intro h
  have hlist := toList_numbered candidate n
  rw [h, List.self_eq_append_right] at hlist
  exact Text.decimal_ne_nil n hlist

/-- If a candidate is taken, one of as many variants as there are taken names is free. -/
theorem exists_numbered_free (h : candidate ∈ names.taken) :
    ∃ n < names.taken.length, numbered candidate (n + 1) ∉ names.taken := by
  by_contra hnone
  push Not at hnone
  -- The candidate and its variants would be more names than are taken.
  let variants := (List.range names.taken.length).map fun n => numbered candidate (n + 1)
  have hnodup : (candidate :: variants).Nodup := by
    refine List.nodup_cons.mpr ⟨?_, ?_⟩
    · intro hmem
      obtain ⟨n, -, hn⟩ := List.mem_map.mp hmem
      exact numbered_ne candidate (n + 1) hn
    · refine List.nodup_range.map ?_
      intro m n hmn
      exact Nat.succ_injective (numbered_injective candidate hmn)
  have hsub : candidate :: variants ⊆ names.taken := by
    refine List.cons_subset.mpr ⟨h, fun name hname => ?_⟩
    obtain ⟨n, hn, rfl⟩ := List.mem_map.mp hname
    exact hnone n (List.mem_range.mp hn)
  have hlength := hnodup.length_le_of_subset hsub
  rw [List.length_cons, List.length_map, List.length_range] at hlength
  omega

/-- A candidate that is free is handed out as it is. -/
theorem freeName_of_not_mem (h : candidate ∉ names.taken) : names.freeName candidate = candidate := by
  rw [freeName, if_neg (by simpa [contains] using h)]

/-- For a candidate that is taken, a variant that is free is handed out. -/
theorem freeName_of_mem (h : candidate ∈ names.taken) :
    ∃ n, names.freeName candidate = numbered candidate (n + 1) ∧
      numbered candidate (n + 1) ∉ names.taken := by
  rw [freeName, if_pos (by simpa [contains] using h)]
  obtain ⟨n, hn, hfree⟩ := exists_numbered_free h
  cases hfind : (List.range names.taken.length).findSome? fun n =>
      let name := numbered candidate (n + 1)
      if names.contains name then none else some name with
  | none =>
    -- The search cannot have passed the free variant.
    have hskipped := List.findSome?_eq_none_iff.mp hfind n (List.mem_range.mpr hn)
    simp [contains, hfree] at hskipped
  | some name =>
    obtain ⟨m, -, hm⟩ := List.exists_of_findSome?_eq_some hfind
    simp only [Option.ite_none_left_eq_some, Option.some.injEq] at hm
    obtain ⟨hcontains, rfl⟩ := hm
    exact ⟨m, rfl, by simpa [contains] using hcontains⟩

/-- The name for a candidate is free. -/
theorem freeName_not_mem (names : NameRegistry) (candidate : String) :
    names.freeName candidate ∉ names.taken := by
  by_cases hmem : candidate ∈ names.taken
  · obtain ⟨n, hname, hfree⟩ := freeName_of_mem hmem
    rwa [hname]
  · rwa [freeName_of_not_mem hmem]

/-- The name is the candidate itself, or the candidate with a positive number after it. -/
def Variant (candidate name : String) : Prop :=
  name = candidate ∨ ∃ n, name = numbered candidate (n + 1)

theorem variant_freeName (names : NameRegistry) (candidate : String) :
    Variant candidate (names.freeName candidate) := by
  by_cases hmem : candidate ∈ names.taken
  · obtain ⟨n, hname, -⟩ := freeName_of_mem hmem
    exact .inr ⟨n, hname⟩
  · exact .inl (freeName_of_not_mem hmem)

theorem endsIn_decimal (n : Nat) : Text.endsIn Text.isDigit (String.ofList (Text.decimal n)) := by
  have hne := Text.decimal_ne_nil n
  rw [Text.endsIn, String.toList_ofList, List.getLast?_eq_some_getLast hne]
  exact Text.isDigit_of_mem_decimal (List.getLast_mem hne)

/-- A name that does not end in a digit is a variant of itself only. -/
theorem Variant.eq_of_endsIn {name : String} (h : Variant candidate name)
    (hend : Text.endsIn Text.isDigit name = false) : name = candidate := by
  rcases h with heq | ⟨n, rfl⟩
  · exact heq
  · rw [numbered, Text.endsIn_append candidate (endsIn_decimal (n + 1))] at hend
    cases hend

/-- Whatever name is handed out for a candidate, the candidate is taken afterwards. -/
theorem mem_taken_allocate (names : NameRegistry) (candidate : String) :
    candidate ∈ (names.allocate candidate).2.taken := by
  by_cases hmem : candidate ∈ names.taken
  · simp [allocate, reserve, hmem]
  · simp [allocate, reserve, freeName_of_not_mem hmem]

/-- A row of requests hands out these names: they are distinct, they were free, and they are
what is taken afterwards besides what was taken before. -/
structure HandsOut (names : NameRegistry) (handed : List String) (after : NameRegistry) :
    Prop where
  nodup : handed.Nodup
  free : ∀ name ∈ handed, name ∉ names.taken
  taken : ∀ name, name ∈ after.taken ↔ name ∈ handed ∨ name ∈ names.taken

theorem HandsOut.refl (names : NameRegistry) : HandsOut names [] names :=
  ⟨.nil, by simp, by simp⟩

/-- No name is freed again. -/
theorem HandsOut.subset {handed : List String} (h : HandsOut names handed after) :
    names.taken ⊆ after.taken :=
  fun name hname => (h.taken name).mpr (.inr hname)

theorem handsOut_allocate (names : NameRegistry) (candidate : String) :
    HandsOut names [(names.allocate candidate).1] (names.allocate candidate).2 := by
  refine ⟨List.nodup_singleton _, fun name hname => ?_, fun name => ?_⟩
  · rw [List.mem_singleton.mp hname]
    exact freeName_not_mem names candidate
  · simp [allocate, reserve]

/-- The names of two rows of requests are distinct together. -/
theorem HandsOut.trans (hfirst : HandsOut names first mid) (hsecond : HandsOut mid second after) :
    HandsOut names (first ++ second) after where
  nodup := by
    refine List.nodup_append.mpr ⟨hfirst.nodup, hsecond.nodup, ?_⟩
    -- What was handed out first was taken when the second row began.
    intro a ha b hb hab
    exact hsecond.free b hb ((hfirst.taken b).mpr (.inl (hab ▸ ha)))
  free name hname htaken := by
    rcases List.mem_append.mp hname with hmem | hmem
    · exact hfirst.free name hmem htaken
    · exact hsecond.free name hmem ((hfirst.taken name).mpr (.inr htaken))
  taken name := by
    rw [hsecond.taken, hfirst.taken, List.mem_append]
    tauto

end NameRegistry

end MibDrivers
