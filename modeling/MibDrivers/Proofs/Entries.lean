import Mathlib.Data.List.Induction
import Mathlib.Data.List.Nodup
import Mathlib.Data.List.Sort
import MibDrivers.Entries

/-!
# Entries after arrivals

Entries keep each key once, in the order in which the keys first arrived, with the value that
arrived last. No other entries do, so this says all about the entries that arrivals leave.

## Main definitions

* `Entries.Keeps` — entries that keep what has arrived

## Main results

* `Entries.pairwise_idxOf_eraseDups` — distinct items stand in the order in which they first occur
* `Entries.lookup_put` — what is found after an entry was put in
* `Entries.mem_of_mem_ofList` — every entry has arrived
* `Entries.nodup_keys_ofList` — no key is there twice
* `Entries.ofList_eq` — the entries that arrivals leave, read off the arrivals
* `Entries.ofList_eq_iff` — the entries that arrivals leave are those that keep what has arrived
-/

namespace MibDrivers

namespace Entries

variable {κ α : Type} {entries : Entries κ α} {entry : κ × α} {key k : κ} {value : α}

/-! ### Distinct items -/

section Distinct

variable [BEq κ] [LawfulBEq κ]

/-- An item that comes last is new, or it changes nothing. -/
theorem eraseDups_concat [DecidableEq κ] (items : List κ) (item : κ) :
    (items ++ [item]).eraseDups =
      if item ∈ items then items.eraseDups else items.eraseDups ++ [item] := by
  rw [List.eraseDups_append]
  split_ifs with hold <;> simp [List.removeAll, hold, List.eraseDups_cons]

/-- Distinct items stand in the order in which they first occur. -/
theorem pairwise_idxOf_eraseDups [DecidableEq κ] (items : List κ) :
    items.eraseDups.Pairwise fun a b => items.idxOf a < items.idxOf b := by
  induction items using List.reverseRecOn with
  | nil => exact .nil
  | append_singleton earlier last ih =>
    -- The places of the earlier items do not change.
    have hplace : ∀ {item}, item ∈ earlier.eraseDups →
        (earlier ++ [last]).idxOf item = earlier.idxOf item :=
      fun hitem => List.idxOf_append_of_mem (List.mem_eraseDups.mp hitem)
    have hearlier : earlier.eraseDups.Pairwise fun a b =>
        (earlier ++ [last]).idxOf a < (earlier ++ [last]).idxOf b :=
      ih.imp_of_mem fun ha hb hab => by rwa [hplace ha, hplace hb]
    rw [eraseDups_concat]
    split_ifs with hold
    · exact hearlier
    · refine List.pairwise_append.mpr
        ⟨hearlier, List.pairwise_singleton _ _, fun a ha b hb => ?_⟩
      have hlt := List.idxOf_lt_length_iff.mpr (List.mem_eraseDups.mp ha)
      rw [List.mem_singleton.mp hb, hplace ha, List.idxOf_append_of_notMem hold]
      omega

/-- Items that are left out do not change the order of the others. -/
theorem idxOf_filter_lt_iff {p : κ → Bool} {a b : κ} (ha : p a) (hb : p b) (items : List κ) :
    (items.filter p).idxOf a < (items.filter p).idxOf b ↔ items.idxOf a < items.idxOf b := by
  induction items with
  | nil => rfl
  | cons first rest ih =>
    by_cases hfirst : p first
    · rw [List.filter_cons_of_pos hfirst]
      by_cases hfb : first = b
      · simp [hfb]
      · rw [List.idxOf_cons_ne _ hfb, List.idxOf_cons_ne _ hfb]
        by_cases hfa : first = a
        · simp [hfa]
        · rw [List.idxOf_cons_ne _ hfa, List.idxOf_cons_ne _ hfa, Nat.succ_lt_succ_iff, ih,
            Nat.succ_lt_succ_iff]
    · have hne : ∀ {item}, p item → first ≠ item := fun hitem heq => hfirst (heq ▸ hitem)
      rw [List.filter_cons_of_neg hfirst, ih, List.idxOf_cons_ne _ (hne ha),
        List.idxOf_cons_ne _ (hne hb), Nat.succ_lt_succ_iff]

end Distinct

/-! ### Looking up -/

section Lookup

variable [BEq κ] [LawfulBEq κ]

theorem lookup_cons_self : List.lookup key ((key, value) :: entries) = some value := by
  rw [List.lookup_cons, beq_self_eq_true]

theorem lookup_cons_of_ne (h : k ≠ key) :
    List.lookup k ((key, value) :: entries) = List.lookup k entries := by
  rw [List.lookup_cons, beq_false_of_ne h]

/-- The key that was put in has its new value, and every other key what it had. -/
theorem lookup_put [DecidableEq κ] (entries : Entries κ α) (key k : κ) (value : α) :
    (entries.put key value).lookup k = if k = key then some value else entries.lookup k := by
  induction entries with
  | nil =>
    rw [put]
    by_cases hk : k = key
    · rw [hk, if_pos rfl, lookup_cons_self]
    · rw [if_neg hk, lookup_cons_of_ne hk]
  | cons entry rest ih =>
    obtain ⟨first, other⟩ := entry
    rw [put]
    by_cases hfirst : first = key
    · rw [if_pos hfirst, hfirst]
      by_cases hk : k = key
      · rw [hk, if_pos rfl, lookup_cons_self]
      · rw [if_neg hk, lookup_cons_of_ne hk, lookup_cons_of_ne hk]
    · rw [if_neg hfirst]
      by_cases hk : k = first
      · rw [hk, lookup_cons_self, lookup_cons_self, if_neg hfirst]
      · rw [lookup_cons_of_ne hk, lookup_cons_of_ne hk, ih]

/-- Entries of different keys are what is found by their keys. -/
theorem eq_filterMap_lookup (h : (entries.map Prod.fst).Nodup) :
    entries = (entries.map Prod.fst).filterMap fun key => (entries.lookup key).map (key, ·) := by
  induction entries with
  | nil => rfl
  | cons first rest ih =>
    obtain ⟨k, value⟩ := first
    obtain ⟨hfirst, hrest⟩ := List.nodup_cons.mp h
    rw [List.map_cons, List.filterMap_cons, lookup_cons_self, Option.map_some]
    refine congrArg _ ((ih hrest).trans (List.filterMap_congr fun key hkey => ?_))
    rw [lookup_cons_of_ne]
    rintro rfl
    exact hfirst hkey

theorem lookup_of_mem (h : (entries.map Prod.fst).Nodup) (hmem : (key, value) ∈ entries) :
    entries.lookup key = some value := by
  obtain ⟨front, back, rfl⟩ := List.append_of_mem hmem
  refine List.lookup_eq_some_iff.mpr ⟨front, back, rfl, fun other hother => ?_⟩
  rw [List.map_append, List.nodup_append] at h
  exact bne_iff_ne.mpr (h.2.2 other.1 (List.mem_map_of_mem hother) key (by simp)).symm

/-- What comes last under a key has only other keys after it. -/
theorem lookup_reverse_eq_some_iff :
    entries.reverse.lookup key = some value ↔
      ∃ earlier later, entries = earlier ++ (key, value) :: later ∧
        key ∉ later.map Prod.fst := by
  rw [List.lookup_eq_some_iff]
  constructor
  · rintro ⟨later, earlier, hsplit, hother⟩
    refine ⟨earlier.reverse, later.reverse, ?_, fun hmem => ?_⟩
    · rw [← entries.reverse_reverse, hsplit]
      simp
    · obtain ⟨entry, hentry, heq⟩ := List.mem_map.mp hmem
      exact bne_iff_ne.mp (hother entry (List.mem_reverse.mp hentry)) heq.symm
  · rintro ⟨earlier, later, rfl, hother⟩
    refine ⟨later.reverse, earlier.reverse, by simp, fun entry hentry => ?_⟩
    exact bne_iff_ne.mpr fun heq =>
      hother (heq ▸ List.mem_map_of_mem (List.mem_reverse.mp hentry))

end Lookup

/-! ### Arrivals -/

variable [DecidableEq κ]

theorem mem_put (h : entry ∈ entries.put key value) : entry = (key, value) ∨ entry ∈ entries := by
  induction entries with
  | nil => exact .inl (List.mem_singleton.mp h)
  | cons first rest ih =>
    obtain ⟨k, v⟩ := first
    rw [put] at h
    split_ifs at h with hkey
    · rw [hkey, List.mem_cons] at h
      exact h.imp_right (List.mem_cons_of_mem _)
    · rcases List.mem_cons.mp h with rfl | hrest
      · exact .inr List.mem_cons_self
      · exact (ih hrest).imp_right (List.mem_cons_of_mem _)

theorem nodup_keys_put (h : (entries.map Prod.fst).Nodup) :
    ((entries.put key value).map Prod.fst).Nodup := by
  induction entries with
  | nil => exact List.nodup_singleton key
  | cons first rest ih =>
    obtain ⟨k, v⟩ := first
    obtain ⟨hfirst, hrest⟩ := List.nodup_cons.mp h
    rw [put]
    split_ifs with hkey
    · exact h
    · refine List.nodup_cons.mpr ⟨fun hmem => ?_, ih hrest⟩
      obtain ⟨entry, hentry, hk⟩ := List.mem_map.mp hmem
      rcases mem_put hentry with rfl | hold
      · exact hkey hk.symm
      · exact hfirst (hk ▸ List.mem_map_of_mem hold)

/-- Every entry has arrived. -/
theorem mem_of_mem_ofList {arrivals : List (κ × α)} (h : entry ∈ ofList arrivals) :
    entry ∈ arrivals := by
  rw [ofList] at h
  induction arrivals using List.reverseRecOn with
  | nil => cases h
  | append_singleton earlier last ih =>
    rw [List.foldl_append] at h
    rcases mem_put h with rfl | hearlier
    · exact List.mem_append_right _ List.mem_cons_self
    · exact List.mem_append_left _ (ih hearlier)

/-- No key is there twice, whatever has arrived. -/
theorem nodup_keys_ofList (arrivals : List (κ × α)) : ((ofList arrivals).map Prod.fst).Nodup := by
  rw [ofList]
  induction arrivals using List.reverseRecOn with
  | nil => exact List.nodup_nil
  | append_singleton earlier last ih =>
    rw [List.foldl_append]
    exact nodup_keys_put ih

theorem put_of_not_mem (h : key ∉ entries.map Prod.fst) :
    entries.put key value = entries ++ [(key, value)] := by
  induction entries with
  | nil => rfl
  | cons first rest ih =>
    obtain ⟨k, v⟩ := first
    rw [List.map_cons, List.mem_cons, not_or] at h
    rw [put, if_neg (Ne.symm h.1), ih h.2, List.cons_append]

theorem map_fst_put_of_mem (h : key ∈ entries.map Prod.fst) :
    (entries.put key value).map Prod.fst = entries.map Prod.fst := by
  induction entries with
  | nil => cases h
  | cons first rest ih =>
    obtain ⟨k, v⟩ := first
    rw [put]
    split_ifs with hkey
    · rfl
    · rw [List.map_cons, List.map_cons, ih ((List.mem_cons.mp h).resolve_left (Ne.symm hkey))]

theorem ofList_concat (arrivals : List (κ × α)) (key : κ) (value : α) :
    ofList (arrivals ++ [(key, value)]) = (ofList arrivals).put key value := by
  rw [ofList, List.foldl_append]
  rfl

/-- Arrivals of different keys are the entries themselves. -/
theorem ofList_of_nodup (h : (entries.map Prod.fst).Nodup) : ofList entries = entries := by
  induction entries using List.reverseRecOn with
  | nil => rfl
  | append_singleton earlier last ih =>
    rw [List.map_append, List.nodup_append] at h
    obtain ⟨hearlier, -, hapart⟩ := h
    obtain ⟨key, value⟩ := last
    rw [ofList_concat, ih hearlier, put_of_not_mem]
    exact fun hmem => hapart key hmem key (by simp) rfl

section Order

variable [BEq κ] [LawfulBEq κ]

/-- The keys stand in the order in which they first arrived. -/
theorem map_fst_ofList (arrivals : List (κ × α)) :
    (ofList arrivals).map Prod.fst = (arrivals.map Prod.fst).eraseDups := by
  induction arrivals using List.reverseRecOn with
  | nil => rfl
  | append_singleton earlier last ih =>
    obtain ⟨key, value⟩ := last
    have hiff : key ∈ (ofList earlier).map Prod.fst ↔ key ∈ earlier.map Prod.fst := by
      rw [ih, List.mem_eraseDups]
    rw [ofList_concat, List.map_append, List.map_singleton, eraseDups_concat]
    split_ifs with hold
    · rw [map_fst_put_of_mem (hiff.mpr hold), ih]
    · rw [put_of_not_mem (mt hiff.mp hold), List.map_append, ih, List.map_singleton]

/-- A key has the value that arrived last. -/
theorem lookup_ofList (arrivals : List (κ × α)) (key : κ) :
    (ofList arrivals).lookup key = arrivals.reverse.lookup key := by
  induction arrivals using List.reverseRecOn with
  | nil => rfl
  | append_singleton earlier last ih =>
    obtain ⟨k, value⟩ := last
    rw [ofList_concat, lookup_put, List.reverse_append, List.reverse_singleton,
      List.singleton_append, ih]
    split_ifs with hkey
    · rw [hkey, lookup_cons_self]
    · rw [lookup_cons_of_ne hkey]

/-- The keys stand in the order of their first arrivals, each with the value that arrived last. -/
theorem ofList_eq (arrivals : List (κ × α)) :
    ofList arrivals = (arrivals.map Prod.fst).eraseDups.filterMap fun key =>
      (arrivals.reverse.lookup key).map (key, ·) := by
  rw [← map_fst_ofList]
  simp only [← lookup_ofList]
  exact eq_filterMap_lookup (nodup_keys_ofList arrivals)

/-- The entries keep what has arrived: each key once, in the order in which the keys first arrived,
with the value that arrived last. -/
structure Keeps (arrivals : List (κ × α)) (entries : Entries κ α) : Prop where
  mem_keys : ∀ key, key ∈ entries.map Prod.fst ↔ key ∈ arrivals.map Prod.fst
  ordered : (entries.map Prod.fst).Pairwise fun a b =>
    (arrivals.map Prod.fst).idxOf a < (arrivals.map Prod.fst).idxOf b
  latest : ∀ entry ∈ entries, ∃ earlier later, arrivals = earlier ++ entry :: later ∧
    entry.1 ∉ later.map Prod.fst

omit [LawfulBEq κ] [DecidableEq κ] in
theorem Keeps.nodup_keys {arrivals : List (κ × α)} (h : Keeps arrivals entries) :
    (entries.map Prod.fst).Nodup :=
  h.ordered.imp fun hlt heq => by simp [heq] at hlt

theorem keeps_ofList (arrivals : List (κ × α)) : Keeps arrivals (ofList arrivals) where
  mem_keys key := by rw [map_fst_ofList, List.mem_eraseDups]
  ordered := by
    rw [map_fst_ofList]
    exact pairwise_idxOf_eraseDups _
  latest entry hentry := by
    have hlookup := lookup_of_mem (nodup_keys_ofList arrivals) hentry
    rwa [lookup_ofList, lookup_reverse_eq_some_iff] at hlookup

/-- The entries that arrivals leave are the only ones that keep what has arrived. -/
theorem ofList_eq_iff {arrivals : List (κ × α)} :
    ofList arrivals = entries ↔ Keeps arrivals entries := by
  constructor
  · rintro rfl
    exact keeps_ofList arrivals
  · intro h
    have hleft := keeps_ofList arrivals
    have hkeys : (ofList arrivals).map Prod.fst = entries.map Prod.fst :=
      hleft.ordered.eq_of_mem_iff h.ordered fun key => by rw [hleft.mem_keys, h.mem_keys]
    rw [eq_filterMap_lookup h.nodup_keys, eq_filterMap_lookup hleft.nodup_keys, hkeys]
    refine List.filterMap_congr fun key hkey => ?_
    obtain ⟨entry, hentry, rfl⟩ := List.mem_map.mp hkey
    rw [lookup_ofList, lookup_reverse_eq_some_iff.mpr (h.latest entry hentry),
      lookup_of_mem h.nodup_keys hentry]

end Order

end Entries

end MibDrivers
