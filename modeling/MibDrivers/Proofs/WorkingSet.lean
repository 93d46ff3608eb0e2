import MibDrivers.Proofs.Entries
import MibDrivers.WorkingSet

/-!
# What a working set unites

A working set has one object for each name that is not excluded, the one that comes last in the
baseline and then in what the vendor declares. The names stand in the order in which they first
come. This leaves no choice, so it is all there is to say about the objects of a working set.

The objects can also be gathered one after another, if an index remembers the place of each name:
an object whose name is in the index replaces the one at its place, and any other object comes to
the end. Index and objects stay in step, whatever is repeated or excluded.

## Main definitions

* `WorkingSet.Unites` — a list of objects that unites others
* `WorkingSet.Indexed` — objects with an index of their names
* `WorkingSet.Indexed.InStep` — the index tells the places of the objects

## Main results

* `WorkingSet.Indexed.InStep.receive` — an object that is received leaves index and objects in step
* `WorkingSet.merge_unites` — the working set is what is gathered, and the only list that unites the
  baseline and what the vendor declares
-/

namespace MibDrivers

namespace Entries

variable {κ α : Type} [BEq κ] [LawfulBEq κ] [DecidableEq κ] {entries : Entries κ α} {key : κ}
  {value : α} {place : Nat}

/-- A value that is put in goes to the first place of its key. -/
theorem put_eq_set (h : (entries.map Prod.fst).idxOf? key = some place) :
    entries.put key value = entries.set place (key, value) := by
  induction entries generalizing place with
  | nil => cases h
  | cons first rest ih =>
    obtain ⟨k, v⟩ := first
    rw [List.map_cons, List.idxOf?_cons] at h
    rw [put]
    by_cases hkey : k = key
    · obtain rfl : 0 = place := by simpa [hkey] using h
      rw [if_pos hkey, hkey, List.set_cons_zero]
    · rw [if_neg (by simpa using hkey), Option.map_eq_some_iff] at h
      obtain ⟨later, hlater, rfl⟩ := h
      rw [if_neg hkey, ih hlater, List.set_cons_succ]

end Entries

namespace WorkingSet

variable {excluded : List String} {arrivals result : List Descriptor} {d : Descriptor}
  {name : String}

/-! ### One object for each name -/

/-- The result unites the objects that arrive. -/
structure Unites (excluded : List String) (arrivals result : List Descriptor) : Prop where
  /-- Each name that arrives and is not excluded is there once, and no other name is. -/
  count_name : ∀ name, (result.map (·.name)).count name =
    if name ∈ arrivals.map (·.name) ∧ name ∉ excluded then 1 else 0
  /-- The names stand in the order in which they first arrive. -/
  ordered : (result.map (·.name)).Pairwise fun a b =>
    (arrivals.map (·.name)).idxOf a < (arrivals.map (·.name)).idxOf b
  /-- Each object is the last one of its name that arrives. -/
  latest : ∀ d ∈ result, ∃ earlier later, arrivals = earlier ++ d :: later ∧
    ∀ other ∈ later, other.name ≠ d.name

/-- An object under its name. -/
def keyed (d : Descriptor) : String × Descriptor := (d.name, d)

theorem map_fst_keyed (ds : List Descriptor) : (ds.map keyed).map Prod.fst = ds.map (·.name) :=
  List.map_map

theorem map_snd_keyed (ds : List Descriptor) : (ds.map keyed).map Prod.snd = ds := by
  rw [List.map_map]
  exact List.map_id ds

/-- The objects that arrive and are not excluded. -/
def admitted (excluded : List String) (arrivals : List Descriptor) : List Descriptor :=
  arrivals.filter (·.name ∉ excluded)

theorem map_name_admitted (excluded : List String) (arrivals : List Descriptor) :
    (admitted excluded arrivals).map (·.name) = (arrivals.map (·.name)).filter (· ∉ excluded) := by
  rw [admitted, List.filter_map]
  rfl

theorem mem_admitted : d ∈ admitted excluded arrivals ↔ d ∈ arrivals ∧ d.name ∉ excluded := by
  simp [admitted]

/-- An object under its name stays under its name. -/
theorem keyed_merge (excluded : List String) (baseline vendor : List Descriptor) :
    (merge excluded baseline vendor).map keyed =
      Entries.ofList ((admitted excluded (baseline ++ vendor)).map keyed) := by
  have hkeyed : ∀ entry ∈ Entries.ofList ((admitted excluded (baseline ++ vendor)).map keyed),
      keyed entry.2 = entry := by
    intro entry hentry
    obtain ⟨d, -, rfl⟩ := List.mem_map.mp (Entries.mem_of_mem_ofList hentry)
    rfl
  change ((Entries.ofList ((admitted excluded (baseline ++ vendor)).map keyed)).map Prod.snd).map
    keyed = _
  rw [List.map_map]
  exact (List.map_congr_left hkeyed).trans (List.map_id _)

theorem merge_eq_iff_keyed {baseline vendor : List Descriptor} :
    merge excluded baseline vendor = result ↔
      Entries.ofList ((admitted excluded (baseline ++ vendor)).map keyed) = result.map keyed := by
  rw [← keyed_merge]
  constructor
  · rintro rfl
    rfl
  · intro h
    rw [← map_snd_keyed (merge excluded baseline vendor), h, map_snd_keyed]

/-- The last object of a name that is not excluded is the last one of those that are admitted. -/
theorem latest_admitted_iff (hd : d.name ∉ excluded) :
    (∃ earlier later, (admitted excluded arrivals).map keyed = earlier ++ keyed d :: later ∧
        d.name ∉ later.map Prod.fst) ↔
      ∃ earlier later, arrivals = earlier ++ d :: later ∧ ∀ other ∈ later, other.name ≠ d.name := by
  constructor
  · rintro ⟨earlier, later, hsplit, hlater⟩
    obtain ⟨front, back, hadmitted, -, hback⟩ := List.map_eq_append_iff.mp hsplit
    obtain ⟨first, rest, rfl, hfirst, rfl⟩ := List.map_eq_cons_iff.mp hback
    obtain rfl : first = d := congrArg Prod.snd hfirst
    obtain ⟨before, after, rfl, -, hafter⟩ := List.filter_eq_append_iff.mp hadmitted
    obtain ⟨skipped, later, rfl, -, -, hrest⟩ := List.filter_eq_cons_iff.mp hafter
    refine ⟨before ++ skipped, later, by simp, fun other hother heq => hlater ?_⟩
    rw [map_fst_keyed, ← heq, ← hrest]
    exact List.mem_map_of_mem (mem_admitted.mpr ⟨hother, heq ▸ hd⟩)
  · rintro ⟨earlier, later, rfl, hlater⟩
    refine ⟨(admitted excluded earlier).map keyed, (admitted excluded later).map keyed, ?_, ?_⟩
    · simp [admitted, hd]
    · rw [map_fst_keyed]
      intro hmem
      obtain ⟨other, hother, hname⟩ := List.mem_map.mp hmem
      exact hlater other (mem_admitted.mp hother).1 hname

/-- Names are there once each if they are different and no others are there. -/
theorem count_eq_ite_iff {names : List String} {p : String → Prop} [DecidablePred p] :
    (∀ name, names.count name = if p name then 1 else 0) ↔
      names.Nodup ∧ ∀ name, name ∈ names ↔ p name := by
  constructor
  · intro h
    refine ⟨List.nodup_iff_count_le_one.mpr fun name => ?_, fun name => ?_⟩
    · rw [h]
      split_ifs <;> decide
    · rw [← List.count_pos_iff, h]
      split_ifs with hname
      · exact iff_of_true Nat.one_pos hname
      · exact iff_of_false (Nat.lt_irrefl 0) hname
  · rintro ⟨hnodup, hmem⟩ name
    split_ifs with hname
    · exact List.count_eq_one_of_mem hnodup ((hmem name).mpr hname)
    · exact List.count_eq_zero.mpr (mt (hmem name).mp hname)

theorem mem_name_admitted :
    name ∈ (admitted excluded arrivals).map (·.name) ↔
      name ∈ arrivals.map (·.name) ∧ name ∉ excluded := by
  rw [map_name_admitted]
  simp

/-- The names that are left out do not change the order of the others. -/
theorem pairwise_admitted_iff {names : List String} (h : ∀ name ∈ names, name ∉ excluded) :
    (names.Pairwise fun a b => ((admitted excluded arrivals).map (·.name)).idxOf a <
        ((admitted excluded arrivals).map (·.name)).idxOf b) ↔
      names.Pairwise fun a b =>
        (arrivals.map (·.name)).idxOf a < (arrivals.map (·.name)).idxOf b := by
  rw [map_name_admitted]
  apply List.Pairwise.iff_of_mem
  intro a b ha hb
  apply Entries.idxOf_filter_lt_iff
  · exact decide_eq_true (h a ha)
  · exact decide_eq_true (h b hb)

/-- To unite what arrives is to keep what is admitted, each object under its name. -/
theorem unites_iff_keeps :
    Unites excluded arrivals result ↔
      Entries.Keeps ((admitted excluded arrivals).map keyed) (result.map keyed) := by
  constructor
  · intro h
    obtain ⟨-, hnames⟩ := count_eq_ite_iff.mp h.count_name
    refine ⟨fun name => ?_, ?_, fun entry hentry => ?_⟩
    · rw [map_fst_keyed, map_fst_keyed, mem_name_admitted, hnames]
    · rw [map_fst_keyed, map_fst_keyed]
      exact (pairwise_admitted_iff fun name hname => ((hnames name).mp hname).2).mpr h.ordered
    · obtain ⟨d, hd, rfl⟩ := List.mem_map.mp hentry
      apply (latest_admitted_iff ((hnames d.name).mp (List.mem_map_of_mem hd)).2).mpr
      exact h.latest d hd
  · intro h
    have hnames : ∀ name, name ∈ result.map (·.name) ↔
        name ∈ arrivals.map (·.name) ∧ name ∉ excluded := by
      intro name
      rw [← mem_name_admitted, ← map_fst_keyed, ← map_fst_keyed, h.mem_keys]
    have hnodup := h.nodup_keys
    have hordered := h.ordered
    rw [map_fst_keyed] at hnodup hordered
    rw [map_fst_keyed] at hordered
    refine ⟨count_eq_ite_iff.mpr ⟨hnodup, hnames⟩, ?_, fun d hd => ?_⟩
    · exact (pairwise_admitted_iff fun name hname => ((hnames name).mp hname).2).mp hordered
    · apply (latest_admitted_iff ((hnames d.name).mp (List.mem_map_of_mem hd)).2).mp
      exact h.latest (keyed d) (List.mem_map_of_mem hd)

/-! ### One object after another -/

/-- Objects with an index that tells the place of each name. -/
structure Indexed where
  objects : List Descriptor
  places : Entries String Nat
  deriving Repr

namespace Indexed

variable {state : Indexed}

/-- No objects. -/
def empty : Indexed := ⟨[], []⟩

/-- Receives an object, which replaces the one at the place of its name if there is such a
place. -/
def receive (excluded : List String) (state : Indexed) (d : Descriptor) : Indexed :=
  if d.name ∈ excluded then state
  else
    match state.places.lookup d.name with
    | some place => { state with objects := state.objects.set place d }
    | none => {
        objects := state.objects ++ [d]
        places := state.places.put d.name state.objects.length }

/-- Receives objects one after another. -/
def gather (excluded : List String) (arrivals : List Descriptor) : Indexed :=
  arrivals.foldl (receive excluded) empty

theorem gather_concat (excluded : List String) (arrivals : List Descriptor) (d : Descriptor) :
    gather excluded (arrivals ++ [d]) = (gather excluded arrivals).receive excluded d := by
  rw [gather, List.foldl_append]
  rfl

/-- The index tells the place of each name, and no other name is in it. -/
def InStep (state : Indexed) : Prop :=
  ∀ name, state.places.lookup name = (state.objects.map (·.name)).idxOf? name

/-- An object that is received leaves index and objects in step. -/
theorem InStep.receive (h : state.InStep) (excluded : List String) (d : Descriptor) :
    (state.receive excluded d).InStep := by
  unfold Indexed.receive
  split_ifs with hexcluded
  · exact h
  · cases hplace : state.places.lookup d.name with
    | some place =>
      -- The object at the place had the same name, so no name moves.
      obtain ⟨hlt, hname, -⟩ := List.idxOf?_eq_some_iff.mp ((h d.name).symm.trans hplace)
      have hnames : (state.objects.set place d).map (·.name) = state.objects.map (·.name) := by
        rw [List.map_set, ← hname, List.set_getElem_self]
      intro name
      rw [h name]
      dsimp only
      rw [hnames]
    | none =>
      have hnew := List.idxOf?_eq_none_iff.mp ((h d.name).symm.trans hplace)
      intro name
      dsimp only
      rw [Entries.lookup_put, List.map_append, List.idxOf?, List.findIdx?_append]
      split_ifs with hname
      · subst hname
        rw [List.findIdx?_eq_none_iff.mpr fun other hother => ?_]
        · simp
        · exact beq_false_of_ne fun heq => hnew (heq ▸ hother)
      · rw [h name, List.idxOf?]
        simp [Ne.symm hname]

/-- To receive an object is to put it in under its name. -/
theorem InStep.keyed_receive (h : state.InStep) (hd : d.name ∉ excluded) :
    (state.receive excluded d).objects.map keyed =
      Entries.put (state.objects.map keyed) d.name d := by
  unfold Indexed.receive
  rw [if_neg hd]
  have hindex := h d.name
  rw [← map_fst_keyed] at hindex
  cases hplace : state.places.lookup d.name with
  | some place =>
    rw [Entries.put_eq_set (hindex.symm.trans hplace)]
    exact List.map_set
  | none =>
    rw [Entries.put_of_not_mem (List.idxOf?_eq_none_iff.mp (hindex.symm.trans hplace))]
    exact List.map_append

theorem inStep_gather (excluded : List String) (arrivals : List Descriptor) :
    (gather excluded arrivals).InStep := by
  induction arrivals using List.reverseRecOn with
  | nil => exact fun name => rfl
  | append_singleton earlier last ih =>
    rw [gather_concat]
    exact ih.receive excluded last

theorem keyed_gather (excluded : List String) (arrivals : List Descriptor) :
    (gather excluded arrivals).objects.map keyed =
      Entries.ofList ((admitted excluded arrivals).map keyed) := by
  induction arrivals using List.reverseRecOn with
  | nil => rfl
  | append_singleton earlier last ih =>
    rw [gather_concat, admitted, List.filter_append]
    by_cases hlast : last.name ∈ excluded
    · rw [Indexed.receive, if_pos hlast, ih]
      simp [admitted, hlast]
    · rw [(inStep_gather excluded earlier).keyed_receive hlast, ih]
      simp [admitted, hlast, keyed, Entries.ofList_concat]

end Indexed

/-! ### The working set -/

/-- The working set is what is gathered from the baseline and then from what the vendor declares,
and it is the only list that unites the two. -/
theorem merge_unites (excluded : List String) (baseline vendor : List Descriptor) :
    (Indexed.gather excluded (baseline ++ vendor)).objects = merge excluded baseline vendor ∧
    ∀ result, merge excluded baseline vendor = result ↔
      Unites excluded (baseline ++ vendor) result := by
  refine ⟨?_, fun result => ?_⟩
  · exact (merge_eq_iff_keyed.mpr (Indexed.keyed_gather excluded _).symm).symm
  · rw [merge_eq_iff_keyed, Entries.ofList_eq_iff, unites_iff_keeps]

end WorkingSet

end MibDrivers
