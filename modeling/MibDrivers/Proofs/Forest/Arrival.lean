import Mathlib.Data.List.Sort
import MibDrivers.Proofs.Forest.Legality

/-!
# Siblings in the order of their arrival

While a forest is built, an item is as old as the first of its nodes. The items at the top
level, the children of a branch and its leaves stand in the order of their age. An insertion
keeps this order wherever it happens: the new item comes last, a branch that receives it is
as old as before, and a branch that adopts siblings is as old as the first of them, whose
place it takes.

## Main definitions

* `WorkingSet.earliest` — when the first of some nodes came
* `Item.arrival` — when the first node of an item came
* `Item.InTurn` — siblings, and all that is below them, in the order of their arrival

## Main results

* `Item.Inserted.inTurn` — an insertion keeps siblings in the order of their arrival
-/

namespace MibDrivers

namespace WorkingSet

variable {descriptors nodes others : List Descriptor} {d : Descriptor}

/-- The index of the first object that is one of the nodes. -/
def earliest (descriptors nodes : List Descriptor) : Nat :=
  descriptors.findIdx (·.kept ∈ nodes)

theorem earliest_nil : earliest descriptors [] = descriptors.length := by
  simp [earliest, List.findIdx_eq_length]

theorem earliest_lt_length (h : ∃ e ∈ descriptors, e.kept ∈ nodes) :
    earliest descriptors nodes < descriptors.length := by
  simpa [earliest] using h

theorem earliest_concat_of_mem (h : ∃ e ∈ descriptors, e.kept ∈ nodes) :
    earliest (descriptors ++ [d]) nodes = earliest descriptors nodes := by
  have hlt := earliest_lt_length h
  rw [earliest] at hlt
  rw [earliest, List.findIdx_append, if_pos hlt, earliest]

theorem earliest_concat_of_new (h : ∀ e ∈ descriptors, e.kept ∉ nodes) (hd : d.kept ∈ nodes) :
    earliest (descriptors ++ [d]) nodes = descriptors.length := by
  have hlength : descriptors.findIdx (·.kept ∈ nodes) = descriptors.length := by
    simpa [List.findIdx_eq_length] using h
  rw [earliest, List.findIdx_append, hlength, if_neg (Nat.lt_irrefl _), List.findIdx_cons]
  simp [hd]

theorem earliest_congr (h : ∀ e ∈ descriptors, e.kept ∈ nodes ↔ e.kept ∈ others) :
    earliest descriptors nodes = earliest descriptors others := by
  refine le_antisymm ?_ ?_
  · exact List.findIdx_le_findIdx fun e he => by simpa using (h e he).mpr
  · exact List.findIdx_le_findIdx fun e he => by simpa using (h e he).mp

theorem earliest_append :
    earliest descriptors (nodes ++ others) =
      min (earliest descriptors nodes) (earliest descriptors others) := by
  simp only [earliest, List.mem_append, Bool.decide_or, List.min_findIdx_findIdx]

/-- Nodes to which a new object is added arrived when they did without it. -/
theorem earliest_grown {grown : List Descriptor} (hgrown : grown.Perm (nodes ++ [d.kept]))
    (hnew : d.kept ∉ descriptors.map Descriptor.kept)
    (hknown : ∃ e ∈ descriptors, e.kept ∈ nodes) :
    earliest (descriptors ++ [d]) grown = earliest descriptors nodes := by
  have hcongr : ∀ e ∈ descriptors, e.kept ∈ grown ↔ e.kept ∈ nodes := by
    intro e he
    have hne : e.kept ≠ d.kept := fun heq => hnew (heq ▸ List.mem_map_of_mem he)
    rw [hgrown.mem_iff, List.mem_append, List.mem_singleton, or_iff_left hne]
  obtain ⟨e, he, hmem⟩ := hknown
  rw [earliest_concat_of_mem ⟨e, he, (hcongr e he).mpr hmem⟩, earliest_congr hcongr]

end WorkingSet

/-! ### Siblings in turn -/

section Turns

variable (descriptors : List Descriptor)

/-- When the first node of the item came. -/
def Item.arrival (item : Item) : Nat := WorkingSet.earliest descriptors item.descriptors

/-- The leaves and the children of the branch stand in the order of their arrival. -/
structure Branch.Chronological (b : Branch Item) : Prop where
  leaves : ((b.leaves.map Item.scalar).map (Item.arrival descriptors)).Pairwise (· < ·)
  children : (b.children.map (Item.arrival descriptors)).Pairwise (· < ·)

/-- All branches of the item hold what they hold in the order of arrival. -/
def Item.Chronological (item : Item) : Prop :=
  ∀ b, .branch b ∈ item.subitems → b.Chronological descriptors

/-- The siblings, and what all their branches hold, stand in the order of their arrival. -/
structure Item.InTurn (siblings : List Item) : Prop where
  order : (siblings.map (Item.arrival descriptors)).Pairwise (· < ·)
  each : ∀ item ∈ siblings, item.Chronological descriptors

end Turns

namespace Item

open WorkingSet

variable {descriptors : List Descriptor} {d : Descriptor}
variable {item x y : Item} {siblings others : List Item} {b : Branch Item}

/-- The nodes of the siblings are objects of the working set. -/
def Known (descriptors : List Descriptor) (siblings : List Item) : Prop :=
  descriptorsOf siblings ⊆ descriptors.map Descriptor.kept

theorem Known.of_mem (h : Known descriptors siblings) (hx : x ∈ siblings) :
    x.descriptors ⊆ descriptors.map Descriptor.kept := by
  intro e he
  exact h (((subitems_sublist_of_mem hx).map _).subset he)

/-- What a known branch holds is known. -/
theorem Known.members (h : Known descriptors siblings) (hb : .branch b ∈ siblings) :
    Known descriptors b.members := by
  intro e he
  refine h.of_mem hb ?_
  rw [descriptors_branch]
  exact List.mem_cons_of_mem _ he

theorem Known.sublist (h : Known descriptors siblings) (hsub : others.Sublist siblings) :
    Known descriptors others := by
  intro e he
  exact h (((subitemsOf_sublist hsub).map _).subset he)

theorem exists_kept_mem (h : x.descriptors ⊆ descriptors.map Descriptor.kept) :
    ∃ e ∈ descriptors, e.kept ∈ x.descriptors := by
  have hself : x.descriptor ∈ x.descriptors := List.mem_map_of_mem (mem_subitems_self x)
  obtain ⟨e, he, heq⟩ := List.mem_map.mp (h hself)
  exact ⟨e, he, heq ▸ hself⟩

/-- A known item arrived before all further objects. -/
theorem arrival_lt_length (h : x.descriptors ⊆ descriptors.map Descriptor.kept) :
    x.arrival descriptors < descriptors.length :=
  earliest_lt_length (exists_kept_mem h)

theorem arrival_concat (h : x.descriptors ⊆ descriptors.map Descriptor.kept) :
    x.arrival (descriptors ++ [d]) = x.arrival descriptors :=
  earliest_concat_of_mem (exists_kept_mem h)

/-- The item of the last object arrived last. -/
theorem arrival_concat_of_new (h : item.descriptors = [d.kept])
    (hnew : d.kept ∉ descriptors.map Descriptor.kept) :
    item.arrival (descriptors ++ [d]) = descriptors.length := by
  refine earliest_concat_of_new (fun e he hmem => ?_) (by rw [h]; exact List.mem_singleton_self _)
  rw [h, List.mem_singleton] at hmem
  exact hnew (hmem ▸ List.mem_map_of_mem he)

theorem map_arrival_concat (h : Known descriptors siblings) :
    siblings.map (arrival (descriptors ++ [d])) = siblings.map (arrival descriptors) :=
  List.map_congr_left fun _ hx => arrival_concat (h.of_mem hx)

theorem chronological_scalar (s : Scalar) : (Item.scalar s).Chronological descriptors := by
  intro b hb
  simp at hb

/-- A branch is chronological if its leaves and its children are in turn. -/
theorem chronological_branch :
    (Item.branch b).Chronological descriptors ↔
      InTurn descriptors (b.leaves.map .scalar) ∧ InTurn descriptors b.children := by
  constructor
  · intro h
    obtain ⟨hb, hmembers⟩ := forall_branch_iff.mp h
    refine ⟨⟨hb.leaves, fun x hx => hmembers x (List.mem_append_left _ hx)⟩, hb.children,
      fun x hx => hmembers x (Branch.mem_members_of_child hx)⟩
  · rintro ⟨hleaves, hchildren⟩
    refine forall_branch_iff.mpr ⟨⟨hleaves.order, hchildren.order⟩, fun x hx => ?_⟩
    exact (List.mem_append.mp hx).elim (hleaves.each x) (hchildren.each x)

theorem InTurn.nil : InTurn descriptors [] := ⟨.nil, by simp⟩

/-- An item without content has nothing out of order. -/
theorem Bare.chronological (h : item.Bare) : item.Chronological descriptors := by
  cases item with
  | scalar s => exact chronological_scalar s
  | branch b =>
    obtain ⟨hleaves, hchildren⟩ := List.append_eq_nil_iff.mp (h b rfl)
    rw [chronological_branch, hleaves, hchildren]
    exact ⟨.nil, .nil⟩

theorem InTurn.sublist (h : InTurn descriptors siblings) (hsub : others.Sublist siblings) :
    InTurn descriptors others :=
  ⟨h.order.sublist (hsub.map _), fun x hx => h.each x (hsub.subset hx)⟩

/-- Known items stay in order when further objects come. -/
theorem chronological_concat (h : item.Chronological descriptors)
    (hknown : item.descriptors ⊆ descriptors.map Descriptor.kept) :
    item.Chronological (descriptors ++ [d]) := by
  intro b hb
  have hmember : ∀ x ∈ b.members, x.arrival (descriptors ++ [d]) = x.arrival descriptors := by
    intro x hx
    refine arrival_concat fun e he => hknown ?_
    obtain ⟨y, hy, rfl⟩ := List.mem_map.mp he
    refine List.mem_map_of_mem ((subitems_sublist hb).subset ?_)
    exact mem_subitems_branch.mpr (.inr (mem_subitemsOf.mpr ⟨x, hx, hy⟩))
  obtain ⟨hleaves, hchildren⟩ := h b hb
  constructor
  · rwa [List.map_congr_left fun x hx => hmember x (List.mem_append_left _ hx)]
  · rwa [List.map_congr_left fun x hx => hmember x (Branch.mem_members_of_child hx)]

theorem InTurn.concat (h : InTurn descriptors siblings) (hknown : Known descriptors siblings) :
    InTurn (descriptors ++ [d]) siblings where
  order := by
    rw [map_arrival_concat hknown]
    exact h.order
  each x hx := chronological_concat (h.each x hx) (hknown.of_mem hx)

/-- A sibling can be replaced by an item that is as old. -/
theorem InTurn.replace {before after : List Item} (h : InTurn descriptors (before ++ x :: after))
    (hknown : Known descriptors (before ++ x :: after))
    (hy : y.Chronological (descriptors ++ [d]))
    (harrival : y.arrival (descriptors ++ [d]) = x.arrival descriptors) :
    InTurn (descriptors ++ [d]) (before ++ y :: after) := by
  have hconcat := h.concat (d := d) hknown
  have hx := arrival_concat (d := d) (hknown.of_mem List.mem_append_cons_self)
  constructor
  · have horder := hconcat.order
    rw [List.map_append, List.map_cons, hx, ← harrival] at horder
    rwa [List.map_append, List.map_cons]
  · intro z hz
    rcases List.mem_append.mp hz with hbefore | hrest
    · exact hconcat.each z (List.mem_append_left _ hbefore)
    · rcases List.mem_cons.mp hrest with rfl | hafter
      · exact hy
      · exact hconcat.each z (List.mem_append_right _ (List.mem_cons_of_mem _ hafter))

/-- Lists of the same items in the order of arrival are the same. -/
theorem eq_of_arrival (hsiblings : (siblings.map (arrival descriptors)).Pairwise (· < ·))
    (hothers : (others.map (arrival descriptors)).Pairwise (· < ·))
    (h : ∀ x, x ∈ siblings ↔ x ∈ others) : siblings = others := by
  rw [List.pairwise_map] at hsiblings hothers
  have hirrefl : Std.Irrefl fun x y : Item => x.arrival descriptors < y.arrival descriptors :=
    ⟨fun x => lt_irrefl _⟩
  have hantisymm : Std.Antisymm fun x y : Item => x.arrival descriptors < y.arrival descriptors :=
    ⟨fun x y hxy hyx => absurd hxy (lt_asymm hyx)⟩
  exact hsiblings.eq_of_mem_iff hothers h

/-! ### Insertions in turn -/

/-- A known item that gains the last object is as old as before. -/
theorem arrival_grown (hgrown : y.descriptors.Perm (x.descriptors ++ [d.kept]))
    (hnew : d.kept ∉ descriptors.map Descriptor.kept)
    (hknown : x.descriptors ⊆ descriptors.map Descriptor.kept) :
    y.arrival (descriptors ++ [d]) = x.arrival descriptors :=
  earliest_grown hgrown hnew (exists_kept_mem hknown)

theorem le_earliest_of {n : Nat} (hlength : n ≤ descriptors.length)
    (h : ∀ x ∈ siblings, n ≤ x.arrival descriptors) :
    n ≤ earliest descriptors (descriptorsOf siblings) := by
  induction siblings with
  | nil => rwa [descriptorsOf_nil, earliest_nil]
  | cons x rest ih =>
    rw [descriptorsOf_cons, earliest_append]
    refine le_min (h x List.mem_cons_self) (ih fun y hy => ?_)
    exact h y (List.mem_cons_of_mem _ hy)

/-- The first of some siblings in turn is as old as all of them. -/
theorem InTurn.earliest_eq {first : Item} {rest : List Item}
    (h : InTurn descriptors (first :: rest)) (hknown : Known descriptors (first :: rest)) :
    earliest descriptors (descriptorsOf (first :: rest)) = first.arrival descriptors := by
  have hlength := arrival_lt_length (hknown.of_mem List.mem_cons_self)
  have hlater : ∀ x ∈ rest, first.arrival descriptors ≤ x.arrival descriptors := by
    intro x hx
    exact (List.rel_of_pairwise_cons h.order (List.mem_map_of_mem hx)).le
  rw [descriptorsOf_cons, earliest_append]
  exact min_eq_left (le_earliest_of hlength.le hlater)

/-- A branch without content that gathers siblings in turn is chronological, and as old as the
first of them. -/
theorem InTurn.gather {first : Item} {rest : List Item} (h : InTurn descriptors (first :: rest))
    (hknown : Known descriptors (first :: rest)) (hbare : (Item.branch b).Bare)
    (hd : (Item.branch b).descriptors = [d.kept])
    (hnew : d.kept ∉ descriptors.map Descriptor.kept) :
    (Item.branch (b.gather (first :: rest))).Chronological (descriptors ++ [d]) ∧
      (Item.branch (b.gather (first :: rest))).arrival (descriptors ++ [d]) =
        first.arrival descriptors := by
  obtain ⟨hleaves, hchildren⟩ := List.append_eq_nil_iff.mp (hbare b rfl)
  have hconcat := h.concat (d := d) hknown
  constructor
  · rw [chronological_branch, Branch.gather, List.map_append, hleaves, hchildren,
      List.nil_append, List.nil_append]
    exact ⟨hconcat.sublist (Branch.scalars_sublist _), hconcat.sublist List.filter_sublist⟩
  · rw [← h.earliest_eq hknown]
    refine earliest_grown ?_ hnew ?_
    · have hperm := descriptors_gather_perm (b := b) (first :: rest)
      rw [hd] at hperm
      exact hperm.trans List.perm_append_comm
    · obtain ⟨e, he, hmem⟩ := exists_kept_mem (hknown.of_mem List.mem_cons_self)
      exact ⟨e, he, by rw [descriptorsOf_cons]; exact List.mem_append_left _ hmem⟩

/-- The item of the last object comes last in turn. -/
theorem InTurn.append_new (h : InTurn descriptors siblings) (hknown : Known descriptors siblings)
    (hbare : item.Bare) (hd : item.descriptors = [d.kept])
    (hnew : d.kept ∉ descriptors.map Descriptor.kept) :
    InTurn (descriptors ++ [d]) (siblings ++ [item]) := by
  have hconcat := h.concat (d := d) hknown
  constructor
  · rw [List.map_append, List.map_cons, List.map_nil, List.pairwise_append]
    refine ⟨hconcat.order, List.pairwise_singleton _ _, ?_⟩
    intro n hn m hm
    obtain ⟨x, hx, rfl⟩ := List.mem_map.mp hn
    rw [List.mem_singleton.mp hm, arrival_concat_of_new hd hnew,
      arrival_concat (hknown.of_mem hx)]
    exact arrival_lt_length (hknown.of_mem hx)
  · intro x hx
    rcases List.mem_append.mp hx with hold | hself
    · exact hconcat.each x hold
    · exact List.mem_singleton.mp hself ▸ hbare.chronological

/-- An insertion of the last object keeps siblings in turn. -/
theorem Inserted.inTurn {after : List Item} (h : Inserted item siblings after)
    (hbare : item.Bare) (hd : item.descriptors = [d.kept])
    (hnew : d.kept ∉ descriptors.map Descriptor.kept) (hknown : Known descriptors siblings)
    (hturn : InTurn descriptors siblings) : InTurn (descriptors ++ [d]) after := by
  induction h with
  | joined siblings => exact hturn.append_new hknown hbare hd hnew
  | @leaf before after p s hitem _ =>
    subst hitem
    have hp : .branch p ∈ before ++ .branch p :: after := List.mem_append_cons_self
    have hmembers := hknown.members hp
    obtain ⟨hleaves, hchildren⟩ := chronological_branch.mp (hturn.each _ hp)
    -- The scalar is the youngest leaf, and the branch that it joins is as old as before.
    refine hturn.replace hknown (chronological_branch.mpr ⟨?_, ?_⟩) (arrival_grown ?_ hnew ?_)
    · rw [List.map_append]
      exact hleaves.append_new (hmembers.sublist (List.sublist_append_left ..)) hbare hd hnew
    · exact hchildren.concat (hmembers.sublist (List.sublist_append_right ..))
    · have hperm := descriptors_gather_perm (b := p) [.scalar s]
      rwa [Branch.gather_scalar, descriptorsOf_singleton, hd] at hperm
    · exact hknown.of_mem hp
  | @passed before after children p c hitem hchildren ih =>
    have hp : .branch p ∈ before ++ .branch p :: after := List.mem_append_cons_self
    have hmembers := hknown.members hp
    have hbelow := hmembers.sublist (List.sublist_append_right ..)
    obtain ⟨hleaves, hturns⟩ := chronological_branch.mp (hturn.each _ hp)
    refine hturn.replace hknown (chronological_branch.mpr ⟨?_, ih hbelow hturns⟩)
      (arrival_grown ?_ hnew (hknown.of_mem hp))
    · exact hleaves.concat (hmembers.sublist (List.sublist_append_left ..))
    · have hperm := hchildren.perm
      rw [hd] at hperm
      exact descriptors_children_perm hperm
  | @adopted before after first b hitem _ =>
    subst hitem
    -- The siblings that are adopted, and those that stay, are in turn as they were.
    have hadopted : (first :: contained b.oid after).Sublist (before ++ first :: after) :=
      adopted_sublist
    have hstay : (before ++ first :: remaining b.oid after).Sublist (before ++ first :: after) :=
      staying_sublist
    obtain ⟨hchronological, harrival⟩ :=
      (hturn.sublist hadopted).gather (hknown.sublist hadopted) hbare hd hnew
    exact (hturn.sublist hstay).replace (hknown.sublist hstay) hchronological harrival

end Item

end MibDrivers
