import Mathlib.Data.List.Nodup
import MibDrivers.Proofs.Forest.Legality
import MibDrivers.Proofs.Forest.Reconcile
import MibDrivers.Generation.Report

/-!
# Where nodes come to lie

After a successful reconciliation every node lies in the deepest branch that contains it, or
at the top level if no branch does. So the place of a node follows from the working set, in
whatever order its descriptors are inserted. Whether the reconciliation succeeds follows
from the working set too: it does unless a branch which contains another branch is the
deepest one for some scalar.

## Main definitions

* `WorkingSet.holder?` — the deepest branch that contains an identifier
* `WorkingSet.Crowded` — a branch would hold both branches and scalars
* `Forest.Settled` — what a successful reconciliation leaves
* `Forest.places` — the nodes, each with the identifier of the branch that holds it

## Main results

* `Forest.Settled.places_eq` — the places are a function of the nodes
* `Forest.WellNested.reconcile_ok_iff` — reconciling succeeds unless the nodes are crowded
* `Forest.ofWorkingSet_perm` — neither success nor the places depend on the order
-/

namespace MibDrivers

/-! ### The deepest branch -/

namespace WorkingSet

variable {descriptors others : List Descriptor} {oid : Oid}

/-- The identifiers of the branches. -/
def branchOids (descriptors : List Descriptor) : List Oid :=
  (descriptors.filter (·.kind = .branch)).map (·.oid)

/-- The deepest branch that strictly contains an identifier. -/
def holder? (descriptors : List Descriptor) (oid : Oid) : Option Oid :=
  Oid.deepest? (branchOids descriptors) oid

/-- Some branch contains another branch and is the deepest one for some scalar. -/
def Crowded (descriptors : List Descriptor) : Prop :=
  ∃ b ∈ descriptors, b.kind = .branch ∧
    (∃ c ∈ descriptors, c.kind = .branch ∧ b.oid < c.oid) ∧
    ∃ s ∈ descriptors, s.kind = .scalar ∧ holder? descriptors s.oid = some b.oid

theorem mem_branchOids :
    oid ∈ branchOids descriptors ↔ ∃ b ∈ descriptors, b.kind = .branch ∧ b.oid = oid := by
  simp [branchOids, and_assoc]

theorem holder?_eq_none :
    holder? descriptors oid = none ↔ ∀ b ∈ descriptors, b.kind = .branch → ¬ b.oid < oid := by
  simp only [holder?, Oid.deepest?_eq_none_iff, mem_branchOids]
  exact ⟨fun h b hb hkind => h b.oid ⟨b, hb, hkind, rfl⟩, fun h c ⟨b, hb, hkind, heq⟩ =>
    heq ▸ h b hb hkind⟩

/-- The holder of an identifier is a branch that contains it, and all others which do
contain that one too. -/
theorem holder?_eq_some {holder : Oid} :
    holder? descriptors oid = some holder ↔
      (∃ b ∈ descriptors, b.kind = .branch ∧ b.oid = holder) ∧ holder < oid ∧
        ∀ c ∈ descriptors, c.kind = .branch → c.oid < oid → c.oid ≤ holder := by
  simp only [holder?, Oid.deepest?_eq_some_iff, mem_branchOids]
  refine and_congr_right fun _ => and_congr_right fun _ => ?_
  exact ⟨fun h c hc hkind => h c.oid ⟨c, hc, hkind, rfl⟩, fun h o ⟨c, hc, hkind, heq⟩ =>
    heq ▸ h c hc hkind⟩

/-- The holder is a matter of which objects there are. -/
theorem holder?_congr (h : ∀ d, d ∈ descriptors ↔ d ∈ others) :
    holder? descriptors oid = holder? others oid := by
  refine Oid.deepest?_congr fun c _ => ?_
  simp only [mem_branchOids, h]

theorem crowded_congr (h : ∀ d, d ∈ descriptors ↔ d ∈ others) :
    Crowded descriptors ↔ Crowded others := by
  simp only [Crowded, h, holder?_congr h]

theorem branchOids_append (others : List Descriptor) :
    branchOids (descriptors ++ others) = branchOids descriptors ++ branchOids others := by
  simp [branchOids]

theorem branchOids_kept :
    branchOids (descriptors.map Descriptor.kept) = branchOids descriptors := by
  simp [branchOids, List.filter_map, Function.comp_def]

theorem holder?_kept : holder? (descriptors.map Descriptor.kept) oid = holder? descriptors oid := by
  rw [holder?, branchOids_kept, holder?]

theorem crowded_kept : Crowded (descriptors.map Descriptor.kept) ↔ Crowded descriptors := by
  simp [Crowded, holder?_kept]

end WorkingSet

/-! ### Branches above branches -/

namespace Item

variable {item x : Item} {siblings : List Item} {b c : Branch Item}

/-- What says of itself that it is a branch, among the nodes of some items, is one. -/
theorem exists_branch_descriptor {items : List Item} {P : Oid → Prop} :
    (∃ d ∈ items.map descriptor, d.kind = .branch ∧ P d.oid) ↔
      ∃ b, .branch b ∈ items ∧ P b.oid := by
  constructor
  · rintro ⟨d, hd, hkind, hP⟩
    obtain ⟨x, hx, rfl⟩ := List.mem_map.mp hd
    obtain ⟨b, rfl⟩ := kind_descriptor_eq_branch.mp hkind
    exact ⟨b, hx, hP⟩
  · rintro ⟨b, hb, hP⟩
    exact ⟨_, List.mem_map_of_mem hb, rfl, hP⟩

/-- Of two branches below an item, the lower one is below the upper one. -/
theorem WellNested.mem_subitems_of_le (h : item.WellNested) (hb : .branch b ∈ item.subitems)
    (hc : .branch c ∈ item.subitems) (hle : b.oid ≤ c.oid) :
    .branch c ∈ (Item.branch b).subitems := by
  induction item using inductMembers with
  | scalar s => simp at hb
  | branch p ih =>
    rcases mem_subitems_branch.mp hb with heq | hb
    · rwa [heq]
    rcases mem_subitems_branch.mp hc with heq | hc
    -- The upper branch is strictly below `p`, so the lower one cannot be `p` itself.
    · have hlt := h.oid_lt hb
      rw [Item.branch.inj heq] at hle
      exact absurd (hlt.trans_le hle) (lt_irrefl _)
    obtain ⟨m, hm, hbm⟩ := mem_subitemsOf.mp (branch_mem_subitemsOf_members.mp hb)
    obtain ⟨other, hother, hcm⟩ := mem_subitemsOf.mp (branch_mem_subitemsOf_members.mp hc)
    have hwm := h.children.each m hm
    have hle_other := (h.children.each other hother).oid_le hcm
    obtain rfl : m = other :=
      h.children.eq_of_le hm hother ((hwm.oid_le hbm).trans hle) hle_other
    exact ih m (Branch.mem_members_of_child hm) hwm hbm hcm

/-- Of two branches below siblings, the lower one is below the upper one. -/
theorem Nested.mem_subitems_of_le (h : Nested siblings) (hb : .branch b ∈ subitemsOf siblings)
    (hc : .branch c ∈ subitemsOf siblings) (hle : b.oid ≤ c.oid) :
    .branch c ∈ (Item.branch b).subitems := by
  obtain ⟨m, hm, hbm⟩ := mem_subitemsOf.mp hb
  obtain ⟨other, hother, hcm⟩ := mem_subitemsOf.mp hc
  have hwm := h.each m hm
  obtain rfl : m = other :=
    h.eq_of_le hm hother ((hwm.oid_le hbm).trans hle) ((h.each other hother).oid_le hcm)
  exact hwm.mem_subitems_of_le hbm hcm hle

end Item

/-! ### Settled forests -/

namespace Forest

open WorkingSet

variable {forest : Forest} {x : Item} {b c : Branch Item}

/-- The forest is well nested and no branch holds both branches and scalars. -/
structure Settled (forest : Forest) : Prop where
  wellNested : forest.WellNested
  pinned : ∀ b, .branch b ∈ forest.items → b.Pinned

theorem mem_descriptors {d : Descriptor} :
    d ∈ forest.descriptors ↔ ∃ x ∈ forest.items, x.descriptor = d := by
  rw [descriptors_eq, List.mem_map]

theorem exists_branch_descriptor {P : Oid → Prop} :
    (∃ d ∈ forest.descriptors, d.kind = .branch ∧ P d.oid) ↔
      ∃ b, .branch b ∈ forest.items ∧ P b.oid :=
  Item.exists_branch_descriptor

theorem forall_branch_descriptor {P : Oid → Prop} :
    (∀ d ∈ forest.descriptors, d.kind = .branch → P d.oid) ↔
      ∀ b, .branch b ∈ forest.items → P b.oid := by
  have h : (∃ d ∈ forest.descriptors, d.kind = .branch ∧ ¬ P d.oid) ↔
      ∃ b, .branch b ∈ forest.items ∧ ¬ P b.oid := exists_branch_descriptor (P := (¬ P ·))
  have hnone := h.not
  push Not at hnone
  exact hnone

theorem mem_items_cases (hx : x ∈ forest.items) :
    x ∈ forest.roots ∨ ∃ b, .branch b ∈ forest.items ∧ x ∈ b.members := by
  rw [← visits_items] at hx
  obtain ⟨v, hv, rfl⟩ := List.mem_map.mp hx
  rcases mem_visits hv with ⟨-, hroot⟩ | ⟨b, hb, -, hmem⟩
  · exact .inl hroot
  · exact .inr ⟨b, hb, hmem⟩

theorem WellNested.branch (h : forest.WellNested) (hb : .branch b ∈ forest.items) :
    (Item.branch b).WellNested := by
  obtain ⟨root, hroot, hmem⟩ := Item.mem_subitemsOf.mp hb
  exact fun c hc => h.each root hroot c ((Item.subitems_sublist hmem).subset hc)

/-- Of two branches of a well-nested forest, the lower one is below the upper one. -/
theorem WellNested.mem_members_of_lt (h : forest.WellNested) (hb : .branch b ∈ forest.items)
    (hc : .branch c ∈ forest.items) (hlt : b.oid < c.oid) :
    .branch c ∈ Item.subitemsOf b.members := by
  have hmem := Item.Nested.mem_subitems_of_le h hb hc hlt.le
  rcases Item.mem_subitems_branch.mp hmem with heq | hbelow
  · exact absurd hlt (Item.branch.inj heq ▸ lt_irrefl _)
  · exact hbelow

/-- Two branches of a well-nested forest with one identifier are the same. -/
theorem WellNested.branch_eq (h : forest.WellNested) (hb : .branch b ∈ forest.items)
    (hc : .branch c ∈ forest.items) (hoid : b.oid = c.oid) : b = c := by
  have hmem := Item.Nested.mem_subitems_of_le h hb hc hoid.le
  rcases Item.mem_subitems_branch.mp hmem with heq | hbelow
  · exact (Item.branch.inj heq).symm
  · have hlt := (h.branch hb).oid_lt hbelow
    exact absurd (hoid ▸ hlt) (lt_irrefl _)

/-- A branch with another branch below it has a child that is, or contains, that branch. -/
theorem WellNested.exists_child_le (h : forest.WellNested) (hb : .branch b ∈ forest.items)
    (hc : .branch c ∈ forest.items) (hlt : b.oid < c.oid) :
    ∃ m, .branch m ∈ b.children ∧ m.oid ≤ c.oid := by
  have hbelow := Item.branch_mem_subitemsOf_members.mp (h.mem_members_of_lt hb hc hlt)
  obtain ⟨child, hchild, hle⟩ := (h.branch hb).children.exists_le hbelow
  obtain ⟨m, rfl⟩ := (h.branch hb).ordered.branches child hchild
  exact ⟨m, hchild, hle⟩

/-- No branch contains a top-level item. -/
theorem WellNested.holder?_root (h : forest.WellNested) (hx : x ∈ forest.roots) :
    holder? forest.descriptors x.oid = none := by
  rw [holder?_eq_none, forall_branch_descriptor (P := (¬ · < x.oid))]
  intro c hc hlt
  -- The root above the branch contains `x` as well, so it is `x`.
  obtain ⟨root, hroot, hmem⟩ := Item.mem_subitemsOf.mp hc
  have hle := (h.each root hroot).oid_le hmem
  obtain rfl : root = x := Item.Nested.eq_of_le h hroot hx (hle.trans hlt.le) le_rfl
  exact lt_irrefl _ (hle.trans_lt hlt)

/-- What a branch of the forest holds belongs to the forest. -/
theorem members_sublist (hb : .branch b ∈ forest.items) : b.members.Sublist forest.items := by
  have hsub := Item.subitems_sublist_subitemsOf hb
  rw [Item.subitems_branch] at hsub
  exact (Item.sublist_subitemsOf b.members).trans ((List.sublist_cons_self _ _).trans hsub)

/-- A branch is the deepest one above an identifier if it contains it and none of its children
does. -/
theorem WellNested.holder?_eq_some_iff (h : forest.WellNested) (hb : .branch b ∈ forest.items)
    {o : Oid} :
    holder? forest.descriptors o = some b.oid ↔
      b.oid < o ∧ ∀ c, .branch c ∈ b.children → ¬ c.oid < o := by
  rw [holder?_eq_some, exists_branch_descriptor (P := (· = b.oid)),
    forall_branch_descriptor (P := fun x => x < o → x ≤ b.oid)]
  constructor
  · rintro ⟨-, hlt, hmax⟩
    refine ⟨hlt, fun c hc hco => ?_⟩
    have hmem := Branch.mem_members_of_child hc
    have hbc : b.oid < c.oid := (h.branch hb).ordered.above _ hmem
    exact hbc.not_ge (hmax c ((members_sublist hb).subset hmem) hco)
  · rintro ⟨hlt, hnone⟩
    refine ⟨⟨b, hb, rfl⟩, hlt, fun c hc hco => ?_⟩
    -- Were `c` below `b`, the child of `b` on the way to `c` would contain the identifier.
    by_contra hle
    have hbc : b.oid < c.oid := Oid.lt_of_not_le hlt.le hco.le hle
    obtain ⟨m, hm, hmc⟩ := h.exists_child_le hb hc hbc
    exact hnone m hm (hmc.trans_lt hco)

/-- In a settled forest, each node lies in the deepest branch that contains it. -/
theorem Settled.holder?_member (h : forest.Settled) (hb : .branch b ∈ forest.items)
    (hx : x ∈ b.members) : holder? forest.descriptors x.oid = some b.oid := by
  have hwn := h.wellNested.branch hb
  refine (h.wellNested.holder?_eq_some_iff hb).mpr ⟨hwn.ordered.above x hx, fun c hc hlt => ?_⟩
  -- The branch has no leaves beside the child `c`, so `x` is a child too, and then it is `c`.
  have hleaves := h.pinned b hb ⟨c, hc⟩
  have hchild : x ∈ b.children := by simpa [Branch.members, hleaves] using hx
  have heq := hwn.children.eq_of_le hc hchild hlt.le le_rfl
  exact lt_irrefl _ (hlt.trans_eq (heq ▸ rfl))

/-- Items that are told from the others by their holder are the nodes with that holder. -/
theorem perm_filter_holder? (hnodup : forest.descriptors.Nodup) {held : List Item}
    {holder : Option Oid} (hsub : held.Sublist forest.items)
    (hheld : ∀ x ∈ forest.items, x ∈ held ↔ holder? forest.descriptors x.oid = holder) :
    (held.map Item.descriptor).Perm
      (forest.descriptors.filter fun d => holder? forest.descriptors d.oid = holder) := by
  have hmap : (held.map Item.descriptor).Sublist forest.descriptors := hsub.map _
  -- Neither side repeats a node, so it is enough to compare their members.
  refine (List.perm_ext_iff_of_nodup (hnodup.sublist hmap) (hnodup.filter _)).mpr ?_
  intro d
  rw [List.mem_filter, decide_eq_true_iff]
  constructor
  · intro hd
    obtain ⟨x, hx, rfl⟩ := List.mem_map.mp hd
    rw [Item.oid_descriptor]
    exact ⟨hmap.subset hd, (hheld x (hsub.subset hx)).mp hx⟩
  · rintro ⟨hd, hholder⟩
    obtain ⟨x, hx, rfl⟩ := mem_descriptors.mp hd
    rw [Item.oid_descriptor] at hholder
    exact List.mem_map_of_mem ((hheld x hx).mpr hholder)

/-- In a settled forest, the top-level items are the nodes without a holder. -/
theorem Settled.roots_perm (h : forest.Settled) (hnodup : forest.descriptors.Nodup) :
    (forest.roots.map Item.descriptor).Perm
      (forest.descriptors.filter fun d => holder? forest.descriptors d.oid = none) := by
  refine perm_filter_holder? hnodup (Item.sublist_subitemsOf forest.roots) ?_
  intro x hx
  refine ⟨h.wellNested.holder?_root, fun hnone => ?_⟩
  rcases mem_items_cases hx with hroot | ⟨c, hc, hmem⟩
  · exact hroot
  · rw [h.holder?_member hc hmem] at hnone
    cases hnone

/-- In a settled forest, a branch holds the nodes of which it is the holder. -/
theorem Settled.members_perm (h : forest.Settled) (hnodup : forest.descriptors.Nodup)
    (hb : .branch b ∈ forest.items) :
    (b.members.map Item.descriptor).Perm
      (forest.descriptors.filter fun d => holder? forest.descriptors d.oid = some b.oid) := by
  refine perm_filter_holder? hnodup (members_sublist hb) ?_
  intro x hx
  refine ⟨h.holder?_member hb, fun hsome => ?_⟩
  rcases mem_items_cases hx with hroot | ⟨c, hc, hmem⟩
  · rw [h.wellNested.holder?_root hroot] at hsome
    cases hsome
  · rw [h.holder?_member hc hmem] at hsome
    exact h.wellNested.branch_eq hc hb (Option.some.inj hsome) ▸ hmem

/-! ### Success -/

/-- A scalar of a well-nested forest is a top-level item or a leaf. -/
theorem WellNested.scalar_cases (h : forest.WellNested) {s : Scalar}
    (hs : .scalar s ∈ forest.items) :
    .scalar s ∈ forest.roots ∨ ∃ a, .branch a ∈ forest.items ∧ s ∈ a.leaves := by
  rcases mem_items_cases hs with htop | ⟨a, ha, hmem⟩
  · exact .inl htop
  · rcases Branch.mem_members.mp hmem with ⟨t, ht, heq⟩ | hchild
    · exact .inr ⟨a, ha, Item.scalar.inj heq ▸ ht⟩
    · obtain ⟨c, hc⟩ := (h.branch ha).ordered.branches _ hchild
      cases hc

/-- A well-nested forest is crowded if a branch with child branches is the deepest one above a
scalar. -/
theorem WellNested.crowded_iff (h : forest.WellNested) :
    Crowded forest.descriptors ↔
      ∃ b, .branch b ∈ forest.items ∧ (∃ c, .branch c ∈ b.children) ∧
        ∃ s, .scalar s ∈ forest.items ∧ holder? forest.descriptors s.oid = some b.oid := by
  constructor
  · rintro ⟨d, hd, hkind, hbelow, e, he, hscalar, hholder⟩
    obtain ⟨y, hb, rfl⟩ := mem_descriptors.mp hd
    obtain ⟨b, rfl⟩ := Item.kind_descriptor_eq_branch.mp hkind
    obtain ⟨z, hs, rfl⟩ := mem_descriptors.mp he
    obtain ⟨s, rfl⟩ := Item.kind_descriptor_eq_scalar.mp hscalar
    obtain ⟨c, hc, hlt⟩ := (exists_branch_descriptor (P := (b.oid < ·))).mp hbelow
    obtain ⟨m, hm, -⟩ := h.exists_child_le hb hc hlt
    exact ⟨b, hb, ⟨m, hm⟩, s, hs, hholder⟩
  · rintro ⟨b, hb, ⟨c, hc⟩, s, hs, hholder⟩
    have hmem := Branch.mem_members_of_child hc
    refine ⟨_, mem_descriptors.mpr ⟨_, hb, rfl⟩, rfl, ?_, _, mem_descriptors.mpr ⟨_, hs, rfl⟩,
      rfl, hholder⟩
    refine (exists_branch_descriptor (P := (b.oid < ·))).mpr ⟨c, ?_, ?_⟩
    · exact (members_sublist hb).subset hmem
    · exact (h.branch hb).ordered.above _ hmem

/-- A settled forest is not crowded. -/
theorem Settled.not_crowded (h : forest.Settled) : ¬ Crowded forest.descriptors := by
  rw [h.wellNested.crowded_iff]
  rintro ⟨b, hb, hbranches, s, hs, hholder⟩
  rcases h.wellNested.scalar_cases hs with hroot | ⟨p, hp, hleaf⟩
  · have hnone := h.wellNested.holder?_root hroot
    rw [Item.oid_scalar, hholder] at hnone
    cases hnone
  · have hmember := h.holder?_member hp (Branch.scalar_mem_members hleaf)
    rw [Item.oid_scalar, hholder] at hmember
    obtain rfl := h.wellNested.branch_eq hb hp (Option.some.inj hmember)
    -- The branch has a leaf, but also a child branch.
    exact List.ne_nil_of_mem hleaf (h.pinned b hb hbranches)

/-- A well-nested forest with an overloaded branch is crowded. -/
theorem WellNested.crowded_of_overloaded (h : forest.WellNested)
    (hb : .branch b ∈ forest.items) (hover : b.Overloaded) : Crowded forest.descriptors := by
  obtain ⟨hbranches, s, hs, hnone⟩ := hover
  have hmem := Branch.scalar_mem_members hs
  have hlt : b.oid < s.oid := (h.branch hb).ordered.above _ hmem
  refine h.crowded_iff.mpr ⟨b, hb, hbranches, s, (members_sublist hb).subset hmem, ?_⟩
  exact (h.holder?_eq_some_iff hb).mpr ⟨hlt, hnone⟩

/-- Reconciling a well-nested forest settles it. -/
theorem WellNested.settled_reconcile (h : forest.WellNested)
    (hok : forest.reconcile.error? = none) : forest.reconcile.after.Settled :=
  ⟨h.reconcile, fun _ hb => pinned_of_reconcile hok hb⟩

/-- Reconciling a well-nested forest succeeds unless its nodes are crowded. -/
theorem WellNested.reconcile_ok_iff (h : forest.WellNested) :
    forest.reconcile.error? = none ↔ ¬ Crowded forest.descriptors := by
  have hnodes : ∀ d, d ∈ forest.reconcile.after.descriptors ↔ d ∈ forest.descriptors :=
    fun d => (reconcile_perm forest).mem_iff
  rw [← crowded_congr hnodes]
  constructor
  · intro hok
    exact (h.settled_reconcile hok).not_crowded
  -- A refusal leaves an overloaded branch, wherever on the way it happened.
  · intro hcrowded
    by_contra herror
    obtain ⟨b, hb, hover⟩ := overloaded_of_reconcile herror
    exact hcrowded (h.reconcile.crowded_of_overloaded hb hover)

/-! ### Places -/

/-- The nodes of a forest, each with the identifier of the branch that holds it. -/
def places (forest : Forest) : List (Descriptor × Option Oid) :=
  forest.visits.map fun v => (v.item.descriptor, v.parent.map (·.oid))

theorem map_descriptors {α : Type} (f : Descriptor → α) :
    forest.descriptors.map f = forest.visits.map fun v => f v.item.descriptor := by
  rw [descriptors_eq, ← visits_items, List.map_map, List.map_map]
  rfl

/-- In a settled forest, the places of the nodes follow from the nodes. -/
theorem Settled.places_eq (h : forest.Settled) :
    forest.places = forest.descriptors.map fun d => (d, holder? forest.descriptors d.oid) := by
  rw [map_descriptors, places]
  refine List.map_congr_left fun v hv => Prod.ext rfl ?_
  rw [Item.oid_descriptor]
  rcases mem_visits hv with ⟨hnone, hroot⟩ | ⟨b, hb, hsome, hmem⟩
  · rw [hnone, h.wellNested.holder?_root hroot]
    rfl
  · rw [hsome, h.holder?_member hb hmem]
    rfl

/-- Settled forests with the same nodes have them in the same places. -/
theorem Settled.places_perm {other : Forest} (h : forest.Settled) (hother : other.Settled)
    (hperm : forest.descriptors.Perm other.descriptors) : forest.places.Perm other.places := by
  have hholder : ∀ oid, holder? forest.descriptors oid = holder? other.descriptors oid :=
    fun oid => holder?_congr fun d => hperm.mem_iff
  rw [h.places_eq, hother.places_eq]
  simp only [hholder]
  exact hperm.map _

/-! ### Working sets -/

variable {descriptors others : List Descriptor}

theorem ofWorkingSet_eq_ok :
    ofWorkingSet descriptors = .ok forest ↔ ∃ built, build descriptors = .ok built ∧
      built.reconcile.error? = none ∧ built.reconcile.after = forest := by
  unfold ofWorkingSet
  cases build descriptors with
  | error error => simp [bind, Except.bind]
  | ok built =>
    simp only [bind, Except.bind, Outcome.toExcept, Except.ok.injEq, exists_eq_left']
    cases built.reconcile.error? <;> simp

/-- The reconciled forest of a working set is settled and represents the working set. -/
theorem settled_of_ofWorkingSet (h : ofWorkingSet descriptors = .ok forest) :
    forest.Settled ∧ forest.Represents descriptors := by
  obtain ⟨built, hbuilt, hok, rfl⟩ := ofWorkingSet_eq_ok.mp h
  have hrep := represents_of_build hbuilt
  have hsettled := hrep.wellNested.settled_reconcile hok
  exact ⟨hsettled, hsettled.wellNested, (reconcile_perm built).trans hrep.nodes, hrep.legal⟩

/-- The nodes of a legal working set are distinct. -/
theorem Represents.nodup (h : forest.Represents descriptors) : forest.descriptors.Nodup := by
  refine h.nodes.nodup_iff.mpr (List.Nodup.of_map Descriptor.oid ?_)
  simpa [Function.comp_def] using h.legal.distinct

theorem Represents.holder?_eq (h : forest.Represents descriptors) (oid : Oid) :
    holder? forest.descriptors oid = holder? descriptors oid := by
  rw [holder?_congr fun d => h.nodes.mem_iff, holder?_kept]

/-- A working set has a reconciled forest exactly if it is legal and not crowded. -/
theorem ofWorkingSet_ok_iff :
    (∃ forest, ofWorkingSet descriptors = .ok forest) ↔
      Legal descriptors ∧ ¬ Crowded descriptors := by
  constructor
  · rintro ⟨forest, hok⟩
    obtain ⟨hsettled, hrep⟩ := settled_of_ofWorkingSet hok
    have hcrowded := hsettled.not_crowded
    rw [crowded_congr fun d => hrep.nodes.mem_iff, crowded_kept] at hcrowded
    exact ⟨hrep.legal, hcrowded⟩
  · rintro ⟨hlegal, hcrowded⟩
    rcases build_cases descriptors with
      ⟨built, hbuilt, hrep⟩ | ⟨before, d, after, error, rfl, -, -, hblames⟩
    · have hok : built.reconcile.error? = none := by
        rw [hrep.wellNested.reconcile_ok_iff, crowded_congr fun d => hrep.nodes.mem_iff,
          crowded_kept]
        exact hcrowded
      exact ⟨_, ofWorkingSet_eq_ok.mpr ⟨built, hbuilt, hok, rfl⟩⟩
    · have hbroken : Legal (before ++ [d]) := hlegal.sublist (by simp)
      exact absurd (hbroken.perm (List.perm_append_singleton _ _)) hblames.not_legal

/-- The order of a working set decides neither whether it has a reconciled forest nor where
the nodes of that forest lie. -/
theorem ofWorkingSet_perm (h : descriptors.Perm others) :
    ((∃ forest, ofWorkingSet descriptors = .ok forest) ↔
        ∃ forest, ofWorkingSet others = .ok forest) ∧
      ∀ forest other, ofWorkingSet descriptors = .ok forest → ofWorkingSet others = .ok other →
        forest.places.Perm other.places := by
  constructor
  · have hlegal : Legal descriptors ↔ Legal others := ⟨(·.perm h), (·.perm h.symm)⟩
    rw [ofWorkingSet_ok_iff, ofWorkingSet_ok_iff, hlegal, crowded_congr fun d => h.mem_iff]
  · intro forest other hforest hother
    obtain ⟨hsettled, hrep⟩ := settled_of_ofWorkingSet hforest
    obtain ⟨hsettled', hrep'⟩ := settled_of_ofWorkingSet hother
    exact hsettled.places_perm hsettled' (hrep.nodes.trans ((h.map _).trans hrep'.nodes.symm))

/-- A table whose branches come after one of its columns. -/
def columnFirst : List Descriptor :=
  [{ name := "ifMtu", kind := .scalar, oid := ⟨[1, 3, 2, 1]⟩, access := .readWrite },
    { name := "if", kind := .branch, oid := ⟨[1, 3]⟩ },
    { name := "ifEntry", kind := .branch, oid := ⟨[1, 3, 2]⟩ },
    { name := "ifType", kind := .scalar, oid := ⟨[1, 3, 2, 3]⟩, access := .readOnly }]

theorem ofWorkingSet_reverse_columnFirst :
    (ofWorkingSet columnFirst).toOption.isSome = true ∧
      ((∃ forest, ofWorkingSet columnFirst = .ok forest) ↔
        ∃ forest, ofWorkingSet columnFirst.reverse = .ok forest) ∧
      ∀ forest other, ofWorkingSet columnFirst = .ok forest →
        ofWorkingSet columnFirst.reverse = .ok other → forest.places.Perm other.places :=
  ⟨by decide +kernel, ofWorkingSet_perm columnFirst.reverse_perm.symm⟩

end Forest

end MibDrivers
