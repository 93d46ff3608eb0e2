import Mathlib.Data.List.Basic
import Mathlib.Data.List.Flatten
import MibDrivers.Forest.Insert
import MibDrivers.Forest.Traversal

/-!
# The nodes of a forest

A forest seen as a flat list: every item in it, each branch before what it holds, the leaves
of a branch before its children. What a node says about itself is a descriptor again; the
access mode of a branch is not kept. Statements about forests that do not depend on the
places of nodes speak about these lists up to their order.

## Main definitions

* `Branch.members` — what a branch holds directly
* `Item.subitems`, `Item.subitemsOf`, `Forest.items` — all items of an item, of siblings, of
  a forest
* `Item.descriptor` — what a node says about itself
* `Forest.descriptors` — the descriptors of all nodes

## Main results

* `Item.inductMembers` — induction along what branches hold
* `Item.lastFirst_perm` — the order of the search below a branch has the same items
* `Forest.visits_items`, `Forest.mem_visits` — a visit leads to each item, and names the
  branch that holds it
-/

namespace MibDrivers

/-- What a branch holds directly: its leaves, then its children. -/
def Branch.members (b : Branch Item) : List Item := b.leaves.map .scalar ++ b.children

namespace Branch

variable {b : Branch Item} {item : Item}

theorem mem_members :
    item ∈ b.members ↔ (∃ s ∈ b.leaves, Item.scalar s = item) ∨ item ∈ b.children := by
  rw [members, List.mem_append, List.mem_map]

theorem scalar_mem_members {s : Scalar} (h : s ∈ b.leaves) : Item.scalar s ∈ b.members :=
  mem_members.mpr (.inl ⟨s, h, rfl⟩)

theorem mem_members_of_child (h : item ∈ b.children) : item ∈ b.members :=
  mem_members.mpr (.inr h)

/-- If all children are branches, the leaves are the scalars that the branch holds. -/
theorem mem_leaves_iff (h : ∀ item ∈ b.children, ∃ c, item = .branch c) :
    item ∈ b.leaves.map Item.scalar ↔ item ∈ b.members ∧ ∃ s, item = .scalar s := by
  constructor
  · intro hx
    obtain ⟨s, -, rfl⟩ := List.mem_map.mp hx
    exact ⟨List.mem_append_left _ hx, s, rfl⟩
  · rintro ⟨hx, s, rfl⟩
    refine (List.mem_append.mp hx).resolve_right fun hchild => ?_
    obtain ⟨c, hc⟩ := h _ hchild
    cases hc

/-- If all children are branches, they are the branches that the branch holds. -/
theorem mem_children_iff (h : ∀ item ∈ b.children, ∃ c, item = .branch c) :
    item ∈ b.children ↔ item ∈ b.members ∧ ∃ c, item = .branch c := by
  constructor
  · intro hx
    exact ⟨mem_members_of_child hx, h item hx⟩
  · rintro ⟨hx, c, rfl⟩
    refine (List.mem_append.mp hx).resolve_left fun hleaf => ?_
    obtain ⟨s, -, hs⟩ := List.mem_map.mp hleaf
    cases hs

end Branch

namespace Item

/-- What a node says about itself, apart from its place. -/
def descriptor : Item → Descriptor
  | .branch b => { name := b.name, kind := .branch, oid := b.oid, description := b.description }
  | .scalar s =>
    { name := s.name, kind := .scalar, oid := s.oid, access := s.access
      description := s.description }

variable {item x : Item} {b : Branch Item} {siblings others : List Item}

@[simp] theorem oid_descriptor : item.descriptor.oid = item.oid := by cases item <;> rfl

@[simp] theorem name_descriptor : item.descriptor.name = item.name := by cases item <;> rfl

@[simp] theorem oid_branch : (Item.branch b).oid = b.oid := rfl

@[simp] theorem oid_scalar {s : Scalar} : (Item.scalar s).oid = s.oid := rfl

theorem kind_descriptor_eq_branch : item.descriptor.kind = .branch ↔ ∃ b, item = .branch b := by
  cases item <;> simp [descriptor]

theorem kind_descriptor_eq_scalar : item.descriptor.kind = .scalar ↔ ∃ s, item = .scalar s := by
  cases item <;> simp [descriptor]

/-- A scalar is what it says about itself. -/
theorem eq_scalar_of_descriptor {s : Scalar} (h : x.descriptor = (Item.scalar s).descriptor) :
    x = .scalar s := by
  cases x with
  | branch b => simp [descriptor] at h
  | scalar t =>
    obtain ⟨name, oid, access, description⟩ := t
    obtain ⟨rfl, -, rfl, rfl, rfl⟩ := Descriptor.mk.inj h
    rfl

theorem scalar_injective : Function.Injective Item.scalar := fun _ _ => Item.scalar.inj

/-- A branch is what it says about itself and what it holds. -/
theorem branch_eq_of_descriptor {c : Branch Item}
    (h : (Item.branch b).descriptor = (Item.branch c).descriptor)
    (hleaves : b.leaves = c.leaves) (hchildren : b.children = c.children) :
    Item.branch b = .branch c := by
  obtain ⟨name, oid, description, leaves, children⟩ := b
  obtain ⟨rfl, -, rfl, -, rfl⟩ := Descriptor.mk.inj h
  obtain rfl : leaves = c.leaves := hleaves
  obtain rfl : children = c.children := hchildren
  rfl

theorem mem_filterMap_branch? : b ∈ siblings.filterMap branch? ↔ .branch b ∈ siblings := by
  rw [List.mem_filterMap]
  constructor
  · rintro ⟨item, hitem, hb⟩
    cases item with
    | branch c => exact Option.some.inj hb ▸ hitem
    | scalar s => cases hb
  · intro h
    exact ⟨.branch b, h, rfl⟩

/-! ### All items below an item -/

mutual

/-- An item and all items below it, each branch before what it holds. -/
def subitems : Item → List Item
  | .branch b => .branch b :: branchSubitems b
  | .scalar s => [.scalar s]

/-- All items below a branch. -/
def branchSubitems : Branch Item → List Item
  | ⟨_, _, _, leaves, children⟩ => leaves.map .scalar ++ subitemsOf children

/-- All items of a list of siblings. -/
def subitemsOf : List Item → List Item
  | [] => []
  | item :: rest => item.subitems ++ subitemsOf rest

end

@[simp] theorem subitemsOf_nil : subitemsOf [] = [] := rfl

@[simp] theorem subitemsOf_cons :
    subitemsOf (item :: siblings) = item.subitems ++ subitemsOf siblings := rfl

@[simp] theorem subitems_scalar {s : Scalar} : (Item.scalar s).subitems = [.scalar s] := rfl

theorem subitemsOf_eq_flatMap : subitemsOf siblings = siblings.flatMap subitems := by
  induction siblings with
  | nil => rfl
  | cons item rest ih => simp only [subitemsOf_cons, List.flatMap_cons, ih]

@[simp] theorem subitemsOf_append :
    subitemsOf (siblings ++ others) = subitemsOf siblings ++ subitemsOf others := by
  simp only [subitemsOf_eq_flatMap, List.flatMap_append]

@[simp] theorem subitemsOf_scalars (leaves : List Scalar) :
    subitemsOf (leaves.map .scalar) = leaves.map .scalar := by
  induction leaves with
  | nil => rfl
  | cons leaf rest ih =>
    rw [List.map_cons, subitemsOf_cons, ih, subitems_scalar, List.singleton_append]

theorem subitems_branch (b : Branch Item) :
    (Item.branch b).subitems = .branch b :: subitemsOf b.members := by
  obtain ⟨name, oid, description, leaves, children⟩ := b
  simp only [subitems, branchSubitems, Branch.members, subitemsOf_append, subitemsOf_scalars]

theorem mem_subitemsOf : x ∈ subitemsOf siblings ↔ ∃ item ∈ siblings, x ∈ item.subitems := by
  rw [subitemsOf_eq_flatMap, List.mem_flatMap]

theorem mem_subitems_self (item : Item) : item ∈ item.subitems := by
  cases item with
  | branch b => simp [subitems_branch]
  | scalar s => simp

theorem mem_subitemsOf_of_mem (h : item ∈ siblings) : item ∈ subitemsOf siblings :=
  mem_subitemsOf.mpr ⟨item, h, mem_subitems_self item⟩

theorem mem_subitems_branch :
    x ∈ (Item.branch b).subitems ↔ x = .branch b ∨ x ∈ subitemsOf b.members := by
  rw [subitems_branch, List.mem_cons]

theorem subitemsOf_perm (h : siblings.Perm others) :
    (subitemsOf siblings).Perm (subitemsOf others) := by
  rw [subitemsOf_eq_flatMap, subitemsOf_eq_flatMap]
  exact h.flatMap_right _

theorem subitemsOf_sublist (h : siblings.Sublist others) :
    (subitemsOf siblings).Sublist (subitemsOf others) := by
  rw [subitemsOf_eq_flatMap, subitemsOf_eq_flatMap]
  exact h.flatMap _

/-- An item appears among siblings with all that is below it. -/
theorem subitems_sublist_of_mem (h : item ∈ siblings) :
    item.subitems.Sublist (subitemsOf siblings) := by
  have hsub := subitemsOf_sublist (List.singleton_sublist.mpr h)
  rwa [subitemsOf_cons, subitemsOf_nil, List.append_nil] at hsub

theorem sublist_subitemsOf (siblings : List Item) : siblings.Sublist (subitemsOf siblings) := by
  induction siblings with
  | nil => exact .slnil
  | cons item rest ih =>
    rw [subitemsOf_cons, ← List.singleton_append]
    exact (List.singleton_sublist.mpr (mem_subitems_self item)).append ih

/-- A branch below a branch is below one of its children. -/
theorem branch_mem_subitemsOf_members {c : Branch Item} :
    .branch c ∈ subitemsOf b.members ↔ .branch c ∈ subitemsOf b.children := by
  simp [Branch.members]

/-- What is below a child of a sibling is below the siblings. -/
theorem mem_subitemsOf_of_children (hb : .branch b ∈ siblings) (hx : x ∈ subitemsOf b.children) :
    x ∈ subitemsOf siblings := by
  refine mem_subitemsOf.mpr ⟨_, hb, mem_subitems_branch.mpr (.inr ?_)⟩
  rw [Branch.members, subitemsOf_append]
  exact List.mem_append_right _ hx

/-- What is below siblings of which one was replaced is below the new one, or was there. -/
theorem mem_subitemsOf_replace {y z : Item} {before after : List Item}
    (h : x ∈ subitemsOf (before ++ y :: after)) :
    x ∈ y.subitems ∨ x ∈ subitemsOf (before ++ z :: after) := by
  simp only [subitemsOf_append, subitemsOf_cons, List.mem_append] at h ⊢
  tauto

/-- What holds of all branches of a branch holds of itself and of all branches of what it
holds. -/
theorem forall_branch_iff {P : Branch Item → Prop} :
    (∀ c, .branch c ∈ (Item.branch b).subitems → P c) ↔
      P b ∧ ∀ item ∈ b.members, ∀ c, .branch c ∈ item.subitems → P c := by
  constructor
  · intro h
    refine ⟨h b (mem_subitems_self _), ?_⟩
    intro item hitem c hc
    refine h c (mem_subitems_branch.mpr (.inr ?_))
    exact mem_subitemsOf.mpr ⟨item, hitem, hc⟩
  · rintro ⟨hb, hmembers⟩ c hc
    rcases mem_subitems_branch.mp hc with heq | hbelow
    · exact Item.branch.inj heq ▸ hb
    · obtain ⟨item, hitem, hmem⟩ := mem_subitemsOf.mp hbelow
      exact hmembers item hitem c hmem

/-! ### Sizes -/

theorem size_branch (b : Branch Item) : (Item.branch b).size = totalSize b.members + 1 := by
  obtain ⟨name, oid, description, leaves, children⟩ := b
  simp only [size, branchSize, Branch.members, Visit.totalSize_append, Visit.totalSize_scalars]
  omega

theorem size_pos (item : Item) : 0 < item.size := by
  cases item with
  | branch b => rw [size_branch]; omega
  | scalar s => simp [size]

theorem size_le_totalSize (h : item ∈ siblings) : item.size ≤ totalSize siblings := by
  induction siblings with
  | nil => simp at h
  | cons first rest ih =>
    rw [totalSize]
    rcases List.mem_cons.mp h with rfl | hrest
    · omega
    · have hle := ih hrest
      omega

theorem totalSize_le_of_sublist (h : siblings.Sublist others) :
    totalSize siblings ≤ totalSize others := by
  induction h with
  | slnil => exact Nat.le_refl _
  | cons item _ ih =>
    rw [totalSize]
    omega
  | cons_cons item _ ih =>
    rw [totalSize, totalSize]
    omega

theorem size_lt_of_mem_members (h : item ∈ b.members) : item.size < (Item.branch b).size := by
  have hle := size_le_totalSize h
  rw [size_branch]
  omega

/-- Induction along what branches hold. -/
@[elab_as_elim]
theorem inductMembers {motive : Item → Prop} (scalar : ∀ s, motive (.scalar s))
    (branch : ∀ b, (∀ item ∈ b.members, motive item) → motive (.branch b)) (item : Item) :
    motive item := by
  -- The recursor of `Item` goes through `Branch` and its lists, so the size stands in for it.
  induction hsize : item.size using Nat.strongRecOn generalizing item with
  | ind n ih =>
    cases item with
    | scalar s => exact scalar s
    | branch b =>
      refine branch b fun member hmember => ih member.size ?_ member rfl
      exact hsize ▸ size_lt_of_mem_members hmember

/-- What is below an item appears with all that is below it. -/
theorem subitems_sublist (h : x ∈ item.subitems) : x.subitems.Sublist item.subitems := by
  induction item using inductMembers with
  | scalar s =>
    rw [subitems_scalar, List.mem_singleton] at h
    rw [h]
  | branch b ih =>
    rcases mem_subitems_branch.mp h with rfl | hbelow
    · exact List.Sublist.refl _
    · obtain ⟨member, hmember, hmem⟩ := mem_subitemsOf.mp hbelow
      rw [subitems_branch b]
      exact ((ih member hmember hmem).trans (subitems_sublist_of_mem hmember)).cons _

theorem subitems_sublist_subitemsOf (h : x ∈ subitemsOf siblings) :
    x.subitems.Sublist (subitemsOf siblings) := by
  obtain ⟨item, hitem, hmem⟩ := mem_subitemsOf.mp h
  exact (subitems_sublist hmem).trans (subitems_sublist_of_mem hitem)

theorem length_subitemsOf_of (h : ∀ item ∈ siblings, item.subitems.length = item.size) :
    (subitemsOf siblings).length = totalSize siblings := by
  induction siblings with
  | nil => rfl
  | cons item rest ih =>
    rw [subitemsOf_cons, List.length_append, totalSize, h item List.mem_cons_self,
      ih fun other hother => h other (List.mem_cons_of_mem _ hother)]

theorem length_subitems (item : Item) : item.subitems.length = item.size := by
  induction item using inductMembers with
  | scalar s => simp [size]
  | branch b ih => rw [subitems_branch, List.length_cons, length_subitemsOf_of ih, size_branch]

theorem length_subitemsOf (siblings : List Item) :
    (subitemsOf siblings).length = totalSize siblings :=
  length_subitemsOf_of fun item _ => length_subitems item

/-! ### The search below a branch -/

theorem childrenContent_perm_of (h : ∀ item ∈ siblings, item.lastFirst.Perm item.subitems) :
    (childrenContent siblings).Perm (subitemsOf siblings) := by
  induction siblings with
  | nil => exact .rfl
  | cons item rest ih =>
    -- The search meets the rest before the first item.
    rw [childrenContent, subitemsOf_cons]
    refine List.perm_append_comm.trans ((h item List.mem_cons_self).append ?_)
    exact ih fun other hother => h other (List.mem_cons_of_mem _ hother)

theorem branchContent_eq (b : Branch Item) :
    branchContent b = childrenContent b.children ++ b.leaves.reverse.map .scalar := by
  obtain ⟨name, oid, description, leaves, children⟩ := b
  rw [branchContent]

theorem branchContent_perm_of (h : ∀ item ∈ b.children, item.lastFirst.Perm item.subitems) :
    (branchContent b).Perm (subitemsOf b.members) := by
  rw [branchContent_eq, Branch.members, subitemsOf_append, subitemsOf_scalars]
  refine ((childrenContent_perm_of h).append ?_).trans List.perm_append_comm
  exact b.leaves.reverse_perm.map _

/-- The search below a branch meets the same items as the walk along the branch. -/
theorem lastFirst_perm (item : Item) : item.lastFirst.Perm item.subitems := by
  induction item using inductMembers with
  | scalar s => exact .rfl
  | branch b ih =>
    rw [lastFirst, subitems_branch]
    refine .cons _ (branchContent_perm_of ?_)
    intro item hitem
    exact ih item (Branch.mem_members_of_child hitem)

theorem mem_branchContent : x ∈ branchContent b ↔ x ∈ subitemsOf b.members :=
  (branchContent_perm_of fun item _ => lastFirst_perm item).mem_iff

/-! ### Descriptors of items -/

/-- The descriptors of an item and of all items below it. -/
def descriptors (item : Item) : List Descriptor := item.subitems.map descriptor

/-- The descriptors of all items of a list of siblings. -/
def descriptorsOf (siblings : List Item) : List Descriptor := (subitemsOf siblings).map descriptor

@[simp] theorem descriptorsOf_nil : descriptorsOf [] = [] := rfl

@[simp] theorem descriptorsOf_cons :
    descriptorsOf (item :: siblings) = item.descriptors ++ descriptorsOf siblings := by
  simp [descriptorsOf, descriptors]

@[simp] theorem descriptorsOf_singleton : descriptorsOf [item] = item.descriptors := by
  simp [descriptorsOf, descriptors]

@[simp] theorem descriptorsOf_append :
    descriptorsOf (siblings ++ others) = descriptorsOf siblings ++ descriptorsOf others := by
  simp [descriptorsOf]

@[simp] theorem descriptors_scalar {s : Scalar} :
    (Item.scalar s).descriptors = [(Item.scalar s).descriptor] := rfl

theorem descriptors_branch (b : Branch Item) :
    (Item.branch b).descriptors = (Item.branch b).descriptor :: descriptorsOf b.members := by
  simp [descriptors, descriptorsOf, subitems_branch]

theorem descriptorsOf_perm (h : siblings.Perm others) :
    (descriptorsOf siblings).Perm (descriptorsOf others) :=
  (subitemsOf_perm h).map _

theorem length_descriptorsOf (siblings : List Item) :
    (descriptorsOf siblings).length = totalSize siblings := by
  rw [descriptorsOf, List.length_map, length_subitemsOf]

theorem length_descriptors (item : Item) : item.descriptors.length = item.size := by
  rw [descriptors, List.length_map, length_subitems]

end Item

/-! ### Visits -/

namespace Visit

theorem below_items (v : Visit) :
    v.below.map (·.item) = match v.item with | .scalar _ => [] | .branch b => b.members := by
  obtain ⟨parent, depth, item⟩ := v
  cases item <;> simp [below, Branch.members, Function.comp_def]

theorem subitems_item (v : Visit) :
    v.item.subitems = v.item :: Item.subitemsOf (v.below.map (·.item)) := by
  rw [below_items]
  cases v.item with
  | branch b => exact Item.subitems_branch b
  | scalar s => rfl

end Visit

namespace Forest

/-- All items of a forest. -/
def items (forest : Forest) : List Item := Item.subitemsOf forest.roots

/-- The descriptors of all nodes of a forest. -/
def descriptors (forest : Forest) : List Descriptor := Item.descriptorsOf forest.roots

theorem descriptors_eq (forest : Forest) :
    forest.descriptors = forest.items.map Item.descriptor := rfl

theorem walk_items (work : List Visit) :
    (walk work).map (·.item) = Item.subitemsOf (work.map (·.item)) := by
  fun_induction walk work with
  | case1 => rfl
  | case2 v rest ih =>
    rw [List.map_cons, List.map_cons, ih, List.map_append, Item.subitemsOf_append,
      Item.subitemsOf_cons, v.subitems_item, List.cons_append]

theorem rootVisits_items (siblings : List Item) :
    (siblings.map fun item => ({ parent := none, depth := 0, item } : Visit)).map (·.item) =
      siblings := by
  simp [Function.comp_def]

/-- The visits lead to all items, in their order. -/
theorem visits_items (forest : Forest) : forest.visits.map (·.item) = forest.items := by
  rw [visits, walk_items, rootVisits_items, items]

theorem mem_walk {work : List Visit} {v : Visit} (h : v ∈ walk work) :
    v ∈ work ∨ ∃ b, .branch b ∈ Item.subitemsOf (work.map (·.item)) ∧
      v.parent = some b ∧ v.item ∈ b.members := by
  fun_induction walk work with
  | case1 => simp at h
  | case2 u rest ih =>
    rcases List.mem_cons.mp h with rfl | hwalk
    · exact .inl List.mem_cons_self
    -- The work list leads to the same items before and after its first visit is opened.
    · have hitems : Item.subitemsOf ((u :: rest).map (·.item)) =
          u.item :: Item.subitemsOf ((u.below ++ rest).map (·.item)) := by
        rw [List.map_cons, Item.subitemsOf_cons, u.subitems_item, List.cons_append,
          List.map_append, Item.subitemsOf_append]
      rw [hitems]
      rcases ih hwalk with hmem | ⟨b, hb, hparent, hmember⟩
      · rcases List.mem_append.mp hmem with hbelow | hrest
        · cases hu : u.item with
          | scalar s => simp [Visit.below, hu] at hbelow
          | branch b =>
            simp only [Visit.below, hu, List.mem_map] at hbelow
            obtain ⟨item, hitem, rfl⟩ := hbelow
            exact .inr ⟨b, List.mem_cons_self, rfl, hitem⟩
        · exact .inl (List.mem_cons_of_mem _ hrest)
      · exact .inr ⟨b, List.mem_cons_of_mem _ hb, hparent, hmember⟩

/-- A visit leads to a top-level item without a parent, or to a member of its parent. -/
theorem mem_visits {forest : Forest} {v : Visit} (h : v ∈ forest.visits) :
    (v.parent = none ∧ v.item ∈ forest.roots) ∨
      ∃ b, .branch b ∈ forest.items ∧ v.parent = some b ∧ v.item ∈ b.members := by
  rcases mem_walk h with hroot | ⟨b, hb, hparent, hmember⟩
  · obtain ⟨item, hitem, rfl⟩ := List.mem_map.mp hroot
    exact .inl ⟨rfl, hitem⟩
  · rw [rootVisits_items] at hb
    exact .inr ⟨b, hb, hparent, hmember⟩

end Forest

end MibDrivers
