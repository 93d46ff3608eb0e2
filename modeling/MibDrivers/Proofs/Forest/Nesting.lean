import Mathlib.Data.List.Pairwise
import MibDrivers.Proofs.Forest.Merge

/-!
# Well-nested forests

A branch is in order if it strictly contains what it holds, its children are branches, and
no two of them contain one another. A forest is well nested if all of its branches are in
order and its top-level items stand apart. Then an item contains all items below it, and no
two siblings have anything below them in common.

## Main definitions

* `Branch.Ordered` — a branch is in order with what it holds
* `Item.WellNested`, `Item.Nested`, `Forest.WellNested` — all branches of an item, of siblings,
  or of a forest are in order

## Main results

* `Item.WellNested.oid_le`, `Item.WellNested.oid_lt` — an item contains what is below it
* `Item.Nested.eq_of_le` — two siblings above one identifier are the same
-/

namespace MibDrivers

/-- Neither of two items contains the other. -/
def Item.Apart (x y : Item) : Prop := x.oid.Apart y.oid

/-- The branch strictly contains what it holds, its children are branches, and no two of
these contain one another. -/
structure Branch.Ordered (b : Branch Item) : Prop where
  above : ∀ item ∈ b.members, b.oid < item.oid
  branches : ∀ item ∈ b.children, ∃ c, item = .branch c
  apart : b.children.Pairwise Item.Apart

namespace Item

variable {item x y : Item} {siblings others : List Item} {b c : Branch Item}

instance : Std.Symm Apart := ⟨fun _ _ => Oid.Apart.symm⟩

/-- Whether siblings stand apart is a matter of what they say about themselves. -/
theorem pairwise_apart_congr (h : siblings.map descriptor = others.map descriptor) :
    siblings.Pairwise Apart ↔ others.Pairwise Apart := by
  have hmap : ∀ items : List Item, items.Pairwise Apart ↔
      (items.map descriptor).Pairwise fun d e => d.oid.Apart e.oid := by
    intro items
    simp only [List.pairwise_map, oid_descriptor]
    exact Iff.rfl
  rw [hmap, hmap, h]

/-- All branches of the item are in order. -/
def WellNested (item : Item) : Prop := ∀ b, .branch b ∈ item.subitems → b.Ordered

/-- The siblings stand apart, and all of their branches are in order. -/
structure Nested (siblings : List Item) : Prop where
  apart : siblings.Pairwise Apart
  each : ∀ item ∈ siblings, item.WellNested

theorem wellNested_scalar (s : Scalar) : (Item.scalar s).WellNested := by
  intro b hb
  simp at hb

theorem wellNested_branch :
    (Item.branch b).WellNested ↔ b.Ordered ∧ ∀ item ∈ b.members, item.WellNested :=
  forall_branch_iff

theorem WellNested.ordered (h : (Item.branch b).WellNested) : b.Ordered :=
  (wellNested_branch.mp h).1

theorem WellNested.member (h : (Item.branch b).WellNested) (hx : x ∈ b.members) : x.WellNested :=
  (wellNested_branch.mp h).2 x hx

/-- The children of a branch in order are nested siblings. -/
theorem WellNested.children (h : (Item.branch b).WellNested) : Nested b.children where
  apart := h.ordered.apart
  each _ hitem := h.member (Branch.mem_members_of_child hitem)

/-- A branch without content is in order. -/
theorem wellNested_of_members_eq_nil (h : b.members = []) : (Item.branch b).WellNested := by
  have hchildren : b.children = [] := (List.append_eq_nil_iff.mp h).2
  refine wellNested_branch.mpr ⟨⟨?_, ?_, ?_⟩, ?_⟩
  · simp [h]
  · simp [hchildren]
  · simp [hchildren]
  · simp [h]

/-- An item contains all items below it. -/
theorem WellNested.oid_le (h : item.WellNested) (hx : x ∈ item.subitems) : item.oid ≤ x.oid := by
  induction item using inductMembers with
  | scalar s =>
    rw [subitems_scalar, List.mem_singleton] at hx
    exact hx ▸ le_rfl
  | branch b ih =>
    rcases mem_subitems_branch.mp hx with rfl | hbelow
    · exact le_rfl
    · obtain ⟨member, hmember, hmem⟩ := mem_subitemsOf.mp hbelow
      exact (h.ordered.above member hmember).le.trans (ih member hmember (h.member hmember) hmem)

/-- A branch in order strictly contains all items below it. -/
theorem WellNested.oid_lt (h : (Item.branch b).WellNested) (hx : x ∈ subitemsOf b.members) :
    b.oid < x.oid := by
  obtain ⟨member, hmember, hmem⟩ := mem_subitemsOf.mp hx
  exact (h.ordered.above member hmember).trans_le ((h.member hmember).oid_le hmem)

namespace Nested

theorem nil : Nested [] := ⟨.nil, by simp⟩

theorem tail (h : Nested (item :: siblings)) : Nested siblings :=
  ⟨h.apart.of_cons, fun x hx => h.each x (List.mem_cons_of_mem _ hx)⟩

theorem sublist (h : Nested siblings) (hsub : others.Sublist siblings) : Nested others :=
  ⟨h.apart.sublist hsub, fun x hx => h.each x (hsub.subset hx)⟩

theorem perm (h : Nested siblings) (hperm : siblings.Perm others) : Nested others :=
  ⟨(hperm.pairwise_iff Oid.Apart.symm).mp h.apart, fun x hx =>
    h.each x (hperm.mem_iff.mpr hx)⟩

theorem cons (h : Nested siblings) (hitem : item.WellNested)
    (hapart : ∀ sibling ∈ siblings, Apart item sibling) : Nested (item :: siblings) :=
  ⟨h.apart.cons hapart, List.forall_mem_cons.mpr ⟨hitem, h.each⟩⟩

/-- Two different siblings stand apart. -/
theorem apart_of_ne (h : Nested siblings) (hx : x ∈ siblings) (hy : y ∈ siblings)
    (hne : x ≠ y) : Apart x y :=
  h.apart.forall hx hy hne

/-- Siblings of which one contains a part of the other are the same. -/
theorem eq_of_le (h : Nested siblings) (hx : x ∈ siblings) (hy : y ∈ siblings)
    {o : Oid} (hxo : x.oid ≤ o) (hyo : y.oid ≤ o) : x = y := by
  by_contra hne
  exact (Oid.Apart.mono (h.apart_of_ne hx hy hne) hxo hyo).1 le_rfl

/-- Whatever is below siblings is in one of them. -/
theorem exists_le (h : Nested siblings) (hx : x ∈ subitemsOf siblings) :
    ∃ sibling ∈ siblings, sibling.oid ≤ x.oid := by
  obtain ⟨sibling, hsibling, hmem⟩ := mem_subitemsOf.mp hx
  exact ⟨sibling, hsibling, (h.each sibling hsibling).oid_le hmem⟩

/-- A sibling can be replaced by an item with the same identifier. -/
theorem replace {before after : List Item} (h : Nested (before ++ x :: after))
    (hy : y.WellNested) (hoid : y.oid = x.oid) : Nested (before ++ y :: after) := by
  have hcons : Nested (x :: (before ++ after)) := h.perm List.perm_middle
  refine perm (cons hcons.tail hy fun sibling hsibling => ?_) List.perm_middle.symm
  have hapart := List.rel_of_pairwise_cons hcons.apart hsibling
  rw [Apart] at hapart ⊢
  exact hoid ▸ hapart

end Nested

end Item

namespace Forest

/-- The top-level items stand apart and all branches of the forest are in order. -/
def WellNested (forest : Forest) : Prop := Item.Nested forest.roots

theorem wellNested_empty : empty.WellNested := Item.Nested.nil

end Forest

end MibDrivers
