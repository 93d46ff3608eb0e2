import MibDrivers.Proofs.Forest.MergeCases

/-!
# Merges keep siblings well nested

If an item in order is merged among siblings in order, then siblings in order are left, also
if the merge is refused: a refusal drops items, but what stays is as it was or has received
something below it. The induction is on the number of nodes at hand, since a merge calls
merges of other siblings and other items, but of fewer nodes.

## Main results

* `Item.Nested.merge` — merges keep siblings well nested
* `Item.WellNested.attach` — receipts keep branches well nested
* `Forest.WellNested.insert` — insertions keep forests well nested
-/

namespace MibDrivers

namespace Item

variable {item : Item} {siblings : List Item} {b : Branch Item}

/-- A branch in order stays in order when it receives an item below it, if the nested merge
keeps its children in order. -/
theorem wellNested_attach_of (hmerge : Nested (merge b.children item).after)
    (hb : (Item.branch b).WellNested) (hitem : item.WellNested) (hlt : b.oid < item.oid) :
    (Item.branch (b.attach item).after).WellNested := by
  cases hclash : (branchContent b).findSome? item.clash? with
  | some error =>
    rw [Branch.attach, Branch.attachUsing_of_clash hclash]
    exact hb
  | none =>
    cases item with
    | scalar s =>
      rw [Branch.attach, Branch.attachUsing_scalar hclash]
      have hmembers : ∀ x ∈ ({ b with leaves := b.leaves ++ [s] } : Branch Item).members,
          x = .scalar s ∨ x ∈ b.members := by
        intro x hx
        simp only [Branch.members, List.map_append, List.map_cons, List.map_nil, List.mem_append,
          List.mem_singleton] at hx ⊢
        tauto
      refine wellNested_branch.mpr ⟨⟨fun x hx => ?_, hb.ordered.branches, hb.ordered.apart⟩, ?_⟩
      · rcases hmembers x hx with rfl | hmem
        · exact hlt
        · exact hb.ordered.above x hmem
      · intro x hx
        rcases hmembers x hx with rfl | hmem
        · exact wellNested_scalar s
        · exact hb.member hmem
    | branch c =>
      rw [Branch.attach, Branch.attachUsing_branch hclash]
      -- Every child afterwards has the identifier and the kind of the item or of a child before.
      have hheads : ∀ x ∈ (merge b.children (.branch c)).after,
          b.oid < x.oid ∧ ∃ d, x = .branch d := by
        intro x hx
        have hhead : ∃ y : Item, x.descriptor = y.descriptor ∧ b.oid < y.oid ∧
            ∃ d, y = .branch d := by
          rcases descriptor_of_mem_merge hb.children hx with heq | ⟨y, hy, heq⟩
          · exact ⟨.branch c, heq, hlt, c, rfl⟩
          · exact ⟨y, heq, hb.ordered.above y (Branch.mem_members_of_child hy),
              hb.ordered.branches y hy⟩
        obtain ⟨y, heq, hbelow, hbranch⟩ := hhead
        rw [← kind_descriptor_eq_branch] at hbranch ⊢
        rw [← oid_descriptor, heq, oid_descriptor]
        exact ⟨hbelow, hbranch⟩
      refine wellNested_branch.mpr ⟨⟨fun x hx => ?_, fun x hx => (hheads x hx).2, hmerge.apart⟩,
        fun x hx => ?_⟩
      · rcases Branch.mem_members.mp hx with ⟨s, hs, rfl⟩ | hchild
        · exact hb.ordered.above _ (Branch.scalar_mem_members hs)
        · exact (hheads x hchild).1
      · rcases Branch.mem_members.mp hx with ⟨s, hs, rfl⟩ | hchild
        · exact wellNested_scalar s
        · exact hmerge.each x hchild

/-- A branch in order stays in order when it receives items below it, if merges of fewer
nodes than there are keep siblings in order. -/
theorem wellNested_attachAll_of {n : Nat} {items : List Item}
    (hmerge : ∀ siblings item, totalSize siblings + item.size < n → Nested siblings →
      item.WellNested → Nested (merge siblings item).after)
    (hsize : (Item.branch b).size + totalSize items ≤ n) (hb : (Item.branch b).WellNested)
    (hitems : ∀ item ∈ items, item.WellNested ∧ b.oid < item.oid) :
    (Item.branch (b.attachAll items).after).WellNested := by
  induction items generalizing b with
  | nil => exact hb
  | cons item rest ih =>
    rw [totalSize] at hsize
    obtain ⟨hitem, hlt⟩ := hitems item List.mem_cons_self
    have hlarger := totalSize_children_lt b
    have hnested := hmerge b.children item (by omega) hb.children hitem
    have hattach := wellNested_attach_of hnested hb hitem hlt
    cases herror : (b.attach item).error? with
    | some error => rwa [Branch.attachAll_cons_of_error herror]
    | none =>
      rw [Branch.attachAll_cons_of_ok herror]
      have hgrown := Branch.attach_size herror
      refine ih (by omega) hattach fun other hother => ?_
      rw [Branch.oid_attach]
      exact hitems other (List.mem_cons_of_mem _ hother)

/-- Merging an item in order among siblings in order leaves siblings in order, whether or not
the merge is refused. -/
theorem Nested.merge (hnested : Nested siblings) (hitem : item.WellNested) :
    Nested (merge siblings item).after := by
  induction hn : totalSize siblings + item.size using Nat.strongRecOn
    generalizing siblings item with
  | ind n ih =>
    have hmerge : ∀ siblings item, totalSize siblings + item.size < n → Nested siblings →
        item.WellNested → Nested (Item.merge siblings item).after :=
      fun siblings item hlt hs hi => ih _ hlt hs hi rfl
    have hcase := merge_cases hnested item
    generalize Item.merge siblings item = outcome at hcase
    cases hcase with
    | duplicate hmem heq => exact hnested
    | underScalar hmem hlt => exact hnested
    | overSibling hscalar hmem hlt => exact hnested
    | @received before after parent hsplit hlt =>
      subst hsplit
      have hmem : Item.branch parent ∈ before ++ .branch parent :: after := by simp
      have hparent := hnested.each _ hmem
      have hsize := size_le_totalSize hmem
      have hlarger := totalSize_children_lt parent
      have hchildren := hmerge parent.children item (by omega) hparent.children hitem
      exact hnested.replace (wellNested_attach_of hchildren hparent hitem hlt) Branch.oid_attach
    | joined hapart =>
      have hcons : Nested (item :: siblings) := by
        refine hnested.cons hitem ?_
        intro sibling hsibling
        exact Std.Symm.symm _ _ (hapart sibling hsibling)
      exact hcons.perm (List.perm_append_singleton ..).symm
    | @adopted b before after first hbranch hsplit hbefore hfirst hafter hok =>
      subst hbranch hsplit
      have hsub : (first :: contained b.oid after).Sublist (before ++ first :: after) :=
        adopted_sublist
      have hsize := totalSize_le_of_sublist hsub
      have hadopted :
          (Item.branch (b.attachAll (first :: contained b.oid after)).after).WellNested := by
        refine wellNested_attachAll_of hmerge (by omega) hitem ?_
        intro x hx
        exact ⟨hnested.each x (hsub.subset hx), lt_of_mem_adopted hfirst hx⟩
      have hkept : (before ++ remaining b.oid after).Sublist (before ++ first :: after) :=
        (List.Sublist.refl before).append (remaining_sublist.cons _)
      -- What stays beside the branch was not below it, so it stands apart from it.
      refine ((hnested.sublist hkept).cons hadopted fun x hx => ?_).perm List.perm_middle.symm
      have hapart : Apart x (.branch b) := by
        rcases List.mem_append.mp hx with hmem | hmem
        · exact hbefore x hmem
        · exact (hafter x (mem_remaining.mp hmem).1).resolve_left (mem_remaining.mp hmem).2
      rw [Apart, oid_branch, Branch.oid_attachAll]
      exact hapart.symm
    | @refused b before after failing error hbranch hsplit hrelated hfailing hok herror =>
      -- Only siblings that the branch had passed over are left.
      subst hsplit
      exact hnested.sublist (remaining_sublist.trans (List.sublist_append_left ..))

/-- A branch in order stays in order when it receives an item below it, whether or not it
refuses it. -/
theorem WellNested.attach (hb : (Item.branch b).WellNested) (hitem : item.WellNested)
    (hlt : b.oid < item.oid) : (Item.branch (b.attach item).after).WellNested :=
  wellNested_attach_of (hb.children.merge hitem) hb hitem hlt

end Item

namespace Forest

variable {forest : Forest} {item : Item}

/-- Inserting an item in order keeps a forest well nested, whether or not it is refused. -/
theorem WellNested.insert (h : forest.WellNested) (hitem : item.WellNested) :
    (forest.insert item).after.WellNested :=
  Item.Nested.merge h hitem

/-- A successful insertion adds the nodes of the item to those of the forest. -/
theorem insert_perm (hok : (forest.insert item).error? = none) :
    (forest.insert item).after.descriptors.Perm (forest.descriptors ++ item.descriptors) :=
  Item.merge_perm hok

end Forest

end MibDrivers
