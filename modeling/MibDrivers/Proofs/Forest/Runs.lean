import MibDrivers.Proofs.Forest.Preservation
import MibDrivers.Proofs.Forest.Reconcile

/-!
# Forests that runs reach

A run starts from the forest without nodes, inserts items and reconciles, in any order, and
goes on after refusals. The items are put together by receipts themselves: each is a scalar
or a branch that was given such items from below it. Every forest on the way is well nested,
no successful insertion loses, repeats or changes a node, and no reconciliation does,
refused or not.

## Main definitions

* `Item.Grown` — items put together by receipts
* `Forest.Reached` — forests that runs reach

## Main results

* `Forest.Reached.wellNested_and_conserved` — what holds of every forest on the way
-/

namespace MibDrivers

/-- An item put together by receipts: a scalar, or a branch without content that was given
such items from strictly below it, whether it received or refused them. -/
inductive Item.Grown : Item → Prop
  | scalar (s : Scalar) : Grown (.scalar s)
  | branch (name : String) (oid : Oid) (description : String) :
      Grown (.branch { name, oid, description })
  | attach {b : Branch Item} {item : Item} (hb : Grown (.branch b)) (hitem : Grown item)
      (hbelow : b.oid.isAncestorOf item.oid) : Grown (.branch (b.attach item).after)

/-- Items put together by receipts are in order. -/
theorem Item.Grown.wellNested {item : Item} (h : item.Grown) : item.WellNested := by
  induction h with
  | scalar s => exact wellNested_scalar s
  | branch name oid description => exact wellNested_of_members_eq_nil rfl
  | attach _ _ hbelow hb hitem => exact hb.attach hitem (Oid.isAncestorOf_iff.mp hbelow)

namespace Forest

/-- A forest that some run of insertions and reconciliations reaches, each of which may have
been refused. -/
inductive Reached : Forest → Prop
  | empty : Reached empty
  | insert {forest : Forest} {item : Item} (h : Reached forest) (hitem : item.Grown) :
      Reached (forest.insert item).after
  | reconcile {forest : Forest} (h : Reached forest) : Reached forest.reconcile.after

variable {forest : Forest}

theorem Reached.wellNested (h : forest.Reached) : forest.WellNested := by
  induction h with
  | empty => exact wellNested_empty
  | insert _ hitem ih => exact ih.insert hitem.wellNested
  | reconcile _ ih => exact ih.reconcile

/-- In every forest that a run reaches, each branch strictly contains what it holds, has
only branches as children, and neither the children of a branch nor the top-level items
contain one another. The next successful insertion adds exactly the nodes of its item, and
the next reconciliation keeps the nodes, whether or not it is refused. -/
theorem Reached.wellNested_and_conserved (h : forest.Reached) :
    (∀ b, .branch b ∈ forest.items → b.Ordered) ∧
      forest.roots.Pairwise Item.Apart ∧
      (∀ item : Item, item.Grown → (forest.insert item).error? = none →
        (forest.insert item).after.descriptors.Perm (forest.descriptors ++ item.descriptors)) ∧
      forest.reconcile.after.descriptors.Perm forest.descriptors := by
  refine ⟨fun b hb => ?_, h.wellNested.apart, fun item _ hok => insert_perm hok,
    reconcile_perm forest⟩
  obtain ⟨root, hroot, hmem⟩ := Item.mem_subitemsOf.mp hb
  exact h.wellNested.each root hroot b hmem

/-- A run with an item that has content and with a repetition: a scalar, the branch above it
with another scalar already in it, the first scalar again, and a reconciliation. -/
def interrupted : Forest :=
  let leaf : Scalar := { name := "ifMtu", oid := ⟨[1, 3, 2, 1]⟩ }
  let entry : Branch Item := { name := "ifEntry", oid := ⟨[1, 3, 2]⟩ }
  let filled := (entry.attach (.scalar { name := "ifType", oid := ⟨[1, 3, 2, 3]⟩ })).after
  let forest := (empty.insert (.scalar leaf)).after
  let forest := (forest.insert (.branch filled)).after
  (forest.insert (.scalar leaf)).after.reconcile.after

theorem Reached.interrupted : interrupted.Reached := by
  refine .reconcile (.insert (.insert (.insert .empty (.scalar _)) ?_) (.scalar _))
  exact .attach (.branch _ _ _) (.scalar _) (by decide)

theorem Reached.conserved_interrupted :
    (∀ b, .branch b ∈ Forest.interrupted.items → b.Ordered) ∧
      (Forest.interrupted.insert (.branch { name := "if", oid := ⟨[1, 3]⟩ })).after.descriptors.Perm
        (Forest.interrupted.descriptors ++
          (Item.branch { name := "if", oid := ⟨[1, 3]⟩ }).descriptors) := by
  obtain ⟨hordered, -, hinsert, -⟩ := wellNested_and_conserved Reached.interrupted
  exact ⟨hordered, hinsert _ (.branch _ _ _) (by decide +kernel)⟩

end Forest

end MibDrivers
