import Mathlib.Data.List.Perm.Basic
import Mathlib.Data.List.Count
import MibDrivers.Proofs.Containment
import MibDrivers.Proofs.Forest.Nodes

/-!
# Merging, without its bound

Merging and receiving call each other, and `Item.mergeWithin` bounds how deep the calls are
nested. A successful merge keeps all nodes, so while a branch adopts its siblings it grows by
exactly what leaves them, and a nested merge has fewer nodes at hand than the one around it.
Hence the number of nodes is bound enough: `Item.merge` solves the equation of the merge step
that calls itself.

## Main definitions

* `Item.ConservesBelow` — a merge keeps all nodes while it has few of them
* `Item.AgreeBelow` — two merges agree while they have few nodes

## Main results

* `Item.mergeStep_congr` — a merge step calls merges of fewer nodes only
* `Item.mergeWithin_eq_merge` — any greater bound gives the same merge
* `Item.merge_eq` — a merge is a merge step that calls merges
* `Item.merge_perm` — a successful merge keeps all nodes
-/

namespace MibDrivers

variable {nested nested' : List Item → Item → Outcome (List Item)} {n : Nat}
variable {item : Item} {siblings : List Item} {b : Branch Item}

namespace Outcome

variable {α β : Type} {outcome : Outcome α} {f : α → β}

@[simp] theorem map_after : (outcome.map f).after = f outcome.after := rfl

@[simp] theorem map_error? : (outcome.map f).error? = outcome.error? := rfl

end Outcome

namespace Item

/-- `nested` keeps all nodes if there are fewer than `n`. -/
def ConservesBelow (n : Nat) (nested : List Item → Item → Outcome (List Item)) : Prop :=
  ∀ siblings item, totalSize siblings + item.size < n → (nested siblings item).error? = none →
    (descriptorsOf (nested siblings item).after).Perm (descriptorsOf siblings ++ item.descriptors)

/-- Two merges agree if there are fewer than `n` nodes. -/
def AgreeBelow (n : Nat) (nested nested' : List Item → Item → Outcome (List Item)) : Prop :=
  ∀ siblings item, totalSize siblings + item.size < n →
    nested siblings item = nested' siblings item

/-- The children of a branch are fewer nodes than the branch itself. -/
theorem totalSize_children_lt (b : Branch Item) : totalSize b.children < (Item.branch b).size := by
  rw [size_branch, Branch.members, Visit.totalSize_append]
  omega

end Item

/-! ### Receiving -/

namespace Branch

theorem attachUsing_of_clash {error : MibError}
    (h : (Item.branchContent b).findSome? item.clash? = some error) :
    b.attachUsing nested item = ⟨b, some error⟩ := by
  simp only [attachUsing, h]

theorem attachUsing_scalar {s : Scalar}
    (h : (Item.branchContent b).findSome? (Item.scalar s).clash? = none) :
    b.attachUsing nested (.scalar s) = ⟨{ b with leaves := b.leaves ++ [s] }, none⟩ := by
  rw [attachUsing, h]

theorem attachUsing_branch {c : Branch Item}
    (h : (Item.branchContent b).findSome? (Item.branch c).clash? = none) :
    b.attachUsing nested (.branch c) =
      (nested b.children (.branch c)).map fun children => { b with children } := by
  rw [attachUsing, h]

/-- Receiving an item does not change what a branch says about itself. -/
@[simp] theorem descriptor_attachUsing :
    (Item.branch (b.attachUsing nested item).after).descriptor = (Item.branch b).descriptor := by
  cases h : (Item.branchContent b).findSome? item.clash? with
  | some error => rw [attachUsing_of_clash h]
  | none =>
    cases item with
    | scalar s => rw [attachUsing_scalar h]; rfl
    | branch c => rw [attachUsing_branch h]; rfl

theorem attachUsing_congr (hagree : Item.AgreeBelow n nested nested')
    (hsize : (Item.branch b).size + item.size ≤ n) :
    b.attachUsing nested item = b.attachUsing nested' item := by
  have hlt := Item.totalSize_children_lt b
  unfold attachUsing
  rw [hagree b.children item (by omega)]

theorem attachUsing_perm (hmerge : Item.ConservesBelow n nested)
    (hsize : (Item.branch b).size + item.size ≤ n)
    (hok : (b.attachUsing nested item).error? = none) :
    (Item.branch (b.attachUsing nested item).after).descriptors.Perm
      ((Item.branch b).descriptors ++ item.descriptors) := by
  rw [Item.descriptors_branch, descriptor_attachUsing, Item.descriptors_branch, List.cons_append]
  refine .cons _ ?_
  cases h : (Item.branchContent b).findSome? item.clash? with
  | some error => simp [attachUsing_of_clash h] at hok
  | none =>
    cases item with
    | scalar s =>
      rw [attachUsing_scalar h, List.perm_iff_count]
      intro d
      -- The new leaf comes before the children, the item's own node after them.
      simp only [members, List.map_append, List.map_cons, List.map_nil, Item.descriptorsOf_append,
        Item.descriptorsOf_singleton, List.count_append]
      omega
    | branch c =>
      rw [attachUsing_branch h] at hok ⊢
      have hlt := Item.totalSize_children_lt b
      have hperm := hmerge b.children (.branch c) (by omega) hok
      simp only [members, Item.descriptorsOf_append, Outcome.map_after, List.append_assoc]
      exact hperm.append_left _

/-- A branch that receives an item grows by the nodes of the item. -/
theorem attachUsing_size (hmerge : Item.ConservesBelow n nested)
    (hsize : (Item.branch b).size + item.size ≤ n)
    (hok : (b.attachUsing nested item).error? = none) :
    (Item.branch (b.attachUsing nested item).after).size =
      (Item.branch b).size + item.size := by
  have hlength := (attachUsing_perm hmerge hsize hok).length_eq
  rwa [List.length_append, Item.length_descriptors, Item.length_descriptors,
    Item.length_descriptors] at hlength

end Branch

namespace Item

/-! ### Adopting -/

theorem adoptInto_cons_of_not_lt {sibling : Item} (h : ¬ b.oid < sibling.oid) :
    adoptInto nested b (sibling :: siblings) =
      { adoptInto nested b siblings with
        kept := sibling :: (adoptInto nested b siblings).kept } := by
  rw [adoptInto, if_neg (by simpa using h)]

theorem adoptInto_cons_of_error {sibling : Item} {error : MibError} (h : b.oid < sibling.oid)
    (herror : (b.attachUsing nested sibling).error? = some error) :
    adoptInto nested b (sibling :: siblings) =
      { kept := []
        item := .branch (b.attachUsing nested sibling).after
        error? := some error } := by
  rw [adoptInto, if_pos (by simpa using h)]
  simp only [herror]

theorem adoptInto_cons_of_lt {sibling : Item} (h : b.oid < sibling.oid)
    (hok : (b.attachUsing nested sibling).error? = none) :
    adoptInto nested b (sibling :: siblings) =
      adoptInto nested (b.attachUsing nested sibling).after siblings := by
  rw [adoptInto, if_pos (by simpa using h)]
  simp only [hok]

theorem adoptInto_congr (hagree : AgreeBelow n nested nested') (hmerge : ConservesBelow n nested)
    (hsize : (Item.branch b).size + totalSize siblings ≤ n) :
    adoptInto nested b siblings = adoptInto nested' b siblings := by
  induction siblings generalizing b with
  | nil => rfl
  | cons sibling rest ih =>
    rw [totalSize] at hsize
    by_cases h : b.oid < sibling.oid
    · have hattach : b.attachUsing nested sibling = b.attachUsing nested' sibling :=
        Branch.attachUsing_congr hagree (by omega)
      cases herror : (b.attachUsing nested sibling).error? with
      | some error =>
        rw [adoptInto_cons_of_error h herror, hattach,
          adoptInto_cons_of_error h (hattach ▸ herror)]
      | none =>
        -- What the branch gains, the remaining siblings have lost.
        have hgrown := Branch.attachUsing_size hmerge (by omega) herror
        rw [adoptInto_cons_of_lt h herror, adoptInto_cons_of_lt h (hattach ▸ herror), ← hattach]
        exact ih (by omega)
    · rw [adoptInto_cons_of_not_lt h, adoptInto_cons_of_not_lt h, ih (by omega)]

theorem adoptInto_perm (hmerge : ConservesBelow n nested)
    (hsize : (Item.branch b).size + totalSize siblings ≤ n)
    (hok : (adoptInto nested b siblings).error? = none) :
    (descriptorsOf (adoptInto nested b siblings).kept ++
        (adoptInto nested b siblings).item.descriptors).Perm
      (descriptorsOf siblings ++ (Item.branch b).descriptors) := by
  induction siblings generalizing b with
  | nil => exact .rfl
  | cons sibling rest ih =>
    rw [totalSize] at hsize
    by_cases h : b.oid < sibling.oid
    · cases herror : (b.attachUsing nested sibling).error? with
      | some error => simp [adoptInto_cons_of_error h herror] at hok
      | none =>
        have hperm := Branch.attachUsing_perm hmerge (by omega) herror
        have hgrown := Branch.attachUsing_size hmerge (by omega) herror
        rw [adoptInto_cons_of_lt h herror] at hok ⊢
        refine (ih (by omega) hok).trans ((hperm.append_left _).trans ?_)
        rw [descriptorsOf_cons, List.perm_iff_count]
        intro d
        simp only [List.count_append]
        omega
    · rw [adoptInto_cons_of_not_lt h] at hok ⊢
      simp only [descriptorsOf_cons, List.append_assoc]
      exact (ih (by omega) hok).append_left _

theorem adopt_congr (hagree : AgreeBelow n nested nested') (hmerge : ConservesBelow n nested)
    (hsize : totalSize siblings + item.size ≤ n) :
    adopt nested siblings item = adopt nested' siblings item := by
  cases item with
  | scalar s => rfl
  | branch b => exact adoptInto_congr hagree hmerge (by omega)

theorem adopt_perm (hmerge : ConservesBelow n nested) (hsize : totalSize siblings + item.size ≤ n)
    (hok : (adopt nested siblings item).error? = none) :
    (descriptorsOf (adopt nested siblings item).kept ++
        (adopt nested siblings item).item.descriptors).Perm
      (descriptorsOf siblings ++ item.descriptors) := by
  cases item with
  | scalar s => exact .rfl
  | branch b => exact adoptInto_perm hmerge (by omega) hok

/-- Adopting moves nodes, so that a receipt afterwards has no more at hand than there were. -/
theorem adopt_size (hmerge : ConservesBelow n nested) (hsize : totalSize siblings + item.size ≤ n)
    (hok : (adopt nested siblings item).error? = none) :
    totalSize (adopt nested siblings item).kept + (adopt nested siblings item).item.size =
      totalSize siblings + item.size := by
  have hlength := (adopt_perm hmerge hsize hok).length_eq
  rwa [List.length_append, List.length_append, length_descriptorsOf, length_descriptors,
    length_descriptorsOf, length_descriptors] at hlength

/-! ### Passing on to a sibling -/

theorem receive?_congr (hagree : AgreeBelow n nested nested')
    (hsize : totalSize siblings + item.size ≤ n) :
    receive? nested item siblings = receive? nested' item siblings := by
  induction siblings with
  | nil => rfl
  | cons sibling rest ih =>
    rw [totalSize] at hsize
    have hrest := ih (by omega)
    cases sibling with
    | scalar s => rw [receive?, receive?, hrest]
    | branch parent =>
      have hattach : parent.attachUsing nested item = parent.attachUsing nested' item :=
        Branch.attachUsing_congr hagree (by omega)
      rw [receive?, receive?, hrest, hattach]

theorem receive?_perm {outcome : Outcome (List Item)} (hmerge : ConservesBelow n nested)
    (hsize : totalSize siblings + item.size ≤ n)
    (hreceive : receive? nested item siblings = some outcome) (hok : outcome.error? = none) :
    (descriptorsOf outcome.after).Perm (descriptorsOf siblings ++ item.descriptors) := by
  induction siblings generalizing outcome with
  | nil => simp [receive?] at hreceive
  | cons sibling rest ih =>
    rw [totalSize] at hsize
    -- The first sibling keeps its place whether or not it is the one that receives.
    have hskip : ∀ inner, receive? nested item rest = some inner →
        outcome = inner.map (sibling :: ·) → (descriptorsOf outcome.after).Perm
          (descriptorsOf (sibling :: rest) ++ item.descriptors) := by
      rintro inner hinner rfl
      rw [Outcome.map_after, descriptorsOf_cons, descriptorsOf_cons, List.append_assoc]
      exact (ih (by omega) hinner hok).append_left _
    cases sibling with
    | scalar s =>
      rw [receive?, Option.map_eq_some_iff] at hreceive
      obtain ⟨inner, hinner, houtcome⟩ := hreceive
      exact hskip inner hinner houtcome.symm
    | branch parent =>
      rw [receive?] at hreceive
      split at hreceive
      · obtain rfl := Option.some.inj hreceive
        have hperm := Branch.attachUsing_perm (b := parent) hmerge (by omega) hok
        rw [Outcome.map_after, descriptorsOf_cons, descriptorsOf_cons, List.perm_iff_count]
        intro d
        have hcount := hperm.count_eq d
        simp only [List.count_append] at hcount ⊢
        omega
      · rw [Option.map_eq_some_iff] at hreceive
        obtain ⟨inner, hinner, houtcome⟩ := hreceive
        exact hskip inner hinner houtcome.symm

/-! ### The merge step -/

theorem mergeStep_of_conflict {error : MibError}
    (h : siblings.findSome? item.conflict? = some error) :
    mergeStep nested siblings item = ⟨siblings, some error⟩ := by
  simp only [mergeStep, h]

theorem mergeStep_of_refused {error : MibError} (h : siblings.findSome? item.conflict? = none)
    (hadopt : (adopt nested siblings item).error? = some error) :
    mergeStep nested siblings item = ⟨(adopt nested siblings item).kept, some error⟩ := by
  simp only [mergeStep, h, hadopt]

theorem mergeStep_of_received {outcome : Outcome (List Item)}
    (h : siblings.findSome? item.conflict? = none)
    (hadopt : (adopt nested siblings item).error? = none)
    (hreceive : receive? nested (adopt nested siblings item).item
      (adopt nested siblings item).kept = some outcome) :
    mergeStep nested siblings item = outcome := by
  simp only [mergeStep, h, hadopt, hreceive]

theorem mergeStep_of_placed (h : siblings.findSome? item.conflict? = none)
    (hadopt : (adopt nested siblings item).error? = none)
    (hreceive : receive? nested (adopt nested siblings item).item
      (adopt nested siblings item).kept = none) :
    mergeStep nested siblings item =
      ⟨(adopt nested siblings item).kept.take (slot siblings item) ++
        (adopt nested siblings item).item ::
          (adopt nested siblings item).kept.drop (slot siblings item), none⟩ := by
  simp only [mergeStep, h, hadopt, hreceive]

/-- A merge step calls merges of fewer nodes than it has at hand. -/
theorem mergeStep_congr (hagree : AgreeBelow n nested nested') (hmerge : ConservesBelow n nested)
    (hsize : totalSize siblings + item.size ≤ n) :
    mergeStep nested siblings item = mergeStep nested' siblings item := by
  have hadopt := adopt_congr hagree hmerge hsize
  cases h : siblings.findSome? item.conflict? with
  | some error => rw [mergeStep_of_conflict h, mergeStep_of_conflict h]
  | none =>
    cases hok : (adopt nested siblings item).error? with
    | some error =>
      rw [mergeStep_of_refused h hok, mergeStep_of_refused h (hadopt ▸ hok), ← hadopt]
    | none =>
      -- The item that is passed on may have grown, but only by what the siblings have lost.
      have hreceive : receive? nested (adopt nested siblings item).item
            (adopt nested siblings item).kept =
          receive? nested' (adopt nested siblings item).item (adopt nested siblings item).kept :=
        receive?_congr hagree (adopt_size hmerge hsize hok ▸ hsize)
      cases houtcome : receive? nested (adopt nested siblings item).item
          (adopt nested siblings item).kept with
      | some outcome =>
        rw [mergeStep_of_received h hok houtcome]
        rw [hreceive, hadopt] at houtcome
        rw [mergeStep_of_received h (hadopt ▸ hok) houtcome]
      | none =>
        rw [mergeStep_of_placed h hok houtcome]
        rw [hreceive, hadopt] at houtcome
        rw [mergeStep_of_placed h (hadopt ▸ hok) houtcome, hadopt]

theorem mergeStep_perm (hmerge : ConservesBelow n nested)
    (hsize : totalSize siblings + item.size ≤ n)
    (hok : (mergeStep nested siblings item).error? = none) :
    (descriptorsOf (mergeStep nested siblings item).after).Perm
      (descriptorsOf siblings ++ item.descriptors) := by
  cases h : siblings.findSome? item.conflict? with
  | some error => simp [mergeStep_of_conflict h] at hok
  | none =>
    cases hadopt : (adopt nested siblings item).error? with
    | some error => simp [mergeStep_of_refused h hadopt] at hok
    | none =>
      have hperm := adopt_perm hmerge hsize hadopt
      cases hreceive : receive? nested (adopt nested siblings item).item
          (adopt nested siblings item).kept with
      | some outcome =>
        rw [mergeStep_of_received h hadopt hreceive] at hok ⊢
        have hinner := adopt_size hmerge hsize hadopt ▸ hsize
        exact (receive?_perm hmerge hinner hreceive hok).trans hperm
      | none =>
        rw [mergeStep_of_placed h hadopt hreceive]
        refine (descriptorsOf_perm List.perm_middle).trans ?_
        rw [List.take_append_drop, descriptorsOf_cons]
        exact List.perm_append_comm.trans hperm

/-! ### The bound is enough -/

/-- Among few nodes, a merge with any bound above their number is the same, and a successful
one keeps them all. -/
theorem mergeWithin_and_conserves (n : Nat) :
    (∀ depth siblings item, totalSize siblings + item.size < n →
      totalSize siblings + item.size ≤ depth →
        mergeWithin depth siblings item = merge siblings item) ∧
      ConservesBelow n merge := by
  induction n with
  | zero =>
    exact ⟨fun _ _ _ h => absurd h (Nat.not_lt_zero _), fun _ _ h => absurd h (Nat.not_lt_zero _)⟩
  | succ n ih =>
    obtain ⟨hstable, hconserves⟩ := ih
    -- One step down from any bound, the nested merges have fewer nodes and are settled.
    have hnested : ∀ depth size, size ≤ n → size ≤ depth + 1 →
        AgreeBelow size (mergeWithin depth) merge ∧
          ConservesBelow size (mergeWithin depth) := by
      intro depth size hn hdepth
      have hagree : AgreeBelow size (mergeWithin depth) merge :=
        fun siblings item h => hstable depth siblings item (by omega) (by omega)
      refine ⟨hagree, fun siblings item h hok => ?_⟩
      rw [hagree siblings item h] at hok ⊢
      exact hconserves siblings item (by omega) hok
    have hstep : ∀ depth siblings item, totalSize siblings + item.size < n + 1 →
        totalSize siblings + item.size ≤ depth →
          mergeWithin depth siblings item = mergeStep merge siblings item := by
      intro depth siblings item h hdepth
      have hpos := item.size_pos
      obtain ⟨depth, rfl⟩ : ∃ d, depth = d + 1 := ⟨depth - 1, by omega⟩
      obtain ⟨hagree, hmerge⟩ := hnested depth (totalSize siblings + item.size) (by omega) hdepth
      exact mergeStep_congr hagree hmerge le_rfl
    refine ⟨fun depth siblings item h hdepth => ?_, fun siblings item h hok => ?_⟩
    · rw [hstep depth siblings item h hdepth, merge, hstep _ siblings item h le_rfl]
    · rw [merge, hstep _ siblings item h le_rfl] at hok ⊢
      exact mergeStep_perm (fun s i hs => hconserves s i (by omega)) le_rfl hok

/-- Any bound above the number of nodes gives the same merge. -/
theorem mergeWithin_eq_merge {depth : Nat} (h : totalSize siblings + item.size ≤ depth) :
    mergeWithin depth siblings item = merge siblings item :=
  (mergeWithin_and_conserves (totalSize siblings + item.size + 1)).1 depth siblings item
    (Nat.lt_succ_self _) h

/-- A successful merge keeps all nodes. -/
theorem merge_perm (hok : (merge siblings item).error? = none) :
    (descriptorsOf (merge siblings item).after).Perm
      (descriptorsOf siblings ++ item.descriptors) :=
  (mergeWithin_and_conserves (totalSize siblings + item.size + 1)).2 siblings item
    (Nat.lt_succ_self _) hok

theorem merge_conservesBelow (n : Nat) : ConservesBelow n merge :=
  fun _ _ _ hok => merge_perm hok

/-- A merge is a merge step that calls merges. -/
theorem merge_eq (siblings : List Item) (item : Item) :
    merge siblings item = mergeStep merge siblings item := by
  rw [← mergeWithin_eq_merge (Nat.le_succ _), mergeWithin]
  have hagree : AgreeBelow (totalSize siblings + item.size + 1)
      (mergeWithin (totalSize siblings + item.size)) merge :=
    fun s i h => mergeWithin_eq_merge (Nat.lt_succ_iff.mp h)
  refine (mergeStep_congr (fun s i h => (hagree s i h).symm) (merge_conservesBelow _) ?_).symm
  exact Nat.le_succ _

end Item

theorem Branch.attach_size (hok : (b.attach item).error? = none) :
    (Item.branch (b.attach item).after).size = (Item.branch b).size + item.size :=
  attachUsing_size (Item.merge_conservesBelow _) le_rfl hok

end MibDrivers
