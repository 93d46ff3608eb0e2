import Mathlib.Data.List.Chain
import Mathlib.Order.WellFounded
import MibDrivers.Proofs.Forest.Merge

/-!
# Merges within merges

A merge calls others: a branch that adopts a sibling merges it into its children, and a sibling
that contains the item merges the item into its own. Neither argument of the calls shrinks by
itself. A branch grows while it adopts, and a sibling that is adopted may in turn adopt the
children of the branch, so that the two change their roles. What shrinks is the number of nodes at
hand. The branch that receives is not among the siblings of the merge that it calls, and all that a
branch has gained before came from the siblings.

So no chain of nested merges is longer than the number of nodes of the first of them, and the
equation of the merge step has just one solution.

## Main definitions

* `MergeCall` — the siblings and the item of a merge
* `MergeCall.calls` — the merges that a merge calls itself

## Main results

* `Item.mergeStep_congr_calls` — a merge depends on nothing but the merges that it calls
* `MergeCall.nodes_lt_of_mem_calls` — a merge that is called has fewer nodes
* `Item.merge_bounded` — merging ends, and how deep merges are nested
-/

namespace MibDrivers

/-- A call of a merge. -/
structure MergeCall where
  siblings : List Item
  item : Item

variable {nested : List Item → Item → Outcome (List Item)} {b : Branch Item} {item : Item}
  {siblings : List Item}

namespace MergeCall

variable {call inner : MergeCall}

/-- The number of nodes at hand. -/
def nodes (call : MergeCall) : Nat := Item.totalSize call.siblings + call.item.size

/-- For the arguments of the call, `nested` gives what merging gives. -/
def AnsweredBy (call : MergeCall) (nested : List Item → Item → Outcome (List Item)) : Prop :=
  nested call.siblings call.item = Item.merge call.siblings call.item

end MergeCall

/-! ### The calls of a merge -/

/-- The merge that a branch calls to receive an item. It calls none for a scalar, and none for an
item that it refuses. -/
def Branch.attachCalls (b : Branch Item) (item : Item) : List MergeCall :=
  match (Item.branchContent b).findSome? item.clash?, item with
  | none, .branch c => [⟨b.children, .branch c⟩]
  | _, _ => []

namespace Item

/-- The merges that a branch calls while it adopts the siblings that it contains. It has grown by
those that it adopted before, and ends at one that it cannot receive. -/
def adoptCalls (b : Branch Item) : List Item → List MergeCall
  | [] => []
  | sibling :: rest =>
    if b.oid.isAncestorOf sibling.oid then
      b.attachCalls sibling ++
        match (b.attach sibling).error? with
        | some _ => []
        | none => adoptCalls (b.attach sibling).after rest
    else adoptCalls b rest

/-- The merge that is called to give an item to the first branch that contains it. -/
def receiveCalls (item : Item) : List Item → List MergeCall
  | [] => []
  | .branch parent :: rest =>
    if parent.oid.isAncestorOf item.oid then parent.attachCalls item else receiveCalls item rest
  | .scalar _ :: rest => receiveCalls item rest

end Item

/-- The merges that a merge calls itself, in their order: those of the adoption, and then that of
the sibling that receives the item with what it adopted. -/
def MergeCall.calls (call : MergeCall) : List MergeCall :=
  match call.siblings.findSome? call.item.conflict? with
  | some _ => []
  | none =>
    let adoption := Item.adopt Item.merge call.siblings call.item
    (match call.item with
      | .branch b => Item.adoptCalls b call.siblings
      | .scalar _ => []) ++
    match adoption.error? with
    | some _ => []
    | none => Item.receiveCalls adoption.item adoption.kept

/-! ### A merge depends on its calls -/

theorem Branch.attachUsing_congr_calls (h : ∀ call ∈ b.attachCalls item, call.AnsweredBy nested) :
    b.attachUsing nested item = b.attach item := by
  cases hclash : (Item.branchContent b).findSome? item.clash? with
  | some error => rw [Branch.attach, attachUsing_of_clash hclash, attachUsing_of_clash hclash]
  | none =>
    cases item with
    | scalar s => rw [Branch.attach, attachUsing_scalar hclash, attachUsing_scalar hclash]
    | branch c =>
      have hcall : nested b.children (.branch c) = Item.merge b.children (.branch c) :=
        h ⟨b.children, .branch c⟩ (by simp [attachCalls, hclash])
      rw [Branch.attach, attachUsing_branch hclash, attachUsing_branch hclash, hcall]

namespace Item

theorem adoptInto_congr_calls (h : ∀ call ∈ adoptCalls b siblings, call.AnsweredBy nested) :
    adoptInto nested b siblings = adoptInto merge b siblings := by
  induction siblings generalizing b with
  | nil => rfl
  | cons sibling rest ih =>
    by_cases hlt : b.oid < sibling.oid
    · rw [adoptCalls, if_pos (Oid.isAncestorOf_iff.mpr hlt), List.forall_mem_append] at h
      have hattach : b.attachUsing nested sibling = b.attach sibling :=
        Branch.attachUsing_congr_calls h.1
      cases herror : (b.attach sibling).error? with
      | some error =>
        rw [adoptInto_cons_of_error hlt (hattach ▸ herror), hattach]
        exact (adoptInto_cons_of_error hlt herror).symm
      | none =>
        rw [herror] at h
        rw [adoptInto_cons_of_lt hlt (hattach ▸ herror), hattach, ih h.2]
        exact (adoptInto_cons_of_lt hlt herror).symm
    · rw [adoptCalls, if_neg (by simpa using hlt)] at h
      rw [adoptInto_cons_of_not_lt hlt, adoptInto_cons_of_not_lt hlt, ih h]

theorem receive?_congr_calls (h : ∀ call ∈ receiveCalls item siblings, call.AnsweredBy nested) :
    receive? nested item siblings = receive? merge item siblings := by
  induction siblings with
  | nil => rfl
  | cons sibling rest ih =>
    cases sibling with
    | scalar s => rw [receive?, receive?, ih h]
    | branch parent =>
      by_cases hlt : parent.oid.isAncestorOf item.oid
      · rw [receiveCalls, if_pos hlt] at h
        rw [receive?, receive?, if_pos hlt, if_pos hlt, Branch.attachUsing_congr_calls h]
        rfl
      · rw [receiveCalls, if_neg hlt] at h
        rw [receive?, receive?, if_neg hlt, if_neg hlt, ih h]

/-- A merge depends on nothing but the merges that it calls. -/
theorem mergeStep_congr_calls
    (h : ∀ inner ∈ MergeCall.calls ⟨siblings, item⟩, inner.AnsweredBy nested) :
    mergeStep nested siblings item = merge siblings item := by
  rw [merge_eq]
  cases hconflict : siblings.findSome? item.conflict? with
  | some error => rw [mergeStep_of_conflict hconflict, mergeStep_of_conflict hconflict]
  | none =>
    simp only [MergeCall.calls, hconflict, List.forall_mem_append] at h
    have hadopt : adopt nested siblings item = adopt merge siblings item := by
      cases item with
      | scalar s => rfl
      | branch b => exact adoptInto_congr_calls h.1
    cases herror : (adopt merge siblings item).error? with
    | some error =>
      rw [mergeStep_of_refused hconflict herror, mergeStep_of_refused hconflict (hadopt ▸ herror),
        hadopt]
    | none =>
      rw [herror] at h
      have hreceive := receive?_congr_calls h.2
      simp only [mergeStep, hconflict, hadopt, herror, hreceive]

end Item

/-! ### Fewer nodes at hand -/

namespace MergeCall

open Item

variable {call inner : MergeCall}

theorem nodes_lt_of_mem_attachCalls (h : inner ∈ b.attachCalls item) :
    inner.nodes < (Item.branch b).size + item.size := by
  unfold Branch.attachCalls at h
  split at h
  · rw [List.mem_singleton] at h
    rw [h, nodes]
    exact Nat.add_lt_add_right (totalSize_children_lt b) _
  · cases h

theorem nodes_lt_of_mem_adoptCalls (h : inner ∈ adoptCalls b siblings) :
    inner.nodes < (Item.branch b).size + totalSize siblings := by
  induction siblings generalizing b with
  | nil => cases h
  | cons sibling rest ih =>
    rw [totalSize]
    by_cases hlt : b.oid.isAncestorOf sibling.oid
    · rw [adoptCalls, if_pos hlt, List.mem_append] at h
      rcases h with hattach | hrest
      · have hfew := nodes_lt_of_mem_attachCalls hattach
        omega
      · cases herror : (b.attach sibling).error? with
        | some error => simp [herror] at hrest
        | none =>
          -- What the branch has gained, the remaining siblings have lost.
          rw [herror] at hrest
          have hgrown := Branch.attach_size herror
          have hfew := ih hrest
          omega
    · rw [adoptCalls, if_neg hlt] at h
      have hfew := ih h
      omega

theorem nodes_lt_of_mem_receiveCalls (h : inner ∈ receiveCalls item siblings) :
    inner.nodes < totalSize siblings + item.size := by
  induction siblings with
  | nil => cases h
  | cons sibling rest ih =>
    rw [totalSize]
    cases sibling with
    | scalar s =>
      have hfew := ih h
      omega
    | branch parent =>
      rw [receiveCalls] at h
      split at h
      · have hfew := nodes_lt_of_mem_attachCalls h
        omega
      · have hfew := ih h
        omega

/-- A merge that is called has fewer nodes at hand. -/
theorem nodes_lt_of_mem_calls (h : inner ∈ call.calls) : inner.nodes < call.nodes := by
  obtain ⟨siblings, item⟩ := call
  show inner.nodes < totalSize siblings + item.size
  cases hconflict : siblings.findSome? item.conflict? with
  | some error => simp [calls, hconflict] at h
  | none =>
    simp only [calls, hconflict, List.mem_append] at h
    rcases h with hadopt | hreceive
    · cases item with
      | scalar s => cases hadopt
      | branch b =>
        have hfew := nodes_lt_of_mem_adoptCalls hadopt
        omega
    · cases herror : (adopt merge siblings item).error? with
      | some error => simp [herror] at hreceive
      | none =>
        -- Adopting moves nodes between the two, and what is passed on is all there is.
        rw [herror] at hreceive
        have hsize := adopt_size (merge_conservesBelow _) le_rfl herror
        have hfew := nodes_lt_of_mem_receiveCalls hreceive
        omega

theorem wellFounded_calls : WellFounded fun inner call : MergeCall => inner ∈ call.calls :=
  Subrelation.wf nodes_lt_of_mem_calls (measure nodes).wf

/-- A chain of nested merges is no longer than the number of nodes of the first one. -/
theorem length_le_nodes {chain : List MergeCall}
    (h : (call :: chain).IsChain fun outer inner => inner ∈ outer.calls) :
    (call :: chain).length ≤ call.nodes := by
  induction chain generalizing call with
  | nil =>
    have hpos := call.item.size_pos
    rw [nodes, List.length_singleton]
    omega
  | cons inner rest ih =>
    obtain ⟨hcall, hrest⟩ := List.isChain_cons_cons.mp h
    have hfew := nodes_lt_of_mem_calls hcall
    have hlength := ih hrest
    rw [List.length_cons]
    omega

end MergeCall

namespace Item

/-- The equation of the merge step has one solution. -/
theorem eq_merge_iff {solution : List Item → Item → Outcome (List Item)} :
    (∀ siblings item, solution siblings item = mergeStep solution siblings item) ↔
      solution = merge := by
  constructor
  · intro h
    have hanswered : ∀ call : MergeCall, call.AnsweredBy solution := by
      intro call
      induction call using MergeCall.wellFounded_calls.induction with
      | h call ih => exact (h _ _).trans (mergeStep_congr_calls ih)
    funext siblings item
    exact hanswered ⟨siblings, item⟩
  · rintro rfl
    exact merge_eq

/-- Merging ends, for any siblings and any item. A merge depends on nothing but the merges that it
calls itself, and no descent from one to the next goes on for ever: a chain of nested merges is no
longer than the number of nodes of the siblings and the item together. So the equation of the merge
step determines the merge. -/
theorem merge_bounded (siblings : List Item) (item : Item) :
    Acc (fun inner call : MergeCall => inner ∈ call.calls) ⟨siblings, item⟩ ∧
    (∀ chain, ((⟨siblings, item⟩ :: chain : List MergeCall).IsChain
      fun outer inner => inner ∈ outer.calls) →
        chain.length + 1 ≤ totalSize siblings + item.size) ∧
    (∀ nested, (∀ inner ∈ MergeCall.calls ⟨siblings, item⟩, inner.AnsweredBy nested) →
      mergeStep nested siblings item = merge siblings item) ∧
    ∀ solution, (∀ siblings item, solution siblings item = mergeStep solution siblings item) ↔
      solution = merge :=
  ⟨MergeCall.wellFounded_calls.apply _, fun _ => MergeCall.length_le_nodes,
    fun _ => mergeStep_congr_calls, fun _ => eq_merge_iff⟩

/-- A table that holds a column, without the entry between them. -/
def tableAround : Branch Item :=
  { name := "ifTable", oid := ⟨[1, 3]⟩
    children := [.branch { name := "ifMtu", oid := ⟨[1, 3, 1, 4]⟩ }] }

/-- The table adopts the entry, and the entry adopts the column of the table. Three nodes are merged
three deep. -/
theorem merge_bounded_swapped :
    let entry : Item := .branch { name := "ifEntry", oid := ⟨[1, 3, 1]⟩ }
    let column : Item := .branch { name := "ifMtu", oid := ⟨[1, 3, 1, 4]⟩ }
    let chain : List MergeCall := [⟨[column], entry⟩, ⟨[], column⟩]
    (⟨[entry], .branch tableAround⟩ :: chain : List MergeCall).IsChain
        (fun outer inner => inner ∈ outer.calls) ∧
      chain.length + 1 ≤ totalSize [entry] + (Item.branch tableAround).size ∧
      chain.length + 1 = 3 ∧ totalSize [entry] + (Item.branch tableAround).size = 3 := by
  intro entry column chain
  obtain ⟨-, hbound, -⟩ := merge_bounded [entry] (.branch tableAround)
  have houter : MergeCall.calls ⟨[entry], .branch tableAround⟩ = [⟨[column], entry⟩] := rfl
  have hinner : MergeCall.calls ⟨[column], entry⟩ = [⟨[], column⟩] := rfl
  have hchain : (⟨[entry], .branch tableAround⟩ :: chain : List MergeCall).IsChain
      (fun outer inner => inner ∈ outer.calls) := by
    simp [chain, houter, hinner]
  exact ⟨hchain, hbound chain hchain, rfl, rfl⟩

end Item

end MibDrivers
