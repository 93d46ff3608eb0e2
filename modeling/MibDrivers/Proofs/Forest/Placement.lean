import MibDrivers.Proofs.Forest.Canonical

/-!
# Leaves on their deepest branches

A reconciliation hands leaves down along the tree, child by child. What it comes to can be
said without the order of these steps: each branch ends with those leaves of it and of the
branches above it of which it is the deepest branch, its own first and then those of the
branches above it, from the nearest one up. It succeeds unless such a branch has child
branches.

## Main definitions

* `Item.withLeaves` — an item with other leaves
* `Item.holder?` — the deepest branch of an item that contains an identifier
* `Branch.due` — the leaves that a branch ends with
* `Forest.placed`, `Forest.skeleton` — a forest with its leaves in place, and without them
* `Item.Mixed` — a branch with child branches is the deepest one above a leaf

## Main results

* `Item.settle_eq_withLeaves` — what settling a branch comes to
* `Forest.WellNested.reconcile_places` — what reconciling comes to, and when it succeeds
-/

namespace MibDrivers

/-! ### Items with other leaves -/

namespace Item

variable {leaves : Branch Item → List (Branch Item) → List Scalar} {above : List (Branch Item)}

mutual

/-- The item with other leaves, where `leaves` says what each branch holds instead, from the
branch and from those above it, the nearest first. -/
def withLeaves (leaves : Branch Item → List (Branch Item) → List Scalar)
    (above : List (Branch Item)) : Item → Item
  | .branch b => .branch (branchWithLeaves leaves above b)
  | .scalar s => .scalar s

/-- The branch with other leaves in it and below it. -/
def branchWithLeaves (leaves : Branch Item → List (Branch Item) → List Scalar)
    (above : List (Branch Item)) : Branch Item → Branch Item
  | ⟨name, oid, description, own, children⟩ =>
    let b : Branch Item := ⟨name, oid, description, own, children⟩
    ⟨name, oid, description, leaves b above, childrenWithLeaves leaves (b :: above) children⟩

/-- The items with other leaves. -/
def childrenWithLeaves (leaves : Branch Item → List (Branch Item) → List Scalar)
    (above : List (Branch Item)) : List Item → List Item
  | [] => []
  | item :: rest => item.withLeaves leaves above :: childrenWithLeaves leaves above rest

end

@[simp] theorem withLeaves_scalar {s : Scalar} :
    (Item.scalar s).withLeaves leaves above = .scalar s := by
  rw [withLeaves]

theorem childrenWithLeaves_eq_map (items : List Item) :
    childrenWithLeaves leaves above items = items.map (withLeaves leaves above) := by
  induction items with
  | nil => rw [childrenWithLeaves, List.map_nil]
  | cons item rest ih => rw [childrenWithLeaves, ih, List.map_cons]

theorem withLeaves_branch (b : Branch Item) :
    (Item.branch b).withLeaves leaves above =
      .branch { b with
        leaves := leaves b above
        children := b.children.map (withLeaves leaves (b :: above)) } := by
  obtain ⟨name, oid, description, own, children⟩ := b
  rw [withLeaves, branchWithLeaves, childrenWithLeaves_eq_map]

/-- Other leaves make no difference once the leaves are left out. -/
theorem withLeaves_none (item : Item) (first second third : List (Branch Item)) :
    (item.withLeaves leaves first).withLeaves (fun _ _ => []) second =
      item.withLeaves (fun _ _ => []) third := by
  induction item using inductMembers generalizing first second third with
  | scalar s => simp only [withLeaves_scalar]
  | branch b ih =>
    have hchildren : ∀ upper : List (Branch Item),
        b.children.map (withLeaves (fun _ _ => []) upper ∘ withLeaves leaves (b :: first)) =
          b.children.map (withLeaves (fun _ _ => []) (b :: third)) := by
      intro upper
      refine List.map_congr_left fun child hchild => ?_
      exact ih child (Branch.mem_members_of_child hchild) _ _ _
    simp only [withLeaves_branch, List.map_map, hchildren]

/-! ### What settling comes to -/

/-- An item that has settled with those of the leaves that it contains. -/
def settledWith (leaves : List Scalar) : Item → Item
  | .branch c => .branch (settle (c.taken leaves) c).after
  | .scalar s => .scalar s

/-- What lower branches take, they take from what an upper branch has taken. -/
theorem taken_taken {b c : Branch Item} (h : b.oid ≤ c.oid) (leaves : List Scalar) :
    c.taken (b.taken leaves) = c.taken leaves := by
  rw [Branch.taken, Branch.taken, List.filter_filter]
  refine List.filter_congr fun s _ => ?_
  by_cases hlt : c.oid < s.oid
  · have hb : b.oid < s.oid := h.trans_lt hlt
    simp [hlt, hb]
  · simp [hlt]

/-- What a branch takes is not among what a branch apart from it takes. -/
theorem taken_passed {b c : Branch Item} (h : b.oid.Apart c.oid) (leaves : List Scalar) :
    c.taken (b.passed leaves) = c.taken leaves := by
  rw [Branch.taken, Branch.passed, List.filter_filter]
  refine List.filter_congr fun s _ => ?_
  by_cases hlt : c.oid < s.oid
  · have hb : ¬ b.oid < s.oid := fun hb => (h.mono hb.le hlt.le).1 le_rfl
    simp [hlt, hb]
  · simp [hlt]

/-- If children that stand apart can place leaves, then each has settled with the leaves that
it contains, and the leaves that none contains are left. -/
theorem place_of_ok {children : List Item} {own : List Scalar}
    (hapart : children.Pairwise Apart) (hok : (place own children).error? = none) :
    (∀ c, .branch c ∈ children → (settle (c.taken own) c).error? = none) ∧
      (place own children).children = children.map (settledWith own) ∧
      (place own children).leaves =
        own.filter fun s => (children.filterMap branch?).all (!·.oid.isAncestorOf s.oid) := by
  induction children generalizing own with
  | nil => simp [place_nil]
  | cons first rest ih =>
    cases first with
    | scalar s =>
      rw [place_scalar] at hok ⊢
      obtain ⟨hsettle, hchildren, hleaves⟩ := ih hapart.of_cons hok
      refine ⟨fun c hc => hsettle c (by simpa using hc), ?_, ?_⟩
      · rw [hchildren, List.map_cons, settledWith]
      · rw [hleaves, List.filterMap_cons_none rfl]
    | branch b =>
      cases herror : (settle (b.taken own) b).error? with
      | some error => simp [place_branch_of_error herror] at hok
      | none =>
        rw [place_branch_of_ok herror] at hok ⊢
        obtain ⟨hsettle, hchildren, hleaves⟩ := ih hapart.of_cons hok
        -- What the first branch has taken is nothing that the others would take.
        have hpassed : ∀ c, .branch c ∈ rest → c.taken (b.passed own) = c.taken own :=
          fun c hc => taken_passed (List.rel_of_pairwise_cons hapart hc) own
        refine ⟨fun c hc => ?_, ?_, ?_⟩
        · rcases List.mem_cons.mp hc with heq | hrest
          · exact Item.branch.inj heq ▸ herror
          · exact hpassed c hrest ▸ hsettle c hrest
        · rw [hchildren, List.map_cons, settledWith]
          refine congrArg _ (List.map_congr_left fun child hchild => ?_)
          cases child with
          | scalar s => rfl
          | branch c => rw [settledWith, settledWith, hpassed c hchild]
        · have hfirst : branch? (.branch b) = some b := rfl
          rw [hleaves, List.filterMap_cons_some hfirst, Branch.passed, List.filter_filter]
          refine List.filter_congr fun s _ => ?_
          rw [List.all_cons, Bool.and_comm]

/-- The deepest branch of an item that strictly contains an identifier. -/
def holder? (item : Item) (oid : Oid) : Option Oid := WorkingSet.holder? item.descriptors oid

/-- A branch is the deepest one of an item above an identifier if it contains it and none of
its children does. -/
theorem WellNested.holder?_eq_some_iff {item : Item} {b : Branch Item} {o : Oid}
    (h : item.WellNested) (hb : .branch b ∈ item.subitems) :
    item.holder? o = some b.oid ↔ b.oid < o ∧ ∀ c, .branch c ∈ b.children → ¬ c.oid < o := by
  -- The item is a forest of its own.
  have hforest : Forest.WellNested ⟨[item]⟩ := Nested.nil.cons h (by simp)
  have hmem : .branch b ∈ Forest.items ⟨[item]⟩ := List.mem_append_left _ hb
  have hiff := hforest.holder?_eq_some_iff hmem (o := o)
  rwa [Forest.descriptors, descriptorsOf_singleton] at hiff

end Item

/-- The leaves that a branch ends with: of its own leaves, and then of those of the branches
above it from the nearest one up, the leaves of which it is the deepest branch. -/
def Branch.due (holder? : Oid → Option Oid) (b : Branch Item) (above : List (Branch Item)) :
    List Scalar :=
  (b :: above).flatMap fun a => a.leaves.filter fun s => holder? s.oid = some b.oid

namespace Item

/-- What a branch in order takes from the leaves above it, after its own. -/
theorem leaves_append_taken {b : Branch Item} (h : b.Ordered) (above : List (Branch Item)) :
    b.leaves ++ b.taken (above.flatMap (·.leaves)) =
      b.taken ((b :: above).flatMap (·.leaves)) := by
  have hown : b.leaves.filter (b.oid.isAncestorOf ·.oid) = b.leaves := by
    refine List.filter_eq_self.mpr fun s hs => ?_
    exact Oid.isAncestorOf_iff.mpr (h.above _ (Branch.scalar_mem_members hs))
  rw [List.flatMap_cons, Branch.taken, Branch.taken, List.filter_append, hown]

/-- The leaves that no child takes are those of which the branch is the deepest one. -/
theorem leaves_place_eq_due {b : Branch Item} (h : b.Ordered) {holder? : Oid → Option Oid}
    (hholder : ∀ o, holder? o = some b.oid ↔
      b.oid < o ∧ ∀ c, .branch c ∈ b.children → ¬ c.oid < o) (above : List (Branch Item))
    (hok : (place (b.taken ((b :: above).flatMap (·.leaves))) b.children).error? = none) :
    (place (b.taken ((b :: above).flatMap (·.leaves))) b.children).leaves =
      b.due holder? above := by
  obtain ⟨-, -, hleaves⟩ := place_of_ok h.apart hok
  rw [hleaves, Branch.due, ← List.filter_flatMap, Branch.taken, List.filter_filter]
  refine List.filter_congr fun s _ => ?_
  rw [Bool.eq_iff_iff, decide_eq_true_iff, hholder]
  simp only [Bool.and_eq_true, List.all_eq_true, mem_filterMap_branch?, Bool.not_eq_true',
    Oid.isAncestorOf_iff, Oid.isAncestorOf_eq_false_iff, and_comm]

/-- Settling a branch with the leaves that it takes from the branches above it leaves each
branch with the leaves of which it is the deepest branch. -/
theorem settle_eq_withLeaves {root : Item} {b : Branch Item} (hroot : root.WellNested)
    (hb : .branch b ∈ root.subitems) (above : List (Branch Item))
    (hok : (settle (b.taken (above.flatMap (·.leaves))) b).error? = none) :
    .branch (settle (b.taken (above.flatMap (·.leaves))) b).after =
      (Item.branch b).withLeaves (Branch.due root.holder?) above := by
  induction b using Branch.inductChildren generalizing above with
  | step b ih =>
    have hwn : (Item.branch b).WellNested := fun c hc =>
      hroot c ((subitems_sublist hb).subset hc)
    rw [settle_eq, leaves_append_taken hwn.ordered] at hok ⊢
    simp only [Option.or_eq_none_iff] at hok
    obtain ⟨hsettle, hchildren, -⟩ := place_of_ok hwn.ordered.apart hok.1
    have hlower : ∀ c, .branch c ∈ b.children → ∀ leaves,
        c.taken (b.taken leaves) = c.taken leaves :=
      fun c hc => taken_taken (hwn.ordered.above _ (Branch.mem_members_of_child hc)).le
    have hplaced : (place (b.taken ((b :: above).flatMap (·.leaves))) b.children).children =
        b.children.map (withLeaves (Branch.due root.holder?) (b :: above)) := by
      rw [hchildren]
      refine List.map_congr_left fun child hchild => ?_
      obtain ⟨c, rfl⟩ := hwn.ordered.branches child hchild
      have hc : .branch c ∈ root.subitems := by
        refine (subitems_sublist hb).subset (mem_subitems_branch.mpr (.inr ?_))
        exact mem_subitemsOf_of_mem (Branch.mem_members_of_child hchild)
      have hcok := hsettle c hchild
      rw [hlower c hchild] at hcok
      rw [settledWith, hlower c hchild]
      exact ih c hchild hc (b :: above) hcok
    have hdue := leaves_place_eq_due hwn.ordered (fun _ => hroot.holder?_eq_some_iff hb) above
      hok.1
    rw [withLeaves_branch, hplaced, hdue]

/-- A branch of the item that has child branches is the deepest one above a leaf. -/
def Mixed (item : Item) : Prop :=
  ∃ b, .branch b ∈ item.subitems ∧ (∃ c, .branch c ∈ b.children) ∧
    ∃ a, .branch a ∈ item.subitems ∧ ∃ s ∈ a.leaves, item.holder? s.oid = some b.oid

end Item

/-! ### What reconciling comes to -/

namespace Forest

open WorkingSet

variable {forest : Forest} {root : Item} {a : Branch Item} {s : Scalar} {o : Oid}

/-- The forest with the leaves of each top-level item on their deepest branches. -/
def placed (forest : Forest) : Forest :=
  ⟨forest.roots.map fun root => root.withLeaves (Branch.due root.holder?) []⟩

/-- The forest without the leaves of its branches. -/
def skeleton (forest : Forest) : Forest :=
  ⟨forest.roots.map (Item.withLeaves (fun _ _ => []) [])⟩

theorem skeleton_placed (forest : Forest) : forest.placed.skeleton = forest.skeleton := by
  rw [skeleton, placed, List.map_map, skeleton]
  refine congrArg Forest.mk (List.map_congr_left fun root _ => ?_)
  exact root.withLeaves_none _ _ _

/-- A successful reconciliation brings the leaves to their deepest branches. -/
theorem WellNested.reconcile_eq_placed (h : forest.WellNested)
    (hok : forest.reconcile.error? = none) : forest.reconcile.after = forest.placed := by
  rw [reconcile_error?] at hok
  obtain ⟨hsettle, hroots, -⟩ := Item.place_of_ok h.apart hok
  have heq : forest.reconcile.after.roots =
      forest.roots.map fun root => root.withLeaves (Branch.due root.holder?) [] := by
    rw [reconcile_roots, hroots]
    refine List.map_congr_left fun root hroot => ?_
    cases root with
    | scalar s => rw [Item.settledWith, Item.withLeaves_scalar]
    | branch b =>
      -- No branch is above the top level, so nothing arrives there.
      exact Item.settle_eq_withLeaves (h.each _ hroot) (Item.mem_subitems_self _) []
        (hsettle b hroot)
  exact congrArg Forest.mk heq

/-- The items of a forest above an identifier are those of the top-level item above it. -/
theorem WellNested.mem_items_tree (h : forest.WellNested) (hroot : root ∈ forest.roots)
    (hle : root.oid ≤ o) {x : Item} (hx : x.oid ≤ o) : x ∈ forest.items ↔ x ∈ root.subitems := by
  constructor
  · intro hmem
    obtain ⟨other, hother, hsub⟩ := Item.mem_subitemsOf.mp hmem
    have hother_le : other.oid ≤ o := ((h.each other hother).oid_le hsub).trans hx
    obtain rfl : other = root := Item.Nested.eq_of_le h hother hroot hother_le hle
    exact hsub
  · intro hmem
    exact Item.mem_subitemsOf.mpr ⟨root, hroot, hmem⟩

/-- The deepest branch of a forest above an identifier is that of the top-level item above
it. -/
theorem WellNested.holder?_tree (h : forest.WellNested) (hroot : root ∈ forest.roots)
    (hle : root.oid ≤ o) : holder? forest.descriptors o = root.holder? o := by
  refine Oid.deepest?_congr fun c hlt => ?_
  rw [mem_branchOids, mem_branchOids, exists_branch_descriptor (P := (· = c)), Item.descriptors,
    Item.exists_branch_descriptor (P := (· = c))]
  constructor
  · rintro ⟨b, hb, rfl⟩
    exact ⟨b, (h.mem_items_tree (x := .branch b) hroot hle hlt.le).mp hb, rfl⟩
  · rintro ⟨b, hb, rfl⟩
    exact ⟨b, (h.mem_items_tree (x := .branch b) hroot hle hlt.le).mpr hb, rfl⟩

/-- A well-nested forest is crowded exactly if one of its top-level items is mixed. -/
theorem WellNested.crowded_iff_mixed (h : forest.WellNested) :
    Crowded forest.descriptors ↔ ∃ root ∈ forest.roots, root.Mixed := by
  rw [h.crowded_iff]
  constructor
  · rintro ⟨b, hb, hbranches, s, hs, hholder⟩
    rcases h.scalar_cases hs with htop | ⟨a, ha, hleaf⟩
    · have hnone := h.holder?_root htop
      rw [Item.oid_scalar, hholder] at hnone
      cases hnone
    -- The branch and the one that has the leaf are below the same top-level item.
    · have hbs : b.oid < s.oid := (holder?_eq_some.mp hholder).2.1
      have has : a.oid < s.oid := (h.branch ha).ordered.above _ (Branch.scalar_mem_members hleaf)
      obtain ⟨root, hroot, hbroot⟩ := Item.mem_subitemsOf.mp hb
      have hle : root.oid ≤ s.oid := ((h.each root hroot).oid_le hbroot).trans hbs.le
      have haroot := (h.mem_items_tree (x := .branch a) hroot hle has.le).mp ha
      rw [h.holder?_tree hroot hle] at hholder
      exact ⟨root, hroot, b, hbroot, hbranches, a, haroot, s, hleaf, hholder⟩
  · rintro ⟨root, hroot, b, hb, hbranches, a, ha, s, hs, hholder⟩
    have hitems : ∀ x ∈ root.subitems, x ∈ forest.items := by
      intro x hx
      exact Item.mem_subitemsOf.mpr ⟨root, hroot, hx⟩
    have hmem := Branch.scalar_mem_members hs
    have has : a.oid < s.oid := (h.branch (hitems _ ha)).ordered.above _ hmem
    have hle : root.oid ≤ s.oid := ((h.each root hroot).oid_le ha).trans has.le
    rw [← h.holder?_tree hroot hle] at hholder
    exact ⟨b, hitems _ hb, hbranches, s, (members_sublist (hitems _ ha)).subset hmem, hholder⟩

/-- After a success, every leaf lies in its deepest branch. -/
theorem WellNested.exists_leaf_reconcile (h : forest.WellNested)
    (hok : forest.reconcile.error? = none) (hroot : root ∈ forest.roots)
    (ha : .branch a ∈ root.subitems) (hs : s ∈ a.leaves) :
    ∃ b, .branch b ∈ forest.reconcile.after.items ∧ s ∈ b.leaves ∧
      root.holder? s.oid = some b.oid := by
  have hitem : .branch a ∈ forest.items := Item.mem_subitemsOf.mpr ⟨root, hroot, ha⟩
  have hmem := Branch.scalar_mem_members hs
  have has : a.oid < s.oid := (h.branch hitem).ordered.above _ hmem
  have hle : root.oid ≤ s.oid := ((h.each root hroot).oid_le ha).trans has.le
  have hsettled := h.settled_reconcile hok
  have hnodes : ∀ d, d ∈ forest.reconcile.after.descriptors ↔ d ∈ forest.descriptors :=
    fun d => (reconcile_perm forest).mem_iff
  have hholder : holder? forest.reconcile.after.descriptors s.oid = root.holder? s.oid :=
    (holder?_congr hnodes).trans (h.holder?_tree hroot hle)
  -- The scalar is still there; were it a top-level item, no branch would contain it.
  have hold : .scalar s ∈ forest.items := (members_sublist hitem).subset hmem
  obtain ⟨x, hx, heq⟩ := mem_descriptors.mp
    ((hnodes _).mpr (mem_descriptors.mpr ⟨_, hold, rfl⟩))
  obtain rfl : x = .scalar s := Item.eq_scalar_of_descriptor heq
  rcases hsettled.wellNested.scalar_cases hx with htop | ⟨b, hb, hleaf⟩
  · have hnone : root.holder? s.oid = none :=
      hholder.symm.trans (hsettled.wellNested.holder?_root htop)
    rw [← h.holder?_tree hroot hle, holder?_eq_none] at hnone
    exact absurd has (hnone _ (mem_descriptors.mpr ⟨_, hitem, rfl⟩) rfl)
  · refine ⟨b, hb, hleaf, ?_⟩
    rw [← hholder]
    exact hsettled.holder?_member hb (Branch.scalar_mem_members hleaf)

/-- Reconciling a well-nested forest succeeds unless a branch with child branches is the
deepest one above a leaf. A success keeps the top-level scalars and the branches with their
order, brings every leaf to its deepest branch, where it comes after those of that branch
and of the branches between, and leaves no branch with both branches and leaves. -/
theorem WellNested.reconcile_places (h : forest.WellNested) :
    (forest.reconcile.error? = none ↔ ¬ ∃ root ∈ forest.roots, root.Mixed) ∧
      (forest.reconcile.error? = none →
        forest.reconcile.after = forest.placed ∧
          forest.reconcile.after.skeleton = forest.skeleton ∧
          (∀ root ∈ forest.roots, ∀ a, .branch a ∈ root.subitems → ∀ s ∈ a.leaves,
            ∃ b, .branch b ∈ forest.reconcile.after.items ∧ s ∈ b.leaves ∧
              root.holder? s.oid = some b.oid) ∧
          ∀ b, .branch b ∈ forest.reconcile.after.items → b.Pinned) := by
  refine ⟨?_, fun hok => ⟨h.reconcile_eq_placed hok, ?_, ?_, ?_⟩⟩
  · rw [h.reconcile_ok_iff, h.crowded_iff_mixed]
  · rw [h.reconcile_eq_placed hok, skeleton_placed]
  · intro root hroot a ha s hs
    exact h.exists_leaf_reconcile hok hroot ha hs
  · intro b hb
    exact pinned_of_reconcile hok hb

/-- A table whose columns wait on two levels above it. -/
def stacked : Forest :=
  let entry : Branch Item := { name := "ifEntry", oid := ⟨[1, 3, 2]⟩ }
  let table : Branch Item :=
    { name := "ifTable", oid := ⟨[1, 3]⟩
      leaves := [{ name := "ifType", oid := ⟨[1, 3, 2, 3]⟩ }], children := [.branch entry] }
  let group : Branch Item := { name := "ifGroup", oid := ⟨[1, 2]⟩ }
  ⟨[.branch
    { name := "if", oid := ⟨[1]⟩
      leaves :=
        [{ name := "ifMtu", oid := ⟨[1, 3, 2, 1]⟩ }, { name := "ifNumber", oid := ⟨[1, 2, 1]⟩ }]
      children := [.branch table, .branch group] }]⟩

/-- The table is what is built if its columns come before it. -/
theorem WellNested.stacked : Forest.stacked.WellNested :=
  have hbuild : build
      [⟨"ifTable", .branch, ⟨[1, 3]⟩, .unspecified, ""⟩,
        ⟨"ifType", .scalar, ⟨[1, 3, 2, 3]⟩, .unspecified, ""⟩,
        ⟨"if", .branch, ⟨[1]⟩, .unspecified, ""⟩,
        ⟨"ifMtu", .scalar, ⟨[1, 3, 2, 1]⟩, .unspecified, ""⟩,
        ⟨"ifNumber", .scalar, ⟨[1, 2, 1]⟩, .unspecified, ""⟩,
        ⟨"ifEntry", .branch, ⟨[1, 3, 2]⟩, .unspecified, ""⟩,
        ⟨"ifGroup", .branch, ⟨[1, 2]⟩, .unspecified, ""⟩] = .ok Forest.stacked := rfl
  (represents_of_build hbuild).wellNested

theorem WellNested.reconcile_places_stacked :
    (¬ ∃ root ∈ Forest.stacked.roots, root.Mixed) ∧
      Forest.stacked.reconcile.after = Forest.stacked.placed ∧
      Forest.stacked.placed.items.map Item.name =
        ["if", "ifTable", "ifEntry", "ifType", "ifMtu", "ifGroup", "ifNumber"] := by
  obtain ⟨hiff, hplaces⟩ := reconcile_places WellNested.stacked
  have hok : Forest.stacked.reconcile.error? = none := by decide +kernel
  exact ⟨hiff.mp hok, (hplaces hok).1, by decide +kernel⟩

end Forest

end MibDrivers
