import MibDrivers.Forest.Reconcile
import MibDrivers.Proofs.Forest.Nesting

/-!
# What reconciling keeps and what it reaches

Reconciling moves scalars from a branch to those of its children that contain them, and
nothing else: the branches stay where they are, no node is lost, and a well-nested forest
stays well nested, also where it is refused. After a success no branch holds both branches
and scalars. After a refusal there is a branch with child branches and with a scalar that
none of these contains. Whatever the shape of the forest, reconciling again comes to the same and
moves nothing.

## Main definitions

* `Branch.Pinned` — a branch does not hold both branches and scalars
* `Branch.Overloaded` — a branch has child branches and a scalar that none of them contains

## Main results

* `Forest.reconcile_perm` — reconciling keeps all nodes
* `Forest.WellNested.reconcile` — reconciling keeps a forest well nested
* `Forest.pinned_of_reconcile` — after a success, every branch is pinned
* `Forest.overloaded_of_reconcile` — after a refusal, some branch is overloaded
* `Forest.reconcile_reconcile` — reconciling again changes nothing, refused or not
-/

namespace MibDrivers

namespace Branch

variable {b c : Branch Item}

/-- Induction along the child branches. -/
@[elab_as_elim]
theorem inductChildren {motive : Branch Item → Prop}
    (step : ∀ b, (∀ c, .branch c ∈ b.children → motive c) → motive b) (b : Branch Item) :
    motive b := by
  induction hitem : Item.branch b using Item.inductMembers generalizing b with
  | scalar s => cases hitem
  | branch d ih =>
    obtain rfl := Item.branch.inj hitem
    exact step b fun c hc => ih _ (mem_members_of_child hc) c rfl

theorem hasChildBranches_iff : b.hasChildBranches = true ↔ ∃ c, .branch c ∈ b.children := by
  simp only [hasChildBranches, childBranches, Bool.not_eq_true',
    List.isEmpty_eq_false_iff_exists_mem, Item.mem_filterMap_branch?]

/-- The branch does not hold both branches and scalars. -/
def Pinned (b : Branch Item) : Prop := (∃ c, .branch c ∈ b.children) → b.leaves = []

/-- The branch has child branches, and a scalar that none of them contains. -/
def Overloaded (b : Branch Item) : Prop :=
  (∃ c, .branch c ∈ b.children) ∧
    ∃ s ∈ b.leaves, ∀ c, .branch c ∈ b.children → ¬ c.oid < s.oid

theorem unpinned?_eq_none : b.unpinned? = none ↔ b.Pinned := by
  unfold unpinned? Pinned
  rw [← hasChildBranches_iff]
  cases b.hasChildBranches <;> simp

theorem of_unpinned?_eq_some {error : MibError} (h : b.unpinned? = some error) :
    (∃ c, .branch c ∈ b.children) ∧ b.leaves ≠ [] := by
  unfold unpinned? at h
  rw [← hasChildBranches_iff]
  split at h
  · simp_all
  · cases h

end Branch

/-- The descriptors of scalars. -/
def Item.scalarDescriptors (leaves : List Scalar) : List Descriptor :=
  leaves.map fun s => (Item.scalar s).descriptor

namespace Branch

variable {child : Branch Item} {leaves : List Scalar} {s : Scalar}

/-- The leaves that a child takes from its branch. -/
def taken (child : Branch Item) (leaves : List Scalar) : List Scalar :=
  leaves.filter (child.oid.isAncestorOf ·.oid)

/-- The leaves that a child does not take. -/
def passed (child : Branch Item) (leaves : List Scalar) : List Scalar :=
  leaves.filter (!child.oid.isAncestorOf ·.oid)

theorem mem_taken : s ∈ child.taken leaves ↔ s ∈ leaves ∧ child.oid < s.oid := by
  rw [taken, List.mem_filter, Oid.isAncestorOf_iff]

theorem mem_passed : s ∈ child.passed leaves ↔ s ∈ leaves ∧ ¬ child.oid < s.oid := by
  simp [passed]

theorem taken_passed_perm (child : Branch Item) (leaves : List Scalar) :
    (Item.scalarDescriptors (child.taken leaves) ++
        Item.scalarDescriptors (child.passed leaves)).Perm
      (Item.scalarDescriptors leaves) := by
  rw [Item.scalarDescriptors, Item.scalarDescriptors, ← List.map_append]
  exact (List.filter_append_perm _ leaves).map _

end Branch

namespace Item

variable {children : List Item} {leaves arriving : List Scalar} {b : Branch Item}

theorem scalarDescriptors_append (leaves arriving : List Scalar) :
    scalarDescriptors (leaves ++ arriving) =
      scalarDescriptors leaves ++ scalarDescriptors arriving :=
  List.map_append

theorem descriptorsOf_scalars (leaves : List Scalar) :
    descriptorsOf (leaves.map .scalar) = scalarDescriptors leaves := by
  rw [descriptorsOf, subitemsOf_scalars, List.map_map]
  rfl

/-- Every branch of the item is pinned. -/
def AllPinned (item : Item) : Prop := ∀ b, .branch b ∈ item.subitems → b.Pinned

theorem allPinned_scalar (s : Scalar) : (Item.scalar s).AllPinned := by
  intro b hb
  simp at hb

theorem allPinned_branch :
    (Item.branch b).AllPinned ↔ b.Pinned ∧ ∀ item ∈ b.members, item.AllPinned :=
  forall_branch_iff

/-- Settling a branch places its leaves on its children and then looks at what is left. -/
theorem settle_eq (arriving : List Scalar) (b : Branch Item) :
    settle arriving b =
      ⟨{ b with
          leaves := (place (b.leaves ++ arriving) b.children).leaves
          children := (place (b.leaves ++ arriving) b.children).children },
        (place (b.leaves ++ arriving) b.children).error?.or
          ({ b with
              leaves := (place (b.leaves ++ arriving) b.children).leaves
              children := (place (b.leaves ++ arriving) b.children).children } :
            Branch Item).unpinned?⟩ := by
  obtain ⟨name, oid, description, leaves, children⟩ := b
  rw [settle]

@[simp] theorem descriptor_settle :
    (Item.branch (settle arriving b).after).descriptor = (Item.branch b).descriptor := by
  rw [settle_eq]
  rfl

theorem place_nil (leaves : List Scalar) : place leaves [] = { children := [], leaves } := by
  rw [place]

theorem place_scalar (leaves : List Scalar) (s : Scalar) (rest : List Item) :
    place leaves (.scalar s :: rest) =
      { place leaves rest with children := .scalar s :: (place leaves rest).children } := by
  rw [place]

theorem place_branch_of_error {child : Branch Item} {rest : List Item} {error : MibError}
    (h : (settle (child.taken leaves) child).error? = some error) :
    place leaves (.branch child :: rest) =
      { children := .branch (settle (child.taken leaves) child).after :: rest
        leaves := child.passed leaves
        error? := some error } := by
  unfold Branch.taken at h ⊢
  rw [place]
  simp only [h, Branch.passed]

theorem place_branch_of_ok {child : Branch Item} {rest : List Item}
    (h : (settle (child.taken leaves) child).error? = none) :
    place leaves (.branch child :: rest) =
      { place (child.passed leaves) rest with
        children := .branch (settle (child.taken leaves) child).after ::
          (place (child.passed leaves) rest).children } := by
  unfold Branch.taken at h ⊢
  rw [place]
  simp only [h, Branch.passed]

/-- Placing leaves does not change what the children say about themselves. -/
theorem descriptors_place (leaves : List Scalar) (children : List Item) :
    (place leaves children).children.map descriptor = children.map descriptor := by
  induction children generalizing leaves with
  | nil => rw [place_nil]
  | cons first rest ih =>
    cases first with
    | scalar s => rw [place_scalar, List.map_cons, List.map_cons, ih]
    | branch child =>
      cases herror : (settle (child.taken leaves) child).error? with
      | some error =>
        rw [place_branch_of_error herror, List.map_cons, List.map_cons, descriptor_settle]
      | none =>
        rw [place_branch_of_ok herror, List.map_cons, List.map_cons, descriptor_settle, ih]

/-- The leaves that no child takes were there before. -/
theorem place_leaves_sublist (leaves : List Scalar) (children : List Item) :
    (place leaves children).leaves.Sublist leaves := by
  induction children generalizing leaves with
  | nil => rw [place_nil]
  | cons first rest ih =>
    cases first with
    | scalar s =>
      rw [place_scalar]
      exact ih leaves
    | branch child =>
      cases herror : (settle (child.taken leaves) child).error? with
      | some error =>
        rw [place_branch_of_error herror]
        exact List.filter_sublist
      | none =>
        rw [place_branch_of_ok herror]
        exact (ih _).trans List.filter_sublist

/-- The identifiers and kinds of the children are those from before. -/
theorem exists_of_mem_place {item : Item} (h : item ∈ (place leaves children).children) :
    ∃ old ∈ children, item.descriptor = old.descriptor := by
  have hmem : item.descriptor ∈ children.map descriptor :=
    descriptors_place leaves children ▸ List.mem_map_of_mem h
  obtain ⟨old, hold, heq⟩ := List.mem_map.mp hmem
  exact ⟨old, hold, heq.symm⟩

/-! ### Nothing is lost -/

theorem place_perm_of (hsettle : ∀ c, .branch c ∈ children → ∀ arriving,
      (Item.branch (settle arriving c).after).descriptors.Perm
        ((Item.branch c).descriptors ++ scalarDescriptors arriving)) (leaves : List Scalar) :
    (scalarDescriptors (place leaves children).leaves ++
        descriptorsOf (place leaves children).children).Perm
      (scalarDescriptors leaves ++ descriptorsOf children) := by
  induction children generalizing leaves with
  | nil => rw [place_nil]
  | cons first rest ih =>
    have hrest := ih fun c hc => hsettle c (List.mem_cons_of_mem _ hc)
    cases first with
    | scalar s =>
      have hcount := hrest leaves
      rw [List.perm_iff_count] at hcount ⊢
      intro d
      have hd := hcount d
      rw [place_scalar]
      simp only [descriptorsOf_cons, List.count_append] at hd ⊢
      omega
    | branch child =>
      -- The leaves are what the child takes, which settling adds to its nodes, and the rest.
      have hchild := hsettle child List.mem_cons_self (child.taken leaves)
      have hparts := child.taken_passed_perm leaves
      rw [List.perm_iff_count] at hchild hparts ⊢
      intro d
      have hchild := hchild d
      have hparts := hparts d
      cases herror : (settle (child.taken leaves) child).error? with
      | some error =>
        -- The children after the refused one are as they were.
        rw [place_branch_of_error herror]
        simp only [descriptorsOf_cons, List.count_append] at hchild hparts ⊢
        omega
      | none =>
        have hcount := (hrest (child.passed leaves)).count_eq d
        rw [place_branch_of_ok herror]
        simp only [descriptorsOf_cons, List.count_append] at hcount hchild hparts ⊢
        omega

/-- Settling a branch keeps its nodes and the scalars that arrive. -/
theorem settle_perm (arriving : List Scalar) (b : Branch Item) :
    (Item.branch (settle arriving b).after).descriptors.Perm
      ((Item.branch b).descriptors ++ scalarDescriptors arriving) := by
  induction b using Branch.inductChildren generalizing arriving with
  | step b ih =>
    have hplace := place_perm_of (fun c hc arriving => ih c hc arriving) (b.leaves ++ arriving)
    rw [descriptors_branch, descriptor_settle, descriptors_branch, List.cons_append, settle_eq]
    refine .cons _ ?_
    simp only [Branch.members, descriptorsOf_append, descriptorsOf_scalars]
    refine hplace.trans ?_
    rw [scalarDescriptors_append, List.append_assoc, List.append_assoc]
    exact List.perm_append_comm.append_left _

/-! ### The order is kept -/

theorem place_wellNested_of (hsettle : ∀ c, .branch c ∈ children → ∀ arriving,
      (∀ s ∈ arriving, c.oid < s.oid) → (Item.branch (settle arriving c).after).WellNested)
    (hchildren : ∀ item ∈ children, item.WellNested) (leaves : List Scalar) :
    ∀ item ∈ (place leaves children).children, item.WellNested := by
  induction children generalizing leaves with
  | nil =>
    rw [place_nil]
    exact List.forall_mem_nil _
  | cons first rest ih =>
    have htail : ∀ item ∈ rest, item.WellNested :=
      fun item hitem => hchildren item (List.mem_cons_of_mem _ hitem)
    have hrest := ih (fun c hc => hsettle c (List.mem_cons_of_mem _ hc)) htail
    cases first with
    | scalar s =>
      rw [place_scalar]
      exact List.forall_mem_cons.mpr ⟨wellNested_scalar s, hrest leaves⟩
    | branch child =>
      have hchild := hsettle child List.mem_cons_self (child.taken leaves) fun s hs =>
        (Branch.mem_taken.mp hs).2
      cases herror : (settle (child.taken leaves) child).error? with
      | some error =>
        rw [place_branch_of_error herror]
        exact List.forall_mem_cons.mpr ⟨hchild, htail⟩
      | none =>
        rw [place_branch_of_ok herror]
        exact List.forall_mem_cons.mpr ⟨hchild, hrest (child.passed leaves)⟩

/-- Settling keeps a branch in order if the scalars that arrive are below it. -/
theorem WellNested.settle (hb : (Item.branch b).WellNested)
    (harriving : ∀ s ∈ arriving, b.oid < s.oid) :
    (Item.branch (settle arriving b).after).WellNested := by
  induction b using Branch.inductChildren generalizing arriving with
  | step b ih =>
    have hplaced := place_wellNested_of
      (fun c hc arriving harriving =>
        ih c hc (hb.member (Branch.mem_members_of_child hc)) harriving)
      hb.children.each (b.leaves ++ arriving)
    -- No leaf is above the branch, whether it was there before or has just arrived.
    have hbelow : ∀ s ∈ b.leaves ++ arriving, b.oid < s.oid := by
      intro s hs
      rcases List.mem_append.mp hs with hleaf | harrived
      · exact hb.ordered.above _ (Branch.scalar_mem_members hleaf)
      · exact harriving s harrived
    rw [settle_eq]
    refine wellNested_branch.mpr ⟨⟨?_, ?_, ?_⟩, ?_⟩
    · intro item hitem
      rcases Branch.mem_members.mp hitem with ⟨s, hs, rfl⟩ | hchild
      · exact hbelow s ((place_leaves_sublist _ _).subset hs)
      · obtain ⟨old, hold, heq⟩ := exists_of_mem_place hchild
        rw [← oid_descriptor, heq, oid_descriptor]
        exact hb.ordered.above old (Branch.mem_members_of_child hold)
    · intro item hitem
      obtain ⟨old, hold, heq⟩ := exists_of_mem_place hitem
      rw [← kind_descriptor_eq_branch, heq, kind_descriptor_eq_branch]
      exact hb.ordered.branches old hold
    · exact (pairwise_apart_congr (descriptors_place _ _)).mpr hb.ordered.apart
    · intro item hitem
      rcases Branch.mem_members.mp hitem with ⟨s, hs, rfl⟩ | hchild
      · exact wellNested_scalar s
      · exact hplaced item hchild

/-! ### What a success reaches -/

theorem place_pinned_of (hsettle : ∀ c, .branch c ∈ children → ∀ arriving,
      (settle arriving c).error? = none → (Item.branch (settle arriving c).after).AllPinned)
    (hok : (place leaves children).error? = none) :
    ∀ item ∈ (place leaves children).children, item.AllPinned := by
  induction children generalizing leaves with
  | nil =>
    rw [place_nil]
    exact List.forall_mem_nil _
  | cons first rest ih =>
    have hrest : ∀ leaves, (place leaves rest).error? = none →
        ∀ item ∈ (place leaves rest).children, item.AllPinned :=
      fun leaves => ih fun c hc => hsettle c (List.mem_cons_of_mem _ hc)
    cases first with
    | scalar s =>
      rw [place_scalar] at hok ⊢
      exact List.forall_mem_cons.mpr ⟨allPinned_scalar s, hrest leaves hok⟩
    | branch child =>
      cases herror : (settle (child.taken leaves) child).error? with
      | some error => simp [place_branch_of_error herror] at hok
      | none =>
        rw [place_branch_of_ok herror] at hok ⊢
        exact List.forall_mem_cons.mpr
          ⟨hsettle child List.mem_cons_self _ herror, hrest (child.passed leaves) hok⟩

/-- After a success, no branch in a settled one holds both branches and scalars. -/
theorem allPinned_settle (hok : (settle arriving b).error? = none) :
    (Item.branch (settle arriving b).after).AllPinned := by
  induction b using Branch.inductChildren generalizing arriving with
  | step b ih =>
    rw [settle_eq] at hok ⊢
    simp only [Option.or_eq_none_iff] at hok
    obtain ⟨hplace, hown⟩ := hok
    have hplaced := place_pinned_of (fun c hc arriving h => ih c hc h) hplace
    refine allPinned_branch.mpr ⟨Branch.unpinned?_eq_none.mp hown, ?_⟩
    intro item hitem
    rcases Branch.mem_members.mp hitem with ⟨s, hs, rfl⟩ | hchild
    · exact allPinned_scalar s
    · exact hplaced item hchild

/-! ### What a refusal leaves -/

/-- After a success, no child contains a leaf that is left. -/
theorem not_lt_of_mem_place {c : Branch Item} {s : Scalar}
    (hok : (place leaves children).error? = none) (hs : s ∈ (place leaves children).leaves)
    (hc : .branch c ∈ children) : ¬ c.oid < s.oid := by
  induction children generalizing leaves with
  | nil => simp at hc
  | cons first rest ih =>
    cases first with
    | scalar t =>
      rw [place_scalar] at hok hs
      rcases List.mem_cons.mp hc with heq | hrest
      · cases heq
      · exact ih hok hs hrest
    | branch child =>
      cases herror : (settle (child.taken leaves) child).error? with
      | some error => simp [place_branch_of_error herror] at hok
      | none =>
        rw [place_branch_of_ok herror] at hok hs
        rcases List.mem_cons.mp hc with heq | hrest
        -- What is left in the end was passed by every child on the way.
        · obtain rfl := Item.branch.inj heq
          exact (Branch.mem_passed.mp ((place_leaves_sublist _ _).subset hs)).2
        · exact ih hok hs hrest

theorem place_overloaded_of (hsettle : ∀ c, .branch c ∈ children → ∀ arriving,
      (settle arriving c).error? ≠ none →
        ∃ d, .branch d ∈ (Item.branch (settle arriving c).after).subitems ∧ d.Overloaded)
    (herror : (place leaves children).error? ≠ none) :
    ∃ d, .branch d ∈ subitemsOf (place leaves children).children ∧ d.Overloaded := by
  induction children generalizing leaves with
  | nil => simp [place_nil] at herror
  | cons first rest ih =>
    have hrest : ∀ leaves, (place leaves rest).error? ≠ none →
        ∃ d, .branch d ∈ subitemsOf (place leaves rest).children ∧ d.Overloaded :=
      fun leaves => ih fun c hc => hsettle c (List.mem_cons_of_mem _ hc)
    cases first with
    | scalar s =>
      rw [place_scalar] at herror ⊢
      obtain ⟨d, hd, hover⟩ := hrest leaves herror
      exact ⟨d, List.mem_append_right _ hd, hover⟩
    | branch child =>
      cases hchild : (settle (child.taken leaves) child).error? with
      | some error =>
        rw [place_branch_of_error hchild]
        obtain ⟨d, hd, hover⟩ := hsettle child List.mem_cons_self (child.taken leaves)
          (by rw [hchild]; exact Option.some_ne_none _)
        exact ⟨d, List.mem_append_left _ hd, hover⟩
      | none =>
        rw [place_branch_of_ok hchild] at herror ⊢
        obtain ⟨d, hd, hover⟩ := hrest _ herror
        exact ⟨d, List.mem_append_right _ hd, hover⟩

/-- After a refusal, some branch in a settled one is overloaded. -/
theorem overloaded_of_settle (herror : (settle arriving b).error? ≠ none) :
    ∃ d, .branch d ∈ (Item.branch (settle arriving b).after).subitems ∧ d.Overloaded := by
  induction b using Branch.inductChildren generalizing arriving with
  | step b ih =>
    rw [settle_eq] at herror ⊢
    cases hplace : (place (b.leaves ++ arriving) b.children).error? with
    | some error =>
      -- The refusal came from below.
      obtain ⟨d, hd, hover⟩ := place_overloaded_of (fun c hc arriving h => ih c hc h)
        (hplace ▸ Option.some_ne_none error)
      refine ⟨d, mem_subitems_branch.mpr (.inr ?_), hover⟩
      exact branch_mem_subitemsOf_members.mpr hd
    | none =>
      -- The branch itself is refused, and no child took the leaves that it still has.
      rw [hplace, Option.none_or] at herror
      obtain ⟨error, hown⟩ := Option.ne_none_iff_exists'.mp herror
      obtain ⟨hbranches, hleaves⟩ := Branch.of_unpinned?_eq_some hown
      obtain ⟨s, hs⟩ := List.exists_mem_of_ne_nil _ hleaves
      refine ⟨_, mem_subitems_self _, hbranches, s, hs, ?_⟩
      intro c hc
      obtain ⟨old, hold, heq⟩ := exists_of_mem_place hc
      obtain ⟨o, rfl⟩ : ∃ o, old = .branch o :=
        kind_descriptor_eq_branch.mp (heq ▸ kind_descriptor_eq_branch.mpr ⟨c, rfl⟩)
      have hoid : c.oid = o.oid := congrArg Descriptor.oid heq
      exact hoid ▸ not_lt_of_mem_place hplace hs hold

/-! ### Settling again -/

theorem oid_settle (arriving : List Scalar) (b : Branch Item) :
    (settle arriving b).after.oid = b.oid := by
  rw [settle_eq]

/-- If settling the children again changes nothing, then placing the leaves that are left does
not either. -/
theorem place_place_of (hsettle : ∀ c, .branch c ∈ children → ∀ arriving,
      settle [] (settle arriving c).after = settle arriving c) (leaves : List Scalar) :
    place (place leaves children).leaves (place leaves children).children =
      place leaves children := by
  induction children generalizing leaves with
  | nil => rw [place_nil, place_nil]
  | cons first rest ih =>
    have hrest := ih fun c hc => hsettle c (List.mem_cons_of_mem _ hc)
    cases first with
    | scalar s => rw [place_scalar, place_scalar, hrest]
    | branch child =>
      have hagain := hsettle child List.mem_cons_self (child.taken leaves)
      -- What is left after the child was passed by it, so the child takes nothing again.
      have hpassed : ∀ left : List Scalar, left.Sublist (child.passed leaves) →
          (settle (child.taken leaves) child).after.taken left = [] ∧
            (settle (child.taken leaves) child).after.passed left = left := by
        intro left hleft
        have hnot : ∀ s ∈ left, ¬ (settle (child.taken leaves) child).after.oid < s.oid := by
          intro s hs
          rw [oid_settle]
          exact (Branch.mem_passed.mp (hleft.subset hs)).2
        refine ⟨List.filter_eq_nil_iff.mpr fun s hs => ?_, List.filter_eq_self.mpr fun s hs => ?_⟩
        · simpa using hnot s hs
        · simpa using hnot s hs
      cases herror : (settle (child.taken leaves) child).error? with
      | some error =>
        obtain ⟨htaken, hkept⟩ := hpassed _ (List.Sublist.refl _)
        rw [place_branch_of_error herror,
          place_branch_of_error (by rw [htaken, hagain]; exact herror), htaken, hagain, hkept]
      | none =>
        obtain ⟨htaken, hkept⟩ := hpassed _ (place_leaves_sublist (child.passed leaves) rest)
        rw [place_branch_of_ok herror, place_branch_of_ok (by rw [htaken, hagain]; exact herror),
          htaken, hagain, hkept, hrest]

/-- A branch that has settled settles again to what it is, with the same refusal. -/
theorem settle_settle (arriving : List Scalar) (b : Branch Item) :
    settle [] (settle arriving b).after = settle arriving b := by
  induction b using Branch.inductChildren generalizing arriving with
  | step b ih =>
    have hplace := place_place_of (fun c hc arriving => ih c hc arriving) (b.leaves ++ arriving)
    rw [settle_eq arriving b, settle_eq, List.append_nil, hplace]

end Item

/-! ### Forests -/

namespace Forest

variable {forest : Forest}

/-- Top-level items are reconciled like the children of a branch without leaves. -/
theorem reconcileRoots_eq_place (roots : List Item) :
    reconcileRoots roots = ⟨(Item.place [] roots).children, (Item.place [] roots).error?⟩ := by
  induction roots with
  | nil =>
    rw [Item.place_nil]
    rfl
  | cons first rest ih =>
    cases first with
    | scalar s =>
      rw [reconcileRoots, ih, Item.place_scalar]
      rfl
    | branch b =>
      have htaken : Item.settle (b.taken []) b = b.reconcile := rfl
      cases herror : b.reconcile.error? with
      | some error =>
        rw [Item.place_branch_of_error (htaken ▸ herror)]
        simp only [reconcileRoots, herror, htaken]
      | none =>
        rw [Item.place_branch_of_ok (htaken ▸ herror)]
        simp only [reconcileRoots, herror, ih, htaken]
        rfl

theorem reconcile_roots (forest : Forest) :
    forest.reconcile.after.roots = (Item.place [] forest.roots).children := by
  rw [reconcile, reconcileRoots_eq_place]
  rfl

theorem reconcile_error? (forest : Forest) :
    forest.reconcile.error? = (Item.place [] forest.roots).error? := by
  rw [reconcile, reconcileRoots_eq_place]
  rfl

/-- Reconciling keeps all nodes, whether or not it is refused. -/
theorem reconcile_perm (forest : Forest) :
    forest.reconcile.after.descriptors.Perm forest.descriptors := by
  have hperm := Item.place_perm_of (fun c (_ : .branch c ∈ forest.roots) arriving =>
    Item.settle_perm arriving c) []
  have hleaves : (Item.place [] forest.roots).leaves = [] :=
    List.sublist_nil.mp (Item.place_leaves_sublist [] forest.roots)
  rw [hleaves] at hperm
  rw [descriptors, reconcile_roots]
  exact hperm

/-- Reconciling keeps a forest well nested, whether or not it is refused. -/
theorem WellNested.reconcile (h : forest.WellNested) : forest.reconcile.after.WellNested := by
  rw [WellNested, reconcile_roots]
  refine ⟨(Item.pairwise_apart_congr (Item.descriptors_place _ _)).mpr h.apart, ?_⟩
  exact Item.place_wellNested_of
    (fun c hc arriving harriving => (h.each _ hc).settle harriving) h.each []

/-- After a success, no branch holds both branches and scalars. -/
theorem pinned_of_reconcile (hok : forest.reconcile.error? = none) {b : Branch Item}
    (hb : .branch b ∈ forest.reconcile.after.items) : b.Pinned := by
  rw [reconcile_error?] at hok
  have hpinned := Item.place_pinned_of (fun c _ arriving h => Item.allPinned_settle h) hok
  rw [items, reconcile_roots] at hb
  obtain ⟨item, hitem, hmem⟩ := Item.mem_subitemsOf.mp hb
  exact hpinned item hitem b hmem

/-- After a refusal, some branch is overloaded. -/
theorem overloaded_of_reconcile (herror : forest.reconcile.error? ≠ none) :
    ∃ b, .branch b ∈ forest.reconcile.after.items ∧ b.Overloaded := by
  rw [reconcile_error?] at herror
  rw [items, reconcile_roots]
  exact Item.place_overloaded_of (fun c _ arriving h => Item.overloaded_of_settle h) herror

/-- Reconciling a branch or a forest of any shape again comes to the same, a success or the same
refusal, and changes nothing. -/
theorem reconcile_reconcile (b : Branch Item) (forest : Forest) :
    b.reconcile.after.reconcile = b.reconcile ∧
      forest.reconcile.after.reconcile = forest.reconcile := by
  refine ⟨Item.settle_settle [] b, ?_⟩
  have hplace := Item.place_place_of (fun c (_ : .branch c ∈ forest.roots) arriving =>
    Item.settle_settle arriving c) []
  have hleaves : (Item.place [] forest.roots).leaves = [] :=
    List.sublist_nil.mp (Item.place_leaves_sublist [] forest.roots)
  rw [hleaves] at hplace
  rw [reconcile, reconcile_roots, reconcileRoots_eq_place, hplace, reconcile,
    reconcileRoots_eq_place]

end Forest

end MibDrivers
