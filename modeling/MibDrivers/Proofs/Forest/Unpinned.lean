import MibDrivers.Proofs.Forest.Placement

/-!
# Refused reconciliations

A reconciliation goes through the branches in post-order, each branch after those below it, and is
refused at the first branch that has child branches and is the deepest one above some scalar. By
then all scalars of which it is the deepest branch have come to it, wherever they were, and the
error names them all. Nothing is lost on the way: what was moved lies below a branch that contains
it, and the branches are where they were.

## Main definitions

* `Item.lineages`, `Forest.lineages` — the branches in post-order, each with those above it
* `Branch.refusal?` — why a branch may not keep the leaves that it ends with
* `Forest.destined` — the scalars of which a branch is the deepest one
* `Forest.crowds` — a branch has child branches and is the deepest one above some scalar

## Main results

* `Item.settle_error?` — settling is refused at the first branch with a refusal
* `Forest.WellNested.due_perm` — the leaves that a branch ends with are those destined for it
* `Forest.WellNested.reconcile_refused` — what a refused reconciliation reports and leaves
-/

namespace MibDrivers

namespace Item

variable {b c : Branch Item} {item : Item} {siblings : List Item} {above up : List (Branch Item)}

/-! ### Branches in post-order -/

mutual

/-- The branches of an item, each after those below it and with those above it, the nearest
first. -/
def lineages (above : List (Branch Item)) : Item → List (Branch Item × List (Branch Item))
  | .branch b => branchLineages above b
  | .scalar _ => []

/-- The branches below a branch, and then the branch itself. -/
def branchLineages (above : List (Branch Item)) :
    Branch Item → List (Branch Item × List (Branch Item))
  | ⟨name, oid, description, leaves, children⟩ =>
    let b : Branch Item := ⟨name, oid, description, leaves, children⟩
    lineagesOf (b :: above) children ++ [(b, above)]

/-- The branches of items, one item after the other. -/
def lineagesOf (above : List (Branch Item)) : List Item → List (Branch Item × List (Branch Item))
  | [] => []
  | item :: rest => item.lineages above ++ lineagesOf above rest

end

@[simp] theorem lineages_scalar {s : Scalar} : (Item.scalar s).lineages above = [] := by
  rw [lineages]

theorem lineages_branch (b : Branch Item) :
    (Item.branch b).lineages above = lineagesOf (b :: above) b.children ++ [(b, above)] := by
  obtain ⟨name, oid, description, leaves, children⟩ := b
  rw [lineages, branchLineages]

theorem mem_lineagesOf :
    (c, up) ∈ lineagesOf above siblings ↔ ∃ item ∈ siblings, (c, up) ∈ item.lineages above := by
  induction siblings with
  | nil => simp [lineagesOf]
  | cons item rest ih => simp [lineagesOf, ih]

theorem branch_mem_subitems (h : (c, up) ∈ item.lineages above) : .branch c ∈ item.subitems := by
  induction item using inductMembers generalizing above with
  | scalar s => simp at h
  | branch b ih =>
    rw [lineages_branch, List.mem_append, List.mem_singleton, mem_lineagesOf] at h
    rcases h with ⟨child, hchild, hmem⟩ | heq
    · have hmember := Branch.mem_members_of_child hchild
      have hbelow := mem_subitemsOf.mpr ⟨child, hmember, ih child hmember hmem⟩
      exact mem_subitems_branch.mpr (.inr hbelow)
    · exact (Prod.mk.inj heq).1 ▸ mem_subitems_self _

/-! ### Where settling is refused -/

/-- Siblings say of themselves whether there is a branch among them. -/
theorem exists_branch_congr {others : List Item}
    (h : siblings.map descriptor = others.map descriptor) :
    (∃ c, .branch c ∈ siblings) ↔ ∃ c, .branch c ∈ others := by
  have hbranch : ∀ items : List Item, (∃ c, .branch c ∈ items) ↔
      ∃ d ∈ items.map descriptor, d.kind = .branch := by
    intro items
    simpa using (@exists_branch_descriptor items fun _ => True).symm
  rw [hbranch, hbranch, h]

end Item

/-- Why a branch may not keep the leaves that it ends with, from the branch and those above it. -/
def Branch.refusal? (holder? : Oid → Option Oid)
    (lineage : Branch Item × List (Branch Item)) : Option MibError :=
  Branch.unpinned? { lineage.1 with leaves := lineage.1.due holder? lineage.2 }

theorem Branch.unpinned?_congr {b : Branch Item} {children : List Item} {leaves : List Scalar}
    (h : children.map Item.descriptor = b.children.map Item.descriptor) :
    ({ b with leaves, children } : Branch Item).unpinned? =
      ({ b with leaves } : Branch Item).unpinned? := by
  have hbranches : ({ b with leaves, children } : Branch Item).hasChildBranches =
      ({ b with leaves } : Branch Item).hasChildBranches := by
    rw [Bool.eq_iff_iff, hasChildBranches_iff, hasChildBranches_iff]
    exact Item.exists_branch_congr h
  rw [unpinned?, unpinned?, hbranches]

namespace Item

variable {b c : Branch Item} {item : Item} {siblings children : List Item} {own : List Scalar}
  {above up : List (Branch Item)} {holder? : Oid → Option Oid}

/-- Children that stand apart refuse leaves where the first of them does, each with the leaves
that it contains. -/
theorem place_error? (hapart : children.Pairwise Apart)
    (hsettle : ∀ c, .branch c ∈ children → (settle (c.taken own) c).error? =
      ((Item.branch c).lineages above).findSome? (Branch.refusal? holder?)) :
    (place own children).error? =
      (lineagesOf above children).findSome? (Branch.refusal? holder?) := by
  induction children generalizing own with
  | nil => rw [place_nil, lineagesOf, List.findSome?_nil]
  | cons first rest ih =>
    rw [lineagesOf, List.findSome?_append]
    cases first with
    | scalar s =>
      rw [place_scalar, lineages_scalar, List.findSome?_nil, Option.none_or]
      exact ih hapart.of_cons fun c hc => hsettle c (List.mem_cons_of_mem _ hc)
    | branch b =>
      rw [← hsettle b List.mem_cons_self]
      cases herror : (settle (b.taken own) b).error? with
      | some error => rw [place_branch_of_error herror, Option.some_or]
      | none =>
        rw [place_branch_of_ok herror, Option.none_or]
        -- What the first branch has taken is nothing that the others would take.
        refine ih hapart.of_cons fun c hc => ?_
        rw [taken_passed (List.rel_of_pairwise_cons hapart hc)]
        exact hsettle c (List.mem_cons_of_mem _ hc)

/-- Settling a branch with the leaves that it takes from the branches above it is refused at the
first branch in post-order that may not keep the leaves of which it is the deepest branch. -/
theorem settle_error? (h : (Item.branch b).WellNested)
    (hholder : ∀ c, .branch c ∈ (Item.branch b).subitems → ∀ o,
      holder? o = some c.oid ↔ c.oid < o ∧ ∀ d, .branch d ∈ c.children → ¬ d.oid < o)
    (above : List (Branch Item)) :
    (settle (b.taken (above.flatMap (·.leaves))) b).error? =
      ((Item.branch b).lineages above).findSome? (Branch.refusal? holder?) := by
  induction b using Branch.inductChildren generalizing above with
  | step b ih =>
    have hplace : (place (b.taken ((b :: above).flatMap (·.leaves))) b.children).error? =
        (lineagesOf (b :: above) b.children).findSome? (Branch.refusal? holder?) := by
      refine place_error? h.ordered.apart fun c hc => ?_
      have hmember := Branch.mem_members_of_child hc
      rw [taken_taken (h.ordered.above _ hmember).le]
      refine ih c hc (h.member hmember) (fun d hd => hholder d ?_) (b :: above)
      exact mem_subitems_branch.mpr (.inr (mem_subitemsOf.mpr ⟨_, hmember, hd⟩))
    rw [settle_eq, leaves_append_taken h.ordered, lineages_branch, List.findSome?_append, ← hplace]
    cases herror : (place (b.taken ((b :: above).flatMap (·.leaves))) b.children).error? with
    | some error => rw [Option.some_or, Option.some_or]
    | none =>
      -- No child has refused, so the branch is left with the leaves that it ends with.
      have hdue := leaves_place_eq_due h.ordered (hholder b (mem_subitems_self _)) above herror
      rw [Option.none_or, Option.none_or, Branch.unpinned?_congr (descriptors_place _ _), hdue,
        List.findSome?_singleton, Branch.refusal?]

/-! ### The scalars for a branch -/

/-- The scalars among siblings and below them. -/
def scalarsOf (siblings : List Item) : List Scalar := (subitemsOf siblings).filterMap scalar?

theorem mem_scalarsOf {s : Scalar} : s ∈ scalarsOf siblings ↔ .scalar s ∈ subitemsOf siblings := by
  rw [scalarsOf, List.mem_filterMap]
  constructor
  · rintro ⟨x, hx, hs⟩
    cases x with
    | branch b => cases hs
    | scalar t => exact Option.some.inj hs ▸ hx
  · intro h
    exact ⟨_, h, rfl⟩

theorem scalarsOf_append (siblings others : List Item) :
    scalarsOf (siblings ++ others) = scalarsOf siblings ++ scalarsOf others := by
  simp [scalarsOf]

theorem scalarsOf_branch (b : Branch Item) :
    scalarsOf [.branch b] = b.leaves ++ scalarsOf b.children := by
  have hleaves : (b.leaves.map scalar).filterMap scalar? = b.leaves := by
    simp [List.filterMap_map, Function.comp_def, scalar?]
  simp [scalarsOf, subitems_branch, Branch.members, List.filterMap_cons, scalar?, hleaves]

/-- Scalars below one of several siblings that stand apart are below no other. -/
theorem Nested.filter_scalarsOf (h : Nested siblings) (hitem : item ∈ siblings)
    {P : Scalar → Bool} (hP : ∀ s, P s → item.oid ≤ s.oid) :
    (scalarsOf siblings).filter P = (scalarsOf [item]).filter P := by
  obtain ⟨before, after, rfl⟩ := List.append_of_mem hitem
  have hnone : ∀ others : List Item, (∀ x ∈ others, x.WellNested ∧ Apart x item) →
      (scalarsOf others).filter P = [] := by
    intro others hothers
    refine List.filter_eq_nil_iff.mpr fun s hs hPs => ?_
    obtain ⟨x, hx, hmem⟩ := mem_subitemsOf.mp (mem_scalarsOf.mp hs)
    obtain ⟨hwn, hapart⟩ := hothers x hx
    exact (hapart.mono (hwn.oid_le hmem) (hP s hPs)).1 le_rfl
  have hcons : before ++ item :: after = before ++ ([item] ++ after) := rfl
  obtain ⟨-, hafter, hbefore⟩ := List.pairwise_append.mp h.apart
  rw [hcons, scalarsOf_append, scalarsOf_append, List.filter_append, List.filter_append,
    hnone before fun x hx => ⟨h.each x (List.mem_append_left _ hx),
      hbefore x hx item List.mem_cons_self⟩,
    hnone after fun x hx => ⟨h.each x (List.mem_append_right _ (List.mem_cons_of_mem _ hx)),
      Std.Symm.symm _ _ (List.rel_of_pairwise_cons hafter hx)⟩,
    List.nil_append, List.append_nil]

/-- Scalars of which a branch is the deepest one are leaves of this branch or of those above it. -/
theorem WellNested.filter_scalarsOf_perm (h : item.WellNested)
    (hmem : (c, up) ∈ item.lineages above) {P : Scalar → Bool}
    (hP : ∀ s, P s → c.oid < s.oid ∧
      ∀ d, .branch d ∈ item.subitems → d.oid < s.oid → d.oid ≤ c.oid) :
    ∃ within, up = within ++ above ∧
      ((c :: within).flatMap fun a => a.leaves.filter P).Perm ((scalarsOf [item]).filter P) := by
  induction item using inductMembers generalizing above with
  | scalar s => simp at hmem
  | branch b ih =>
    rw [lineages_branch, List.mem_append, List.mem_singleton, mem_lineagesOf] at hmem
    rw [scalarsOf_branch, List.filter_append]
    rcases hmem with ⟨child, hchild, hlineage⟩ | heq
    · have hmember := Branch.mem_members_of_child hchild
      have hwn := h.member hmember
      obtain ⟨within, rfl, hperm⟩ := ih child hmember hwn hlineage fun s hs =>
        ⟨(hP s hs).1, fun d hd => (hP s hs).2 d
          (mem_subitems_branch.mpr (.inr (mem_subitemsOf.mpr ⟨child, hmember, hd⟩)))⟩
      -- The scalars are below the child, and those that wait above it are leaves of `b`.
      have hbelow : (scalarsOf b.children).filter P = (scalarsOf [child]).filter P :=
        h.children.filter_scalarsOf hchild fun s hs =>
          (hwn.oid_le (branch_mem_subitems hlineage)).trans (hP s hs).1.le
      refine ⟨within ++ [b], by simp, ?_⟩
      rw [← List.cons_append, List.flatMap_append, hbelow]
      refine (hperm.append_right _).trans ?_
      simpa using List.perm_append_comm
    · obtain ⟨rfl, rfl⟩ := Prod.mk.inj heq
      -- A scalar below a child would have that child, which is below `c`, as a deeper branch.
      have hnone : (scalarsOf c.children).filter P = [] := by
        refine List.filter_eq_nil_iff.mpr fun s hs hPs => ?_
        obtain ⟨child, hchild, hsub⟩ := mem_subitemsOf.mp (mem_scalarsOf.mp hs)
        have hmember := Branch.mem_members_of_child hchild
        obtain ⟨d, rfl⟩ := h.ordered.branches child hchild
        have hlt : d.oid < s.oid := by
          refine (h.member hmember).oid_lt (x := .scalar s) ?_
          exact (mem_subitems_branch.mp hsub).resolve_left nofun
        have hle := (hP s hPs).2 d
          (mem_subitems_branch.mpr (.inr (mem_subitemsOf_of_mem hmember))) hlt
        exact (h.ordered.above _ hmember).not_ge hle
      exact ⟨[], rfl, by simp [hnone]⟩

/-! ### The branches that are left -/

theorem withLeaves_none_congr (item : Item) (first second : List (Branch Item)) :
    item.withLeaves (fun _ _ => []) first = item.withLeaves (fun _ _ => []) second := by
  have hagain : ∀ upper, (item.withLeaves (fun _ _ => []) []).withLeaves (fun _ _ => []) [] =
      item.withLeaves (fun _ _ => []) upper := item.withLeaves_none [] []
  rw [← hagain first, hagain second]

theorem map_withLeaves_place_of (above : List (Branch Item))
    (hsettle : ∀ c, .branch c ∈ children → ∀ arriving,
      (Item.branch (settle arriving c).after).withLeaves (fun _ _ => []) above =
        (Item.branch c).withLeaves (fun _ _ => []) above) (leaves : List Scalar) :
    (place leaves children).children.map (withLeaves (fun _ _ => []) above) =
      children.map (withLeaves (fun _ _ => []) above) := by
  induction children generalizing leaves with
  | nil => rw [place_nil]
  | cons first rest ih =>
    have hrest := ih fun c hc => hsettle c (List.mem_cons_of_mem _ hc)
    cases first with
    | scalar s => rw [place_scalar, List.map_cons, List.map_cons, hrest]
    | branch child =>
      have hchild := hsettle child List.mem_cons_self (child.taken leaves)
      cases herror : (settle (child.taken leaves) child).error? with
      | some error => rw [place_branch_of_error herror, List.map_cons, List.map_cons, hchild]
      | none => rw [place_branch_of_ok herror, List.map_cons, List.map_cons, hchild, hrest]

/-- Without the leaves, a branch is the same before and after it has settled. -/
theorem withLeaves_settle (arriving : List Scalar) (b : Branch Item)
    (above : List (Branch Item)) :
    (Item.branch (settle arriving b).after).withLeaves (fun _ _ => []) above =
      (Item.branch b).withLeaves (fun _ _ => []) above := by
  induction b using Branch.inductChildren generalizing arriving above with
  | step b ih =>
    have hplace := map_withLeaves_place_of (b :: above)
      (fun c hc arriving => ih c hc arriving (b :: above)) (b.leaves ++ arriving)
    rw [withLeaves_branch, withLeaves_branch, settle_eq]
    simp only [← hplace]
    refine congrArg _ (congrArg _ (List.map_congr_left fun child _ => ?_))
    exact withLeaves_none_congr child _ _

end Item

/-! ### Forests -/

namespace Forest

open WorkingSet

variable {forest : Forest} {b c : Branch Item} {up : List (Branch Item)} {error : MibError}

/-- The branches of a forest, each after those below it and with those above it, the nearest
first. -/
def lineages (forest : Forest) : List (Branch Item × List (Branch Item)) :=
  Item.lineagesOf [] forest.roots

/-- The scalars of a forest of which a branch is the deepest one. -/
def destined (forest : Forest) (b : Branch Item) : List Scalar :=
  (Item.scalarsOf forest.roots).filter fun s => holder? forest.descriptors s.oid = some b.oid

/-- The branch has child branches and is the deepest one above some scalar. -/
def crowds (forest : Forest) (b : Branch Item) : Bool :=
  b.hasChildBranches && !(forest.destined b).isEmpty

/-- Reconciling is refused at the first branch that may not keep the leaves that it ends with. -/
theorem WellNested.reconcile_error?_eq (h : forest.WellNested) :
    forest.reconcile.error? =
      forest.lineages.findSome? (Branch.refusal? (holder? forest.descriptors)) := by
  rw [reconcile_error?]
  refine Item.place_error? h.apart fun b hb => ?_
  refine Item.settle_error? (h.each _ hb) (fun c hc o => h.holder?_eq_some_iff ?_) []
  exact Item.mem_subitemsOf.mpr ⟨_, hb, hc⟩

/-- The leaves that a branch ends with are all scalars of the forest of which it is the deepest
branch. -/
theorem WellNested.due_perm (h : forest.WellNested) (hmem : (c, up) ∈ forest.lineages) :
    (c.due (holder? forest.descriptors) up).Perm (forest.destined c) := by
  obtain ⟨root, hroot, hlineage⟩ := Item.mem_lineagesOf.mp hmem
  have hbranch := Item.branch_mem_subitems hlineage
  have hdeepest : ∀ s : Scalar,
      decide (holder? forest.descriptors s.oid = some c.oid) = true → c.oid < s.oid ∧
        ∀ d, .branch d ∈ root.subitems → d.oid < s.oid → d.oid ≤ c.oid := by
    intro s hs
    obtain ⟨-, hlt, hmax⟩ := holder?_eq_some.mp (decide_eq_true_iff.mp hs)
    rw [forall_branch_descriptor (P := fun o => o < s.oid → o ≤ c.oid)] at hmax
    exact ⟨hlt, fun d hd => hmax d (Item.mem_subitemsOf.mpr ⟨root, hroot, hd⟩)⟩
  obtain ⟨within, rfl, hperm⟩ := (h.each root hroot).filter_scalarsOf_perm hlineage hdeepest
  have htree := Item.Nested.filter_scalarsOf h hroot fun s hs =>
    ((h.each root hroot).oid_le hbranch).trans (hdeepest s hs).1.le
  rw [destined, htree, Branch.due, List.append_nil]
  exact hperm

/-- A branch may not keep the leaves that it ends with if it has child branches and there are any
such leaves. -/
theorem WellNested.refusal?_eq (h : forest.WellNested) (hmem : (c, up) ∈ forest.lineages) :
    Branch.refusal? (holder? forest.descriptors) (c, up) =
      if forest.crowds c then
        some (.unpinnedLeaves c.name ((c.due (holder? forest.descriptors) up).map Scalar.text))
      else none := by
  have hempty : (c.due (holder? forest.descriptors) up).isEmpty = (forest.destined c).isEmpty :=
    (h.due_perm hmem).isEmpty_eq
  rw [Branch.refusal?, Branch.unpinned?, crowds, ← hempty]
  rfl

/-- If reconciling a well-nested forest is refused, the error names the first branch in post-order
that has child branches and is the deepest one above some scalar, with all scalars of which it is
the deepest branch: its own ones, and then those that wait on the branches above it, from the
nearest one up. All nodes are kept, the branches and the top-level items are where they were, and
every leaf is below a branch that contains it. -/
theorem WellNested.reconcile_refused (h : forest.WellNested)
    (herror : forest.reconcile.error? = some error) :
    (∃ b above, forest.lineages.find? (fun lineage => forest.crowds lineage.1) = some (b, above) ∧
      (b.due (holder? forest.descriptors) above).Perm (forest.destined b) ∧
      error =
        .unpinnedLeaves b.name ((b.due (holder? forest.descriptors) above).map Scalar.text)) ∧
    forest.reconcile.after.descriptors.Perm forest.descriptors ∧
    forest.reconcile.after.skeleton = forest.skeleton ∧
    ∀ a, .branch a ∈ forest.reconcile.after.items → ∀ s ∈ a.leaves, a.oid < s.oid := by
  refine ⟨?_, reconcile_perm forest, ?_, ?_⟩
  · rw [h.reconcile_error?_eq] at herror
    obtain ⟨before, ⟨b, above⟩, after, hsplit, hrefusal, hbefore⟩ :=
      List.findSome?_eq_some_iff.mp herror
    have hmem : ∀ lineage ∈ before, lineage ∈ forest.lineages := by
      intro lineage hlineage
      rw [hsplit]
      exact List.mem_append_left _ hlineage
    have hb : (b, above) ∈ forest.lineages := by simp [hsplit]
    rw [h.refusal?_eq hb, Option.ite_none_right_eq_some] at hrefusal
    refine ⟨b, above, List.find?_eq_some_iff_append.mpr ⟨hrefusal.1, before, after, hsplit, ?_⟩,
      h.due_perm hb, (Option.some.inj hrefusal.2).symm⟩
    intro lineage hlineage
    have hnone := hbefore lineage hlineage
    rw [h.refusal?_eq (hmem lineage hlineage)] at hnone
    simpa using hnone
  · rw [skeleton, reconcile_roots, skeleton]
    exact congrArg Forest.mk (Item.map_withLeaves_place_of [] (fun c _ arriving =>
      Item.withLeaves_settle arriving c []) [])
  · intro a ha s hs
    exact (h.reconcile.branch ha).ordered.above _ (Branch.scalar_mem_members hs)

/-- A table with a leaf beside its row, and above it two leaves for branches further down and one
for no branch. -/
def strayed : Forest :=
  let entry : Branch Item := { name := "ifEntry", oid := ⟨[1, 3, 2]⟩ }
  let table : Branch Item :=
    { name := "ifTable", oid := ⟨[1, 3]⟩
      leaves := [{ name := "ifIndex", oid := ⟨[1, 3, 5]⟩ }], children := [.branch entry] }
  let group : Branch Item := { name := "ifGroup", oid := ⟨[1, 2]⟩ }
  ⟨[.branch
    { name := "if", oid := ⟨[1]⟩
      leaves :=
        [{ name := "ifLast", oid := ⟨[1, 3, 9]⟩ }, { name := "ifNumber", oid := ⟨[1, 2, 1]⟩ },
          { name := "ifVersion", oid := ⟨[1, 9]⟩ }]
      children := [.branch table, .branch group] }]⟩

/-- The leaves stray if they come before the branches further down. -/
theorem WellNested.strayed : Forest.strayed.WellNested :=
  have hbuild : build
      [⟨"ifTable", .branch, ⟨[1, 3]⟩, .unspecified, ""⟩,
        ⟨"ifIndex", .scalar, ⟨[1, 3, 5]⟩, .unspecified, ""⟩,
        ⟨"if", .branch, ⟨[1]⟩, .unspecified, ""⟩,
        ⟨"ifLast", .scalar, ⟨[1, 3, 9]⟩, .unspecified, ""⟩,
        ⟨"ifNumber", .scalar, ⟨[1, 2, 1]⟩, .unspecified, ""⟩,
        ⟨"ifVersion", .scalar, ⟨[1, 9]⟩, .unspecified, ""⟩,
        ⟨"ifEntry", .branch, ⟨[1, 3, 2]⟩, .unspecified, ""⟩,
        ⟨"ifGroup", .branch, ⟨[1, 2]⟩, .unspecified, ""⟩] = .ok Forest.strayed := rfl
  (represents_of_build hbuild).wellNested

/-- The table is refused before the branch above it, which has a leaf too many as well, with the
leaf that has come to it from there. The leaf for the group has not been moved by then. -/
theorem WellNested.reconcile_refused_strayed :
    Forest.strayed.reconcile.error? =
        some (.unpinnedLeaves "ifTable" ["ifIndex (1.3.5)", "ifLast (1.3.9)"]) ∧
      (∃ b above, Forest.strayed.lineages.find? (fun lineage => Forest.strayed.crowds lineage.1) =
          some (b, above) ∧
        b.name = "ifTable" ∧
        (b.due (holder? Forest.strayed.descriptors) above).map Scalar.text =
          ["ifIndex (1.3.5)", "ifLast (1.3.9)"]) ∧
      Forest.strayed.reconcile.after.skeleton = Forest.strayed.skeleton ∧
      Forest.strayed.reconcile.after.items.map Item.name =
        ["if", "ifNumber", "ifVersion", "ifTable", "ifIndex", "ifLast", "ifEntry", "ifGroup"] := by
  have herror : Forest.strayed.reconcile.error? =
      some (.unpinnedLeaves "ifTable" ["ifIndex (1.3.5)", "ifLast (1.3.9)"]) := by decide +kernel
  obtain ⟨⟨b, above, hfirst, -, hnames⟩, -, hskeleton, -⟩ :=
    reconcile_refused WellNested.strayed herror
  obtain ⟨hname, htexts⟩ := MibError.unpinnedLeaves.inj hnames
  exact ⟨herror, ⟨b, above, hfirst, hname.symm, htexts.symm⟩, hskeleton, by decide +kernel⟩

end Forest

end MibDrivers
