import Mathlib.Data.List.Perm.Basic
import MibDrivers.Driver.Plan
import MibDrivers.Proofs.Forest.Canonical
import MibDrivers.Proofs.Naming.Registry
import MibDrivers.Proofs.Results

/-!
# A plan mirrors its working set

Planning goes through a forest once. It makes one class for each branch, and the members of
the class offer what the branch holds, in its order: a leaf is read or read and written, and
a child branch leads to the class that was made for it, whose name no other class has. In a
settled forest what a branch holds is what it is the holder of, so the plan can be read off
the working set.

## Main definitions

* `Driver.Member.Offers` — a member leads to what a descriptor describes
* `Driver.Class.Mirrors` — a class offers what a branch holds
* `Driver.Depicts` — a plan mirrors a working set

## Main results

* `Driver.planBranch_mirrors`, `Driver.planSiblings_mirrors` — what a plan of a branch and a
  plan of siblings consist of
* `Driver.plan_depicts` — every plan mirrors its working set
-/

namespace MibDrivers

/-! ### The branches of a forest -/

namespace Item

variable {siblings : List Item} {b : Branch Item}

/-- The branches among siblings and below them, each before the ones below it. -/
def branchesOf (siblings : List Item) : List (Branch Item) :=
  (subitemsOf siblings).filterMap branch?

@[simp] theorem branchesOf_cons_scalar {s : Scalar} :
    branchesOf (.scalar s :: siblings) = branchesOf siblings := by
  simp [branchesOf, branch?, List.filterMap_cons]

@[simp] theorem branchesOf_cons_branch :
    branchesOf (.branch b :: siblings) = b :: branchesOf b.children ++ branchesOf siblings := by
  have hleaves : (b.leaves.map scalar).filterMap branch? = [] := by
    simp [List.filterMap_map, Function.comp_def, branch?]
  simp [branchesOf, subitems_branch, Branch.members, branch?, hleaves]

theorem mem_branchesOf : b ∈ branchesOf siblings ↔ .branch b ∈ subitemsOf siblings :=
  mem_filterMap_branch?

/-- What the branches say about themselves is what the descriptors say that are branches. -/
theorem map_descriptor_branchesOf (siblings : List Item) :
    (branchesOf siblings).map (fun b => (Item.branch b).descriptor) =
      (descriptorsOf siblings).filter (·.kind = .branch) := by
  rw [branchesOf, descriptorsOf]
  induction subitemsOf siblings with
  | nil => rfl
  | cons item rest ih =>
    cases item with
    | scalar s => simpa [branch?, descriptor, List.filterMap_cons] using ih
    | branch c => simpa [branch?, descriptor] using ih

end Item

namespace Driver

/-! ### What mirroring is -/

/-- The access mode that a leaf is offered for. -/
def LeafKind.access : LeafKind → Access
  | .readOnly => .readOnly
  | .readWrite => .readWrite

/-- The member leads to what the descriptor describes: for a branch to its class among
`classes`, for a scalar to its value. -/
inductive Member.Offers (classes : List Class) (m : Member) (d : Descriptor) : Prop
  | child {c : Class} (hkind : d.kind = .branch) (hclass : c ∈ classes)
      (hoid : c.oid = some d.oid) (htarget : m.target = .child c.name)
      (hdescription : m.description = d.description)
  | leaf {kind : LeafKind} (hkind : d.kind = .scalar) (haccess : d.access = kind.access)
      (htarget : m.target = .leaf kind d.oid) (hdescription : m.description = d.description)

/-- The class stands for the branch, and its members offer what the branch holds. -/
structure Class.Mirrors (classes : List Class) (c : Class) (b : Branch Item) : Prop where
  oid : c.oid = some b.oid
  description : c.description = b.description
  kind : c.kind = if b.hasChildBranches then .group else .leaves
  members : List.Forall₂ (Member.Offers classes) c.members (b.members.map Item.descriptor)

variable {classes others : List Class} {m : Member} {d : Descriptor} {c : Class}
  {b : Branch Item}

theorem Member.Offers.mono (h : m.Offers classes d) (hsub : classes ⊆ others) :
    m.Offers others d := by
  cases h with
  | child hkind hclass hoid htarget hdescription =>
    exact .child hkind (hsub hclass) hoid htarget hdescription
  | leaf hkind haccess htarget hdescription => exact .leaf hkind haccess htarget hdescription

theorem Class.Mirrors.mono (h : c.Mirrors classes b) (hsub : classes ⊆ others) :
    c.Mirrors others b :=
  { h with members := h.members.imp fun _ _ hoffers => hoffers.mono hsub }

/-! ### Inversion -/

/-- An entry of a list that mirrors another one has its counterpart there. -/
theorem exists_of_forall₂ {α β : Type} {R : α → β → Prop} {xs : List α} {ys : List β} {x : α}
    (h : List.Forall₂ R xs ys) (hx : x ∈ xs) : ∃ y ∈ ys, R x y := by
  obtain ⟨i, hi, rfl⟩ := List.getElem_of_mem hx
  have hj : i < ys.length := h.length_eq ▸ hi
  exact ⟨_, List.getElem_mem hj, h.get hi hj⟩

variable {names methods methods' : NameRegistry} {s : Scalar} {rest siblings : List Item}

/-- What a member for a scalar consists of. -/
theorem exists_of_planScalar (h : planScalar methods s = .ok (m, methods')) :
    ∃ kind : LeafKind, s.access = kind.access ∧ m.target = .leaf kind s.oid ∧
      m.description = s.description ∧
      (m.method, methods') = methods.allocate (Naming.methodName s.name) := by
  unfold planScalar at h
  cases haccess : s.access with
  | readOnly =>
    rw [haccess] at h
    obtain ⟨rfl, rfl⟩ := Prod.mk.inj (Except.ok.inj h)
    exact ⟨.readOnly, rfl, rfl, rfl, rfl⟩
  | readWrite =>
    rw [haccess] at h
    obtain ⟨rfl, rfl⟩ := Prod.mk.inj (Except.ok.inj h)
    exact ⟨.readWrite, rfl, rfl, rfl, rfl⟩
  | other text =>
    rw [haccess] at h
    cases h

/-- A member for a scalar offers it. -/
theorem offers_of_planScalar (h : planScalar methods s = .ok (m, methods')) :
    m.Offers classes (Item.scalar s).descriptor := by
  obtain ⟨kind, haccess, htarget, hdescription, -⟩ := exists_of_planScalar h
  exact .leaf rfl haccess htarget hdescription

/-- The members for leaves offer them in their order. -/
theorem offers_of_planLeaves {leaves : List Scalar} {members : List Member}
    (h : planLeaves methods leaves = .ok (members, methods')) :
    List.Forall₂ (Member.Offers classes) members
      ((leaves.map Item.scalar).map Item.descriptor) := by
  induction leaves generalizing methods members with
  | nil =>
    obtain ⟨rfl, -⟩ := Prod.mk.inj (Except.ok.inj h)
    exact .nil
  | cons leaf others ih =>
    rw [planLeaves] at h
    obtain ⟨⟨member, mid⟩, hmember, h⟩ := bind_eq_ok.mp h
    obtain ⟨⟨tail, last⟩, htail, h⟩ := bind_eq_ok.mp h
    obtain ⟨rfl, rfl⟩ := Prod.mk.inj (Except.ok.inj h)
    exact .cons (offers_of_planScalar hmember) (ih htail)

/-! ### Branches and siblings -/

/-- What a plan for a branch consists of: one class for each branch, of which the first is
its own, with names that were free. -/
structure BranchPlan.Mirrors (names : NameRegistry) (b : Branch Item) (planned : BranchPlan) :
    Prop where
  classes : List.Forall₂ (Class.Mirrors planned.classes) planned.classes
    (b :: Item.branchesOf b.children)
  names : names.HandsOut (planned.classes.map (·.name)) planned.names
  own : ∃ c ∈ planned.classes, c.name = planned.name ∧ c.oid = some b.oid

/-- What a plan for siblings consists of: one class for each branch, with names that were
free, and one member for each sibling. -/
structure SiblingPlan.Mirrors (names : NameRegistry) (siblings : List Item)
    (planned : SiblingPlan) : Prop where
  classes : List.Forall₂ (Class.Mirrors planned.classes) planned.classes
    (Item.branchesOf siblings)
  names : names.HandsOut (planned.classes.map (·.name)) planned.names
  members : List.Forall₂ (Member.Offers planned.classes) planned.members
    (siblings.map Item.descriptor)

/-- The plan for siblings mirrors them if the plans for those that are branches do. -/
theorem planSiblings_mirrors_of {planned : SiblingPlan}
    (hbranch : ∀ c, .branch c ∈ siblings → ∀ names planned, planBranch names c = .ok planned →
      planned.Mirrors names c)
    (h : planSiblings names methods siblings = .ok planned) : planned.Mirrors names siblings := by
  -- The classes of the siblings are planned one after the other, so each time the ones at hand
  -- stay among all of them.
  induction siblings generalizing names methods planned with
  | nil =>
    rw [planSiblings] at h
    obtain rfl := Except.ok.inj h
    exact ⟨.nil, .refl names, .nil⟩
  | cons first rest ih =>
    have hrest : ∀ c, .branch c ∈ rest → ∀ names planned, planBranch names c = .ok planned →
        planned.Mirrors names c := fun c hc => hbranch c (List.mem_cons_of_mem _ hc)
    cases first with
    | scalar s =>
      rw [planSiblings] at h
      obtain ⟨⟨member, mid⟩, hmember, h⟩ := bind_eq_ok.mp h
      obtain ⟨others, hothers, h⟩ := bind_eq_ok.mp h
      obtain rfl := Except.ok.inj h
      have hmade := ih hrest hothers
      refine ⟨?_, hmade.names, .cons (offers_of_planScalar hmember) hmade.members⟩
      rw [Item.branchesOf_cons_scalar]
      exact hmade.classes
    | branch b =>
      rw [planSiblings] at h
      obtain ⟨own, hown, h⟩ := bind_eq_ok.mp h
      obtain ⟨others, hothers, h⟩ := bind_eq_ok.mp h
      obtain rfl := Except.ok.inj h
      have hfirst := hbranch b List.mem_cons_self _ _ hown
      have hmade := ih hrest hothers
      have hleft : own.classes ⊆ own.classes ++ others.classes := List.subset_append_left _ _
      have hright : others.classes ⊆ own.classes ++ others.classes := List.subset_append_right _ _
      refine ⟨?_, ?_, .cons ?_ ?_⟩
      · rw [Item.branchesOf_cons_branch]
        exact List.rel_append (hfirst.classes.imp fun _ _ hc => hc.mono hleft)
          (hmade.classes.imp fun _ _ hc => hc.mono hright)
      · rw [List.map_append]
        exact hfirst.names.trans hmade.names
      · obtain ⟨c, hc, hname, hoid⟩ := hfirst.own
        exact .child rfl (hleft hc) hoid (congrArg Target.child hname.symm) rfl
      · exact hmade.members.imp fun _ _ hm => hm.mono hright

theorem any_branch_eq (b : Branch Item) :
    b.children.any (·.branch?.isSome) = b.hasChildBranches := by
  rw [Bool.eq_iff_iff, Branch.hasChildBranches_iff, List.any_eq_true]
  constructor
  · rintro ⟨item, hitem, hsome⟩
    cases item with
    | scalar s => cases hsome
    | branch c => exact ⟨c, hitem⟩
  · rintro ⟨c, hc⟩
    exact ⟨_, hc, rfl⟩

/-- Every plan for a branch mirrors it. -/
theorem planBranch_mirrors {planned : BranchPlan} (h : planBranch names b = .ok planned) :
    planned.Mirrors names b := by
  induction b using Branch.inductChildren generalizing names planned with
  | step b ih =>
    have hkind := any_branch_eq b
    obtain ⟨branchName, oid, description, leaves, children⟩ := b
    rw [planBranch] at h
    obtain ⟨⟨leafMembers, mid⟩, hleaves, h⟩ := bind_eq_ok.mp h
    obtain ⟨below, hbelow, h⟩ := bind_eq_ok.mp h
    obtain rfl := Except.ok.inj h
    have hmade := planSiblings_mirrors_of (fun c hc names planned => ih c hc) hbelow
    refine ⟨.cons ⟨rfl, rfl, ?_, ?_⟩ ?_, ?_, ?_⟩
    · simp only [← hkind]
    -- The leaves are planned before the children, as the branch holds them.
    · rw [Branch.members, List.map_append]
      refine List.rel_append (offers_of_planLeaves hleaves) ?_
      exact hmade.members.imp fun _ _ hm => hm.mono (List.subset_cons_self _ _)
    · exact hmade.classes.imp fun _ _ hc => hc.mono (List.subset_cons_self _ _)
    · exact (NameRegistry.handsOut_allocate names _).trans hmade.names
    · exact ⟨_, List.mem_cons_self, rfl, rfl⟩

/-- Every plan for siblings mirrors them. -/
theorem planSiblings_mirrors {planned : SiblingPlan}
    (h : planSiblings names methods siblings = .ok planned) : planned.Mirrors names siblings :=
  planSiblings_mirrors_of (fun _ _ _ _ => planBranch_mirrors) h

/-- Every member of a class offers something that its branch holds. -/
theorem Class.Mirrors.exists_member (h : c.Mirrors classes b) (hm : m ∈ c.members) :
    ∃ x ∈ b.members, m.Offers classes x.descriptor := by
  obtain ⟨d, hd, hoffers⟩ := exists_of_forall₂ h.members hm
  obtain ⟨x, hx, rfl⟩ := List.mem_map.mp hd
  exact ⟨x, hx, hoffers⟩

theorem Member.Offers.target_of_branch (h : m.Offers classes (Item.branch b).descriptor) :
    ∃ name, m.target = .child name := by
  cases h with
  | child _ _ _ htarget => exact ⟨_, htarget⟩
  | leaf hkind => cases hkind

theorem Member.Offers.target_of_scalar (h : m.Offers classes (Item.scalar s).descriptor) :
    ∃ kind oid, m.target = .leaf kind oid := by
  cases h with
  | child hkind => cases hkind
  | leaf _ _ htarget => exact ⟨_, _, htarget⟩

/-- The class of a branch with child branches has no other members, if the branch is pinned. -/
theorem Class.Mirrors.group (h : c.Mirrors classes b) (hordered : b.Ordered) (hpinned : b.Pinned)
    (hkind : c.kind = .group) (hm : m ∈ c.members) : ∃ name, m.target = .child name := by
  have hbranches : b.hasChildBranches = true := by
    by_contra hnone
    rw [h.kind, if_neg hnone] at hkind
    cases hkind
  have hleaves := hpinned (Branch.hasChildBranches_iff.mp hbranches)
  obtain ⟨x, hx, hoffers⟩ := h.exists_member hm
  rw [Branch.members, hleaves] at hx
  obtain ⟨child, rfl⟩ := hordered.branches x hx
  exact hoffers.target_of_branch

/-- The class of a branch without child branches has members for leaves only. -/
theorem Class.Mirrors.leaves (h : c.Mirrors classes b) (hordered : b.Ordered)
    (hkind : c.kind = .leaves) (hm : m ∈ c.members) : ∃ kind oid, m.target = .leaf kind oid := by
  obtain ⟨x, hx, hoffers⟩ := h.exists_member hm
  rcases Branch.mem_members.mp hx with ⟨s, -, rfl⟩ | hchild
  · exact hoffers.target_of_scalar
  · obtain ⟨child, rfl⟩ := hordered.branches x hchild
    rw [h.kind, if_pos (Branch.hasChildBranches_iff.mpr ⟨child, hchild⟩)] at hkind
    cases hkind

/-! ### Whole plans -/

open WorkingSet

/-- The plan mirrors the working set. -/
structure Depicts (classes : List Class) (descriptors : List Descriptor) : Prop where
  /-- One root class comes after one class for each branch. -/
  shape : ∃ below root, classes = below ++ [root] ∧ root.kind = .root ∧ root.oid = none ∧
    (∀ c ∈ below, c.kind ≠ .root) ∧
    (below.map fun c => (c.oid, c.description)).Perm
      ((descriptors.filter (·.kind = .branch)).map fun d => (some d.oid, d.description))
  /-- A name leads to one class. -/
  names : (classes.map (·.name)).Nodup
  /-- A class offers exactly the objects of which its branch is the holder, and the root class
  those without a holder. -/
  members : ∀ c ∈ classes, ∃ held : List Descriptor,
    held.Perm (descriptors.filter fun d => holder? descriptors d.oid = c.oid) ∧
      List.Forall₂ (Member.Offers classes) c.members held
  groups : ∀ c ∈ classes, c.kind = .group → ∀ m ∈ c.members, ∃ name, m.target = .child name
  leaves : ∀ c ∈ classes, c.kind = .leaves → ∀ m ∈ c.members,
    ∃ kind oid, m.target = .leaf kind oid

variable {options : Options} {forest : Forest} {descriptors : List Descriptor}

theorem Member.Offers.of_kept (h : m.Offers classes d.kept) : m.Offers classes d := by
  cases h with
  | child hkind hclass hoid htarget hdescription =>
    rw [Descriptor.kind_kept] at hkind
    rw [Descriptor.oid_kept] at hoid
    rw [Descriptor.description_kept] at hdescription
    exact .child hkind hclass hoid htarget hdescription
  | leaf hkind haccess htarget hdescription =>
    rw [Descriptor.kind_kept] at hkind
    rw [Descriptor.kept_of_scalar hkind] at haccess htarget hdescription
    exact .leaf hkind haccess htarget hdescription

/-- Offering what a forest keeps of some descriptors is offering these, in some order. -/
theorem exists_held {members : List Member} {nodes : List Descriptor}
    (hoffers : List.Forall₂ (Member.Offers classes) members nodes)
    (hperm : nodes.Perm (descriptors.map Descriptor.kept)) :
    ∃ held : List Descriptor, held.Perm descriptors ∧
      List.Forall₂ (Member.Offers classes) members held := by
  -- Each node is kept of one descriptor; the reordering of the nodes carries over to these.
  have hkept : List.Forall₂ (fun e d => e = Descriptor.kept d)
      (descriptors.map Descriptor.kept) descriptors :=
    List.forall₂_map_left_iff.mpr (List.forall₂_same.mpr fun _ _ => rfl)
  obtain ⟨held, hheld, hsame⟩ := List.perm_comp_forall₂ hperm hkept
  have hnodes : nodes = held.map Descriptor.kept := by
    rwa [← List.forall₂_eq_eq_eq, List.forall₂_map_right_iff]
  rw [hnodes, List.forall₂_map_right_iff] at hoffers
  exact ⟨held, hsame, hoffers.imp fun _ _ h => h.of_kept⟩

/-- The nodes with one holder are kept of the descriptors with that holder. -/
theorem filter_holder?_perm (h : forest.Represents descriptors) (holder : Option Oid) :
    (forest.descriptors.filter fun d => holder? forest.descriptors d.oid = holder).Perm
      ((descriptors.filter fun d => holder? descriptors d.oid = holder).map
        Descriptor.kept) := by
  have hfilter := h.nodes.filter fun d => decide (holder? forest.descriptors d.oid = holder)
  rw [List.filter_map] at hfilter
  simpa only [Function.comp_def, Descriptor.oid_kept, h.holder?_eq] using hfilter

/-- What branches say about themselves is what the branches of the working set say. -/
theorem map_branchesOf_perm (h : forest.Represents descriptors) :
    ((Item.branchesOf forest.roots).map fun b => (some b.oid, b.description)).Perm
      ((descriptors.filter (·.kind = .branch)).map fun d => (some d.oid, d.description)) := by
  have hfilter := h.nodes.filter fun d => decide (d.kind = .branch)
  have hmap := hfilter.map fun d => (some d.oid, d.description)
  rw [Forest.descriptors, ← Item.map_descriptor_branchesOf, List.filter_map, List.map_map,
    List.map_map] at hmap
  simp only [Function.comp_def, Descriptor.oid_kept, Descriptor.kind_kept,
    Descriptor.description_kept] at hmap
  exact hmap

/-- A class of the plan for the top level belongs to a branch of the forest. -/
theorem SiblingPlan.Mirrors.exists_branch {planned : SiblingPlan}
    (h : planned.Mirrors names forest.roots) (hc : c ∈ planned.classes) :
    ∃ b, .branch b ∈ forest.items ∧ c.Mirrors planned.classes b := by
  obtain ⟨b, hb, hmirrors⟩ := exists_of_forall₂ h.classes hc
  exact ⟨b, Item.mem_branchesOf.mp hb, hmirrors⟩

theorem Class.Mirrors.kind_ne_root (h : c.Mirrors classes b) : c.kind ≠ .root := by
  rw [h.kind]
  split <;> simp

/-- The classes of a plan are those for the siblings at the top level and the root class. -/
theorem exists_of_plan (h : plan options forest = .ok classes) :
    ∃ (planned : SiblingPlan) (root : Class), planned.Mirrors (classNames options) forest.roots ∧
      classes = planned.classes ++ [root] ∧ root.name = options.rootName ∧ root.kind = .root ∧
      root.oid = none ∧ root.members = planned.members := by
  obtain ⟨planned, hplanned, h⟩ := bind_eq_ok.mp h
  obtain rfl := Except.ok.inj h
  exact ⟨planned, _, planSiblings_mirrors hplanned, rfl, rfl, rfl, rfl, rfl⟩

theorem rootName_mem_classNames (options : Options) :
    options.rootName ∈ (classNames options).taken := by
  simp [classNames, NameRegistry.reserve]

/-- No other class has the name of the root class. -/
theorem SiblingPlan.Mirrors.nodup_names {planned : SiblingPlan} {root : Class}
    (h : planned.Mirrors (classNames options) siblings) (hroot : root.name = options.rootName) :
    ((planned.classes ++ [root]).map (·.name)).Nodup := by
  rw [List.map_append, List.nodup_append]
  refine ⟨h.names.nodup, List.nodup_singleton _, ?_⟩
  -- The name of the root class was taken before the first class was named.
  intro name hname other hother heq
  have hother : other = root.name := List.mem_singleton.mp hother
  rw [heq, hother, hroot] at hname
  exact h.names.free _ hname (rootName_mem_classNames options)

/-- Every plan for the reconciled forest of a working set mirrors the working set. -/
theorem plan_depicts (hforest : Forest.ofWorkingSet descriptors = .ok forest)
    (hplan : plan options forest = .ok classes) : Depicts classes descriptors := by
  obtain ⟨hsettled, hrep⟩ := Forest.settled_of_ofWorkingSet hforest
  obtain ⟨planned, root, hmade, rfl, hname, hroot, hoid, hmembers⟩ := exists_of_plan hplan
  have hsub : planned.classes ⊆ planned.classes ++ [root] := List.subset_append_left _ _
  -- A class is either made for a branch of the forest or the root class.
  have hcases : ∀ c ∈ planned.classes ++ [root],
      (∃ b, .branch b ∈ forest.items ∧ c.Mirrors planned.classes b) ∨ c = root := by
    intro c hc
    rcases List.mem_append.mp hc with hmem | hlast
    · exact .inl (hmade.exists_branch hmem)
    · exact .inr (List.mem_singleton.mp hlast)
  refine ⟨⟨planned.classes, root, rfl, hroot, hoid, ?_, ?_⟩, hmade.nodup_names hname, ?_, ?_, ?_⟩
  · intro c hc
    obtain ⟨b, -, hmirrors⟩ := hmade.exists_branch hc
    exact hmirrors.kind_ne_root
  · have hclasses : planned.classes.map (fun c => (c.oid, c.description)) =
        (Item.branchesOf forest.roots).map fun b => (some b.oid, b.description) := by
      rw [← List.forall₂_eq_eq_eq, List.forall₂_map_left_iff, List.forall₂_map_right_iff]
      exact hmade.classes.imp fun _ _ h => Prod.ext h.oid h.description
    rw [hclasses]
    exact map_branchesOf_perm hrep
  · intro c hc
    rcases hcases c hc with ⟨b, hb, hmirrors⟩ | rfl
    · rw [hmirrors.oid]
      refine exists_held (hmirrors.members.imp fun _ _ h => h.mono hsub) ?_
      exact (hsettled.members_perm hrep.nodup hb).trans (filter_holder?_perm hrep _)
    · rw [hoid, hmembers]
      refine exists_held (hmade.members.imp fun _ _ h => h.mono hsub) ?_
      exact (hsettled.roots_perm hrep.nodup).trans (filter_holder?_perm hrep _)
  · intro c hc hkind m hm
    rcases hcases c hc with ⟨b, hb, hmirrors⟩ | rfl
    · have hordered := (hsettled.wellNested.branch hb).ordered
      exact hmirrors.group hordered (hsettled.pinned b hb) hkind hm
    · rw [hroot] at hkind
      cases hkind
  · intro c hc hkind m hm
    rcases hcases c hc with ⟨b, hb, hmirrors⟩ | rfl
    · exact hmirrors.leaves (hsettled.wellNested.branch hb).ordered hkind hm
    · rw [hroot] at hkind
      cases hkind

/-- The plan for `Forest.columnFirst`. -/
def columnFirstPlan : List Class :=
  [{ name := "If", kind := .group, oid := some ⟨[1, 3]⟩, description := "",
      members := [⟨"if_entry", .child "IfEntry", ""⟩] },
    { name := "IfEntry", kind := .leaves, oid := some ⟨[1, 3, 2]⟩, description := "",
      members := [⟨"if_mtu", .leaf .readWrite ⟨[1, 3, 2, 1]⟩, ""⟩,
        ⟨"if_type", .leaf .readOnly ⟨[1, 3, 2, 3]⟩, ""⟩] },
    { name := "MibDriver", kind := .root, oid := none, description := "",
      members := [⟨"r#if", .child "If", ""⟩] }]

theorem plan_depicts_columnFirst : Depicts columnFirstPlan Forest.columnFirst := by
  have h : (Forest.ofWorkingSet Forest.columnFirst >>= plan {}) = .ok columnFirstPlan := by
    decide +kernel
  obtain ⟨forest, hforest, hplan⟩ := bind_eq_ok.mp h
  exact plan_depicts hforest hplan

end Driver

end MibDrivers
