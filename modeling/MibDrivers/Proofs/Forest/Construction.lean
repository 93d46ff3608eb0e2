import MibDrivers.Proofs.Forest.Arrival
import MibDrivers.Proofs.Forest.Canonical

/-!
# The forest that is built

Building depends on the order of the descriptors: a scalar goes to the branch that is at the
top level when it comes, and stays with it even if deeper branches follow, and a branch that
comes late takes the place of the first item that it adopts. What comes of it can still be
said without the insertions. Each node has an owner that follows from the list, and siblings
stand in the order of their arrival. No other forest of the same nodes is like that.

## Main definitions

* `WorkingSet.owner?` — the branch that holds an object once the working set is built
* `Forest.Conforms` — owners and orders are as the working set has them

## Main results

* `Item.Inserted.leaf_cases` — where the leaves lie after an insertion
* `Forest.build_induction` — what every insertion of a build keeps, holds at its end
* `Forest.build_conforms` — the forest that is built conforms to the working set, and it is
  the only one that does
-/

namespace MibDrivers

/-! ### Owners -/

namespace WorkingSet

variable {descriptors : List Descriptor} {d e : Descriptor} {owner oid : Oid}

/-- The branch that holds an object once the working set is built. It is the deepest branch
above a branch. Above a scalar it is the shallowest of the branches that come before the
scalar, or else the one that comes first. -/
def owner? (descriptors : List Descriptor) (d : Descriptor) : Option Oid :=
  match d.kind with
  | .branch => holder? descriptors d.oid
  | .scalar =>
    let before := descriptors.takeWhile (·.oid ≠ d.oid)
    (Oid.shallowest? (branchOids before) d.oid).or
      ((branchOids descriptors).find? (·.isAncestorOf d.oid))

theorem owner?_of_branch (h : d.kind = .branch) :
    owner? descriptors d = holder? descriptors d.oid := by
  rw [owner?, h]

theorem owner?_of_scalar (h : d.kind = .scalar) :
    owner? descriptors d =
      (Oid.shallowest? (branchOids (descriptors.takeWhile (·.oid ≠ d.oid))) d.oid).or
        ((branchOids descriptors).find? (·.isAncestorOf d.oid)) := by
  rw [owner?, h]

/-- An object below no branch has no owner. -/
theorem owner?_of_holder?_eq_none (h : holder? descriptors d.oid = none) :
    owner? descriptors d = none := by
  cases hkind : d.kind with
  | branch => rw [owner?_of_branch hkind, h]
  | scalar =>
    have hnone : ∀ o ∈ branchOids descriptors, ¬ o < d.oid := Oid.deepest?_eq_none_iff.mp h
    have hsub : branchOids (descriptors.takeWhile (·.oid ≠ d.oid)) ⊆ branchOids descriptors :=
      (((List.takeWhile_sublist _).filter _).map _).subset
    rw [owner?_of_scalar hkind, Oid.shallowest?_eq_none_iff.mpr fun o ho => hnone o (hsub ho),
      Option.none_or, List.find?_eq_none]
    intro o ho
    simpa using hnone o ho

/-- What comes before an object is settled when the object comes. -/
theorem takeWhile_concat_of_mem (h : ∃ e ∈ descriptors, e.oid = oid) :
    (descriptors ++ [d]).takeWhile (·.oid ≠ oid) = descriptors.takeWhile (·.oid ≠ oid) := by
  rw [List.takeWhile_append, if_neg]
  intro hlength
  obtain ⟨e, he, heq⟩ := h
  have hall := (List.takeWhile_sublist _).eq_of_length hlength
  rw [List.takeWhile_eq_self_iff] at hall
  simpa [heq] using hall e he

/-- A later object leaves the owner of a scalar as it is, apart from a branch above a scalar
that had none. -/
theorem owner?_concat_of_mem (hscalar : e.kind = .scalar)
    (hmem : ∃ f ∈ descriptors, f.oid = e.oid) :
    owner? (descriptors ++ [d]) e =
      (owner? descriptors e).or ((branchOids [d]).find? (·.isAncestorOf e.oid)) := by
  rw [owner?_of_scalar hscalar, owner?_of_scalar hscalar, takeWhile_concat_of_mem hmem,
    branchOids_append, List.find?_append, Option.or_assoc]

/-- A scalar that comes last belongs to the shallowest branch above it. -/
theorem owner?_concat_self (hscalar : d.kind = .scalar)
    (hnew : ∀ e ∈ descriptors, e.oid ≠ d.oid)
    (howner : Oid.shallowest? (branchOids descriptors) d.oid = some owner) :
    owner? (descriptors ++ [d]) d = some owner := by
  have hbefore : (descriptors ++ [d]).takeWhile (·.oid ≠ d.oid) = descriptors := by
    rw [List.takeWhile_append_of_pos (by simpa using hnew),
      List.takeWhile_cons_of_neg (by simp), List.append_nil]
  rw [owner?_of_scalar hscalar, hbefore, howner, Option.some_or]

theorem owner?_kept : owner? descriptors d.kept = owner? descriptors d := by
  simp [owner?]

end WorkingSet

/-! ### Leaves after an insertion -/

namespace Item

variable {item x y z : Item} {siblings before after : List Item} {b : Branch Item} {s : Scalar}

/-- After an insertion, a leaf lies in the branch in which it was, or it is the item and lies
in a branch among the siblings, or the item is a branch and has adopted it from them. -/
theorem Inserted.leaf_cases (h : Inserted item siblings after) (hnested : Nested siblings)
    (hbare : item.Bare) (hb : .branch b ∈ subitemsOf after) (hs : s ∈ b.leaves) :
    (∃ c, .branch c ∈ subitemsOf siblings ∧ c.oid = b.oid ∧ s ∈ c.leaves) ∨
      (item = .scalar s ∧ ∃ c, .branch c ∈ siblings ∧ c.oid = b.oid ∧ c.oid < s.oid) ∨
      ∃ c, item = .branch c ∧ c.oid = b.oid ∧ c.oid < s.oid ∧ .scalar s ∈ siblings := by
  induction h with
  | joined siblings =>
    rw [subitemsOf_append, subitemsOf_cons, subitemsOf_nil, List.append_nil] at hb
    rcases List.mem_append.mp hb with hold | hself
    · exact .inl ⟨b, hold, rfl, hs⟩
    · rw [hbare.leaves hself] at hs
      cases hs
  | @leaf before after p t hitem hlt =>
    have hp : .branch p ∈ before ++ .branch p :: after := List.mem_append_cons_self
    rcases mem_subitemsOf_replace (z := .branch p) hb with hnew | hold
    -- The branch `p` has one leaf more, and all below it is as it was.
    · rcases mem_subitems_branch.mp hnew with heq | hbelow
      · obtain rfl := Item.branch.inj heq
        rcases List.mem_append.mp hs with hmem | hself
        · exact .inl ⟨p, mem_subitemsOf_of_mem hp, rfl, hmem⟩
        · rw [List.mem_singleton.mp hself]
          exact .inr (.inl ⟨hitem, p, hp, rfl, hlt⟩)
      · have hchild := branch_mem_subitemsOf_members.mp hbelow
        exact .inl ⟨b, mem_subitemsOf_of_children hp hchild, rfl, hs⟩
    · exact .inl ⟨b, hold, rfl, hs⟩
  | @passed before after children p c hitem _ ih =>
    have hp : .branch p ∈ before ++ .branch p :: after := List.mem_append_cons_self
    have hordered := (hnested.each _ hp).ordered
    rcases mem_subitemsOf_replace (z := .branch p) hb with hnew | hold
    -- The branch `p` has the leaves that it had, and the insertion goes on among its children.
    · rcases mem_subitems_branch.mp hnew with heq | hbelow
      · obtain rfl := Item.branch.inj heq
        exact .inl ⟨p, mem_subitemsOf_of_mem hp, rfl, hs⟩
      · have hchild := branch_mem_subitemsOf_members.mp hbelow
        rcases ih (hnested.each _ hp).children hchild with
          ⟨e, he, hrest⟩ | ⟨hscalar, -⟩ | ⟨e, -, -, -, hmem⟩
        · exact .inl ⟨e, mem_subitemsOf_of_children hp he, hrest⟩
        · rw [hitem] at hscalar
          cases hscalar
        -- Only branches are children, so no leaf is adopted from them.
        · obtain ⟨e, he⟩ := hordered.branches _ hmem
          cases he
    · exact .inl ⟨b, hold, rfl, hs⟩
  | @adopted before after first c hitem hfirst =>
    subst hitem
    have hsub : (first :: contained c.oid after).Sublist (before ++ first :: after) :=
      adopted_sublist
    have hstay : (before ++ first :: remaining c.oid after).Sublist (before ++ first :: after) :=
      staying_sublist
    -- The branch holds what it gathers, and nothing else.
    have hmembers := Branch.members_gather_perm (b := c) (first :: contained c.oid after)
    rw [hbare c rfl, List.nil_append] at hmembers
    rcases mem_subitemsOf_replace (z := first) hb with hnew | hold
    · rcases mem_subitems_branch.mp hnew with heq | hbelow
      · obtain rfl := Item.branch.inj heq
        have hmem := hmembers.mem_iff.mp (Branch.scalar_mem_members hs)
        exact .inr (.inr ⟨c, rfl, rfl, lt_of_mem_adopted hfirst hmem, hsub.subset hmem⟩)
      · obtain ⟨m, hm, hmem⟩ := mem_subitemsOf.mp hbelow
        have hm := hsub.subset (hmembers.mem_iff.mp hm)
        exact .inl ⟨b, mem_subitemsOf.mpr ⟨m, hm, hmem⟩, rfl, hs⟩
    · exact .inl ⟨b, (subitemsOf_sublist hstay).subset hold, rfl, hs⟩

end Item

/-! ### Building step by step -/

namespace Forest

open WorkingSet

variable {forest other : Forest} {descriptors : List Descriptor} {d : Descriptor}
variable {x : Item} {b : Branch Item} {s : Scalar}

theorem buildFrom_append (earlier first rest : List Descriptor) (forest : Forest) :
    buildFrom earlier forest (first ++ rest) =
      (buildFrom earlier forest first).bind fun next =>
        buildFrom (first.reverse ++ earlier) next rest := by
  induction first generalizing earlier forest with
  | nil => rfl
  | cons d others ih =>
    simp only [List.cons_append, buildFrom]
    cases earlier.find? (·.oid = d.oid) with
    | some first => rfl
    | none =>
      cases (forest.insert (.ofDescriptor d)).toExcept with
      | error error => rfl
      | ok next => simpa [bind, Except.bind] using ih (d :: earlier) next

/-- A build ends with the insertion of the last object. -/
theorem build_concat (h : build (descriptors ++ [d]) = .ok forest) :
    ∃ previous, build descriptors = .ok previous ∧
      (previous.insert (.ofDescriptor d)).error? = none ∧
      (previous.insert (.ofDescriptor d)).after = forest := by
  rw [build, buildFrom_append] at h
  cases hprevious : buildFrom [] empty descriptors with
  | error error =>
    rw [hprevious] at h
    cases h
  | ok previous =>
    rw [hprevious] at h
    refine ⟨previous, hprevious, ?_⟩
    simp only [Except.bind, buildFrom, Outcome.toExcept] at h
    split at h
    · cases h
    · cases herror : (previous.insert (.ofDescriptor d)).error? with
      | some error => simp [herror, bind, Except.bind] at h
      | none => exact ⟨rfl, by simpa [herror, bind, Except.bind] using h⟩

/-- What holds of the forest without nodes, and is kept by the insertion of a new object into
a forest that represents the objects before it, holds of the forest that is built. -/
theorem build_induction {motive : List Descriptor → Forest → Prop} (nil : motive [] empty)
    (concat : ∀ descriptors d forest after, forest.Represents descriptors →
      (∀ e ∈ descriptors, e.oid ≠ d.oid) →
      Item.Inserted (.ofDescriptor d) forest.roots after → motive descriptors forest →
        motive (descriptors ++ [d]) ⟨after⟩)
    (h : build descriptors = .ok forest) : motive descriptors forest := by
  induction descriptors using List.reverseRecOn generalizing forest with
  | nil => exact Except.ok.inj h ▸ nil
  | append_singleton before d ih =>
    obtain ⟨previous, hprevious, hok, rfl⟩ := build_concat h
    have hrep := represents_of_build hprevious
    have hlegal := (represents_of_build h).legal.perm (List.perm_append_singleton _ _)
    refine concat before d previous _ hrep ?_ ?_ (ih hprevious)
    · intro e he
      exact ((legal_cons.mp hlegal).2 e he).1
    · exact hrep.wellNested.inserted (Item.bare_ofDescriptor d) hok

/-- What is built stands in the order of its arrival. -/
theorem inTurn_of_build (h : build descriptors = .ok forest) :
    Item.InTurn descriptors forest.roots := by
  refine build_induction (motive := fun descriptors forest => Item.InTurn descriptors forest.roots)
    .nil ?_ h
  intro descriptors d forest after hrep hnew hinserted hturn
  exact hinserted.inTurn (Item.bare_ofDescriptor d) (Item.descriptors_ofDescriptor d)
    (Descriptor.kept_not_mem hnew) hrep.nodes.subset hturn

/-! ### Leaves and their owners -/

theorem Represents.mem_branchOids (h : forest.Represents descriptors) {oid : Oid} :
    oid ∈ branchOids descriptors ↔ ∃ b, .branch b ∈ forest.items ∧ b.oid = oid := by
  rw [← branchOids_kept, WorkingSet.mem_branchOids, ← exists_branch_descriptor (P := (· = oid))]
  simp only [h.nodes.mem_iff]

/-- A top-level branch above an identifier is the shallowest one above it. -/
theorem Represents.shallowest?_root (h : forest.Represents descriptors) {oid : Oid}
    (hb : .branch b ∈ forest.roots) (hlt : b.oid < oid) :
    Oid.shallowest? (branchOids descriptors) oid = some b.oid := by
  refine Oid.shallowest?_eq_some (h.mem_branchOids.mpr ⟨b, ?_, rfl⟩) hlt ?_
  · exact Item.mem_subitemsOf_of_mem hb
  · intro o ho hoid
    obtain ⟨c, hc, rfl⟩ := h.mem_branchOids.mp ho
    obtain ⟨root, hroot, hle⟩ := h.wellNested.exists_le hc
    -- The top-level item above the other branch is above the identifier too.
    obtain rfl : root = .branch b :=
      h.wellNested.eq_of_le hroot hb (hle.trans hoid.le) hlt.le
    exact hle

/-- All leaves lie in the branches that own them. -/
def LeavesOwned (descriptors : List Descriptor) (forest : Forest) : Prop :=
  ∀ b, .branch b ∈ forest.items → ∀ s ∈ b.leaves,
    owner? descriptors (Item.scalar s).descriptor = some b.oid

/-- The insertion of the last object leaves all leaves in the branches that own them. -/
theorem LeavesOwned.concat {after : List Item} (h : LeavesOwned descriptors forest)
    (hrep : forest.Represents descriptors) (hnew : ∀ e ∈ descriptors, e.oid ≠ d.oid)
    (hinserted : Item.Inserted (.ofDescriptor d) forest.roots after) :
    LeavesOwned (descriptors ++ [d]) ⟨after⟩ := by
  intro b hb s hs
  rcases hinserted.leaf_cases hrep.wellNested (Item.bare_ofDescriptor d) hb hs with
    ⟨c, hc, hoid, hleaf⟩ | ⟨hitem, c, hc, hoid, hlt⟩ | ⟨c, hitem, hoid, hlt, hroot⟩
  · have hmem := (members_sublist hc).subset (Branch.scalar_mem_members hleaf)
    rw [owner?_concat_of_mem rfl (hrep.exists_oid hmem), h c hc s hleaf, Option.some_or, hoid]
  -- The scalar is the new object, and it goes to the top-level branch above it.
  · obtain ⟨hkind, hd⟩ := Item.eq_of_ofDescriptor_scalar hitem
    rw [← hitem, ← Descriptor.kept, owner?_kept, ← hoid]
    exact owner?_concat_self hkind hnew (hrep.shallowest?_root hc (hd ▸ hlt))
  -- The scalar had no owner before the new branch came.
  · obtain ⟨hkind, hd⟩ := Item.eq_of_ofDescriptor_branch hitem
    have hnone : owner? descriptors (Item.scalar s).descriptor = none := by
      refine owner?_of_holder?_eq_none ?_
      rw [← hrep.holder?_eq]
      exact hrep.wellNested.holder?_root hroot
    have hmem := Item.mem_subitemsOf_of_mem hroot
    have hbranch : branchOids [d] = [b.oid] := by simp [branchOids, hkind, hd, hoid]
    rw [owner?_concat_of_mem rfl (hrep.exists_oid hmem), hnone, Option.none_or, hbranch,
      List.find?_cons_of_pos]
    exact Oid.isAncestorOf_iff.mpr (hoid ▸ hlt)

/-- The leaves of what is built lie in the branches that own them. -/
theorem leavesOwned_of_build (h : build descriptors = .ok forest) :
    LeavesOwned descriptors forest := by
  refine build_induction (motive := LeavesOwned) (fun b hb => by cases hb) ?_ h
  intro descriptors d forest after hrep hnew hinserted howned
  exact howned.concat hrep hnew hinserted

/-! ### The only forest -/

/-- The forest has the objects of the working set as its nodes, each node lies in the branch
that owns it, and siblings stand in the order of their arrival. -/
structure Conforms (forest : Forest) (descriptors : List Descriptor) : Prop where
  nodes : forest.descriptors.Perm (descriptors.map Descriptor.kept)
  branches : ∀ b, .branch b ∈ forest.items → ∀ x ∈ b.children, ∃ c, x = .branch c
  top : ∀ x ∈ forest.roots, owner? descriptors x.descriptor = none
  held : ∀ b, .branch b ∈ forest.items → ∀ x ∈ b.members,
    owner? descriptors x.descriptor = some b.oid
  inTurn : Item.InTurn descriptors forest.roots

/-- What is built conforms to the working set. -/
theorem conforms_of_build (h : build descriptors = .ok forest) : forest.Conforms descriptors := by
  have hrep := represents_of_build h
  have hwn := hrep.wellNested
  refine ⟨hrep.nodes, fun b hb => (hwn.branch hb).ordered.branches, ?_, ?_, inTurn_of_build h⟩
  · intro x hx
    refine owner?_of_holder?_eq_none ?_
    rw [← hrep.holder?_eq, Item.oid_descriptor]
    exact hwn.holder?_root hx
  · intro b hb x hx
    rcases Branch.mem_members.mp hx with ⟨s, hs, rfl⟩ | hchild
    · exact leavesOwned_of_build h b hb s hs
    · have hordered := (hwn.branch hb).ordered
      obtain ⟨c, rfl⟩ := hordered.branches x hchild
      rw [owner?_of_branch rfl, ← hrep.holder?_eq]
      refine (hwn.holder?_eq_some_iff hb).mpr ⟨hordered.above _ hx, fun e he hlt => ?_⟩
      -- A child above `c` is `c` itself.
      have heq := (hwn.branch hb).children.eq_of_le he hchild hlt.le le_rfl
      exact lt_irrefl _ (hlt.trans_eq (congrArg Item.oid heq).symm)

/-- The top-level items of a conforming forest are those without an owner. -/
theorem Conforms.mem_roots_iff (h : forest.Conforms descriptors) :
    x ∈ forest.roots ↔ x ∈ forest.items ∧ owner? descriptors x.descriptor = none := by
  constructor
  · intro hx
    exact ⟨Item.mem_subitemsOf_of_mem hx, h.top x hx⟩
  · rintro ⟨hx, howner⟩
    rcases mem_items_cases hx with hroot | ⟨c, hc, hmem⟩
    · exact hroot
    · rw [h.held c hc x hmem] at howner
      cases howner

/-- Conforming forests have items for the same nodes. -/
theorem Conforms.exists_item (h : forest.Conforms descriptors) (hother : other.Conforms descriptors)
    (hx : x ∈ forest.items) : ∃ y ∈ other.items, y.descriptor = x.descriptor := by
  have hperm := h.nodes.trans hother.nodes.symm
  exact mem_descriptors.mp (hperm.mem_iff.mp (mem_descriptors.mpr ⟨x, hx, rfl⟩))

theorem Conforms.chronological (h : forest.Conforms descriptors) (hb : .branch b ∈ forest.items) :
    b.Chronological descriptors := by
  obtain ⟨root, hroot, hmem⟩ := Item.mem_subitemsOf.mp hb
  exact h.inTurn.each root hroot b hmem

/-- Branches of conforming forests that say the same about themselves and hold the same items
are the same. -/
theorem Conforms.branch_eq {c : Branch Item} (h : forest.Conforms descriptors)
    (hother : other.Conforms descriptors) (hb : .branch b ∈ forest.items)
    (hc : .branch c ∈ other.items)
    (heq : (Item.branch b).descriptor = (Item.branch c).descriptor)
    (hmembers : ∀ x, x ∈ b.members ↔ x ∈ c.members) : Item.branch b = .branch c := by
  have hinjective := List.map_injective_iff.mpr Item.scalar_injective
  have hb_order := h.chronological hb
  have hc_order := hother.chronological hc
  refine Item.branch_eq_of_descriptor heq (hinjective ?_) ?_
  · refine Item.eq_of_arrival hb_order.leaves hc_order.leaves fun x => ?_
    rw [Branch.mem_leaves_iff (h.branches b hb), Branch.mem_leaves_iff (hother.branches c hc),
      hmembers]
  · refine Item.eq_of_arrival hb_order.children hc_order.children fun x => ?_
    rw [Branch.mem_children_iff (h.branches b hb), Branch.mem_children_iff (hother.branches c hc),
      hmembers]

section Unique

variable (hdistinct : (descriptors.map (·.oid)).Nodup)
include hdistinct

/-- Two items of a conforming forest with one identifier are the same. -/
theorem Conforms.eq_of_oid (h : forest.Conforms descriptors) {y : Item} (hx : x ∈ forest.items)
    (hy : y ∈ forest.items) (heq : x.oid = y.oid) : x = y := by
  have hnodup : (forest.items.map Item.oid).Nodup := by
    have hperm := h.nodes.map Descriptor.oid
    rw [descriptors_eq, List.map_map, List.map_map] at hperm
    simp only [Function.comp_def, Item.oid_descriptor, Descriptor.oid_kept] at hperm
    exact hperm.nodup_iff.mpr hdistinct
  exact List.inj_on_of_nodup_map hnodup hx hy heq

/-- A branch of a conforming forest holds the items that it owns. -/
theorem Conforms.mem_members_iff (h : forest.Conforms descriptors) (hb : .branch b ∈ forest.items) :
    x ∈ b.members ↔ x ∈ forest.items ∧ owner? descriptors x.descriptor = some b.oid := by
  constructor
  · intro hx
    exact ⟨(members_sublist hb).subset hx, h.held b hb x hx⟩
  · rintro ⟨hx, howner⟩
    rcases mem_items_cases hx with hroot | ⟨c, hc, hmem⟩
    · rw [h.top x hroot] at howner
      cases howner
    · rw [h.held c hc x hmem] at howner
      have heq := h.eq_of_oid hdistinct hc hb (Option.some.inj howner)
      exact Item.branch.inj heq ▸ hmem

/-- Items of conforming forests for one node are the same. -/
theorem Conforms.item_eq (h : forest.Conforms descriptors) (hother : other.Conforms descriptors)
    {y : Item} (hx : x ∈ forest.items) (hy : y ∈ other.items)
    (heq : x.descriptor = y.descriptor) : x = y := by
  induction x using Item.inductMembers generalizing y with
  | scalar s => exact (Item.eq_scalar_of_descriptor heq.symm).symm
  | branch b ih =>
    obtain ⟨c, rfl⟩ : ∃ c, y = .branch c := by
      rw [← Item.kind_descriptor_eq_branch, ← heq]
      rfl
    have hoid : b.oid = c.oid := congrArg Descriptor.oid heq
    have hitems : ∀ z ∈ b.members, z ∈ forest.items := fun z hz => (members_sublist hx).subset hz
    -- What one branch holds is the same item in the other forest, with the same owner.
    have hmembers : ∀ z, z ∈ b.members ↔ z ∈ c.members := by
      intro z
      constructor
      · intro hz
        obtain ⟨w, hw, hzw⟩ := h.exists_item hother (hitems z hz)
        obtain rfl : z = w := ih z hz (hitems z hz) hw hzw.symm
        exact (hother.mem_members_iff hdistinct hy).mpr ⟨hw, hoid ▸ h.held b hx z hz⟩
      · intro hz
        obtain ⟨w, hw, hzw⟩ := hother.exists_item h ((members_sublist hy).subset hz)
        have howner : owner? descriptors w.descriptor = some b.oid := by
          rw [hzw, hoid]
          exact hother.held c hy z hz
        have hwb : w ∈ b.members := (h.mem_members_iff hdistinct hx).mpr ⟨hw, howner⟩
        obtain rfl : w = z := ih w hwb hw ((members_sublist hy).subset hz) hzw
        exact hwb
    exact h.branch_eq hother hx hy heq hmembers

/-- Only one forest conforms to a working set with distinct identifiers. -/
theorem Conforms.unique (h : forest.Conforms descriptors) (hother : other.Conforms descriptors) :
    other = forest := by
  have hitems : ∀ x, x ∈ other.items ↔ x ∈ forest.items := by
    intro x
    constructor
    · intro hx
      obtain ⟨y, hy, heq⟩ := hother.exists_item h hx
      exact hother.item_eq hdistinct h hx hy heq.symm ▸ hy
    · intro hx
      obtain ⟨y, hy, heq⟩ := h.exists_item hother hx
      exact h.item_eq hdistinct hother hx hy heq.symm ▸ hy
  have hroots : other.roots = forest.roots := by
    refine Item.eq_of_arrival hother.inTurn.order h.inTurn.order fun x => ?_
    rw [hother.mem_roots_iff, h.mem_roots_iff, hitems]
  exact congrArg Forest.mk hroots

end Unique

/-- What is built from a working set has each branch in the deepest branch above it, each
scalar in the branch that owns it, and all siblings in the order of their arrival. It is the
only forest of the working set that has. -/
theorem build_conforms (h : build descriptors = .ok forest) :
    forest.Conforms descriptors ∧ ∀ other, Conforms other descriptors → other = forest := by
  have hconforms := conforms_of_build h
  refine ⟨hconforms, fun other hother => ?_⟩
  exact hconforms.unique (represents_of_build h).legal.distinct hother

/-- A table that comes after its entry and after the branch around both, with columns that
come before, between and after these. -/
def enclosed : List Descriptor :=
  [{ name := "ifMtu", kind := .scalar, oid := ⟨[1, 3, 2, 1]⟩ },
    { name := "ifEntry", kind := .branch, oid := ⟨[1, 3, 2]⟩ },
    { name := "ifGroup", kind := .branch, oid := ⟨[1, 2]⟩ },
    { name := "ifType", kind := .scalar, oid := ⟨[1, 3, 2, 3]⟩ },
    { name := "if", kind := .branch, oid := ⟨[1]⟩ },
    { name := "ifSpeed", kind := .scalar, oid := ⟨[1, 3, 2, 5]⟩ },
    { name := "ifTable", kind := .branch, oid := ⟨[1, 3]⟩ }]

/-- The table in the place of its entry, and the last column on the branch around them. -/
def enclosing : Forest :=
  let columns : List Scalar :=
    [{ name := "ifMtu", oid := ⟨[1, 3, 2, 1]⟩ }, { name := "ifType", oid := ⟨[1, 3, 2, 3]⟩ }]
  let entry : Branch Item := { name := "ifEntry", oid := ⟨[1, 3, 2]⟩, leaves := columns }
  let table : Branch Item := { name := "ifTable", oid := ⟨[1, 3]⟩, children := [.branch entry] }
  let group : Branch Item := { name := "ifGroup", oid := ⟨[1, 2]⟩ }
  ⟨[.branch
    { name := "if", oid := ⟨[1]⟩
      leaves := [{ name := "ifSpeed", oid := ⟨[1, 3, 2, 5]⟩ }]
      children := [.branch table, .branch group] }]⟩

theorem build_conforms_enclosed :
    build enclosed = .ok enclosing ∧ enclosing.Conforms enclosed ∧
      ∀ other, Conforms other enclosed → other = enclosing :=
  ⟨rfl, build_conforms rfl⟩

end Forest

end MibDrivers
