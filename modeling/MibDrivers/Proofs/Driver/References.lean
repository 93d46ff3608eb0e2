import MibDrivers.Proofs.Driver.Layout

/-!
# Every reference of a plan resolves

The branches of a forest are numbered as they are visited, and the classes of a plan in their
order. The class of a branch has the number of the branch, the root class comes after all
others, and a member for a branch leads to the class with the number of this branch. Names tell
as much as numbers: no two classes have one name, each class but the root class is referred to
by one member of the plan, and each method of a class is found by its name.

## Main definitions

* `Driver.Leads` — members lead to what some siblings are, by their numbers
* `Driver.Resolves` — the references of a plan lead where they should

## Main results

* `Driver.Follows.leads`, `Driver.Follows.exists_leads` — the layout of a plan, by numbers
* `Driver.plan_resolves` — every plan resolves its references
-/

namespace MibDrivers

namespace Driver

/-! ### Numbers -/

/-- Classes and branches being numbered alike, the members lead to what the siblings are: for a
scalar to its value, for a branch to the class with its number. The number of the first branch
is `start`, and each branch comes after the one before it and all that is below that one. -/
inductive Leads (classes : List Class) (branches : List (Branch Item)) :
    Nat → List Member → List Item → Prop
  | nil {start : Nat} : Leads classes branches start [] []
  | scalar {start : Nat} {m : Member} {kind : LeafKind} {s : Scalar} {members : List Member}
      {siblings : List Item} (htarget : m.target = .leaf kind s.oid)
      (hrest : Leads classes branches start members siblings) :
      Leads classes branches start (m :: members) (.scalar s :: siblings)
  | branch {start : Nat} {m : Member} {c : Class} {b : Branch Item} {members : List Member}
      {siblings : List Item} (hbranch : branches[start]? = some b)
      (hclass : classes[start]? = some c) (htarget : m.target = .child c.name)
      (hrest : Leads classes branches (start + 1 + (Item.branchesOf b.children).length)
        members siblings) :
      Leads classes branches start (m :: members) (.branch b :: siblings)

section Window

variable {α : Type} {x : α} {xs ys whole : List α} {n : Nat}

theorem getElem?_of_prefix_drop (h : x :: xs <+: whole.drop n) : whole[n]? = some x := by
  obtain ⟨rest, hrest⟩ := h
  rw [← List.head?_drop, ← hrest]
  rfl

theorem prefix_drop_tail (h : x :: xs <+: whole.drop n) : xs <+: whole.drop (n + 1) := by
  obtain ⟨rest, hrest⟩ := h
  refine ⟨rest, ?_⟩
  rw [← List.tail_drop, ← hrest]
  rfl

theorem prefix_drop_right (h : xs ++ ys <+: whole.drop n) : ys <+: whole.drop (n + xs.length) := by
  obtain ⟨rest, hrest⟩ := h
  refine ⟨rest, ?_⟩
  rw [← List.drop_drop, ← hrest, List.append_assoc, List.drop_left]

end Window

variable {start : Nat} {members : List Member} {below classes : List Class}
  {branches : List (Branch Item)} {siblings : List Item} {b : Branch Item} {c : Class}

/-- Where the classes laid out for some siblings stand among all classes as the branches do
among all branches, the members lead to what the siblings are. -/
theorem Follows.leads (h : Follows members below siblings) (hclasses : below <+: classes.drop start)
    (hbranches : Item.branchesOf siblings <+: branches.drop start) :
    Leads classes branches start members siblings := by
  induction h generalizing start with
  | nil => exact .nil
  | scalar htarget _ ih =>
    rw [Item.branchesOf_cons_scalar] at hbranches
    exact .scalar htarget (ih hclasses hbranches)
  | branch htarget _ _ hbelow _ _ ihrest =>
    have hlength := hbelow.named.length_eq
    rw [Item.branchesOf_members] at hlength
    rw [Item.branchesOf_cons_branch] at hbranches
    rw [List.cons_append] at hclasses hbranches
    refine .branch (getElem?_of_prefix_drop hbranches) (getElem?_of_prefix_drop hclasses) htarget
      (ihrest ?_ ?_)
    -- As many classes as branches are passed before the later siblings.
    · rw [← hlength]
      exact prefix_drop_right (prefix_drop_tail hclasses)
    · exact prefix_drop_right (prefix_drop_tail hbranches)

/-- The class with the number of a branch has members that lead to what the branch holds. -/
theorem Follows.exists_leads (h : Follows members below siblings)
    (hclasses : below <+: classes.drop start)
    (hbranches : Item.branchesOf siblings <+: branches.drop start) {i : Nat}
    (hb : (Item.branchesOf siblings)[i]? = some b) :
    ∃ c, below[i]? = some c ∧ Leads classes branches (start + i + 1) c.members b.members := by
  induction h generalizing start i with
  | nil => simp [Item.branchesOf] at hb
  | scalar _ _ ih =>
    rw [Item.branchesOf_cons_scalar] at hbranches hb
    exact ih hclasses hbranches hb
  | @branch m own head _ inner outer rest _ _ _ hbelow _ ihbelow ihrest =>
    have hlength := hbelow.named.length_eq
    rw [Item.branchesOf_cons_branch, ← Item.branchesOf_members] at hbranches hb
    rw [List.cons_append] at hclasses hbranches hb
    have hinner := (List.prefix_append _ _).trans (prefix_drop_tail hclasses)
    have hmembers := (List.prefix_append _ _).trans (prefix_drop_tail hbranches)
    rw [List.cons_append]
    cases i with
    | zero =>
      obtain rfl := Option.some.inj hb
      exact ⟨own, rfl, hbelow.leads hinner hmembers⟩
    | succ i =>
      rw [List.getElem?_cons_succ] at hb ⊢
      -- The branch is either below the first sibling or among the later ones and below them.
      rcases lt_or_ge i inner.length with hlt | hge
      · rw [List.getElem?_append_left (hlength ▸ hlt)] at hb
        rw [List.getElem?_append_left hlt]
        obtain ⟨c, hc, hleads⟩ := ihbelow hinner hmembers hb
        refine ⟨c, hc, ?_⟩
        rwa [Nat.add_right_comm start 1 i] at hleads
      · rw [List.getElem?_append_right (hlength ▸ hge), ← hlength] at hb
        rw [List.getElem?_append_right hge]
        have houter := prefix_drop_right (prefix_drop_tail hclasses)
        have hlater := prefix_drop_right (prefix_drop_tail hbranches)
        rw [← hlength] at hlater
        obtain ⟨c, hc, hleads⟩ := ihrest houter hlater hb
        refine ⟨c, hc, ?_⟩
        have hnumber : start + 1 + inner.length + (i - inner.length) + 1 = start + (i + 1) + 1 := by
          omega
        rwa [hnumber] at hleads

/-! ### Whole plans -/

/-- The references of a plan lead where they should. -/
structure Resolves (options : Options) (forest : Forest) (classes : List Class) : Prop where
  /-- Each branch has a class, and there is one more. -/
  length : classes.length = forest.branches.length + 1
  /-- The class with the number of a branch stands for this branch, and its members lead to
  what the branch holds. -/
  below : ∀ i b, forest.branches[i]? = some b → ∃ c, classes[i]? = some c ∧
    c.Mirrors classes b ∧ Leads classes forest.branches (i + 1) c.members b.members
  /-- The last class is the root class, and its members lead to the top-level items. -/
  root : ∃ c, classes.getLast? = some c ∧ c.kind = .root ∧ c.name = options.rootName ∧
    c.oid = none ∧ Leads classes forest.branches 0 c.members forest.roots
  distinct : ((classes.filter (·.kind ≠ .root)).map (·.name)).Nodup
  free : ∀ c ∈ classes, c.kind ≠ .root → c.name ∉ options.rootName :: runtimeTypes
  /-- What a member leads to is the name of one class. -/
  resolved : ∀ name ∈ classes.flatMap fun c => references c.members,
    (classes.map (·.name)).count name = 1
  /-- Each class but the root class is what one member leads to. -/
  reached : ∀ c ∈ classes, c.kind ≠ .root →
    (classes.flatMap fun d => references d.members).count c.name = 1
  callable : ∀ c ∈ classes, c.Callable

variable {options : Options} {forest : Forest} {names methods : NameRegistry}
  {planned : SiblingPlan} {root : Class}

/-- A plan for siblings has a class with the number of each branch. -/
theorem SiblingPlan.Mirrors.exists_getElem? (h : planned.Mirrors names siblings) {i : Nat}
    (hc : planned.classes[i]? = some c) (hb : (Item.branchesOf siblings)[i]? = some b) :
    c.Mirrors planned.classes b := by
  obtain ⟨hi, rfl⟩ := List.getElem?_eq_some_iff.mp hc
  obtain ⟨hj, rfl⟩ := List.getElem?_eq_some_iff.mp hb
  exact h.classes.get hi hj

/-- A plan refers once to each class but the root class. -/
theorem SiblingPlan.Laid.references_perm (h : planned.Laid methods siblings)
    (hroot : root.members = planned.members) :
    ((planned.classes ++ [root]).flatMap fun c => references c.members).Perm
      (planned.classes.map (·.name)) := by
  rw [List.flatMap_append, List.flatMap_singleton, hroot]
  exact List.perm_append_comm.trans h.follows.references_perm

/-- Every plan resolves its references. -/
theorem plan_resolves (h : plan options forest = .ok classes) :
    Resolves options forest classes := by
  obtain ⟨planned, root, hlaid, hmade, rfl, hname, hkind, hoid, hmembers⟩ := exists_laid_of_plan h
  have hclasses : planned.classes <+: (planned.classes ++ [root]).drop 0 :=
    List.prefix_append _ _
  have hbranches : Item.branchesOf forest.roots <+: forest.branches.drop 0 := by
    rw [forest.branches_eq]
    exact List.prefix_rfl
  have hreferences := hlaid.references_perm hmembers
  have hnodup := hmade.nodup_names hname
  constructor
  case length =>
    rw [List.length_append, forest.branches_eq, ← hmade.classes.length_eq]
    rfl
  case below =>
    intro i b hb
    rw [forest.branches_eq] at hb
    obtain ⟨c, hc, hleads⟩ := hlaid.follows.exists_leads hclasses hbranches hb
    have hi := (List.getElem?_eq_some_iff.mp hc).1
    refine ⟨c, by rwa [List.getElem?_append_left hi], ?_, by rwa [Nat.zero_add] at hleads⟩
    exact (hmade.exists_getElem? hc hb).mono (List.subset_append_left _ _)
  case root =>
    refine ⟨root, List.getLast?_concat, hkind, hname, hoid, ?_⟩
    rw [hmembers]
    exact hlaid.follows.leads hclasses hbranches
  case distinct =>
    rw [hmade.filter_kind hkind]
    exact hmade.names.nodup
  case free =>
    intro c hc hne
    rw [← taken_classNames]
    have hbelow := (hmade.mem_classes_iff hkind).mpr ⟨hc, hne⟩
    exact hmade.names.free c.name (List.mem_map_of_mem hbelow)
  case resolved =>
    intro name hreferred
    refine List.count_eq_one_of_mem hnodup ?_
    rw [List.map_append]
    exact List.mem_append_left _ (hreferences.mem_iff.mp hreferred)
  case reached =>
    intro c hc hne
    rw [hreferences.count_eq]
    have hbelow := (hmade.mem_classes_iff hkind).mpr ⟨hc, hne⟩
    exact List.count_eq_one_of_mem hmade.names.nodup (List.mem_map_of_mem hbelow)
  case callable =>
    intro c hc
    rcases List.mem_append.mp hc with hmem | hlast
    · exact hlaid.follows.callable c hmem
    · obtain rfl := List.mem_singleton.mp hlast
      obtain ⟨after, hmethods⟩ := hlaid.methods
      rw [← hmembers] at hmethods
      exact Class.callable_of_handsOut hmethods

/-- A forest that is not reconciled, with a name that is the variant of another one. -/
def echoing : Forest where
  roots := [
    .branch {
      name := "stats1", oid := ⟨[1, 1]⟩
      leaves := [
        { name := "new", oid := ⟨[1, 1, 5]⟩, access := .readOnly },
        { name := "new-", oid := ⟨[1, 1, 6]⟩, access := .readWrite }]
      children := [.branch { name := "stats", oid := ⟨[1, 1, 2]⟩ }] },
    .scalar { name := "type", oid := ⟨[1, 3]⟩, access := .readOnly },
    .branch { name := "stats", oid := ⟨[1, 2]⟩ }]

/-- The plan for `echoing`. -/
def echoingPlan : List Class :=
  [{ name := "Stats1", kind := .group, oid := some ⟨[1, 1]⟩, description := "",
      members := [⟨"new_", .leaf .readOnly ⟨[1, 1, 5]⟩, ""⟩,
        ⟨"new_1", .leaf .readWrite ⟨[1, 1, 6]⟩, ""⟩, ⟨"stats", .child "Stats", ""⟩] },
    { name := "Stats", kind := .leaves, oid := some ⟨[1, 1, 2]⟩, description := "",
      members := [] },
    { name := "Stats2", kind := .leaves, oid := some ⟨[1, 2]⟩, description := "",
      members := [] },
    { name := "MibDriver", kind := .root, oid := none, description := "",
      members := [⟨"stats1", .child "Stats1", ""⟩, ⟨"r#type", .leaf .readOnly ⟨[1, 3]⟩, ""⟩,
        ⟨"stats", .child "Stats2", ""⟩] }]

theorem plan_resolves_echoing :
    plan {} echoing = .ok echoingPlan ∧ Resolves {} echoing echoingPlan := by
  have h : plan {} echoing = .ok echoingPlan := by decide +kernel
  exact ⟨h, plan_resolves h⟩

end Driver

end MibDrivers
