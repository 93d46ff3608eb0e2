import MibDrivers.Proofs.Driver.Layout
import MibDrivers.Proofs.Naming.Collision

/-!
# The methods of a class

The methods of a class are what a row of requests hands out for the objects that the class
offers, in their order, the leaves of a branch before its children. So how the names of these
objects are spelled decides alone whether two methods share an identifier of the generated
source. None of them is the constructor.

## Main definitions

* `Driver.Class.MethodsFor` — the methods of a class are those for some items
* `Driver.Class.identifiers` — the identifiers that the methods of a class denote
* `Driver.offeredNames` — the names of the objects that a class offers

## Main results

* `Driver.planBranch_methods`, `Driver.planSiblings_methods` — the methods in a plan
* `Driver.plan_identifiers_nodup_iff` — when the methods of a class have distinct identifiers
-/

namespace MibDrivers

namespace Driver

variable {names methods methods' : NameRegistry} {members : List Member} {siblings : List Item}
  {b : Branch Item} {c : Class}

/-- What a registry is asked for the method of an item. -/
def methodRequest (item : Item) : String := Naming.methodName item.name

/-- The methods of the class are those for the items. -/
def Class.MethodsFor (c : Class) (items : List Item) : Prop :=
  c.members.map (·.method) = Naming.methodsFor (items.map Item.name)

theorem methodsFor_eq (items : List Item) :
    Naming.methodsFor (items.map Item.name) =
      (methodNames.allocateAll (items.map methodRequest)).1 := by
  rw [Naming.methodsFor, List.map_map]
  rfl

/-! ### Plans -/

theorem planLeaves_methods {leaves : List Scalar}
    (h : planLeaves methods leaves = .ok (members, methods')) :
    methods.allocateAll ((leaves.map Item.scalar).map methodRequest) =
      (members.map (·.method), methods') := by
  induction leaves generalizing methods members with
  | nil =>
    obtain ⟨rfl, rfl⟩ := Prod.mk.inj (Except.ok.inj h)
    rfl
  | cons leaf others ih =>
    rw [planLeaves] at h
    obtain ⟨⟨member, mid⟩, hmember, h⟩ := bind_eq_ok.mp h
    obtain ⟨⟨tail, last⟩, htail, h⟩ := bind_eq_ok.mp h
    obtain ⟨rfl, rfl⟩ := Prod.mk.inj (Except.ok.inj h)
    -- The first leaf makes the first request, and the others ask the registry that it leaves.
    obtain ⟨-, -, -, -, hallocate⟩ := exists_of_planScalar hmember
    rw [List.map_cons, List.map_cons, NameRegistry.allocateAll_cons, methodRequest, Item.name,
      ← hallocate, ih htail]
    rfl

/-- The methods of a plan for siblings are those for them, and the methods of its classes are
those for what the branches hold, if this is so for the plans for the branches. -/
theorem planSiblings_methods_of {planned : SiblingPlan}
    (hbranch : ∀ c, .branch c ∈ siblings → ∀ names planned, planBranch names c = .ok planned →
      List.Forall₂ (fun own b => own.MethodsFor b.members) planned.classes
        (c :: Item.branchesOf c.children))
    (h : planSiblings names methods siblings = .ok planned) :
    planned.members.map (·.method) = (methods.allocateAll (siblings.map methodRequest)).1 ∧
      List.Forall₂ (fun own b => own.MethodsFor b.members) planned.classes
        (Item.branchesOf siblings) := by
  induction siblings generalizing names methods planned with
  | nil =>
    rw [planSiblings] at h
    obtain rfl := Except.ok.inj h
    exact ⟨rfl, .nil⟩
  | cons first rest ih =>
    have hrest : ∀ c, .branch c ∈ rest → ∀ names planned, planBranch names c = .ok planned →
        List.Forall₂ (fun own b => own.MethodsFor b.members) planned.classes
          (c :: Item.branchesOf c.children) :=
      fun c hc => hbranch c (List.mem_cons_of_mem _ hc)
    cases first with
    | scalar s =>
      rw [planSiblings] at h
      obtain ⟨⟨member, mid⟩, hmember, h⟩ := bind_eq_ok.mp h
      obtain ⟨others, hothers, h⟩ := bind_eq_ok.mp h
      obtain rfl := Except.ok.inj h
      obtain ⟨hmethods, hclasses⟩ := ih hrest hothers
      obtain ⟨-, -, -, -, hallocate⟩ := exists_of_planScalar hmember
      refine ⟨?_, by rwa [Item.branchesOf_cons_scalar]⟩
      rw [List.map_cons, List.map_cons, NameRegistry.allocateAll_cons, methodRequest, Item.name,
        ← hallocate, hmethods]
    | branch b =>
      rw [planSiblings] at h
      obtain ⟨own, hown, h⟩ := bind_eq_ok.mp h
      obtain ⟨others, hothers, h⟩ := bind_eq_ok.mp h
      obtain rfl := Except.ok.inj h
      obtain ⟨hmethods, hclasses⟩ := ih hrest hothers
      refine ⟨?_, ?_⟩
      · -- A class of its own does not ask this registry, so the request is for the branch alone.
        rw [List.map_cons, List.map_cons, NameRegistry.allocateAll_cons, hmethods]
        rfl
      · rw [Item.branchesOf_cons_branch]
        exact List.rel_append (hbranch b List.mem_cons_self _ _ hown) hclasses

/-- The methods of the classes for a branch and for those below it are those for what these
branches hold. -/
theorem planBranch_methods {planned : BranchPlan} (h : planBranch names b = .ok planned) :
    List.Forall₂ (fun own b => own.MethodsFor b.members) planned.classes
      (b :: Item.branchesOf b.children) := by
  induction b using Branch.inductChildren generalizing names planned with
  | step b ih =>
    obtain ⟨branchName, oid, description, leaves, children⟩ := b
    rw [planBranch] at h
    obtain ⟨⟨leafMembers, mid⟩, hleaves, h⟩ := bind_eq_ok.mp h
    obtain ⟨below, hbelow, h⟩ := bind_eq_ok.mp h
    obtain rfl := Except.ok.inj h
    obtain ⟨hmethods, hclasses⟩ :=
      planSiblings_methods_of (fun c hc names planned => ih c hc) hbelow
    refine .cons ?_ hclasses
    -- The requests for the leaves come before those for the children.
    rw [Class.MethodsFor, methodsFor_eq, Branch.members, List.map_append, List.map_append,
      NameRegistry.allocateAll_append, planLeaves_methods hleaves, hmethods]

theorem planSiblings_methods {planned : SiblingPlan}
    (h : planSiblings names methods siblings = .ok planned) :
    planned.members.map (·.method) = (methods.allocateAll (siblings.map methodRequest)).1 ∧
      List.Forall₂ (fun own b => own.MethodsFor b.members) planned.classes
        (Item.branchesOf siblings) :=
  planSiblings_methods_of (fun _ _ _ _ => planBranch_methods) h

variable {options : Options} {forest : Forest} {classes : List Class}

/-- The methods of a class of a plan are those for what a branch holds, and the class has the
identifier of the branch; or they are those for the top-level items, and the class has none. -/
theorem exists_methodsFor_of_plan (h : plan options forest = .ok classes) (hc : c ∈ classes) :
    (∃ b ∈ forest.branches, c.oid = some b.oid ∧ c.MethodsFor b.members) ∨
      c.oid = none ∧ c.MethodsFor forest.roots := by
  obtain ⟨planned, hplanned, h⟩ := bind_eq_ok.mp h
  obtain rfl := Except.ok.inj h
  obtain ⟨hmethods, hclasses⟩ := planSiblings_methods hplanned
  have hmirrors := (planSiblings_mirrors hplanned).classes
  rw [forest.branches_eq]
  rcases List.mem_append.mp hc with hmem | hroot
  · obtain ⟨i, hi, rfl⟩ := List.getElem_of_mem hmem
    have hj : i < (Item.branchesOf forest.roots).length := hclasses.length_eq ▸ hi
    exact .inl ⟨_, List.getElem_mem hj, (hmirrors.get hi hj).oid, hclasses.get hi hj⟩
  · obtain rfl := List.mem_singleton.mp hroot
    exact .inr ⟨rfl, by rw [Class.MethodsFor, methodsFor_eq, hmethods]⟩

/-! ### Identifiers -/

/-- The identifiers that the methods of the class denote. -/
def Class.identifiers (c : Class) : List (List Char) :=
  c.members.map fun m => Naming.identifier m.method

theorem Class.MethodsFor.identifiers_eq {items : List Item} (h : c.MethodsFor items) :
    c.identifiers = (Naming.methodsFor (items.map Item.name)).map Naming.identifier := by
  rw [Class.identifiers, ← h, List.map_map]
  rfl

open WorkingSet

/-- The names of the objects that the class offers: those of which its branch is the holder, or
those without a holder. -/
def offeredNames (descriptors : List Descriptor) (c : Class) : List String :=
  (descriptors.filter fun d => holder? descriptors d.oid = c.oid).map (·.name)

theorem clashing_perm {first second : List String} (h : first.Perm second) :
    Naming.Clashing first ↔ Naming.Clashing second := by
  simp only [Naming.Clashing, h.count_eq, h.mem_iff]

variable {descriptors : List Descriptor}

/-- In the plan for the reconciled forest of a working set, the methods of a class are those for
the objects that it offers, in some order. -/
theorem exists_methodsFor_offered (hforest : Forest.ofWorkingSet descriptors = .ok forest)
    (hplan : plan options forest = .ok classes) (hc : c ∈ classes) :
    ∃ items : List Item, c.MethodsFor items ∧
      (items.map Item.name).Perm (offeredNames descriptors c) := by
  obtain ⟨hsettled, hrep⟩ := Forest.settled_of_ofWorkingSet hforest
  -- The forest and the working set have the same holders.
  have hnames : ∀ items : List Item,
      (items.map Item.descriptor).Perm
        (forest.descriptors.filter fun d => holder? forest.descriptors d.oid = c.oid) →
      (items.map Item.name).Perm (offeredNames descriptors c) := by
    intro items hperm
    have hkept := (hperm.trans (filter_holder?_perm hrep c.oid)).map (·.name)
    simpa [offeredNames, List.map_map, Function.comp_def, Item.name_descriptor,
      Descriptor.name_kept] using hkept
  rcases exists_methodsFor_of_plan hplan hc with ⟨b, hb, hoid, hmethods⟩ | ⟨hoid, hmethods⟩
  · rw [forest.branches_eq] at hb
    refine ⟨b.members, hmethods, hnames _ ?_⟩
    rw [hoid]
    exact hsettled.members_perm hrep.nodup (Item.mem_branchesOf.mp hb)
  · refine ⟨forest.roots, hmethods, hnames _ ?_⟩
    rw [hoid]
    exact hsettled.roots_perm hrep.nodup

/-- In the plan for a working set in which no name comes twice, the methods of a class have distinct
identifiers. -/
theorem identifiers_nodup_of_names (hforest : Forest.ofWorkingSet descriptors = .ok forest)
    (hplan : plan options forest = .ok classes) (hc : c ∈ classes)
    (hnames : (descriptors.map (·.name)).Nodup) : c.identifiers.Nodup := by
  obtain ⟨items, hmethods, hperm⟩ := exists_methodsFor_offered hforest hplan hc
  rw [hmethods.identifiers_eq, Naming.identifiers_nodup_iff, clashing_perm hperm]
  exact Naming.not_clashing_of_nodup (hnames.sublist (List.filter_sublist.map _))

/-- In the plan for a working set, the methods of a class have distinct identifiers exactly if
the names of the objects that it offers do not clash. None of them is that of the constructor. -/
theorem plan_identifiers_nodup_iff (hforest : Forest.ofWorkingSet descriptors = .ok forest)
    (hplan : plan options forest = .ok classes) (hc : c ∈ classes) :
    (c.identifiers.Nodup ↔ ¬ Naming.Clashing (offeredNames descriptors c)) ∧
      Naming.identifier Naming.constructor ∉ c.identifiers := by
  obtain ⟨items, hmethods, hperm⟩ := exists_methodsFor_offered hforest hplan hc
  rw [hmethods.identifiers_eq]
  constructor
  · rw [Naming.identifiers_nodup_iff, clashing_perm hperm]
  · rintro hmem
    obtain ⟨method, hmethod, heq⟩ := List.mem_map.mp hmem
    exact Naming.identifier_ne_constructor hmethod heq

/-- A table with two columns of one name, which is a keyword, and a column that is called by this
keyword with the given number after it. -/
def repeatedColumns (number : String) : List Descriptor :=
  [{ name := "entry", kind := .branch, oid := ⟨[1, 3]⟩ },
    { name := "type", kind := .scalar, oid := ⟨[1, 3, 1]⟩, access := .readOnly },
    { name := "type", kind := .scalar, oid := ⟨[1, 3, 2]⟩, access := .readOnly },
    { name := "type" ++ number, kind := .scalar, oid := ⟨[1, 3, 3]⟩, access := .readWrite }]

/-- The class for the table `repeatedColumns`. -/
def repeatedColumnsClass (number : String) : Class where
  name := "Entry"
  kind := .leaves
  oid := some ⟨[1, 3]⟩
  description := ""
  members := [⟨"r#type", .leaf .readOnly ⟨[1, 3, 1]⟩, ""⟩,
    ⟨"r#type1", .leaf .readOnly ⟨[1, 3, 2]⟩, ""⟩,
    ⟨"type" ++ number, .leaf .readWrite ⟨[1, 3, 3]⟩, ""⟩]

/-- The plan for `repeatedColumns`. -/
def repeatedColumnsPlan (number : String) : List Class :=
  [repeatedColumnsClass number,
    { name := "MibDriver", kind := .root, oid := none, description := "",
      members := [⟨"entry", .child "Entry", ""⟩] }]

theorem plan_identifiers_nodup_repeatedColumns :
    (Forest.ofWorkingSet (repeatedColumns "2") >>= plan {}) = .ok (repeatedColumnsPlan "2") ∧
      repeatedColumnsClass "2" ∈ repeatedColumnsPlan "2" ∧
      (repeatedColumnsClass "2").identifiers.Nodup ∧
      Naming.identifier Naming.constructor ∉ (repeatedColumnsClass "2").identifiers := by
  have h : (Forest.ofWorkingSet (repeatedColumns "2") >>= plan {}) =
      .ok (repeatedColumnsPlan "2") := by
    decide +kernel
  have hmem : repeatedColumnsClass "2" ∈ repeatedColumnsPlan "2" := List.mem_cons_self
  obtain ⟨forest, hforest, hplan⟩ := bind_eq_ok.mp h
  obtain ⟨hiff, hconstructor⟩ := plan_identifiers_nodup_iff hforest hplan hmem
  exact ⟨h, hmem, hiff.mpr (by decide +kernel), hconstructor⟩

/-- Two methods of one class have the same identifier. -/
theorem plan_repeats_identifier :
    (Forest.ofWorkingSet (repeatedColumns "1") >>= plan {}) = .ok (repeatedColumnsPlan "1") ∧
      repeatedColumnsClass "1" ∈ repeatedColumnsPlan "1" ∧
      ¬ (repeatedColumnsClass "1").identifiers.Nodup :=
  ⟨by decide +kernel, List.mem_cons_self, by decide +kernel⟩

end Driver

end MibDrivers
