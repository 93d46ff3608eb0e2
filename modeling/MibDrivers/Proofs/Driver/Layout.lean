import MibDrivers.Proofs.Driver.Mirror

/-!
# The layout of a plan

The classes of a plan are laid out as a forest is visited: the class of a branch, then the
classes for what the branch holds, then those for its later siblings. Its members are laid out
as the siblings themselves, and the member for a branch leads to the class with which the
classes for this branch begin. This is said without the registries from which the names come.
What the names are is said beside it: a class is called after its branch, with a number after
the candidate where that was taken, and no two methods of a class have one name.

## Main definitions

* `Forest.branches` — the branches of a forest in the order of its visits
* `Driver.Follows` — members and classes are laid out as some siblings
* `Driver.references` — the names of the classes to which members lead
* `Driver.Class.Callable` — every method of a class can be called by its name
* `Driver.Class.CalledAfter` — a class has its name from a branch

## Main results

* `Driver.planSiblings_laid` — every plan for siblings is laid out as they are
* `Driver.Follows.references_perm` — every class is referred to once
* `Driver.exists_laid_of_plan` — what a whole plan consists of
-/

namespace MibDrivers

namespace Item

/-- Leaves do not count among branches. -/
theorem branchesOf_members (b : Branch Item) : branchesOf b.members = branchesOf b.children := by
  have hleaves : (b.leaves.map scalar).filterMap branch? = [] := by
    simp [List.filterMap_map, Function.comp_def, branch?]
  simp [branchesOf, Branch.members, hleaves]

end Item

namespace Forest

/-- The branches of a forest in the order of its visits. -/
def branches (forest : Forest) : List (Branch Item) := forest.visits.filterMap (·.item.branch?)

theorem branches_eq (forest : Forest) : forest.branches = Item.branchesOf forest.roots := by
  rw [Item.branchesOf, ← items, ← visits_items, List.filterMap_map]
  rfl

end Forest

namespace Driver

variable {names methods methods' after : NameRegistry} {m : Member} {c : Class} {s : Scalar}
  {b : Branch Item}

/-! ### Methods -/

/-- Every method of the class can be called: its name leads to it, and it is not the name of
the constructor. -/
def Class.Callable (c : Class) : Prop :=
  ∀ m ∈ c.members, c.member? m.method = some m ∧ m.method ≠ Naming.constructor

theorem Class.callable_of_handsOut (h : methodNames.HandsOut (c.members.map (·.method)) after) :
    c.Callable := by
  intro m hm
  constructor
  · have hsome : (c.member? m.method).isSome := by
      rw [member?, List.find?_isSome]
      exact ⟨m, hm, by simp⟩
    obtain ⟨found, hfound⟩ := Option.isSome_iff_exists.mp hsome
    -- Two members with one method name would be two entries with one name.
    have hsame : found.method = m.method := by simpa using List.find?_some hfound
    rw [hfound, List.inj_on_of_nodup_map h.nodup (List.mem_of_find?_eq_some hfound) hm hsame]
  · intro heq
    refine h.free m.method (List.mem_map_of_mem hm) ?_
    simp [methodNames, NameRegistry.reserve, heq]

theorem handsOut_of_planScalar (h : planScalar methods s = .ok (m, methods')) :
    methods.HandsOut [m.method] methods' := by
  obtain ⟨-, -, -, -, hallocate⟩ := exists_of_planScalar h
  have hhanded := NameRegistry.handsOut_allocate methods (Naming.methodName s.name)
  rwa [← hallocate] at hhanded

/-! ### Layout -/

/-- The name of the class to which a target leads, if it leads to one. -/
def Target.child? : Target → Option String
  | .child name => some name
  | .leaf .. => none

/-- The names of the classes to which members lead. -/
def references (members : List Member) : List String := members.filterMap (·.target.child?)

/-- The class has the name of the type for the branch, or this with a number after it. -/
def Class.CalledAfter (c : Class) (b : Branch Item) : Prop :=
  NameRegistry.Variant (Naming.className b.name) c.name

/-- The members and the classes are laid out as the siblings: each member leads to what its
sibling is, a branch to the class with which the classes for it begin. These go on with the
classes for what the branch holds. -/
inductive Follows : List Member → List Class → List Item → Prop
  | nil : Follows [] [] []
  | scalar {m : Member} {kind : LeafKind} {s : Scalar} {members : List Member}
      {classes : List Class} {siblings : List Item} (htarget : m.target = .leaf kind s.oid)
      (hrest : Follows members classes siblings) :
      Follows (m :: members) classes (.scalar s :: siblings)
  | branch {m : Member} {own : Class} {b : Branch Item} {members : List Member}
      {below classes : List Class} {siblings : List Item} (htarget : m.target = .child own.name)
      (hcallable : own.Callable) (hname : own.CalledAfter b)
      (hbelow : Follows own.members below b.members)
      (hrest : Follows members classes siblings) :
      Follows (m :: members) (own :: below ++ classes) (.branch b :: siblings)

variable {members members' : List Member} {classes classes' : List Class}
  {siblings siblings' : List Item}

theorem Follows.append (hfirst : Follows members classes siblings)
    (hsecond : Follows members' classes' siblings') :
    Follows (members ++ members') (classes ++ classes') (siblings ++ siblings') := by
  induction hfirst with
  | nil => exact hsecond
  | scalar htarget _ ih => exact .scalar htarget ih
  | branch htarget hcallable hname hbelow _ _ ih =>
    simp only [List.cons_append, List.append_assoc]
    exact .branch htarget hcallable hname hbelow ih

/-- The classes are those for the branches in the order of a visit, each called after its
branch. -/
theorem Follows.named (h : Follows members classes siblings) :
    List.Forall₂ Class.CalledAfter classes (Item.branchesOf siblings) := by
  induction h with
  | nil => exact .nil
  | scalar _ _ ih =>
    rw [Item.branchesOf_cons_scalar]
    exact ih
  | branch _ _ hname _ _ ihbelow ihrest =>
    rw [Item.branchesOf_cons_branch, ← Item.branchesOf_members]
    exact List.rel_append (.cons hname ihbelow) ihrest

theorem Follows.callable (h : Follows members classes siblings) : ∀ c ∈ classes, c.Callable := by
  induction h with
  | nil => simp
  | scalar _ _ ih => exact ih
  | branch _ hcallable _ _ _ ihbelow ihrest =>
    intro c hc
    rcases List.mem_append.mp hc with hmem | hrest
    · rcases List.mem_cons.mp hmem with rfl | hbelow
      · exact hcallable
      · exact ihbelow c hbelow
    · exact ihrest c hrest

/-- The members at hand and those of the classes refer to each class once. -/
theorem Follows.references_perm (h : Follows members classes siblings) :
    (references members ++ classes.flatMap fun c => references c.members).Perm
      (classes.map (·.name)) := by
  induction h with
  | nil => exact .nil
  | scalar htarget _ ih =>
    rwa [references, List.filterMap_cons_none (by rw [htarget]; rfl)]
  | @branch m own b members below classes siblings htarget _ _ _ _ ihbelow ihrest =>
    have hfirst : references (m :: members) = own.name :: references members := by
      rw [references, List.filterMap_cons_some (by rw [htarget]; rfl), references]
    -- What is listed first on one side is listed last on the other, so names are counted.
    rw [hfirst, List.perm_iff_count]
    intro name
    have hbelow := List.perm_iff_count.mp ihbelow name
    have hrest := List.perm_iff_count.mp ihrest name
    simp only [List.cons_append, List.flatMap_cons, List.flatMap_append, List.map_cons,
      List.map_append, List.count_cons, List.count_append] at hbelow hrest ⊢
    omega

/-! ### Plans -/

/-- A plan for siblings is laid out as they are, hands out names for its methods, and leaves
no candidate for a class free. -/
structure SiblingPlan.Laid (methods : NameRegistry) (siblings : List Item)
    (planned : SiblingPlan) : Prop where
  follows : Follows planned.members planned.classes siblings
  methods : ∃ after, methods.HandsOut (planned.members.map (·.method)) after
  taken : ∀ b ∈ Item.branchesOf siblings, Naming.className b.name ∈ planned.names.taken

/-- A plan for a branch begins with the class of the branch and goes on with what is laid out
as the branch. It leaves no candidate for a class free. -/
structure BranchPlan.Laid (b : Branch Item) (planned : BranchPlan) : Prop where
  follows : ∃ own below, planned.classes = own :: below ∧ own.name = planned.name ∧
    own.Callable ∧ own.CalledAfter b ∧ Follows own.members below b.members
  taken : ∀ c ∈ b :: Item.branchesOf b.children,
    Naming.className c.name ∈ planned.names.taken

theorem planLeaves_follows {leaves : List Scalar}
    (h : planLeaves methods leaves = .ok (members, methods')) :
    Follows members [] (leaves.map .scalar) ∧
      methods.HandsOut (members.map (·.method)) methods' := by
  induction leaves generalizing methods members with
  | nil =>
    obtain ⟨rfl, rfl⟩ := Prod.mk.inj (Except.ok.inj h)
    exact ⟨.nil, .refl methods⟩
  | cons leaf others ih =>
    rw [planLeaves] at h
    obtain ⟨⟨member, mid⟩, hmember, h⟩ := bind_eq_ok.mp h
    obtain ⟨⟨tail, last⟩, htail, h⟩ := bind_eq_ok.mp h
    obtain ⟨rfl, rfl⟩ := Prod.mk.inj (Except.ok.inj h)
    obtain ⟨hfollows, hnames⟩ := ih htail
    obtain ⟨kind, -, htarget, -, -⟩ := exists_of_planScalar hmember
    exact ⟨.scalar htarget hfollows, (handsOut_of_planScalar hmember).trans hnames⟩

theorem planSiblings_taken {planned : SiblingPlan}
    (h : planSiblings names methods siblings = .ok planned) :
    names.taken ⊆ planned.names.taken :=
  (planSiblings_mirrors h).names.subset

/-- The plan for siblings is laid out as they are if the plans for those that are branches
are. -/
theorem planSiblings_laid_of {planned : SiblingPlan}
    (hbranch : ∀ c, .branch c ∈ siblings → ∀ names planned, planBranch names c = .ok planned →
      planned.Laid c)
    (h : planSiblings names methods siblings = .ok planned) : planned.Laid methods siblings := by
  induction siblings generalizing names methods planned with
  | nil =>
    rw [planSiblings] at h
    obtain rfl := Except.ok.inj h
    exact ⟨.nil, ⟨methods, .refl methods⟩, by simp [Item.branchesOf]⟩
  | cons first rest ih =>
    have hrest : ∀ c, .branch c ∈ rest → ∀ names planned, planBranch names c = .ok planned →
        planned.Laid c := fun c hc => hbranch c (List.mem_cons_of_mem _ hc)
    cases first with
    | scalar s =>
      rw [planSiblings] at h
      obtain ⟨⟨member, mid⟩, hmember, h⟩ := bind_eq_ok.mp h
      obtain ⟨others, hothers, h⟩ := bind_eq_ok.mp h
      obtain rfl := Except.ok.inj h
      have hlaid := ih hrest hothers
      obtain ⟨kind, -, htarget, -, -⟩ := exists_of_planScalar hmember
      obtain ⟨after, hnames⟩ := hlaid.methods
      refine ⟨.scalar htarget hlaid.follows,
        ⟨after, (handsOut_of_planScalar hmember).trans hnames⟩, ?_⟩
      rw [Item.branchesOf_cons_scalar]
      exact hlaid.taken
    | branch b =>
      rw [planSiblings] at h
      obtain ⟨own, hown, h⟩ := bind_eq_ok.mp h
      obtain ⟨others, hothers, h⟩ := bind_eq_ok.mp h
      obtain rfl := Except.ok.inj h
      have hfirst := hbranch b List.mem_cons_self _ _ hown
      have hlaid := ih hrest hothers
      obtain ⟨head, below, hclasses, hname, hcallable, hvariant, hbelow⟩ := hfirst.follows
      obtain ⟨after, hnames⟩ := hlaid.methods
      refine ⟨?_, ⟨after, (NameRegistry.handsOut_allocate methods _).trans hnames⟩, ?_⟩
      · simp only [hclasses]
        exact .branch (congrArg Target.child hname.symm) hcallable hvariant hbelow hlaid.follows
      · rw [Item.branchesOf_cons_branch]
        intro c hc
        -- The later siblings do not free a name again.
        rcases List.mem_append.mp hc with hmem | hlater
        · exact planSiblings_taken hothers (hfirst.taken c hmem)
        · exact hlaid.taken c hlater

/-- Every plan for a branch is laid out as it. -/
theorem planBranch_laid {planned : BranchPlan} (h : planBranch names b = .ok planned) :
    planned.Laid b := by
  induction b using Branch.inductChildren generalizing names planned with
  | step b ih =>
    obtain ⟨branchName, oid, description, leaves, children⟩ := b
    rw [planBranch] at h
    obtain ⟨⟨leafMembers, mid⟩, hleaves, h⟩ := bind_eq_ok.mp h
    obtain ⟨below, hbelow, h⟩ := bind_eq_ok.mp h
    obtain rfl := Except.ok.inj h
    have hlaid := planSiblings_laid_of (fun c hc names planned => ih c hc) hbelow
    obtain ⟨hleaf, hleafNames⟩ := planLeaves_follows hleaves
    obtain ⟨after, hnames⟩ := hlaid.methods
    refine ⟨⟨_, _, rfl, rfl, ?_, NameRegistry.variant_freeName names _, ?_⟩, ?_⟩
    · -- The methods for leaves and for branches are named by one registry.
      have hmethods := hleafNames.trans hnames
      rw [← List.map_append] at hmethods
      exact Class.callable_of_handsOut hmethods
    · exact hleaf.append hlaid.follows
    · intro c hc
      rcases List.mem_cons.mp hc with rfl | hmem
      · exact planSiblings_taken hbelow (NameRegistry.mem_taken_allocate names _)
      · exact hlaid.taken c hmem

/-- Every plan for siblings is laid out as they are. -/
theorem planSiblings_laid {planned : SiblingPlan}
    (h : planSiblings names methods siblings = .ok planned) : planned.Laid methods siblings :=
  planSiblings_laid_of (fun _ _ _ _ => planBranch_laid) h

/-! ### Whole plans -/

variable {options : Options} {forest : Forest} {planned : SiblingPlan} {root : Class}

/-- The names of the runtime types and of the root class are taken before any class is
named. -/
theorem taken_classNames {name : String} :
    name ∈ (classNames options).taken ↔ name ∈ options.rootName :: runtimeTypes := by
  simp [classNames, NameRegistry.reserve, NameRegistry.empty]

/-- A plan consists of a plan for the siblings at the top level and of the root class with its
members. -/
theorem exists_laid_of_plan (h : plan options forest = .ok classes) :
    ∃ (planned : SiblingPlan) (root : Class), planned.Laid methodNames forest.roots ∧
      planned.Mirrors (classNames options) forest.roots ∧ classes = planned.classes ++ [root] ∧
      root.name = options.rootName ∧ root.kind = .root ∧ root.oid = none ∧
      root.members = planned.members := by
  obtain ⟨planned, hplanned, h⟩ := bind_eq_ok.mp h
  obtain rfl := Except.ok.inj h
  exact ⟨planned, _, planSiblings_laid hplanned, planSiblings_mirrors hplanned, rfl, rfl, rfl,
    rfl, rfl⟩

/-- The classes of a plan but the root class are those for the siblings at the top level. -/
theorem SiblingPlan.Mirrors.filter_kind (h : planned.Mirrors names siblings)
    (hroot : root.kind = .root) :
    (planned.classes ++ [root]).filter (·.kind ≠ .root) = planned.classes := by
  rw [List.filter_append, List.filter_cons_of_neg (by simp [hroot]), List.filter_nil,
    List.append_nil, List.filter_eq_self]
  intro c hc
  obtain ⟨b, -, hmirrors⟩ := exists_of_forall₂ h.classes hc
  exact decide_eq_true hmirrors.kind_ne_root

theorem SiblingPlan.Mirrors.mem_classes_iff (h : planned.Mirrors names siblings)
    (hroot : root.kind = .root) :
    c ∈ planned.classes ↔ c ∈ planned.classes ++ [root] ∧ c.kind ≠ .root := by
  calc
    c ∈ planned.classes ↔ c ∈ (planned.classes ++ [root]).filter (·.kind ≠ .root) := by
      rw [h.filter_kind hroot]
    _ ↔ c ∈ planned.classes ++ [root] ∧ c.kind ≠ .root := by
      rw [List.mem_filter, decide_eq_true_eq]

end Driver

end MibDrivers
