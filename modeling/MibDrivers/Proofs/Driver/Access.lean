import MibDrivers.Generation.Report
import MibDrivers.Proofs.Driver.Mirror
import MibDrivers.Proofs.Forest.Unpinned

/-!
# Scalars that no accessor supports

A driver offers a scalar to be read, or to be read and written. Planning goes through a forest in
the order of a visit, and the first scalar with another access mode ends it. Nothing else can end
it, so whether there is a plan, and with which error there is none, is told by the access modes
alone, whatever the names are and whatever the shape of the forest is.

## Main definitions

* `Scalar.refusal?` — the error with which a scalar is refused
* `Forest.scalars` — the scalars of a forest in the order of its visits

## Main results

* `Driver.planBranch_error?`, `Driver.planSiblings_error?` — the error of a plan of a branch and
  of a plan of siblings
* `Driver.plan_error_iff` — when there is no plan for a forest
-/

namespace MibDrivers

/-- The error with which a scalar is refused: it can neither be read nor be read and written. -/
def Scalar.refusal? (s : Scalar) : Option MibError :=
  match s.access with
  | .readOnly | .readWrite => none
  | .other mode => some (.unsupportedAccess s.name mode)

theorem Scalar.refusal?_eq_some {s : Scalar} {error : MibError} :
    s.refusal? = some error ↔
      ∃ mode, s.access = .other mode ∧ error = .unsupportedAccess s.name mode := by
  unfold refusal?
  cases s.access <;> simp [eq_comm]

theorem Scalar.refusal?_eq_none {s : Scalar} :
    s.refusal? = none ↔ ∀ mode, s.access ≠ .other mode := by
  unfold refusal?
  cases s.access <;> simp

/-- The first scalar that is refused gives the error. -/
theorem Scalar.findSome?_refusal?_eq_some {scalars : List Scalar} {error : MibError} :
    scalars.findSome? refusal? = some error ↔
      ∃ before s after mode, scalars = before ++ s :: after ∧
        (∀ t ∈ before, ∀ mode, t.access ≠ .other mode) ∧ s.access = .other mode ∧
        error = .unsupportedAccess s.name mode := by
  rw [List.findSome?_eq_some_iff]
  simp only [refusal?_eq_some, refusal?_eq_none]
  constructor
  · rintro ⟨before, s, after, hsplit, ⟨mode, hmode, rfl⟩, hbefore⟩
    exact ⟨before, s, after, mode, hsplit, hbefore, hmode, rfl⟩
  · rintro ⟨before, s, after, mode, hsplit, hbefore, hmode, rfl⟩
    exact ⟨before, s, after, hsplit, ⟨mode, hmode, rfl⟩, hbefore⟩

theorem Scalar.exists_findSome?_refusal? {scalars : List Scalar} :
    (∃ error, scalars.findSome? refusal? = some error) ↔
      ∃ s ∈ scalars, ∃ mode, s.access = .other mode := by
  rw [← Option.isSome_iff_exists, List.findSome?_isSome_iff]
  simp only [Option.isSome_iff_exists, refusal?_eq_some]
  constructor
  · rintro ⟨s, hs, _, mode, hmode, -⟩
    exact ⟨s, hs, mode, hmode⟩
  · rintro ⟨s, hs, mode, hmode⟩
    exact ⟨s, hs, _, mode, hmode, rfl⟩

/-- The scalars of a forest in the order of its visits. -/
def Forest.scalars (forest : Forest) : List Scalar := forest.visits.filterMap (·.item.scalar?)

theorem Forest.scalars_eq (forest : Forest) :
    forest.scalars = Item.scalarsOf forest.roots := by
  rw [Item.scalarsOf, ← items, ← visits_items, List.filterMap_map]
  rfl

theorem Forest.mem_scalars {forest : Forest} {s : Scalar} :
    s ∈ forest.scalars ↔ ∃ v ∈ forest.visits, v.item = .scalar s := by
  rw [scalars_eq, Item.mem_scalarsOf, ← items, ← visits_items, List.mem_map]

namespace Driver

open Item (scalarsOf)

variable {names methods : NameRegistry} {siblings : List Item} {b : Branch Item}

theorem scalarsOf_scalar (s : Scalar) : scalarsOf [.scalar s] = [s] := rfl

theorem planScalar_error? (methods : NameRegistry) (s : Scalar) :
    error? (planScalar methods s) = s.refusal? := by
  unfold planScalar Scalar.refusal?
  cases s.access <;> rfl

/-- The error of a plan of leaves comes from the first leaf that is refused. -/
theorem planLeaves_error? (methods : NameRegistry) (leaves : List Scalar) :
    error? (planLeaves methods leaves) = leaves.findSome? Scalar.refusal? := by
  induction leaves generalizing methods with
  | nil => rfl
  | cons leaf rest ih =>
    rw [planLeaves]
    refine (error?_bind fun planned : Member × NameRegistry =>
      (error?_bind_of_none fun _ => rfl).trans (ih planned.2)).trans ?_
    rw [planScalar_error?, List.findSome?_cons]
    cases leaf.refusal? <;> rfl

/-- The error of a plan of siblings comes from the first scalar among and below them that is
refused, if this holds of each sibling that is a branch. -/
theorem planSiblings_error?_of
    (hbranch : ∀ b, .branch b ∈ siblings → ∀ names,
      error? (planBranch names b) = (scalarsOf [.branch b]).findSome? Scalar.refusal?) :
    error? (planSiblings names methods siblings) =
      (scalarsOf siblings).findSome? Scalar.refusal? := by
  induction siblings generalizing names methods with
  | nil =>
    rw [planSiblings]
    rfl
  | cons first rest ih =>
    have hrest := fun names methods =>
      @ih names methods fun b hb => hbranch b (List.mem_cons_of_mem _ hb)
    have hsplit : scalarsOf (first :: rest) = scalarsOf [first] ++ scalarsOf rest :=
      Item.scalarsOf_append [first] rest
    rw [hsplit, List.findSome?_append]
    cases first with
    | scalar s =>
      rw [planSiblings]
      refine (error?_bind fun planned : Member × NameRegistry =>
        (error?_bind_of_none fun _ => rfl).trans (hrest names planned.2)).trans ?_
      rw [planScalar_error?, scalarsOf_scalar, List.findSome?_singleton]
    | branch b =>
      rw [planSiblings]
      refine (error?_bind fun planned : BranchPlan =>
        (error?_bind_of_none fun _ => rfl).trans (hrest planned.names _)).trans ?_
      rw [hbranch b List.mem_cons_self]

/-- The error of a plan of a branch comes from the first scalar below it that is refused. -/
theorem planBranch_error? (names : NameRegistry) (b : Branch Item) :
    error? (planBranch names b) = (scalarsOf [.branch b]).findSome? Scalar.refusal? := by
  induction b using Branch.inductChildren generalizing names with
  | step b ih =>
    rw [Item.scalarsOf_branch, List.findSome?_append]
    obtain ⟨name, oid, description, leaves, children⟩ := b
    rw [planBranch]
    -- The leaves are planned first, as they are visited first.
    refine (error?_bind fun _ =>
      (error?_bind_of_none fun _ => rfl).trans (planSiblings_error?_of ih)).trans ?_
    rw [planLeaves_error?]

theorem planSiblings_error? (names methods : NameRegistry) (siblings : List Item) :
    error? (planSiblings names methods siblings) =
      (scalarsOf siblings).findSome? Scalar.refusal? :=
  planSiblings_error?_of fun b _ names => planBranch_error? names b

/-! ### Whole plans -/

variable {options : Options} {forest : Forest} {error : MibError}

/-- The error of a plan comes from the first scalar that is refused. -/
theorem plan_error? (options : Options) (forest : Forest) :
    error? (plan options forest) = forest.scalars.findSome? Scalar.refusal? := by
  unfold plan
  rw [error?_bind_of_none fun _ => rfl, planSiblings_error?, forest.scalars_eq]

/-- A report has the error of its plan, whatever the header of the source says. -/
theorem error?_ofForest (options : Options) (mib : ModuleForest) :
    error? (Report.ofForest options mib) = mib.forest.scalars.findSome? Scalar.refusal? := by
  unfold Report.ofForest
  rw [error?_bind_of_none fun _ => rfl, plan_error?]

/-- There is no plan for a forest, and no source, exactly if some scalar in it has another access
mode than those that can be offered. The error then names the first such scalar of a visit and
its access mode, whatever the options are. -/
theorem plan_error_iff (options : Options) (forest : Forest) :
    ((∃ error, plan options forest = .error error) ↔
      ∃ v ∈ forest.visits, ∃ s mode, v.item = .scalar s ∧ s.access = .other mode) ∧
    (∀ error, plan options forest = .error error ↔
      ∃ before s after mode, forest.scalars = before ++ s :: after ∧
        (∀ t ∈ before, ∀ mode, t.access ≠ .other mode) ∧ s.access = .other mode ∧
        error = .unsupportedAccess s.name mode) ∧
    ∀ moduleName error,
      Report.ofForest options { moduleName, forest } = .error error ↔
        plan options forest = .error error := by
  have hplan : ∀ error, plan options forest = .error error ↔
      forest.scalars.findSome? Scalar.refusal? = some error := by
    intro error
    rw [← error?_eq_some, plan_error?]
  refine ⟨?_, ?_, ?_⟩
  · simp only [hplan]
    rw [Scalar.exists_findSome?_refusal?]
    constructor
    · rintro ⟨s, hs, mode, hmode⟩
      obtain ⟨v, hv, hitem⟩ := Forest.mem_scalars.mp hs
      exact ⟨v, hv, s, mode, hitem, hmode⟩
    · rintro ⟨v, hv, s, mode, hitem, hmode⟩
      exact ⟨s, Forest.mem_scalars.mpr ⟨v, hv, hitem⟩, mode, hmode⟩
  · intro error
    rw [hplan, Scalar.findSome?_refusal?_eq_some]
  · intro moduleName error
    rw [hplan, ← error?_eq_some, error?_ofForest]

/-- A leaf two levels down comes before a later top-level scalar. -/
example :
    plan {} ⟨[
      .branch {
        name := "if", oid := ⟨[1]⟩
        children := [.branch {
          name := "ifEntry", oid := ⟨[1, 2]⟩
          leaves := [{ name := "ifTrap", oid := ⟨[1, 2, 1]⟩, access := .other "notify" }] }] },
      .scalar { name := "counter", oid := ⟨[2]⟩, access := .other "" }]⟩ =
      .error (.unsupportedAccess "ifTrap" "notify") := by
  decide +kernel

end Driver

end MibDrivers
