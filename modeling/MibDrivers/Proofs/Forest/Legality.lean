import Mathlib.Order.Bounds.Basic
import MibDrivers.Proofs.Forest.Insertion

/-!
# Legal working sets

A working set is legal if its identifiers are distinct and none of its scalars contains
another object. Building a forest accepts exactly the legal working sets. It refuses the
first descriptor that breaks the law, and the error names that descriptor together with one
that came before it.

## Main definitions

* `Descriptor.kept` — what a forest keeps of a descriptor
* `WorkingSet.Legal` — the working sets that are accepted
* `WorkingSet.Blames` — what an error says about the descriptor at which it came up
* `Forest.Represents` — the forest holds the objects of a legal working set

## Main results

* `Forest.build_ok_iff_legal` — building accepts exactly the legal working sets, and blames
  the first descriptor that breaks the law
-/

namespace MibDrivers

/-! ### The law -/

namespace Descriptor

variable {d e : Descriptor} {error : MibError}

/-- What a forest keeps of a descriptor: all of it, apart from the access of a branch. -/
def kept (d : Descriptor) : Descriptor := (Item.ofDescriptor d).descriptor

@[simp] theorem name_kept : d.kept.name = d.name := by
  cases h : d.kind <;> simp [kept, Item.ofDescriptor, h, Item.name]

@[simp] theorem oid_kept : d.kept.oid = d.oid := by
  cases h : d.kind <;> simp [kept, Item.ofDescriptor, h]

@[simp] theorem kind_kept : d.kept.kind = d.kind := by
  cases h : d.kind <;> simp [kept, Item.ofDescriptor, h, Item.descriptor]

@[simp] theorem description_kept : d.kept.description = d.description := by
  cases h : d.kind <;> simp [kept, Item.ofDescriptor, h, Item.descriptor]

theorem kept_of_scalar (h : d.kind = .scalar) : d.kept = d := by
  obtain ⟨name, kind, oid, access, description⟩ := d
  subst h
  rfl

/-- An object with a new identifier is new among what is kept. -/
theorem kept_not_mem {descriptors : List Descriptor} (h : ∀ e ∈ descriptors, e.oid ≠ d.oid) :
    d.kept ∉ descriptors.map kept := by
  intro hmem
  obtain ⟨e, he, heq⟩ := List.mem_map.mp hmem
  have hoid := congrArg Descriptor.oid heq
  rw [oid_kept, oid_kept] at hoid
  exact h e he hoid

@[simp] theorem bars_kept : d.kept.Bars e.kept ↔ d.Bars e := by simp [Bars]

@[simp] theorem cannotContain_kept : d.kept.cannotContain e.kept = d.cannotContain e := by
  simp [cannotContain]

@[simp] theorem clash_kept : d.kept.Clash e.kept error ↔ d.Clash e error := by simp [Clash]

end Descriptor

namespace WorkingSet

open Descriptor

variable {descriptors others : List Descriptor} {d : Descriptor} {error : MibError}

/-- The identifiers are distinct, and no scalar contains another object. -/
structure Legal (descriptors : List Descriptor) : Prop where
  distinct : (descriptors.map (·.oid)).Nodup
  unbarred : ∀ leaf ∈ descriptors, ∀ d ∈ descriptors, ¬ leaf.Bars d

instance : Decidable (Legal descriptors) :=
  decidable_of_iff (_ ∧ ∀ leaf ∈ descriptors, ∀ d ∈ descriptors, ¬ leaf.Bars d)
    ⟨fun h => ⟨h.1, h.2⟩, fun h => ⟨h.distinct, h.unbarred⟩⟩

theorem Legal.nil : Legal [] := ⟨.nil, by simp⟩

theorem Legal.perm (h : Legal descriptors) (hperm : descriptors.Perm others) : Legal others where
  distinct := (hperm.map _).nodup_iff.mp h.distinct
  unbarred leaf hleaf d hd := h.unbarred leaf (hperm.mem_iff.mpr hleaf) d (hperm.mem_iff.mpr hd)

theorem Legal.sublist (h : Legal descriptors) (hsub : others.Sublist descriptors) :
    Legal others where
  distinct := h.distinct.sublist (hsub.map _)
  unbarred leaf hleaf d hd := h.unbarred leaf (hsub.subset hleaf) d (hsub.subset hd)

theorem legal_cons :
    Legal (d :: descriptors) ↔ Legal descriptors ∧
      ∀ e ∈ descriptors, e.oid ≠ d.oid ∧ ¬ e.Bars d ∧ ¬ d.Bars e := by
  constructor
  · intro h
    refine ⟨h.sublist (List.sublist_cons_self d descriptors), ?_⟩
    intro e he
    refine ⟨fun heq => ?_, ?_, ?_⟩
    · exact (List.nodup_cons.mp h.distinct).1 (List.mem_map.mpr ⟨e, he, heq⟩)
    · exact h.unbarred e (List.mem_cons_of_mem _ he) d List.mem_cons_self
    · exact h.unbarred d List.mem_cons_self e (List.mem_cons_of_mem _ he)
  · rintro ⟨h, hnew⟩
    refine ⟨List.nodup_cons.mpr ⟨?_, h.distinct⟩, ?_⟩
    · intro hmem
      obtain ⟨e, he, heq⟩ := List.mem_map.mp hmem
      exact (hnew e he).1 heq
    · intro leaf hleaf e he
      rcases List.mem_cons.mp hleaf with rfl | hold <;> rcases List.mem_cons.mp he with rfl | hmem
      · exact fun hbars => lt_irrefl _ hbars.2
      · exact (hnew e hmem).2.2
      · exact (hnew leaf hold).2.1
      · exact h.unbarred leaf hold e hmem

example : ¬ Legal [⟨"ifMtu", .scalar, ⟨[1, 3]⟩, .readOnly, ""⟩,
    ⟨"ifEntry", .branch, ⟨[1, 3, 2]⟩, .unspecified, ""⟩] := by decide

/-- What an error says about the descriptor at which it came up, after `earlier`: that it
repeats the identifier of an earlier one, or else that one of the two is a scalar which
contains the other. -/
inductive Blames (earlier : List Descriptor) (d : Descriptor) : MibError → Prop
  | duplicate {first : Descriptor} (hmem : first ∈ earlier) (heq : first.oid = d.oid) :
      Blames earlier d (.duplicateOid d.oid.dotted first.name d.name)
  | clash {e : Descriptor} {error : MibError} (hfresh : ∀ first ∈ earlier, first.oid ≠ d.oid)
      (hmem : e ∈ earlier) (hclash : d.Clash e error) : Blames earlier d error

theorem Blames.perm {earlier others : List Descriptor} (h : Blames earlier d error)
    (hperm : earlier.Perm others) : Blames others d error := by
  cases h with
  | duplicate hmem heq => exact .duplicate (hperm.mem_iff.mp hmem) heq
  | clash hfresh hmem hclash =>
    refine .clash (fun first hfirst => ?_) (hperm.mem_iff.mp hmem) hclash
    exact hfresh first (hperm.mem_iff.mpr hfirst)

/-- A descriptor that is blamed breaks the law. -/
theorem Blames.not_legal {earlier : List Descriptor} (h : Blames earlier d error) :
    ¬ Legal (d :: earlier) := by
  intro hlegal
  have hnew := (legal_cons.mp hlegal).2
  cases h with
  | duplicate hmem heq => exact (hnew _ hmem).1 heq
  | clash _ hmem hclash =>
    rcases hclash with ⟨hbars, -⟩ | ⟨hbars, -⟩
    · exact (hnew _ hmem).2.1 hbars
    · exact (hnew _ hmem).2.2 hbars

end WorkingSet

/-! ### Items of descriptors -/

namespace Item

open Descriptor

theorem bare_ofDescriptor (d : Descriptor) : (ofDescriptor d).Bare := by
  intro b hb
  cases h : d.kind <;> simp only [ofDescriptor, h, reduceCtorEq, Item.branch.injEq] at hb
  exact hb ▸ rfl

@[simp] theorem oid_ofDescriptor (d : Descriptor) : (ofDescriptor d).oid = d.oid := by
  rw [← oid_descriptor]
  exact oid_kept

theorem descriptors_ofDescriptor (d : Descriptor) : (ofDescriptor d).descriptors = [d.kept] := by
  cases h : d.kind <;>
    simp [ofDescriptor, h, kept, descriptors_branch, Branch.members]

theorem eq_of_ofDescriptor_scalar {d : Descriptor} {s : Scalar}
    (h : ofDescriptor d = .scalar s) : d.kind = .scalar ∧ d.oid = s.oid := by
  have hkept : d.kept = (Item.scalar s).descriptor := congrArg Item.descriptor h
  exact ⟨by rw [← kind_kept, hkept]; rfl, by rw [← oid_kept, hkept]; rfl⟩

theorem eq_of_ofDescriptor_branch {d : Descriptor} {b : Branch Item}
    (h : ofDescriptor d = .branch b) : d.kind = .branch ∧ d.oid = b.oid := by
  have hkept : d.kept = (Item.branch b).descriptor := congrArg Item.descriptor h
  exact ⟨by rw [← kind_kept, hkept]; rfl, by rw [← oid_kept, hkept]; rfl⟩

end Item

/-! ### Building -/

namespace Forest

open WorkingSet

variable {forest : Forest} {earlier descriptors : List Descriptor} {d : Descriptor}

/-- The forest is well nested and holds the objects of a legal working set. -/
structure Represents (forest : Forest) (descriptors : List Descriptor) : Prop where
  wellNested : forest.WellNested
  nodes : forest.descriptors.Perm (descriptors.map Descriptor.kept)
  legal : Legal descriptors

theorem Represents.empty : Forest.empty.Represents [] := ⟨wellNested_empty, .nil, .nil⟩

theorem Represents.perm {others : List Descriptor} (h : forest.Represents descriptors)
    (hperm : descriptors.Perm others) : forest.Represents others :=
  ⟨h.wellNested, h.nodes.trans (hperm.map _), h.legal.perm hperm⟩

/-- The nodes of the forest are those of the working set. -/
theorem Represents.mem_items_iff (h : forest.Represents descriptors) {e : Descriptor} :
    (∃ x ∈ forest.items, x.descriptor = e) ↔ ∃ d ∈ descriptors, d.kept = e := by
  have hmem := h.nodes.mem_iff (a := e)
  rw [descriptors_eq] at hmem
  simpa only [List.mem_map] using hmem

theorem Represents.exists_oid (h : forest.Represents descriptors) {x : Item}
    (hx : x ∈ forest.items) : ∃ e ∈ descriptors, e.oid = x.oid := by
  obtain ⟨e, he, heq⟩ := h.mem_items_iff.mp ⟨x, hx, rfl⟩
  refine ⟨e, he, ?_⟩
  rw [← Descriptor.oid_kept, heq, Item.oid_descriptor]

/-- A forest of a legal working set accepts the next descriptor, whose identifier is new, or
its error blames the descriptor. -/
theorem Represents.insert (h : forest.Represents earlier)
    (hfresh : ∀ first ∈ earlier, first.oid ≠ d.oid) :
    ((forest.insert (.ofDescriptor d)).error? = none ∧
        (forest.insert (.ofDescriptor d)).after.Represents (d :: earlier)) ∨
      ∃ error, (forest.insert (.ofDescriptor d)).error? = some error ∧
        Blames earlier d error := by
  have hnew : ∀ x ∈ forest.items, x.oid ≠ (Item.ofDescriptor d).oid := by
    intro x hx heq
    obtain ⟨first, hfirst, hoid⟩ := h.exists_oid hx
    rw [heq, Item.oid_ofDescriptor] at hoid
    exact hfresh first hfirst hoid
  have hbare := Item.bare_ofDescriptor d
  have hcase := Item.merge_bare h.wellNested hbare
  generalize houtcome : Item.merge forest.roots (.ofDescriptor d) = outcome at hcase
  have hinsert : forest.insert (.ofDescriptor d) = outcome.map Forest.mk :=
    congrArg (Outcome.map Forest.mk) houtcome
  cases hcase with
  | accepted _ _ hfree =>
    have hok : (forest.insert (.ofDescriptor d)).error? = none := by rw [hinsert]; rfl
    refine .inl ⟨hok, h.wellNested.insert hbare.wellNested, ?_, legal_cons.mpr ⟨h.legal, ?_⟩⟩
    · have hperm := (insert_perm hok).trans (h.nodes.append_right _)
      rw [Item.descriptors_ofDescriptor] at hperm
      exact hperm.trans (List.perm_append_singleton _ _)
    · intro e he
      obtain ⟨x, hx, heq⟩ := h.mem_items_iff.mpr ⟨e, he, rfl⟩
      have hbars := hfree x hx
      rw [heq, ← Descriptor.kept, Descriptor.bars_kept, Descriptor.bars_kept] at hbars
      exact ⟨hfresh e he, hbars⟩
  | repeated hx heq => exact absurd heq (hnew _ hx)
  | @clash x error _ hx hclash =>
    obtain ⟨e, he, heq⟩ := h.mem_items_iff.mp ⟨x, hx, rfl⟩
    rw [← heq, ← Descriptor.kept, Descriptor.clash_kept] at hclash
    exact .inr ⟨error, by rw [hinsert]; rfl, .clash hfresh he hclash⟩

/-- Inserting further descriptors represents them too, or blames the first one that breaks
the law. -/
theorem Represents.buildFrom (h : forest.Represents earlier) (rest : List Descriptor) :
    (∃ final, buildFrom earlier forest rest = .ok final ∧
        final.Represents (rest.reverse ++ earlier)) ∨
      ∃ before d after error, rest = before ++ d :: after ∧
        buildFrom earlier forest rest = .error error ∧ Legal (before.reverse ++ earlier) ∧
        Blames (before.reverse ++ earlier) d error := by
  induction rest generalizing forest earlier with
  | nil => exact .inl ⟨forest, rfl, h⟩
  | cons d rest ih =>
    cases hfind : earlier.find? (·.oid = d.oid) with
    | some first =>
      refine .inr ⟨[], d, rest, .duplicateOid d.oid.dotted first.name d.name, rfl, ?_, h.legal, ?_⟩
      · simp only [Forest.buildFrom, hfind]
      · exact .duplicate (List.mem_of_find?_eq_some hfind) (by simpa using List.find?_some hfind)
    | none =>
      have hfresh : ∀ first ∈ earlier, first.oid ≠ d.oid := by simpa using hfind
      rcases h.insert hfresh with ⟨hok, hnext⟩ | ⟨error, herror, hblames⟩
      · have hstep : Forest.buildFrom earlier forest (d :: rest) =
            Forest.buildFrom (d :: earlier) (forest.insert (.ofDescriptor d)).after rest := by
          simp only [Forest.buildFrom, hfind, Outcome.toExcept, hok]
          rfl
        rw [hstep]
        rcases ih hnext with ⟨final, hfinal, hrep⟩ | ⟨before, e, after, error, rfl, hrest⟩
        · exact .inl ⟨final, hfinal, by simpa using hrep⟩
        · exact .inr ⟨d :: before, e, after, error, rfl, by simpa using hrest⟩
      · refine .inr ⟨[], d, rest, error, rfl, ?_, h.legal, hblames⟩
        simp only [Forest.buildFrom, hfind, Outcome.toExcept, herror]
        rfl

/-- Building represents the working set, or blames the first descriptor that breaks the law. -/
theorem build_cases (descriptors : List Descriptor) :
    (∃ forest, build descriptors = .ok forest ∧ forest.Represents descriptors) ∨
      ∃ before d after error, descriptors = before ++ d :: after ∧
        build descriptors = .error error ∧ Legal before ∧ Blames before d error := by
  -- Descriptors are held last first on the way, which makes no difference in the end.
  rcases Represents.empty.buildFrom descriptors with
    ⟨final, hfinal, hrep⟩ | ⟨before, d, after, error, hsplit, herror, hlegal, hblames⟩
  · rw [List.append_nil] at hrep
    exact .inl ⟨final, hfinal, hrep.perm (List.reverse_perm _)⟩
  · rw [List.append_nil] at hlegal hblames
    have hperm := List.reverse_perm before
    exact .inr ⟨before, d, after, error, hsplit, herror, hlegal.perm hperm, hblames.perm hperm⟩

/-- What is built represents the working set. -/
theorem represents_of_build (h : build descriptors = .ok forest) :
    forest.Represents descriptors := by
  rcases build_cases descriptors with ⟨final, hfinal, hrep⟩ | ⟨-, -, -, error, -, herror, -⟩
  · rw [h] at hfinal
    exact Except.ok.inj hfinal ▸ hrep
  · rw [h] at herror
    cases herror

/-- Building accepts exactly the legal working sets. Otherwise it stops at the least index up
to which the descriptors break the law, and the error blames the descriptor there. -/
theorem build_ok_iff_legal (descriptors : List Descriptor) :
    ((∃ forest, build descriptors = .ok forest) ↔ Legal descriptors) ∧
      ∀ error, build descriptors = .error error →
        ∃ i d, descriptors[i]? = some d ∧ IsLeast {j | ¬ Legal (descriptors.take (j + 1))} i ∧
          Blames (descriptors.take i) d error := by
  rcases build_cases descriptors with
    ⟨final, hfinal, hrep⟩ | ⟨before, d, after, error, rfl, herror, hlegal, hblames⟩
  · refine ⟨iff_of_true ⟨final, hfinal⟩ hrep.legal, ?_⟩
    intro error herror
    rw [hfinal] at herror
    cases herror
  · have hbreak : ¬ Legal (before ++ [d]) := fun hall =>
      hblames.not_legal (hall.perm (List.perm_append_singleton _ _))
    refine ⟨iff_of_false ?_ fun hall => hbreak (hall.sublist (by simp)), ?_⟩
    · rintro ⟨forest, hok⟩
      rw [herror] at hok
      cases hok
    · intro other hother
      obtain rfl := Except.error.inj (herror.symm.trans hother)
      refine ⟨before.length, d, by simp, ⟨?_, ?_⟩, by simpa using hblames⟩
      · have htake : (before ++ d :: after).take (before.length + 1) = before ++ [d] := by
          rw [List.take_length_add_append, List.take_succ_cons, List.take_zero]
        rwa [Set.mem_ofPred_eq, htake]
      · intro j hj
        by_contra hlt
        have hle : j + 1 ≤ before.length := by omega
        rw [Set.mem_ofPred_eq, List.take_append_of_le_length hle] at hj
        exact hj (hlegal.sublist (List.take_sublist _ _))

/-- A scalar arrives above one that was passed down before. -/
def parkedBelow : List Descriptor :=
  [{ name := "ifMtu", kind := .scalar, oid := ⟨[1, 3, 2, 1]⟩ },
    { name := "if", kind := .branch, oid := ⟨[1]⟩ },
    { name := "ifEntry", kind := .branch, oid := ⟨[1, 3, 2]⟩ },
    { name := "ifTable", kind := .scalar, oid := ⟨[1, 3]⟩ }]

theorem build_blames_parkedBelow :
    ∃ i d, parkedBelow[i]? = some d ∧
      IsLeast {j | ¬ Legal (parkedBelow.take (j + 1))} i ∧
      Blames (parkedBelow.take i) d (.leafHasDescendant "ifTable" "1.3" "ifEntry") :=
  (build_ok_iff_legal parkedBelow).2 _ rfl

end Forest

end MibDrivers
