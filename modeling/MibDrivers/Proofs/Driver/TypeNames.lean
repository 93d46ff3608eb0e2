import MibDrivers.Proofs.Driver.Layout
import MibDrivers.Proofs.Naming.Identifier

/-!
# Type names that classes capture

The source of a driver uses types that it does not define: those of the runtime, `Self`, and the
`Option` of an index. A class with such a name would capture it. The names of the runtime types
are reserved and `Self` is escaped. `Option` is neither, so a branch called `option` captures
it, unless the root class has the name already.

## Main definitions

* `Driver.usedTypes` — the types that the source uses without defining them
* `Driver.Captures` — a class other than the root class has a given name

## Main results

* `Driver.captures_iff_of_plan` — which names the classes have
* `Driver.plan_captures_iff` — which of the used types are captured
-/

namespace MibDrivers

namespace Naming

/-! ### The candidate `Option` -/

/-- A table of runs does not lead to a code point that lies on one side of all images of each
run. -/
theorem mapByRuns_ne {runs : List (Nat × Nat × Nat × Nat)} {n image target : Nat}
    (hruns : ∀ run ∈ runs, target < run.2.2.2 ∨ run.2.2.2 + (run.2.1 - run.1) < target)
    (h : Text.mapByRuns runs n = some image) : image ≠ target := by
  obtain ⟨⟨first, last, stride, start⟩, hmem, himage⟩ := List.exists_of_findSome?_eq_some h
  simp only [Option.ite_none_right_eq_some, Bool.and_eq_true, decide_eq_true_eq,
    Option.some.injEq] at himage
  have hside := hruns _ hmem
  dsimp only at hside
  omega

/-- The upper case of a character beyond ASCII does not begin with `O`. -/
theorem exists_head_uppercase {c : Char} (h : ¬ c.toNat < 0x80) :
    ∃ d rest, Text.uppercase c = d :: rest ∧ d ≠ 'O' := by
  rw [Text.uppercase, if_neg h, Text.mapCase]
  cases hlookup : Text.toUpperExpansions.lookup c.toNat with
  | some image =>
    have hall : ∀ entry ∈ Text.toUpperExpansions, ∃ n ∈ entry.2.head?, Char.ofNat n ≠ 'O' := by
      decide
    obtain ⟨before, after, htable, -⟩ := List.lookup_eq_some_iff.mp hlookup
    obtain ⟨n, hn, hne⟩ := hall (c.toNat, image) (by simp [htable])
    obtain ⟨rest, rfl⟩ := List.head?_eq_some_iff.mp hn
    exact ⟨_, _, rfl, hne⟩
  | none =>
    refine ⟨_, [], rfl, ?_⟩
    cases hrun : Text.mapByRuns Text.toUpperRuns c.toNat with
    | none =>
      rintro rfl
      exact h (by decide)
    | some n =>
      have hne : n ≠ 'O'.toNat := mapByRuns_ne (by decide +kernel) hrun
      -- A number of no character stands for the character with the number 0.
      intro heq
      rw [Option.map_some, Option.getD_some] at heq
      by_cases hvalid : n.isValidChar
      · rw [Char.ofNat, dif_pos hvalid] at heq
        exact hne (congrArg Char.toNat heq)
      · rw [Char.ofNat, dif_neg hvalid] at heq
        cases heq

/-- Two names of branches give the candidate `Option`. -/
theorem className_eq_option_iff {name : String} :
    className name = "Option" ↔ name = "option" ∨ name = "Option" := by
  constructor
  · intro h
    have hcandidate : typeCandidate name = "Option" := by
      rcases className_cases name with hname | ⟨hname, -⟩
      · have hlast : '_' ∈ (typeCandidate name ++ "_").toList := by simp
        rw [← hname, h] at hlast
        exact absurd hlast (by decide)
      · rw [← hname, h]
    have hlist : capitalize name.toList = ['O', 'p', 't', 'i', 'o', 'n'] := by
      have hchars := congrArg String.toList hcandidate
      rw [typeCandidate, String.toList_ofList] at hchars
      exact eq_of_map_identifierChar (hchars.trans (by decide)) (by decide)
    cases hname : name.toList with
    | nil =>
      rw [hname] at hlist
      cases hlist
    | cons c rest =>
      rw [hname, capitalize] at hlist
      by_cases hascii : c.toNat < 0x80
      · rw [Text.uppercase, if_pos hascii] at hlist
        rw [List.singleton_append, List.cons.injEq] at hlist
        -- Two ASCII letters have `O` as their upper case.
        have hfirst : c = 'o' ∨ c = 'O' :=
          forall_ascii (fun c => c.toUpper = 'O' → c = 'o' ∨ c = 'O') (by decide)
            hascii hlist.1
        rw [← String.toList_inj, ← String.toList_inj, hname, hlist.2]
        rcases hfirst with rfl | rfl
        · exact .inl (by decide)
        · exact .inr (by decide)
      · obtain ⟨d, tail, hupper, hne⟩ := exists_head_uppercase hascii
        rw [hupper] at hlist
        exact absurd (List.cons.inj hlist).1 hne
  · rintro (rfl | rfl) <;> decide

end Naming

namespace Driver

variable {options : Options} {forest : Forest} {classes : List Class} {name : String}

/-- The types that the source of a driver uses and that it does not define. -/
def usedTypes : List String := runtimeTypes ++ ["Self", "Option"]

/-- A class other than the root class has the name. -/
def Captures (classes : List Class) (name : String) : Prop :=
  ∃ c ∈ classes, c.kind ≠ .root ∧ c.name = name

/-- A name that does not end in a digit belongs to a class exactly if it is not reserved and a
branch gives it. -/
theorem captures_iff_of_plan (h : plan options forest = .ok classes)
    (hend : Text.endsIn Text.isDigit name = false) :
    Captures classes name ↔ name ∉ options.rootName :: runtimeTypes ∧
      ∃ b ∈ forest.branches, Naming.className b.name = name := by
  obtain ⟨planned, root, hlaid, hmade, rfl, -, hkind, -, -⟩ := exists_laid_of_plan h
  rw [← taken_classNames, forest.branches_eq]
  constructor
  · rintro ⟨c, hc, hne, rfl⟩
    have hbelow := (hmade.mem_classes_iff hkind).mpr ⟨hc, hne⟩
    obtain ⟨b, hb, hcalled⟩ := exists_of_forall₂ hlaid.follows.named hbelow
    refine ⟨hmade.names.free c.name (List.mem_map_of_mem hbelow), b, hb, ?_⟩
    exact (NameRegistry.Variant.eq_of_endsIn hcalled hend).symm
  · rintro ⟨hfree, b, hb, rfl⟩
    -- Once the branch is planned its candidate is taken, be it by its own class or before.
    have htaken := (hmade.names.taken _).mp (hlaid.taken b hb)
    obtain ⟨c, hc, hname⟩ := List.mem_map.mp (htaken.resolve_right hfree)
    obtain ⟨hmem, hne⟩ := (hmade.mem_classes_iff hkind).mp hc
    exact ⟨c, hmem, hne, hname⟩

/-- Of the types that the source uses without defining them a class captures at most `Option`:
it does if a branch is called so, with or without a capital, and the root class is not. -/
theorem plan_captures_iff (h : plan options forest = .ok classes) (hname : name ∈ usedTypes) :
    Captures classes name ↔ name = "Option" ∧ options.rootName ≠ "Option" ∧
      ∃ b ∈ forest.branches, b.name = "option" ∨ b.name = "Option" := by
  have hall : ∀ name ∈ usedTypes, Text.endsIn Text.isDigit name = false := by decide
  rw [captures_iff_of_plan h (hall name hname)]
  rcases List.mem_append.mp hname with hruntime | hother
  · -- The types of the runtime are reserved, and `Option` is none of them.
    refine iff_of_false (fun hcaptured => hcaptured.1 (List.mem_cons_of_mem _ hruntime)) ?_
    rintro ⟨rfl, -⟩
    exact absurd hruntime (by decide)
  rcases List.mem_cons.mp hother with rfl | hoption
  · -- `Self` is in a table of keywords.
    refine iff_of_false ?_ (by simp)
    rintro ⟨-, b, -, hself⟩
    refine Naming.className_not_kept b.name ?_
    rw [hself]
    decide
  · obtain rfl := List.mem_singleton.mp hoption
    have hreserved : "Option" ∈ options.rootName :: runtimeTypes ↔ options.rootName = "Option" := by
      rw [List.mem_cons, eq_comm, or_iff_left (by decide)]
    simp only [hreserved, Naming.className_eq_option_iff, true_and]

/-- A branch that captures `Option`, with a leaf whose accessor needs it. -/
def optional : Forest where
  roots := [.branch {
    name := "option", oid := ⟨[1, 3]⟩
    leaves := [{ name := "ifIndex", oid := ⟨[1, 3, 1]⟩, access := .readOnly }] }]

/-- The plan for `optional`. -/
def optionalPlan : List Class :=
  [{ name := "Option", kind := .leaves, oid := some ⟨[1, 3]⟩, description := "",
      members := [⟨"if_index", .leaf .readOnly ⟨[1, 3, 1]⟩, ""⟩] },
    { name := "MibDriver", kind := .root, oid := none, description := "",
      members := [⟨"option", .child "Option", ""⟩] }]

theorem plan_captures_optional :
    plan {} optional = .ok optionalPlan ∧ Captures optionalPlan "Option" ∧
      ¬ Captures optionalPlan "Self" := by
  have h : plan {} optional = .ok optionalPlan := by decide +kernel
  have hoption : "Option" ∈ usedTypes := by decide
  have hself : "Self" ∈ usedTypes := by decide
  refine ⟨h, (plan_captures_iff h hoption).mpr ⟨rfl, by decide, ?_⟩, fun hcaptured => ?_⟩
  · rw [optional.branches_eq]
    exact ⟨_, List.mem_cons_self, .inl rfl⟩
  · exact absurd ((plan_captures_iff h hself).mp hcaptured).1 (by decide)

/-- A class captures a type that the source uses, although the root class has another name. -/
theorem plan_captures_prelude_option :
    plan {} optional = .ok optionalPlan ∧ ({} : Options).rootName ∉ usedTypes ∧
      "Option" ∈ usedTypes ∧ Captures optionalPlan "Option" :=
  ⟨by decide +kernel, by decide, by decide, _, List.mem_cons_self, by decide, rfl⟩

end Driver

end MibDrivers
