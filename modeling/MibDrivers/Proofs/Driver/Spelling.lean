import MibDrivers.Proofs.Driver.Methods
import MibDrivers.Proofs.Driver.References
import MibDrivers.Settings.Validity

/-!
# How a plan is spelled

All names in a plan are words of ASCII letters, digits and `_`, in names of methods also with the
prefix `r#`, as long as the name of the root class is one. Beside its names, a class of a plan
says nothing twice that could disagree: only the root class has no identifier, and it has no
description; and a class is a group exactly if a member leads to another class.

## Main definitions

* `Driver.Class.Regular` — what holds of each class of a plan

## Main results

* `Driver.plan_regular` — every class of a plan is regular
-/

namespace MibDrivers

namespace Naming

variable {name candidate : String} {x : Char}

/-- The characters of the names of methods. -/
def isMethodChar (c : Char) : Bool := isWordChar c || c = '#'

theorem isWordChar_of_mem_className (h : x ∈ (className name).toList) : isWordChar x := by
  have hcandidate : ∀ x ∈ (typeCandidate name).toList, isWordChar x := by
    intro x hx
    rw [typeCandidate, String.toList_ofList] at hx
    obtain ⟨c, -, rfl⟩ := List.mem_map.mp hx
    exact isWordChar_identifierChar c
  rcases className_cases name with heq | ⟨heq, -⟩
  · rw [heq, String.toList_append, List.mem_append] at h
    rcases h with hmem | hescape
    · exact hcandidate x hmem
    · obtain rfl : x = '_' := by simpa using hescape
      rfl
  · exact hcandidate x (heq ▸ h)

theorem isMethodChar_of_mem_methodName (h : x ∈ (methodName name).toList) : isMethodChar x := by
  have hcandidate : ∀ x ∈ (methodCandidate name).toList, isMethodChar x := by
    intro x hx
    rw [methodCandidate, String.toList_ofList] at hx
    obtain ⟨c, -, rfl⟩ := List.mem_map.mp hx
    exact Bool.or_eq_true_iff.mpr (.inl (isWordChar_identifierChar c))
  rcases methodName_cases name with ⟨heq, -⟩ | heq | ⟨heq, -⟩
  · rw [heq, String.toList_append, List.mem_append] at h
    rcases h with hprefix | hmem
    · have hall : "r#".toList.all isMethodChar := by decide
      exact List.all_eq_true.mp hall x hprefix
    · exact hcandidate x hmem
  · rw [heq, String.toList_append, List.mem_append] at h
    rcases h with hmem | hescape
    · exact hcandidate x hmem
    · obtain rfl : x = '_' := by simpa using hescape
      rfl
  · exact hcandidate x (heq ▸ h)

/-- A number adds only characters of words. -/
theorem mem_or_isWordChar_of_variant {i : Nat}
    (h : x ∈ (NameRegistry.variant candidate i).toList) : x ∈ candidate.toList ∨ isWordChar x := by
  by_cases hdigit : Text.isDigit x
  · exact .inr (by simp [isWordChar, hdigit])
  · exact .inl ((mem_variant (by simpa using hdigit)).mp h)

theorem isWordChar_of_isRootName {cs : List Char} (h : Settings.isRootName cs) (hx : x ∈ cs) :
    isWordChar x := by
  cases cs with
  | nil => cases hx
  | cons c rest =>
    simp only [Settings.isRootName, Bool.and_eq_true, decide_eq_true_eq, List.all_eq_true] at h
    rcases List.mem_cons.mp hx with rfl | hrest
    · simp [isWordChar, isLetter, h.1]
    · have hname := h.2 x hrest
      simpa [Settings.isNameChar, isWordChar, isLetter, Text.isDigit, Text.isAsciiAlphanumeric]
        using hname

end Naming

namespace Driver

open Naming (isWordChar isMethodChar)

/-- The class is spelled in words, and what it says beside its members agrees with them and with
its identifier. -/
structure Class.Regular (c : Class) : Prop where
  name : ∀ x ∈ c.name.toList, isWordChar x
  methods : ∀ m ∈ c.members, ∀ x ∈ m.method.toList, isMethodChar x
  children : ∀ m ∈ c.members, ∀ name, m.target = .child name → ∀ x ∈ name.toList, isWordChar x
  root : c.kind = .root ↔ c.oid = none
  undescribed : c.oid = none → c.description = ""
  group : c.kind ≠ .root → (c.kind = .group ↔ ∃ m ∈ c.members, ∃ name, m.target = .child name)

variable {options : Options} {forest : Forest} {classes : List Class} {c : Class}
  {b : Branch Item} {m : Member}

/-- A class is a group exactly if a member leads to another class. -/
theorem Class.Mirrors.group_iff (h : c.Mirrors classes b) :
    c.kind = .group ↔ ∃ m ∈ c.members, ∃ name, m.target = .child name := by
  have hkind : c.kind = .group ↔ ∃ child, .branch child ∈ b.children := by
    rw [h.kind, ← Branch.hasChildBranches_iff]
    split_ifs with hbranches <;> simp [hbranches]
  rw [hkind]
  constructor
  · rintro ⟨child, hchild⟩
    obtain ⟨m, hm, hoffers⟩ := exists_of_forall₂ h.members.flip
      (List.mem_map_of_mem (f := Item.descriptor) (Branch.mem_members_of_child hchild))
    exact ⟨m, hm, hoffers.target_of_branch⟩
  · rintro ⟨m, hm, name, htarget⟩
    obtain ⟨x, hx, hoffers⟩ := h.exists_member hm
    rcases Branch.mem_members.mp hx with ⟨s, -, rfl⟩ | hchild
    · obtain ⟨kind, oid, hleaf⟩ := hoffers.target_of_scalar
      rw [hleaf] at htarget
      cases htarget
    · cases x with
      | branch child => exact ⟨child, hchild⟩
      | scalar s =>
        obtain ⟨kind, oid, hleaf⟩ := hoffers.target_of_scalar
        rw [hleaf] at htarget
        cases htarget

/-- The methods for some items are spelled as methods. -/
theorem Class.MethodsFor.spelled {items : List Item} (h : c.MethodsFor items)
    (hm : m ∈ c.members) {x : Char} (hx : x ∈ m.method.toList) : isMethodChar x := by
  have hmethod : m.method ∈ Naming.methodsFor (items.map Item.name) := by
    rw [← h]
    exact List.mem_map_of_mem hm
  obtain ⟨name, -, i, heq⟩ := Naming.exists_variant_of_mem_methodsFor hmethod
  rw [heq] at hx
  rcases Naming.mem_or_isWordChar_of_variant hx with hmem | hword
  · exact Naming.isMethodChar_of_mem_methodName hmem
  · exact Bool.or_eq_true_iff.mpr (.inl hword)

/-- The name of a class is spelled in words if that of the root class is. -/
theorem isWordChar_of_mem_name (h : plan options forest = .ok classes)
    (hroot : Settings.isRootName options.rootName.toList) (hc : c ∈ classes) {x : Char}
    (hx : x ∈ c.name.toList) : isWordChar x := by
  obtain ⟨planned, root, hlaid, -, rfl, hname, -, -, -⟩ := exists_laid_of_plan h
  rcases List.mem_append.mp hc with hmem | hlast
  · obtain ⟨b, -, hcalled⟩ := exists_of_forall₂ hlaid.follows.named hmem
    obtain ⟨i, heq⟩ := NameRegistry.variant_iff.mp hcalled
    rw [heq] at hx
    rcases Naming.mem_or_isWordChar_of_variant hx with hcandidate | hword
    · exact Naming.isWordChar_of_mem_className hcandidate
    · exact hword
  · rw [List.mem_singleton.mp hlast, hname] at hx
    exact Naming.isWordChar_of_isRootName hroot hx

/-- A member that leads to a class leads to one of the plan. -/
theorem exists_class_of_child (h : plan options forest = .ok classes) (hc : c ∈ classes)
    (hm : m ∈ c.members) {name : String} (htarget : m.target = .child name) :
    ∃ d ∈ classes, d.name = name := by
  obtain ⟨planned, root, hlaid, -, rfl, -, -, -, hmembers⟩ := exists_laid_of_plan h
  have hreferred : name ∈ (planned.classes ++ [root]).flatMap fun c => references c.members := by
    refine List.mem_flatMap.mpr ⟨c, hc, List.mem_filterMap.mpr ⟨m, hm, ?_⟩⟩
    rw [htarget]
    rfl
  rw [(hlaid.references_perm hmembers).mem_iff] at hreferred
  obtain ⟨d, hd, hname⟩ := List.mem_map.mp hreferred
  exact ⟨d, List.mem_append_left _ hd, hname⟩

/-- Every class of a plan is regular. -/
theorem plan_regular (h : plan options forest = .ok classes)
    (hroot : Settings.isRootName options.rootName.toList) (hc : c ∈ classes) : c.Regular := by
  have hmethods : ∃ items : List Item, c.MethodsFor items := by
    rcases exists_methodsFor_of_plan h hc with ⟨b, -, -, hmethods⟩ | ⟨-, hmethods⟩
    · exact ⟨b.members, hmethods⟩
    · exact ⟨forest.roots, hmethods⟩
  obtain ⟨items, hmethods⟩ := hmethods
  have hchildren : ∀ m ∈ c.members, ∀ name, m.target = .child name →
      ∀ x ∈ name.toList, isWordChar x := by
    rintro m hm name htarget x hx
    obtain ⟨d, hd, rfl⟩ := exists_class_of_child h hc hm htarget
    exact isWordChar_of_mem_name h hroot hd hx
  have hspelled : ∀ x ∈ c.name.toList, isWordChar x := fun x => isWordChar_of_mem_name h hroot hc
  obtain ⟨planned, hplanned, heq⟩ := bind_eq_ok.mp h
  obtain rfl := Except.ok.inj heq
  rcases List.mem_append.mp hc with hmem | hlast
  · obtain ⟨b, -, hmirrors⟩ := exists_of_forall₂ (planSiblings_mirrors hplanned).classes hmem
    refine ⟨hspelled, fun m hm x => hmethods.spelled hm, hchildren, ?_, ?_,
      fun _ => hmirrors.group_iff⟩
    · exact iff_of_false hmirrors.kind_ne_root (by simp [hmirrors.oid])
    · intro hnone
      rw [hmirrors.oid] at hnone
      cases hnone
  · obtain rfl := List.mem_singleton.mp hlast
    exact ⟨hspelled, fun m hm x => hmethods.spelled hm, hchildren, iff_of_true rfl rfl,
      fun _ => rfl, fun hne => absurd rfl hne⟩

end Driver

end MibDrivers
