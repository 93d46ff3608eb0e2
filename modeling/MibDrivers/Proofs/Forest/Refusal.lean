import MibDrivers.Proofs.Forest.Legality
import MibDrivers.Proofs.Forest.Runs

/-!
# Refused insertions

An insertion that adopts gives up siblings on its way if it is refused. For an item without
content that never happens: what a branch without content adopts stands apart, so it can
receive all of it, and every refusal comes before the first change.

Not every identifier that occurs in the forest is refused. A scalar is compared with the
top-level items only, and a branch with the items of the levels through which it passes,
but never with leaves. So a forest may come to hold an identifier twice, and a repetition is
reported exactly if a top-level item has the identifier, or if a branch has it and the item
is a branch too.

## Main definitions

* `Forest.Collected` — forests that successful insertions of items without content reach

## Main results

* `Forest.Reached.insert_refused` — a refused insertion of an item without content changes
  nothing
* `Forest.Collected.insert_repeated_iff` — when an insertion reports a repeated identifier
-/

namespace MibDrivers

namespace Forest

variable {forest : Forest} {item : Item}

/-! ### Nothing changes -/

/-- In every forest that a run reaches, a refused insertion of an item without content leaves
the forest exactly as it was. -/
theorem Reached.insert_refused (h : forest.Reached) (hbare : item.Bare)
    (herror : (forest.insert item).error? ≠ none) : (forest.insert item).after = forest := by
  obtain ⟨outcome, hcase, hinsert⟩ := h.wellNested.insert_bare hbare
  rw [hinsert] at herror ⊢
  cases hcase with
  | accepted => exact absurd rfl herror
  | repeated => rfl
  | clash => rfl

/-- A run of which a step is refused: a scalar, the branch above it with another scalar already
in it, the branch above both, a scalar in the place of the first branch, and a
reconciliation. -/
def rebuffed : Forest :=
  let entry : Branch Item := { name := "ifEntry", oid := ⟨[1, 3, 2]⟩ }
  let filled := (entry.attach (.scalar { name := "ifType", oid := ⟨[1, 3, 2, 3]⟩ })).after
  let forest := (empty.insert (.scalar { name := "ifMtu", oid := ⟨[1, 3, 2, 1]⟩ })).after
  let forest := (forest.insert (.branch filled)).after
  let forest := (forest.insert (.branch { name := "if", oid := ⟨[1, 3]⟩ })).after
  (forest.insert (.scalar { name := "ifTable", oid := ⟨[1, 3, 2]⟩ })).after.reconcile.after

theorem Reached.rebuffed : rebuffed.Reached := by
  refine .reconcile (.insert (.insert (.insert (.insert .empty ?_) ?_) ?_) ?_)
  · exact .scalar _
  · exact .attach (.branch _ _ _) (.scalar _) (by decide)
  · exact .branch _ _ _
  · exact .scalar _

theorem Reached.insert_refused_rebuffed :
    (Forest.rebuffed.insert (.branch { name := "ifRow", oid := ⟨[1, 3, 2]⟩ })).error? =
        some (.duplicateOid "1.3.2" "ifEntry" "ifRow") ∧
      (Forest.rebuffed.insert (.branch { name := "ifRow", oid := ⟨[1, 3, 2]⟩ })).after =
        Forest.rebuffed := by
  have herror : (Forest.rebuffed.insert (.branch { name := "ifRow", oid := ⟨[1, 3, 2]⟩ })).error? =
      some (.duplicateOid "1.3.2" "ifEntry" "ifRow") := by decide +kernel
  refine ⟨herror, insert_refused .rebuffed (Item.bare_branch.mpr rfl) ?_⟩
  rw [herror]
  exact Option.some_ne_none _

/-! ### Repeated identifiers -/

/-- A forest that a run of successful insertions of items without content reaches. -/
inductive Collected : Forest → Prop
  | empty : Collected empty
  | insert {forest : Forest} {item : Item} (h : Collected forest) (hbare : item.Bare)
      (hok : (forest.insert item).error? = none) : Collected (forest.insert item).after

theorem Collected.wellNested (h : forest.Collected) : forest.WellNested := by
  induction h with
  | empty => exact wellNested_empty
  | insert _ hbare _ ih => exact ih.insert hbare.wellNested

/-- No scalar of the forest contains another node, although identifiers may repeat. -/
theorem Collected.unbarred (h : forest.Collected) :
    ∀ leaf ∈ forest.descriptors, ∀ d ∈ forest.descriptors, ¬ leaf.Bars d := by
  induction h with
  | empty => exact fun _ hleaf => absurd hleaf List.not_mem_nil
  | @insert forest item h hbare hok ih =>
    obtain ⟨outcome, hcase, hinsert⟩ := h.wellNested.insert_bare hbare
    have hfree : ∀ d ∈ forest.descriptors,
        ¬ d.Bars item.descriptor ∧ ¬ item.descriptor.Bars d := by
      rw [hinsert] at hok
      cases hcase with
      | accepted _ _ hfree =>
        intro d hd
        obtain ⟨x, hx, rfl⟩ := List.mem_map.mp hd
        exact hfree x hx
      | repeated => cases hok
      | clash => cases hok
    -- The nodes afterwards are those from before and the item, which clashes with none.
    have hnodes : ∀ d ∈ (forest.insert item).after.descriptors,
        d ∈ forest.descriptors ∨ d = item.descriptor := by
      intro d hd
      rw [(insert_perm hok).mem_iff, hbare.descriptors] at hd
      simpa using hd
    intro leaf hleaf d hd
    rcases hnodes leaf hleaf with hold | rfl <;> rcases hnodes d hd with hmem | rfl
    · exact ih leaf hold d hmem
    · exact (hfree leaf hold).1
    · exact (hfree d hmem).2
    · exact fun hbars => lt_irrefl _ hbars.2

/-- In a forest collected from items without content, inserting such an item reports a
repeated identifier exactly if a top-level item has the identifier of the item, or if a
branch has it and the item is a branch. -/
theorem Collected.insert_repeated_iff (h : forest.Collected) (hbare : item.Bare) :
    (∃ x ∈ forest.items, x.oid = item.oid ∧ (forest.insert item).error? =
        some (.duplicateOid item.oid.dotted x.name item.name)) ↔
      (∃ x ∈ forest.roots, x.oid = item.oid) ∨
        (∃ c, item = .branch c) ∧ ∃ b, .branch b ∈ forest.items ∧ b.oid = item.oid := by
  obtain ⟨outcome, hcase, hinsert⟩ := h.wellNested.insert_bare hbare
  rw [hinsert]
  cases hcase with
  | accepted _ hnew _ => exact iff_of_false (fun ⟨_, _, _, herror⟩ => by cases herror) hnew
  | repeated hx heq hrepeats => exact iff_of_true ⟨_, hx, heq, rfl⟩ hrepeats
  | @clash x error hnew hx hclash =>
    refine iff_of_false ?_ ?_
    · rintro ⟨y, -, -, herror⟩
      obtain rfl := Option.some.inj herror
      rcases hclash with ⟨-, heq⟩ | ⟨-, heq⟩ <;> cases heq
    · rintro (⟨y, hy, heq⟩ | ⟨⟨c, rfl⟩, b, hb, heq⟩)
      · exact hnew y hy heq
      -- What contains the item contains the branch that has its identifier.
      · rcases hclash with ⟨⟨hscalar, hlt⟩, -⟩ | ⟨hbars, -⟩
        · refine h.unbarred _ (List.mem_map_of_mem hx) _ (List.mem_map_of_mem hb) ⟨hscalar, ?_⟩
          simpa [heq] using hlt
        · exact Item.not_bars_branch hbars

/-- A branch with a leaf and with a branch below it. -/
def shallow : Forest :=
  let forest := (empty.insert (.branch { name := "if", oid := ⟨[1, 3]⟩ })).after
  let forest := (forest.insert (.scalar { name := "ifNumber", oid := ⟨[1, 3, 1]⟩ })).after
  (forest.insert (.branch { name := "ifEntry", oid := ⟨[1, 3, 2]⟩ })).after

theorem Collected.shallow : shallow.Collected := by
  refine .insert (.insert (.insert .empty ?_ rfl) ?_ rfl) ?_ rfl
  · exact Item.bare_branch.mpr rfl
  · exact Item.bare_scalar _
  · exact Item.bare_branch.mpr rfl

theorem Collected.insert_repeated_shallow :
    ∃ x ∈ Forest.shallow.items, x.oid = ⟨[1, 3, 2]⟩ ∧
      (Forest.shallow.insert (.branch { name := "ifRow", oid := ⟨[1, 3, 2]⟩ })).error? =
        some (.duplicateOid (Oid.dotted ⟨[1, 3, 2]⟩) x.name "ifRow") := by
  have hbare : (Item.branch { name := "ifRow", oid := ⟨[1, 3, 2]⟩ }).Bare :=
    Item.bare_branch.mpr rfl
  refine (insert_repeated_iff .shallow hbare).mpr (.inr ⟨⟨_, rfl⟩, ?_⟩)
  exact ⟨{ name := "ifEntry", oid := ⟨[1, 3, 2]⟩ }, List.mem_of_getElem? (i := 2) rfl, rfl⟩

/-- A leaf is repeated without notice, by a scalar and by a branch, and so is a branch below
the top level by a scalar. -/
theorem Collected.insert_accepts_repeated :
    Forest.shallow.Collected ∧
      (∃ x ∈ Forest.shallow.items, x.oid = ⟨[1, 3, 1]⟩) ∧
      (Forest.shallow.insert (.scalar { name := "ifCount", oid := ⟨[1, 3, 1]⟩ })).error? = none ∧
      (Forest.shallow.insert (.branch { name := "ifCount", oid := ⟨[1, 3, 1]⟩ })).error? = none ∧
      (∃ x ∈ Forest.shallow.items, x.oid = ⟨[1, 3, 2]⟩) ∧
      (Forest.shallow.insert (.scalar { name := "ifRow", oid := ⟨[1, 3, 2]⟩ })).error? = none :=
  ⟨.shallow, by decide +kernel, by decide +kernel, by decide +kernel, by decide +kernel,
    by decide +kernel⟩

end Forest

end MibDrivers
