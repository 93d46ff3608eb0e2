import MibDrivers.Proofs.Forest.Runs

/-!
# What a refused insertion loses

An item with content may be refused while it adopts, and then it is dropped with all that it has
adopted by then. The loss is bounded: it strikes one list of siblings, the one in which the item
adopts, and leaves of this list the siblings before the one that the item could not receive, as
far as they are not below the item. The siblings that are left are as they were, and so is
everything outside the list. All other refusals come before the first change.

## Main definitions

* `Item.Cut` — one list of siblings is cut where a branch could not adopt one of them

## Main results

* `Item.Nested.merge_refused` — a refused merge changes nothing, or it cuts one list
* `Forest.Reached.insert_cuts` — so does a refused insertion
-/

namespace MibDrivers

variable {item : Item} {siblings others : List Item} {b : Branch Item} {error : MibError}

/-- A branch that refuses an item is as it was, or has handed the refusal on from the merge into
its children. -/
theorem Branch.attach_refused (herror : (b.attach item).error? = some error) :
    (b.attach item).after = b ∨
      (Item.merge b.children item).error? = some error ∧
        (b.attach item).after = { b with children := (Item.merge b.children item).after } := by
  rw [attach] at herror ⊢
  cases hclash : (Item.branchContent b).findSome? item.clash? with
  | some clash => exact .inl (by rw [attachUsing_of_clash hclash])
  | none =>
    cases item with
    | scalar s => simp [attachUsing_scalar hclash] at herror
    | branch c =>
      rw [attachUsing_branch hclash] at herror ⊢
      exact .inr ⟨herror, rfl⟩

namespace Item

/-- One list of siblings was cut when a branch `b` could not adopt one of them. -/
inductive Cut (b : Branch Item) (error : MibError) : List Item → List Item → Prop
  /-- The branch has received the siblings below it that come before `failing`, and refuses this
  one. What is left are the siblings before it that are not below the branch. -/
  | siblings {before after : List Item} {failing : Item} (hfailing : b.oid < failing.oid)
      (hok : (b.attachAll (contained b.oid before)).error? = none)
      (herror : ((b.attachAll (contained b.oid before)).after.attach failing).error? = some error) :
      Cut b error (before ++ failing :: after) (remaining b.oid before)
  /-- The children of a sibling above the branch are cut, or siblings below them. -/
  | children {before after children : List Item} {parent : Branch Item} (hlt : parent.oid < b.oid)
      (hcut : Cut b error parent.children children) :
      Cut b error (before ++ .branch parent :: after)
        (before ++ .branch { parent with children } :: after)

/-- A cut adds no nodes and leaves those that stay in their order. -/
theorem Cut.descriptors_sublist (h : Cut b error siblings others) :
    (descriptorsOf others).Sublist (descriptorsOf siblings) := by
  induction h with
  | @siblings before after failing =>
    have hkept : (remaining b.oid before).Sublist (before ++ failing :: after) :=
      remaining_sublist.trans (List.sublist_append_left ..)
    exact (subitemsOf_sublist hkept).map _
  | children _ _ ih =>
    simp only [descriptorsOf_append, descriptorsOf_cons, descriptors_branch, Branch.members]
    exact (List.Sublist.refl _).append (((ih.append_left _).cons_cons _).append_right _)

/-- A refused merge among siblings in order leaves them as they were, or the item is a branch that
was refused while it adopted, and one list among and below the siblings is cut. -/
theorem Nested.merge_refused (h : Nested siblings)
    (herror : (Item.merge siblings item).error? = some error) :
    (Item.merge siblings item).after = siblings ∨
      ∃ b, item = .branch b ∧ Cut b error siblings (Item.merge siblings item).after := by
  induction hn : totalSize siblings using Nat.strongRecOn generalizing siblings with
  | ind n ih =>
    have hcase := merge_cases h item
    generalize Item.merge siblings item = outcome at hcase herror
    cases hcase with
    | duplicate hmem heq => exact .inl rfl
    | underScalar hmem hlt => exact .inl rfl
    | overSibling hscalar hmem hlt => exact .inl rfl
    | joined hapart => cases herror
    | adopted hbranch hsplit hbefore hfirst hafter hok => cases herror
    | @received before after parent hsplit hlt =>
      subst hsplit
      have hmem : Item.branch parent ∈ before ++ .branch parent :: after := by simp
      rw [Outcome.map_error?] at herror
      rw [Outcome.map_after]
      rcases Branch.attach_refused herror with hsame | ⟨hmerge, hafter⟩
      · exact .inl (by rw [hsame])
      -- The children are fewer than the siblings with what is below them.
      · have hsize := size_le_totalSize hmem
        have hlarger := totalSize_children_lt parent
        rw [hafter]
        rcases ih _ (by omega) (h.each _ hmem).children hmerge rfl with hsame | ⟨b, rfl, hcut⟩
        · exact .inl (by rw [hsame])
        · exact .inr ⟨b, rfl, .children hlt hcut⟩
    | @refused b before after failing error' hbranch hsplit hrelated hfailing hok hrefused =>
      subst hsplit
      obtain rfl := Option.some.inj herror
      exact .inr ⟨b, hbranch, .siblings hfailing hok hrefused⟩

end Item

/-! ### Forests -/

namespace Forest

variable {forest : Forest}

/-- In every forest that a run reaches, a refused insertion of any item leaves the forest as it
was, or it cuts exactly one list of siblings, the top-level items or the children of one branch:
the siblings before the one whose adoption was refused are left, as far as they are not below the
item. All nodes afterwards are nodes from before, in their order, so that no node of the item is
among them. -/
theorem Reached.insert_cuts (h : forest.Reached)
    (herror : (forest.insert item).error? = some error) :
    (forest.insert item).after = forest ∨
      ∃ b, item = .branch b ∧
        Item.Cut b error forest.roots (forest.insert item).after.roots ∧
        (forest.insert item).after.descriptors.Sublist forest.descriptors := by
  rcases Item.Nested.merge_refused h.wellNested herror with hsame | ⟨b, rfl, hcut⟩
  · exact .inl (congrArg Forest.mk hsame)
  · exact .inr ⟨b, rfl, hcut, hcut.descriptors_sublist⟩

/-- Five branches below a branch that has a leaf too, and another top-level branch. -/
def contested : Forest :=
  let forest := (empty.insert (.branch { name := "if", oid := ⟨[1]⟩ })).after
  let forest := (forest.insert (.scalar { name := "ifNumber", oid := ⟨[1, 5]⟩ })).after
  let forest := (forest.insert (.branch { name := "ifGroup", oid := ⟨[1, 2]⟩ })).after
  let forest := (forest.insert (.branch { name := "ifStack", oid := ⟨[1, 3, 1]⟩ })).after
  let forest := (forest.insert (.branch { name := "ifEntry", oid := ⟨[1, 3, 2]⟩ })).after
  let forest := (forest.insert (.branch { name := "ifTest", oid := ⟨[1, 4]⟩ })).after
  (forest.insert (.branch { name := "snmp", oid := ⟨[2]⟩ })).after

theorem Reached.contested : contested.Reached := by
  refine .insert (.insert (.insert (.insert (.insert (.insert (.insert .empty ?_) ?_) ?_) ?_) ?_)
    ?_) ?_
  · exact .branch _ _ _
  · exact .scalar _
  · exact .branch _ _ _
  · exact .branch _ _ _
  · exact .branch _ _ _
  · exact .branch _ _ _
  · exact .branch _ _ _

/-- A table that already has a row. -/
def tabled : Branch Item :=
  (Branch.attach { name := "ifTable", oid := ⟨[1, 3]⟩ }
    (.branch { name := "ifRow", oid := ⟨[1, 3, 2]⟩ })).after

/-- The table adopts the first branch below it and is refused at the second, whose place its own
row has. With it go the branch that it had adopted and the one after the refusal. -/
theorem Reached.insert_cuts_contested :
    (Item.branch tabled).Grown ∧
      Item.Cut tabled (.duplicateOid "1.3.2" "ifRow" "ifEntry") Forest.contested.roots
        (Forest.contested.insert (.branch tabled)).after.roots ∧
      Forest.contested.items.map Item.name =
        ["if", "ifNumber", "ifGroup", "ifStack", "ifEntry", "ifTest", "snmp"] ∧
      (Forest.contested.insert (.branch tabled)).after.items.map Item.name =
        ["if", "ifNumber", "ifGroup", "snmp"] := by
  have hgrown : (Item.branch tabled).Grown :=
    .attach (.branch _ _ _) (.branch _ _ _) (by decide)
  have herror : (Forest.contested.insert (.branch tabled)).error? =
      some (.duplicateOid "1.3.2" "ifRow" "ifEntry") := by decide +kernel
  have hbefore : Forest.contested.items.map Item.name =
      ["if", "ifNumber", "ifGroup", "ifStack", "ifEntry", "ifTest", "snmp"] := by decide +kernel
  have hafter : (Forest.contested.insert (.branch tabled)).after.items.map Item.name =
      ["if", "ifNumber", "ifGroup", "snmp"] := by decide +kernel
  refine ⟨hgrown, ?_, hbefore, hafter⟩
  rcases insert_cuts .contested herror with hsame | ⟨b, hb, hcut, -⟩
  · rw [hsame, hbefore] at hafter
    exact absurd hafter (by decide)
  · exact Item.branch.inj hb ▸ hcut

end Forest

end MibDrivers
