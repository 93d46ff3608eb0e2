import MibDrivers.Proofs.Forest.Preservation

/-!
# Merging items without content

An item without content is a scalar or a branch that holds nothing yet. An object may clash
with a scalar that is many levels away from the place at which the object is merged, and a
branch may adopt objects on its way. Neither matters: objects that stand apart can always be
received, so a merge of an item without content is refused only for a clash with some node
or for a repeated identifier, and a refusal changes nothing. A merge that succeeds changes
one place: the item becomes the last of the siblings there, or a leaf, or takes the place of
the first sibling that it adopts.

## Main definitions

* `Descriptor.Bars` — a scalar contains an object
* `Item.Bare` — an item without content
* `Branch.gather` — a branch with further items after those that it holds
* `Item.Inserted` — what a successful merge of an item without content comes to
* `Item.BareCase` — what any merge of an item without content comes to

## Main results

* `Item.merge_bare` — a merge of an item without content is refused exactly for a clash or a
  repeated identifier, and then nothing has changed
-/

namespace MibDrivers

/-! ### Clashes -/

namespace Descriptor

variable {d e : Descriptor}

/-- The scalar `d` contains `e`. -/
def Bars (d e : Descriptor) : Prop := d.kind = .scalar ∧ d.oid < e.oid

instance : Decidable (Bars d e) := inferInstanceAs (Decidable (_ ∧ _))

/-- The refusal of a scalar that lies above another object. -/
def cannotContain (leaf d : Descriptor) : MibError :=
  .leafHasDescendant leaf.name leaf.oid.dotted d.name

/-- One of two objects is a scalar that contains the other, and the error says so. -/
def Clash (d e : Descriptor) (error : MibError) : Prop :=
  (e.Bars d ∧ error = e.cannotContain d) ∨ (d.Bars e ∧ error = d.cannotContain e)

/-- Objects of which none contains the other do not bar each other. -/
theorem not_bars_of_apart (h : d.oid.Apart e.oid) : ¬ d.Bars e := fun hbars => h.not_lt hbars.2

end Descriptor

/-! ### Items gathered by a branch -/

/-- The scalar that the item is, if it is one. -/
def Item.scalar? : Item → Option Scalar
  | .branch _ => none
  | .scalar s => some s

namespace Branch

variable {b : Branch Item} {item : Item} {items : List Item}

/-- The branch with further items after those that it holds: the scalars after its leaves and
the branches after its children. -/
def gather (b : Branch Item) (items : List Item) : Branch Item :=
  { b with
    leaves := b.leaves ++ items.filterMap Item.scalar?
    children := b.children ++ items.filter (·.branch?.isSome) }

theorem gather_nil : b.gather [] = b := by
  simp [gather]

theorem gather_scalar {s : Scalar} :
    b.gather [.scalar s] = { b with leaves := b.leaves ++ [s] } := by
  simp [gather, Item.scalar?, Item.branch?]

theorem gather_branch {c : Branch Item} :
    b.gather [.branch c] = { b with children := b.children ++ [.branch c] } := by
  simp [gather, Item.scalar?, Item.branch?]

theorem gather_append (items others : List Item) :
    b.gather (items ++ others) = (b.gather items).gather others := by
  simp [gather]

/-- Items are scalars and branches. -/
theorem scalars_append_branches_perm (items : List Item) :
    ((items.filterMap Item.scalar?).map Item.scalar ++
      items.filter (·.branch?.isSome)).Perm items := by
  induction items with
  | nil => exact .nil
  | cons item rest ih =>
    cases item with
    | scalar s => exact ih.cons _
    | branch c => exact List.perm_middle.trans (ih.cons _)

theorem scalars_sublist (items : List Item) :
    ((items.filterMap Item.scalar?).map Item.scalar).Sublist items := by
  induction items with
  | nil => exact .slnil
  | cons item rest ih =>
    cases item with
    | scalar s => exact ih.cons_cons _
    | branch c => exact ih.cons _

theorem members_gather_perm (items : List Item) :
    (b.gather items).members.Perm (b.members ++ items) := by
  -- The new leaves stand before the children, and the new children after them.
  have hcomm : ((items.filterMap Item.scalar?).map Item.scalar ++
      (b.children ++ items.filter (·.branch?.isSome))).Perm (b.children ++ items) := by
    refine (List.perm_append_comm_assoc _ _ _).trans ?_
    exact (scalars_append_branches_perm items).append_left _
  rw [members, members, gather, List.map_append, List.append_assoc, List.append_assoc]
  exact hcomm.append_left _

end Branch

/-! ### Items that stand apart -/

namespace Item

open Descriptor

variable {item x : Item} {siblings items : List Item} {b : Branch Item} {error : MibError}

theorem bars_scalar {s : Scalar} {d : Descriptor} :
    (Item.scalar s).descriptor.Bars d ↔ s.oid < d.oid := by simp [Bars, descriptor]

theorem not_bars_branch {d : Descriptor} : ¬ (Item.branch b).descriptor.Bars d := by
  simp [Bars, descriptor]

theorem not_bars_of_oid_apart (h : x.oid.Apart item.oid) :
    ¬ x.descriptor.Bars item.descriptor ∧ ¬ item.descriptor.Bars x.descriptor :=
  ⟨not_bars_of_apart (by simpa using h), not_bars_of_apart (by simpa using h.symm)⟩

/-- The item is a scalar or a branch without content. -/
def Bare (item : Item) : Prop := ∀ b, item = .branch b → b.members = []

/-- An item without content consists of its own node. -/
theorem Bare.subitems (h : item.Bare) : item.subitems = [item] := by
  cases item with
  | scalar s => rfl
  | branch b => rw [subitems_branch, h b rfl, subitemsOf_nil]

theorem Bare.descriptors (h : item.Bare) : item.descriptors = [item.descriptor] := by
  rw [Item.descriptors, h.subitems, List.map_singleton]

/-- A branch of an item without content has no leaves. -/
theorem Bare.leaves (h : item.Bare) (hb : .branch b ∈ item.subitems) : b.leaves = [] := by
  rw [h.subitems, List.mem_singleton] at hb
  exact List.map_eq_nil_iff.mp (List.append_eq_nil_iff.mp (h b hb.symm)).1

theorem Bare.wellNested (h : item.Bare) : item.WellNested := by
  cases item with
  | scalar s => exact wellNested_scalar s
  | branch b => exact wellNested_of_members_eq_nil (h b rfl)

theorem bare_scalar (s : Scalar) : (Item.scalar s).Bare := by
  intro b hb
  cases hb

theorem bare_branch : (Item.branch b).Bare ↔ b.members = [] := by
  constructor
  · intro h
    exact h b rfl
  · intro h c hc
    exact Item.branch.inj hc ▸ h

/-- Two items cannot be in one branch if one of them is a scalar that contains the other. -/
theorem clash?_eq (item node : Item) :
    item.clash? node =
      if node.descriptor.Bars item.descriptor then
        some (node.descriptor.cannotContain item.descriptor)
      else if item.descriptor.Bars node.descriptor then
        some (item.descriptor.cannotContain node.descriptor)
      else none := by
  cases item <;> cases node <;>
    simp [clash?, bars_scalar, not_bars_branch, cannotContain, Scalar.cannotContain] <;> rfl

theorem clash_of_clash? (h : item.clash? x = some error) :
    item.descriptor.Clash x.descriptor error := by
  rw [clash?_eq] at h
  split at h
  · next hbars => exact .inl ⟨hbars, (Option.some.inj h).symm⟩
  · rw [Option.ite_none_right_eq_some] at h
    exact .inr ⟨h.1, (Option.some.inj h.2).symm⟩

theorem not_bars_of_clash?_eq_none (h : item.clash? x = none) :
    ¬ x.descriptor.Bars item.descriptor ∧ ¬ item.descriptor.Bars x.descriptor := by
  rw [clash?_eq] at h
  split at h
  · cases h
  · next hbars => exact ⟨hbars, by simpa using h⟩

theorem cannotContain_descriptor {s : Scalar} :
    (Item.scalar s).descriptor.cannotContain item.descriptor = s.cannotContain item.name := by
  rw [cannotContain, name_descriptor, name_descriptor, oid_descriptor]
  rfl

/-- An item that stands apart from all siblings becomes the last of them. -/
theorem merge_of_apart (hnested : Nested siblings)
    (hapart : ∀ sibling ∈ siblings, Apart sibling item) :
    merge siblings item = ⟨siblings ++ [item], none⟩ := by
  have hcase := merge_cases hnested item
  generalize merge siblings item = outcome at hcase
  cases hcase with
  | duplicate hmem heq => exact absurd heq (hapart _ hmem).ne
  | underScalar hmem hlt => exact absurd hlt (hapart _ hmem).not_lt
  | overSibling hitem hmem hlt =>
    subst hitem
    exact absurd hlt (hapart _ hmem).not_gt
  | received hsplit hlt =>
    subst hsplit
    exact absurd hlt (Oid.Apart.not_lt (hapart _ List.mem_append_cons_self))
  | joined => rfl
  | adopted hitem hsplit _ hfirst =>
    subst hitem hsplit
    exact absurd hfirst (hapart _ List.mem_append_cons_self).not_gt
  | refused hitem hsplit _ hfailing =>
    subst hitem hsplit
    exact absurd hfailing (hapart _ List.mem_append_cons_self).not_gt

/-- A branch gathers an item that stands apart from all that it holds. -/
theorem attach_of_apart (hb : (Item.branch b).WellNested)
    (hapart : ∀ member ∈ b.members, Apart member item) :
    b.attach item = ⟨b.gather [item], none⟩ := by
  -- What is below the members of the branch stands apart from the item too.
  have hclash : (branchContent b).findSome? item.clash? = none := by
    rw [List.findSome?_eq_none_iff]
    intro x hx
    obtain ⟨member, hmember, hmem⟩ := mem_subitemsOf.mp (mem_branchContent.mp hx)
    have hx : Oid.Apart x.oid item.oid :=
      Oid.Apart.mono (hapart member hmember) ((hb.member hmember).oid_le hmem) le_rfl
    obtain ⟨hbelow, habove⟩ := not_bars_of_oid_apart hx
    rw [clash?_eq, if_neg hbelow, if_neg habove]
  cases item with
  | scalar s => rw [Branch.attach, Branch.attachUsing_scalar hclash, Branch.gather_scalar]
  | branch c =>
    have hmerge := merge_of_apart hb.children fun child hchild =>
      hapart child (Branch.mem_members_of_child hchild)
    rw [Branch.attach, Branch.attachUsing_branch hclash, hmerge, Branch.gather_branch]
    rfl

/-- A branch gathers items below it that stand apart from each other and from all that it
holds. -/
theorem attachAll_of_apart (hb : (Item.branch b).WellNested) (hitems : Nested items)
    (hbelow : ∀ item ∈ items, b.oid < item.oid)
    (hapart : ∀ item ∈ items, ∀ member ∈ b.members, Apart member item) :
    b.attachAll items = ⟨b.gather items, none⟩ := by
  induction items generalizing b with
  | nil => rw [Branch.gather_nil, Branch.attachAll]
  | cons item rest ih =>
    have hattach := attach_of_apart hb (hapart item List.mem_cons_self)
    have hgrown := hb.attach (hitems.each item List.mem_cons_self)
      (hbelow item List.mem_cons_self)
    rw [hattach] at hgrown
    have hgather : b.gather (item :: rest) = (b.gather [item]).gather rest :=
      Branch.gather_append [item] rest
    rw [Branch.attachAll_cons_of_ok (by rw [hattach]), hattach, hgather]
    refine ih hgrown hitems.tail ?_ ?_
    · intro other hother
      exact hbelow other (List.mem_cons_of_mem _ hother)
    · intro other hother member hmember
      rcases List.mem_append.mp ((Branch.members_gather_perm _).mem_iff.mp hmember) with hold | hnew
      · exact hapart other (List.mem_cons_of_mem _ hother) member hold
      · rw [List.mem_singleton.mp hnew]
        exact List.rel_of_pairwise_cons hitems.apart hother

/-- A branch without content gathers siblings below it. -/
theorem attachAll_of_bare (hnested : Nested siblings) (hbare : (Item.branch b).Bare)
    (hsub : items.Sublist siblings) (hbelow : ∀ item ∈ items, b.oid < item.oid) :
    b.attachAll items = ⟨b.gather items, none⟩ := by
  refine attachAll_of_apart hbare.wellNested (hnested.sublist hsub) hbelow ?_
  simp [hbare b rfl]

/-! ### What a merge comes to -/

/-- What a successful merge of an item without content among siblings comes to. -/
inductive Inserted (item : Item) : List Item → List Item → Prop
  /-- The item becomes the last of the siblings. -/
  | joined (siblings : List Item) : Inserted item siblings (siblings ++ [item])
  /-- The item is a scalar and becomes the last leaf of a branch among the siblings. -/
  | leaf {before after : List Item} {p : Branch Item} {s : Scalar} (hitem : item = .scalar s)
      (hlt : p.oid < s.oid) :
      Inserted item (before ++ .branch p :: after)
        (before ++ .branch { p with leaves := p.leaves ++ [s] } :: after)
  /-- The item is a branch and is merged into the children of a branch among the siblings. -/
  | passed {before after children : List Item} {p c : Branch Item} (hitem : item = .branch c)
      (h : Inserted item p.children children) :
      Inserted item (before ++ .branch p :: after)
        (before ++ .branch { p with children } :: after)
  /-- The item is a branch, gathers the siblings that it contains and takes the place of the
  first of them. -/
  | adopted {before after : List Item} {first : Item} {b : Branch Item} (hitem : item = .branch b)
      (hfirst : b.oid < first.oid) :
      Inserted item (before ++ first :: after)
        (before ++ .branch (b.gather (first :: contained b.oid after)) :: remaining b.oid after)

/-- An item that grows among siblings adds to the nodes what it has gained. -/
theorem descriptorsOf_replace_perm {before after : List Item} {y : Item} {gained : List Descriptor}
    (h : y.descriptors.Perm (x.descriptors ++ gained)) :
    (descriptorsOf (before ++ y :: after)).Perm
      (descriptorsOf (before ++ x :: after) ++ gained) := by
  rw [List.perm_iff_count]
  intro d
  have hcount := h.count_eq d
  simp only [descriptorsOf_append, descriptorsOf_cons, List.count_append] at hcount ⊢
  omega

/-- A branch that gathers items gains their nodes. -/
theorem descriptors_gather_perm (items : List Item) :
    (Item.branch (b.gather items)).descriptors.Perm
      ((Item.branch b).descriptors ++ descriptorsOf items) := by
  have hmembers := descriptorsOf_perm (Branch.members_gather_perm (b := b) items)
  rw [descriptorsOf_append] at hmembers
  rw [descriptors_branch, descriptors_branch]
  exact hmembers.cons _

/-- A branch whose children gain nodes gains these nodes. -/
theorem descriptors_children_perm {children : List Item} {gained : List Descriptor}
    (h : (descriptorsOf children).Perm (descriptorsOf b.children ++ gained)) :
    (Item.branch { b with children }).descriptors.Perm ((Item.branch b).descriptors ++ gained) := by
  rw [descriptors_branch, descriptors_branch, Branch.members, Branch.members,
    descriptorsOf_append, descriptorsOf_append, List.cons_append, List.append_assoc]
  exact (h.append_left _).cons _

/-- An insertion adds the nodes of the item. -/
theorem Inserted.perm {after : List Item} (h : Inserted item siblings after) :
    (descriptorsOf after).Perm (descriptorsOf siblings ++ item.descriptors) := by
  induction h with
  | joined siblings => rw [descriptorsOf_append, descriptorsOf_singleton]
  | @leaf before after p s hitem _ =>
    subst hitem
    rw [← Branch.gather_scalar]
    refine descriptorsOf_replace_perm ((descriptors_gather_perm _).trans ?_)
    rw [descriptorsOf_singleton]
  | passed _ _ ih => exact descriptorsOf_replace_perm (descriptors_children_perm ih)
  | @adopted before after first b hitem _ =>
    subst hitem
    have hgather := descriptors_gather_perm (b := b) (first :: contained b.oid after)
    have hafter : (descriptorsOf (contained b.oid after ++ remaining b.oid after)).Perm
        (descriptorsOf after) := descriptorsOf_perm (List.filter_append_perm _ after)
    rw [List.perm_iff_count]
    intro d
    have hcount := hgather.count_eq d
    have hcount_after := hafter.count_eq d
    simp only [descriptorsOf_append, descriptorsOf_cons, List.count_append] at *
    omega

/-- A merge of the item finds its identifier again: at one of the siblings or, if the item is
a branch, at a branch somewhere below them. -/
def Repeats (siblings : List Item) (item : Item) : Prop :=
  (∃ x ∈ siblings, x.oid = item.oid) ∨
    (∃ c, item = .branch c) ∧ ∃ b, .branch b ∈ subitemsOf siblings ∧ b.oid = item.oid

/-- What merging an item without content comes to. A refusal leaves the siblings as they
were. -/
inductive BareCase (siblings : List Item) (item : Item) : Outcome (List Item) → Prop
  /-- The item is accepted, and clashes with no node. -/
  | accepted {after : List Item} (hinserted : Inserted item siblings after)
      (hnew : ¬ Repeats siblings item)
      (hfree : ∀ x ∈ subitemsOf siblings,
        ¬ x.descriptor.Bars item.descriptor ∧ ¬ item.descriptor.Bars x.descriptor) :
      BareCase siblings item ⟨after, none⟩
  /-- A node with the identifier of the item is found. -/
  | repeated {x : Item} (hx : x ∈ subitemsOf siblings) (heq : x.oid = item.oid)
      (hrepeats : Repeats siblings item) :
      BareCase siblings item ⟨siblings, some (.duplicateOid item.oid.dotted x.name item.name)⟩
  /-- The item clashes with a node. -/
  | clash {x : Item} {error : MibError} (hnew : ∀ y ∈ siblings, y.oid ≠ item.oid)
      (hx : x ∈ subitemsOf siblings) (hclash : item.descriptor.Clash x.descriptor error) :
      BareCase siblings item ⟨siblings, some error⟩

/-- What is below siblings is no more above an identifier than the siblings are. -/
theorem Nested.not_le_of (hnested : Nested siblings) {o : Oid}
    (h : ∀ sibling ∈ siblings, ¬ sibling.oid ≤ o) : ∀ x ∈ subitemsOf siblings, ¬ x.oid ≤ o := by
  intro x hx hle
  obtain ⟨sibling, hsibling, hbelow⟩ := hnested.exists_le hx
  exact h sibling hsibling (hbelow.trans hle)

theorem not_repeats_of_ne (h : ∀ x ∈ subitemsOf siblings, x.oid ≠ item.oid) :
    ¬ Repeats siblings item := by
  rintro (⟨x, hx, heq⟩ | ⟨-, c, hc, heq⟩)
  · exact h x (mem_subitemsOf_of_mem hx) heq
  · exact h _ hc heq

/-- No sibling has an identifier that is below a branch among them. -/
theorem Nested.oid_ne_of_parent {p : Branch Item} {o : Oid} (hnested : Nested siblings)
    (hmem : .branch p ∈ siblings) (hlt : p.oid < o) : ∀ x ∈ siblings, x.oid ≠ o := by
  intro x hx heq
  obtain rfl : x = .branch p := hnested.eq_of_le hx hmem heq.le hlt.le
  exact hlt.ne heq

/-- A branch below one of the siblings repeats what it repeats among the children there. -/
theorem Nested.repeats_children_iff {p c : Branch Item} (hnested : Nested siblings)
    (hmem : .branch p ∈ siblings) (hlt : p.oid < c.oid) :
    Repeats p.children (.branch c) ↔ Repeats siblings (.branch c) := by
  have hbelow : ∀ x ∈ subitemsOf p.children, x ∈ subitemsOf siblings :=
    fun x hx => mem_subitemsOf_of_children hmem hx
  constructor
  · rintro (⟨x, hx, heq⟩ | ⟨hbranch, b, hb, heq⟩)
    · obtain ⟨b, rfl⟩ := (hnested.each _ hmem).ordered.branches x hx
      exact .inr ⟨⟨c, rfl⟩, b, hbelow _ (mem_subitemsOf_of_mem hx), heq⟩
    · exact .inr ⟨hbranch, b, hbelow _ hb, heq⟩
  · rintro (⟨x, hx, heq⟩ | ⟨hbranch, b, hb, heq⟩)
    · exact absurd heq (hnested.oid_ne_of_parent hmem hlt x hx)
    · obtain ⟨sibling, hsibling, hsub⟩ := mem_subitemsOf.mp hb
      have hle : sibling.oid ≤ c.oid := ((hnested.each sibling hsibling).oid_le hsub).trans heq.le
      obtain rfl : sibling = .branch p := hnested.eq_of_le hsibling hmem hle hlt.le
      rcases mem_subitems_branch.mp hsub with hself | hsub
      · exact absurd (Item.branch.inj hself ▸ heq) hlt.ne
      · exact .inr ⟨hbranch, b, branch_mem_subitemsOf_members.mp hsub, heq⟩

/-- An item without content that a branch among the siblings receives. -/
theorem Nested.bareCase_attach {before after : List Item} {p : Branch Item}
    (hnested : Nested (before ++ .branch p :: after)) (hlt : p.oid < item.oid)
    (hmerge : BareCase p.children item (Item.merge p.children item)) :
    BareCase (before ++ .branch p :: after) item
      ((p.attach item).map fun p => before ++ .branch p :: after) := by
  have hmem : .branch p ∈ before ++ .branch p :: after := List.mem_append_cons_self
  have hne := hnested.oid_ne_of_parent hmem hlt
  have hbelow : ∀ x ∈ subitemsOf p.members, x ∈ subitemsOf (before ++ .branch p :: after) :=
    fun x hx => mem_subitemsOf.mpr ⟨_, hmem, mem_subitems_branch.mpr (.inr hx)⟩
  cases hclash : (branchContent p).findSome? item.clash? with
  | some error =>
    rw [Branch.attach, Branch.attachUsing_of_clash hclash]
    obtain ⟨x, hx, herror⟩ := List.exists_of_findSome?_eq_some hclash
    exact .clash hne (hbelow x (mem_branchContent.mp hx)) (clash_of_clash? herror)
  | none =>
    -- The branch searches all that is below it, and the rest stands apart from the item.
    have hfree : ∀ x ∈ subitemsOf (before ++ .branch p :: after),
        ¬ x.descriptor.Bars item.descriptor ∧ ¬ item.descriptor.Bars x.descriptor := by
      intro x hx
      obtain ⟨sibling, hsibling, hsub⟩ := mem_subitemsOf.mp hx
      by_cases heq : sibling = .branch p
      · rw [heq] at hsub
        rcases mem_subitems_branch.mp hsub with rfl | hx
        · exact ⟨not_bars_branch, fun hbars => lt_asymm hlt (by simpa using hbars.2)⟩
        · exact not_bars_of_clash?_eq_none
            (List.findSome?_eq_none_iff.mp hclash x (mem_branchContent.mpr hx))
      · have hapart : Oid.Apart sibling.oid p.oid := hnested.apart_of_ne hsibling hmem heq
        exact not_bars_of_oid_apart
          (hapart.mono ((hnested.each sibling hsibling).oid_le hsub) hlt.le)
    cases item with
    | scalar s =>
      rw [Branch.attach, Branch.attachUsing_scalar hclash]
      refine .accepted (.leaf rfl hlt) ?_ hfree
      rintro (⟨x, hx, heq⟩ | ⟨⟨c, hc⟩, -⟩)
      · exact hne x hx heq
      · cases hc
    | branch c =>
      have hrepeats := hnested.repeats_children_iff hmem hlt
      have hchildren : ∀ x ∈ subitemsOf p.children,
          x ∈ subitemsOf (before ++ .branch p :: after) :=
        fun x hx => mem_subitemsOf_of_children hmem hx
      rw [Branch.attach, Branch.attachUsing_branch hclash]
      generalize Item.merge p.children (.branch c) = outcome at hmerge ⊢
      cases hmerge with
      | accepted hinserted hnew _ =>
        exact .accepted (.passed rfl hinserted) (mt hrepeats.mpr hnew) hfree
      | repeated hx heq hrepeated =>
        exact .repeated (hchildren _ hx) heq (hrepeats.mp hrepeated)
      | clash _ hx hclashes => exact .clash hne (hchildren _ hx) hclashes

/-- A merge of an item without content is refused exactly for a clash with a node below the
siblings or for a repeated identifier, and then nothing has changed. -/
theorem merge_bare (hnested : Nested siblings) (hbare : item.Bare) :
    BareCase siblings item (merge siblings item) := by
  induction hn : totalSize siblings using Nat.strongRecOn generalizing siblings with
  | ind n ih =>
    subst hn
    have hcase := merge_cases hnested item
    generalize merge siblings item = outcome at hcase
    cases hcase with
    | duplicate hmem heq =>
      exact .repeated (mem_subitemsOf_of_mem hmem) heq (.inl ⟨_, hmem, heq⟩)
    | underScalar hmem hlt =>
      refine .clash (fun y hy heq => ?_) (mem_subitemsOf_of_mem hmem) (.inl ⟨?_, ?_⟩)
      · -- Were there a sibling with the identifier, it would be below the scalar.
        obtain rfl := hnested.eq_of_le hmem hy hlt.le heq.le
        exact hlt.ne heq
      · exact bars_scalar.mpr (by simpa using hlt)
      · exact cannotContain_descriptor.symm
    | overSibling hitem hmem hlt =>
      subst hitem
      refine .clash (fun y hy heq => ?_) (mem_subitemsOf_of_mem hmem) (.inr ⟨?_, ?_⟩)
      · obtain rfl := hnested.eq_of_le hy hmem (heq.le.trans hlt.le) le_rfl
        exact hlt.ne heq.symm
      · exact bars_scalar.mpr (by simpa using hlt)
      · exact cannotContain_descriptor.symm
    | @received before after parent hsplit hlt =>
      subst hsplit
      have hmem : .branch parent ∈ before ++ .branch parent :: after := List.mem_append_cons_self
      have hsize := (totalSize_children_lt parent).trans_le (size_le_totalSize hmem)
      exact hnested.bareCase_attach hlt (ih _ hsize (hnested.each _ hmem).children rfl)
    | joined hapart =>
      have hnot := hnested.not_le_of fun sibling hsibling => (hapart sibling hsibling).1
      refine .accepted (.joined _) (not_repeats_of_ne fun x hx heq => hnot x hx heq.le) ?_
      intro x hx
      obtain ⟨sibling, hsibling, hle⟩ := hnested.exists_le hx
      exact not_bars_of_oid_apart (Oid.Apart.mono (hapart sibling hsibling) hle le_rfl)
    | @adopted b before after first hitem hsplit hbefore hfirst hafter =>
      subst hitem hsplit
      have hgather : b.attachAll (first :: contained b.oid after) =
          ⟨b.gather (first :: contained b.oid after), none⟩ :=
        attachAll_of_bare hnested hbare adopted_sublist fun x hx => lt_of_mem_adopted hfirst hx
      rw [hgather]
      -- Whatever the siblings hold is below the branch or apart from it, so never above it.
      have hnot : ∀ x ∈ subitemsOf (before ++ first :: after), ¬ x.oid ≤ b.oid := by
        refine hnested.not_le_of ?_
        intro sibling hsibling hle
        rcases List.mem_append.mp hsibling with hmem | hmem
        · exact (hbefore sibling hmem).1 hle
        · rcases List.mem_cons.mp hmem with rfl | hmem
          · exact hfirst.not_ge hle
          · rcases hafter sibling hmem with hlt | hapart
            · exact hlt.not_ge hle
            · exact hapart.1 hle
      refine .accepted (.adopted rfl hfirst)
        (not_repeats_of_ne fun x hx heq => hnot x hx heq.le) ?_
      intro x hx
      exact ⟨fun hbars => hnot x hx (by simpa using hbars.2.le), not_bars_branch⟩
    | @refused b before after failing error hitem hsplit _ hfailing hok herror =>
      -- Nothing that the branch adopts before is related to the failing sibling.
      subst hitem hsplit
      have hsub : (contained b.oid before ++ [failing]).Sublist (before ++ failing :: after) :=
        List.filter_sublist.append (List.singleton_sublist.mpr List.mem_cons_self)
      have hall : b.attachAll (contained b.oid before ++ [failing]) =
          ⟨b.gather (contained b.oid before ++ [failing]), none⟩ := by
        refine attachAll_of_bare hnested hbare hsub fun x hx => ?_
        rcases List.mem_append.mp hx with hmem | hmem
        · exact (mem_contained.mp hmem).2
        · exact List.mem_singleton.mp hmem ▸ hfailing
      rw [Branch.attachAll_append_of_ok hok, Branch.attachAll_cons_of_error herror] at hall
      cases congrArg Outcome.error? hall

end Item

namespace Forest

variable {forest : Forest} {item : Item}

/-- What inserting an item without content comes to. -/
theorem WellNested.insert_bare (h : forest.WellNested) (hbare : item.Bare) :
    ∃ outcome, Item.BareCase forest.roots item outcome ∧
      forest.insert item = outcome.map Forest.mk :=
  ⟨_, Item.merge_bare h hbare, rfl⟩

/-- What a successful insertion of an item without content comes to. -/
theorem WellNested.inserted (h : forest.WellNested) (hbare : item.Bare)
    (hok : (forest.insert item).error? = none) :
    item.Inserted forest.roots (forest.insert item).after.roots := by
  obtain ⟨outcome, hcase, hinsert⟩ := h.insert_bare hbare
  rw [hinsert] at hok ⊢
  cases hcase with
  | accepted hinserted => exact hinserted
  | repeated => cases hok
  | clash => cases hok

end Forest

end MibDrivers
