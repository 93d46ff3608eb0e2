import Mathlib.Data.List.TakeWhile
import MibDrivers.Proofs.Forest.Nesting

/-!
# The cases of a merge

Among siblings that stand apart, an identifier decides what becomes of an item: at most one
of the siblings can contain it, and if one does then it contains none of them. So a merge
comes to one of seven things. Three are refusals that change nothing: a sibling has the
identifier, or one of the two is a scalar above the other. In the fourth a sibling receives
the item. In the others the item stays among the siblings, after it has adopted those that
it contains, if there are any and if it can receive them all.

## Main definitions

* `Branch.attachAll` — a branch receives items one after the other
* `Item.contained`, `Item.remaining` — the siblings below an identifier, and the others
* `Item.MergeCase` — what a merge comes to

## Main results

* `Item.adoptInto_cases` — adopting is receiving the siblings below
* `Item.merge_cases` — a merge among siblings that stand apart is one of the cases
-/

namespace MibDrivers

/-! ### Receiving one item after the other -/

namespace Branch

variable {b : Branch Item} {item : Item} {items : List Item}

/-- Receiving an item does not change what a branch says about itself. -/
@[simp] theorem descriptor_attach :
    (Item.branch (b.attach item).after).descriptor = (Item.branch b).descriptor :=
  descriptor_attachUsing

@[simp] theorem oid_attach : (b.attach item).after.oid = b.oid := by
  have h : (Item.branch (b.attach item).after).descriptor = (Item.branch b).descriptor :=
    descriptor_attach
  exact congrArg Descriptor.oid h

/-- Gives items to a branch one after the other, up to the first that it refuses. -/
def attachAll (b : Branch Item) : List Item → Outcome (Branch Item)
  | [] => ⟨b, none⟩
  | item :: rest =>
    match (b.attach item).error? with
    | some error => ⟨(b.attach item).after, some error⟩
    | none => (b.attach item).after.attachAll rest

theorem attachAll_cons_of_ok (h : (b.attach item).error? = none) :
    b.attachAll (item :: items) = (b.attach item).after.attachAll items := by
  simp only [attachAll, h]

theorem attachAll_cons_of_error {error : MibError} (h : (b.attach item).error? = some error) :
    b.attachAll (item :: items) = ⟨(b.attach item).after, some error⟩ := by
  simp only [attachAll, h]

theorem attachAll_append_of_ok {rest : List Item} (h : (b.attachAll items).error? = none) :
    b.attachAll (items ++ rest) = (b.attachAll items).after.attachAll rest := by
  induction items generalizing b with
  | nil => rfl
  | cons item others ih =>
    cases hfirst : (b.attach item).error? with
    | some error => simp [attachAll_cons_of_error hfirst] at h
    | none =>
      rw [attachAll_cons_of_ok hfirst] at h
      rw [List.cons_append, attachAll_cons_of_ok hfirst, attachAll_cons_of_ok hfirst, ih h]

/-- What every receipt of one of the items keeps, receiving them all keeps. -/
theorem attachAll_induction {motive : Branch Item → Prop} (hb : motive b)
    (hstep : ∀ c, ∀ item ∈ items, motive c → motive (c.attach item).after) :
    motive (b.attachAll items).after := by
  induction items generalizing b with
  | nil => exact hb
  | cons item rest ih =>
    have hfirst := hstep b item List.mem_cons_self hb
    cases h : (b.attach item).error? with
    | some error => rwa [attachAll_cons_of_error h]
    | none =>
      rw [attachAll_cons_of_ok h]
      exact ih hfirst fun c other hother => hstep c other (List.mem_cons_of_mem _ hother)

@[simp] theorem descriptor_attachAll :
    (Item.branch (b.attachAll items).after).descriptor = (Item.branch b).descriptor :=
  attachAll_induction (motive := fun c => (Item.branch c).descriptor = (Item.branch b).descriptor)
    rfl fun _ _ _ h => descriptor_attach.trans h

@[simp] theorem oid_attachAll : (b.attachAll items).after.oid = b.oid := by
  have h : (Item.branch (b.attachAll items).after).descriptor = (Item.branch b).descriptor :=
    descriptor_attachAll
  exact congrArg Descriptor.oid h

end Branch

namespace Item

variable {item x : Item} {siblings : List Item} {b : Branch Item} {o : Oid}

/-- The siblings that are strictly below an identifier. -/
def contained (o : Oid) (siblings : List Item) : List Item :=
  siblings.filter (o.isAncestorOf ·.oid)

/-- The siblings that are not strictly below an identifier. -/
def remaining (o : Oid) (siblings : List Item) : List Item :=
  siblings.filter (!o.isAncestorOf ·.oid)

theorem mem_contained : x ∈ contained o siblings ↔ x ∈ siblings ∧ o < x.oid := by
  rw [contained, List.mem_filter, Oid.isAncestorOf_iff]

theorem mem_remaining : x ∈ remaining o siblings ↔ x ∈ siblings ∧ ¬ o < x.oid := by
  simp [remaining]

theorem remaining_sublist : (remaining o siblings).Sublist siblings := List.filter_sublist

theorem contained_append {others : List Item} :
    contained o (siblings ++ others) = contained o siblings ++ contained o others :=
  List.filter_append ..

theorem remaining_append {others : List Item} :
    remaining o (siblings ++ others) = remaining o siblings ++ remaining o others :=
  List.filter_append ..

theorem contained_cons_of_lt (h : o < x.oid) :
    contained o (x :: siblings) = x :: contained o siblings :=
  List.filter_cons_of_pos (Oid.isAncestorOf_iff.mpr h)

theorem contained_cons_of_not_lt (h : ¬ o < x.oid) :
    contained o (x :: siblings) = contained o siblings :=
  List.filter_cons_of_neg (by simpa using h)

theorem remaining_cons_of_lt (h : o < x.oid) :
    remaining o (x :: siblings) = remaining o siblings :=
  List.filter_cons_of_neg (by simpa using h)

theorem remaining_cons_of_not_lt (h : ¬ o < x.oid) :
    remaining o (x :: siblings) = x :: remaining o siblings :=
  List.filter_cons_of_pos (by simpa using h)

/-- A branch that takes the place of `first` adopts some of the siblings. -/
theorem adopted_sublist {before after : List Item} {first : Item} :
    (first :: contained o after).Sublist (before ++ first :: after) :=
  (List.filter_sublist.cons_cons _).trans (List.sublist_append_right ..)

/-- What stays when a branch takes the place of `first`, with `first` still there. -/
theorem staying_sublist {before after : List Item} {first : Item} :
    (before ++ first :: remaining o after).Sublist (before ++ first :: after) :=
  (List.Sublist.refl before).append (remaining_sublist.cons_cons first)

theorem lt_of_mem_adopted {after : List Item} {first : Item} (hfirst : o < first.oid)
    (hx : x ∈ first :: contained o after) : o < x.oid := by
  rcases List.mem_cons.mp hx with rfl | hcontained
  · exact hfirst
  · exact (mem_contained.mp hcontained).2

/-- Adopting is receiving the siblings below, one after the other; it may end at one that is
refused, and then only what came before it is kept. -/
theorem adoptInto_cases (b : Branch Item) (siblings : List Item) :
    ((b.attachAll (contained b.oid siblings)).error? = none ∧
      adoptInto merge b siblings =
        { kept := remaining b.oid siblings
          item := .branch (b.attachAll (contained b.oid siblings)).after }) ∨
    ∃ before failing after error,
      siblings = before ++ failing :: after ∧ b.oid < failing.oid ∧
      (b.attachAll (contained b.oid before)).error? = none ∧
      ((b.attachAll (contained b.oid before)).after.attach failing).error? = some error ∧
      (adoptInto merge b siblings).kept = remaining b.oid before ∧
      (adoptInto merge b siblings).error? = some error := by
  induction siblings generalizing b with
  | nil => exact .inl ⟨rfl, rfl⟩
  | cons sibling rest ih =>
    by_cases hlt : b.oid < sibling.oid
    · cases herror : (b.attach sibling).error? with
      | some error =>
        refine .inr ⟨[], sibling, rest, error, rfl, hlt, rfl, herror, ?_, ?_⟩
        · rw [adoptInto_cons_of_error hlt herror]
          rfl
        · rw [adoptInto_cons_of_error hlt herror]
      | none =>
        have hadopt : adoptInto merge b (sibling :: rest) =
            adoptInto merge (b.attach sibling).after rest := adoptInto_cons_of_lt hlt herror
        have hrest := ih (b.attach sibling).after
        rw [Branch.oid_attach] at hrest
        rw [hadopt]
        rcases hrest with ⟨hok, heq⟩ | ⟨before, failing, after, error, hsplit, hbelow, hok, hfail,
          hkept, hadoption⟩
        · refine .inl ⟨?_, ?_⟩
          · rwa [contained_cons_of_lt hlt, Branch.attachAll_cons_of_ok herror]
          · rw [heq, contained_cons_of_lt hlt, remaining_cons_of_lt hlt,
              Branch.attachAll_cons_of_ok herror]
        · refine .inr ⟨sibling :: before, failing, after, error, by rw [hsplit]; rfl, hbelow,
            ?_, ?_, ?_, hadoption⟩
          · rwa [contained_cons_of_lt hlt, Branch.attachAll_cons_of_ok herror]
          · rwa [contained_cons_of_lt hlt, Branch.attachAll_cons_of_ok herror]
          · rw [hkept, remaining_cons_of_lt hlt]
    · rw [adoptInto_cons_of_not_lt hlt]
      rcases ih b with ⟨hok, heq⟩ | ⟨before, failing, after, error, hsplit, hbelow, hok, hfail,
        hkept, hadoption⟩
      · refine .inl ⟨by rwa [contained_cons_of_not_lt hlt], ?_⟩
        rw [heq, contained_cons_of_not_lt hlt, remaining_cons_of_not_lt hlt]
      · refine .inr ⟨sibling :: before, failing, after, error, by rw [hsplit]; rfl, hbelow, ?_, ?_,
          ?_, hadoption⟩
        · rwa [contained_cons_of_not_lt hlt]
        · rwa [contained_cons_of_not_lt hlt]
        · rw [hkept, remaining_cons_of_not_lt hlt]

/-! ### The parts of a merge step -/

theorem conflict?_eq_none :
    item.conflict? x = none ↔
      x.oid ≠ item.oid ∧ ∀ leaf, x = .scalar leaf → ¬ leaf.oid < item.oid := by
  unfold conflict?
  split
  · simp [*]
  · cases x with
    | branch c => simp_all
    | scalar leaf => by_cases hlt : leaf.oid < item.oid <;> simp_all

theorem conflict?_eq_some {error : MibError} (h : item.conflict? x = some error) :
    (x.oid = item.oid ∧ error = .duplicateOid item.oid.dotted x.name item.name) ∨
      ∃ leaf, x = .scalar leaf ∧ leaf.oid < item.oid ∧ error = leaf.cannotContain item.name := by
  unfold conflict? at h
  split at h
  · next heq => exact .inl ⟨heq, (Option.some.inj h).symm⟩
  · cases x with
    | branch c => simp at h
    | scalar leaf =>
      by_cases hlt : leaf.oid < item.oid
      · exact .inr ⟨leaf, rfl, hlt, by simpa [hlt] using h.symm⟩
      · simp [hlt] at h

theorem contained_eq_nil (h : ∀ x ∈ siblings, ¬ o < x.oid) : contained o siblings = [] :=
  List.filter_eq_nil_iff.mpr fun x hx => by simpa using h x hx

theorem remaining_eq_self (h : ∀ x ∈ siblings, ¬ o < x.oid) : remaining o siblings = siblings :=
  List.filter_eq_self.mpr fun x hx => by simpa using h x hx

/-- An item that contains none of the siblings adopts none. -/
theorem adopt_of_contains_none (h : ∀ x ∈ siblings, ¬ item.oid < x.oid) :
    adopt merge siblings item = { kept := siblings, item } := by
  cases item with
  | scalar s =>
    have hfind : siblings.find? (s.oid.isAncestorOf ·.oid) = none :=
      List.find?_eq_none.mpr fun x hx => by simpa using h x hx
    rw [adopt, hfind]
    rfl
  | branch b =>
    rcases adoptInto_cases b siblings with
      ⟨-, heq⟩ | ⟨before, failing, after, error, hsplit, hlt, -⟩
    · rw [oid_branch] at h
      rw [adopt, heq, contained_eq_nil h, remaining_eq_self h]
      rfl
    · exact absurd hlt (h failing (by simp [hsplit]))

theorem receive?_eq_none {nested : List Item → Item → Outcome (List Item)}
    (h : ∀ p, .branch p ∈ siblings → ¬ p.oid < item.oid) :
    receive? nested item siblings = none := by
  induction siblings with
  | nil => rfl
  | cons first rest ih =>
    have hrest := ih fun p hp => h p (List.mem_cons_of_mem _ hp)
    cases first with
    | scalar s => rw [receive?, hrest, Option.map_none]
    | branch p =>
      have hp := h p List.mem_cons_self
      rw [receive?, if_neg (by simpa using hp), hrest, Option.map_none]

theorem receive?_eq_some {before after : List Item} {p : Branch Item}
    (hbefore : ∀ q, .branch q ∈ before → ¬ q.oid < item.oid) (hlt : p.oid < item.oid) :
    receive? merge item (before ++ .branch p :: after) =
      some ((p.attach item).map fun p => before ++ .branch p :: after) := by
  induction before with
  | nil =>
    rw [List.nil_append, receive?, if_pos (by simpa using hlt)]
    rfl
  | cons first rest ih =>
    have hrest := ih fun q hq => hbefore q (List.mem_cons_of_mem _ hq)
    cases first with
    | scalar s => rw [List.cons_append, receive?, hrest]; rfl
    | branch q =>
      have hq := hbefore q List.mem_cons_self
      rw [List.cons_append, receive?, if_neg (by simpa using hq), hrest]
      rfl

theorem slot_eq_length (h : ∀ x ∈ siblings, ¬ item.oid < x.oid) :
    slot siblings item = siblings.length := by
  rw [slot, List.takeWhile_eq_self_iff.mpr fun x hx => by simpa using h x hx]

theorem slot_append (item : Item) {before after : List Item}
    (hbefore : ∀ y ∈ before, ¬ item.oid < y.oid) (hlt : item.oid < x.oid) :
    slot (before ++ x :: after) item = before.length := by
  rw [slot, List.takeWhile_append_of_pos fun y hy => by simpa using hbefore y hy,
    List.takeWhile_cons_of_neg (by simpa using hlt), List.append_nil]

/-! ### The cases -/

/-- What merging an item among siblings that stand apart comes to. -/
inductive MergeCase (siblings : List Item) (item : Item) : Outcome (List Item) → Prop
  /-- A sibling has the identifier of the item. -/
  | duplicate {sibling : Item} (hmem : sibling ∈ siblings) (heq : sibling.oid = item.oid) :
      MergeCase siblings item
        ⟨siblings, some (.duplicateOid item.oid.dotted sibling.name item.name)⟩
  /-- A scalar among the siblings contains the item. -/
  | underScalar {leaf : Scalar} (hmem : .scalar leaf ∈ siblings) (hlt : leaf.oid < item.oid) :
      MergeCase siblings item ⟨siblings, some (leaf.cannotContain item.name)⟩
  /-- The item is a scalar and contains a sibling. -/
  | overSibling {s : Scalar} {sibling : Item} (hitem : item = .scalar s)
      (hmem : sibling ∈ siblings) (hlt : s.oid < sibling.oid) :
      MergeCase siblings item ⟨siblings, some (s.cannotContain sibling.name)⟩
  /-- A branch among the siblings contains the item and receives it. -/
  | received {before after : List Item} {parent : Branch Item}
      (hsplit : siblings = before ++ .branch parent :: after) (hlt : parent.oid < item.oid) :
      MergeCase siblings item
        ((parent.attach item).map fun parent => before ++ .branch parent :: after)
  /-- The item stands apart from all siblings and becomes the last of them. -/
  | joined (hapart : ∀ sibling ∈ siblings, Apart sibling item) :
      MergeCase siblings item ⟨siblings ++ [item], none⟩
  /-- The item receives the siblings that it contains and takes the place of the first. -/
  | adopted {b : Branch Item} {before after : List Item} {first : Item} (hitem : item = .branch b)
      (hsplit : siblings = before ++ first :: after)
      (hbefore : ∀ sibling ∈ before, Apart sibling item) (hfirst : b.oid < first.oid)
      (hafter : ∀ sibling ∈ after, b.oid < sibling.oid ∨ Apart sibling item)
      (hok : (b.attachAll (first :: contained b.oid after)).error? = none) :
      MergeCase siblings item
        ⟨before ++ .branch (b.attachAll (first :: contained b.oid after)).after ::
          remaining b.oid after, none⟩
  /-- The item cannot receive one of the siblings that it contains. -/
  | refused {b : Branch Item} {before after : List Item} {failing : Item} {error : MibError}
      (hitem : item = .branch b) (hsplit : siblings = before ++ failing :: after)
      (hrelated : ∀ sibling ∈ siblings, b.oid < sibling.oid ∨ Apart sibling item)
      (hfailing : b.oid < failing.oid)
      (hok : (b.attachAll (contained b.oid before)).error? = none)
      (herror : ((b.attachAll (contained b.oid before)).after.attach failing).error? = some error) :
      MergeCase siblings item ⟨remaining b.oid before, some error⟩

/-- If one of the siblings contains the item, it receives it. -/
theorem merge_of_parent {p : Branch Item} (hnested : Nested siblings)
    (hconflict : siblings.findSome? item.conflict? = none) (hmem : .branch p ∈ siblings)
    (hlt : p.oid < item.oid) : MergeCase siblings item (merge siblings item) := by
  -- Whatever the item contains, the parent contains too.
  have hnone : ∀ x ∈ siblings, ¬ item.oid < x.oid := by
    intro x hx hitem
    have heq : x = .branch p := hnested.eq_of_le hx hmem le_rfl (hlt.trans hitem).le
    rw [heq] at hitem
    exact lt_asymm hlt hitem
  have hadopt := adopt_of_contains_none hnone
  obtain ⟨before, after, rfl⟩ := List.append_of_mem hmem
  -- No sibling before the parent contains the item, so the search ends at the parent.
  have hbefore : ∀ q, .branch q ∈ before → ¬ q.oid < item.oid := by
    intro q hq hqitem
    have hapart : Apart (.branch q) (.branch p) :=
      (List.pairwise_append.mp hnested.apart).2.2 _ hq _ List.mem_cons_self
    exact (Oid.Apart.mono hapart hqitem.le hlt.le).1 le_rfl
  have hreceive : receive? merge item (before ++ .branch p :: after) =
      some ((p.attach item).map fun p => before ++ .branch p :: after) :=
    receive?_eq_some hbefore hlt
  rw [merge_eq, mergeStep_of_received hconflict (by rw [hadopt]) (by rw [hadopt]; exact hreceive)]
  exact .received rfl hlt

/-- If no sibling contains the item, it stays among them with what it adopts. -/
theorem merge_of_no_parent (hconflict : siblings.findSome? item.conflict? = none)
    (hparent : ∀ p, .branch p ∈ siblings → ¬ p.oid < item.oid)
    (hrelated : ∀ sibling ∈ siblings, item.oid < sibling.oid ∨ Apart sibling item) :
    MergeCase siblings item (merge siblings item) := by
  by_cases hcontains : ∀ x ∈ siblings, ¬ item.oid < x.oid
  · have hadopt := adopt_of_contains_none hcontains
    rw [merge_eq, mergeStep_of_placed hconflict (by rw [hadopt])
      (by rw [hadopt]; exact receive?_eq_none hparent), hadopt, slot_eq_length hcontains,
      List.take_length, List.drop_length]
    exact .joined fun x hx => (hrelated x hx).resolve_left (hcontains x hx)
  · obtain ⟨first, hfind⟩ : ∃ e, siblings.find? (item.oid.isAncestorOf ·.oid) = some e := by
      rw [← Option.isSome_iff_exists, List.find?_isSome]
      push Not at hcontains
      simpa using hcontains
    have hfirst : item.oid < first.oid := by simpa using List.find?_some hfind
    cases item with
    | scalar s =>
      have hadopt : (adopt merge siblings (.scalar s)).error? =
          some (s.cannotContain first.name) := by rw [adopt, ← oid_scalar, hfind]; rfl
      rw [merge_eq, mergeStep_of_refused hconflict hadopt]
      exact .overSibling rfl (List.mem_of_find?_eq_some hfind) hfirst
    | branch b =>
      rw [oid_branch] at hfirst
      rcases adoptInto_cases b siblings with ⟨hok, heq⟩ | ⟨before, failing, after, error, hsplit,
        hfailing, hok, herror, hkept, hadopt⟩
      · obtain ⟨-, before, after, rfl, hbefore⟩ := List.find?_eq_some_iff_append.mp hfind
        have hnone : ∀ x ∈ before, ¬ b.oid < x.oid := fun x hx => by simpa using hbefore x hx
        rw [contained_append, contained_eq_nil hnone, List.nil_append, contained_cons_of_lt hfirst]
          at hok heq
        rw [remaining_append, remaining_eq_self hnone, remaining_cons_of_lt hfirst] at heq
        -- Receiving the siblings below did not give the item a parent among the others.
        have hreceive : receive? merge
            (.branch (b.attachAll (first :: contained b.oid after)).after)
            (before ++ remaining b.oid after) = none := by
          refine receive?_eq_none fun p hp => ?_
          rw [oid_branch, Branch.oid_attachAll]
          refine hparent p ?_
          rcases List.mem_append.mp hp with hmem | hmem
          · exact List.mem_append_left _ hmem
          · exact List.mem_append_right _ (List.mem_cons_of_mem _ (mem_remaining.mp hmem).1)
        rw [merge_eq, mergeStep_of_placed hconflict (by rw [adopt, heq])
          (by rw [adopt, heq]; exact hreceive), adopt, heq,
          slot_append (.branch b) hnone hfirst, List.take_left,
          List.drop_left]
        refine .adopted rfl rfl (fun x hx => ?_) hfirst (fun x hx => ?_) hok
        · exact (hrelated x (List.mem_append_left _ hx)).resolve_left (hnone x hx)
        · exact hrelated x (List.mem_append_right _ (List.mem_cons_of_mem _ hx))
      · rw [merge_eq, mergeStep_of_refused hconflict hadopt, adopt, hkept]
        exact .refused rfl hsplit hrelated hfailing hok herror

/-- A merge among siblings that stand apart is one of the cases. -/
theorem merge_cases (hnested : Nested siblings) (item : Item) :
    MergeCase siblings item (merge siblings item) := by
  cases hconflict : siblings.findSome? item.conflict? with
  | some error =>
    rw [merge_eq, mergeStep_of_conflict hconflict]
    obtain ⟨sibling, hmem, herror⟩ := List.exists_of_findSome?_eq_some hconflict
    rcases conflict?_eq_some herror with ⟨heq, rfl⟩ | ⟨leaf, rfl, hlt, rfl⟩
    · exact .duplicate hmem heq
    · exact .underScalar hmem hlt
  | none =>
    have hnone : ∀ x ∈ siblings, item.conflict? x = none := List.findSome?_eq_none_iff.mp hconflict
    -- A parent among the siblings is the only one, and the item contains nothing then.
    by_cases hparent : ∃ p, .branch p ∈ siblings ∧ p.oid < item.oid
    · obtain ⟨p, hmem, hlt⟩ := hparent
      exact merge_of_parent hnested hconflict hmem hlt
    · push Not at hparent
      refine merge_of_no_parent hconflict hparent fun x hx => ?_
      obtain ⟨hne, hscalar⟩ := conflict?_eq_none.mp (hnone x hx)
      rcases Oid.apart_or_related x.oid item.oid with hapart | heq | hlt | hgt
      · exact .inr hapart
      · exact absurd heq hne
      · cases x with
        | branch p => exact absurd hlt (hparent p hx)
        | scalar leaf => exact absurd hlt (hscalar leaf rfl)
      · exact .inl hgt

/-- What stands among the siblings after a merge looks like the item or one of them. -/
theorem descriptor_of_mem_merge (hnested : Nested siblings)
    (hx : x ∈ (merge siblings item).after) :
    x.descriptor = item.descriptor ∨ ∃ sibling ∈ siblings, x.descriptor = sibling.descriptor := by
  have hcase := merge_cases hnested item
  generalize merge siblings item = outcome at hcase hx
  cases hcase with
  | duplicate hmem heq => exact .inr ⟨x, hx, rfl⟩
  | underScalar hmem hlt => exact .inr ⟨x, hx, rfl⟩
  | overSibling hitem hmem hlt => exact .inr ⟨x, hx, rfl⟩
  | received hsplit hlt =>
    subst hsplit
    rcases List.mem_append.mp hx with hbefore | hrest
    · exact .inr ⟨x, List.mem_append_left _ hbefore, rfl⟩
    · rcases List.mem_cons.mp hrest with rfl | hafter
      · exact .inr ⟨_, List.mem_append_right _ List.mem_cons_self, Branch.descriptor_attach⟩
      · exact .inr ⟨x, List.mem_append_right _ (List.mem_cons_of_mem _ hafter), rfl⟩
  | joined hapart =>
    rcases List.mem_append.mp hx with hmem | hmem
    · exact .inr ⟨x, hmem, rfl⟩
    · exact .inl (List.mem_singleton.mp hmem ▸ rfl)
  | adopted hitem hsplit hbefore hfirst hafter hok =>
    subst hitem hsplit
    rcases List.mem_append.mp hx with hmem | hrest
    · exact .inr ⟨x, List.mem_append_left _ hmem, rfl⟩
    · rcases List.mem_cons.mp hrest with rfl | hmem
      · exact .inl Branch.descriptor_attachAll
      · have hmem := (mem_remaining.mp hmem).1
        exact .inr ⟨x, List.mem_append_right _ (List.mem_cons_of_mem _ hmem), rfl⟩
  | refused hitem hsplit hrelated hfailing hok herror =>
    subst hsplit
    exact .inr ⟨x, List.mem_append_left _ (mem_remaining.mp hx).1, rfl⟩

end Item

end MibDrivers
