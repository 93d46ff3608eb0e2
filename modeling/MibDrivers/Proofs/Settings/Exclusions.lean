import Mathlib.Order.Basic
import MibDrivers.Proofs.Entries
import MibDrivers.Settings.Layering

/-!
# A list extended by another

The overlay of a list of excluded names mentions items and takes items out. What comes last about an
item decides: it is there if the base has it and nothing takes it out, or if the overlay mentions it
after everything that takes it out. The items of the base that are never taken out stand first, in
the order of the base. The others follow in the order in which the overlay adds them for the last
time. No other list has the same items in this order.

An item that begins with `!` can only come from the base, since the overlay takes something out with
it.

## Main definitions

* `Settings.removal` — the pattern that takes an item out
* `Settings.Kept`, `Settings.Standing` — the two ways in which an item is there
* `Settings.LastAdded` — the place at which an overlay adds an item for the last time
* `Settings.Precedes` — which of two items comes first
* `Settings.Extends` — a list that extends the base by the overlay

## Main results

* `Settings.Extends.applyPattern` — what one more pattern does to a list that extends the base
* `Settings.mergeExclusions_eq_iff` — the only list that extends the base by the overlay
-/

namespace MibDrivers

namespace Settings

variable {base overlay result : List String} {item other pattern a b : String} {place later : Nat}

/-! ### Patterns -/

/-- The pattern that takes an item out. -/
def removal (item : String) : String := "!" ++ item

/-- The text begins with `!`. -/
def IsMarked (text : String) : Prop := text.toList.head? = some '!'

theorem toList_removal (item : String) : (removal item).toList = '!' :: item.toList := by
  rw [removal, String.toList_append]
  rfl

theorem removal_injective : Function.Injective removal := by
  intro a b h
  have hlist := congrArg String.toList h
  rw [toList_removal, toList_removal] at hlist
  exact String.toList_injective (List.cons.inj hlist).2

theorem removal_ne (item : String) : removal item ≠ item := by
  intro h
  have hlist := congrArg String.toList h
  rw [toList_removal] at hlist
  exact List.cons_ne_self _ _ hlist

theorem isMarked_removal (item : String) : IsMarked (removal item) := by
  rw [IsMarked, toList_removal, List.head?_cons]

/-- A text begins with `!` if it takes an item out. -/
theorem isMarked_iff : IsMarked pattern ↔ ∃ item, pattern = removal item := by
  constructor
  · intro h
    obtain ⟨rest, hrest⟩ := List.head?_eq_some_iff.mp h
    refine ⟨String.ofList rest, String.toList_injective ?_⟩
    rw [hrest, toList_removal, String.toList_ofList]
  · rintro ⟨item, rfl⟩
    exact isMarked_removal item

theorem removal_ne_of_not_isMarked (h : ¬ IsMarked pattern) (item : String) :
    removal item ≠ pattern :=
  fun heq => h (heq ▸ isMarked_removal item)

theorem negated?_removal (item : String) : negated? (removal item) = some item := by
  rw [negated?, toList_removal]
  exact congrArg some (String.ofList_toList)

theorem negated?_of_not_isMarked (h : ¬ IsMarked pattern) : negated? pattern = none := by
  rw [negated?, Option.map_eq_none_iff]
  cases hlist : pattern.toList with
  | nil => rfl
  | cons c rest =>
    have hc : c ≠ '!' := fun hc => h (by rw [IsMarked, hlist, hc, List.head?_cons])
    rw [Text.dropPrefix?, if_neg hc.symm]

/-! ### What an overlay does to an item -/

/-- The base has the item, and nothing takes it out. -/
def Kept (base overlay : List String) (item : String) : Prop :=
  item ∈ base ∧ removal item ∉ overlay

/-- The overlay mentions the item after everything that takes it out. -/
def Standing (overlay : List String) (item : String) : Prop :=
  ¬ IsMarked item ∧ ∃ place : Nat, overlay[place]? = some item ∧
    ∀ other : Nat, overlay[other]? = some (removal item) → other < place

/-- The overlay adds the item at the place, and not later: it mentions the item there, takes it out
between any earlier mention and the place, and does not take it out afterwards. -/
structure LastAdded (overlay : List String) (item : String) (place : Nat) : Prop where
  mentioned : overlay[place]? = some item
  removed_before : ∀ earlier < place, overlay[earlier]? = some item →
    ∃ between : Nat, earlier < between ∧ between < place ∧ overlay[between]? = some (removal item)
  not_removed : ∀ later : Nat, place < later → overlay[later]? ≠ some (removal item)

/-- Of two items, this one comes first. -/
inductive Precedes (base overlay : List String) (a b : String) : Prop where
  /-- Both are kept, and it comes first in the base. -/
  | kept (ha : Kept base overlay a) (hb : Kept base overlay b) (h : base.idxOf a < base.idxOf b)
  /-- It is kept, and the other one is added. -/
  | added (ha : Kept base overlay a) (hb : ¬ Kept base overlay b)
  /-- Both are added, and it is added for the last time before the other one is. -/
  | earlier {place later : Nat} (ha : ¬ Kept base overlay a) (hb : ¬ Kept base overlay b)
    (hplace : LastAdded overlay a place) (hlater : LastAdded overlay b later) (h : place < later)

/-- The result extends the base by the overlay. -/
structure Extends (base overlay result : List String) : Prop where
  nodup : result.Nodup
  mem_iff : ∀ item, item ∈ result ↔ Kept base overlay item ∨ Standing overlay item
  ordered : result.Pairwise (Precedes base overlay)

/-- An overlay that mentions an item after everything that takes it out adds it for a last time. -/
theorem Standing.exists_lastAdded (h : Standing overlay item) :
    ∃ place, LastAdded overlay item place := by
  classical
  obtain ⟨-, hexists⟩ := h
  -- This is the first mention after everything that takes the item out.
  obtain ⟨hmentioned, hremoved⟩ := Nat.find_spec hexists
  refine ⟨Nat.find hexists, hmentioned, fun earlier hlt hearlier => ?_, fun later hlt hlater => ?_⟩
  · have hnot := Nat.find_min hexists hlt
    push Not at hnot
    obtain ⟨between, hbetween, hle⟩ := hnot hearlier
    refine ⟨between, lt_of_le_of_ne hle ?_, hremoved between hbetween, hbetween⟩
    rintro rfl
    exact removal_ne item (Option.some.inj (hbetween.symm.trans hearlier))
  · exact absurd (hremoved later hlater) hlt.asymm

theorem LastAdded.place_unique (h : LastAdded overlay item place)
    (h' : LastAdded overlay item later) : place = later := by
  -- The earlier place would have something after it that takes the item out.
  have hnot : ∀ {p q : Nat}, LastAdded overlay item p → LastAdded overlay item q → ¬ p < q := by
    intro p q hp hq hlt
    obtain ⟨between, hafter, -, hremoved⟩ := hq.removed_before p hlt hp.mentioned
    exact hp.not_removed between hafter hremoved
  exact Nat.le_antisymm (Nat.le_of_not_lt (hnot h' h)) (Nat.le_of_not_lt (hnot h h'))

instance : Std.Asymm (Precedes base overlay) where
  asymm a b hab hba := by
    cases hab with
    | kept ha hb h =>
      cases hba with
      | kept _ _ h' => exact h.asymm h'
      | added _ hnot => exact hnot ha
      | earlier hnot => exact hnot hb
    | added ha hb =>
      cases hba with
      | kept hb' => exact hb hb'
      | added hb' => exact hb hb'
      | earlier _ hnot => exact hnot ha
    | earlier ha hb hplace hlater h =>
      cases hba with
      | kept hb' => exact hb hb'
      | added hb' => exact hb hb'
      | earlier _ _ hplace' hlater' h' =>
        rw [hplace.place_unique hlater', hlater.place_unique hplace'] at h
        exact h.asymm h'

/-! ### One more pattern -/

theorem getElem?_concat_eq_some_iff :
    (overlay ++ [pattern])[place]? = some item ↔
      overlay[place]? = some item ∨ place = overlay.length ∧ pattern = item := by
  rcases lt_trichotomy place overlay.length with hlt | rfl | hgt
  · rw [List.getElem?_append_left hlt, or_iff_left fun h => hlt.ne h.1]
  · simp
  · rw [List.getElem?_eq_none (by simp; omega), List.getElem?_eq_none hgt.le]
    simp [hgt.ne']

theorem kept_concat_iff (h : removal item ≠ pattern) :
    Kept base (overlay ++ [pattern]) item ↔ Kept base overlay item := by
  simp [Kept, h]

theorem removed_concat_iff (h : removal item ≠ pattern) :
    (overlay ++ [pattern])[place]? = some (removal item) ↔
      overlay[place]? = some (removal item) := by
  rw [getElem?_concat_eq_some_iff, or_iff_left fun hlast => h hlast.2.symm]

/-- A pattern that does not take the item out leaves it standing. -/
theorem Standing.concat (hitem : Standing overlay item) (h : removal item ≠ pattern) :
    Standing (overlay ++ [pattern]) item := by
  obtain ⟨hmarked, place, hmentioned, hremoved⟩ := hitem
  refine ⟨hmarked, place, getElem?_concat_eq_some_iff.mpr (.inl hmentioned), fun later hlater => ?_⟩
  exact hremoved later ((removed_concat_iff h).mp hlater)

/-- A pattern about another item does not make the item stand. -/
theorem Standing.of_concat (hitem : Standing (overlay ++ [pattern]) item) (h : item ≠ pattern) :
    Standing overlay item := by
  obtain ⟨hmarked, place, hmentioned, hremoved⟩ := hitem
  refine ⟨hmarked, place, ?_, fun later hlater => ?_⟩
  · exact (getElem?_concat_eq_some_iff.mp hmentioned).resolve_right fun hlast => h hlast.2.symm
  · exact hremoved later (getElem?_concat_eq_some_iff.mpr (.inl hlater))

theorem LastAdded.place_lt (h : LastAdded overlay item place) : place < overlay.length := by
  by_contra hge
  rw [not_lt] at hge
  cases h.mentioned.symm.trans (List.getElem?_eq_none hge)

theorem LastAdded.concat (hplace : LastAdded overlay item place) (h : removal item ≠ pattern) :
    LastAdded (overlay ++ [pattern]) item place where
  mentioned := getElem?_concat_eq_some_iff.mpr (.inl hplace.mentioned)
  removed_before earlier hlt hearlier := by
    have hold := (getElem?_concat_eq_some_iff.mp hearlier).resolve_right fun hlast =>
      absurd hplace.place_lt (hlast.1 ▸ hlt).asymm
    obtain ⟨between, hafter, hbefore, hremoved⟩ := hplace.removed_before earlier hlt hold
    exact ⟨between, hafter, hbefore, (removed_concat_iff h).mpr hremoved⟩
  not_removed later hlt hlater := hplace.not_removed later hlt ((removed_concat_iff h).mp hlater)

/-- An item that does not stand is added by the pattern that mentions it. -/
theorem lastAdded_concat (hmarked : ¬ IsMarked pattern) (h : ¬ Standing overlay pattern) :
    LastAdded (overlay ++ [pattern]) pattern overlay.length where
  mentioned := getElem?_concat_eq_some_iff.mpr (.inr ⟨rfl, rfl⟩)
  removed_before earlier hlt hearlier := by
    have hold := (getElem?_concat_eq_some_iff.mp hearlier).resolve_right fun hlast =>
      hlt.ne hlast.1
    by_contra hnone
    push Not at hnone
    -- Then nothing would take the item out after the earlier mention.
    refine h ⟨hmarked, earlier, hold, fun between hbetween => ?_⟩
    by_contra hge
    have hlength : between < overlay.length := (List.getElem?_eq_some_iff.mp hbetween).1
    refine hnone between (lt_of_le_of_ne (not_lt.mp hge) ?_) hlength
      (getElem?_concat_eq_some_iff.mpr (.inl hbetween))
    rintro rfl
    exact removal_ne pattern (Option.some.inj (hbetween.symm.trans hold))
  not_removed later hlt := by
    rw [List.getElem?_eq_none (by rw [List.length_append, List.length_singleton]; omega)]
    exact nofun

theorem Precedes.concat (h : Precedes base overlay a b) (ha : removal a ≠ pattern)
    (hb : removal b ≠ pattern) : Precedes base (overlay ++ [pattern]) a b := by
  have hkept : ∀ {item}, removal item ≠ pattern →
      (Kept base overlay item ↔ Kept base (overlay ++ [pattern]) item) :=
    fun hitem => (kept_concat_iff hitem).symm
  cases h with
  | kept hka hkb hlt => exact .kept ((hkept ha).mp hka) ((hkept hb).mp hkb) hlt
  | added hka hkb => exact .added ((hkept ha).mp hka) (mt (hkept hb).mpr hkb)
  | earlier hka hkb hplace hlater hlt =>
    exact .earlier (mt (hkept ha).mpr hka) (mt (hkept hb).mpr hkb) (hplace.concat ha)
      (hlater.concat hb) hlt

/-- A pattern that takes an item out. -/
theorem Extends.remove (h : Extends base overlay result) (item : String) :
    Extends base (overlay ++ [removal item]) (result.filter (· ≠ item)) where
  nodup := h.nodup.filter _
  mem_iff other := by
    rw [List.mem_filter, decide_eq_true_iff, h.mem_iff]
    by_cases hother : other = item
    · subst hother
      refine iff_of_false (fun hkept => hkept.2 rfl) ?_
      rintro (hkept | ⟨-, place, hmentioned, hremoved⟩)
      · exact hkept.2 (by simp)
      · -- The last place takes the item out, so no mention comes after it.
        have hlast := hremoved overlay.length (getElem?_concat_eq_some_iff.mpr (.inr ⟨rfl, rfl⟩))
        have hlength := (List.getElem?_eq_some_iff.mp hmentioned).1
        rw [List.length_append, List.length_singleton] at hlength
        omega
    · have hne := removal_injective.ne hother
      rw [kept_concat_iff hne, and_iff_left hother]
      refine or_congr_right ⟨fun hstanding => hstanding.concat hne, fun hstanding => ?_⟩
      exact hstanding.of_concat fun heq => hstanding.1 (heq ▸ isMarked_removal item)
  ordered := by
    refine (h.ordered.filter _).imp_of_mem fun ha hb hab => ?_
    have hne : ∀ {a}, a ∈ result.filter (· ≠ item) → removal a ≠ removal item :=
      fun hmem => removal_injective.ne (by simpa using (List.mem_filter.mp hmem).2)
    exact hab.concat (hne ha) (hne hb)

/-- A pattern makes the item that it mentions stand. -/
theorem standing_mention (hmarked : ¬ IsMarked pattern) :
    Standing (overlay ++ [pattern]) pattern := by
  refine ⟨hmarked, overlay.length, getElem?_concat_eq_some_iff.mpr (.inr ⟨rfl, rfl⟩),
    fun later hlater => ?_⟩
  have hne := removal_ne_of_not_isMarked hmarked pattern
  exact (List.getElem?_eq_some_iff.mp ((removed_concat_iff hne).mp hlater)).1

/-- A pattern that mentions an item adds this item and no other. -/
theorem mem_mention_iff (h : Extends base overlay result) (hmarked : ¬ IsMarked pattern)
    (item : String) :
    item ∈ result ∨ item = pattern ↔
      Kept base (overlay ++ [pattern]) item ∨ Standing (overlay ++ [pattern]) item := by
  have hne := removal_ne_of_not_isMarked hmarked item
  rw [h.mem_iff, kept_concat_iff hne, or_assoc]
  refine or_congr_right ⟨?_, fun hstanding => ?_⟩
  · rintro (hstanding | rfl)
    · exact hstanding.concat hne
    · exact standing_mention hmarked
  · by_cases hitem : item = pattern
    · exact .inr hitem
    · exact .inl (hstanding.of_concat hitem)

/-- What is there already comes before an item that is added. -/
theorem Extends.precedes_mention (h : Extends base overlay result) (hmarked : ¬ IsMarked pattern)
    (hnew : pattern ∉ result) (ha : a ∈ result) :
    Precedes base (overlay ++ [pattern]) a pattern := by
  have hne := removal_ne_of_not_isMarked hmarked
  rw [h.mem_iff, not_or] at hnew
  obtain ⟨hkept, hstanding⟩ := hnew
  have hnot := mt (kept_concat_iff (hne pattern)).mp hkept
  -- It is kept, or it was added before.
  by_cases hka : Kept base (overlay ++ [pattern]) a
  · exact .added hka hnot
  · have hstands := ((h.mem_iff a).mp ha).resolve_left (mt (kept_concat_iff (hne a)).mpr hka)
    obtain ⟨place, hplace⟩ := hstands.exists_lastAdded
    exact .earlier hka hnot (hplace.concat (hne a)) (lastAdded_concat hmarked hstanding)
      hplace.place_lt

/-- A pattern that mentions an item. -/
theorem Extends.mention (h : Extends base overlay result) (hmarked : ¬ IsMarked pattern) :
    Extends base (overlay ++ [pattern])
      (if pattern ∈ result then result else result ++ [pattern]) := by
  have hne := removal_ne_of_not_isMarked hmarked
  have hordered : result.Pairwise (Precedes base (overlay ++ [pattern])) :=
    h.ordered.imp fun hab => hab.concat (hne _) (hne _)
  split_ifs with hold
  · refine ⟨h.nodup, fun item => ?_, hordered⟩
    rw [← mem_mention_iff h hmarked, or_iff_left_of_imp]
    rintro rfl
    exact hold
  · have hapart : ∀ a ∈ result, ∀ b ∈ [pattern], a ≠ b ∧
        Precedes base (overlay ++ [pattern]) a b := by
      intro a ha b hb
      obtain rfl := List.mem_singleton.mp hb
      exact ⟨fun heq => hold (heq ▸ ha), h.precedes_mention hmarked hold ha⟩
    refine ⟨?_, fun item => ?_, ?_⟩
    · exact List.nodup_append.mpr
        ⟨h.nodup, List.nodup_singleton _, fun a ha b hb => (hapart a ha b hb).1⟩
    · rw [List.mem_append, List.mem_singleton, mem_mention_iff h hmarked]
    · exact List.pairwise_append.mpr
        ⟨hordered, List.pairwise_singleton _ _, fun a ha b hb => (hapart a ha b hb).2⟩

/-- One more pattern changes a list that extends the base into one that extends it by one pattern
more. -/
theorem Extends.applyPattern (h : Extends base overlay result) (pattern : String) :
    Extends base (overlay ++ [pattern]) (Settings.applyPattern result pattern) := by
  unfold Settings.applyPattern
  by_cases hmarked : IsMarked pattern
  · obtain ⟨item, rfl⟩ := isMarked_iff.mp hmarked
    rw [negated?_removal]
    exact h.remove item
  · rw [negated?_of_not_isMarked hmarked]
    exact h.mention hmarked

/-! ### The whole overlay -/

theorem distinct_eq_eraseDups (items : List String) : distinct items = items.eraseDups := by
  induction items using List.reverseRecOn with
  | nil => rfl
  | append_singleton earlier last ih =>
    have hlast : distinct (earlier ++ [last]) =
        if last ∈ distinct earlier then distinct earlier else distinct earlier ++ [last] := by
      rw [distinct, List.foldl_append]
      rfl
    rw [hlast, ih, Entries.eraseDups_concat]
    simp only [List.mem_eraseDups]

/-- The base without repetitions extends the base by nothing. -/
theorem extends_distinct (base : List String) : Extends base [] (distinct base) := by
  rw [distinct_eq_eraseDups]
  have hordered := Entries.pairwise_idxOf_eraseDups base
  have hkept : ∀ {item}, item ∈ base.eraseDups → Kept base [] item :=
    fun hitem => ⟨List.mem_eraseDups.mp hitem, List.not_mem_nil⟩
  refine ⟨hordered.imp fun hlt heq => ?_, fun item => ?_, ?_⟩
  · rw [heq] at hlt
    exact lt_irrefl _ hlt
  · simp [Kept, Standing]
  · exact hordered.imp_of_mem fun ha hb hlt => .kept (hkept ha) (hkept hb) hlt

theorem extends_mergeExclusions (base overlay : List String) :
    Extends base overlay (mergeExclusions base overlay) := by
  induction overlay using List.reverseRecOn with
  | nil => exact extends_distinct base
  | append_singleton earlier last ih =>
    rw [mergeExclusions, List.foldl_append]
    exact ih.applyPattern last

/-- A list extended by another is the only one that extends it. -/
theorem mergeExclusions_eq_iff :
    mergeExclusions base overlay = result ↔ Extends base overlay result := by
  constructor
  · rintro rfl
    exact extends_mergeExclusions base overlay
  · intro h
    have hmerged := extends_mergeExclusions base overlay
    apply hmerged.ordered.eq_of_mem_iff h.ordered
    intro item
    rw [hmerged.mem_iff, h.mem_iff]

end Settings

end MibDrivers
