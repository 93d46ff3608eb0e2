import Mathlib.Data.List.TakeWhile
import MibDrivers.Host.Tree
import MibDrivers.Proofs.Entries
import MibDrivers.Proofs.Results
import MibDrivers.Proofs.Text.Split
import MibDrivers.Proofs.Text.Utf8

/-!
# Files after a write

To write a file is to make the directories above it and then to put it into its place. Directories
are made only where nothing was, and each one that the path goes through stays a directory. So if
the write succeeds, the path leads to the file, and if it does not, all files are as before. A file
to which the path does not lead reads the same either way.

## Main definitions

* `FileTree.Grows` — directories are made where nothing was
* `FileTree.Written` — what a write that succeeds has done

## Main results

* `FileTree.write_cases` — what a write can do
* `FileTree.read_of_write` — a file holds what was written
* `FileTree.readText_of_write_elsewhere` — other files read the same
* `FileTree.node?_of_write_failed` — a write that fails changes no file
-/

namespace MibDrivers

namespace FileTree

variable {tree grown later : FileTree} {place last q : Place} {node : FileNode}
  {components : List String} {path text : String} {content : List UInt8}

/-! ### Growing -/

theorem node?_put (h : place ≠ []) :
    (tree.put place node).node? q = if q = place then some node else tree.node? q := by
  cases q with
  | nil => rw [if_neg h.symm, node?, node?]
  | cons name above => exact Entries.lookup_put tree.nodes place (name :: above) node

/-- The second tree has directories where the first one has nothing, and is else the same. -/
structure Grows (tree grown : FileTree) : Prop where
  node : ∀ q, grown.node? q = tree.node? q ∨
    tree.node? q = none ∧ grown.node? q = some .directory
  working : grown.working = tree.working

theorem Grows.refl (tree : FileTree) : tree.Grows tree := ⟨fun _ => .inl rfl, rfl⟩

theorem Grows.trans (hfirst : tree.Grows grown) (hsecond : grown.Grows later) :
    tree.Grows later := by
  refine ⟨fun q => ?_, hsecond.working.trans hfirst.working⟩
  rcases hsecond.node q with hsame | ⟨hnone, hmade⟩
  · rw [hsame]
    exact hfirst.node q
  · rcases hfirst.node q with hsame | ⟨-, hdirectory⟩
    · exact .inr ⟨hsame ▸ hnone, hmade⟩
    · rw [hdirectory] at hnone
      cases hnone

theorem Grows.directory (h : tree.Grows grown) (hq : tree.node? q = some .directory) :
    grown.node? q = some .directory := by
  rcases h.node q with hsame | ⟨hnone, -⟩
  · rw [hsame, hq]
  · rw [hq] at hnone
    cases hnone

/-- No file is made, changed or lost. -/
theorem Grows.file_iff (h : tree.Grows grown) :
    grown.node? q = some (.file content) ↔ tree.node? q = some (.file content) := by
  rcases h.node q with hsame | ⟨hnone, hmade⟩
  · rw [hsame]
  · simp [hnone, hmade]

theorem grows_put (h : tree.node? place = none) : tree.Grows (tree.put place .directory) := by
  have hne : place ≠ [] := by
    rintro rfl
    cases h
  refine ⟨fun q => ?_, rfl⟩
  rw [node?_put hne]
  by_cases hq : q = place
  · subst hq
    exact .inr ⟨h, if_pos rfl⟩
  · exact .inl (if_neg hq)

/-- The tree with a directory at a place, unless something is there. -/
theorem grows_child (tree : FileTree) (place : Place) :
    tree.Grows (if (tree.node? place).isSome then tree else tree.put place .directory) := by
  split_ifs with hsome
  · exact .refl tree
  · exact grows_put (by simpa using hsome)

/-! ### Making directories -/

theorem makeDirectories_grows (tree : FileTree) (place : Place) (components : List String) :
    tree.Grows (tree.makeDirectories place components).1 := by
  induction components generalizing tree place with
  | nil => exact .refl tree
  | cons component rest ih =>
    rw [makeDirectories]
    split_ifs
    · exact .refl tree
    · exact ih tree place
    · exact ih tree place.tail
    · exact .refl tree
    · exact (grows_child tree _).trans (ih _ _)

/-- Directories are only made from a directory. -/
theorem directory_of_makeDirectories (h : (tree.makeDirectories place components).2 = some last) :
    tree.node? place = some .directory := by
  cases components with
  | nil =>
    rw [makeDirectories] at h
    exact (Option.ite_none_right_eq_some.mp h).1
  | cons component rest =>
    by_contra hnone
    rw [makeDirectories, if_pos hnone] at h
    cases h

/-- Where directories were made, a path leads through them, as long as they stay directories. -/
theorem follow_of_makeDirectories (h : (tree.makeDirectories place components).2 = some last)
    (hstay : ∀ q, (tree.makeDirectories place components).1.node? q = some .directory →
      later.node? q = some .directory) :
    later.follow place components = .ok last ∧ later.node? last = some .directory := by
  have hplace := hstay _ ((makeDirectories_grows tree place components).directory
    (directory_of_makeDirectories h))
  -- The tree grows from component to component, but what is followed is the later tree throughout.
  induction components generalizing tree place with
  | nil =>
    rw [makeDirectories] at h
    obtain rfl := Option.some.inj (Option.ite_none_right_eq_some.mp h).2
    exact ⟨rfl, hplace⟩
  | cons component rest ih =>
    have hdirectory := directory_of_makeDirectories h
    rw [makeDirectories, if_neg (not_not.mpr hdirectory)] at h hstay
    rw [follow, if_neg (not_not.mpr hplace)]
    have hnext : ∀ {tree' : FileTree} {place' : Place},
        (tree'.makeDirectories place' rest).2 = some last →
        (∀ q, (tree'.makeDirectories place' rest).1.node? q = some .directory →
          later.node? q = some .directory) → later.node? place' = some .directory :=
      fun h' hstay' => hstay' _ ((makeDirectories_grows _ _ _).directory
        (directory_of_makeDirectories h'))
    by_cases hstays : stays component
    · rw [if_pos hstays] at h hstay ⊢
      exact ih h hstay (hnext h hstay)
    rw [if_neg hstays] at h hstay ⊢
    by_cases hup : component = ".."
    · rw [if_pos hup] at h hstay ⊢
      exact ih h hstay (hnext h hstay)
    rw [if_neg hup] at h hstay ⊢
    by_cases hlong : maxNameLength < component.utf8ByteSize
    · rw [if_pos hlong] at h
      cases h
    rw [if_neg hlong] at h hstay ⊢
    -- The directory is there now, whether it was made or not.
    have hchild := hnext h hstay
    rw [if_pos (by rw [hchild]; rfl)]
    exact ih h hstay hchild

/-- A path is followed piece by piece. -/
theorem follow_append (tree : FileTree) (place : Place) (first second : List String) :
    tree.follow place (first ++ second) =
      tree.follow place first >>= fun middle => tree.follow middle second := by
  induction first generalizing place with
  | nil => rfl
  | cons component rest ih =>
    rw [List.cons_append, follow, follow]
    split_ifs
    · rfl
    · exact ih place
    · exact ih place.tail
    · rfl
    · exact ih _
    · rfl

/-! ### Writing -/

/-- A text can be handed over if no character of it is null. -/
theorem isPassable_iff : isPassable text ↔ Char.ofNat 0 ∉ text.toList := by
  simp [isPassable]

theorem mem_intercalate {separator : List Char} {pieces : List (List Char)} {piece : List Char}
    {c : Char} (hpiece : piece ∈ pieces) (hc : c ∈ piece) : c ∈ separator.intercalate pieces := by
  induction pieces with
  | nil => cases hpiece
  | cons first rest ih =>
    cases rest with
    | nil =>
      obtain rfl := List.mem_singleton.mp hpiece
      simpa [List.intercalate] using hc
    | cons second others =>
      rw [List.intercalate_cons_cons, List.mem_append, List.mem_append]
      rcases List.mem_cons.mp hpiece with rfl | hrest
      · exact .inl (.inl hc)
      · exact .inr (ih hrest)

/-- A path can be handed over if its last component and what is above it can. -/
theorem isPassable_of_parentPath {above : List String} {name : String}
    (hcomponents : FileTree.components path = above.reverse ++ [name])
    (hparent : isPassable (parentPath above)) (hname : isPassable name) : isPassable path := by
  rw [isPassable_iff] at hparent hname ⊢
  intro hmem
  obtain ⟨piece, hpiece, hnull⟩ := Text.exists_mem_splitAt hmem (by decide : Char.ofNat 0 ≠ '/')
  have hcomponent : String.ofList piece ∈ above.reverse ++ [name] := by
    rw [← hcomponents]
    exact List.mem_map_of_mem hpiece
  rw [List.mem_append, List.mem_reverse, List.mem_singleton] at hcomponent
  rcases hcomponent with habove | hlast
  · -- What the parent leaves out is empty or a point.
    rw [← List.takeWhile_append_dropWhile (p := stays) (l := above), List.mem_append] at habove
    rcases habove with hout | hin
    · have hstays := List.mem_takeWhile_imp hout
      simp only [stays, Bool.or_eq_true, decide_eq_true_eq] at hstays
      rcases hstays with hempty | hpoint
      · rw [← String.toList_inj, String.toList_ofList] at hempty
        rw [hempty] at hnull
        cases hnull
      · rw [← String.toList_inj, String.toList_ofList] at hpoint
        rw [hpoint] at hnull
        exact absurd hnull (by decide)
    · refine hparent ?_
      rw [parentPath, String.toList_intercalate]
      refine mem_intercalate ?_ hnull
      rw [List.mem_map]
      exact ⟨_, List.mem_reverse.mpr hin, String.toList_ofList⟩
  · refine hname ?_
    rw [← hlast, String.toList_ofList]
    exact hnull

/-- If the last component of a path does not stay where it is, it is the name that is written. -/
theorem components_eq_of_dropWhile {name : String} {above : List String}
    (hdrop : (FileTree.components path).reverse.dropWhile stays = name :: above)
    (hlast : (FileTree.components path).reverse.head?.any stays = false) :
    FileTree.components path = above.reverse ++ [name] ∧ stays name = false := by
  cases hreversed : (FileTree.components path).reverse with
  | nil =>
    rw [hreversed] at hdrop
    cases hdrop
  | cons first others =>
    rw [hreversed, List.head?_cons, Option.any_some] at hlast
    rw [hreversed, List.dropWhile_cons_of_neg (by simp [hlast])] at hdrop
    obtain ⟨rfl, rfl⟩ := List.cons.inj hdrop
    rw [← List.reverse_cons, ← hreversed, List.reverse_reverse]
    exact ⟨rfl, hlast⟩

/-- The empty path has no name in it. -/
theorem isEmpty_eq_false_of_components {above : List String} {name : String}
    (hcomponents : FileTree.components path = above ++ [name]) (hstays : stays name = false) :
    path.isEmpty = false := by
  rw [Bool.eq_false_iff]
  intro hempty
  have hone : FileTree.components "" = [] ++ [""] := by decide
  rw [String.isEmpty_iff.mp hempty, hone] at hcomponents
  obtain ⟨-, hname⟩ := List.append_inj' hcomponents rfl
  rw [← List.singleton_injective hname] at hstays
  exact absurd hstays (by decide)

/-- What a write can do. It fails, and at most directories were made. Or the directories above
the file are made, and the file is put where its name leads. -/
theorem write_cases (tree : FileTree) (path text : String) :
    ((tree.write path text).2 = false ∧ tree.Grows (tree.write path text).1) ∨
      ∃ above name place made, FileTree.components path = above ++ [name] ∧
        isPassable path ∧ fits path ∧ stays name = false ∧ name ≠ ".." ∧
        name.utf8ByteSize ≤ maxNameLength ∧
        tree.makeDirectories (tree.start path) above = (made, some place) ∧
        made.node? (name :: place) ≠ some .directory ∧
        tree.write path text = (made.put (name :: place) (.file (Utf8.encode text)), true) := by
  unfold write
  dsimp only
  cases hdrop : (FileTree.components path).reverse.dropWhile stays with
  | nil => exact .inl ⟨rfl, .refl tree⟩
  | cons name above =>
    dsimp only
    by_cases hparent : !isPassable (parentPath above) || !fits (parentPath above)
    · rw [if_pos hparent]
      exact .inl ⟨rfl, .refl tree⟩
    rw [if_neg hparent]
    have hgrows := makeDirectories_grows tree (tree.start path) above.reverse
    cases hmade : tree.makeDirectories (tree.start path) above.reverse with
    | mk made place? =>
      rw [hmade] at hgrows
      cases place? with
      | none => exact .inl ⟨rfl, hgrows⟩
      | some place =>
        -- From here on there is a directory for the file, and only its name can be refused.
        dsimp only
        by_cases hname : !(!(FileTree.components path).reverse.head?.any stays && name ≠ ".." &&
          isPassable name && name.utf8ByteSize ≤ maxNameLength) || !fits path ||
          !made.fitsBeside (parentPath above)
        · rw [if_pos hname]
          exact .inl ⟨rfl, hgrows⟩
        rw [if_neg hname]
        by_cases hdirectory : made.node? (name :: place) = some .directory
        · rw [if_pos hdirectory]
          exact .inl ⟨rfl, hgrows⟩
        rw [if_neg hdirectory]
        simp only [Bool.or_eq_true, not_or, Bool.not_eq_true', Bool.not_eq_false,
          Bool.and_eq_true, decide_eq_true_eq] at hparent hname
        obtain ⟨⟨⟨⟨⟨hstays, hup⟩, hpassable⟩, hlength⟩, hfits⟩, -⟩ := hname
        obtain ⟨hcomponents, hstaysNot⟩ := components_eq_of_dropWhile hdrop hstays
        exact .inr ⟨above.reverse, name, place, made, hcomponents,
          isPassable_of_parentPath hcomponents hparent.1 hpassable, hfits, hstaysNot, hup, hlength,
          hmade, hdirectory, rfl⟩

/-- A write that fails changes no file. -/
theorem node?_of_write_failed (h : tree.write path text = (later, false)) (q : Place)
    (content : List UInt8) :
    later.node? q = some (.file content) ↔ tree.node? q = some (.file content) := by
  rcases write_cases tree path text with
    ⟨-, hgrows⟩ | ⟨_, _, _, _, -, -, -, -, -, -, -, -, hwritten⟩
  · rw [h] at hgrows
    exact hgrows.file_iff
  · rw [h] at hwritten
    cases hwritten

/-- What a write that succeeds has done: its path leads to the file, which took the place of no
directory, and elsewhere directories were made at most. -/
structure Written (tree later : FileTree) (path text : String) (place : Place) : Prop where
  located : later.locate path = .ok place
  file : later.node? place = some (.file (Utf8.encode text))
  replaced : tree.node? place ≠ some .directory
  elsewhere : ∀ q ≠ place, later.node? q = tree.node? q ∨
    tree.node? q = none ∧ later.node? q = some .directory
  working : later.working = tree.working

theorem exists_written_of_write (h : tree.write path text = (later, true)) :
    ∃ place, tree.Written later path text place := by
  rcases write_cases tree path text with ⟨hfailed, -⟩ |
    ⟨above, name, place, made, hcomponents, hpassable, hfits, hstays, hup, hlength, hmade,
      hdirectory, hwritten⟩
  · rw [h] at hfailed
    cases hfailed
  rw [h] at hwritten
  have hlater : later = made.put (name :: place) (.file (Utf8.encode text)) :=
    (Prod.mk.inj hwritten).1
  have hput : ∀ q, later.node? q =
      if q = name :: place then some (.file (Utf8.encode text)) else made.node? q := by
    intro q
    rw [hlater, node?_put (List.cons_ne_nil name place)]
  have hnode := (hput (name :: place)).trans (if_pos rfl)
  have hgrows : tree.Grows made := by
    have hgrows := makeDirectories_grows tree (tree.start path) above
    rwa [hmade] at hgrows
  have hworking : later.working = tree.working := by rw [hlater, put, hgrows.working]
  have hthrough : later.follow (tree.start path) above = .ok place ∧
      later.node? place = some .directory := by
    refine follow_of_makeDirectories (by rw [hmade]) fun q hq => ?_
    rw [hmade] at hq
    -- The directories on the way are no files, so none of them was replaced.
    rw [hput, if_neg, hq]
    rintro rfl
    exact hdirectory hq
  have hlast : later.follow place [name] = .ok (name :: place) := by
    rw [follow, if_neg (not_not.mpr hthrough.2), if_neg (by simp [hstays]), if_neg hup,
      if_neg (not_lt.mpr hlength), hnode]
    rfl
  refine ⟨name :: place, ?_, hnode, fun hold => hdirectory (hgrows.directory hold), ?_, hworking⟩
  · rw [locate, if_neg (by simp [hpassable]), if_neg (by simp [hfits]),
      if_neg (by simp [isEmpty_eq_false_of_components hcomponents hstays]), start, hworking,
      hcomponents, follow_append]
    exact (congrArg (· >>= fun middle => later.follow middle [name]) hthrough.1).trans hlast
  · intro q hq
    rw [hput, if_neg hq]
    exact hgrows.node q

/-- A path can be read if it leads to a file. -/
theorem read_eq_ok_iff :
    tree.read path = .ok content ↔
      ∃ place, tree.locate path = .ok place ∧ tree.node? place = some (.file content) := by
  rw [read, find]
  cases hlocate : tree.locate path with
  | error fault => exact iff_of_false nofun nofun
  | ok place =>
    simp only [bind, Except.bind, Except.ok.injEq, exists_eq_left']
    cases hnode : tree.node? place with
    | none => exact iff_of_false nofun nofun
    | some node =>
      cases node with
      | directory => exact iff_of_false nofun nofun
      | file other =>
        constructor
        · intro h
          rw [Except.ok.inj h]
        · rintro ⟨⟩
          rfl

theorem isOk_find_of_read (h : tree.read path = .ok content) : (tree.find path).isOk := by
  rw [read] at h
  cases hfind : tree.find path with
  | ok node => rfl
  | error fault =>
    rw [hfind] at h
    cases h

/-- The text of a file is the one whose bytes it holds. -/
theorem readText_eq_ok_iff :
    tree.readText path = .ok text ↔ tree.read path = .ok (Utf8.encode text) := by
  rw [readText]
  cases hread : tree.read path with
  | error fault => exact iff_of_false nofun nofun
  | ok content =>
    simp only [bind, Except.bind, Except.ok.injEq, mapError_eq_ok]
    exact Utf8.decode_eq_ok_iff

/-- A file with other bytes has no text. -/
theorem readText_of_not_isText (hread : tree.read path = .ok content)
    (h : ¬ Utf8.IsText content) : tree.readText path = .error .notText := by
  cases hdecode : Utf8.decode content with
  | ok text => exact absurd ⟨text, Utf8.decode_eq_ok_iff.mp hdecode⟩ h
  | error cause =>
    rw [readText, hread]
    simp only [bind, Except.bind, hdecode, Except.mapError]

/-- What was written is what the file holds. -/
theorem read_of_write (h : tree.write path text = (later, true)) :
    later.read path = .ok (Utf8.encode text) := by
  obtain ⟨place, hwritten⟩ := exists_written_of_write h
  exact read_eq_ok_iff.mpr ⟨place, hwritten.located, hwritten.file⟩

/-! ### Other files -/

/-- A path leads to the same place later, if directories stay directories and nothing is taken
away. -/
theorem follow_of_keeps
    (hdirectory : ∀ q, tree.node? q = some .directory → later.node? q = some .directory)
    (hsome : ∀ q, (tree.node? q).isSome → (later.node? q).isSome)
    (h : tree.follow place components = .ok last) : later.follow place components = .ok last := by
  induction components generalizing place with
  | nil => exact h
  | cons component rest ih =>
    rw [follow] at h ⊢
    split_ifs at h with hplace hstays hup hlong hchild
    · rw [if_neg (not_not.mpr (hdirectory _ (not_not.mp hplace))), if_pos hstays]
      exact ih h
    · rw [if_neg (not_not.mpr (hdirectory _ (not_not.mp hplace))), if_neg hstays, if_pos hup]
      exact ih h
    · rw [if_neg (not_not.mpr (hdirectory _ (not_not.mp hplace))), if_neg hstays, if_neg hup,
        if_neg hlong, if_pos (hsome _ hchild)]
      exact ih h

/-- A file reads the same after another one was written. -/
theorem readText_of_write_elsewhere {other content : String}
    (h : tree.write path text = (later, true)) (hread : tree.readText other = .ok content)
    (hother : later.locate other ≠ later.locate path) : later.readText other = .ok content := by
  rw [readText_eq_ok_iff, read_eq_ok_iff] at hread ⊢
  obtain ⟨written, hwritten⟩ := exists_written_of_write h
  obtain ⟨place, hlocate, hnode⟩ := hread
  -- The file took the place of no directory.
  have hdirectory : ∀ q, tree.node? q = some .directory → later.node? q = some .directory := by
    intro q hq
    rcases hwritten.elsewhere q (by rintro rfl; exact hwritten.replaced hq) with hsame | ⟨hnone, -⟩
    · rw [hsame, hq]
    · rw [hq] at hnone
      cases hnone
  have hsome : ∀ q, (tree.node? q).isSome → (later.node? q).isSome := by
    intro q hq
    by_cases hplace : q = written
    · rw [hplace, hwritten.file]
      rfl
    · rcases hwritten.elsewhere q hplace with hsame | ⟨-, hmade⟩
      · rw [hsame]
        exact hq
      · rw [hmade]
        rfl
  -- So the other path leads where it led before.
  have hlater : later.locate other = .ok place := by
    rw [locate] at hlocate ⊢
    split_ifs at hlocate ⊢
    rw [start, hwritten.working]
    exact follow_of_keeps hdirectory hsome hlocate
  refine ⟨place, hlater, ?_⟩
  rcases hwritten.elsewhere place (fun heq => hother (by rw [hlater, hwritten.located, heq]))
    with hsame | ⟨hnone, -⟩
  · rw [hsame, hnode]
  · rw [hnode] at hnone
    cases hnone

end FileTree

end MibDrivers
