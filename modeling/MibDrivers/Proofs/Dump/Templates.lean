import MibDrivers.Dump.Source
import MibDrivers.Proofs.Text.Replace

/-!
# Templates filled in at once

An argument of the program that prints a dump is made from a template in two passes: the path of
the MIB file is filled in, and then the module in what this gives. Here the template is first cut
into pieces, characters and placeholders, and each piece then stands for its own text, so that
nothing filled in is looked at again. The two agree exactly if the first pass leaves as many
placeholders for the module as the template has.

## Main definitions

* `DumpSource.Piece` — a character of a template, or one of the two placeholders
* `DumpSource.pieces` — the pieces of a template
* `DumpSource.fillAtOnce` — a template with both placeholders filled in at once

## Main results

* `DumpSource.replace_mibPlaceholder` — the first pass on the pieces
* `DumpSource.count_moduleName_pieces` — each occurrence of the placeholder for the module is a
  piece
* `DumpSource.replace_assemble_iff` — the second pass on the pieces
* `DumpSource.ofCommand_at_once_iff` — when all arguments are filled in at once
-/

namespace MibDrivers

namespace DumpSource

open Text

/-! ### Pieces -/

/-- A piece of a template. -/
inductive Piece where
  | character (c : Char)
  | mibFile
  | moduleName
  deriving DecidableEq, Repr

/-- The pieces of a template from which so many characters are left out. -/
def piecesFrom (skip : Nat) : List Char → List Piece
  | [] => []
  | c :: rest =>
    match skip with
    | skip + 1 => piecesFrom skip rest
    | 0 =>
      if mibPlaceholder.toList.isPrefixOf (c :: rest) then
        .mibFile :: piecesFrom (mibPlaceholder.toList.length - 1) rest
      else if modulePlaceholder.toList.isPrefixOf (c :: rest) then
        .moduleName :: piecesFrom (modulePlaceholder.toList.length - 1) rest
      else .character c :: piecesFrom 0 rest

/-- The pieces of a template: its placeholders, and the characters around them. -/
def pieces (template : List Char) : List Piece := piecesFrom 0 template

/-- The text that a piece stands for. -/
def Piece.filled (mibPath moduleName : List Char) : Piece → List Char
  | .character c => [c]
  | .mibFile => mibPath
  | .moduleName => moduleName

/-- The text that pieces stand for. -/
def assemble (mibPath moduleName : List Char) (ps : List Piece) : List Char :=
  ps.flatMap (Piece.filled mibPath moduleName)

/-- A template with the MIB file and the module filled in at once. What is filled in is taken as
it is. -/
def fillAtOnce (mibPath moduleName template : String) : String :=
  String.ofList (assemble mibPath.toList moduleName.toList (pieces template.toList))

variable {mibPath moduleName : List Char} {c : Char} {rest : List Char} {ps : List Piece}

@[simp] theorem assemble_nil : assemble mibPath moduleName [] = [] := rfl

@[simp] theorem assemble_cons (piece : Piece) :
    assemble mibPath moduleName (piece :: ps) =
      piece.filled mibPath moduleName ++ assemble mibPath moduleName ps := List.flatMap_cons

theorem mibPlaceholder_beginsOnce : BeginsOnce '\x7b' mibPlaceholder.toList :=
  ⟨['m', 'i', 'b', '\x7d'], by decide, by decide⟩

theorem modulePlaceholder_beginsOnce : BeginsOnce '\x7b' modulePlaceholder.toList :=
  ⟨['m', 'o', 'd', 'u', 'l', 'e', '\x7d'], by decide, by decide⟩

theorem mibPlaceholder_not_prefixOf (cs : List Char) :
    ¬ mibPlaceholder.toList <+: modulePlaceholder.toList ++ cs := by
  simp [mibPlaceholder, modulePlaceholder]

theorem modulePlaceholder_not_prefixOf (cs : List Char) :
    ¬ modulePlaceholder.toList <+: mibPlaceholder.toList ++ cs := by
  simp [mibPlaceholder, modulePlaceholder]

theorem piecesFrom_eq (n : Nat) (cs : List Char) : piecesFrom n cs = pieces (cs.drop n) := by
  induction cs generalizing n with
  | nil => cases n <;> rfl
  | cons c rest ih =>
    cases n with
    | zero => rfl
    | succ n => exact ih n

theorem pieces_mibPlaceholder_append (cs : List Char) :
    pieces (mibPlaceholder.toList ++ cs) = .mibFile :: pieces cs := by
  obtain ⟨tail, hpart, -⟩ := mibPlaceholder_beginsOnce
  have hfound : mibPlaceholder.toList.isPrefixOf ('\x7b' :: (tail ++ cs)) := by simp [hpart]
  rw [hpart, List.cons_append, pieces, piecesFrom, if_pos hfound, piecesFrom_eq, hpart,
    List.length_cons, Nat.add_sub_cancel, List.drop_left]

theorem pieces_modulePlaceholder_append (cs : List Char) :
    pieces (modulePlaceholder.toList ++ cs) = .moduleName :: pieces cs := by
  have hnot := mibPlaceholder_not_prefixOf cs
  obtain ⟨tail, hpart, -⟩ := modulePlaceholder_beginsOnce
  have hfound : modulePlaceholder.toList.isPrefixOf ('\x7b' :: (tail ++ cs)) := by simp [hpart]
  rw [hpart, List.cons_append] at hnot ⊢
  rw [pieces, piecesFrom, if_neg (by simpa using hnot), if_pos hfound, piecesFrom_eq, hpart,
    List.length_cons, Nat.add_sub_cancel, List.drop_left]

theorem pieces_cons (hmib : ¬ mibPlaceholder.toList <+: c :: rest)
    (hmodule : ¬ modulePlaceholder.toList <+: c :: rest) :
    pieces (c :: rest) = .character c :: pieces rest := by
  rw [pieces, piecesFrom, if_neg (by simpa using hmib), if_neg (by simpa using hmodule)]
  rfl

/-- Induction along the placeholders of a template. -/
@[elab_as_elim]
theorem inductPlaceholders {motive : List Char → Prop} (nil : motive [])
    (mibFile : ∀ rest, motive rest → motive (mibPlaceholder.toList ++ rest))
    (moduleName : ∀ rest, motive rest → motive (modulePlaceholder.toList ++ rest))
    (character : ∀ c rest, ¬ mibPlaceholder.toList <+: c :: rest →
      ¬ modulePlaceholder.toList <+: c :: rest → motive rest → motive (c :: rest))
    (template : List Char) : motive template := by
  refine inductParts [mibPlaceholder.toList, modulePlaceholder.toList] ?_ nil ?_ ?_ template
  · simp [mibPlaceholder_beginsOnce.ne_nil, modulePlaceholder_beginsOnce.ne_nil]
  · simpa using ⟨mibFile, moduleName⟩
  · simpa using character

/-- The first pass fills in the pieces for the MIB file. -/
theorem replace_mibPlaceholder (mibPath template : List Char) :
    replace mibPlaceholder.toList mibPath template =
      assemble mibPath modulePlaceholder.toList (pieces template) := by
  induction template using inductPlaceholders with
  | nil => rfl
  | mibFile rest ih =>
    rw [replace_part_append mibPlaceholder_beginsOnce.ne_nil, pieces_mibPlaceholder_append,
      assemble_cons, ih, Piece.filled]
  | moduleName rest ih =>
    rw [replace_other_append mibPlaceholder_beginsOnce modulePlaceholder_beginsOnce
      (mibPlaceholder_not_prefixOf rest), pieces_modulePlaceholder_append, assemble_cons, ih,
      Piece.filled]
  | character c rest hmib hmodule ih =>
    rw [replace_cons_of_neg hmib, pieces_cons hmib hmodule, assemble_cons, ih, Piece.filled,
      List.singleton_append]

theorem count_moduleName_pieces (template : List Char) :
    (pieces template).count .moduleName = occurrences modulePlaceholder.toList template := by
  induction template using inductPlaceholders with
  | nil => exact (occurrences_nil modulePlaceholder_beginsOnce.ne_nil).symm
  | mibFile rest ih =>
    rw [occurrences_other_append modulePlaceholder_beginsOnce mibPlaceholder_beginsOnce
      (modulePlaceholder_not_prefixOf rest), pieces_mibPlaceholder_append,
      List.count_cons_of_ne (by decide), ih]
  | moduleName rest ih =>
    rw [occurrences_part_append modulePlaceholder_beginsOnce, pieces_modulePlaceholder_append,
      List.count_cons_self, ih]
  | character c rest hmib hmodule ih =>
    rw [occurrences_cons_of_neg hmodule, pieces_cons hmib hmodule,
      List.count_cons_of_ne (by simp), ih]

/-! ### The second pass -/

/-- Text before the pieces, and what is filled in for the MIB file, only add placeholders for the
module. -/
theorem count_le_occurrences (before mibPath : List Char) (ps : List Piece) :
    ps.count .moduleName ≤ occurrences modulePlaceholder.toList
      (before ++ assemble mibPath modulePlaceholder.toList ps) := by
  induction ps generalizing before with
  | nil => exact Nat.zero_le _
  | cons piece ps ih =>
    rw [assemble_cons]
    cases piece with
    | character | mibFile =>
      rw [List.count_cons_of_ne (by simp), ← List.append_assoc]
      exact ih _
    | moduleName =>
      rw [List.count_cons_self, Piece.filled, occurrences_append_part modulePlaceholder_beginsOnce]
      exact Nat.le_add_left_of_le (Nat.succ_le_succ (ih []))

theorem length_assemble (mibPath moduleName : List Char) (ps : List Piece) :
    (assemble mibPath moduleName ps).length +
        ps.count .moduleName * modulePlaceholder.toList.length =
      (assemble mibPath modulePlaceholder.toList ps).length +
        ps.count .moduleName * moduleName.length := by
  induction ps with
  | nil => simp
  | cons piece ps ih =>
    rw [assemble_cons, assemble_cons, List.length_append, List.length_append]
    cases piece with
    | character | mibFile =>
      rw [List.count_cons_of_ne (by simp), Piece.filled, Piece.filled]
      omega
    | moduleName =>
      rw [List.count_cons_self, Nat.add_mul, Nat.add_mul, Nat.one_mul, Nat.one_mul, Piece.filled,
        Piece.filled]
      omega

/-- If the second pass gives what it should around a placeholder of the template, then what it
gives before this placeholder is as long as it was. -/
theorem length_replace_before {before : List Char}
    (htext : replace modulePlaceholder.toList moduleName before ++
        (moduleName ++ replace modulePlaceholder.toList moduleName
          (assemble mibPath modulePlaceholder.toList ps)) =
      before ++ (moduleName ++ assemble mibPath moduleName ps)) :
    (replace modulePlaceholder.toList moduleName before).length = before.length := by
  have hlength := congrArg List.length htext
  have hbefore : (replace modulePlaceholder.toList moduleName before).length + _ = _ :=
    length_replace modulePlaceholder_beginsOnce before
  have hafter : (replace modulePlaceholder.toList moduleName
      (assemble mibPath modulePlaceholder.toList ps)).length + _ = _ :=
    length_replace modulePlaceholder_beginsOnce _
  have hpieces := length_assemble mibPath moduleName ps
  -- No placeholder is lost, so the lengths before and after it change in the same direction.
  obtain ⟨more, hmore⟩ := Nat.exists_eq_add_of_le (count_le_occurrences [] mibPath ps)
  rw [List.nil_append] at hmore
  rw [hmore, Nat.add_mul, Nat.add_mul] at hafter
  simp only [List.length_append] at hlength
  rcases Nat.le_total moduleName.length modulePlaceholder.toList.length with hle | hle
  all_goals
    have hless := Nat.mul_le_mul_left (occurrences modulePlaceholder.toList before) hle
    have hmoreLess := Nat.mul_le_mul_left more hle
    omega

/-- The second pass fills in the pieces for the module exactly if nothing else has become a
placeholder for the module. -/
theorem replace_assemble_iff (hmodule : moduleName ≠ modulePlaceholder.toList)
    (before mibPath : List Char) (ps : List Piece) :
    replace modulePlaceholder.toList moduleName
          (before ++ assemble mibPath modulePlaceholder.toList ps) =
        before ++ assemble mibPath moduleName ps ↔
      occurrences modulePlaceholder.toList
          (before ++ assemble mibPath modulePlaceholder.toList ps) =
        ps.count .moduleName := by
  induction ps generalizing before with
  | nil =>
    rw [assemble_nil, assemble_nil, List.append_nil, List.count_nil]
    exact replace_eq_self_iff modulePlaceholder_beginsOnce hmodule before
  | cons piece ps ih =>
    rw [assemble_cons, assemble_cons]
    cases piece with
    | character | mibFile =>
      rw [List.count_cons_of_ne (by simp), ← List.append_assoc, ← List.append_assoc]
      exact ih _
    | moduleName =>
      have hcount := count_le_occurrences [] mibPath ps
      have hafter := ih []
      simp only [List.nil_append] at hcount hafter
      rw [Piece.filled, Piece.filled, List.count_cons_self,
        replace_append_part modulePlaceholder_beginsOnce,
        occurrences_append_part modulePlaceholder_beginsOnce]
      constructor
      · intro htext
        obtain ⟨hbefore, hrest⟩ := List.append_inj htext (length_replace_before htext)
        rw [(replace_eq_self_iff modulePlaceholder_beginsOnce hmodule before).mp hbefore,
          hafter.mp (List.append_cancel_left hrest), Nat.zero_add]
      · intro hsum
        rw [replace_of_occurrences_eq_zero (by omega), hafter.mpr (by omega)]

/-! ### Arguments -/

theorem fillTemplate_eq_fillAtOnce_iff (mibPath moduleName template : String) :
    fillTemplate mibPath moduleName template = fillAtOnce mibPath moduleName template ↔
      moduleName = modulePlaceholder ∨
        occurrences modulePlaceholder.toList
            (replace mibPlaceholder.toList mibPath.toList template.toList) =
          occurrences modulePlaceholder.toList template.toList := by
  rw [fillTemplate, fillAtOnce, String.ofList_inj, replace_mibPlaceholder,
    ← count_moduleName_pieces template.toList]
  by_cases hmodule : moduleName = modulePlaceholder
  · rw [hmodule, replace_part_self modulePlaceholder_beginsOnce]
    simp
  · have hchars := mt String.toList_inj.mp hmodule
    simpa [hmodule] using replace_assemble_iff hchars [] mibPath.toList (pieces template.toList)

/-- The arguments are the templates with both placeholders filled in at once exactly if the
module is spelled as its placeholder, or if no template gets another placeholder for the module
when the path of the MIB file is filled in: neither from the path alone, nor from the path and the
text around it. -/
theorem ofCommand_at_once_iff (program : String) (templates : List String) (mibPath : String)
    (moduleName? : Option String) :
    ofCommand program templates mibPath moduleName? =
        .program program (templates.map (fillAtOnce mibPath (moduleName?.getD ""))) ↔
      moduleName? = some modulePlaceholder ∨
        ∀ template ∈ templates,
          occurrences modulePlaceholder.toList
              (replace mibPlaceholder.toList mibPath.toList template.toList) =
            occurrences modulePlaceholder.toList template.toList := by
  have hunset : moduleName?.getD "" = modulePlaceholder ↔ moduleName? = some modulePlaceholder := by
    cases moduleName? with
    | none => simp [modulePlaceholder]
    | some name => simp
  simp only [ofCommand, DumpSource.program.injEq, true_and, List.map_inj_left,
    fillTemplate_eq_fillAtOnce_iff, hunset]
  by_cases hmodule : moduleName? = some modulePlaceholder
  · simp [hmodule]
  · simp only [hmodule, false_or]

/-- A path that has the placeholder for the module is not what the program gets. -/
theorem ofCommand_fills_path :
    fillAtOnce "mibs/\x7bmodule\x7d.txt" "UHP-MIB" "\x7bmib\x7d" = "mibs/\x7bmodule\x7d.txt" ∧
      ofCommand "mibdump" ["\x7bmib\x7d"] "mibs/\x7bmodule\x7d.txt" (some "UHP-MIB") ≠
        .program "mibdump" ["mibs/\x7bmodule\x7d.txt"] := by
  decide +kernel

end DumpSource

end MibDrivers
