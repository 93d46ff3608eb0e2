import MibDrivers.Driver.Source
import MibDrivers.Proofs.Text.Split

/-!
# What a module name brings into the source

The header of a source is a comment that names the module. A comment ends with its line, and the
name is written as it is. So what stands in the name after its first line feed is source like
any other, and all else of the source is the same for every name.

## Main definitions

* `Driver.codeLines` — the lines of a text that are neither empty nor comments
* `Driver.strayCode` — the lines of code that a module name brings into the source

## Main results

* `Driver.codeLines_render` — the code of a source
* `Driver.codeLines_render_eq_iff` — when two module names give the same code
-/

namespace MibDrivers

namespace Driver

/-- A line is code if it is not empty and no comment begins after the blanks before it. -/
def isCode (line : List Char) : Bool :=
  !line.isEmpty && !(['/', '/'].isPrefixOf (line.dropWhile Text.isBlank))

/-- The lines of a text that are code. -/
def codeLines (text : List Char) : List (List Char) := (Text.splitAt '\n' text).filter isCode

/-- What the header has before the module name. -/
def headerStart : String := "// @generated by mibgen from "

/-- What the header has after the module name. -/
def headerEnd : String := ". Do not edit by hand."

/-- The lines of code that a module name brings into the source: its first line continues the
comment, its other lines do not, and the last one goes on with the end of the header. -/
def strayCode : Option String → List (List Char)
  | none => []
  | some name => (Text.splitAt '\n' (name.toList ++ headerEnd.toList)).tail.filter isCode

/-- A name without a line feed brings in no code. -/
theorem strayCode_eq_nil {moduleName : Option String}
    (h : ∀ name ∈ moduleName, '\n' ∉ name.toList) : strayCode moduleName = [] := by
  cases moduleName with
  | none => rfl
  | some name =>
    have hend : '\n' ∉ headerEnd.toList := by decide
    rw [strayCode, Text.splitAt_append_of_not_mem (h name rfl), Text.splitAt_of_not_mem hend]
    rfl

/-- The code on both sides of a line feed. -/
theorem codeLines_append_line (line rest : List Char) :
    codeLines (line ++ '\n' :: rest) = codeLines line ++ codeLines rest := by
  rw [codeLines, Text.splitAt_append_separator, List.filter_append, codeLines, codeLines]

theorem isCode_comment (rest : List Char) : isCode ('/' :: '/' :: rest) = false := by
  simp [isCode, Text.isBlank]

/-- The header without a module name. -/
def plainHeader : String := "// @generated by mibgen. Do not edit by hand."

/-- The header of a source. -/
def headline : Option String → List Char
  | some name => headerStart.toList ++ (name.toList ++ headerEnd.toList)
  | none => plainHeader.toList

theorem codeLines_headline (moduleName : Option String) :
    codeLines (headline moduleName) = strayCode moduleName := by
  cases moduleName with
  | none =>
    have hline : '\n' ∉ plainHeader.toList := by decide
    have hcomment : plainHeader.toList =
        '/' :: '/' :: " @generated by mibgen. Do not edit by hand.".toList := by
      decide
    rw [headline, codeLines, Text.splitAt_of_not_mem hline, hcomment,
      List.filter_cons_of_neg (by simp [isCode_comment])]
    rfl
  | some name =>
    have hline : '\n' ∉ headerStart.toList := by decide
    have hcomment : headerStart.toList = '/' :: '/' :: " @generated by mibgen from ".toList := by
      decide
    -- The line that begins with the comment ends with the first line of the name.
    rw [headline, codeLines, Text.splitAt_append_of_not_mem hline, hcomment, List.cons_append,
      List.cons_append, List.filter_cons_of_neg (by simp [isCode_comment])]
    rfl

/-- Only the header of a source depends on the module name. -/
theorem sourceLines_eq (classes : List Class) (options : Options) (moduleName : Option String) :
    sourceLines classes { options with moduleName := moduleName } =
      headline moduleName :: (sourceLines classes options).tail := by
  simp only [sourceLines, headerLines, List.cons_append, List.tail_cons]
  cases moduleName with
  | none => simp only [headline, plainHeader]
  | some name => simp only [headline, headerStart, headerEnd, List.append_assoc]

/-- The code of a source is what the module name brings in, followed by what is there for every
name. -/
theorem codeLines_render (classes : List Class) (options : Options) (moduleName : Option String) :
    codeLines (render classes { options with moduleName := moduleName }).toList =
      strayCode moduleName ++ codeLines
        ((sourceLines classes options).tail.flatMap (· ++ ['\n'])) := by
  rw [render, String.toList_ofList, sourceLines_eq, List.flatMap_cons, List.append_assoc,
    List.singleton_append, codeLines_append_line, codeLines_headline]

/-- Sources that differ in their module names only have the same code exactly if both names
bring in the same code, and a name without a line feed brings in none. -/
theorem codeLines_render_eq_iff (classes : List Class) (options : Options)
    (first second : Option String) :
    (codeLines (render classes { options with moduleName := first }).toList =
        codeLines (render classes { options with moduleName := second }).toList ↔
      strayCode first = strayCode second) ∧
    ((∀ name ∈ first, '\n' ∉ name.toList) → strayCode first = []) := by
  refine ⟨?_, strayCode_eq_nil⟩
  rw [codeLines_render, codeLines_render, List.append_left_inj]

theorem codeLines_render_eq_commented :
    strayCode (some "A-MIB") = [] ∧
      codeLines (render [] { moduleName := some "A-MIB" }).toList =
        codeLines (render [] { moduleName := some "A-MIB\n  // a" }).toList := by
  obtain ⟨hiff, hnone⟩ := codeLines_render_eq_iff [] {} (some "A-MIB") (some "A-MIB\n  // a")
  have hline : ∀ name ∈ some "A-MIB", '\n' ∉ name.toList := by
    rintro name ⟨⟩
    decide
  exact ⟨hnone hline, hiff.mpr (by decide)⟩

/-- A line of a module name becomes a line of code. -/
theorem render_brings_in_code :
    codeLines (render [] { moduleName := some "A-MIB\nmod b;" }).toList ≠
      codeLines (render [] { moduleName := some "A-MIB" }).toList := by
  have hfirst := codeLines_render [] {} (some "A-MIB\nmod b;")
  have hsecond := codeLines_render [] {} (some "A-MIB")
  rw [hfirst, hsecond, Ne, List.append_left_inj]
  decide

end Driver

end MibDrivers
