import Mathlib.Data.List.Nodup
import MibDrivers.Proofs.Toml.Lines

/-!
# The table of a TOML document with sections

Some documents are just sections one after another: each has a header with its name, and then sets
its keys. If no two sections have the same name, and no key is set twice in a section, such a
document describes the table of its sections, each with what it sets.

## Main definitions

* `Toml.Section` — a name, and keys with their values
* `Toml.Section.statements` — the statements of a section
* `Toml.Sets` — a text whose lines set the keys of entries
* `Toml.sectionChars` — a section as written

## Main results

* `Toml.Table.assignAll?_eq` — keys that are set for the first time are added in their order
* `Toml.Table.define?_eq` — a header adds a table with the keys that are set after it
* `Toml.ofText?_of_sections` — a document of sections describes them
* `Toml.statements?_section` — a section as written is read as its statements
-/

namespace MibDrivers

namespace Toml

/-- A section of a document: its name, and its keys with their values. -/
structure Section where
  name : String
  entries : List (String × Value)

namespace Section

/-- The assignments of a section. -/
def assignments (part : Section) : List Assignment :=
  part.entries.map fun (key, value) => ([], key, value)

/-- The header of a section and its assignments. -/
def statements (part : Section) : List Statement :=
  .table [] part.name :: part.assignments.map .assignment

/-- What is kept of a section while the document is read. -/
def table (part : Section) : Table Node where
  entries := part.entries.map fun (key, value) => (key, .value value)

end Section

namespace Table

variable {table : Table Node} {key : String} {node : Node} {value : Value}

theorem find?_eq_none (h : key ∉ table.entries.map Prod.fst) : table.find? key = none := by
  refine List.lookup_eq_none_iff.mpr fun entry hentry => ?_
  have hne : key ≠ entry.1 := fun heq => h (heq ▸ List.mem_map_of_mem hentry)
  simpa using hne

theorem set_of_not_mem (h : key ∉ table.entries.map Prod.fst) :
    table.set key node = { table with entries := table.entries ++ [(key, node)] } := by
  have hkeep : table.entries.filter (·.1 ≠ key) = table.entries := by
    refine List.filter_eq_self.mpr fun entry hentry => ?_
    have hne : entry.1 ≠ key := fun heq => h (heq ▸ List.mem_map_of_mem hentry)
    simpa using hne
  rw [set, hkeep]

/-- A key that is set for the first time is added. -/
theorem assign?_eq (hdotted : table.dotted = false) (h : key ∉ table.entries.map Prod.fst) :
    table.assign? [] key value =
      some { table with entries := table.entries ++ [(key, .value value)] } := by
  -- The key of a bare assignment has no path, so the table itself must not come from a dotted key.
  rw [assign?, updateAt?, if_neg, set_of_not_mem h]
  simp [hdotted, find?_eq_none h]

/-- Keys that are set for the first time are added in their order. -/
theorem assignAll?_eq {entries : List (String × Value)} (hdotted : table.dotted = false)
    (h : (table.entries.map Prod.fst ++ entries.map Prod.fst).Nodup) :
    table.assignAll? (entries.map fun (key, value) => ([], key, value)) = some { table with
      entries := table.entries ++ entries.map fun (key, value) => (key, .value value) } := by
  induction entries generalizing table with
  | nil => simp [assignAll?]
  | cons entry rest ih =>
    obtain ⟨key, value⟩ := entry
    have hkey : key ∉ table.entries.map Prod.fst := fun hmem =>
      List.disjoint_of_nodup_append h hmem List.mem_cons_self
    have hrest := @ih { table with entries := table.entries ++ [(key, .value value)] } hdotted
      (by simpa using h)
    rw [List.map_cons, assignAll?, List.foldlM_cons]
    dsimp only
    rw [assign?_eq hdotted hkey, Option.bind_eq_bind, Option.bind_some]
    simpa [assignAll?] using hrest

/-- A header adds a table with the keys that are set after it. -/
theorem define?_eq (part : Section) (h : part.name ∉ table.entries.map Prod.fst)
    (hkeys : (part.entries.map Prod.fst).Nodup) :
    table.define? [] part.name part.assignments =
      some { table with entries := table.entries ++ [(part.name, .table part.table)] } := by
  have hassign : ({ implicit := false } : Table Node).assignAll? part.assignments =
      some part.table := assignAll?_eq rfl hkeys
  rw [define?, updateAt?, find?_eq_none h]
  change (({ implicit := false } : Table Node).assignAll? part.assignments).bind _ = _
  rw [hassign, Option.bind_some, set_of_not_mem h]
  rfl

end Table

/-! ### Documents -/

theorem leadingAssignments_append (assignments : List Assignment) (rest : List Statement) :
    leadingAssignments (assignments.map .assignment ++ rest) =
      (assignments ++ (leadingAssignments rest).1, (leadingAssignments rest).2) := by
  induction assignments with
  | nil => rfl
  | cons assignment assignments ih =>
    rw [List.map_cons, List.cons_append, leadingAssignments, ih]
    rfl

/-- Sections begin with a header. -/
theorem leadingAssignments_sections (parts : List Section) :
    leadingAssignments (parts.flatMap Section.statements) =
      ([], parts.flatMap Section.statements) := by
  cases parts <;> rfl

/-- Sections with new names are added in their order. -/
theorem addSections?_sections {table : Table Node} {parts : List Section}
    (hnames : (table.entries.map Prod.fst ++ parts.map Section.name).Nodup)
    (hkeys : ∀ part ∈ parts, (part.entries.map Prod.fst).Nodup) :
    addSections? table (parts.flatMap Section.statements) = some { table with
      entries := table.entries ++ parts.map fun part => (part.name, .table part.table) } := by
  induction parts generalizing table with
  | nil => simp [addSections?]
  | cons part parts ih =>
    have hname : part.name ∉ table.entries.map Prod.fst := fun hmem =>
      List.disjoint_of_nodup_append hnames hmem List.mem_cons_self
    obtain ⟨hpart, hparts⟩ := List.forall_mem_cons.mp hkeys
    have hrest :=
      @ih { table with entries := table.entries ++ [(part.name, .table part.table)] }
        (by simpa using hnames) hparts
    rw [List.flatMap_cons, Section.statements, List.cons_append, addSections?.eq_3,
      leadingAssignments_append, leadingAssignments_sections, List.append_nil,
      Table.define?_eq part hname hpart, Option.bind_eq_bind, Option.bind_some]
    simpa using hrest

theorem entryValues_map (entries : List (String × Value)) :
    Node.entryValues (entries.map fun (key, value) => (key, .value value)) = entries := by
  induction entries with
  | nil => rfl
  | cons entry rest ih => rw [List.map_cons, Node.entryValues, ih]; rfl

theorem entryValues_sections (parts : List Section) :
    Node.entryValues (parts.map fun part => (part.name, .table part.table)) =
      parts.map fun part => (part.name, .table part.entries) := by
  induction parts with
  | nil => rfl
  | cons part parts ih =>
    rw [List.map_cons, Node.entryValues, Node.toValue, Section.table, Node.tableValue,
      entryValues_map, ih]
    rfl

/-- A document that is read as sections with different names, each with different keys, describes
the table of the sections. -/
theorem ofText?_of_sections {text : String} {parts : List Section}
    (hstatements : statements? (dropByteOrderMark text.toList) =
      some (parts.flatMap Section.statements))
    (hnames : (parts.map Section.name).Nodup)
    (hkeys : ∀ part ∈ parts, (part.entries.map Prod.fst).Nodup) :
    ofText? text = some (parts.map fun part => (part.name, .table part.entries)) := by
  have htable : tableOf? (parts.flatMap Section.statements) =
      some { entries := parts.map fun part => (part.name, .table part.table) } := by
    rw [tableOf?, leadingAssignments_sections]
    exact @addSections?_sections {} parts hnames hkeys
  rw [ofText?, hstatements, Option.bind_eq_bind, Option.bind_some, htable, Option.bind_eq_bind,
    Option.bind_some]
  exact congrArg some (entryValues_sections parts)

/-! ### Written sections -/

/-- The lines of a text set the keys of entries. -/
def Sets (chars : List Char) (entries : List (String × Value)) : Prop :=
  ∀ rest, statements? (chars ++ rest) = (statements? rest).map
    ((entries.map fun (key, value) => .assignment ([], key, value)) ++ ·)

theorem sets_nil : Sets [] [] := fun rest => by
  rw [List.nil_append]
  cases statements? rest <;> rfl

theorem Sets.append {first second : List Char} {entries more : List (String × Value)}
    (h : Sets first entries) (hsecond : Sets second more) :
    Sets (first ++ second) (entries ++ more) := fun rest => by
  rw [List.append_assoc, h, hsecond, Option.map_map]
  simp [Function.comp_def]

/-- A section as written: its header, and the lines that set its keys. -/
def sectionChars (name : String) (lines : List Char) : List Char :=
  '[' :: (name.toList ++ ']' :: '\n' :: lines)

/-- A section as written is read as its statements. -/
theorem statements?_section {part : Section} {chars : List Char} (hname : isBareKey part.name)
    (h : Sets chars part.entries) (rest : List Char) :
    statements? (sectionChars part.name chars ++ rest) =
      (statements? rest).map (part.statements ++ ·) := by
  have hchars : sectionChars part.name chars ++ rest =
      '[' :: (part.name.toList ++ ']' :: '\n' :: (chars ++ rest)) := by
    simp [sectionChars]
  rw [hchars, statements?_header hname, h, Option.map_map]
  simp [Function.comp_def, Section.statements, Section.assignments]

end Toml

end MibDrivers
