import Mathlib.Data.List.Basic
import MibDrivers.Dump.Writer
import MibDrivers.Proofs.Json.Documents
import MibDrivers.Proofs.Results

/-!
# A dump of rows is read back

A dump that is written for rows has one node for each name, where the name first occurs, and this is
the node of its last row. Read again, it declares the module, and its objects are those that the
last rows describe. Only the last row of a name has to make sense.

## Main definitions

* `Dump.latest` — the last row of each name, in the order in which the names first occur
* `Dump.Row.IsReadable` — a row whose type and identifier make sense
* `Dump.Row.descriptor?` — the object that a row describes

## Main results

* `Dump.ofList_rows` — the nodes that are written are those of the last rows
* `Dump.Row.ofJson_toJson` — a node that is written for a row is read back
* `Dump.ofText_render` — a dump that is written for rows is read back
-/

namespace MibDrivers

namespace Dump

variable {row : Row} {rows : List Row} {type : NodeType} {oid : Oid}

/-! ### Rows -/

namespace Row

/-- A row makes sense: its type is one of the nine, and its identifier can be read. -/
def IsReadable (row : Row) : Prop :=
  row.nodeType ∈ NodeType.names.map Prod.fst ∧ (Oid.ofDotted? row.oid).isSome

/-- The object that a row describes, if it has a type that describes one. -/
def descriptor? (row : Row) : Option Descriptor := do
  let type ← NodeType.names.lookup row.nodeType
  let kind ← type.kind?
  let oid ← Oid.ofDotted? row.oid
  return {
    name := row.name
    kind
    oid
    access := Access.ofText row.access
    description := if row.access = "" then "" else row.name ++ " value" }

/-- The node that is written for a row with the given type and identifier. -/
def node (row : Row) (type : NodeType) (oid : Oid) : Node where
  type
  oid
  access := if row.access = "" then none else some row.access
  description := if row.access = "" then none else some (row.name ++ " value")

theorem toJson_of_eq (h : row.access = "") :
    row.toJson = .object [("nodetype", .string row.nodeType), ("oid", .string row.oid)] := by
  rw [toJson, if_pos (by simpa using h)]

theorem toJson_of_ne (h : row.access ≠ "") :
    row.toJson = .object [("nodetype", .string row.nodeType), ("oid", .string row.oid),
      ("access", .string row.access), ("description", .string (row.name ++ " value"))] := by
  rw [toJson, if_neg (by simpa using h)]
  rfl

/-- A node that is written for a row is read back. -/
theorem ofJson_toJson (htype : NodeType.names.lookup row.nodeType = some type)
    (hoid : Oid.ofDotted? row.oid = some oid) :
    Node.ofJson row.toJson = .ok (row.node type oid) := by
  have htypeJson : NodeType.ofJson (.string row.nodeType) = .ok type := by
    rw [NodeType.ofJson, Json.expectName, Json.expectName.choose, htype]
  have hoidJson : Json.expectOid (.string row.oid) = .ok oid := by
    change (Oid.ofDotted row.oid).mapError Json.Mismatch.refused = _
    rw [Oid.ofDotted, hoid]
    rfl
  by_cases haccess : row.access = ""
  · rw [toJson_of_eq haccess]
    simp [Node.ofJson, Json.checkMembers, Node.checkMember, Json.field, Json.optionalField,
      List.lookup_cons, htypeJson, hoidJson, bind, Except.bind, pure, Except.pure, node, haccess]
  · rw [toJson_of_ne haccess]
    simp [Node.ofJson, Json.checkMembers, Node.checkMember, Json.field, Json.optionalField,
      List.lookup_cons, htypeJson, hoidJson, Json.expectOptionalString, Json.expectString,
      Except.map, bind, Except.bind, pure, Except.pure, node, haccess]

/-- The node that is written for a row describes what the row describes. -/
theorem descriptor?_node (htype : NodeType.names.lookup row.nodeType = some type)
    (hoid : Oid.ofDotted? row.oid = some oid) :
    (row.node type oid).descriptor? row.name = row.descriptor? := by
  have hunspecified : Access.ofText "" = .unspecified := by decide +kernel
  rw [descriptor?, htype, hoid]
  cases hkind : type.kind? with
  | none => simp [Node.descriptor?, node, hkind]
  | some kind =>
    by_cases haccess : row.access = ""
    · simp [Node.descriptor?, node, hkind, haccess, hunspecified]
    · simp [Node.descriptor?, node, hkind, haccess]

theorem hasNoNumber_toJson (row : Row) : row.toJson.HasNoNumber := by
  by_cases haccess : row.access = ""
  · rw [toJson_of_eq haccess]
    exact ⟨trivial, trivial, trivial⟩
  · rw [toJson_of_ne haccess]
    exact ⟨trivial, trivial, trivial, trivial, trivial⟩

/-- A node that is written for a row is an object of strings. -/
theorem fits_toJson (row : Row) {depth : Nat} (h : 0 < depth) : row.toJson.Fits depth := by
  by_cases haccess : row.access = ""
  · rw [toJson_of_eq haccess]
    exact ⟨h, by simp, trivial, trivial, trivial⟩
  · rw [toJson_of_ne haccess]
    exact ⟨h, by simp, trivial, trivial, trivial, trivial, trivial⟩

end Row

/-! ### The last rows -/

/-- The last row with a name. -/
def latest? (rows : List Row) (name : String) : Option Row := rows.reverse.find? (·.name = name)

/-- The last row of each name, in the order in which the names first occur. -/
def latest (rows : List Row) : List Row := (rows.map Row.name).eraseDups.filterMap (latest? rows)

theorem lookup_map_row {α : Type} (f : Row → α) (rows : List Row) (name : String) :
    (rows.map fun row => (row.name, f row)).lookup name =
      (rows.find? (·.name = name)).map f := by
  induction rows with
  | nil => rfl
  | cons row rest ih =>
    rw [List.map_cons, List.find?_cons]
    by_cases hname : row.name = name
    · subst hname
      rw [Entries.lookup_cons_self]
      simp
    · rw [Entries.lookup_cons_of_ne (Ne.symm hname), ih]
      simp [hname]

/-- The entries that rows leave are those of the last rows. -/
theorem ofList_rows {α : Type} (f : Row → α) (rows : List Row) :
    Entries.ofList (rows.map fun row => (row.name, f row)) =
      (latest rows).map fun row => (row.name, f row) := by
  rw [Entries.ofList_eq, latest, List.map_filterMap, List.map_map, ← List.map_reverse]
  refine List.filterMap_congr fun name _ => ?_
  rw [lookup_map_row, latest?, Option.map_map]
  cases hrow : rows.reverse.find? (·.name = name) with
  | none => rfl
  | some row =>
    have hname : row.name = name := by simpa using List.find?_some hrow
    simp [hname]

/-! ### Reading -/

theorem readNodes_rows (h : ∀ row ∈ rows, row.IsReadable) :
    readNodes (rows.map fun row => (row.name, row.toJson)) =
      .ok (rows.filterMap Row.descriptor?) := by
  induction rows with
  | nil => rfl
  | cons row rest ih =>
    obtain ⟨⟨hmem, hsome⟩, hrest⟩ := List.forall_mem_cons.mp h
    obtain ⟨oid, hoid⟩ := Option.isSome_iff_exists.mp hsome
    obtain ⟨type, htype⟩ : ∃ type, NodeType.names.lookup row.nodeType = some type := by
      obtain ⟨entry, hentry, hname⟩ := List.mem_map.mp hmem
      exact Option.isSome_iff_exists.mp
        (List.lookup_isSome_iff.mpr ⟨entry, hentry, by simp [hname]⟩)
    rw [List.map_cons, readNodes, Row.ofJson_toJson htype hoid, ih hrest, List.filterMap_cons]
    change Except.ok (((row.node type oid).descriptor? row.name).toList ++ _) = _
    rw [Row.descriptor?_node htype hoid]
    cases row.descriptor? <;> rfl

theorem membersHaveNoNumber_rows (rows : List Row) :
    Json.MembersHaveNoNumber (rows.map fun row => (row.name, row.toJson)) := by
  induction rows with
  | nil => trivial
  | cons row rest ih => exact ⟨row.hasNoNumber_toJson, ih⟩

theorem membersFit_rows (rows : List Row) {depth : Nat} (h : 0 < depth) :
    Json.MembersFit depth (rows.map fun row => (row.name, row.toJson)) := by
  induction rows with
  | nil => trivial
  | cons row rest ih => exact ⟨row.fits_toJson h, ih⟩

/-- The outline of a dump that is written for rows. -/
theorem outline?_toJson (moduleName : String) (rows : List Row) :
    outline? (Json.Document.ofJson (toJson moduleName rows)) = some {
      moduleName := some moduleName
      nodes := some ((latest rows).map fun row => (row.name, row.toJson)) } := by
  -- The nodes are taken as a value of their own, which must not nest too deep or repeat a name.
  have hfits : (Json.object ((latest rows).map fun row => (row.name, row.toJson))).Fits
      (Json.Document.maxDepth - 1) := by
    refine ⟨by decide, ?_, membersFit_rows _ (by decide)⟩
    rw [← ofList_rows]
    exact Entries.nodup_keys_ofList _
  have hnodes : nodes? (.object (Json.Document.ofMembers ((latest rows).map fun row =>
      (row.name, row.toJson)))) = some (some ((latest rows).map fun row =>
        (row.name, row.toJson))) := by
    have hvalue := Json.Document.value?_ofJson _ _ hfits
    rw [Json.Document.ofJson] at hvalue
    rw [nodes?, hvalue]
  rw [toJson, ofList_rows]
  simp [Json.Document.ofJson, Json.Document.ofMembers, outline?, single?, moduleName?, hnodes]

/-- A dump that is written for rows is read back if the last row of each name makes sense. -/
theorem ofText_render (moduleName : String) (rows : List Row)
    (h : ∀ row ∈ latest rows, row.IsReadable) :
    Dump.ofText (render moduleName rows) = .ok {
      moduleName := some moduleName
      descriptors := some ((latest rows).filterMap Row.descriptor?) } := by
  have hnumbers : (toJson moduleName rows).HasNoNumber := by
    rw [toJson, ofList_rows]
    exact ⟨trivial, membersHaveNoNumber_rows _, trivial⟩
  rw [ofText, render, Json.Document.ofText?_compact hnumbers, Option.bind_some, outline?_toJson]
  dsimp only
  rw [readNodes_rows h]
  rfl

/-- Rows with a repeated name, of which only the last row makes sense, with a name that has to be
escaped, and with a type that describes no object. -/
def mixedRows : List Row := [
  { name := "value", nodeType := "leaf", oid := "none", access := "readonly" },
  { name := "\"\\\n\t\x00é😀", nodeType := "column", oid := "1.3.6", access := " read-write " },
  { name := "traps", nodeType := "notification", oid := "1.3.7", access := "" },
  { name := "value", nodeType := "node", oid := "1.3", access := "" }]

theorem ofText_render_mixedRows :
    (∀ row ∈ latest mixedRows, row.IsReadable) ∧
      Dump.ofText (render "A\\\"B" mixedRows) = .ok {
        moduleName := some "A\\\"B"
        descriptors := some ((latest mixedRows).filterMap Row.descriptor?) } := by
  have h : ∀ row ∈ latest mixedRows, row.IsReadable := by
    simp only [Row.IsReadable]
    decide +kernel
  exact ⟨h, ofText_render "A\\\"B" mixedRows h⟩

end Dump

end MibDrivers
