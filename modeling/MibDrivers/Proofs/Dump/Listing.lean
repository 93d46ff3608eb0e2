import MibDrivers.Dump.Basic
import MibDrivers.Proofs.Dump.Nodes

/-!
# What a dump declares

The nodes of a dump are read in the order in which their names first occur, each with the value that
was written last. A dump is read if every value denotes a node, and only then; nodes that describe
no object have to be right as well. It declares what the other nodes describe, and the first value
that denotes no node is the one that is reported.

## Main definitions

* `Dump.Lists` — the nodes that a document lists, as they are written
* `Dump.Declares` — the objects that nodes declare

## Main results

* `Dump.readNodes_eq_ok_iff` — nodes are read as the objects that they declare
* `Dump.readNodes_eq_error` — the first node that cannot be read is reported
* `Dump.ofText_declares` — what a dump declares, or why it is refused
-/

namespace MibDrivers

namespace Dump

open Json (Document)

variable {text name : String} {document : Document} {moduleName : Option String}
  {nodes : Entries String Json} {ds : List Descriptor} {error : DumpError} {depth : Nat}

/-! ### Nodes -/

/-- The objects that nodes declare, in the order of the nodes. Every node has to denote one, also
those that are skipped. -/
inductive Declares : Entries String Json → List Descriptor → Prop
  | nil : Declares [] []
  | object {name : String} {value : Json} {node : Node} {d : Descriptor}
      {rest : Entries String Json} {ds : List Descriptor} (hvalue : value.DenotesNode node)
      (hobject : node.Describes name d) (hrest : Declares rest ds) :
      Declares ((name, value) :: rest) (d :: ds)
  | skipped {name : String} {value : Json} {node : Node} {rest : Entries String Json}
      {ds : List Descriptor} (hvalue : value.DenotesNode node) (hskipped : node.IsSkipped)
      (hrest : Declares rest ds) : Declares ((name, value) :: rest) ds

theorem readNodes_cons_eq_ok_iff {value : Json} {rest : Entries String Json} :
    readNodes ((name, value) :: rest) = .ok ds ↔
      ∃ node, Node.ofJson value = .ok node ∧
        ∃ others, readNodes rest = .ok others ∧ (node.descriptor? name).toList ++ others = ds := by
  rw [readNodes, bind_eq_ok]
  simp only [mapError_eq_ok, bind_eq_ok, pure, Except.pure, Except.ok.injEq]

/-- Nodes are read as the objects that they declare. -/
theorem readNodes_eq_ok_iff (hfits : ∀ entry ∈ nodes, entry.2.Fits depth) :
    readNodes nodes = .ok ds ↔ Declares nodes ds := by
  induction nodes generalizing ds with
  | nil =>
    constructor
    · intro h
      obtain rfl := Except.ok.inj h
      exact .nil
    · rintro ⟨⟩
      rfl
  | cons entry rest ih =>
    obtain ⟨name, value⟩ := entry
    obtain ⟨hvalue, hrest⟩ := List.forall_mem_cons.mp hfits
    simp only [readNodes_cons_eq_ok_iff, Node.ofJson_eq_ok_iff hvalue, ih hrest]
    constructor
    · rintro ⟨node, hdenotes, others, hdeclares, rfl⟩
      cases hobject : node.descriptor? name with
      | none => exact .skipped hdenotes (Node.descriptor?_eq_none_iff.mp hobject) hdeclares
      | some d => exact .object hdenotes (Node.descriptor?_eq_some_iff.mp hobject) hdeclares
    · rintro (_ | ⟨hdenotes, hobject, hdeclares⟩ | ⟨hdenotes, hskipped, hdeclares⟩)
      · refine ⟨_, hdenotes, _, hdeclares, ?_⟩
        rw [Node.descriptor?_eq_some_iff.mpr hobject]
        rfl
      · refine ⟨_, hdenotes, _, hdeclares, ?_⟩
        rw [Node.descriptor?_eq_none_iff.mpr hskipped]
        rfl

/-- Nodes declare objects if every value denotes a node. -/
theorem exists_declares_iff :
    (∃ ds, Declares nodes ds) ↔ ∀ entry ∈ nodes, ∃ node, entry.2.DenotesNode node := by
  constructor
  · rintro ⟨ds, h⟩
    induction h with
    | nil => nofun
    | object hvalue _ _ ih => exact List.forall_mem_cons.mpr ⟨⟨_, hvalue⟩, ih⟩
    | skipped hvalue _ _ ih => exact List.forall_mem_cons.mpr ⟨⟨_, hvalue⟩, ih⟩
  · intro h
    induction nodes with
    | nil => exact ⟨[], .nil⟩
    | cons entry rest ih =>
      obtain ⟨name, value⟩ := entry
      obtain ⟨⟨node, hvalue⟩, hrest⟩ := List.forall_mem_cons.mp h
      obtain ⟨ds, hdeclares⟩ := ih hrest
      cases hobject : node.descriptor? name with
      | none => exact ⟨ds, .skipped hvalue (Node.descriptor?_eq_none_iff.mp hobject) hdeclares⟩
      | some d =>
        exact ⟨d :: ds, .object hvalue (Node.descriptor?_eq_some_iff.mp hobject) hdeclares⟩

/-- The first node that cannot be read is reported. -/
theorem readNodes_eq_error (h : readNodes nodes = .error error) :
    ∃ before name value after cause, nodes = before ++ (name, value) :: after ∧
      (∀ entry ∈ before, ∃ node, Node.ofJson entry.2 = .ok node) ∧
      Node.ofJson value = .error cause ∧ error = .node name cause := by
  induction nodes with
  | nil => cases h
  | cons entry rest ih =>
    obtain ⟨name, value⟩ := entry
    rw [readNodes] at h
    cases hvalue : Node.ofJson value with
    | error cause =>
      rw [hvalue] at h
      exact ⟨[], name, value, rest, cause, rfl, nofun, hvalue, (Except.error.inj h).symm⟩
    | ok node =>
      rw [hvalue] at h
      cases hrest : readNodes rest with
      | ok others =>
        rw [hrest] at h
        cases h
      | error other =>
        rw [hrest] at h
        obtain rfl := Except.error.inj h
        obtain ⟨before, later, found, after, cause, rfl, hbefore, hfound⟩ := ih hrest
        exact ⟨(name, value) :: before, later, found, after, cause, rfl,
          List.forall_mem_cons.mpr ⟨⟨node, hvalue⟩, hbefore⟩, hfound⟩

/-! ### Documents -/

/-- The nodes that a document lists, as they are written: the members of its only member `nodes`, or
of its second item. -/
inductive Lists : Document → List (String × Json) → Prop
  | object {members written : List (Option String × Document)} {arrivals : List (String × Json)}
      (hnodes : members.filter (fun member => member.1 == some "nodes") =
        [(some "nodes", .object written)])
      (hread : Document.members? (Document.maxDepth - 2) written = some arrivals) :
      Lists (.object members) arrivals
  | array {first : Document} {written : List (Option String × Document)}
      {arrivals : List (String × Json)}
      (hread : Document.members? (Document.maxDepth - 2) written = some arrivals) :
      Lists (.array [first, .object written]) arrivals

theorem nodes?_eq_some (h : nodes? document = some (some nodes)) :
    ∃ written arrivals, document = .object written ∧
      Document.members? (Document.maxDepth - 2) written = some arrivals ∧
      Entries.ofList arrivals = nodes := by
  match document with
  | .object written =>
    rw [nodes?, Document.value?, if_neg (by decide)] at h
    cases hread : Document.members? (Document.maxDepth - 1 - 1) written with
    | none =>
      rw [hread] at h
      cases h
    | some arrivals =>
      rw [hread] at h
      exact ⟨written, arrivals, rfl, hread, Option.some.inj (Option.some.inj h)⟩
  | .null | .bool _ | .number _ | .string _ | .array _ => cases h

theorem single?_eq_some {α : Type} {members : List (Option String × Document)}
    {read : Document → Option (Option α)} {found : α}
    (h : single? members name read = some (some found)) :
    ∃ value, members.filter (fun member => member.1 == some name) = [(some name, value)] ∧
      read value = some (some found) := by
  rw [single?] at h
  split at h
  · cases h
  · next key value hfilter =>
    have hkey : (key, value) ∈ members.filter fun member => member.1 == some name := by
      rw [hfilter]
      exact List.mem_singleton_self _
    obtain rfl := eq_of_beq (List.mem_filter.mp hkey).2
    exact ⟨value, hfilter, h⟩
  · cases h

/-- The values that a document lists are values of documents. -/
theorem Lists.fits {arrivals : List (String × Json)} (h : Lists document arrivals)
    {entry : String × Json} (hentry : entry ∈ arrivals) :
    entry.2.Fits (Document.maxDepth - 2) := by
  obtain ⟨-, hread⟩ | hread := h
  all_goals exact Json.membersFit_iff.mp (Document.membersFit_of_members? _ hread) entry hentry

/-- The nodes of an outline keep what the document lists. -/
theorem exists_lists_of_outline?
    (h : outline? document = some { moduleName, nodes := some nodes }) :
    ∃ arrivals, Lists document arrivals ∧ Entries.Keeps arrivals nodes := by
  match document with
  | .object members =>
    rw [outline?] at h
    split_ifs at h
    · cases h
    · obtain ⟨found, -, h⟩ := Option.bind_eq_some_iff.mp h
      obtain ⟨listed, hlisted, h⟩ := Option.bind_eq_some_iff.mp h
      obtain ⟨rfl, rfl⟩ := Outline.mk.inj (Option.some.inj h)
      obtain ⟨value, honly, hvalue⟩ := single?_eq_some hlisted
      obtain ⟨written, arrivals, rfl, hread, hkept⟩ := nodes?_eq_some hvalue
      exact ⟨arrivals, .object honly hread, Entries.ofList_eq_iff.mp hkept⟩
  | .array [first, second] =>
    obtain ⟨found, -, h⟩ := Option.bind_eq_some_iff.mp h
    obtain ⟨listed, hlisted, h⟩ := Option.bind_eq_some_iff.mp h
    obtain ⟨rfl, rfl⟩ := Outline.mk.inj (Option.some.inj h)
    obtain ⟨written, arrivals, rfl, hread, hkept⟩ := nodes?_eq_some hlisted
    exact ⟨arrivals, .array hread, Entries.ofList_eq_iff.mp hkept⟩
  | .array [first] =>
    obtain ⟨found, -, h⟩ := Option.bind_eq_some_iff.mp h
    cases h
  | .array [] | .array (_ :: _ :: _ :: _) => cases h
  | .null | .bool _ | .number _ | .string _ => cases h

/-- The nodes of an accepted outline decide whether a dump is read. -/
theorem ofText_eq
    (h : (Document.ofText? text).bind outline? = some { moduleName, nodes := some nodes }) :
    ofText text = readNodes nodes >>= fun ds => .ok { moduleName, descriptors := some ds } := by
  rw [ofText, h]
  rfl

theorem ofText_eq_ok_iff
    (h : (Document.ofText? text).bind outline? = some { moduleName, nodes := some nodes })
    {dump : Dump} :
    ofText text = .ok dump ↔
      ∃ ds, readNodes nodes = .ok ds ∧ dump = { moduleName, descriptors := some ds } := by
  rw [ofText_eq h, bind_eq_ok]
  simp only [Except.ok.injEq, eq_comm]

theorem ofText_eq_error_iff
    (h : (Document.ofText? text).bind outline? = some { moduleName, nodes := some nodes }) :
    ofText text = .error error ↔ readNodes nodes = .error error := by
  rw [← error?_eq_some, ofText_eq h, error?_bind_of_none fun _ => rfl, error?_eq_some]

/-- The node with the given name is the first whose value denotes none, for the given reason. -/
def Refuses (nodes : Entries String Json) (name : String) (cause : Json.Mismatch) : Prop :=
  ∃ before value after, nodes = before ++ (name, value) :: after ∧
    (∀ entry ∈ before, ∃ node, entry.2.DenotesNode node) ∧
    (∀ node, ¬value.DenotesNode node) ∧ Node.ofJson value = .error cause

theorem exists_refuses (hfits : ∀ entry ∈ nodes, entry.2.Fits depth)
    (h : readNodes nodes = .error error) :
    ∃ name cause, Refuses nodes name cause ∧ error = .node name cause := by
  obtain ⟨before, name, value, after, cause, rfl, hbefore, hvalue, rfl⟩ := readNodes_eq_error h
  obtain ⟨hfits, hvalueFits, -⟩ := List.forall_mem_append.mp hfits |>.imp id List.forall_mem_cons.mp
  refine ⟨name, cause, ⟨before, value, after, rfl, fun entry hentry => ?_, fun node hnode => ?_,
    hvalue⟩, rfl⟩
  · obtain ⟨node, hnode⟩ := hbefore entry hentry
    exact ⟨node, (Node.ofJson_eq_ok_iff (hfits entry hentry)).mp hnode⟩
  · rw [(Node.ofJson_eq_ok_iff hvalueFits).mpr hnode] at hvalue
    cases hvalue

/-- A dump with an accepted outline is read if every value that is listed last under its name
denotes a node. It declares what the nodes describe, in the order in which their names first occur;
otherwise the first of them that denotes none is reported. -/
theorem ofText_declares
    (h : (Document.ofText? text).bind outline? = some { moduleName, nodes := some nodes }) :
    (∃ document arrivals, Document.ofText? text = some document ∧ Lists document arrivals ∧
      Entries.Keeps arrivals nodes) ∧
    ((∃ dump, ofText text = .ok dump) ↔ ∀ entry ∈ nodes, ∃ node, entry.2.DenotesNode node) ∧
    (∀ dump, ofText text = .ok dump ↔
      ∃ ds, Declares nodes ds ∧ dump = { moduleName, descriptors := some ds }) ∧
    ∀ error, ofText text = .error error →
      ∃ name cause, Refuses nodes name cause ∧
        error.message = "node " ++ name ++ ": " ++ cause.message := by
  obtain ⟨document, hdocument, houtline⟩ := Option.bind_eq_some_iff.mp h
  obtain ⟨arrivals, hlists, hkeeps⟩ := exists_lists_of_outline? houtline
  have hfits : ∀ entry ∈ nodes, entry.2.Fits (Document.maxDepth - 2) := by
    intro entry hentry
    obtain ⟨earlier, later, harrivals, -⟩ := hkeeps.latest entry hentry
    exact hlists.fits (by simp [harrivals])
  have hok : ∀ dump, ofText text = .ok dump ↔
      ∃ ds, Declares nodes ds ∧ dump = { moduleName, descriptors := some ds } := by
    intro dump
    simp only [ofText_eq_ok_iff h, readNodes_eq_ok_iff hfits]
  refine ⟨⟨document, arrivals, hdocument, hlists, hkeeps⟩, ?_, hok, fun error herror => ?_⟩
  · rw [← exists_declares_iff]
    constructor
    · rintro ⟨dump, hdump⟩
      obtain ⟨ds, hdeclares, -⟩ := (hok dump).mp hdump
      exact ⟨ds, hdeclares⟩
    · rintro ⟨ds, hdeclares⟩
      exact ⟨_, (hok _).mpr ⟨ds, hdeclares, rfl⟩⟩
  · obtain ⟨name, cause, hrefuses, rfl⟩ := exists_refuses hfits ((ofText_eq_error_iff h).mp herror)
    exact ⟨name, cause, hrefuses, rfl⟩

/-- A document that lists `sys` twice, at first with a value that is no node. Between them stand a
node that is written as an array and a group. -/
def repeatedText : String :=
  "\x7b\"nodes\":\x7b\"sys\":null,\"up\":[\"column\",\"1.3.1\",null]," ++
    "\"all\":\x7b\"oid\":\"1.4\",\"nodetype\":\"group\"\x7d," ++
    "\"sys\":\x7b\"nodetype\":\x7b\"row\":null\x7d,\"oid\":\"1.3\",\"at\":[]\x7d\x7d\x7d"

/-- The nodes that `repeatedText` leaves. -/
def repeatedNodes : Entries String Json := [
  ("sys", .object [
    ("nodetype", .object [("row", .null)]), ("oid", .string "1.3"), ("at", .array [])]),
  ("up", .array [.string "column", .string "1.3.1", .null]),
  ("all", .object [("oid", .string "1.4"), ("nodetype", .string "group")])]

theorem declares_repeatedNodes :
    Declares repeatedNodes [
      { name := "sys", kind := .branch, oid := ⟨[1, 3]⟩ },
      { name := "up", kind := .scalar, oid := ⟨[1, 3, 1]⟩ }] := by
  have hsys : Oid.ofDotted? "1.3" = some ⟨[1, 3]⟩ := by decide +kernel
  have hup : Oid.ofDotted? "1.3.1" = some ⟨[1, 3, 1]⟩ := by decide +kernel
  have hall : Oid.ofDotted? "1.4" = some ⟨[1, 4]⟩ := by decide +kernel
  refine .object (show Json.DenotesNode _ ⟨.row, ⟨[1, 3]⟩, none, none⟩ from .object
    ⟨⟨_, rfl, .member rfl⟩, ⟨_, rfl, .text hsys⟩, .missing, .missing⟩) ?_ ?_
  · exact ⟨rfl, .inl ⟨by decide, rfl⟩, rfl, .inl ⟨rfl, rfl⟩, .inl ⟨rfl, rfl⟩⟩
  refine .object (show Json.DenotesNode _ ⟨.column, ⟨[1, 3, 1]⟩, none, none⟩ from .array (by decide)
    ⟨⟨_, rfl, .text rfl⟩, ⟨_, rfl, .text hup⟩, .null, .missing⟩) ?_ ?_
  · exact ⟨rfl, .inr ⟨by decide, rfl⟩, rfl, .inl ⟨rfl, rfl⟩, .inl ⟨rfl, rfl⟩⟩
  refine .skipped (show Json.DenotesNode _ ⟨.group, ⟨[1, 4]⟩, none, none⟩ from .object
    ⟨⟨_, rfl, .text rfl⟩, ⟨_, rfl, .text hall⟩, .missing, .missing⟩) ?_ .nil
  exact List.mem_cons_of_mem _ List.mem_cons_self

theorem ofText_declares_repeated :
    (Document.ofText? repeatedText).bind outline? =
        some { moduleName := none, nodes := some repeatedNodes } ∧
      ofText repeatedText = .ok {
        moduleName := none
        descriptors := some [
          { name := "sys", kind := .branch, oid := ⟨[1, 3]⟩ },
          { name := "up", kind := .scalar, oid := ⟨[1, 3, 1]⟩ }] } := by
  have h : (Document.ofText? repeatedText).bind outline? =
      some { moduleName := none, nodes := some repeatedNodes } := by
    conv_lhs => arg 1; cbv
    rfl
  obtain ⟨-, -, hok, -⟩ := ofText_declares h
  exact ⟨h, (hok _).mpr ⟨_, declares_repeatedNodes, rfl⟩⟩

end Dump

end MibDrivers
