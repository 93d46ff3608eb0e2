import MibDrivers.Dump.Node
import MibDrivers.Proofs.Json.Documents
import MibDrivers.Proofs.Results

/-!
# Values that denote nodes

What a node says can be written in many ways. The node is an object, in which other members do not
matter, or an array of up to four items; its type is a name or an object with that name for its only
member; and what may be missing may be null as well. A value is read as a node exactly if it is
written in one of these ways.

## Main definitions

* `Json.DenotesName`, `Json.DenotesOid`, `Json.DenotesText` — the ways to write the parts of a node
* `Json.DenotesNode` — the ways to write a node
* `Node.Describes`, `Node.IsSkipped` — what a node describes, and nodes that describe nothing

## Main results

* `Node.ofJson_eq_ok_iff` — a value is read as the node that it denotes
* `Node.descriptor?_eq_some_iff`, `Node.descriptor?_eq_none_iff` — the object that a node describes
-/

namespace MibDrivers

namespace Json

variable {α : Type} {choices : List (String × α)} {choice : α} {value : Json} {oid : Oid}
  {node : Node} {members : List (String × Json)} {items : List Json} {depth : Nat}

/-! ### The parts of a node -/

/-- A value denotes one of the choices: it is the name, or an object with that name for its only
member, whose value is null. -/
inductive DenotesName (choices : List (String × α)) : Json → α → Prop
  | text {name : String} {choice : α} (h : choices.lookup name = some choice) :
      DenotesName choices (.string name) choice
  | member {name : String} {choice : α} (h : choices.lookup name = some choice) :
      DenotesName choices (.object [(name, .null)]) choice

/-- A value denotes an object identifier by its dotted text. -/
inductive DenotesOid : Json → Oid → Prop
  | text {text : String} {oid : Oid} (h : Oid.ofDotted? text = some oid) :
      DenotesOid (.string text) oid

/-- A part that may be missing, or null, denotes a text or none. -/
inductive DenotesText : Option Json → Option String → Prop
  | missing : DenotesText none none
  | null : DenotesText (some .null) none
  | text (text : String) : DenotesText (some (.string text)) (some text)

/-- The parts of a node denote it. The first two must be there. -/
@[mk_iff]
structure PartsDenote (type oid access description : Option Json) (node : Node) : Prop where
  type : ∃ value, type = some value ∧ value.DenotesName NodeType.names node.type
  oid : ∃ value, oid = some value ∧ value.DenotesOid node.oid
  access : DenotesText access node.access
  description : DenotesText description node.description

/-- A value denotes a node: as an object, whose other members do not matter, or as an array without
other items. -/
inductive DenotesNode : Json → Node → Prop
  | object {members : List (String × Json)} {node : Node}
      (parts : PartsDenote (members.lookup "nodetype") (members.lookup "oid")
        (members.lookup "access") (members.lookup "description") node) :
      DenotesNode (.object members) node
  | array {items : List Json} {node : Node} (length : items.length ≤ 4)
      (parts : PartsDenote items[0]? items[1]? items[2]? items[3]? node) :
      DenotesNode (.array items) node

theorem choose_eq_ok_iff {name : String} :
    expectName.choose choices name = .ok choice ↔ choices.lookup name = some choice := by
  rw [expectName.choose]
  cases choices.lookup name <;> simp

theorem expectName_eq_ok_iff :
    expectName choices value = .ok choice ↔ value.DenotesName choices choice := by
  constructor
  · intro h
    match value with
    | .string name => exact .text (choose_eq_ok_iff.mp h)
    | .object [(name, content)] =>
      obtain ⟨found, hfound, h⟩ := bind_eq_ok.mp h
      cases content with
      | null =>
        obtain rfl := Except.ok.inj h
        exact .member (choose_eq_ok_iff.mp hfound)
      | _ => cases h
    | .object [] | .object (_ :: _ :: _) => cases h
    | .null | .bool _ | .number _ | .array _ => cases h
  · rintro (hname | hname)
    · exact choose_eq_ok_iff.mpr hname
    · exact bind_eq_ok.mpr ⟨choice, choose_eq_ok_iff.mpr hname, rfl⟩

theorem expectString_eq_ok_iff {text : String} :
    expectString value = .ok text ↔ value = .string text := by
  cases value <;> simp [expectString]

theorem expectOid_eq_ok_iff : expectOid value = .ok oid ↔ value.DenotesOid oid := by
  have hread {text : String} :
      (Oid.ofDotted text).mapError Mismatch.refused = .ok oid ↔ Oid.ofDotted? text = some oid := by
    rw [mapError_eq_ok, Oid.ofDotted]
    cases Oid.ofDotted? text <;> simp
  rw [expectOid, bind_eq_ok]
  constructor
  · rintro ⟨text, htext, hoid⟩
    obtain rfl := expectString_eq_ok_iff.mp htext
    exact .text (hread.mp hoid)
  · rintro ⟨hoid⟩
    exact ⟨_, rfl, hread.mpr hoid⟩

theorem expectOptionalString_eq_ok_iff {text : Option String} :
    expectOptionalString value = .ok text ↔ DenotesText (some value) text := by
  constructor
  · intro h
    cases value with
    | null =>
      obtain rfl := Except.ok.inj h
      exact .null
    | string written =>
      obtain rfl := Except.ok.inj h
      exact .text written
    | _ => cases h
  · rintro (_ | _) <;> rfl

theorem field_eq_ok_iff {name : String} {read : Json → Except Mismatch α} :
    field members name read = .ok choice ↔
      ∃ value, members.lookup name = some value ∧ read value = .ok choice := by
  rw [field]
  cases members.lookup name <;> simp

theorem item_eq_ok_iff {index : Nat} {record : String} {read : Json → Except Mismatch α} :
    item items index record read = .ok choice ↔
      ∃ value, items[index]? = some value ∧ read value = .ok choice := by
  rw [item]
  cases items[index]? <;> simp

theorem optionalField_eq_ok_iff {name : String} {text : Option String} :
    optionalField members name expectOptionalString = .ok text ↔
      DenotesText (members.lookup name) text := by
  rw [optionalField]
  cases members.lookup name with
  | none => exact ⟨fun h => Except.ok.inj h ▸ .missing, fun | .missing => rfl⟩
  | some value => exact expectOptionalString_eq_ok_iff

theorem optionalItem_eq_ok_iff {index : Nat} {text : Option String} :
    optionalItem items index expectOptionalString = .ok text ↔ DenotesText items[index]? text := by
  rw [optionalItem]
  cases items[index]? with
  | none => exact ⟨fun h => Except.ok.inj h ▸ .missing, fun | .missing => rfl⟩
  | some value => exact expectOptionalString_eq_ok_iff

theorem checkMembers_eq_ok_iff {check : String → Json → Except Mismatch Unit} :
    checkMembers check members = .ok () ↔ ∀ member ∈ members, check member.1 member.2 = .ok () := by
  induction members with
  | nil => exact iff_of_true rfl nofun
  | cons first rest ih =>
    have hcons : checkMembers check (first :: rest) =
        check first.1 first.2 >>= fun _ => checkMembers check rest := rfl
    rw [hcons, bind_eq_ok, List.forall_mem_cons, ← ih]
    exact ⟨fun ⟨_, hfirst, hrest⟩ => ⟨hfirst, hrest⟩, fun ⟨hfirst, hrest⟩ => ⟨(), hfirst, hrest⟩⟩

end Json

theorem NodeType.ofJson_eq_ok_iff {value : Json} {type : NodeType} :
    NodeType.ofJson value = .ok type ↔ value.DenotesName NodeType.names type :=
  Json.expectName_eq_ok_iff

namespace Node

open Json (PartsDenote)

variable {value : Json} {node : Node} {members : List (String × Json)} {items : List Json}
  {depth : Nat} {name : String} {d : Descriptor}

/-! ### Reading -/

/-- Members that denote the parts of a node pass the check one by one, as no name is repeated. -/
theorem checkMember_of_partsDenote (hnodup : (members.map Prod.fst).Nodup)
    (h : PartsDenote (members.lookup "nodetype") (members.lookup "oid")
      (members.lookup "access") (members.lookup "description") node)
    (hmem : (name, value) ∈ members) : checkMember name value = .ok () := by
  have hlookup := Entries.lookup_of_mem hnodup hmem
  unfold checkMember
  split
  · obtain ⟨found, hfound, htype⟩ := h.type
    obtain rfl := Option.some.inj (hfound.symm.trans hlookup)
    exact bind_eq_ok.mpr ⟨_, Json.expectName_eq_ok_iff.mpr htype, rfl⟩
  · obtain ⟨found, hfound, hoid⟩ := h.oid
    obtain rfl := Option.some.inj (hfound.symm.trans hlookup)
    exact bind_eq_ok.mpr ⟨_, Json.expectOid_eq_ok_iff.mpr hoid, rfl⟩
  · have haccess := h.access
    rw [hlookup, ← Json.expectOptionalString_eq_ok_iff] at haccess
    exact bind_eq_ok.mpr ⟨_, haccess, rfl⟩
  · have hdescription := h.description
    rw [hlookup, ← Json.expectOptionalString_eq_ok_iff] at hdescription
    exact bind_eq_ok.mpr ⟨_, hdescription, rfl⟩
  · rfl

/-- The parts of a node are read one after the other, and then what is left is checked. -/
theorem read_eq_ok_iff (node : Node) (type : Except Json.Mismatch NodeType)
    (oid : Except Json.Mismatch Oid) (access description : Except Json.Mismatch (Option String))
    (check : Except Json.Mismatch Unit) :
    (do
      let type ← type
      let oid ← oid
      let access ← access
      let description ← description
      check
      return { type, oid, access, description }) = Except.ok node ↔
      type = .ok node.type ∧ oid = .ok node.oid ∧ access = .ok node.access ∧
        description = .ok node.description ∧ check = .ok () := by
  constructor
  · simp only [bind_eq_ok]
    rintro ⟨type, rfl, oid, rfl, access, rfl, description, rfl, ⟨⟩, hcheck, h⟩
    obtain rfl := Except.ok.inj h
    exact ⟨rfl, rfl, rfl, rfl, hcheck⟩
  · rintro ⟨rfl, rfl, rfl, rfl, rfl⟩
    rfl

theorem ofJson_object_eq_ok_iff :
    ofJson (.object members) = .ok node ↔
      Json.checkMembers checkMember members = .ok () ∧
        PartsDenote (members.lookup "nodetype") (members.lookup "oid")
          (members.lookup "access") (members.lookup "description") node := by
  -- Nothing is left to check after the parts of an object.
  have hread := read_eq_ok_iff node (Json.field members "nodetype" NodeType.ofJson)
    (Json.field members "oid" Json.expectOid)
    (Json.optionalField members "access" Json.expectOptionalString)
    (Json.optionalField members "description" Json.expectOptionalString) (.ok ())
  simp only [Json.field_eq_ok_iff, NodeType.ofJson_eq_ok_iff, Json.expectOid_eq_ok_iff,
    Json.optionalField_eq_ok_iff, and_true, ← Json.partsDenote_iff] at hread
  rw [← hread]
  exact bind_eq_ok.trans ⟨fun ⟨_, hcheck, h⟩ => ⟨hcheck, h⟩, fun ⟨hcheck, h⟩ => ⟨(), hcheck, h⟩⟩

theorem ofJson_array_eq_ok_iff :
    ofJson (.array items) = .ok node ↔
      items.length ≤ 4 ∧ PartsDenote items[0]? items[1]? items[2]? items[3]? node := by
  have hlength : Json.checkLength items 4 = .ok () ↔ items.length ≤ 4 := by
    unfold Json.checkLength
    split_ifs with h <;> simp [h]
  rw [ofJson, read_eq_ok_iff, hlength, Json.partsDenote_iff]
  simp only [Json.item_eq_ok_iff, NodeType.ofJson_eq_ok_iff, Json.expectOid_eq_ok_iff,
    Json.optionalItem_eq_ok_iff]
  constructor
  · rintro ⟨htype, hoid, haccess, hdescription, hshort⟩
    exact ⟨hshort, htype, hoid, haccess, hdescription⟩
  · rintro ⟨hshort, htype, hoid, haccess, hdescription⟩
    exact ⟨htype, hoid, haccess, hdescription, hshort⟩

/-- A value is read as the node that it denotes. -/
theorem ofJson_eq_ok_iff (hfits : value.Fits depth) :
    ofJson value = .ok node ↔ value.DenotesNode node := by
  constructor
  · intro h
    cases value with
    | object members => exact .object (ofJson_object_eq_ok_iff.mp h).2
    | array items =>
      obtain ⟨hlength, hparts⟩ := ofJson_array_eq_ok_iff.mp h
      exact .array hlength hparts
    | _ => cases h
  · rintro (⟨hparts⟩ | ⟨hlength, hparts⟩)
    · obtain ⟨-, hnodup, -⟩ := hfits
      refine ofJson_object_eq_ok_iff.mpr ⟨?_, hparts⟩
      exact Json.checkMembers_eq_ok_iff.mpr fun _ hmem =>
        checkMember_of_partsDenote hnodup hparts hmem
    · exact ofJson_array_eq_ok_iff.mpr ⟨hlength, hparts⟩

/-! ### What a node describes -/

/-- A node with the given name describes an object. -/
structure Describes (node : Node) (name : String) (d : Descriptor) : Prop where
  name : d.name = name
  kind : node.type ∈ [.node, .table, .row] ∧ d.kind = .branch ∨
    node.type ∈ [.scalar, .column] ∧ d.kind = .scalar
  oid : d.oid = node.oid
  access : node.access = none ∧ d.access = .other "" ∨
    ∃ text, node.access = some text ∧ d.access = Access.ofText text
  description : node.description = none ∧ d.description = "" ∨
    node.description = some d.description

/-- A node describes no object. -/
def IsSkipped (node : Node) : Prop :=
  node.type ∈ [.notification, .group, .compliance, .capabilities]

theorem descriptor?_eq_none_iff : node.descriptor? name = none ↔ node.IsSkipped := by
  rw [descriptor?, Option.map_eq_none_iff, IsSkipped]
  cases node.type <;> decide

theorem kind?_eq_some_iff {type : NodeType} {kind : DescriptorKind} :
    type.kind? = some kind ↔ type ∈ [.node, .table, .row] ∧ kind = .branch ∨
      type ∈ [.scalar, .column] ∧ kind = .scalar := by
  cases type <;> cases kind <;> decide

theorem access_eq_iff {access : Access} :
    (node.access.map Access.ofText).getD .unspecified = access ↔
      node.access = none ∧ access = .other "" ∨
        ∃ text, node.access = some text ∧ access = Access.ofText text := by
  rw [Option.getD_eq_iff, Option.map_eq_some_iff, Option.map_eq_none_iff, or_comm,
    Access.unspecified]
  simp only [eq_comm]

theorem description_eq_iff {description : String} :
    node.description.getD "" = description ↔
      node.description = none ∧ description = "" ∨ node.description = some description := by
  rw [Option.getD_eq_iff, or_comm]
  simp only [eq_comm]

theorem descriptor?_eq_some_iff : node.descriptor? name = some d ↔ node.Describes name d := by
  rw [descriptor?, Option.map_eq_some_iff]
  constructor
  · rintro ⟨kind, hkind, rfl⟩
    exact {
      name := rfl
      kind := kind?_eq_some_iff.mp hkind
      oid := rfl
      access := access_eq_iff.mp rfl
      description := description_eq_iff.mp rfl }
  · intro h
    refine ⟨d.kind, kind?_eq_some_iff.mpr h.kind, ?_⟩
    rw [access_eq_iff.mpr h.access, description_eq_iff.mpr h.description, ← h.name, ← h.oid]

end Node

end MibDrivers
