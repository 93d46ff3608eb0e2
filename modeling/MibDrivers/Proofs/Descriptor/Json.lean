import MibDrivers.Descriptor.Json
import MibDrivers.Proofs.Dotted
import MibDrivers.Proofs.Dump.Nodes

/-!
# Descriptors are read back

A descriptor can be written in many ways: its access mode has several spellings, with blanks around
or without, and so has its identifier. Once it is read, this variety is gone: what is written for it
is read as the same descriptor. There are descriptors of which this is not true, but no value is
read as one of them.

## Main definitions

* `Descriptor.Restorable` — a descriptor that has arcs, and the access mode that the text of its mode
  names

## Main results

* `Access.ofText_text_iff` — the modes that are read are those that their own texts name
* `Descriptor.ofJson_toJson_iff` — a descriptor is read back exactly if it is restorable
* `Descriptor.ofJson_restores` — so is every descriptor that was read from a value
-/

namespace MibDrivers

namespace Access

variable {access : Access} {text mode : String}

theorem ofText_trim (text : String) : ofText (Text.trim text) = ofText text := by
  simp only [ofText, Text.trim_trim]

theorem eq_trim_of_ofText (h : ofText text = .other mode) : mode = Text.trim text := by
  simp only [ofText] at h
  split_ifs at h
  exact (other.inj h).symm

/-- The text of a mode that was read names this mode. -/
theorem ofText_text_ofText (text : String) : ofText (ofText text).text = ofText text := by
  cases h : ofText text with
  | readOnly => decide +kernel
  | readWrite => decide +kernel
  | other mode => rw [Access.text, eq_trim_of_ofText h, ofText_trim, h, eq_trim_of_ofText h]

/-- The modes that are read are those that their own texts name. -/
theorem ofText_text_iff : ofText access.text = access ↔ ∃ text, ofText text = access := by
  constructor
  · exact fun h => ⟨_, h⟩
  · rintro ⟨text, rfl⟩
    exact ofText_text_ofText text

theorem ofJson_eq_ok_iff {value : Json} :
    ofJson value = .ok access ↔ ∃ text, value = .string text ∧ ofText text = access := by
  cases value <;> simp [ofJson, Json.expectString, Except.map]

end Access

namespace Descriptor

variable {d : Descriptor} {value : Json}

/-- A descriptor has arcs, and its access mode is the one that the text of the mode names. -/
structure Restorable (d : Descriptor) : Prop where
  arcs : d.oid.arcs ≠ []
  access : Access.ofText d.access.text = d.access

/-- What is read from the values of an identifier and of a mode is restorable. -/
theorem restorable_of_read {oid access : Json} (hoid : Json.expectOid oid = .ok d.oid)
    (haccess : Access.ofJson access = .ok d.access) : d.Restorable := by
  obtain ⟨hdotted⟩ := Json.expectOid_eq_ok_iff.mp hoid
  obtain ⟨before, inner, after, -, -, -, harcs⟩ := Oid.ofDotted?_eq_some_iff.mp hdotted
  obtain ⟨text, -, htext⟩ := Access.ofJson_eq_ok_iff.mp haccess
  exact ⟨harcs.ne_nil, Access.ofText_text_iff.mpr ⟨text, htext⟩⟩

/-- What is read from a value is restorable. -/
theorem restorable_of_ofJson (h : ofJson value = .ok d) : d.Restorable := by
  match value with
  | .object members =>
    simp only [ofJson, bind_eq_ok, Json.field_eq_ok_iff] at h
    obtain ⟨_, -, _, -, _, -, _, ⟨_, -, hoid⟩, _, ⟨_, -, haccess⟩, _, -, h⟩ := h
    obtain rfl := Except.ok.inj h
    exact restorable_of_read hoid haccess
  | .array items =>
    simp only [ofJson, bind_eq_ok, Json.item_eq_ok_iff] at h
    obtain ⟨_, -, _, -, _, ⟨_, -, hoid⟩, _, ⟨_, -, haccess⟩, _, -, _, -, h⟩ := h
    obtain rfl := Except.ok.inj h
    exact restorable_of_read hoid haccess
  | .null | .bool _ | .number _ | .string _ => cases h

/-- A descriptor is read back from the value that is written for it exactly if it is restorable. -/
theorem ofJson_toJson_iff : ofJson d.toJson = .ok d ↔ d.Restorable := by
  refine ⟨restorable_of_ofJson, fun h => ?_⟩
  have hkind : DescriptorKind.ofJson (.string d.kind.text) = .ok d.kind := by
    cases d.kind <;> rfl
  have hdotted := Oid.ofDotted?_eq_some_iff.mpr (Oid.denotes_dotted_iff.mpr h.arcs)
  have hoid : Json.expectOid (.string d.oid.dotted) = .ok d.oid :=
    Json.expectOid_eq_ok_iff.mpr (.text hdotted)
  have haccess : Access.ofJson (.string d.access.text) = .ok d.access :=
    Access.ofJson_eq_ok_iff.mpr ⟨_, rfl, h.access⟩
  simp [ofJson, toJson, Json.checkMembers, checkMember, Json.field, List.lookup_cons,
    Json.expectString, hkind, hoid, haccess, bind, Except.bind, pure, Except.pure]

/-- The value that is written for a descriptor is an object of strings, and its text is read as this
value. -/
theorem ofText?_compact_toJson (d : Descriptor) :
    Json.ofText? d.toJson.compact = some d.toJson := by
  have hnumbers : d.toJson.HasNoNumber := ⟨trivial, trivial, trivial, trivial, trivial, trivial⟩
  have hfits : d.toJson.Fits Json.Document.maxDepth :=
    ⟨by decide, by simp, trivial, trivial, trivial, trivial, trivial, trivial⟩
  exact Json.ofText?_compact hnumbers hfits

/-- The descriptors that are read from values are those that are read back from their own texts, and
then have the same text again. These are the restorable ones. The modes of access that are read are
those that their own texts name, and not all modes are. -/
theorem ofJson_restores (d : Descriptor) :
    ((∃ value, ofJson value = .ok d) ↔
        ∃ value again, Json.ofText? d.toJson.compact = some value ∧ ofJson value = .ok again ∧
          again = d ∧ again.toJson.compact = d.toJson.compact) ∧
      ((∃ value, ofJson value = .ok d) ↔ d.Restorable) ∧
      (∀ access : Access, (∃ text, Access.ofText text = access) ↔
        Access.ofText access.text = access) ∧
      ∃ access : Access, Access.ofText access.text ≠ access := by
  refine ⟨⟨?_, ?_⟩, ⟨?_, ?_⟩, fun _ => Access.ofText_text_iff.symm, ?_⟩
  · -- However the value was written, what is read from it is restorable.
    rintro ⟨value, h⟩
    have hread := ofJson_toJson_iff.mpr (restorable_of_ofJson h)
    exact ⟨d.toJson, d, ofText?_compact_toJson d, hread, rfl, rfl⟩
  · rintro ⟨value, again, -, h, rfl, -⟩
    exact ⟨value, h⟩
  · rintro ⟨value, h⟩
    exact restorable_of_ofJson h
  · exact fun h => ⟨d.toJson, ofJson_toJson_iff.mpr h⟩
  · exact ⟨.other "read-only", by decide +kernel⟩

end Descriptor

end MibDrivers
