import MibDrivers.Json.Document
import MibDrivers.Proofs.Entries
import MibDrivers.Proofs.Json.Strings

/-!
# Written values are read back

A value is written as a row of tokens without anything between them. Read again, the tokens give a
document that shows the value, and the document is taken as the value as long as the members of each
object have different names and nothing nests too deep. Numbers are left out here: where one ends
depends on what follows.

## Main definitions

* `Json.HasNoNumber` — a value without numbers
* `Json.tokens` — the tokens as which a value is written
* `Json.Document.ofJson` — the document that shows a value
* `Json.Fits` — a value that nests within a depth, with different names in each object

## Main results

* `Json.ofChars?_compactChars` — the tokens of a written value
* `Json.Document.readValue_tokens` — the document that the tokens of a value give
* `Json.Document.ofText?_compact` — the document that a written value gives
* `Json.Document.value?_ofJson` — the value of the document that shows a value
* `Json.Document.fits_of_value?` — the value of any document fits
* `Json.ofText?_compact` — a written value is read back
-/

namespace MibDrivers

namespace Json

/-! ### Tokens -/

mutual

/-- There is no number in a value. -/
def HasNoNumber : Json → Prop
  | .null | .bool _ | .string _ => True
  | .number _ => False
  | .array items => ItemsHaveNoNumber items
  | .object members => MembersHaveNoNumber members

/-- There is no number in the items of an array. -/
def ItemsHaveNoNumber : List Json → Prop
  | [] => True
  | item :: rest => HasNoNumber item ∧ ItemsHaveNoNumber rest

/-- There is no number in the members of an object. -/
def MembersHaveNoNumber : List (String × Json) → Prop
  | [] => True
  | (_, member) :: rest => HasNoNumber member ∧ MembersHaveNoNumber rest

end

mutual

/-- The tokens as which a value is written. -/
def tokens : Json → List Token
  | .null => [.null]
  | .bool value => [.bool value]
  | .number value => [.number (some value)]
  | .string text => [.string (some text)]
  | .array items => .openBracket :: (itemTokens items ++ [.closeBracket])
  | .object members => .openBrace :: (memberTokens members ++ [.closeBrace])

/-- The tokens of the items of an array. -/
def itemTokens : List Json → List Token
  | [] => []
  | [item] => tokens item
  | item :: rest => tokens item ++ .comma :: itemTokens rest

/-- The tokens of the members of an object. -/
def memberTokens : List (String × Json) → List Token
  | [] => []
  | [(name, member)] => .string (some name) :: .colon :: tokens member
  | (name, member) :: rest =>
    .string (some name) :: .colon :: (tokens member ++ .comma :: memberTokens rest)

end

namespace Token

variable {c : Char} {cs rest : List Char} {token : Token}

theorem ofChars?_of_next (hspace : isSpace c = false)
    (hnext : next? (c :: cs) = some (token, rest)) :
    ofChars? (c :: cs) = (ofChars? rest).map (token :: ·) := by
  rw [ofChars?, if_neg (by simp [hspace])]
  split
  · next hnone => cases hnone.symm.trans hnext
  · next found after hfound =>
    obtain ⟨rfl, rfl⟩ := Prod.mk.inj (Option.some.inj (hfound.symm.trans hnext))
    rfl

/-- A string as written is one token. -/
theorem ofChars?_stringChars (text : String) (rest : List Char) :
    ofChars? (stringChars text ++ rest) = (ofChars? rest).map (.string (some text) :: ·) :=
  ofChars?_of_next rfl (next?_stringChars text rest)

end Token

theorem itemsChars_cons_cons (item next : Json) (others : List Json) :
    itemsChars (item :: next :: others) =
      item.compactChars ++ ',' :: itemsChars (next :: others) := by
  rw [itemsChars]
  nofun

theorem membersChars_cons_cons (name : String) (member : Json) (next : String × Json)
    (others : List (String × Json)) :
    membersChars ((name, member) :: next :: others) =
      stringChars name ++ ':' :: (member.compactChars ++ ',' :: membersChars (next :: others)) := by
  rw [membersChars]
  nofun

theorem itemTokens_cons_cons (item next : Json) (others : List Json) :
    itemTokens (item :: next :: others) =
      item.tokens ++ .comma :: itemTokens (next :: others) := by
  rw [itemTokens]
  nofun

theorem memberTokens_cons_cons (name : String) (member : Json) (next : String × Json)
    (others : List (String × Json)) :
    memberTokens ((name, member) :: next :: others) =
      .string (some name) :: .colon ::
        (member.tokens ++ .comma :: memberTokens (next :: others)) := by
  rw [memberTokens]
  nofun

open Token (ofChars? ofChars?_of_next ofChars?_stringChars)

mutual

/-- A value as written, with any text after it, has its tokens and then those of the text. -/
theorem ofChars?_compactChars (value : Json) (h : value.HasNoNumber) (rest : List Char) :
    ofChars? (value.compactChars ++ rest) = (ofChars? rest).map (value.tokens ++ ·) := by
  cases value with
  | null => exact ofChars?_of_next rfl rfl
  | bool value => cases value <;> exact ofChars?_of_next rfl rfl
  | number value => exact absurd h id
  | string text => exact ofChars?_stringChars text rest
  | array items =>
    rw [compactChars, tokens, List.cons_append, ofChars?_of_next rfl rfl, List.append_assoc,
      ofChars?_itemsChars items h, List.singleton_append, ofChars?_of_next rfl rfl]
    simp [Function.comp_def]
  | object members =>
    rw [compactChars, tokens, List.cons_append, ofChars?_of_next rfl rfl, List.append_assoc,
      ofChars?_membersChars members h, List.singleton_append, ofChars?_of_next rfl rfl]
    simp [Function.comp_def]

theorem ofChars?_itemsChars (items : List Json) (h : ItemsHaveNoNumber items)
    (rest : List Char) :
    ofChars? (itemsChars items ++ rest) = (ofChars? rest).map (itemTokens items ++ ·) := by
  match items with
  | [] => simp [itemsChars, itemTokens]
  | [item] => exact ofChars?_compactChars item h.1 rest
  | item :: next :: others =>
    rw [itemsChars_cons_cons, itemTokens_cons_cons, List.append_assoc,
      ofChars?_compactChars item h.1, List.cons_append, ofChars?_of_next rfl rfl,
      ofChars?_itemsChars (next :: others) h.2]
    simp [Function.comp_def]

theorem ofChars?_membersChars (members : List (String × Json)) (h : MembersHaveNoNumber members)
    (rest : List Char) :
    ofChars? (membersChars members ++ rest) = (ofChars? rest).map (memberTokens members ++ ·) := by
  match members with
  | [] => simp [membersChars, memberTokens]
  | [(name, member)] =>
    rw [membersChars, memberTokens, List.append_assoc, ofChars?_stringChars, List.cons_append,
      ofChars?_of_next rfl rfl, ofChars?_compactChars member h.1]
    simp [Function.comp_def]
  | (name, member) :: next :: others =>
    rw [membersChars_cons_cons, memberTokens_cons_cons, List.append_assoc, ofChars?_stringChars,
      List.cons_append, ofChars?_of_next rfl rfl, List.append_assoc,
      ofChars?_compactChars member h.1, List.cons_append, ofChars?_of_next rfl rfl,
      ofChars?_membersChars (next :: others) h.2]
    simp [Function.comp_def]

end

/-! ### Documents -/

mutual

/-- Arrays and objects nest at most `depth` deep in a value, and the members of each object have
different names. -/
def Fits (depth : Nat) : Json → Prop
  | .null | .bool _ | .number _ | .string _ => True
  | .array items => 0 < depth ∧ ItemsFit (depth - 1) items
  | .object members =>
    0 < depth ∧ (members.map Prod.fst).Nodup ∧ MembersFit (depth - 1) members

/-- The items of an array fit. -/
def ItemsFit (depth : Nat) : List Json → Prop
  | [] => True
  | item :: rest => Fits depth item ∧ ItemsFit depth rest

/-- The members of an object fit. -/
def MembersFit (depth : Nat) : List (String × Json) → Prop
  | [] => True
  | (_, member) :: rest => Fits depth member ∧ MembersFit depth rest

end

theorem membersFit_iff {depth : Nat} {members : List (String × Json)} :
    MembersFit depth members ↔ ∀ entry ∈ members, entry.2.Fits depth := by
  induction members with
  | nil => exact iff_of_true trivial nofun
  | cons entry rest ih =>
    obtain ⟨name, member⟩ := entry
    rw [MembersFit, ih, List.forall_mem_cons]

namespace Document

mutual

/-- The document that shows a value. -/
def ofJson : Json → Document
  | .null => .null
  | .bool value => .bool value
  | .number value => .number (some value)
  | .string text => .string (some text)
  | .array items => .array (ofItems items)
  | .object members => .object (ofMembers members)

/-- The documents that show the items of an array. -/
def ofItems : List Json → List Document
  | [] => []
  | item :: rest => ofJson item :: ofItems rest

/-- The members of an object as the document shows them. -/
def ofMembers : List (String × Json) → List (Option String × Document)
  | [] => []
  | (name, member) :: rest => (some name, ofJson member) :: ofMembers rest

end

theorem tokens_append_ne (value : Json) (rest after : List Token) :
    value.tokens ++ rest ≠ .closeBracket :: after := by
  cases value <;> simp [tokens]

theorem itemTokens_append_ne {items : List Json} (hne : items ≠ []) (rest after : List Token) :
    itemTokens items ++ rest ≠ .closeBracket :: after := by
  match items with
  | [] => exact absurd rfl hne
  | [item] => exact tokens_append_ne item rest after
  | item :: next :: others =>
    rw [itemTokens_cons_cons, List.append_assoc]
    exact tokens_append_ne item _ after

theorem memberTokens_append_ne {members : List (String × Json)} (hne : members ≠ [])
    (rest after : List Token) : memberTokens members ++ rest ≠ .closeBrace :: after := by
  match members with
  | [] => exact absurd rfl hne
  | [(name, member)] =>
    rw [memberTokens]
    nofun
  | (name, member) :: next :: others =>
    rw [memberTokens_cons_cons]
    nofun

mutual

/-- The tokens of a value are read as the document that shows it. -/
theorem readValue_tokens (value : Json) (stack : List Frame) (rest : List Token) :
    readValue stack (value.tokens ++ rest) = readAfter (ofJson value) stack rest := by
  match value with
  | .null => rfl
  | .bool value => rfl
  | .number value => rfl
  | .string text => rfl
  | .array items =>
    rw [tokens, List.cons_append, List.append_assoc, List.singleton_append]
    -- An array or object that is closed at once never comes to the stack.
    by_cases hne : items = []
    · rw [hne]
      rfl
    · rw [readValue.eq_6 _ _ (itemTokens_append_ne hne _), readValue_itemTokens items hne]
      rfl
  | .object members =>
    rw [tokens, List.cons_append, List.append_assoc, List.singleton_append]
    by_cases hne : members = []
    · rw [hne]
      rfl
    · rw [readValue.eq_8 _ _ (memberTokens_append_ne hne _), readName_memberTokens members hne]
      rfl

/-- The tokens of the items of an array are read after those that were read before. -/
theorem readValue_itemTokens (items : List Json) (hne : items ≠ []) (before : List Document)
    (stack : List Frame) (rest : List Token) :
    readValue (.array before :: stack) (itemTokens items ++ .closeBracket :: rest) =
      readAfter (.array (before.reverse ++ ofItems items)) stack rest := by
  match items with
  | [] => exact absurd rfl hne
  | [item] =>
    rw [itemTokens, readValue_tokens item, readAfter]
    simp [ofItems]
  | item :: next :: others =>
    rw [itemTokens_cons_cons, List.append_assoc, readValue_tokens item, List.cons_append,
      readAfter, readValue_itemTokens (next :: others) nofun]
    simp [ofItems]

/-- The tokens of the members of an object are read after those that were read before. -/
theorem readName_memberTokens (members : List (String × Json)) (hne : members ≠ [])
    (before : List (Option String × Document)) (stack : List Frame) (rest : List Token) :
    readName before stack (memberTokens members ++ .closeBrace :: rest) =
      readAfter (.object (before.reverse ++ ofMembers members)) stack rest := by
  match members with
  | [] => exact absurd rfl hne
  | [(name, member)] =>
    rw [memberTokens, List.cons_append, List.cons_append, readName, readValue_tokens member,
      readAfter]
    simp [ofMembers]
  | (name, member) :: next :: others =>
    rw [memberTokens_cons_cons, List.cons_append, List.cons_append, List.append_assoc, readName,
      readValue_tokens member, List.cons_append, readAfter,
      readName_memberTokens (next :: others) nofun]
    simp [ofMembers]

end

/-- A value as written is read as the document that shows it. -/
theorem ofText?_compact {value : Json} (h : value.HasNoNumber) :
    ofText? value.compact = some (ofJson value) := by
  have htokens : Token.ofChars? value.compact.toList = some value.tokens := by
    have hread := ofChars?_compactChars value h []
    rw [List.append_nil, Token.ofChars?, Option.map_some, List.append_nil] at hread
    rw [compact, String.toList_ofList, hread]
  have hvalue := readValue_tokens value [] []
  rw [List.append_nil, readAfter] at hvalue
  rw [ofText?, htokens, Option.bind_some, hvalue]

mutual

/-- The document that shows a value has that value. -/
theorem value?_ofJson (value : Json) (depth : Nat) (h : value.Fits depth) :
    value? depth (ofJson value) = some value := by
  match value with
  | .null => rfl
  | .bool value => rfl
  | .number value => rfl
  | .string text => rfl
  | .array items =>
    obtain ⟨hdepth, hitems⟩ := h
    rw [ofJson, value?, if_neg (by omega), values?_ofItems items _ hitems, Option.map_some]
  | .object members =>
    obtain ⟨hdepth, hnodup, hmembers⟩ := h
    rw [ofJson, value?, if_neg (by omega), members?_ofMembers members _ hmembers, Option.map_some,
      Entries.ofList_of_nodup hnodup]

theorem values?_ofItems (items : List Json) (depth : Nat) (h : ItemsFit depth items) :
    values? depth (ofItems items) = some items := by
  match items with
  | [] => rfl
  | item :: rest =>
    rw [ofItems, values?, value?_ofJson item depth h.1, values?_ofItems rest depth h.2]
    rfl

theorem members?_ofMembers (members : List (String × Json)) (depth : Nat)
    (h : MembersFit depth members) : members? depth (ofMembers members) = some members := by
  match members with
  | [] => rfl
  | (name, member) :: rest =>
    rw [ofMembers, members?, value?_ofJson member depth h.1, members?_ofMembers rest depth h.2]
    rfl

end

mutual

/-- The value of a document fits. -/
theorem fits_of_value? (document : Document) {depth : Nat} {value : Json}
    (h : value? depth document = some value) : value.Fits depth := by
  match document with
  | .null =>
    obtain rfl := Option.some.inj h
    trivial
  | .bool _ =>
    obtain rfl := Option.some.inj h
    trivial
  | .number _ =>
    obtain ⟨_, -, rfl⟩ := Option.map_eq_some_iff.mp h
    trivial
  | .string _ =>
    obtain ⟨_, -, rfl⟩ := Option.map_eq_some_iff.mp h
    trivial
  | .array items =>
    rw [value?, Option.ite_none_left_eq_some] at h
    obtain ⟨hdepth, h⟩ := h
    obtain ⟨values, hvalues, rfl⟩ := Option.map_eq_some_iff.mp h
    exact ⟨Nat.pos_of_ne_zero hdepth, itemsFit_of_values? items hvalues⟩
  | .object members =>
    rw [value?, Option.ite_none_left_eq_some] at h
    obtain ⟨hdepth, h⟩ := h
    obtain ⟨written, hwritten, rfl⟩ := Option.map_eq_some_iff.mp h
    refine ⟨Nat.pos_of_ne_zero hdepth, Entries.nodup_keys_ofList _, ?_⟩
    -- What is kept of the members was written.
    have hfit := membersFit_iff.mp (membersFit_of_members? members hwritten)
    exact membersFit_iff.mpr fun entry hentry => hfit entry (Entries.mem_of_mem_ofList hentry)

theorem itemsFit_of_values? (items : List Document) {depth : Nat} {values : List Json}
    (h : values? depth items = some values) : ItemsFit depth values := by
  match items with
  | [] =>
    obtain rfl := Option.some.inj h
    trivial
  | item :: rest =>
    rw [values?] at h
    obtain ⟨value, hvalue, h⟩ := Option.bind_eq_some_iff.mp h
    obtain ⟨others, hothers, h⟩ := Option.bind_eq_some_iff.mp h
    obtain rfl := Option.some.inj h
    exact ⟨fits_of_value? item hvalue, itemsFit_of_values? rest hothers⟩

theorem membersFit_of_members? (members : List (Option String × Document)) {depth : Nat}
    {written : List (String × Json)} (h : members? depth members = some written) :
    MembersFit depth written := by
  match members with
  | [] =>
    obtain rfl := Option.some.inj h
    trivial
  | (name, member) :: rest =>
    rw [members?] at h
    obtain ⟨key, -, h⟩ := Option.bind_eq_some_iff.mp h
    obtain ⟨value, hvalue, h⟩ := Option.bind_eq_some_iff.mp h
    obtain ⟨others, hothers, h⟩ := Option.bind_eq_some_iff.mp h
    obtain rfl := Option.some.inj h
    exact ⟨fits_of_value? member hvalue, membersFit_of_members? rest hothers⟩

end

end Document

/-- A value as written is read back. -/
theorem ofText?_compact {value : Json} (hnumbers : value.HasNoNumber)
    (hfits : value.Fits Document.maxDepth) : ofText? value.compact = some value := by
  rw [ofText?, Document.ofText?_compact hnumbers, Option.bind_some,
    Document.value?_ofJson value _ hfits]

end Json

end MibDrivers
