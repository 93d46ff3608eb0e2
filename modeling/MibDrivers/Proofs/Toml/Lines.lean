import MibDrivers.Proofs.Toml.Strings
import MibDrivers.Toml.Document

/-!
# Written TOML lines are read back

A line opens a section or sets a bare key to a string or to a list of strings. Each such line is
read as one statement, and then the rest of the document is read. The steps that a value may take
within one another are bounded by the length of the text, and the value takes no more of them than
it has characters.

## Main definitions

* `Toml.Shows` — a text that is read as a value
* `Toml.isBareKey` — a key that needs no quotes

## Main results

* `Toml.shows_stringChars`, `Toml.shows_listChars` — strings and lists as written
* `Toml.statements?_header`, `Toml.statements?_assignment` — a line is read as one statement
-/

namespace MibDrivers

namespace Toml

variable {c : Char} {cs chars rest : List Char} {text key name : String} {value : Value}

/-! ### Values -/

/-- The text `chars` is read as a value, whatever follows that begins with no quote. -/
structure Shows (chars : List Char) (value : Value) : Prop where
  dropSpace_append : ∀ rest, dropSpace (chars ++ rest) = chars ++ rest
  valueWithin?_append : ∀ fuel rest, chars.length ≤ fuel → BeginsUnquoted rest →
    valueWithin? fuel maxDepth (chars ++ rest) = some (value, rest)

/-- A string as written begins with a quote. -/
theorem stringChars_eq_cons (text : String) :
    ∃ quote content, (quote = '"' ∨ quote = '\'') ∧ stringChars text = quote :: content := by
  unfold stringChars
  dsimp only
  split
  · exact ⟨_, _, .inl rfl, rfl⟩
  · exact ⟨_, _, .inr rfl, rfl⟩
  · exact ⟨_, _, .inl rfl, rfl⟩
  · exact ⟨_, _, .inr rfl, rfl⟩

theorem scalar?_stringChars (text : String) (h : BeginsUnquoted rest) :
    scalar? (stringChars text ++ rest) = some (.string text, rest) := by
  rw [scalar?, string?_stringChars text h]
  simp only [String.ofList_toList]

theorem stringChars_append_ne (text : String) (h : c ≠ '"' ∧ c ≠ '\'') (rest after : List Char) :
    stringChars text ++ rest ≠ c :: after := by
  obtain ⟨quote, content, hquote, heq⟩ := stringChars_eq_cons text
  rw [heq]
  rintro ⟨⟩
  exact hquote.elim h.1 h.2

theorem valueWithin?_stringChars (fuel depth : Nat) (text : String) (h : BeginsUnquoted rest) :
    valueWithin? (fuel + 1) depth (stringChars text ++ rest) = some (.string text, rest) := by
  rw [valueWithin?.eq_4 _ _ _ (stringChars_append_ne text (by decide) rest)
    (stringChars_append_ne text (by decide) rest), scalar?_stringChars text h]

theorem shows_stringChars (text : String) : Shows (stringChars text) (.string text) where
  dropSpace_append rest := by
    obtain ⟨quote, content, rfl | rfl, heq⟩ := stringChars_eq_cons text <;> rw [heq] <;> rfl
  valueWithin?_append fuel rest hfuel hrest := by
    have hone : 1 ≤ fuel := by
      obtain ⟨quote, content, -, heq⟩ := stringChars_eq_cons text
      rw [heq, List.length_cons] at hfuel
      omega
    obtain ⟨fuel, rfl⟩ := Nat.exists_eq_add_of_le' hone
    exact valueWithin?_stringChars fuel maxDepth text hrest

theorem dropFiller_stringChars (text : String) (rest : List Char) :
    dropFiller false (stringChars text ++ rest) = stringChars text ++ rest := by
  obtain ⟨quote, content, rfl | rfl, heq⟩ := stringChars_eq_cons text <;>
    simp [heq, dropFiller, isSpace]

/-! ### Lists -/

/-- An item of a list on a line of its own. -/
def itemLine (item : String) : List Char := "    ".toList ++ stringChars item ++ [',', '\n']

theorem dropFiller_itemLine (item : String) (rest : List Char) :
    dropFiller false ('\n' :: (itemLine item ++ rest)) =
      stringChars item ++ ',' :: '\n' :: rest := by
  simp [itemLine, dropFiller, isSpace, dropFiller_stringChars]

theorem beginsUnquoted_cons (h : c ≠ '"' ∧ c ≠ '\'') : BeginsUnquoted (c :: rest) := by
  rintro _ ⟨⟩
  exact h

theorem itemsWithin?_end (fuel depth : Nat) (hcs : dropFiller false cs = ']' :: rest) :
    itemsWithin? (fuel + 1) depth cs = some ([], rest) := by
  rw [itemsWithin?.eq_2, hcs]
  rfl

theorem itemsWithin?_comma (fuel depth : Nat)
    (hcs : dropFiller false cs = stringChars text ++ ',' :: rest) :
    itemsWithin? (fuel + 2) depth cs =
      (itemsWithin? (fuel + 1) depth rest).map fun (items, after) =>
        (.string text :: items, after) := by
  rw [itemsWithin?.eq_2, hcs]
  split
  · next hstart => exact absurd hstart (stringChars_append_ne text (by decide) _ _)
  · rw [valueWithin?_stringChars fuel depth text (beginsUnquoted_cons (by decide))]
    change (itemsWithin? (fuel + 1) depth rest).bind _ = _
    cases itemsWithin? (fuel + 1) depth rest <;> rfl

theorem itemsWithin?_bracket (fuel depth : Nat)
    (hcs : dropFiller false cs = stringChars text ++ ']' :: rest) :
    itemsWithin? (fuel + 2) depth cs = some ([.string text], rest) := by
  rw [itemsWithin?.eq_2, hcs]
  split
  · next hstart => exact absurd hstart (stringChars_append_ne text (by decide) _ _)
  · rw [valueWithin?_stringChars fuel depth text (beginsUnquoted_cons (by decide))]
    rfl

/-- Items on lines of their own are read up to the closing bracket. -/
theorem itemsWithin?_itemLines {fuel : Nat} (depth : Nat) {items : List String}
    (h : items.length < fuel) (rest : List Char) :
    itemsWithin? fuel depth ('\n' :: (items.flatMap itemLine ++ ']' :: rest)) =
      some (items.map .string, rest) := by
  -- A step takes an item up to its comma; the line end after it belongs to the next step.
  induction items generalizing fuel with
  | nil =>
    obtain ⟨fuel, rfl⟩ := Nat.exists_eq_add_of_le' h
    exact itemsWithin?_end fuel depth rfl
  | cons item items ih =>
    have htwo : 2 ≤ fuel := by
      rw [List.length_cons] at h
      omega
    obtain ⟨fuel, rfl⟩ := Nat.exists_eq_add_of_le' htwo
    rw [List.flatMap_cons, List.append_assoc,
      itemsWithin?_comma fuel depth (dropFiller_itemLine item _), ih (Nat.lt_of_succ_lt_succ h)]
    rfl

theorem length_le_itemLines (items : List String) :
    items.length ≤ (items.flatMap itemLine).length := by
  induction items with
  | nil => exact Nat.le.refl
  | cons item items ih =>
    simp only [List.flatMap_cons, List.length_append, List.length_cons, itemLine]
    omega

/-- A list as written is a bracket and a text that is read as its items. -/
theorem listChars_eq_cons (items : List String) :
    ∃ chars, listChars items = '[' :: chars ∧
      ∀ fuel depth rest, chars.length ≤ fuel →
        itemsWithin? fuel depth (chars ++ rest) = some (items.map .string, rest) := by
  match items with
  | [] =>
    refine ⟨_, rfl, fun fuel depth rest hfuel => ?_⟩
    obtain ⟨fuel, rfl⟩ := Nat.exists_eq_add_of_le' hfuel
    exact itemsWithin?_end fuel depth rfl
  | [item] =>
    refine ⟨_, rfl, fun fuel depth rest hfuel => ?_⟩
    have htwo : 2 ≤ fuel := by
      obtain ⟨quote, content, -, heq⟩ := stringChars_eq_cons item
      simp only [heq, List.length_append, List.length_cons] at hfuel
      omega
    obtain ⟨fuel, rfl⟩ := Nat.exists_eq_add_of_le' htwo
    rw [List.append_assoc]
    exact itemsWithin?_bracket fuel depth (dropFiller_stringChars item _)
  | item :: next :: others =>
    refine ⟨'\n' :: ((item :: next :: others).flatMap itemLine ++ [']']), rfl,
      fun fuel depth rest hfuel => ?_⟩
    have hlength := length_le_itemLines (item :: next :: others)
    rw [List.length_cons, List.length_append] at hfuel
    rw [List.cons_append, List.append_assoc]
    exact itemsWithin?_itemLines depth (by omega) rest

theorem shows_listChars (items : List String) :
    Shows (listChars items) (.list (items.map .string)) := by
  obtain ⟨chars, heq, hitems⟩ := listChars_eq_cons items
  refine ⟨fun rest => by rw [heq]; rfl, fun fuel rest hfuel _ => ?_⟩
  rw [heq, List.length_cons] at hfuel
  cases fuel with
  | zero => cases hfuel
  | succ fuel =>
    rw [heq, List.cons_append, valueWithin?.eq_2, if_neg (by decide),
      hitems fuel _ rest (Nat.le_of_succ_le_succ hfuel)]
    rfl

/-! ### Keys -/

/-- A key that needs no quotes. -/
def isBareKey (key : String) : Bool := !key.toList.isEmpty && key.toList.all isKeyChar

theorem isBareKey_iff : isBareKey key ↔ key.toList ≠ [] ∧ ∀ c ∈ key.toList, isKeyChar c := by
  simp [isBareKey]

theorem exists_cons_of_isBareKey (h : isBareKey key) :
    ∃ c cs, key.toList = c :: cs ∧ isKeyChar c := by
  obtain ⟨hne, hall⟩ := isBareKey_iff.mp h
  cases hkey : key.toList with
  | nil => exact absurd hkey hne
  | cons c cs => exact ⟨c, cs, rfl, hall c (hkey ▸ List.mem_cons_self)⟩

theorem ne_of_isKeyChar (h : isKeyChar c) (other : Char) (hother : isKeyChar other = false) :
    c ≠ other := by
  rintro rfl
  exact Bool.false_ne_true (hother.symm.trans h)

theorem isSpace_of_isKeyChar (h : isKeyChar c) : isSpace c = false := by
  simp [isSpace, ne_of_isKeyChar h ' ' rfl, ne_of_isKeyChar h '\t' rfl]

theorem key?_append (h : isBareKey key) (hrest : ∀ c ∈ rest.head?, isKeyChar c = false) :
    key? (key.toList ++ rest) = some (key, rest) := by
  obtain ⟨hnonempty, hall⟩ := isBareKey_iff.mp h
  obtain ⟨c, cs, heq, hc⟩ := exists_cons_of_isBareKey h
  have hne (other : Char) (hother : isKeyChar other = false) (after : List Char) :
      key.toList ++ rest ≠ other :: after := by
    rw [heq]
    rintro ⟨⟩
    exact ne_of_isKeyChar hc _ hother rfl
  have htake : rest.takeWhile isKeyChar = [] := by
    cases rest with
    | nil => rfl
    | cons d rest => simp [hrest d rfl]
  have hdrop : rest.dropWhile isKeyChar = rest := by
    cases rest with
    | nil => rfl
    | cons d rest => simp [hrest d rfl]
  rw [key?.eq_3 _ (hne '"' rfl) (hne '\'' rfl), List.takeWhile_append_of_pos hall,
    List.dropWhile_append_of_pos hall, htake, hdrop, List.append_nil]
  split
  · next hnil => exact absurd hnil hnonempty
  · rw [String.ofList_toList]

theorem dottedKey?_append {room : Nat} (hroom : 0 < room) (rest : List Char) (h : isBareKey key)
    (hrest : ∀ c ∈ rest.head?, isKeyChar c = false)
    (hdot : ∀ after, dropSpace rest ≠ '.' :: after) :
    dottedKey? room (key.toList ++ rest) = some ([key], dropSpace rest) := by
  obtain ⟨room, rfl⟩ := Nat.exists_eq_add_of_le' hroom
  have hspace : dropSpace (key.toList ++ rest) = key.toList ++ rest := by
    obtain ⟨c, cs, heq, hc⟩ := exists_cons_of_isBareKey h
    rw [heq, List.cons_append, dropSpace, List.dropWhile_cons_of_neg]
    simp [isSpace_of_isKeyChar hc]
  rw [dottedKey?.eq_2, hspace, key?_append h hrest, Option.bind_eq_bind, Option.bind_some]
  dsimp only
  split
  · next hstart => exact absurd hstart (hdot _)
  · rfl

/-! ### Statements -/

/-- The line that sets a key, up to its end. -/
theorem assignment?_append (hkey : isBareKey key) (h : Shows chars value) (rest : List Char)
    (hrest : BeginsUnquoted rest) :
    assignment? (key.toList ++ ' ' :: '=' :: ' ' :: (chars ++ rest)) =
      some (([], key, value), rest) := by
  have hdotted : dottedKey? maxDepth (key.toList ++ ' ' :: '=' :: ' ' :: (chars ++ rest)) =
      some ([key], '=' :: ' ' :: (chars ++ rest)) :=
    dottedKey?_append (by decide) _ hkey (by rintro _ ⟨⟩; rfl) (by nofun)
  -- The steps are counted for the whole line, of which the value is only a part.
  have hfuel : chars.length ≤
      2 * (key.toList ++ ' ' :: '=' :: ' ' :: (chars ++ rest)).length + 3 := by
    simp only [List.length_append, List.length_cons]
    omega
  have hvalue := h.valueWithin?_append _ rest hfuel hrest
  have hspace : dropSpace (' ' :: (chars ++ rest)) = chars ++ rest := h.dropSpace_append rest
  rw [assignment?, enoughFuel, assignmentWithin?.eq_2, hdotted]
  change (valueWithin? _ maxDepth (dropSpace (' ' :: (chars ++ rest)))).bind _ = _
  rw [hspace, hvalue]
  rfl

theorem statements?_cons {statement : Statement} (hspace : isSpace c = false)
    (hline : c ∉ ['\n', '\r', '#']) (h : statement? (c :: cs) = some (statement, rest))
    (hlength : rest.length < (c :: cs).length) :
    statements? (c :: cs) = (statements? rest).map (statement :: ·) := by
  have hstart : ¬ (c = '\n' || c = '\r' || c = '#') := by simpa [and_assoc] using hline
  rw [statements?.eq_2, if_neg (by simp [hspace]), if_neg hstart, h]
  simp only [Option.map_some, dif_pos hlength, List.singleton_append]

theorem statements?_blank (rest : List Char) : statements? ('\n' :: rest) = statements? rest := by
  have hend : lineEnd? ('\n' :: rest) = some rest := rfl
  rw [statements?.eq_2, if_neg (by decide), if_pos (by decide), hend]
  simp

/-- The line that opens a section is read as a header. -/
theorem statements?_header (h : isBareKey name) (rest : List Char) :
    statements? ('[' :: (name.toList ++ ']' :: '\n' :: rest)) =
      (statements? rest).map (.table [] name :: ·) := by
  have hdotted : dottedKey? maxDepth (name.toList ++ ']' :: '\n' :: rest) =
      some ([name], ']' :: '\n' :: rest) :=
    dottedKey?_append (by decide) _ h (by rintro _ ⟨⟩; rfl) (by nofun)
  have hheader : header? (name.toList ++ ']' :: '\n' :: rest) =
      some (.table [] name, '\n' :: rest) := by
    obtain ⟨c, cs, heq, hc⟩ := exists_cons_of_isBareKey h
    rw [header?.eq_2, hdotted]
    · rfl
    · rw [heq]
      rintro _ ⟨⟩
      exact ne_of_isKeyChar hc _ rfl rfl
  refine statements?_cons rfl (by decide) ?_ ?_
  · rw [statement?.eq_1, hheader]
    rfl
  · simp only [List.length_cons, List.length_append]
    omega

/-- The line that sets a key is read as an assignment. -/
theorem statements?_assignment (hkey : isBareKey key) (h : Shows chars value) (rest : List Char) :
    statements? (key.toList ++ ' ' :: '=' :: ' ' :: (chars ++ '\n' :: rest)) =
      (statements? rest).map (.assignment ([], key, value) :: ·) := by
  have hassignment := assignment?_append hkey h ('\n' :: rest)
    (beginsUnquoted_cons (by decide))
  obtain ⟨c, cs, heq, hc⟩ := exists_cons_of_isBareKey hkey
  rw [heq, List.cons_append] at hassignment ⊢
  refine statements?_cons (isSpace_of_isKeyChar hc) ?_ ?_ ?_
  · simp [ne_of_isKeyChar hc '\n' rfl, ne_of_isKeyChar hc '\r' rfl, ne_of_isKeyChar hc '#' rfl]
  · rw [statement?.eq_2, hassignment]
    · rfl
    · rintro _ ⟨⟩
      exact ne_of_isKeyChar hc _ rfl rfl
  · simp only [List.length_cons, List.length_append]
    omega

end Toml

end MibDrivers
