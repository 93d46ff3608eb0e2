import MibDrivers.Naming.Identifier
import MibDrivers.Proofs.Naming.Registry

/-!
# Derived names are legal identifiers

An identifier of the generated source is a word of ASCII letters, digits and `_` that is
neither `_` nor kept by the language, or, after the prefix `r#`, nearly any word. The name of an
object gives such identifiers, whatever is taken: what cannot stand in a word is replaced, a
word that is kept is escaped, and no word that is kept ends in a digit or in `_`, so what a
number or a `_` was added to is never one. Two words that the language keeps are in none of the
tables by which names are escaped, `abstract` and `become`. They are handed out as they are, as
names of methods for the objects of these names.

## Main definitions

* `Naming.IsPlain`, `Naming.IsRaw` — the identifiers without and with the prefix
* `Naming.IsObjectName` — the names that objects have in a module

## Main results

* `Naming.className_not_kept`, `Naming.isPlain_variant_className` — names of types
* `Naming.allocate_legal_iff` — which names are legal identifiers
-/

namespace MibDrivers

namespace Naming

/-! ### Identifiers -/

/-- The ASCII letters. -/
def isLetter (c : Char) : Bool := ('A' ≤ c && c ≤ 'Z') || ('a' ≤ c && c ≤ 'z')

/-- The characters of words: ASCII letters, digits and `_`. -/
def isWordChar (c : Char) : Bool := isLetter c || Text.isDigit c || c = '_'

/-- A letter or `_`, and then letters, digits and `_`. -/
def IsWord (word : String) : Prop :=
  ∃ c rest, word.toList = c :: rest ∧ (isLetter c || c = '_') ∧ ∀ x ∈ rest, isWordChar x

/-- The words that the language keeps for itself, first those in use and then those that are
reserved. -/
def keptWords : List String := [
  "as", "async", "await", "break", "const", "continue", "crate", "dyn", "else", "enum", "extern",
  "false", "fn", "for", "if", "impl", "in", "let", "loop", "match", "mod", "move", "mut", "pub",
  "ref", "return", "self", "Self", "static", "struct", "super", "trait", "true", "type", "unsafe",
  "use", "where", "while",
  "abstract", "become", "box", "do", "final", "macro", "override", "priv", "try", "typeof",
  "unsized", "virtual", "yield"]

/-- An identifier without prefix: a word that is neither `_` nor kept. -/
structure IsPlain (name : String) : Prop where
  word : IsWord name
  ne_underscore : name ≠ "_"
  not_kept : name ∉ keptWords

/-- An identifier with the prefix: any word may follow but `_` and those that name a place in a
path. -/
def IsRaw (name : String) : Prop :=
  ∃ word, name = "r#" ++ word ∧ IsWord word ∧ word ≠ "_" ∧
    word ∉ ["self", "Self", "super", "crate"]

/-- A name that an object may have: a letter, and then letters, digits, `-` and `_`. -/
def IsObjectName (name : String) : Prop :=
  ∃ c rest, name.toList = c :: rest ∧ isLetter c ∧ ∀ x ∈ rest, isWordChar x ∨ x = '-'

variable {name word candidate : String} {names : NameRegistry}

/-! ### Words -/

theorem IsWord.append (h : IsWord word) {more : String} (hmore : ∀ c ∈ more.toList, isWordChar c) :
    IsWord (word ++ more) := by
  obtain ⟨c, rest, hword, hfirst, hrest⟩ := h
  refine ⟨c, rest ++ more.toList, by simp [hword], hfirst, ?_⟩
  intro x hx
  exact (List.mem_append.mp hx).elim (hrest x) (hmore x)

/-- What is added to a word ends in a digit or in `_`. -/
def isAddition (c : Char) : Bool := Text.isDigit c || c = '_'

/-- No word that is kept ends in what may be added to a word. -/
theorem endsIn_of_mem_keptWords (h : word ∈ keptWords) : Text.endsIn isAddition word = false := by
  have hall : ∀ word ∈ keptWords, Text.endsIn isAddition word = false := by decide
  exact hall word h

/-- A word with more characters of words after it is an identifier, if the last one is a digit
or `_`. -/
theorem IsWord.isPlain_append (h : IsWord word) {more : String}
    (hmore : ∀ c ∈ more.toList, isWordChar c) (hend : Text.endsIn isAddition more) :
    IsPlain (word ++ more) := by
  refine ⟨h.append hmore, ?_, fun hkept => ?_⟩
  · -- A word and something after it are two characters at least.
    obtain ⟨c, rest, hword, -, -⟩ := h
    intro heq
    have hlist := congrArg String.toList heq
    rw [String.toList_append, hword] at hlist
    have hlength := congrArg List.length hlist
    have hpos := List.length_pos_of_ne_nil (Text.toList_ne_nil_of_endsIn hend)
    have hone : "_".toList.length = 1 := by decide
    rw [List.length_append, List.length_cons, hone] at hlength
    omega
  · have hnone := endsIn_of_mem_keptWords hkept
    rw [Text.endsIn_append word hend] at hnone
    cases hnone

/-- A word with a number after it is an identifier. -/
theorem IsWord.isPlain_numbered (h : IsWord word) (n : Nat) :
    IsPlain (NameRegistry.numbered word n) := by
  refine h.isPlain_append (fun c hc => ?_) ?_
  · rw [String.toList_ofList] at hc
    simp [isWordChar, Text.isDigit_of_mem_decimal hc]
  · have hend := NameRegistry.endsIn_decimal n
    exact Text.endsIn_mono (fun c hdigit => by simp [isAddition, hdigit]) hend

/-- A word with `_` after it is an identifier. -/
theorem IsWord.isPlain_escaped (h : IsWord word) : IsPlain (word ++ "_") := by
  refine h.isPlain_append (fun c hc => ?_) (by decide)
  obtain rfl : c = '_' := by simpa using hc
  rfl

/-- With the prefix, an identifier is one as well. -/
theorem IsPlain.isRaw (h : IsPlain word) : IsRaw ("r#" ++ word) := by
  have hsub : ["self", "Self", "super", "crate"] ⊆ keptWords := by decide
  exact ⟨word, rfl, h.word, h.ne_underscore, fun hmem => h.not_kept (hsub hmem)⟩

/-! ### Candidates -/

/-- The name of the type for a branch before it is escaped. -/
def typeCandidate (name : String) : String :=
  String.ofList ((capitalize name.toList).map identifierChar)

/-- The name of the method for an object before it is escaped. -/
def methodCandidate (name : String) : String :=
  String.ofList ((separateWords name.toList).map identifierChar)

theorem className_cases (name : String) :
    className name = typeCandidate name ++ "_" ∨
      className name = typeCandidate name ∧ typeCandidate name ∉ keywords ++ pathKeywords := by
  have hname : className name =
      if typeCandidate name ∈ keywords || typeCandidate name ∈ pathKeywords then
        typeCandidate name ++ "_" else typeCandidate name := rfl
  by_cases hkept : typeCandidate name ∈ keywords ++ pathKeywords
  · exact .inl (hname.trans (if_pos (by simpa using hkept)))
  · exact .inr ⟨hname.trans (if_neg (by simpa using hkept)), hkept⟩

theorem methodName_cases (name : String) :
    (methodName name = "r#" ++ methodCandidate name ∧ methodCandidate name ∈ keywords) ∨
      methodName name = methodCandidate name ++ "_" ∨
      methodName name = methodCandidate name ∧
        methodCandidate name ∉ keywords ++ pathKeywords := by
  by_cases hkeyword : methodCandidate name ∈ keywords
  · exact .inl ⟨if_pos hkeyword, hkeyword⟩
  have hrest : methodName name =
      if methodCandidate name ∈ pathKeywords || methodCandidate name = constructor then
        methodCandidate name ++ "_" else methodCandidate name := if_neg hkeyword
  by_cases hescaped : methodCandidate name ∈ pathKeywords || methodCandidate name = constructor
  · exact .inr (.inl (hrest.trans (if_pos hescaped)))
  · refine .inr (.inr ⟨hrest.trans (if_neg hescaped), ?_⟩)
    simp only [Bool.or_eq_true, decide_eq_true_eq, not_or] at hescaped
    simp [hkeyword, hescaped.1]

/-- No table of keywords has a word that ends in `_`. -/
theorem escaped_not_kept (word : String) : word ++ "_" ∉ keywords ++ pathKeywords := by
  intro hmem
  have hall : ∀ word ∈ keywords ++ pathKeywords, Text.endsIn isAddition word = false := by
    decide
  have hnone := hall _ hmem
  rw [Text.endsIn_append word (by decide)] at hnone
  cases hnone

/-- The name of a type is in no table of keywords. -/
theorem className_not_kept (name : String) : className name ∉ keywords ++ pathKeywords := by
  rcases className_cases name with hname | ⟨hname, hnot⟩
  · rw [hname]
    exact escaped_not_kept _
  · rwa [hname]

theorem isWordChar_identifierChar (c : Char) : isWordChar (identifierChar c) := by
  unfold identifierChar
  split_ifs with h
  · simpa [isWordChar, isLetter, Text.isDigit, Text.isAsciiAlphanumeric] using h
  · rfl

theorem identifierChar_cases (c : Char) : identifierChar c = c ∨ identifierChar c = '_' := by
  unfold identifierChar
  split_ifs <;> simp

theorem identifierChar_of_isLetter {c : Char} (h : isLetter c) : identifierChar c = c := by
  have halnum : Text.isAsciiAlphanumeric c := Bool.or_eq_true_iff.mpr (.inl h)
  simp [identifierChar, halnum]

/-- Where no `_` comes out, nothing was replaced. -/
theorem eq_of_map_identifierChar {cs ds : List Char} (h : cs.map identifierChar = ds)
    (hnone : '_' ∉ ds) : cs = ds := by
  rw [← h, List.map_congr_left (g := id), List.map_id]
  intro c hc
  refine (identifierChar_cases c).resolve_right fun hreplaced => hnone ?_
  rw [← h, ← hreplaced]
  exact List.mem_map_of_mem hc

/-- Where no `_` comes out, no words were separated and nothing was replaced. -/
theorem eq_of_methodCandidate (h : methodCandidate name = word) (hnone : '_' ∉ word.toList) :
    name = word := by
  have hlist : (separateWords name.toList).map identifierChar = word.toList := by
    rw [← h, methodCandidate, String.toList_ofList]
  have hwords := eq_of_map_identifierChar hlist hnone
  have hlower : ∀ c ∈ name.toList, (if Text.isUppercase c then '_' :: Text.lowercase c else [c]) =
      [c] := by
    intro c hc
    refine if_neg fun hupper => hnone ?_
    rw [← hwords]
    exact List.mem_flatMap.mpr ⟨c, hc, by simp [hupper]⟩
  rw [← String.toList_inj, ← hwords, separateWords, List.flatMap_congr hlower]
  simp

/-! ### Names of objects -/

/-- A name can be checked character by character. -/
theorem isObjectName_of_all {c : Char} {rest : List Char} (hname : name.toList = c :: rest)
    (hfirst : isLetter c) (hrest : rest.all fun x => isWordChar x || x = '-') :
    IsObjectName name :=
  ⟨c, rest, hname, hfirst, fun x hx => by simpa using List.all_eq_true.mp hrest x hx⟩

theorem toNat_lt_of_isLetter {c : Char} (h : isLetter c) : c.toNat < 128 := by
  simp only [isLetter, Bool.or_eq_true, Bool.and_eq_true, decide_eq_true_eq] at h
  rcases h with ⟨-, hle⟩ | ⟨-, hle⟩
  · exact lt_of_le_of_lt (show c.toNat ≤ 'Z'.toNat from hle) (by decide)
  · exact lt_of_le_of_lt (show c.toNat ≤ 'z'.toNat from hle) (by decide)

/-- What holds of the first 128 characters by their numbers holds of each of them. -/
theorem forall_ascii (P : Char → Prop) (h : ∀ n < 128, P (Char.ofNat n)) {c : Char}
    (hc : c.toNat < 128) : P c := by
  have hn := h c.toNat hc
  rwa [Char.ofNat_toNat] at hn

theorem uppercase_of_isLetter {c : Char} (h : isLetter c) :
    Text.uppercase c = [c.toUpper] ∧ isLetter c.toUpper ∧ c.toUpper.isUpper := by
  refine forall_ascii (fun c => isLetter c → Text.uppercase c = [c.toUpper] ∧
    isLetter c.toUpper ∧ c.toUpper.isUpper) ?_ (toNat_lt_of_isLetter h) h
  decide

theorem lowercase_of_isLetter {c : Char} (h : isLetter c) : Text.lowercase c = [c.toLower] := by
  rw [Text.lowercase, if_pos (toNat_lt_of_isLetter h)]

theorem isWord_ofList {c : Char} (hfirst : isLetter c || c = '_') (rest : List Char) :
    IsWord (String.ofList (c :: rest.map identifierChar)) := by
  refine ⟨c, rest.map identifierChar, String.toList_ofList, hfirst, ?_⟩
  intro x hx
  obtain ⟨y, -, rfl⟩ := List.mem_map.mp hx
  exact isWordChar_identifierChar y

/-- The candidate for a type is a word that begins with an upper case letter. -/
theorem IsObjectName.typeCandidate (h : IsObjectName name) :
    IsWord (typeCandidate name) ∧
      (Naming.typeCandidate name).toList.head?.any Char.isUpper := by
  obtain ⟨c, rest, hname, hletter, -⟩ := h
  obtain ⟨hupper, hfirst, hisUpper⟩ := uppercase_of_isLetter hletter
  have hcandidate : Naming.typeCandidate name =
      String.ofList (c.toUpper :: rest.map identifierChar) := by
    rw [Naming.typeCandidate, hname, capitalize, hupper, List.singleton_append, List.map_cons,
      identifierChar_of_isLetter hfirst]
  rw [hcandidate]
  refine ⟨isWord_ofList (by simp [hfirst]) rest, ?_⟩
  simpa using hisUpper

/-- The candidate for a method is a word, and not only `_`. -/
theorem IsObjectName.methodCandidate (h : IsObjectName name) :
    IsWord (methodCandidate name) ∧ Naming.methodCandidate name ≠ "_" := by
  obtain ⟨c, rest, hname, hletter, -⟩ := h
  have hne : c ≠ '_' := by
    rintro rfl
    cases hletter
  by_cases hupper : Text.isUppercase c
  -- A capital has a `_` before it at the start of a name as well.
  · have hcandidate : Naming.methodCandidate name =
        String.ofList ('_' :: (c.toLower :: separateWords rest).map identifierChar) := by
      rw [Naming.methodCandidate, hname, separateWords, List.flatMap_cons, if_pos hupper,
        lowercase_of_isLetter hletter]
      rfl
    rw [hcandidate]
    refine ⟨isWord_ofList (by decide) _, fun heq => ?_⟩
    have hlist := congrArg String.toList heq
    simp at hlist
  · have hcandidate : Naming.methodCandidate name =
        String.ofList (c :: (separateWords rest).map identifierChar) := by
      rw [Naming.methodCandidate, hname, separateWords, List.flatMap_cons, if_neg hupper,
        List.singleton_append, List.map_cons, identifierChar_of_isLetter hletter]
      rfl
    rw [hcandidate]
    refine ⟨isWord_ofList (by simp [hletter]) _, fun heq => ?_⟩
    have hlist := congrArg String.toList heq
    rw [String.toList_ofList] at hlist
    exact hne (List.cons.inj hlist).1

/-! ### Names that are handed out -/

/-- An identifier of either kind. -/
def IsLegal (name : String) : Prop := IsPlain name ∨ IsRaw name

/-- The words that the language keeps and that no table of keywords has. -/
def overlookedWords : List String := ["abstract", "become"]

theorem keptWords_subset : keptWords ⊆ keywords ++ pathKeywords ++ overlookedWords := by
  decide

theorem not_isLegal_of_overlooked (h : word ∈ overlookedWords) : ¬ IsLegal word := by
  have hkept : overlookedWords ⊆ keptWords := by decide
  have hfirst : ∀ word ∈ overlookedWords, 'r' ∉ word.toList.head? := by decide
  rintro (hplain | ⟨rest, rfl, -⟩)
  · exact hplain.not_kept (hkept h)
  · exact hfirst _ h (by simp)

/-- Whatever is taken, the name for a type is an identifier without prefix. -/
theorem isPlain_className (h : IsObjectName name) : IsPlain (className name) := by
  obtain ⟨hword, hupper⟩ := h.typeCandidate
  rcases className_cases name with hname | ⟨hname, hnot⟩
  · rw [hname]
    exact hword.isPlain_escaped
  · rw [hname]
    refine ⟨hword, ?_, fun hkept => ?_⟩
    · intro heq
      rw [heq] at hupper
      exact absurd hupper (by decide)
    -- The words that are in no table begin with a lower case letter.
    · rcases List.mem_append.mp (keptWords_subset hkept) with hmem | hoverlooked
      · exact hnot hmem
      · have hlower : ∀ word ∈ overlookedWords, word.toList.head?.any Char.isUpper = false := by
          decide
        rw [hlower _ hoverlooked] at hupper
        cases hupper

theorem isPlain_variant_className (h : IsObjectName name) {handed : String}
    (hvariant : NameRegistry.Variant (className name) handed) : IsPlain handed := by
  rcases hvariant with rfl | ⟨n, rfl⟩
  · exact isPlain_className h
  · exact (isPlain_className h).word.isPlain_numbered (n + 1)

/-- Keywords that are escaped by the prefix may stand after it. -/
theorem isRaw_of_mem_keywords (hword : IsWord word) (h : word ∈ keywords) : IsRaw ("r#" ++ word) := by
  have hall : ∀ word ∈ keywords, word ≠ "_" ∧ word ∉ ["self", "Self", "super", "crate"] := by
    decide
  exact ⟨word, rfl, hword, hall word h⟩

theorem numbered_append (first second : String) (n : Nat) :
    NameRegistry.numbered (first ++ second) n = first ++ NameRegistry.numbered second n := by
  rw [NameRegistry.numbered, NameRegistry.numbered, String.append_assoc]

/-- The name for a method is an identifier, but for the words that are overlooked. -/
theorem isLegal_variant_methodName (h : IsObjectName name) {handed : String}
    (hvariant : NameRegistry.Variant (methodName name) handed) (hnot : handed ∉ overlookedWords) :
    IsLegal handed := by
  obtain ⟨hword, hne⟩ := h.methodCandidate
  -- The candidate has the prefix, a `_` after it, or is left as it is. In each case the name is
  -- this or has a number after it.
  rcases methodName_cases name with ⟨hname, hkeyword⟩ | hname | ⟨hname, hnone⟩ <;>
    rw [hname] at hvariant <;> rcases hvariant with rfl | ⟨n, rfl⟩
  · exact .inr (isRaw_of_mem_keywords hword hkeyword)
  · rw [numbered_append]
    exact .inr (hword.isPlain_numbered (n + 1)).isRaw
  · exact .inl hword.isPlain_escaped
  · exact .inl (hword.isPlain_escaped.word.isPlain_numbered (n + 1))
  · refine .inl ⟨hword, hne, fun hkept => ?_⟩
    exact (List.mem_append.mp (keptWords_subset hkept)).elim hnone hnot
  · exact .inl (hword.isPlain_numbered (n + 1))

/-- A method is called by an overlooked word exactly for an object that is. -/
theorem methodName_eq_iff (h : word ∈ overlookedWords) : methodName name = word ↔ name = word := by
  have hchars : ∀ word ∈ overlookedWords, '#' ∉ word.toList ∧ '_' ∉ word.toList := by
    decide
  constructor
  · intro hmethod
    -- What escapes a word leaves a character that no overlooked word has.
    rcases methodName_cases name with ⟨hname, -⟩ | hname | ⟨hname, -⟩ <;> rw [hname] at hmethod
    · refine absurd ?_ (hchars word h).1
      simp [← hmethod]
    · refine absurd ?_ (hchars word h).2
      simp [← hmethod]
    · exact eq_of_methodCandidate hmethod (hchars word h).2
  · have hsame : ∀ word ∈ overlookedWords, methodName word = word := by decide
    rintro rfl
    exact hsame name h

/-- An overlooked word is handed out for a method if an object has it as its name and it is
free. -/
theorem freeName_mem_overlooked :
    names.freeName (methodName name) ∈ overlookedWords ↔
      name ∈ overlookedWords ∧ name ∉ names.taken := by
  constructor
  · intro hmem
    have hend : ∀ word ∈ overlookedWords, Text.endsIn Text.isDigit word = false := by
      decide
    have hsame := (names.variant_freeName (methodName name)).eq_of_endsIn (hend _ hmem)
    have hname := (methodName_eq_iff hmem).mp hsame.symm
    rw [hname]
    exact ⟨hmem, names.freeName_not_mem _⟩
  · rintro ⟨hmem, hfree⟩
    have hmethod := (methodName_eq_iff hmem).mpr (rfl : name = name)
    rwa [hmethod, NameRegistry.freeName_of_not_mem hfree]

/-- The names of types for objects are legal identifiers, whatever is taken. The name of a
method is one exactly if the object is not called by an overlooked word, or this word is
taken. -/
theorem allocate_legal_iff (h : IsObjectName name) (names : NameRegistry) :
    IsPlain (names.allocate (className name)).1 ∧
      (IsLegal (names.allocate (methodName name)).1 ↔
        ¬ (name ∈ overlookedWords ∧ name ∉ names.taken)) := by
  refine ⟨isPlain_variant_className h (names.variant_freeName _), ?_⟩
  rw [← freeName_mem_overlooked]
  constructor
  · intro hlegal hoverlooked
    exact not_isLegal_of_overlooked hoverlooked hlegal
  · intro hnot
    exact isLegal_variant_methodName h (names.variant_freeName _) hnot

/-- The names of the methods of a class that has a method for an object `type`. -/
def typeTaken : NameRegistry := NameRegistry.empty.reserve [constructor, "r#type"]

theorem allocate_legal_typeTaken :
    IsObjectName "type" ∧ (typeTaken.allocate (methodName "type")).1 = "r#type1" ∧
      IsPlain (typeTaken.allocate (className "type")).1 ∧ IsLegal "r#type1" := by
  have hname : IsObjectName "type" := isObjectName_of_all rfl (by decide) (by decide)
  have hhanded : (typeTaken.allocate (methodName "type")).1 = "r#type1" := by decide
  obtain ⟨hclass, hmethod⟩ := allocate_legal_iff hname typeTaken
  rw [hhanded] at hmethod
  exact ⟨hname, hhanded, hclass, hmethod.mpr (by decide)⟩

/-- A method is called by a word that the language keeps. -/
theorem allocate_methodName_abstract :
    IsObjectName "abstract" ∧
      ¬ IsLegal (NameRegistry.empty.allocate (methodName "abstract")).1 := by
  have hhanded : (NameRegistry.empty.allocate (methodName "abstract")).1 = "abstract" := by
    decide
  rw [hhanded]
  exact ⟨isObjectName_of_all rfl (by decide) (by decide), not_isLegal_of_overlooked (by decide)⟩

end Naming

end MibDrivers
