import MibDrivers.Proofs.Naming.Identifier
import MibDrivers.Proofs.Naming.Requests
import MibDrivers.Proofs.Text.Split

/-!
# Methods with one identifier

A registry tells names apart as texts. With the prefix `r#` and without it, a word is one
identifier of the generated source in two texts. The names of methods have the prefix only before
keywords, and no keyword is handed out without it; but a keyword with a number after it is handed
out with the prefix if the keyword is asked for again, and without it for an object that is called
so. So two methods share an identifier exactly if a keyword comes more than `n` times among the
names of the objects, and the keyword with the number `n` after it is among them too.

## Main definitions

* `Naming.identifier` — the identifier that a name denotes
* `Naming.methodsFor` — the names of the methods for a row of objects
* `Naming.Clashing` — a repeated keyword meets a numbered one

## Main results

* `Naming.raw_mem_methodsFor_iff` — which raw identifiers are handed out
* `Naming.identifiers_nodup_iff` — when the methods for a row of objects have distinct identifiers
-/

namespace MibDrivers

namespace Naming

open NameRegistry (variant numbered stem)

variable {name word method : String} {names : List String} {i n : Nat}

/-! ### Identifiers -/

/-- The identifier that a name denotes, which is what follows the prefix if there is one. -/
def identifier (name : String) : List Char :=
  (Text.dropPrefix? "r#".toList name.toList).getD name.toList

theorem identifier_raw (word : String) : identifier ("r#" ++ word) = word.toList := by
  have hdrop : Text.dropPrefix? "r#".toList ("r#" ++ word).toList = some word.toList :=
    Text.dropPrefix?_eq_some_iff.mpr String.toList_append
  rw [identifier, hdrop, Option.getD_some]

theorem identifier_of_not_mem (h : '#' ∉ name.toList) : identifier name = name.toList := by
  have hnone : Text.dropPrefix? "r#".toList name.toList = none := by
    refine Option.eq_none_iff_forall_not_mem.mpr fun rest hrest => h ?_
    rw [Text.dropPrefix?_eq_some_iff.mp hrest]
    simp
  rw [identifier, hnone, Option.getD_none]

/-! ### Keywords -/

/-- A character that stays as it is in the name of a method. -/
def isKept (c : Char) : Bool := !Text.isUppercase c && identifierChar c = c

theorem isKept_of_isDigit {c : Char} (h : Text.isDigit c) : isKept c := by
  have hascii : c.toNat < 128 := by
    simp only [Text.isDigit, Bool.and_eq_true, decide_eq_true_eq] at h
    exact lt_of_le_of_lt (show c.toNat ≤ '9'.toNat from h.2) (by decide)
  exact forall_ascii (fun c => Text.isDigit c → isKept c) (by decide +kernel) hascii h

theorem methodCandidate_of_isKept (h : ∀ c ∈ name.toList, isKept c) :
    methodCandidate name = name := by
  have hkept : ∀ c ∈ name.toList, Text.isUppercase c = false ∧ identifierChar c = c := by
    intro c hc
    simpa [isKept] using h c hc
  have hwords : separateWords name.toList = name.toList := by
    have hlower : ∀ c ∈ name.toList,
        (if Text.isUppercase c then '_' :: Text.lowercase c else [c]) = [c] := by
      intro c hc
      exact if_neg (by simp [(hkept c hc).1])
    rw [separateWords, List.flatMap_congr hlower]
    simp
  rw [methodCandidate, hwords, List.map_congr_left (g := id) fun c hc => (hkept c hc).2,
    List.map_id, String.ofList_toList]

/-- What keywords look like: they do not end in a digit, stay as they are, and are neither raw nor
escaped. -/
structure IsKeywordLike (word : String) : Prop where
  unnumbered : Text.endsIn Text.isDigit word = false
  kept : ∀ c ∈ word.toList, isKept c
  plain : '#' ∉ word.toList
  unescaped : '_' ∉ word.toList

theorem isKeywordLike_of_mem (h : word ∈ keywords) : IsKeywordLike word := by
  have hall : ∀ word ∈ keywords, Text.endsIn Text.isDigit word = false ∧
      word.toList.all isKept ∧ '#' ∉ word.toList ∧ '_' ∉ word.toList := by
    decide +kernel
  obtain ⟨hunnumbered, hkept, hplain, hunescaped⟩ := hall word h
  exact ⟨hunnumbered, List.all_eq_true.mp hkept, hplain, hunescaped⟩

theorem stem_keyword (h : word ∈ keywords) : stem word = word.toList :=
  NameRegistry.stem_of_endsIn (isKeywordLike_of_mem h).unnumbered

/-! ### Names of methods -/

theorem hash_not_mem_methodCandidate (name : String) : '#' ∉ (methodCandidate name).toList := by
  intro hmem
  rw [methodCandidate, String.toList_ofList] at hmem
  obtain ⟨c, -, hc⟩ := List.mem_map.mp hmem
  have hword := isWordChar_identifierChar c
  rw [hc] at hword
  exact absurd hword (by decide)

/-- The name of a method is raw for an object that is called by a keyword, and else it is plain. -/
theorem methodName_raw_or_plain (name : String) :
    name ∈ keywords ∧ methodName name = "r#" ++ name ∨
      name ∉ keywords ∧ '#' ∉ (methodName name).toList := by
  have hraw : ∀ word ∈ keywords, methodName word = "r#" ++ word := by
    decide +kernel
  by_cases hname : name ∈ keywords
  · exact .inl ⟨hname, hraw name hname⟩
  refine .inr ⟨hname, ?_⟩
  have hplain := hash_not_mem_methodCandidate name
  rcases methodName_cases name with ⟨-, hkeyword⟩ | hmethod | ⟨hmethod, -⟩
  · -- A candidate without underscores is the name it was made for.
    have hsame := eq_of_methodCandidate rfl (isKeywordLike_of_mem hkeyword).unescaped
    rw [← hsame] at hkeyword
    exact absurd hkeyword hname
  · rw [hmethod]
    simpa using hplain
  · rwa [hmethod]

theorem methodName_eq_raw_iff (h : word ∈ keywords) :
    methodName name = "r#" ++ word ↔ name = word := by
  constructor
  · intro hmethod
    rcases methodName_raw_or_plain name with ⟨-, hraw⟩ | ⟨-, hplain⟩
    · rw [hmethod] at hraw
      have hchars := congrArg String.toList hraw
      rw [String.toList_append, String.toList_append] at hchars
      exact (String.toList_inj.mp (List.append_cancel_left hchars)).symm
    · rw [hmethod] at hplain
      simp at hplain
  · rintro rfl
    rcases methodName_raw_or_plain name with ⟨-, hraw⟩ | ⟨hnot, -⟩
    · exact hraw
    · exact absurd h hnot

theorem variant_append (first second : String) (i : Nat) :
    variant (first ++ second) i = first ++ variant second i := by
  cases i with
  | zero => rfl
  | succ n => exact numbered_append first second (n + 1)

theorem mem_variant {c : Char} (hdigit : Text.isDigit c = false) :
    c ∈ (variant word i).toList ↔ c ∈ word.toList := by
  cases i with
  | zero => rfl
  | succ n =>
    rw [variant, NameRegistry.toList_numbered, List.mem_append, or_iff_left]
    intro hmem
    rw [Text.isDigit_of_mem_decimal hmem] at hdigit
    cases hdigit

/-- A variant of a method name without the prefix is a keyword with a number only if the object is
called by that keyword with a number, which is no greater. -/
theorem exists_numbered_of_variant (hword : word ∈ keywords) {j : Nat}
    (hplain : '#' ∉ (methodName name).toList)
    (h : variant (methodName name) j = variant word i) :
    ∃ p, 0 < p ∧ p ≤ i ∧ name = numbered word p := by
  have hspelling := isKeywordLike_of_mem hword
  -- Variants have one stem, so the keyword begins the name of the method.
  have hstem : stem (methodName name) = word.toList := by
    rw [← stem_keyword hword, ← NameRegistry.stem_variant word i, ← h, NameRegistry.stem_variant]
  obtain ⟨digits, hdigits⟩ := NameRegistry.stem_prefix (methodName name)
  rw [hstem] at hdigits
  have hunescaped : '_' ∉ (methodName name).toList := by
    rw [← mem_variant (i := j) (by decide), h, mem_variant (by decide)]
    exact hspelling.unescaped
  -- Neither raw nor escaped, the name of the method is that of the object.
  have hname : methodName name = name ∧ name ∉ keywords := by
    rcases methodName_cases name with ⟨hmethod, -⟩ | hmethod | ⟨hmethod, hnot⟩
    · rw [hmethod] at hplain
      simp at hplain
    · rw [hmethod] at hunescaped
      simp at hunescaped
    · rw [hmethod] at hunescaped
      have hsame := eq_of_methodCandidate rfl hunescaped
      rw [← hsame] at hnot
      exact ⟨hmethod.trans hsame.symm, fun hmem => hnot (List.mem_append_left _ hmem)⟩
  rw [hname.1] at h hdigits
  -- What follows the keyword in it is not empty, as the name itself is no keyword.
  have hne : digits ≠ [] := by
    rintro rfl
    rw [List.append_nil, String.toList_inj] at hdigits
    exact hname.2 (hdigits ▸ hword)
  have hvariants := congrArg String.toList h
  cases i with
  | zero =>
    -- A name that is longer than the keyword has no variant that is the keyword.
    have hlength := congrArg List.length hvariants
    have hpos := List.length_pos_of_ne_nil hne
    have hlonger := congrArg List.length hdigits
    cases j <;>
      simp only [variant, NameRegistry.toList_numbered, List.length_append] at hlength hlonger <;>
      omega
  | succ m =>
    -- It begins the number `m + 1`, and so it is the numeral of a number.
    obtain ⟨back, hback⟩ : ∃ back, (variant name j).toList = name.toList ++ back := by
      cases j with
      | zero => exact ⟨[], (List.append_nil _).symm⟩
      | succ k => exact ⟨_, NameRegistry.toList_numbered name (k + 1)⟩
    rw [hback, ← hdigits, List.append_assoc, variant, NameRegistry.toList_numbered] at hvariants
    obtain ⟨p, hp, hle, rfl⟩ := Text.exists_decimal_of_prefix (Nat.succ_pos m)
      (List.append_cancel_left hvariants) hne
    refine ⟨p, hp, hle, ?_⟩
    rw [← String.toList_inj, NameRegistry.toList_numbered, hdigits]

/-- A keyword with a number after it is the name of the method for an object that is called so. -/
theorem methodName_numbered (hword : word ∈ keywords) (n : Nat) :
    methodName (numbered word n) = numbered word n := by
  have hcandidate : methodCandidate (numbered word n) = numbered word n := by
    refine methodCandidate_of_isKept fun c hc => ?_
    rw [NameRegistry.toList_numbered] at hc
    rcases List.mem_append.mp hc with hmem | hdigit
    · exact (isKeywordLike_of_mem hword).kept c hmem
    · exact isKept_of_isDigit (Text.isDigit_of_mem_decimal hdigit)
  have hend : Text.endsIn Text.isDigit (numbered word n) :=
    Text.endsIn_append word (NameRegistry.endsIn_decimal n)
  -- So it is none of the names that are escaped.
  have hnone : ∀ escaped ∈ keywords ++ pathKeywords ++ [constructor],
      Text.endsIn Text.isDigit escaped = false := by
    decide
  have hnot : numbered word n ∉ keywords ++ pathKeywords ++ [constructor] := by
    intro hmem
    rw [hnone _ hmem] at hend
    cases hend
  simp only [List.mem_append, List.mem_singleton, not_or] at hnot
  have hmethod : methodName (numbered word n) =
      if methodCandidate (numbered word n) ∈ keywords then
        "r#" ++ methodCandidate (numbered word n)
      else if methodCandidate (numbered word n) ∈ pathKeywords ||
          methodCandidate (numbered word n) = constructor then
        methodCandidate (numbered word n) ++ "_"
      else methodCandidate (numbered word n) := rfl
  rw [hmethod, hcandidate, if_neg hnot.1.1, if_neg (by simp [hnot.1.2, hnot.2])]

/-! ### Rows of methods -/

/-- The names of the methods for a row of objects. -/
def methodsFor (names : List String) : List String :=
  ((NameRegistry.empty.reserve [constructor]).allocateAll (names.map methodName)).1

theorem nodup_methodsFor (names : List String) : (methodsFor names).Nodup :=
  (NameRegistry.handsOut_allocateAll _ _).nodup

theorem constructor_not_mem_methodsFor (names : List String) : constructor ∉ methodsFor names := by
  intro hmem
  refine (NameRegistry.handsOut_allocateAll _ _).free constructor hmem ?_
  simp [NameRegistry.reserve]

/-- Each method is a variant of the one for an object of the row. -/
theorem exists_variant_of_mem_methodsFor (h : method ∈ methodsFor names) :
    ∃ name ∈ names, ∃ i, method = variant (methodName name) i := by
  obtain ⟨candidate, hmem, hvariant⟩ := NameRegistry.exists_variant_of_mem_allocateAll h
  obtain ⟨name, hname, rfl⟩ := List.mem_map.mp hmem
  exact ⟨name, hname, NameRegistry.variant_iff.mp hvariant⟩

/-- The first method for an object is its method name, unless this is the constructor's. -/
theorem methodName_mem_methodsFor (h : name ∈ names) (hne : methodName name ≠ constructor) :
    methodName name ∈ methodsFor names := by
  have htaken := NameRegistry.mem_taken_allocateAll (NameRegistry.empty.reserve [constructor])
    (List.mem_map_of_mem (f := methodName) h)
  rw [(NameRegistry.handsOut_allocateAll _ _).taken] at htaken
  refine htaken.resolve_right fun hmem => hne ?_
  simpa [NameRegistry.reserve, NameRegistry.empty] using hmem

/-- Of the variants of a keyword with the prefix, as many are handed out as there are objects
that are called by it. -/
theorem raw_mem_methodsFor_iff (hword : word ∈ keywords) :
    "r#" ++ variant word i ∈ methodsFor names ↔ i < names.count word := by
  have hcount : (names.map methodName).count ("r#" ++ word) = names.count word := by
    rw [List.count_eq_countP, List.countP_map, List.count_eq_countP]
    refine List.countP_congr fun name _ => ?_
    simpa using methodName_eq_raw_iff hword
  have hother : ∀ d ∈ names.map methodName, d = "r#" ++ word ∨
      ∀ i j, variant ("r#" ++ word) i ≠ variant d j := by
    intro d hd
    obtain ⟨name, -, rfl⟩ := List.mem_map.mp hd
    rcases methodName_raw_or_plain name with ⟨hkeyword, hraw⟩ | ⟨-, hplain⟩
    · by_cases hsame : name = word
      · exact .inl (by rw [hraw, hsame])
      · refine .inr fun i j heq => hsame ?_
        rw [hraw, variant_append, variant_append] at heq
        have hchars := congrArg String.toList heq
        rw [String.toList_append, String.toList_append] at hchars
        -- Without their numbers the variants of different keywords differ.
        have hvariants := String.toList_inj.mp (List.append_cancel_left hchars)
        have hstems := congrArg stem hvariants
        rw [NameRegistry.stem_variant, NameRegistry.stem_variant, stem_keyword hword,
          stem_keyword hkeyword, String.toList_inj] at hstems
        exact hstems.symm
    · refine .inr fun i j heq => hplain ?_
      rw [← mem_variant (i := j) (by decide), ← heq, mem_variant (by decide)]
      simp
  have hfree : ∀ i, variant ("r#" ++ word) i ∈
      (NameRegistry.empty.reserve [constructor]).taken ↔ i < 0 := by
    intro i
    simp only [NameRegistry.reserve, NameRegistry.empty, List.reverse_singleton, List.append_nil,
      List.mem_singleton, Nat.not_lt_zero, iff_false]
    intro heq
    have hmem : '#' ∈ (variant ("r#" ++ word) i).toList := (mem_variant (by decide)).mpr (by simp)
    rw [heq] at hmem
    exact absurd hmem (by decide)
  rw [← variant_append, methodsFor, NameRegistry.mem_allocateAll_variant_iff hother hfree, hcount]
  omega

/-- A method is raw for an object that is called by a keyword, or plain. -/
theorem raw_or_plain_of_mem_methodsFor (h : method ∈ methodsFor names) :
    (∃ word ∈ keywords, ∃ i, method = "r#" ++ variant word i) ∨ '#' ∉ method.toList := by
  obtain ⟨name, -, i, rfl⟩ := exists_variant_of_mem_methodsFor h
  rcases methodName_raw_or_plain name with ⟨hkeyword, hraw⟩ | ⟨-, hplain⟩
  · exact .inl ⟨name, hkeyword, i, by rw [hraw, variant_append]⟩
  · exact .inr (by rwa [mem_variant (by decide)])

/-! ### Clashes -/

/-- A keyword comes more than `n` times, and it comes with the number `n` after it as well. -/
def Clashing (names : List String) : Prop :=
  ∃ word ∈ keywords, ∃ n < names.count word, 0 < n ∧ numbered word n ∈ names

instance (names : List String) : Decidable (Clashing names) :=
  inferInstanceAs (Decidable (∃ word ∈ keywords, ∃ n < names.count word, 0 < n ∧ _))

/-- Names that are all different do not clash. -/
theorem not_clashing_of_nodup (h : names.Nodup) : ¬ Clashing names := by
  rintro ⟨word, -, n, hn, hpos, -⟩
  have hone := List.nodup_iff_count_le_one.mp h word
  omega

/-- No method denotes the constructor. -/
theorem identifier_ne_constructor (h : method ∈ methodsFor names) :
    identifier method ≠ identifier constructor := by
  have hconstructor : identifier constructor = constructor.toList :=
    identifier_of_not_mem (by decide)
  rw [hconstructor]
  intro heq
  rcases raw_or_plain_of_mem_methodsFor h with ⟨word, hword, i, rfl⟩ | hplain
  · rw [identifier_raw, String.toList_inj] at heq
    have hstems := congrArg stem heq
    rw [NameRegistry.stem_variant, stem_keyword hword, NameRegistry.stem_of_endsIn (by decide),
      String.toList_inj] at hstems
    exact absurd (hstems ▸ hword) (by decide)
  · rw [identifier_of_not_mem hplain, String.toList_inj] at heq
    exact constructor_not_mem_methodsFor names (heq ▸ h)

/-- A raw method and a plain one with the same identifier come of a clash. -/
theorem clashing_of_identifier_eq {other : String} (hword : word ∈ keywords)
    (hraw : "r#" ++ variant word i ∈ methodsFor names) (hother : other ∈ methodsFor names)
    (hplain : '#' ∉ other.toList) (heq : identifier ("r#" ++ variant word i) = identifier other) :
    Clashing names := by
  rw [identifier_raw, identifier_of_not_mem hplain, String.toList_inj] at heq
  obtain ⟨name, hname, j, rfl⟩ := exists_variant_of_mem_methodsFor hother
  rw [mem_variant (by decide)] at hplain
  obtain ⟨p, hp, hle, rfl⟩ := exists_numbered_of_variant hword hplain heq.symm
  have hcount := (raw_mem_methodsFor_iff hword).mp hraw
  exact ⟨word, hword, p, hle.trans_lt hcount, hp, hname⟩

/-- The methods for a row of objects have distinct identifiers exactly if the names of the objects
do not clash. -/
theorem identifiers_nodup_iff (names : List String) :
    ((methodsFor names).map identifier).Nodup ↔ ¬ Clashing names := by
  constructor
  · rintro hnodup ⟨word, hword, n, hn, hpos, hname⟩
    have hmethod := methodName_numbered hword n
    have hplain : '#' ∉ (numbered word n).toList := by
      rw [← NameRegistry.variant_of_pos hpos, mem_variant (by decide)]
      exact (isKeywordLike_of_mem hword).plain
    have hraw := (raw_mem_methodsFor_iff hword).mpr hn
    rw [NameRegistry.variant_of_pos hpos] at hraw
    have hnumbered : numbered word n ∈ methodsFor names := by
      rw [← hmethod]
      refine methodName_mem_methodsFor hname fun heq => ?_
      have hend := Text.endsIn_append word (NameRegistry.endsIn_decimal n)
      rw [← numbered, ← hmethod, heq] at hend
      exact absurd hend (by decide)
    -- These are two methods, but with one identifier.
    have hsame := List.inj_on_of_nodup_map hnodup hraw hnumbered
      (by rw [identifier_raw, identifier_of_not_mem hplain])
    rw [← hsame] at hplain
    simp at hplain
  · intro hclashing
    -- The methods are distinct, and so are the raw and the plain ones among themselves.
    refine (nodup_methodsFor names).map_on fun first hfirst second hsecond heq => ?_
    rcases raw_or_plain_of_mem_methodsFor hfirst with ⟨word, hword, i, rfl⟩ | hplain <;>
      rcases raw_or_plain_of_mem_methodsFor hsecond with ⟨word', hword', j, rfl⟩ | hplain'
    · rw [identifier_raw, identifier_raw, String.toList_inj] at heq
      rw [heq]
    · exact absurd (clashing_of_identifier_eq hword hfirst hsecond hplain' heq) hclashing
    · exact absurd (clashing_of_identifier_eq hword' hsecond hfirst hplain heq.symm) hclashing
    · rwa [identifier_of_not_mem hplain, identifier_of_not_mem hplain', String.toList_inj] at heq

end Naming

end MibDrivers
