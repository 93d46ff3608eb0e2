import Mathlib.Tactic.SplitIfs
import MibDrivers.Toml.Scalar

/-!
# Written TOML strings are read back

Each of the four forms in which a string is written is read back as the string, whatever follows,
as long as this does not begin with a quote. In a literal form every character stands for itself. In
a basic form a character that cannot stand for itself has an escape. A multi-line form ends at the
first three quotes in a row that are not followed by another one, so that up to two quotes at the
end of the content are read together with the closing ones, and no more than two may stand in a row
before that.

## Main definitions

* `Toml.BeginsUnquoted` — what may follow a written string
* `Toml.IsEscape` — what stands for a character after a backslash

## Main results

* `Toml.basicContent_cons` — what is written for one character of a basic string
* `Toml.closing?_append` — where a multi-line string ends
* `Toml.string?_stringChars` — a string as written is read back
-/

namespace MibDrivers

namespace Toml

variable {c mark : Char} {cs content rest : List Char}

/-- A text that does not begin with a quote of either kind. -/
def BeginsUnquoted (rest : List Char) : Prop := ∀ c ∈ rest.head?, c ≠ '"' ∧ c ≠ '\''

theorem ne_return_of_plain (h : isPlain c ∨ c = '\n') : c ≠ '\r' := by
  rintro rfl
  exact absurd h (by decide)

/-! ### Escapes -/

/-- The text `escape` stands for the character `c` after a backslash, whatever follows, and it is
not the end of a line. -/
structure IsEscape (c : Char) (escape : List Char) : Prop where
  escape?_append : ∀ rest, escape? (escape ++ rest) = some (c, escape.length)
  endsLine_append : ∀ rest, endsLine (escape ++ rest) = false

theorem isEscape_quote : IsEscape '"' ['"'] := ⟨fun _ => rfl, fun _ => rfl⟩

theorem isEscape_backslash : IsEscape '\\' ['\\'] := ⟨fun _ => rfl, fun _ => rfl⟩

/-- The digits that are written for a control character are those of its code point. -/
theorem hexValue?_control : ∀ n < 0x80,
    hexValue? ['0', '0', hexDigit (n / 16), hexDigit (n % 16)] = some n := by
  decide +kernel

theorem isEscape_codePoint (h : c.toNat < 0x80) :
    IsEscape c ['u', '0', '0', hexDigit (c.toNat / 16), hexDigit (c.toNat % 16)] where
  escape?_append rest := by
    have hvalid : c.toNat.isValidChar := c.valid
    simp [escape?, codePoint?, hexValue?_control c.toNat h, hvalid]
  endsLine_append _ := rfl

/-- The escape of a control character. -/
theorem controlEscape_eq (h : isControl c) :
    ∃ escape, IsEscape c escape ∧ controlEscape c = '\\' :: escape := by
  unfold controlEscape
  split_ifs with hb ht hn hf hr
  · exact ⟨['b'], hb ▸ ⟨fun _ => rfl, fun _ => rfl⟩, rfl⟩
  · exact ⟨['t'], ht ▸ ⟨fun _ => rfl, fun _ => rfl⟩, rfl⟩
  · exact ⟨['n'], hn ▸ ⟨fun _ => rfl, fun _ => rfl⟩, rfl⟩
  · exact ⟨['f'], hf ▸ ⟨fun _ => rfl, fun _ => rfl⟩, rfl⟩
  · exact ⟨['r'], hr ▸ ⟨fun _ => rfl, fun _ => rfl⟩, rfl⟩
  · have hsmall : c.toNat < 0x80 := by
      simp only [isControl, Bool.or_eq_true, decide_eq_true_eq] at h
      omega
    exact ⟨_, isEscape_codePoint hsmall, rfl⟩

/-! ### Basic strings -/

/-- The number of quotes that may stand in a row in a basic string. -/
def quoteRoom (multiline : Bool) : Nat := if multiline then 2 else 0

/-- A character of a basic string is a quote for which there is room, or it is written with a
backslash, or it stands for itself. -/
theorem basicContent_cons (multiline : Bool) (room : Nat) (c : Char) (cs : List Char) :
    (∃ fewer, room = fewer + 1 ∧ c = '"' ∧
      basicContent multiline room (c :: cs) = '"' :: basicContent multiline fewer cs) ∨
    (∃ escape, IsEscape c escape ∧ basicContent multiline room (c :: cs) =
      '\\' :: (escape ++ basicContent multiline (quoteRoom multiline) cs)) ∨
    (c ≠ '"' ∧ c ≠ '\\' ∧ (isPlain c ∨ multiline ∧ c = '\n') ∧
      basicContent multiline room (c :: cs) =
        c :: basicContent multiline (quoteRoom multiline) cs) := by
  have hroom : (if multiline then 2 else 0) = quoteRoom multiline := rfl
  simp only [basicContent, hroom]
  split_ifs with hquote hfull hbackslash hcontrol
  · exact .inr (.inl ⟨['"'], hquote ▸ isEscape_quote, rfl⟩)
  · exact .inl ⟨room - 1, by omega, hquote, rfl⟩
  · exact .inr (.inl ⟨['\\'], hbackslash ▸ isEscape_backslash, rfl⟩)
  · rw [Bool.and_eq_true] at hcontrol
    obtain ⟨escape, hescape, heq⟩ := controlEscape_eq hcontrol.1
    exact .inr (.inl ⟨escape, hescape, by rw [heq, List.cons_append]⟩)
  · refine .inr (.inr ⟨hquote, hbackslash, ?_, rfl⟩)
    cases hc : isControl c with
    | false => exact .inl (by simp [isPlain, hc])
    | true => exact .inr (by simpa [hc] using hcontrol)

theorem basicBody?_skip (escape rest : List Char) :
    basicBody? escape.length (escape ++ rest) = basicBody? 0 rest := by
  induction escape with
  | nil => rfl
  | cons c escape ih => exact ih

theorem basicBody?_escape {escape : List Char} (h : IsEscape c escape) (rest : List Char) :
    basicBody? 0 ('\\' :: (escape ++ rest)) =
      (basicBody? 0 rest).map fun (content, after) => (c :: content, after) := by
  rw [basicBody?, if_neg (by decide), if_pos rfl, h.escape?_append, Option.bind_eq_bind,
    Option.bind_some]
  dsimp only
  rw [basicBody?_skip]
  cases basicBody? 0 rest <;> rfl

/-- The content of a basic string on one line is read up to its closing quote. -/
theorem basicBody?_basicContent (cs rest : List Char) :
    basicBody? 0 (basicContent false 0 cs ++ '"' :: rest) = some (cs, rest) := by
  induction cs with
  | nil => rfl
  | cons c cs ih =>
    rcases basicContent_cons false 0 c cs with
      ⟨fewer, hroom, _⟩ | ⟨escape, hescape, heq⟩ | ⟨hquote, hbackslash, hplain, heq⟩
    · cases hroom
    · rw [heq, List.cons_append, List.append_assoc, basicBody?_escape hescape]
      exact congrArg (Option.map _) ih
    · rw [heq, List.cons_append, basicBody?]
      have hc : isPlain c := hplain.resolve_right fun h => Bool.false_ne_true h.1
      have hrest : basicBody? 0 (basicContent false (quoteRoom false) cs ++ '"' :: rest) =
        some (cs, rest) := ih
      simp [hquote, hbackslash, hc, hrest]

/-! ### Literal strings -/

theorem literalBody?_append (h : ∀ c ∈ cs, isPlain c ∧ c ≠ '\'') (rest : List Char) :
    literalBody? (cs ++ '\'' :: rest) = some (cs, rest) := by
  induction cs with
  | nil => rfl
  | cons c cs ih =>
    obtain ⟨⟨hplain, hmark⟩, hcs⟩ := List.forall_mem_cons.mp h
    rw [List.cons_append, literalBody?]
    simp [hplain, hmark, ih hcs]

/-! ### The end of a multi-line string -/

/-- Three marks close a string if no more follow and no three are in a row at the beginning of the
content. Content that consists of marks is read together with the closing ones. -/
theorem closing?_append (hrun : (content.takeWhile (· = mark)).length ≤ 2)
    (hrest : ∀ c ∈ rest.head?, c ≠ mark) :
    closing? mark (content ++ mark :: mark :: mark :: rest) =
      if content.all (· = mark) then some (content, rest) else none := by
  -- Of the content only the first three characters count: the third one is no mark after two.
  match content with
  | [] =>
    cases rest with
    | nil => simp [closing?]
    | cons c rest => simp [closing?, List.takeWhile, hrest c rfl]
  | a :: content =>
    by_cases ha : a = mark
    · match content with
      | [] =>
        cases rest with
        | nil => simp [closing?, ha]
        | cons c rest => simp [closing?, List.takeWhile, ha, hrest c rfl]
      | b :: content =>
        by_cases hb : b = mark
        · match content with
          | [] => simp [closing?, ha, hb]
          | c :: content =>
            have hc : c ≠ mark := by
              rintro rfl
              simp [ha, hb] at hrun
            simp [closing?, List.takeWhile, ha, hb, hc]
        · simp [closing?, List.takeWhile, ha, hb]
    · simp [closing?, ha]

/-! ### Multi-line basic strings -/

theorem multilineBasicBody?_skip (escape rest : List Char) :
    multilineBasicBody? escape.length false (escape ++ rest) =
      multilineBasicBody? 0 false rest := by
  induction escape with
  | nil => rfl
  | cons c escape ih => exact ih

theorem multilineBasicBody?_escape {escape : List Char} (h : IsEscape c escape)
    (rest : List Char) :
    multilineBasicBody? 0 false ('\\' :: (escape ++ rest)) =
      (multilineBasicBody? 0 false rest).map fun (content, after) => (c :: content, after) := by
  have hclosing : closing? '"' ('\\' :: (escape ++ rest)) = none := by simp [closing?]
  rw [multilineBasicBody?, if_neg (by simp), if_neg (by simp), hclosing]
  dsimp only
  rw [if_neg (by simp [h.endsLine_append]), if_pos rfl, h.escape?_append, Option.bind_eq_bind,
    Option.bind_some]
  dsimp only
  rw [multilineBasicBody?_skip]
  cases multilineBasicBody? 0 false rest <;> rfl

theorem multilineBasicBody?_plain (hclosing : closing? '"' (c :: rest) = none)
    (hbackslash : c ≠ '\\') (hplain : isPlain c ∨ c = '\n') :
    multilineBasicBody? 0 false (c :: rest) =
      (multilineBasicBody? 0 false rest).map fun (content, after) => (c :: content, after) := by
  rw [multilineBasicBody?]
  simp only [ne_return_of_plain hplain, hclosing, hbackslash]
  cases multilineBasicBody? 0 false rest <;> simp [hplain]

theorem multilineBasicBody?_closing {closed : List Char × List Char}
    (h : closing? '"' ('"' :: rest) = some closed) :
    multilineBasicBody? 0 false ('"' :: rest) = some closed := by
  rw [multilineBasicBody?]
  simp [h]

/-- Written content does not begin with more quotes than there is room for. -/
theorem length_takeWhile_basicContent (room : Nat) (cs : List Char) :
    ((basicContent true room cs).takeWhile (· = '"')).length ≤ room := by
  induction cs generalizing room with
  | nil => exact Nat.zero_le room
  | cons c cs ih =>
    rcases basicContent_cons true room c cs with
      ⟨fewer, rfl, _, heq⟩ | ⟨escape, _, heq⟩ | ⟨hquote, _, _, heq⟩
    · rw [heq, List.takeWhile_cons_of_pos (by simp), List.length_cons]
      exact Nat.succ_le_succ (ih fewer)
    · simp [heq]
    · simp [heq, hquote]

/-- Written content that consists of quotes shows them as they are. -/
theorem basicContent_eq_of_all {room : Nat}
    (h : (basicContent true room cs).all (· = '"')) : basicContent true room cs = cs := by
  induction cs generalizing room with
  | nil => rfl
  | cons c cs ih =>
    rcases basicContent_cons true room c cs with
      ⟨fewer, _, rfl, heq⟩ | ⟨escape, _, heq⟩ | ⟨hquote, _, _, heq⟩
    · rw [heq, List.all_cons, Bool.and_eq_true] at h
      rw [heq, ih h.2]
    · simp [heq] at h
    · simp [heq, hquote] at h

/-- Written content is closed where only quotes are left of it. -/
theorem closing?_basicContent {room : Nat} (hroom : room ≤ 2)
    (hrest : ∀ c ∈ rest.head?, c ≠ '"') (cs : List Char) :
    closing? '"' (basicContent true room cs ++ '"' :: '"' :: '"' :: rest) =
      if (basicContent true room cs).all (· = '"') then some (cs, rest) else none := by
  rw [closing?_append (Nat.le_trans (length_takeWhile_basicContent room cs) hroom) hrest]
  split_ifs with hall
  · rw [basicContent_eq_of_all hall]
  · rfl

/-- The content of a multi-line basic string is read up to its closing quotes. -/
theorem multilineBasicBody?_basicContent {room : Nat} (hroom : room ≤ 2)
    (hrest : ∀ c ∈ rest.head?, c ≠ '"') (cs : List Char) :
    multilineBasicBody? 0 false (basicContent true room cs ++ '"' :: '"' :: '"' :: rest) =
      some (cs, rest) := by
  -- At each quote for which there is room, the rest of the content is looked at: either there are
  -- only quotes left, and the string is closed here, or the quote stands for itself.
  have hclosing := closing?_basicContent hroom hrest cs
  induction cs generalizing room with
  | nil => exact multilineBasicBody?_closing hclosing
  | cons c cs ih =>
    have hnext {room : Nat} (hroom : room ≤ 2) := ih hroom (closing?_basicContent hroom hrest cs)
    have hfull : quoteRoom true ≤ 2 := by decide
    rcases basicContent_cons true room c cs with
      ⟨fewer, rfl, rfl, heq⟩ | ⟨escape, hescape, heq⟩ | ⟨hquote, hbackslash, hplain, heq⟩
    · rw [heq, List.cons_append] at hclosing ⊢
      split_ifs at hclosing with hall
      · exact multilineBasicBody?_closing hclosing
      · rw [multilineBasicBody?_plain hclosing (by decide) (.inl rfl), hnext (by omega)]
        rfl
    · rw [heq, List.cons_append, List.append_assoc, multilineBasicBody?_escape hescape,
        hnext hfull]
      rfl
    · rw [heq, List.cons_append, if_neg (by simp [hquote])] at hclosing
      rw [heq, List.cons_append, multilineBasicBody?_plain hclosing hbackslash
        (hplain.imp_right And.right), hnext hfull]
      rfl

/-! ### Multi-line literal strings -/

/-- Without three marks in a row, at most two are at the beginning. -/
theorem length_takeWhile_of_hasThree (h : hasThree mark cs = false) :
    (cs.takeWhile (· = mark)).length ≤ 2 := by
  match cs with
  | [] => simp
  | [a] => exact Nat.le_trans (List.takeWhile_prefix _).length_le (by simp)
  | [a, b] => exact (List.takeWhile_prefix _).length_le
  | a :: b :: c :: others =>
    rw [hasThree, Bool.or_eq_false_iff] at h
    by_cases ha : a = mark
    · by_cases hb : b = mark
      · have hc : c ≠ mark := by
          rintro rfl
          simp [ha, hb] at h
        simp [ha, hb, hc]
      · simp [ha, hb]
    · simp [ha]

theorem hasThree_of_cons (h : hasThree mark (c :: cs) = false) : hasThree mark cs = false := by
  match cs with
  | [] => rfl
  | [a] => rfl
  | a :: b :: others =>
    rw [hasThree, Bool.or_eq_false_iff] at h
    exact h.2

/-- The content of a multi-line literal string is read up to its closing quotes. -/
theorem multilineLiteralBody?_append (hplain : ∀ c ∈ cs, isPlain c ∨ c = '\n')
    (hthree : hasThree '\'' cs = false) (hrest : ∀ c ∈ rest.head?, c ≠ '\'') :
    multilineLiteralBody? (cs ++ '\'' :: '\'' :: '\'' :: rest) = some (cs, rest) := by
  have hclosing := closing?_append (length_takeWhile_of_hasThree hthree) hrest
  induction cs with
  | nil =>
    rw [List.nil_append] at hclosing ⊢
    rw [multilineLiteralBody?]
    simp [hclosing]
  | cons c cs ih =>
    obtain ⟨hc, hcs⟩ := List.forall_mem_cons.mp hplain
    have hnext := ih hcs (hasThree_of_cons hthree)
      (closing?_append (length_takeWhile_of_hasThree (hasThree_of_cons hthree)) hrest)
    rw [List.cons_append] at hclosing ⊢
    rw [multilineLiteralBody?, if_neg (by simp [ne_return_of_plain hc]), hclosing]
    by_cases hall : (c :: cs).all (· = '\'')
    · rw [if_pos hall]
    · rw [if_neg hall]
      simp [hc, hnext]

/-! ### Strings -/

theorem isHidden_eq_not_isPlain (c : Char) : isHidden c = !isPlain c := by
  simp [isHidden, isPlain]

/-- A string in the literal form has characters, none of which is hidden or its mark. -/
theorem of_form_literal (h : form cs = .literal) :
    cs ≠ [] ∧ ∀ c ∈ cs, isPlain c ∧ c ≠ '\'' := by
  refine ⟨fun hnil => ?_, fun c hc => ?_⟩
  · subst hnil
    cases h
  · unfold form at h
    split_ifs at h with _ hliteral
    simp only [Bool.and_eq_true, Bool.not_eq_true', List.any_eq_false, decide_eq_true_eq,
      isHidden_eq_not_isPlain] at hliteral
    exact ⟨by simpa using hliteral.1 c hc, fun hmark => hliteral.2 (hmark ▸ hc)⟩

/-- A string in the multi-line literal form has only line feeds apart from plain characters, and its
mark is nowhere three times in a row. -/
theorem of_form_multilineLiteral (h : form cs = .multilineLiteral) :
    (∀ c ∈ cs, isPlain c ∨ c = '\n') ∧ hasThree '\'' cs = false := by
  unfold form at h
  split_ifs at h with _ _ _ hlines
  simp only [Bool.and_eq_true, Bool.not_eq_true', List.any_eq_false, isHiddenInLines,
    isHidden_eq_not_isPlain] at hlines
  refine ⟨fun c hc => ?_, hlines.2⟩
  have hc := hlines.1 c hc
  by_cases hplain : isPlain c
  · exact .inl hplain
  · exact .inr (by simpa [hplain] using hc)

theorem newline?_eq_none (h : ∀ c ∈ cs.head?, c ≠ '\n' ∧ c ≠ '\r') : newline? cs = none := by
  unfold newline?
  split
  · exact absurd rfl (h '\n' rfl).1
  · exact absurd rfl (h '\r' rfl).2
  · rfl

/-- The line end after the opening mark of a multi-line form is not content, and where there is
none, the content does not begin with a line end. -/
theorem dropNewline_lead {body : List Char} (h : '\n' ∉ cs → newline? body = none) :
    dropNewline ((if '\n' ∈ cs then ['\n'] else []) ++ body) = body := by
  split_ifs with hmem
  · rfl
  · rw [List.nil_append, dropNewline, h hmem, Option.getD_none]

/-- Written content has no line end at its beginning unless the string has one. -/
theorem newline?_basicContent (h : '\n' ∉ cs) (rest : List Char) :
    newline? (basicContent true 2 cs ++ '"' :: rest) = none := by
  refine newline?_eq_none ?_
  match cs with
  | [] => simp [basicContent]
  | c :: cs =>
    rcases basicContent_cons true 2 c cs with
      ⟨fewer, _, _, heq⟩ | ⟨escape, _, heq⟩ | ⟨_, _, hplain, heq⟩
    · simp [heq]
    · simp [heq]
    · have hc : c ≠ '\n' := fun hc => h (hc ▸ List.mem_cons_self)
      have hreturn := ne_return_of_plain (hplain.imp_right And.right)
      simp [heq, hc, hreturn]

theorem enclose_append (mark : List Char) (multiline : Bool) (cs content rest : List Char) :
    enclose mark multiline cs content ++ rest =
      mark ++ ((if multiline ∧ '\n' ∈ cs then ['\n'] else []) ++ (content ++ (mark ++ rest))) := by
  simp [enclose]

theorem string?_basic (cs : List Char) (h : BeginsUnquoted rest) :
    string? (enclose ['"'] false cs (basicContent false 0 cs) ++ rest) = some (cs, rest) := by
  -- Two quotes would be the empty string with a third one after it, or escaped.
  have hstart : ∀ after, basicContent false 0 cs ++ '"' :: rest ≠ '"' :: '"' :: after := by
    intro after heq
    match cs with
    | [] =>
      obtain rfl : rest = '"' :: after := (List.cons.inj heq).2
      exact (h '"' rfl).1 rfl
    | c :: cs =>
      rcases basicContent_cons false 0 c cs with
        ⟨fewer, hroom, _⟩ | ⟨escape, _, hcons⟩ | ⟨hquote, _, _, hcons⟩
      · cases hroom
      · simp [hcons] at heq
      · simp [hcons, hquote] at heq
  rw [enclose_append]
  exact (string?.eq_3 _ hstart).trans (basicBody?_basicContent cs rest)

theorem string?_literal (hne : cs ≠ []) (hplain : ∀ c ∈ cs, isPlain c ∧ c ≠ '\'')
    (rest : List Char) : string? (enclose ['\''] false cs cs ++ rest) = some (cs, rest) := by
  have hstart : ∀ after, cs ++ '\'' :: rest ≠ '\'' :: '\'' :: after := by
    intro after heq
    match cs with
    | [] => exact hne rfl
    | c :: cs => exact (hplain c List.mem_cons_self).2 (List.cons.inj heq).1
  rw [enclose_append]
  exact (string?.eq_4 _ hstart).trans (literalBody?_append hplain rest)

theorem string?_multilineBasic (cs : List Char) (h : BeginsUnquoted rest) :
    string? (enclose ['"', '"', '"'] true cs (basicContent true 2 cs) ++ rest) =
      some (cs, rest) := by
  simp only [enclose_append, true_and, List.cons_append, List.nil_append]
  rw [string?.eq_1, dropNewline_lead fun hmem => newline?_basicContent hmem _]
  exact multilineBasicBody?_basicContent Nat.le.refl (fun c hc => (h c hc).1) cs

theorem string?_multilineLiteral (hplain : ∀ c ∈ cs, isPlain c ∨ c = '\n')
    (hthree : hasThree '\'' cs = false) (h : BeginsUnquoted rest) :
    string? (enclose ['\'', '\'', '\''] true cs cs ++ rest) = some (cs, rest) := by
  have hstart : '\n' ∉ cs → newline? (cs ++ '\'' :: '\'' :: '\'' :: rest) = none := by
    refine fun hmem => newline?_eq_none ?_
    match cs with
    | [] => simp
    | c :: cs =>
      have hc := (List.forall_mem_cons.mp hplain).1
      rintro _ ⟨⟩
      exact ⟨fun hfeed => hmem (hfeed ▸ List.mem_cons_self), ne_return_of_plain hc⟩
  simp only [enclose_append, true_and, List.cons_append, List.nil_append]
  rw [string?.eq_2, dropNewline_lead hstart]
  exact multilineLiteralBody?_append hplain hthree fun c hc => (h c hc).2

/-- A string as written is read back, whatever follows it that begins with no quote. -/
theorem string?_stringChars (text : String) (h : BeginsUnquoted rest) :
    string? (stringChars text ++ rest) = some (text.toList, rest) := by
  unfold stringChars
  dsimp only
  split
  · exact string?_basic _ h
  · next hform =>
    obtain ⟨hne, hplain⟩ := of_form_literal hform
    exact string?_literal hne hplain rest
  · exact string?_multilineBasic _ h
  · next hform =>
    obtain ⟨hplain, hthree⟩ := of_form_multilineLiteral hform
    exact string?_multilineLiteral hplain hthree h

/-- Two quotes at the end of a string stand next to the three that close it. -/
example : stringChars "a\n\"\"" = "\"\"\"\na\n\"\"\"\"\"".toList := by decide +kernel

end Toml

end MibDrivers
