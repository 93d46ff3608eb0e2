import Mathlib.Data.List.Induction
import MibDrivers.Proofs.Settings.Options
import MibDrivers.Proofs.Text.Decimal

/-!
# Texts from the environment

The text of a variable is taken as a boolean or a number if it reads as one, and an option that
holds a text then gets the canonical text of that value. So a text is kept as it is exactly if it
reads as neither or is canonical itself. Anything else is replaced by another spelling, which for a
name or a path is another name or path.

## Main definitions

* `Overrides.Concerns` — a variable is about an option
* `Overrides.IsCanonical` — a text that is the canonical one of its value

## Main results

* `Overrides.find?_append`, `Overrides.find?_of_last` — the last variable about an option decides
* `Overrides.canonical_ofText_eq_iff` — when the canonical text is the text itself
* `Settings.withOverrides_keeps_iff` — when an option gets the text of its variable
-/

namespace MibDrivers

namespace Overrides

variable {name sectionName key text : String} {steps : List Step} {before after : Environment}

/-! ### Variables and options -/

/-- A variable of this name is about an option: about the option as a whole, a part of what it
holds, or the section that it is in. Of what is in the section, it names no other option. -/
def Concerns (name sectionName key : String) : Prop :=
  ∃ steps, Target.ofName? name = some ⟨sectionName, steps⟩ ∧
    ∀ other rest, steps = .member other :: rest → String.ofList other = key

theorem find?_concat (h : Target.ofName? name = some ⟨sectionName, steps⟩) :
    find? (before ++ [(name, text)]) sectionName key =
      Holding.putBelow (find? before sectionName key) key steps (Content.ofText text) := by
  simp [find?, List.foldl_append, h]

theorem find?_concat_of_not_concerns (h : ¬ Concerns name sectionName key) :
    find? (before ++ [(name, text)]) sectionName key = find? before sectionName key := by
  rw [find?, List.foldl_append, List.foldl_cons, List.foldl_nil, find?]
  cases htarget : Target.ofName? name with
  | none => simp only [htarget]
  | some target =>
    obtain ⟨otherSection, steps⟩ := target
    simp only [htarget]
    split_ifs with hsection
    · -- A variable about the section that does not concern the option names another one.
      have hother : ∃ other rest, steps = .member other :: rest ∧ String.ofList other ≠ key := by
        by_contra hnone
        refine h ⟨steps, by rw [htarget, hsection], fun other rest hsteps => ?_⟩
        by_contra hne
        exact hnone ⟨other, rest, hsteps, hne⟩
      obtain ⟨other, rest, rfl, hne⟩ := hother
      exact if_neg hne
    · rfl

/-- Variables about something else can be taken off one by one. -/
theorem find?_append (hafter : ∀ other ∈ after, ¬ Concerns other.1 sectionName key) :
    find? (before ++ after) sectionName key = find? before sectionName key := by
  induction after using List.reverseRecOn with
  | nil => rw [List.append_nil]
  | append_singleton earlier last ih =>
    obtain ⟨hearlier, hlast⟩ := List.forall_mem_append.mp hafter
    have hnot := hlast last List.mem_cons_self
    rw [← List.append_assoc, find?_concat_of_not_concerns hnot, ih hearlier]

/-- So the last variable that is about an option decides. It changes what the variables before it
make of the option, -/
theorem find?_cons_of_last (hname : Target.ofName? name = some ⟨sectionName, steps⟩)
    (hafter : ∀ other ∈ after, ¬ Concerns other.1 sectionName key) :
    find? (before ++ (name, text) :: after) sectionName key =
      Holding.putBelow (find? before sectionName key) key steps (Content.ofText text) := by
  rw [List.append_cons, find?_append hafter, find?_concat hname]

/-- and replaces it if it is about the option as a whole. -/
theorem find?_of_last (hname : Target.ofName? name = some ⟨sectionName, [.member key.toList]⟩)
    (hafter : ∀ other ∈ after, ¬ Concerns other.1 sectionName key) :
    find? (before ++ (name, text) :: after) sectionName key =
      some (.value (Content.ofText text)) := by
  rw [find?_cons_of_last hname hafter, Holding.putBelow, String.ofList_toList, if_pos rfl,
    Holding.put]

/-! ### Canonical texts -/

/-- A text is the canonical one of the value that it reads as: a boolean in lower case, an integer
without a plus sign and without zeros in front, not a number or infinity in the one spelling that
is written, or the shortest digits of a number, without an exponent. A text that reads as none of
these is its own value. -/
def IsCanonical (text : String) : Prop :=
  match Content.ofText text with
  | .bool _ => text = "true" ∨ text = "false"
  | .integer _ => ∃ n, text.toList = Text.decimal n ∨ 0 < n ∧ text.toList = '-' :: Text.decimal n
  | .notANumber => text = "NaN"
  | .infinite _ => text = "inf" ∨ text = "-inf"
  | .real negative magnitude => magnitude.significand ≠ 0 ∧
      text.toList = (if negative then ['-'] else []) ++
        Magnitude.positional (magnitude.shortest .toGreater).1 (magnitude.shortest .toGreater).2
  | .text _ => True

/-- A text is taken as a boolean or a number that it reads as, or else as it is. -/
theorem ofText_cases (text : String) :
    (∃ value, Content.ofText text = .bool value) ∨
    (∃ value, integer? text.toList = some value ∧ Content.ofText text = .integer value) ∨
    (∃ content, real? text.toList = some content ∧ Content.ofText text = content) ∨
    Content.ofText text = .text text := by
  unfold Content.ofText
  dsimp only
  split_ifs
  · exact .inl ⟨true, rfl⟩
  · exact .inl ⟨false, rfl⟩
  · split
    case h_1 value hvalue => exact .inr (.inl ⟨value, hvalue, rfl⟩)
    case h_2 =>
      cases hreal : real? text.toList with
      | none => exact .inr (.inr (.inr rfl))
      | some content => exact .inr (.inr (.inl ⟨content, rfl, rfl⟩))

theorem real?_cases {cs : List Char} {content : Content} (h : real? cs = some content) :
    content = .notANumber ∨ (∃ negative, content = .infinite negative) ∨
      ∃ negative magnitude, content = .real negative magnitude := by
  unfold real? at h
  dsimp only at h
  split_ifs at h
  · exact .inr (.inl ⟨_, (Option.some.inj h).symm⟩)
  · exact .inl (Option.some.inj h).symm
  · obtain ⟨⟨digits, exponent⟩, -, hnumber⟩ := Option.bind_eq_some_iff.mp h
    dsimp only at hnumber
    split at hnumber
    · exact .inr (.inr ⟨_, _, (Option.some.inj hnumber).symm⟩)
    · exact .inr (.inl ⟨_, (Option.some.inj hnumber).symm⟩)

theorem eq_of_ofText_eq_text {other : String} (h : Content.ofText text = .text other) :
    other = text := by
  rcases ofText_cases text with
    ⟨value, hvalue⟩ | ⟨value, -, hvalue⟩ | ⟨content, hreads, hcontent⟩ | htext
  · cases hvalue.symm.trans h
  · cases hvalue.symm.trans h
  · rcases real?_cases hreads with rfl | ⟨_, rfl⟩ | ⟨_, _, rfl⟩ <;> cases hcontent.symm.trans h
  · exact Content.text.inj (h.symm.trans htext)

/-- A text that is taken as an integer reads as one. -/
theorem integer?_of_ofText {value : Int} (h : Content.ofText text = .integer value) :
    integer? text.toList = some value := by
  rcases ofText_cases text with
    ⟨other, hother⟩ | ⟨other, hreads, hother⟩ | ⟨content, hreads, hcontent⟩ | htext
  · cases hother.symm.trans h
  · rw [hreads, Content.integer.inj (hother.symm.trans h)]
  · rcases real?_cases hreads with rfl | ⟨_, rfl⟩ | ⟨_, _, rfl⟩ <;> cases hcontent.symm.trans h
  · cases htext.symm.trans h

section Integers

variable {value : Int} {n : Nat} {cs digits : List Char} {negative : Bool}

theorem sign_of_isDigit {c : Char} {rest : List Char} (h : Text.isDigit c) :
    sign (c :: rest) = (false, c :: rest) := by
  have hminus : c ≠ '-' := by
    rintro rfl
    exact absurd h (by decide)
  have hplus : c ≠ '+' := by
    rintro rfl
    exact absurd h (by decide)
  simp [sign, hminus, hplus]

theorem sign_decimal (n : Nat) : sign (Text.decimal n) = (false, Text.decimal n) := by
  cases hdigits : Text.decimal n with
  | nil => exact absurd hdigits (Text.decimal_ne_nil n)
  | cons c rest =>
    exact sign_of_isDigit (Text.isDigit_of_mem_decimal (n := n) (hdigits ▸ List.mem_cons_self))

theorem eq_of_integer?_eq_some (hsign : sign cs = (negative, digits))
    (hdigits : Text.digits? digits = some n) (h : integer? cs = some value) :
    value = if negative then -(n : Int) else n := by
  unfold integer? at h
  rw [hsign] at h
  simp only [hdigits, Option.map_some, Option.bind_eq_bind, Option.bind_some,
    Int.ofNat_eq_natCast] at h
  obtain ⟨-, hvalue⟩ := Option.ite_none_right_eq_some.mp h
  exact (Option.some.inj hvalue).symm

theorem canonical_integer (value : Int) :
    (Content.integer value).canonical =
      if value < 0 then "-" ++ String.ofList (Text.decimal value.natAbs)
      else String.ofList (Text.decimal value.natAbs) :=
  rfl

/-- The text of an integer is canonical if it is a numeral, perhaps with a minus sign. -/
theorem canonical_integer_eq_iff (h : integer? text.toList = some value) :
    (Content.integer value).canonical = text ↔
      ∃ n, text.toList = Text.decimal n ∨ 0 < n ∧ text.toList = '-' :: Text.decimal n := by
  rw [canonical_integer]
  constructor
  · rintro rfl
    refine ⟨value.natAbs, ?_⟩
    by_cases hnegative : value < 0
    · exact .inr ⟨by omega, by simp [if_pos hnegative]⟩
    · exact .inl (by simp [if_neg hnegative])
  · rintro ⟨n, hdecimal | ⟨hpos, hminus⟩⟩
    · rw [hdecimal] at h
      obtain rfl := eq_of_integer?_eq_some (sign_decimal n) (Text.digits?_decimal n) h
      rw [if_neg (by simp), ← String.toList_inj, hdecimal]
      simp
    · rw [hminus] at h
      have hsign : sign ('-' :: Text.decimal n) = (true, Text.decimal n) := rfl
      obtain rfl := eq_of_integer?_eq_some hsign (Text.digits?_decimal n) h
      rw [if_pos (by simpa using hpos), ← String.toList_inj, hminus]
      simp

end Integers

theorem canonical_real (negative : Bool) (magnitude : Magnitude) :
    (Content.real negative magnitude).canonical.toList =
      (if negative then ['-'] else []) ++
        if magnitude.significand = 0 then ['0']
        else Magnitude.positional (magnitude.shortest .toGreater).1
          (magnitude.shortest .toGreater).2 := by
  cases negative <;> simp [Content.canonical]

/-- A text and the canonical text of what it is taken as are the same exactly if the text is
canonical. -/
theorem canonical_ofText_eq_iff (text : String) :
    (Content.ofText text).canonical = text ↔ IsCanonical text := by
  unfold IsCanonical
  cases hcontent : Content.ofText text with
  | bool value =>
    -- Both canonical texts read as booleans, and as different ones.
    have htrue : Content.ofText "true" = .bool true := by decide +kernel
    have hfalse : Content.ofText "false" = .bool false := by decide +kernel
    cases value with
    | true =>
      refine ⟨fun h => .inl h.symm, ?_⟩
      rintro (rfl | rfl)
      · rfl
      · cases hfalse.symm.trans hcontent
    | false =>
      refine ⟨fun h => .inr h.symm, ?_⟩
      rintro (rfl | rfl)
      · cases htrue.symm.trans hcontent
      · rfl
  | integer value => exact canonical_integer_eq_iff (integer?_of_ofText hcontent)
  | notANumber => exact eq_comm
  | infinite negative =>
    have hpositive : Content.ofText "inf" = .infinite false := by decide +kernel
    have hnegative : Content.ofText "-inf" = .infinite true := by decide +kernel
    cases negative with
    | false =>
      refine ⟨fun h => .inl h.symm, ?_⟩
      rintro (rfl | rfl)
      · rfl
      · cases hnegative.symm.trans hcontent
    | true =>
      refine ⟨fun h => .inr h.symm, ?_⟩
      rintro (rfl | rfl)
      · cases hpositive.symm.trans hcontent
      · rfl
  | real negative magnitude =>
    dsimp only
    rw [← String.toList_inj, canonical_real]
    by_cases hzero : magnitude.significand = 0
    · -- A zero is written as an integer, so a text that is no integer differs from it.
      rw [if_pos hzero]
      refine iff_of_false (fun h => ?_) fun h => h.1 hzero
      have hinteger : ∃ value, Content.ofText text = .integer value := by
        rw [← String.ofList_toList (s := text), ← h]
        cases negative
        · exact ⟨0, by decide +kernel⟩
        · exact ⟨0, by decide +kernel⟩
      obtain ⟨value, hvalue⟩ := hinteger
      cases hvalue.symm.trans hcontent
    · rw [if_neg hzero]
      exact ⟨fun h => ⟨hzero, h.symm⟩, fun h => h.2.symm⟩
  | text other => exact iff_of_true (eq_of_ofText_eq_text hcontent) trivial

end Overrides

/-! ### Options -/

namespace TextOption

/-- The variable that overrides an option. -/
def variableName : TextOption → String
  | .mibPath => "MIBGEN__MIB__PATH"
  | .moduleName => "MIBGEN__MIB__MODULE"
  | .dumpCommand => "MIBGEN__DUMP__COMMAND"
  | .rootName => "MIBGEN__GENERATOR__ROOT_NAME"
  | .runtimePath => "MIBGEN__GENERATOR__RUNTIME_PATH"
  | .baseline => "MIBGEN__GENERATOR__BASELINE"
  | .output => "MIBGEN__GENERATOR__OUTPUT"

theorem ofName?_variableName (option : TextOption) :
    Overrides.Target.ofName? option.variableName =
      some ⟨option.sectionName, [.member option.key.toList]⟩ := by
  cases option <;> decide +kernel

end TextOption

namespace Settings

/-- An option gets the canonical text of what its variable is taken as. This is the text of the
variable itself exactly if that is canonical. -/
theorem withOverrides_keeps_iff (base : Settings) (option : TextOption) (text : String)
    (before after : Environment)
    (hafter : ∀ other ∈ after, ¬ Overrides.Concerns other.1 option.sectionName option.key) :
    ∃ value, (base.withOverrides (before ++ (option.variableName, text) :: after)).text? option =
        some value ∧
      value = (Overrides.Content.ofText text).canonical ∧
      (value = text ↔ Overrides.IsCanonical text) := by
  have hoverride : option.override? (before ++ (option.variableName, text) :: after) =
      some (Overrides.Content.ofText text).canonical := by
    rw [TextOption.override?, Overrides.text?,
      Overrides.find?_of_last option.ofName?_variableName hafter]
    rfl
  refine ⟨_, ?_, rfl, Overrides.canonical_ofText_eq_iff text⟩
  rw [text?_withOverrides, hoverride, Option.some_or]

/-- A path that reads as a number is kept if it has the digits of that number, also if a variable of
another option follows. -/
theorem withOverrides_keeps_decimal :
    (∀ other ∈ [("MIBGEN__MIB__MODULE", "A-MIB")],
        ¬ Overrides.Concerns other.1 (TextOption.sectionName .mibPath) (TextOption.key .mibPath)) ∧
      (({} : Settings).withOverrides
        [("MIBGEN__MIB__PATH", "1.5"), ("MIBGEN__MIB__MODULE", "A-MIB")]).mib.path =
          some "1.5" := by
  have hafter : ∀ other ∈ [("MIBGEN__MIB__MODULE", "A-MIB")],
      ¬ Overrides.Concerns other.1 (TextOption.sectionName .mibPath)
        (TextOption.key .mibPath) := by
    rintro other hother ⟨steps, hsteps, hno⟩
    rw [List.mem_singleton.mp hother] at hsteps
    have htargets := hsteps.symm.trans (TextOption.ofName?_variableName .moduleName)
    have hkeys := hno "module".toList [] (congrArg Overrides.Target.steps (Option.some.inj htargets))
    exact absurd hkeys (by decide)
  have hcanonical : Overrides.IsCanonical "1.5" := by
    rw [← Overrides.canonical_ofText_eq_iff]
    decide +kernel
  obtain ⟨value, hvalue, -, hkeeps⟩ := withOverrides_keeps_iff {} .mibPath "1.5" [] _ hafter
  refine ⟨hafter, ?_⟩
  rw [hkeeps.mpr hcanonical] at hvalue
  exact hvalue

/-- A module whose name reads as an integer gets another name, and so does a root class whose name
reads as a boolean. -/
theorem withOverrides_respells :
    (({} : Settings).withOverrides [("MIBGEN__MIB__MODULE", "007")]).mib.moduleName = some "7" ∧
      (({} : Settings).withOverrides
        [("MIBGEN__GENERATOR__ROOT_NAME", "True")]).generator.rootName = "true" := by
  constructor <;> decide +kernel

end Settings

end MibDrivers
