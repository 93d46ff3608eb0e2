import MibDrivers.Proofs.Text.Split
import MibDrivers.Settings.Validity

/-!
# Which settings are valid

The name of the root class is accepted if it is written like a type name, and the path of the
runtime types if it is written like a module path. Accepting a path reads it character by
character, and a double colon may only stand where a segment ends. This comes to the same as
cutting the path at its double colons, from the left, and looking at each segment on its own: of
three colons in a row the third one begins a segment, which is then refused, and a double colon at
the end leaves an empty segment behind it.

## Main definitions

* `Settings.Names` — a text is a name with a first character of a given class
* `Settings.segments` — the pieces of a text between double colons
* `Settings.IsTypeName`, `Settings.IsModulePath` — how the two settings are to be written

## Main results

* `Settings.isRootName_iff`, `Settings.isRuntimePath_iff` — what is accepted is what is written so
* `Settings.isModulePath_iff_joined` — a module path is segments with double colons between them
* `Settings.validate_accepts` — which settings are valid, and which of two faults is reported
-/

namespace MibDrivers

namespace Settings

variable {settings : Settings} {cs piece : List Char} {c : Char}

/-! ### Names and paths -/

/-- A character of the given class, and then letters, digits and underscores. The classes are those
of ASCII. -/
def Names (first : Char → Prop) (cs : List Char) : Prop :=
  ∃ c rest, cs = c :: rest ∧ first c ∧ ∀ x ∈ rest, x.isAlphanum ∨ x = '_'

/-- A name that begins with a capital. -/
def IsTypeName (cs : List Char) : Prop := Names (·.isUpper) cs

/-- A name that begins with a letter or an underscore. -/
def IsSegment (cs : List Char) : Prop := Names (fun c => c.isAlpha ∨ c = '_') cs

/-- The pieces of a text between double colons, which are found from the left. -/
def segments : List Char → List (List Char)
  | [] => [[]]
  | ':' :: ':' :: rest => [] :: segments rest
  | c :: rest => (c :: (segments rest).headD []) :: (segments rest).tail

/-- At least one segment, between double colons. -/
def IsModulePath (cs : List Char) : Prop :=
  segments cs ≠ [] ∧ ∀ piece ∈ segments cs, IsSegment piece

/-! ### Segments -/

theorem segments_cons (h : ∀ rest, c = ':' → cs = ':' :: rest → False) :
    segments (c :: cs) = (c :: (segments cs).headD []) :: (segments cs).tail := by
  rw [segments]
  exact h

theorem exists_segments_eq_cons (cs : List Char) :
    ∃ piece pieces, segments cs = piece :: pieces := by
  fun_cases segments cs <;> exact ⟨_, _, rfl⟩

/-- A beginning without colons belongs to the first segment. -/
theorem segments_append (h : ':' ∉ piece) :
    segments (piece ++ cs) = (piece ++ (segments cs).headD []) :: (segments cs).tail := by
  induction piece with
  | nil =>
    obtain ⟨first, others, hsplit⟩ := exists_segments_eq_cons cs
    rw [List.nil_append, hsplit]
    rfl
  | cons c rest ih =>
    rw [List.mem_cons, not_or] at h
    rw [List.cons_append, segments_cons fun _ hc _ => h.1 hc.symm, ih h.2]
    rfl

theorem segments_joinWith {pieces : List (List Char)} (hne : pieces ≠ [])
    (h : ∀ piece ∈ pieces, ':' ∉ piece) : segments (Text.joinWith "::".toList pieces) = pieces := by
  induction pieces with
  | nil => exact absurd rfl hne
  | cons piece rest ih =>
    obtain ⟨hpiece, hrest⟩ := List.forall_mem_cons.mp h
    by_cases hlast : rest = []
    · subst hlast
      have hsegments : segments (piece ++ []) = [piece ++ []] := segments_append hpiece
      rwa [List.append_nil] at hsegments
    · have hcolons : segments ("::".toList ++ Text.joinWith "::".toList rest) = [] :: rest :=
        congrArg ([] :: ·) (ih hlast hrest)
      rw [Text.joinWith_cons hlast, List.append_assoc, segments_append hpiece, hcolons]
      simp

theorem joinWith_segments (cs : List Char) : Text.joinWith "::".toList (segments cs) = cs := by
  fun_induction segments cs with
  | case1 => rfl
  | case2 rest ih =>
    obtain ⟨first, others, hsplit⟩ := exists_segments_eq_cons rest
    rw [Text.joinWith_cons (by simp [hsplit]), ih]
    rfl
  | case3 c rest _ ih =>
    obtain ⟨first, others, hsplit⟩ := exists_segments_eq_cons rest
    rw [hsplit] at ih ⊢
    -- The first segment is longer by one character, whether or not others follow.
    cases others with
    | nil => exact congrArg (c :: ·) ih
    | cons next others => exact congrArg (c :: ·) ih

/-! ### What is accepted -/

theorem isUpper_iff : c.isUpper ↔ 'A' ≤ c ∧ c ≤ 'Z' :=
  decide_eq_true_iff

theorem isLower_iff : c.isLower ↔ 'a' ≤ c ∧ c ≤ 'z' :=
  Bool.and_eq_true_iff.trans (and_congr decide_eq_true_iff decide_eq_true_iff)

theorem isDigit_iff : c.isDigit ↔ '0' ≤ c ∧ c ≤ '9' :=
  Bool.and_eq_true_iff.trans (and_congr decide_eq_true_iff decide_eq_true_iff)

theorem isAlpha_iff : c.isAlpha ↔ c.isUpper ∨ c.isLower :=
  Bool.or_eq_true_iff

theorem isAlphanum_iff : c.isAlphanum ↔ c.isAlpha ∨ c.isDigit :=
  Bool.or_eq_true_iff

theorem isNameStart_iff : isNameStart c ↔ c.isAlpha ∨ c = '_' := by
  simp [isNameStart, isAlpha_iff, isUpper_iff, isLower_iff]

theorem isNameChar_iff : isNameChar c ↔ c.isAlphanum ∨ c = '_' := by
  simp [isNameChar, Text.isAsciiAlphanumeric, isAlphanum_iff, isAlpha_iff, isUpper_iff, isLower_iff,
    isDigit_iff]

theorem names_cons {first : Char → Prop} :
    Names first (c :: cs) ↔ first c ∧ ∀ x ∈ cs, x.isAlphanum ∨ x = '_' := by
  constructor
  · rintro ⟨_, _, heq, h⟩
    cases heq
    exact h
  · intro h
    exact ⟨c, cs, rfl, h⟩

theorem not_names_nil {first : Char → Prop} : ¬ Names first [] := by
  rintro ⟨_, _, heq, -⟩
  cases heq

theorem isRootName_iff : isRootName cs ↔ IsTypeName cs := by
  cases cs with
  | nil => simp [isRootName, IsTypeName, not_names_nil]
  | cons c rest =>
    simp [isRootName, IsTypeName, names_cons, isNameChar_iff, isUpper_iff]

/-- A text that begins with a colon has a first piece that is no segment. -/
theorem not_isSegment_colon (rest : List Char) :
    ¬ ∀ piece ∈ segments (':' :: rest), IsSegment piece := by
  intro h
  by_cases hdouble : ∃ after, rest = ':' :: after
  · obtain ⟨after, rfl⟩ := hdouble
    rw [segments] at h
    exact not_names_nil (h [] List.mem_cons_self)
  · rw [segments_cons fun after _ hrest => hdouble ⟨after, hrest⟩, List.forall_mem_cons, IsSegment,
      names_cons] at h
    exact absurd h.1.1 (by decide)

/-- A path is read as its segments are, and the rest of a path as the rest of its first segment and
the segments after it. -/
theorem isRuntimePath_and_isPathRest :
    (∀ cs, isRuntimePath cs ↔ ∀ piece ∈ segments cs, IsSegment piece) ∧
      ∀ cs, isPathRest cs ↔ (∀ x ∈ (segments cs).headD [], isNameChar x) ∧
        ∀ piece ∈ (segments cs).tail, IsSegment piece := by
  apply isRuntimePath.mutual_induct
  · simp [isRuntimePath, segments, IsSegment, not_names_nil]
  · intro c rest ih
    rw [isRuntimePath, Bool.and_eq_true, ih, isNameStart_iff]
    by_cases hc : c = ':'
    · subst hc
      exact iff_of_false (fun h => absurd h.1 (by decide)) (not_isSegment_colon rest)
    · rw [segments_cons fun _ h _ => hc h, List.forall_mem_cons, IsSegment, names_cons]
      simp only [isNameChar_iff, and_assoc]
  · simp [isPathRest, segments]
  · intro rest ih
    rw [isPathRest, ih, segments]
    simp
  · intro c rest hcolons ih
    rw [isPathRest.eq_3 c rest hcolons, Bool.and_eq_true, ih, segments_cons hcolons]
    simp [and_assoc]

theorem isRuntimePath_iff : isRuntimePath cs ↔ IsModulePath cs := by
  have hne : segments cs ≠ [] := by
    obtain ⟨piece, pieces, hsplit⟩ := exists_segments_eq_cons cs
    simp [hsplit]
  rw [IsModulePath, isRuntimePath_and_isPathRest.1, and_iff_right hne]

theorem IsSegment.colon_not_mem (h : IsSegment piece) : ':' ∉ piece := by
  obtain ⟨c, rest, rfl, hfirst, hrest⟩ := h
  rw [List.mem_cons, not_or]
  refine ⟨?_, fun hmem => absurd (hrest _ hmem) (by decide)⟩
  rintro rfl
  exact absurd hfirst (by decide)

/-- A module path is one or more segments with double colons between them. -/
theorem isModulePath_iff_joined :
    IsModulePath cs ↔ ∃ pieces, pieces ≠ [] ∧ (∀ piece ∈ pieces, IsSegment piece) ∧
      Text.joinWith "::".toList pieces = cs := by
  constructor
  · rintro ⟨hne, hpieces⟩
    exact ⟨segments cs, hne, hpieces, joinWith_segments cs⟩
  · rintro ⟨pieces, hne, hpieces, rfl⟩
    rw [IsModulePath,
      segments_joinWith hne fun piece hpiece => (hpieces piece hpiece).colon_not_mem]
    exact ⟨hne, hpieces⟩

/-! ### Characters -/

/-- The characters of names are in ASCII, and a line feed is none of them. -/
theorem ascii_of_isNameChar (h : isNameChar c) : c ≠ '\n' ∧ c.toNat < 128 := by
  refine ⟨fun hfeed => absurd (hfeed ▸ h) (by decide), ?_⟩
  have hbounds : ((65 ≤ c.toNat ∧ c.toNat ≤ 90 ∨ 97 ≤ c.toNat ∧ c.toNat ≤ 122) ∨
      48 ≤ c.toNat ∧ c.toNat ≤ 57) ∨ c = '_' := by
    simpa [isNameChar, Text.isAsciiAlphanumeric, Char.le_def, UInt32.le_iff_toNat_le] using h
  rcases hbounds with ((hcapital | hsmall) | hdigit) | rfl
  · omega
  · omega
  · omega
  · decide

theorem Names.isNameChar {first : Char → Prop} (h : Names first cs)
    (hfirst : ∀ x, first x → isNameChar x) : ∀ x ∈ cs, isNameChar x := by
  obtain ⟨c, rest, rfl, hc, hrest⟩ := h
  exact List.forall_mem_cons.mpr ⟨hfirst c hc, fun x hx => isNameChar_iff.mpr (hrest x hx)⟩

theorem IsTypeName.isNameChar (h : IsTypeName cs) : ∀ x ∈ cs, isNameChar x :=
  Names.isNameChar h fun _ hx =>
    isNameChar_iff.mpr (.inl (isAlphanum_iff.mpr (.inl (isAlpha_iff.mpr (.inl hx)))))

theorem IsSegment.isNameChar (h : IsSegment piece) : ∀ x ∈ piece, isNameChar x :=
  Names.isNameChar h fun _ hx =>
    isNameChar_iff.mpr (hx.imp_left fun halpha => isAlphanum_iff.mpr (.inl halpha))

theorem IsModulePath.ascii (h : IsModulePath cs) : ∀ x ∈ cs, x ≠ '\n' ∧ x.toNat < 128 := by
  intro x hx
  rw [← joinWith_segments cs] at hx
  rcases Text.mem_joinWith hx with hcolon | ⟨piece, hpiece, hmem⟩
  · obtain rfl : x = ':' := by simpa using hcolon
    decide
  · exact ascii_of_isNameChar ((h.2 piece hpiece).isNameChar x hmem)

/-! ### Valid settings -/

/-- Settings are valid if their root class is named like a type and their runtime types have a
module path. If neither is so, it is the name that is reported. What is accepted has no line feed
and no character beyond ASCII. -/
theorem validate_accepts (settings : Settings) :
    (settings.validate = .ok () ↔ IsTypeName settings.generator.rootName.toList ∧
      IsModulePath settings.generator.runtimePath.toList) ∧
    (settings.validate = .error (.rootName settings.generator.rootName) ↔
      ¬ IsTypeName settings.generator.rootName.toList) ∧
    (settings.validate = .error (.runtimePath settings.generator.runtimePath) ↔
      IsTypeName settings.generator.rootName.toList ∧
        ¬ IsModulePath settings.generator.runtimePath.toList) ∧
    (IsModulePath settings.generator.runtimePath.toList ↔
      ∃ pieces, pieces ≠ [] ∧ (∀ piece ∈ pieces, IsSegment piece) ∧
        Text.joinWith "::".toList pieces = settings.generator.runtimePath.toList) ∧
    (settings.validate = .ok () →
      ∀ c ∈ settings.generator.rootName.toList ++ settings.generator.runtimePath.toList,
        c ≠ '\n' ∧ c.toNat < 128) := by
  have hok : settings.validate = .ok () ↔ IsTypeName settings.generator.rootName.toList ∧
      IsModulePath settings.generator.runtimePath.toList := by
    rw [← isRootName_iff, ← isRuntimePath_iff, validate]
    grind
  refine ⟨hok, ?_, ?_, isModulePath_iff_joined, fun hvalid c hc => ?_⟩
  · rw [← isRootName_iff, validate]
    grind
  · rw [← isRootName_iff, ← isRuntimePath_iff, validate]
    grind
  · obtain ⟨hname, hpath⟩ := hok.mp hvalid
    rcases List.mem_append.mp hc with hname' | hpath'
    · exact ascii_of_isNameChar (hname.isNameChar c hname')
    · exact hpath.ascii c hpath'

/-- Settings with underscores where a letter, a digit or the beginning of a segment could be. -/
def underscored : Settings :=
  { generator := { rootName := "Mib_2_", runtimePath := "crate::_snmp::v2c" } }

theorem validate_accepts_underscored :
    underscored.validate = .ok () ∧
      ∀ c ∈ "Mib_2_".toList ++ "crate::_snmp::v2c".toList, c ≠ '\n' ∧ c.toNat < 128 := by
  have hvalid : underscored.validate = .ok () := by decide +kernel
  obtain ⟨-, -, -, -, hascii⟩ := validate_accepts underscored
  exact ⟨hvalid, hascii hvalid⟩

/-- A line feed at the end is refused, whatever the path is. -/
example :
    validate { generator := { rootName := "Mib\n", runtimePath := "crate:::snmp" } } =
      .error (.rootName "Mib\n") := by
  decide +kernel

end Settings

end MibDrivers
