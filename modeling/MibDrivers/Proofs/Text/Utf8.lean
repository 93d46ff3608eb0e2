import Mathlib.Data.List.Forall2
import MibDrivers.Text.Utf8

/-!
# Decoding what was encoded

A character has one to four bytes, of which the first one tells how many follow and in which ranges
they lie. The ranges leave out what has a shorter sequence, the surrogates, and what is beyond the
last character. So every character has one sequence of bytes and every such sequence one
character, and a byte sequence is decoded as a text exactly if it holds the bytes of that text.

## Main definitions

* `Utf8.Completes` — a first byte and the bytes after it are a character
* `Utf8.IsText` — a byte sequence holds the bytes of a text

## Main results

* `Utf8.encodeChar_charOf`, `Utf8.exists_completes` — bytes that are a character, and its bytes
* `Utf8.completes_iff` — the ranges of the following bytes
* `Utf8.next_append`, `Utf8.exists_of_next` — which character a byte sequence begins with
* `Utf8.decode_eq_ok_iff` — which byte sequences are decoded as a text
-/

namespace MibDrivers

namespace Utf8

variable {first : UInt8} {following rest bytes : List UInt8} {c : Char} {v : Nat}

/-! ### Bytes of characters -/

/-- The bytes after a first one make it a character. -/
inductive Completes (first : UInt8) : List UInt8 → Prop
  | one (hfirst : first.toNat ≤ 0x7F) : Completes first []
  | two {b : UInt8} (hfirst : 0xC2 ≤ first.toNat ∧ first.toNat ≤ 0xDF)
      (hb : 0x80 ≤ b.toNat ∧ b.toNat ≤ 0xBF) : Completes first [b]
  | three {b c : UInt8} (hfirst : 0xE0 ≤ first.toNat ∧ first.toNat ≤ 0xEF)
      (hb : 0x80 ≤ b.toNat ∧ b.toNat ≤ 0xBF) (hc : 0x80 ≤ c.toNat ∧ c.toNat ≤ 0xBF)
      (hshort : first.toNat = 0xE0 → 0xA0 ≤ b.toNat)
      (hsurrogate : first.toNat = 0xED → b.toNat ≤ 0x9F) : Completes first [b, c]
  | four {b c d : UInt8} (hfirst : 0xF0 ≤ first.toNat ∧ first.toNat ≤ 0xF4)
      (hb : 0x80 ≤ b.toNat ∧ b.toNat ≤ 0xBF) (hc : 0x80 ≤ c.toNat ∧ c.toNat ≤ 0xBF)
      (hd : 0x80 ≤ d.toNat ∧ d.toNat ≤ 0xBF) (hshort : first.toNat = 0xF0 → 0x90 ≤ b.toNat)
      (hlast : first.toNat = 0xF4 → b.toNat ≤ 0x8F) : Completes first [b, c, d]

theorem charOf_one (first : UInt8) : charOf first [] = Char.ofNat first.toNat := rfl

theorem charOf_two (first b : UInt8) :
    charOf first [b] = Char.ofNat (first.toNat % 0x20 * 0x40 + b.toNat % 0x40) := rfl

theorem charOf_three (first b c : UInt8) :
    charOf first [b, c] = Char.ofNat
      ((first.toNat % 0x10 * 0x40 + b.toNat % 0x40) * 0x40 + c.toNat % 0x40) := rfl

theorem charOf_four (first b c d : UInt8) :
    charOf first [b, c, d] = Char.ofNat
      (((first.toNat % 0x08 * 0x40 + b.toNat % 0x40) * 0x40 + c.toNat % 0x40) * 0x40 +
        d.toNat % 0x40) := rfl

theorem toNat_val_ofNat (h : v.isValidChar) : (Char.ofNat v).val.toNat = v := by
  unfold Char.ofNat
  rw [dif_pos h]
  rfl

theorem ofNat_eq {b : UInt8} (h : v = b.toNat) : UInt8.ofNat v = b := by
  rw [h, UInt8.ofNat_toNat]

theorem exists_toNat_eq (h : v < 256) : ∃ b : UInt8, b.toNat = v :=
  ⟨UInt8.ofNat v, by rw [UInt8.toNat_ofNat', Nat.mod_eq_of_lt h]⟩

/-- Bytes that are a character are the bytes of this character. -/
theorem encodeChar_charOf (h : Completes first following) :
    String.utf8EncodeChar (charOf first following) = first :: following := by
  cases h with
  | one hfirst =>
    rw [charOf_one, String.utf8EncodeChar, toNat_val_ofNat (.inl (by omega)), if_pos hfirst,
      UInt8.ofNat_toNat]
  | @two b hfirst hb =>
    rw [charOf_two, String.utf8EncodeChar, toNat_val_ofNat (.inl (by omega)), if_neg (by omega),
      if_pos (by omega), ofNat_eq (b := first) (by omega), ofNat_eq (b := b) (by omega)]
  | @three b c hfirst hb hc hshort hsurrogate =>
    -- What is no character by its value alone is a surrogate.
    have hvalid : Nat.isValidChar
        ((first.toNat % 0x10 * 0x40 + b.toNat % 0x40) * 0x40 + c.toNat % 0x40) := by
      unfold Nat.isValidChar
      omega
    rw [charOf_three, String.utf8EncodeChar, toNat_val_ofNat hvalid, if_neg (by omega),
      if_neg (by omega), if_pos (by omega), ofNat_eq (b := first) (by omega),
      ofNat_eq (b := b) (by omega), ofNat_eq (b := c) (by omega)]
  | @four b c d hfirst hb hc hd hshort hlast =>
    rw [charOf_four, String.utf8EncodeChar, toNat_val_ofNat (.inr (by omega)), if_neg (by omega),
      if_neg (by omega), if_neg (by omega), ofNat_eq (b := first) (by omega),
      ofNat_eq (b := b) (by omega), ofNat_eq (b := c) (by omega), ofNat_eq (b := d) (by omega)]

/-- Every character has bytes. -/
theorem exists_completes (c : Char) :
    ∃ first following, Completes first following ∧ charOf first following = c := by
  have hvalid : c.val.toNat < 0xD800 ∨ 0xDFFF < c.val.toNat ∧ c.val.toNat < 0x110000 := c.valid
  have hchar : Char.ofNat c.val.toNat = c := c.ofNat_toNat
  generalize c.val.toNat = v at hvalid hchar
  subst hchar
  by_cases hone : v ≤ 0x7F
  · obtain ⟨first, hfirst⟩ := exists_toNat_eq (v := v) (by omega)
    refine ⟨first, [], .one (by omega), ?_⟩
    rw [charOf_one, hfirst]
  by_cases htwo : v ≤ 0x7FF
  · obtain ⟨first, hfirst⟩ := exists_toNat_eq (v := v / 0x40 + 0xC0) (by omega)
    obtain ⟨b, hb⟩ := exists_toNat_eq (v := v % 0x40 + 0x80) (by omega)
    refine ⟨first, [b], .two (by omega) (by omega), ?_⟩
    rw [charOf_two]
    exact congrArg Char.ofNat (by omega)
  by_cases hthree : v ≤ 0xFFFF
  · obtain ⟨first, hfirst⟩ := exists_toNat_eq (v := v / 0x1000 + 0xE0) (by omega)
    obtain ⟨b, hb⟩ := exists_toNat_eq (v := v / 0x40 % 0x40 + 0x80) (by omega)
    obtain ⟨c, hc⟩ := exists_toNat_eq (v := v % 0x40 + 0x80) (by omega)
    refine ⟨first, [b, c], .three (by omega) (by omega) (by omega) (by omega) (by omega), ?_⟩
    rw [charOf_three]
    exact congrArg Char.ofNat (by omega)
  · obtain ⟨first, hfirst⟩ := exists_toNat_eq (v := v / 0x40000 + 0xF0) (by omega)
    obtain ⟨b, hb⟩ := exists_toNat_eq (v := v / 0x1000 % 0x40 + 0x80) (by omega)
    obtain ⟨c, hc⟩ := exists_toNat_eq (v := v / 0x40 % 0x40 + 0x80) (by omega)
    obtain ⟨d, hd⟩ := exists_toNat_eq (v := v % 0x40 + 0x80) (by omega)
    refine ⟨first, [b, c, d],
      .four (by omega) (by omega) (by omega) (by omega) (by omega) (by omega), ?_⟩
    rw [charOf_four]
    exact congrArg Char.ofNat (by omega)

/-! ### Ranges -/

/-- A byte lies in a range. -/
def InRange (range : UInt8 × UInt8) (b : UInt8) : Prop := range.1 ≤ b ∧ b ≤ range.2

theorem inRange_iff {range : UInt8 × UInt8} {b : UInt8} :
    InRange range b ↔ range.1.toNat ≤ b.toNat ∧ b.toNat ≤ range.2.toNat := Iff.rfl

/-- As many bytes fit as there are ranges exactly if the next bytes lie in them. -/
theorem countFitting_eq_length_iff {ranges : List (UInt8 × UInt8)} :
    countFitting ranges rest = ranges.length ↔
      ∃ following after, rest = following ++ after ∧ List.Forall₂ InRange ranges following := by
  induction ranges generalizing rest with
  | nil => simp [countFitting]
  | cons range ranges ih =>
    cases rest with
    | nil => simp [countFitting]
    | cons b rest =>
      by_cases hb : InRange range b
      · have hcount : countFitting (range :: ranges) (b :: rest) = countFitting ranges rest + 1 := by
          simp [countFitting, hb.1, hb.2]
        rw [hcount, List.length_cons, Nat.add_right_cancel_iff, ih]
        constructor
        · rintro ⟨following, after, rfl, hall⟩
          exact ⟨b :: following, after, rfl, .cons hb hall⟩
        · rintro ⟨_, after, heq, hall⟩
          obtain ⟨_, following, -, hfollowing, rfl⟩ := List.forall₂_cons_left_iff.mp hall
          obtain ⟨rfl, rfl⟩ := List.cons.inj heq
          exact ⟨following, after, rfl, hfollowing⟩
      · have hcount : countFitting (range :: ranges) (b :: rest) = 0 := by
          rw [countFitting]
          exact if_neg (by simpa [InRange] using hb)
        rw [hcount]
        refine iff_of_false (by simp) ?_
        rintro ⟨_, after, heq, hall⟩
        obtain ⟨b', following, hb', -, rfl⟩ := List.forall₂_cons_left_iff.mp hall
        exact hb ((List.cons.inj heq).1 ▸ hb')

theorem followers?_eq (first : UInt8) :
    followers? first =
      if first.toNat < 0x80 then some []
      else if 0xC2 ≤ first.toNat ∧ first.toNat ≤ 0xDF then some [(0x80, 0xBF)]
      else if first.toNat = 0xE0 then some [(0xA0, 0xBF), (0x80, 0xBF)]
      else if first.toNat = 0xED then some [(0x80, 0x9F), (0x80, 0xBF)]
      else if 0xE1 ≤ first.toNat ∧ first.toNat ≤ 0xEF then some [(0x80, 0xBF), (0x80, 0xBF)]
      else if first.toNat = 0xF0 then some [(0x90, 0xBF), (0x80, 0xBF), (0x80, 0xBF)]
      else if 0xF1 ≤ first.toNat ∧ first.toNat ≤ 0xF3 then
        some [(0x80, 0xBF), (0x80, 0xBF), (0x80, 0xBF)]
      else if first.toNat = 0xF4 then some [(0x80, 0x8F), (0x80, 0xBF), (0x80, 0xBF)]
      else none := by
  simp only [followers?, Bool.and_eq_true, decide_eq_true_eq, UInt8.lt_iff_toNat_lt,
    UInt8.le_iff_toNat_le, ← UInt8.toNat_inj, UInt8.reduceToNat]

/-- Bytes complete a first one exactly if they lie in the ranges for it. -/
theorem completes_iff : Completes first following ↔
    ∃ ranges, followers? first = some ranges ∧ List.Forall₂ InRange ranges following := by
  rw [followers?_eq]
  constructor
  · intro h
    cases h with
    | one hfirst =>
      rw [if_pos (by omega)]
      exact ⟨_, rfl, .nil⟩
    | two hfirst hb =>
      rw [if_neg (by omega), if_pos hfirst]
      exact ⟨_, rfl, .cons hb .nil⟩
    | three hfirst hb hc hshort hsurrogate =>
      rw [if_neg (by omega), if_neg (by omega)]
      split_ifs with hE0 hED
      · exact ⟨_, rfl, .cons ⟨hshort hE0, hb.2⟩ (.cons hc .nil)⟩
      · exact ⟨_, rfl, .cons ⟨hb.1, hsurrogate hED⟩ (.cons hc .nil)⟩
      · exact ⟨_, rfl, .cons hb (.cons hc .nil)⟩
      all_goals omega
    | four hfirst hb hc hd hshort hlast =>
      rw [if_neg (by omega), if_neg (by omega), if_neg (by omega), if_neg (by omega),
        if_neg (by omega)]
      split_ifs with hF0 hmiddle hF4
      · exact ⟨_, rfl, .cons ⟨hshort hF0, hb.2⟩ (.cons hc (.cons hd .nil))⟩
      · exact ⟨_, rfl, .cons hb (.cons hc (.cons hd .nil))⟩
      · exact ⟨_, rfl, .cons ⟨hb.1, hlast hF4⟩ (.cons hc (.cons hd .nil))⟩
      · omega
  · rintro ⟨ranges, hranges, hall⟩
    -- There are as many bytes as ranges, and of these only the first one depends on the first byte.
    split_ifs at hranges <;> obtain rfl := Option.some.inj hranges
    · cases hall
      exact .one (by omega)
    · obtain _ | ⟨hb, _ | _⟩ := hall
      exact .two (by omega) hb
    iterate 3
      obtain _ | ⟨hb, _ | ⟨hc, _ | _⟩⟩ := hall
      simp only [inRange_iff, UInt8.reduceToNat] at hb
      exact .three (by omega) (by omega) hc (by omega) (by omega)
    iterate 3
      obtain _ | ⟨hb, _ | ⟨hc, _ | ⟨hd, _ | _⟩⟩⟩ := hall
      simp only [inRange_iff, UInt8.reduceToNat] at hb
      exact .four (by omega) (by omega) hc hd (by omega) (by omega)

/-! ### Byte sequences -/

/-- A byte sequence begins with the character that its first bytes are, -/
theorem next_append (h : Completes first following) (after : List UInt8) :
    next first (following ++ after) = .char (charOf first following) (following.length + 1) := by
  obtain ⟨ranges, hranges, hall⟩ := completes_iff.mp h
  have hfitting := countFitting_eq_length_iff.mpr ⟨following, after, rfl, hall⟩
  rw [next, hranges]
  simp only [hfitting, if_true, hall.length_eq, List.take_left]

/-- and with no other one. -/
theorem exists_of_next {length : Nat} (h : next first rest = .char c length) :
    ∃ following after, rest = following ++ after ∧ Completes first following ∧
      charOf first following = c ∧ length = following.length + 1 := by
  cases hranges : followers? first with
  | none =>
    rw [next, hranges] at h
    cases h
  | some ranges =>
    have hfits : countFitting ranges rest = ranges.length := by
      by_contra hnot
      rw [next, hranges] at h
      simp only [if_neg hnot] at h
      split_ifs at h
    obtain ⟨following, after, rfl, hall⟩ := countFitting_eq_length_iff.mp hfits
    have hcompletes := completes_iff.mpr ⟨ranges, hranges, hall⟩
    rw [next_append hcompletes, Head.char.injEq] at h
    exact ⟨following, after, rfl, hcompletes, h.1, h.2.symm⟩

theorem decodeFrom_append (index : Nat) (taken rest : List UInt8) :
    decodeFrom index taken.length (taken ++ rest) = decodeFrom (index + taken.length) 0 rest := by
  induction taken generalizing index with
  | nil => rfl
  | cons b taken ih =>
    rw [List.length_cons, List.cons_append, decodeFrom, ih, Nat.add_right_comm, Nat.add_assoc]

/-- Bytes that are a character are decoded before those after them. -/
theorem decodeFrom_of_completes (h : Completes first following) (index : Nat)
    (after : List UInt8) :
    decodeFrom index 0 (first :: (following ++ after)) =
      (decodeFrom (index + 1 + following.length) 0 after).map (charOf first following :: ·) := by
  rw [decodeFrom, next_append h]
  dsimp only
  rw [Nat.add_sub_cancel, decodeFrom_append]

theorem decodeFrom_flatMap (index : Nat) (cs : List Char) :
    decodeFrom index 0 (cs.flatMap String.utf8EncodeChar) = .ok cs := by
  induction cs generalizing index with
  | nil => rfl
  | cons c cs ih =>
    obtain ⟨first, following, hcompletes, rfl⟩ := exists_completes c
    rw [List.flatMap_cons, encodeChar_charOf hcompletes, List.cons_append,
      decodeFrom_of_completes hcompletes, ih]
    rfl

theorem eq_flatMap_of_decodeFrom {index : Nat} {cs : List Char}
    (h : decodeFrom index 0 bytes = .ok cs) : bytes = cs.flatMap String.utf8EncodeChar := by
  -- The induction is on the number of bytes, of which a character takes one or more.
  induction hlength : bytes.length using Nat.strongRecOn generalizing bytes index cs with
  | ind n ih =>
    cases bytes with
    | nil =>
      obtain rfl := Except.ok.inj h
      rfl
    | cons first rest =>
      cases hnext : next first rest with
      | invalid length =>
        simp only [decodeFrom, hnext] at h
        cases h
      | incomplete =>
        simp only [decodeFrom, hnext] at h
        cases h
      | char c length =>
        obtain ⟨following, after, rfl, hcompletes, -, -⟩ := exists_of_next hnext
        rw [decodeFrom_of_completes hcompletes] at h
        cases hafter : decodeFrom (index + 1 + following.length) 0 after with
        | error cause =>
          rw [hafter] at h
          cases h
        | ok others =>
          rw [hafter] at h
          obtain rfl := Except.ok.inj h
          have hshorter : after.length < n := by
            rw [List.length_cons, List.length_append] at hlength
            omega
          rw [List.flatMap_cons, encodeChar_charOf hcompletes, ← ih _ hshorter hafter rfl,
            List.cons_append]

/-- A byte sequence is decoded as a text exactly if it holds the bytes of the text. -/
theorem decode_eq_ok_iff {text : String} : decode bytes = .ok text ↔ bytes = encode text := by
  rw [decode, encode]
  constructor
  · intro h
    cases hchars : decodeFrom 0 0 bytes with
    | error cause =>
      rw [hchars] at h
      cases h
    | ok cs =>
      rw [hchars] at h
      obtain rfl := Except.ok.inj h
      rw [String.toList_ofList, eq_flatMap_of_decodeFrom hchars]
  · rintro rfl
    rw [decodeFrom_flatMap]
    exact congrArg Except.ok String.ofList_toList

theorem decode_encode (text : String) : decode (encode text) = .ok text := decode_eq_ok_iff.mpr rfl

theorem encode_injective : Function.Injective encode := by
  intro text other h
  exact Except.ok.inj ((decode_encode text).symm.trans (h ▸ decode_encode other))

/-- The bytes are those of a text. -/
def IsText (bytes : List UInt8) : Prop := ∃ text, bytes = encode text

end Utf8

end MibDrivers
