import Mathlib.Data.List.Basic
import Mathlib.Data.List.Induction
import MibDrivers.Text.Blank
import MibDrivers.Text.Decimal

/-!
# Numerals

A numeral that is written has no leading zeros, but one that is read may have any number of them.

## Main definitions

* `Text.Numeral` — the digits of a number, with leading zeros or without

## Main results

* `Text.decimal_injective` — a numeral has one value
* `Text.exists_decimal_of_prefix` — a beginning of a numeral is a numeral
* `Text.digits?_eq_some_iff` — the texts that are read as numbers
-/

namespace MibDrivers

namespace Text

theorem ofDecimal_decimal (n : Nat) : ofDecimal (decimal n) = n := Nat.ofDigitChars_ten_toDigits

theorem decimal_injective : Function.Injective decimal :=
  Function.LeftInverse.injective ofDecimal_decimal

theorem decimal_ne_nil (n : Nat) : decimal n ≠ [] := Nat.toDigits_ne_nil

theorem isDigit_of_mem_decimal {n : Nat} {c : Char} (h : c ∈ decimal n) : isDigit c := by
  have hdigit : c.isDigit := Nat.isDigit_of_mem_toDigits (by decide) (by decide) h
  simpa [Char.isDigit, isDigit, Char.le_def, Bool.and_eq_true] using hdigit

/-- A numeral is read as the number that it was written for. -/
theorem digits?_decimal (n : Nat) : digits? (decimal n) = some n := by
  have hall : (decimal n).all isDigit := List.all_eq_true.mpr fun _ => isDigit_of_mem_decimal
  rw [digits?, if_pos (by simp [decimal_ne_nil, hall]), ofDecimal_decimal]

/-- A beginning of the numeral of a positive number is the numeral of a positive number that is
no greater. -/
theorem exists_decimal_of_prefix {n : Nat} (hn : 0 < n) {front back : List Char}
    (h : front ++ back = decimal n) (hne : front ≠ []) :
    ∃ p, 0 < p ∧ p ≤ n ∧ front = decimal p := by
  induction back using List.reverseRecOn generalizing n with
  | nil => exact ⟨n, hn, Nat.le_refl n, by rw [← h, List.append_nil]⟩
  | append_singleton back last ih =>
    by_cases hsmall : n < 10
    · -- A single digit has no shorter beginning.
      rw [decimal, Nat.toDigits_of_lt_base hsmall] at h
      have hlength := congrArg List.length h
      have hpos := List.length_pos_of_ne_nil hne
      simp only [List.length_append, List.length_singleton] at hlength
      omega
    · rw [decimal, Nat.toDigits_of_base_le (by decide) (by omega), ← List.append_assoc] at h
      obtain ⟨p, hp, hle, hfront⟩ := ih (n := n / 10) (by omega) (List.append_inj' h rfl).1
      exact ⟨p, hp, by omega, hfront⟩

/-! ### Numerals that are read -/

variable {cs : List Char} {c : Char} {n : Nat}

/-- Digits denote a number, the most significant one coming first. -/
inductive Numeral : List Char → Nat → Prop
  | digit {d : Nat} (h : d < 10) : Numeral [Nat.digitChar d] d
  | concat {cs : List Char} {n d : Nat} (hcs : Numeral cs n) (h : d < 10) :
      Numeral (cs ++ [Nat.digitChar d]) (10 * n + d)

theorem ofDecimal_concat (cs : List Char) (c : Char) :
    ofDecimal (cs ++ [c]) = 10 * ofDecimal cs + (c.toNat - '0'.toNat) := by
  rw [ofDecimal, Nat.ofDigitChars_append, Nat.ofDigitChars_cons, Nat.ofDigitChars_nil, ofDecimal]

theorem isDigit_digitChar {d : Nat} (h : d < 10) : isDigit (Nat.digitChar d) := by
  revert d
  decide

theorem digitChar_of_isDigit (h : isDigit c) :
    c.toNat - '0'.toNat < 10 ∧ Nat.digitChar (c.toNat - '0'.toNat) = c := by
  have hrange : 48 ≤ c.toNat ∧ c.toNat ≤ 57 := by
    simpa [isDigit, Char.le_def, UInt32.le_iff_toNat_le] using h
  have hzero : '0'.toNat = 48 := rfl
  have hlt : c.toNat - '0'.toNat < 10 := by omega
  refine ⟨hlt, Char.toNat_inj.mp ?_⟩
  rw [Nat.toNat_digitChar_of_lt_ten hlt]
  omega

theorem not_isBlank_of_isDigit (h : isDigit c) : ¬ isBlank c := by
  have hdigits : ∀ d < 10, ¬ isBlank (Nat.digitChar d) := by decide
  obtain ⟨hlt, hchar⟩ := digitChar_of_isDigit h
  exact hchar ▸ hdigits _ hlt

theorem numeral_ofDecimal (hne : cs ≠ []) (h : ∀ c ∈ cs, isDigit c) :
    Numeral cs (ofDecimal cs) := by
  induction cs using List.reverseRecOn with
  | nil => exact absurd rfl hne
  | append_singleton front c ih =>
    obtain ⟨hfront, hc⟩ := List.forall_mem_append.mp h
    obtain ⟨hlt, hchar⟩ := digitChar_of_isDigit (hc c (List.mem_singleton_self c))
    rw [ofDecimal_concat]
    -- A first digit has no numeral before it.
    by_cases hnil : front = []
    · have hdigit := Numeral.digit hlt
      rw [hchar] at hdigit
      simpa [hnil, ofDecimal] using hdigit
    · have hconcat := (ih hnil hfront).concat hlt
      rwa [hchar] at hconcat

theorem Numeral.isDigit_of_mem (h : Numeral cs n) (hc : c ∈ cs) : isDigit c := by
  induction h with
  | digit hd => exact List.mem_singleton.mp hc ▸ isDigit_digitChar hd
  | concat _ hd ih =>
    rcases List.mem_append.mp hc with hfront | hlast
    · exact ih hfront
    · exact List.mem_singleton.mp hlast ▸ isDigit_digitChar hd

theorem Numeral.ne_nil (h : Numeral cs n) : cs ≠ [] := by
  cases h <;> simp

theorem Numeral.ofDecimal_eq (h : Numeral cs n) : ofDecimal cs = n := by
  induction h with
  | digit hd => simp [ofDecimal, Nat.ofDigitChars_cons, Nat.toNat_digitChar_of_lt_ten hd]
  | concat _ hd ih =>
    rw [ofDecimal_concat, ih, Nat.toNat_digitChar_of_lt_ten hd]
    simp

/-- The texts that are read as a number are its numerals. -/
theorem digits?_eq_some_iff : digits? cs = some n ↔ Numeral cs n := by
  constructor
  · intro h
    rw [digits?, Option.ite_none_right_eq_some, Bool.and_eq_true, decide_eq_true_eq,
      List.all_eq_true] at h
    obtain ⟨⟨hne, hall⟩, hvalue⟩ := h
    exact Option.some.inj hvalue ▸ numeral_ofDecimal hne hall
  · intro h
    have hall : cs.all isDigit := List.all_eq_true.mpr fun _ => h.isDigit_of_mem
    rw [digits?, if_pos (by simp [h.ne_nil, hall]), h.ofDecimal_eq]

end Text

end MibDrivers
