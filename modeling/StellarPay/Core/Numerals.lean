import StellarPay.Core.Platform
import Mathlib.Algebra.Order.Field.Basic
import Mathlib.Tactic.Positivity
import Mathlib.Tactic.Ring

/-!
# Plain numerals

The text of a decimal number: its digits, and after a point as many of them as its scale says.
`DecimalLaws` is what the libraries document about decimals: plain numerals parse exactly, printing
gives plain numerals, normalizing keeps the number, and a `NUMERIC(20, 7)` column keeps a number
with at most seven fractional digits if it is below 10¹³, and rejects it otherwise.
-/

namespace StellarPay

/-- The last digits of a number, as many as `width`. -/
def fixedDigits : Nat → Nat → List Char
  | 0, _ => []
  | width + 1, number => fixedDigits width (number / 10) ++ [Nat.digitChar (number % 10)]

/-- The numeral of `coefficient / 10 ^ scale`. -/
def numeral (coefficient scale : Nat) : String :=
  String.ofList (Nat.toDigits 10 (coefficient / 10 ^ scale) ++
    if scale = 0 then [] else '.' :: fixedDigits scale coefficient)

/-- The last digits of a number are digits. -/
theorem is_digit_of_mem_fixed_digits {width number : Nat} {digit : Char}
    (h : digit ∈ fixedDigits width number) : digit.isDigit = true := by
  induction width generalizing number with
  | zero => cases h
  | succ width ih =>
      rcases List.mem_append.mp h with h | h
      · exact ih h
      · rw [List.mem_singleton.mp h, Nat.isDigit_digitChar]
        exact decide_eq_true (Nat.mod_lt _ (by decide))

@[simp]
theorem fixed_digits_length (width number : Nat) : (fixedDigits width number).length = width := by
  induction width generalizing number with
  | zero => rfl
  | succ width ih => simp [fixedDigits, ih]

/-- Reading the last digits after a number shifts it by as many places. -/
theorem of_digit_chars_fixed (width number before : Nat) :
    Nat.ofDigitChars 10 (fixedDigits width number) before =
      before * 10 ^ width + number % 10 ^ width := by
  induction width generalizing number with
  | zero => simp [fixedDigits, Nat.mod_one]
  | succ width ih =>
      have hdigit : number % 10 < 10 := Nat.mod_lt _ (by decide)
      rw [fixedDigits, Nat.ofDigitChars_append, ih,
        Nat.ofDigitChars_cons_digitChar_of_lt_ten hdigit, Nat.ofDigitChars_nil, Nat.pow_succ',
        Nat.mod_mul]
      ring

/-- The digits of a numeral, without its point, are those of its coefficient. -/
theorem of_digit_chars_numeral (coefficient scale : Nat) :
    Nat.ofDigitChars 10
      (Nat.toDigits 10 (coefficient / 10 ^ scale) ++ fixedDigits scale coefficient) 0 =
        coefficient := by
  rw [Nat.ofDigitChars_append, Nat.ofDigitChars_ten_toDigits, of_digit_chars_fixed]
  exact Nat.div_add_mod' coefficient (10 ^ scale)

/-- What the libraries document about decimals. -/
class DecimalLaws [Platform] : Prop where
  /-- A plain numeral within the range of a decimal is parsed exactly (`Decimal::from_str`). -/
  parse_numeral {coefficient scale : Nat} : coefficient < 2 ^ 96 → scale ≤ 28 →
    ∃ decimal, Platform.decimalFromStr (numeral coefficient scale) = .ok decimal ∧
      decimal.value = coefficient / 10 ^ scale
  /-- A decimal that is not negative is printed as a plain numeral (`Decimal::to_string`). -/
  to_string {decimal : Decimal} : 0 ≤ decimal.mantissa →
    Platform.decimalToString decimal = numeral decimal.mantissa.toNat decimal.scale
  /-- `Decimal::normalize` keeps the number. -/
  normalize_value (decimal : Decimal) : (Platform.normalize decimal).value = decimal.value
  /-- A `NUMERIC(20, 7)` column keeps what has at most seven fractional digits and is in range. -/
  numeric_ok {decimal : Decimal} : decimal.scale ≤ 7 → |decimal.value| < 10 ^ 13 →
    ∃ kept, Platform.numeric decimal = .ok kept ∧ kept.value = decimal.value
  /-- It rejects what is out of range. -/
  numeric_error {decimal : Decimal} : 10 ^ 13 ≤ |decimal.value| →
    ∃ message, Platform.numeric decimal = .error message

/-- What the libraries document about the scale of a decimal. -/
class ScaleLaws [Platform] : Prop where
  /-- A plain numeral is parsed with the scale that it is written with (`Decimal::from_str`). -/
  parse_scale {coefficient scale : Nat} {decimal : Decimal} : coefficient < 2 ^ 96 → scale ≤ 28 →
    Platform.decimalFromStr (numeral coefficient scale) = .ok decimal → decimal.scale = scale

/-- What the libraries document about the normal form of a decimal. -/
class NormalLaws [Platform] : Prop where
  /-- `Decimal::normalize` strips all trailing zeros after the point. -/
  normalize_strips (decimal : Decimal) :
    (Platform.normalize decimal).scale = 0 ∨ (Platform.normalize decimal).mantissa % 10 ≠ 0

/-- A numeral ends with the last digit of its coefficient. -/
theorem numeral_last (coefficient : Nat) {scale : Nat} (hscale : scale ≠ 0) :
    (numeral coefficient scale).toList.getLast? = some (Nat.digitChar (coefficient % 10)) := by
  obtain ⟨width, rfl⟩ := Nat.exists_eq_succ_of_ne_zero hscale
  rw [numeral, String.toList_ofList, if_neg hscale, fixedDigits, ← List.cons_append,
    ← List.append_assoc]
  exact List.getLast?_concat

/-- The digit of a number other than zero is not the digit zero. -/
theorem digit_char_ne_zero {digit : Nat} (hlt : digit < 10) (hne : digit ≠ 0) :
    Nat.digitChar digit ≠ '0' := by
  intro hzero
  have hdigit := Nat.toNat_digitChar_sub_48_of_lt_ten hlt
  rw [hzero] at hdigit
  exact hne hdigit.symm

/-- A numeral without fractional digits has no point. -/
theorem point_not_mem_numeral (coefficient : Nat) : '.' ∉ (numeral coefficient 0).toList := by
  rw [numeral, String.toList_ofList, if_pos rfl, List.append_nil]
  intro hpoint
  exact absurd (Nat.isDigit_of_mem_toDigits (by decide) (by decide) hpoint) (by decide)

namespace Decimal

/-- A decimal without trailing zeros after the point has the smallest scale of its number. -/
theorem scale_le_of_stripped {decimal : Decimal} {mantissa : Int} {scale : Nat}
    (hstripped : decimal.scale = 0 ∨ decimal.mantissa % 10 ≠ 0)
    (hvalue : decimal.value = mantissa / 10 ^ scale) : decimal.scale ≤ scale := by
  by_contra hlarge
  obtain ⟨more, hmore⟩ := Nat.exists_eq_add_of_lt (not_le.mp hlarge)
  have hmantissa : (decimal.mantissa : ℚ) = (mantissa * 10 ^ more * 10 : Int) := by
    have hscale : (10 : ℚ) ^ scale ≠ 0 := by positivity
    rw [value, hmore, pow_succ, pow_add, div_eq_div_iff (by positivity) hscale] at hvalue
    push_cast
    apply mul_right_cancel₀ hscale
    rw [hvalue]
    ring
  have hdivides : decimal.mantissa = mantissa * 10 ^ more * 10 := by exact_mod_cast hmantissa
  rcases hstripped with hzero | hdigit
  · omega
  · exact hdigit (by rw [hdivides]; exact Int.mul_emod_left _ _)

/-- Decimals without trailing zeros after the point that stand for one number are one. -/
theorem eq_of_stripped {first second : Decimal}
    (hfirst : first.scale = 0 ∨ first.mantissa % 10 ≠ 0)
    (hsecond : second.scale = 0 ∨ second.mantissa % 10 ≠ 0)
    (hvalue : first.value = second.value) : first = second := by
  have hscale : first.scale = second.scale :=
    Nat.le_antisymm (scale_le_of_stripped hfirst hvalue)
      (scale_le_of_stripped hsecond hvalue.symm)
  have hmantissa : first.mantissa = second.mantissa := by
    rw [value, value, hscale, div_left_inj' (by positivity)] at hvalue
    exact_mod_cast hvalue
  cases first
  cases second
  cases hscale
  cases hmantissa
  rfl

/-- A decimal is positive exactly when its coefficient is. -/
theorem value_pos_iff {decimal : Decimal} : 0 < decimal.value ↔ 0 < decimal.mantissa := by
  have hpow : (0 : ℚ) < 10 ^ decimal.scale := by positivity
  rw [value, div_pos_iff_of_pos_right hpow, Int.cast_pos]

/-- A decimal is not negative exactly when its coefficient is not. -/
theorem value_nonneg_iff {decimal : Decimal} : 0 ≤ decimal.value ↔ 0 ≤ decimal.mantissa := by
  have hpow : (0 : ℚ) < 10 ^ decimal.scale := by positivity
  rw [value, le_div_iff₀ hpow, zero_mul, Int.cast_nonneg_iff]

variable [Platform] [DecimalLaws]

/-- What a column keeps of a decimal with at most seven fractional digits is the same number. -/
theorem numeric_value {decimal kept : Decimal} (hscale : decimal.scale ≤ 7)
    (hkept : Platform.numeric decimal = .ok kept) : kept.value = decimal.value := by
  by_cases hrange : |decimal.value| < 10 ^ 13
  · obtain ⟨other, hother, hvalue⟩ := DecimalLaws.numeric_ok hscale hrange
    cases hkept.symm.trans hother
    exact hvalue
  · obtain ⟨message, hmessage⟩ := DecimalLaws.numeric_error (not_lt.mp hrange)
    cases hkept.symm.trans hmessage

/-- A decimal that is not negative is read back from its text. -/
theorem parse_to_string {decimal : Decimal} (hnonneg : 0 ≤ decimal.value) :
    ∃ parsed, Platform.decimalFromStr (Platform.decimalToString decimal) = .ok parsed ∧
      parsed.value = decimal.value := by
  have hmantissa := value_nonneg_iff.mp hnonneg
  have hbound : decimal.mantissa.toNat < 2 ^ 96 := by
    have := decimal.mantissa_lt
    omega
  obtain ⟨parsed, hparsed, hvalue⟩ := DecimalLaws.parse_numeral hbound decimal.scale_le
  refine ⟨parsed, by rw [DecimalLaws.to_string hmantissa]; exact hparsed, hvalue.trans ?_⟩
  have hcast : ((decimal.mantissa.toNat : Nat) : Int) = decimal.mantissa :=
    Int.toNat_of_nonneg hmantissa
  unfold value
  rw [← hcast]
  rfl

end Decimal

end StellarPay
