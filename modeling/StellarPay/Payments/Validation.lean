import StellarPay.Core.Parsing
import StellarPay.Payments.Amount
import StellarPay.Runtime.Documented

/-!
# What validation accepts

`validate_amount` looks at the scale of the decimal it has parsed. The parser rounds away the
fractional digits that a decimal cannot hold, so a long number can come back with seven fractional
digits or fewer.
-/

namespace StellarPay

/-- Nothing that was written is rounded away: of more than seven fractional digits eight fit a
decimal, and with up to seven the number itself is a decimal. -/
def Written.Kept (number : Written) : Prop :=
  0 < number.value → number.value < 2 ^ 96 - 1 / 2 →
    7 < number.scale ∧ number.value * 10 ^ 8 < 2 ^ 96 - 1 / 2 ∨
      number.scale ≤ 7 ∧ ∃ mantissa scale : Nat, mantissa < 2 ^ 96 ∧
        number.value = mantissa / 10 ^ scale

namespace Written

/-- A positive number has no sign, and is its magnitude. -/
theorem value_pos {number : Written} (h : 0 < number.value) :
    number.negative = false ∧ number.value = number.magnitude := by
  unfold value at h ⊢
  cases hsign : number.negative with
  | false => exact ⟨rfl, rfl⟩
  | true =>
      rw [hsign] at h
      have hnonneg := number.magnitude_nonneg
      simp only [if_true] at h
      linarith

variable {number : Written} {decimal : Decimal}

/-- What a number without a sign is read as. -/
theorem mantissa_eq (hdecimal : number.decimal = some decimal) (hsign : number.negative = false) :
    decimal.mantissa = number.roundedTo decimal.scale := by
  rw [(fit_eq_some hdecimal).1, signed, hsign]
  rfl

/-- A number that is read as a positive one is positive. -/
theorem pos_of_decimal (hdecimal : number.decimal = some decimal) (hpositive : 0 < decimal.value) :
    0 < number.value := by
  have hmantissa := (fit_eq_some hdecimal).1
  rw [Decimal.value_pos_iff, hmantissa, signed] at hpositive
  cases hsign : number.negative with
  | true =>
      rw [hsign, if_pos rfl] at hpositive
      omega
  | false =>
      rw [hsign] at hpositive
      have hrounded : 0 < number.roundedTo decimal.scale := by simpa using hpositive
      rw [value, hsign, if_neg Bool.false_ne_true]
      refine lt_of_le_of_ne number.magnitude_nonneg fun hzero => ?_
      have hnone : number.roundedTo decimal.scale = 0 := rounded_eq (by rw [← hzero]; simp)
      omega

end Written

section Laws

variable [Platform] [ParserLaws]

omit [ParserLaws] in
/-- What validation accepts, from what is parsed. -/
theorem validate_amount_ok_iff {text : String} {decimal : Decimal} :
    validateAmount text = .ok decimal ↔
      Platform.decimalFromStr text = .ok decimal ∧ 0 < decimal.value ∧ decimal.scale ≤ 7 := by
  refine ⟨validate_amount_ok, fun haccepted => ?_⟩
  obtain ⟨hparsed, hpositive, hscale⟩ := haccepted
  have hmantissa := Decimal.value_pos_iff.mp hpositive
  simp [validateAmount, hparsed, Decimal.le, Decimal.zero, not_le.mpr hmantissa, not_lt.mpr hscale]

end Laws

section Example

attribute [local instance] Documented.platform

end Example

end StellarPay
