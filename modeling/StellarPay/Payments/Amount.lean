import StellarPay.Core.Numerals
import StellarPay.Core.Payment

/-!
# Amount validation

`crates/payments/src/amount.rs`, and when two texts stand for one amount.
-/

namespace StellarPay

variable [Platform]

/-- `validate_amount`: a positive decimal with at most seven fractional digits. -/
def validateAmount (amount : String) : Except PaymentError Decimal :=
  match Platform.decimalFromStr amount with
  | .error _ => .error (.invalidAmount amount)
  | .ok parsed =>
      if parsed.le Decimal.zero then .error (.invalidAmount amount)
      else if parsed.scale > 7 then .error (.invalidAmount amount)
      else .ok parsed

/-- Both texts parse, and to the same number. -/
def NumericallyEqual (expected actual : String) : Prop :=
  ∃ first second, Platform.decimalFromStr expected = .ok first ∧
    Platform.decimalFromStr actual = .ok second ∧ first.value = second.value

/-- A refused amount is reported as such. -/
theorem validate_amount_error {amount : String} {error : PaymentError}
    (h : validateAmount amount = .error error) : error = .invalidAmount amount := by
  unfold validateAmount at h
  split at h
  · cases h
    rfl
  · split at h
    · cases h
      rfl
    · split at h <;> cases h
      rfl

/-- What an amount that passes validation is. -/
theorem validate_amount_ok {amount : String} {decimal : Decimal}
    (h : validateAmount amount = .ok decimal) :
    Platform.decimalFromStr amount = .ok decimal ∧ 0 < decimal.value ∧ decimal.scale ≤ 7 := by
  unfold validateAmount at h
  split at h
  · cases h
  · rename_i parsed hparsed
    split at h
    · cases h
    · rename_i hpositive
      split at h
      · cases h
      · rename_i hscale
        cases h
        refine ⟨hparsed, Decimal.value_pos_iff.mpr ?_, not_lt.mp hscale⟩
        simpa [Decimal.le, Decimal.zero] using hpositive

end StellarPay
