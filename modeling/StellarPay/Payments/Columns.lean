import StellarPay.Payments.Amount
import StellarPay.Payments.PostgresLaws

/-!
# What the columns can hold

A payment whose amount passed validation can be stored when the number has at most thirteen digits
before the point and no text has the character NUL.
-/

namespace StellarPay

variable [Platform]

/-- The columns can hold the number and the texts of a payment. -/
structure Payment.FitsColumns (payment : Payment) : Prop where
  amount : ∀ decimal, Platform.decimalFromStr payment.amount = .ok decimal →
    decimal.value < 10 ^ 13
  reference : hasNul payment.reference = false
  destination : hasNul payment.destination = false
  memo : ∀ text, payment.memo = some text → hasNul text = false

variable [DecimalLaws]

/-- The column keeps an accepted amount exactly when it is below the limit. -/
theorem numeric_keeps_iff {decimal : Decimal} (hpositive : 0 < decimal.value)
    (hscale : decimal.scale ≤ 7) :
    (∃ kept, Platform.numeric decimal = .ok kept) ↔ decimal.value < 10 ^ 13 := by
  constructor
  · intro hkeeps
    obtain ⟨kept, hkept⟩ := hkeeps
    by_contra hlarge
    have habs : 10 ^ 13 ≤ |decimal.value| := (not_lt.mp hlarge).trans (le_abs_self _)
    obtain ⟨message, hmessage⟩ := DecimalLaws.numeric_error habs
    cases hkept.symm.trans hmessage
  · intro hsmall
    rw [← abs_of_pos hpositive] at hsmall
    obtain ⟨kept, hkept, -⟩ := DecimalLaws.numeric_ok hscale hsmall
    exact ⟨kept, hkept⟩

/-- A new payment with a valid amount is storable exactly when the columns can hold it. -/
theorem Payment.storable_iff {payment : Payment} {decimal : Decimal}
    (hvalid : validateAmount payment.amount = .ok decimal) (hhash : payment.stellarTxHash = none) :
    payment.storable = true ↔ payment.FitsColumns := by
  obtain ⟨hparsed, hpositive, hscale⟩ := validate_amount_ok hvalid
  have hamount := numeric_keeps_iff hpositive hscale
  have hmemo : payment.memo.any hasNul = false ↔
      ∀ text, payment.memo = some text → hasNul text = false := by
    cases payment.memo <;> simp
  simp only [storable, hparsed, hhash]
  cases hnumeric : Platform.numeric decimal with
  | error message =>
      refine iff_of_false (by simp) fun hfits => ?_
      obtain ⟨kept, hkept⟩ := hamount.mpr (hfits.amount decimal hparsed)
      cases hnumeric.symm.trans hkept
  | ok kept =>
      have hsmall := hamount.mp ⟨kept, hnumeric⟩
      simp only [Option.any_none, Bool.or_false, Bool.not_eq_true', Bool.or_eq_false_iff, hmemo]
      constructor
      · intro hplain
        obtain ⟨⟨hreference, hdestination⟩, hnul⟩ := hplain
        refine ⟨fun other hother => ?_, hreference, hdestination, hnul⟩
        cases hparsed.symm.trans hother
        exact hsmall
      · exact fun hfits => ⟨⟨hfits.reference, hfits.destination⟩, hfits.memo⟩

end StellarPay
