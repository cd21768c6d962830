import StellarPay.Core.Numerals
import StellarPay.Reconciliation.Worker

/-!
# What the ledger can carry

A native payment moves a whole number of stroops, at most 2⁶³ - 1 of them, and Horizon prints its
amount with seven decimals. A text memo has at most 28 bytes. A payment that no such transfer
matches can never be paid.
-/

namespace StellarPay

/-- The amount of a transfer of this many stroops, as Horizon prints it. -/
def stroops (count : Nat) : String :=
  numeral count 7

/-- The largest amount of the ledger, in stroops. -/
def maxStroops : Nat :=
  2 ^ 63 - 1

/-- A positive decimal with at most seven fractional digits is a whole number of stroops. -/
theorem exists_stroops {decimal : Decimal} (hpositive : 0 < decimal.value)
    (hscale : decimal.scale ≤ 7) : ∃ count : Nat, 1 ≤ count ∧ decimal.value = count / 10 ^ 7 := by
  have hmantissa := Decimal.value_pos_iff.mp hpositive
  refine ⟨decimal.mantissa.toNat * 10 ^ (7 - decimal.scale), ?_, ?_⟩
  · have hcount : 1 ≤ decimal.mantissa.toNat := by omega
    exact Nat.mul_pos hcount (by positivity)
  · have hcast : (decimal.mantissa.toNat : ℚ) = decimal.mantissa := by
      exact_mod_cast Int.toNat_of_nonneg hmantissa.le
    have hpow : (10 : ℚ) ^ 7 = 10 ^ decimal.scale * 10 ^ (7 - decimal.scale) := by
      rw [← pow_add, Nat.add_sub_cancel' hscale]
    rw [Decimal.value, Nat.cast_mul, hcast, hpow]
    push_cast
    field_simp

variable [Platform]

/-- There is a native payment that reconciliation would match with this one. -/
structure CanBePaid (payment : Payment) : Prop where
  /-- Its amount matches. -/
  amount : ∃ count, 1 ≤ count ∧ count ≤ maxStroops ∧
    amountsMatch payment.amount (stroops count) = true
  /-- Its memo is that of the payment. -/
  memo : ∃ memo, payment.memo = some memo ∧ memo.utf8ByteSize ≤ 28

variable [DecimalLaws]

/-- An amount matches a transfer exactly when it is the number of its stroops. -/
theorem amounts_match_stroops_iff {amount : String} {decimal : Decimal} {count : Nat}
    (hamount : Platform.decimalFromStr amount = .ok decimal) (hcount : count ≤ maxStroops) :
    amountsMatch amount (stroops count) = true ↔ decimal.value = count / 10 ^ 7 := by
  have hbound : count < 2 ^ 96 := by
    have : maxStroops < 2 ^ 96 := by decide
    omega
  obtain ⟨printed, hprinted, hvalue⟩ := DecimalLaws.parse_numeral hbound (by decide : 7 ≤ 28)
  rw [amounts_match_iff, NumericallyEqual]
  constructor
  · intro hpair
    obtain ⟨first, second, hfirst, hsecond, heq⟩ := hpair
    cases hamount.symm.trans hfirst
    cases hprinted.symm.trans hsecond
    exact heq.trans hvalue
  · exact fun heq => ⟨decimal, printed, hamount, hprinted, heq.trans hvalue.symm⟩

/-- A whole number of stroops can be paid exactly when it is not above the largest amount. -/
theorem payable_amount_iff {amount : String} {decimal : Decimal}
    (hamount : Platform.decimalFromStr amount = .ok decimal)
    (hstroops : ∃ count : Nat, 1 ≤ count ∧ decimal.value = count / 10 ^ 7) :
    (∃ count, 1 ≤ count ∧ count ≤ maxStroops ∧ amountsMatch amount (stroops count) = true) ↔
      decimal.value ≤ maxStroops / 10 ^ 7 := by
  have hpow : (0 : ℚ) < 10 ^ 7 := by positivity
  constructor
  · intro hcounted
    obtain ⟨count, -, hmax, hmatch⟩ := hcounted
    rw [(amounts_match_stroops_iff hamount hmax).mp hmatch, div_le_div_iff_of_pos_right hpow]
    exact_mod_cast hmax
  · intro hle
    obtain ⟨count, hone, hvalue⟩ := hstroops
    have hmax : count ≤ maxStroops := by
      rw [hvalue, div_le_div_iff_of_pos_right hpow] at hle
      exact_mod_cast hle
    exact ⟨count, hone, hmax, (amounts_match_stroops_iff hamount hmax).mpr hvalue⟩

end StellarPay
