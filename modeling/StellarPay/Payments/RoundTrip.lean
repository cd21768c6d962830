import StellarPay.Payments.Amount
import StellarPay.Payments.PostgresLaws
import StellarPay.Payments.Validation
import StellarPay.Reconciliation.Worker

/-!
# Amounts in the database

The text of an amount is parsed, kept by a `NUMERIC(20, 7)` column, normalized and printed. What
comes back is the plain numeral of the number without trailing zeros, so it is parsed as the same
number again and is not changed any further.
-/

namespace StellarPay

variable [Platform]

/-- `kept` stands for the amount that `text` was validated as, in its shortest form. -/
structure Survives (text : String) (decimal : Decimal) (kept : String) : Prop where
  parses : ∃ parsed, Platform.decimalFromStr kept = .ok parsed ∧ parsed.eq decimal = true
  no_trailing_zero : '.' ∈ kept.toList → kept.toList.getLast? ≠ some '0'
  valid : ∃ accepted, validateAmount kept = .ok accepted
  stable : ∀ (payment created : Payment) (key : Option String) (db after : Database),
    payment.amount = kept → db.createWithIdempotencyKey payment key = (.ok created, after) →
      created.amount = kept
  matches_same : ∀ actual, amountsMatch kept actual = amountsMatch text actual

/-- What a creation returns is the amount that the column kept, in normal form. -/
theorem Database.created_amount {payment created : Payment} {key : Option String}
    {db after : Database} (h : db.createWithIdempotencyKey payment key = (.ok created, after)) :
    ∃ asked kept, Platform.decimalFromStr payment.amount = .ok asked ∧
      Platform.numeric asked = .ok kept ∧
      created.amount = Platform.decimalToString (Platform.normalize kept) := by
  rcases Database.create_cases payment key db with
    ⟨error, herror⟩ | ⟨kept, _, hcreate, -, -, -, -, -, asked, hasked, hkept⟩
  · cases herror.symm.trans h
  · cases hcreate.symm.trans h
    exact ⟨asked, kept, hasked, hkept, PaymentRow.view_amount _⟩

/-- Texts that are parsed as the same number match the same texts. -/
theorem amounts_match_congr {first second : String} {left right : Decimal}
    (hfirst : Platform.decimalFromStr first = .ok left)
    (hsecond : Platform.decimalFromStr second = .ok right) (hvalue : left.value = right.value)
    (actual : String) : amountsMatch first actual = amountsMatch second actual := by
  rw [amountsMatch, amountsMatch, hfirst, hsecond]
  cases Platform.decimalFromStr actual with
  | error _ => rfl
  | ok other =>
      rw [Bool.eq_iff_iff, Decimal.eq_iff_value_eq, Decimal.eq_iff_value_eq, hvalue]

variable [DecimalLaws] [NormalLaws]

/-- The normal form of an accepted amount, as the column keeps it. -/
theorem normal_form {asked kept : Decimal} (hpositive : 0 < asked.value)
    (hscale : asked.scale ≤ 7) (hkept : Platform.numeric asked = .ok kept) :
    0 < (Platform.normalize kept).mantissa ∧ (Platform.normalize kept).value = asked.value ∧
      (Platform.normalize kept).scale ≤ 7 := by
  have hvalue : (Platform.normalize kept).value = asked.value :=
    (DecimalLaws.normalize_value kept).trans (Decimal.numeric_value hscale hkept)
  refine ⟨Decimal.value_pos_iff.mp (hvalue ▸ hpositive), hvalue, ?_⟩
  exact (Decimal.scale_le_of_stripped (NormalLaws.normalize_strips kept) hvalue).trans hscale

variable [ScaleLaws]

omit [NormalLaws] in
/-- A decimal that is not negative is parsed from its text with the same scale. -/
theorem parse_printed {decimal : Decimal} (hnonneg : 0 ≤ decimal.mantissa) :
    ∃ parsed, Platform.decimalFromStr (Platform.decimalToString decimal) = .ok parsed ∧
      parsed.value = decimal.value ∧ parsed.scale = decimal.scale := by
  have hbound : decimal.mantissa.toNat < 2 ^ 96 := by
    have := decimal.mantissa_lt
    omega
  rw [DecimalLaws.to_string hnonneg]
  obtain ⟨parsed, hparsed, hvalue⟩ := DecimalLaws.parse_numeral hbound decimal.scale_le
  refine ⟨parsed, hparsed, ?_, ScaleLaws.parse_scale hbound decimal.scale_le hparsed⟩
  have hcast : ((decimal.mantissa.toNat : Nat) : Int) = decimal.mantissa :=
    Int.toNat_of_nonneg hnonneg
  rw [hvalue, Decimal.value, ← Int.cast_natCast, hcast]

/-- What the database returns for an accepted amount. -/
theorem Database.amount_survives {payment created : Payment} {key : Option String}
    {db after : Database} {decimal : Decimal}
    (hvalid : validateAmount payment.amount = .ok decimal)
    (h : db.createWithIdempotencyKey payment key = (.ok created, after)) :
    Survives payment.amount decimal created.amount := by
  obtain ⟨hparsed, hpositive, hscale⟩ := validate_amount_ok hvalid
  obtain ⟨asked, kept, hasked, hkept, hamount⟩ := created_amount h
  cases hparsed.symm.trans hasked
  obtain ⟨hmantissa, hvalue, hshort⟩ := normal_form hpositive hscale hkept
  obtain ⟨printed, hprinted, hsame, hprintedScale⟩ := parse_printed hmantissa.le
  rw [← hamount] at hprinted
  have hprintedPositive : 0 < printed.value := by
    rw [hsame, hvalue]
    exact hpositive
  have hprintedShort : printed.scale ≤ 7 := hprintedScale.trans_le hshort
  refine ⟨⟨printed, hprinted, Decimal.eq_iff_value_eq.mpr (hsame.trans hvalue)⟩, ?_,
    ⟨printed, validate_amount_ok_iff.mpr ⟨hprinted, hprintedPositive, hprintedShort⟩⟩, ?_,
    amounts_match_congr hprinted hparsed (hsame.trans hvalue)⟩
  · rw [hamount, DecimalLaws.to_string hmantissa.le]
    intro hpoint
    by_cases hwhole : (Platform.normalize kept).scale = 0
    · rw [hwhole] at hpoint
      exact absurd hpoint (point_not_mem_numeral _)
    · rw [numeral_last _ hwhole]
      have hdigit := (NormalLaws.normalize_strips kept).resolve_left hwhole
      have hlast : (Platform.normalize kept).mantissa.toNat % 10 ≠ 0 := by omega
      have hlt : (Platform.normalize kept).mantissa.toNat % 10 < 10 := Nat.mod_lt _ (by decide)
      exact fun hzero => digit_char_ne_zero hlt hlast (Option.some.inj hzero)
  · intro other again otherKey store later hother hagain
    obtain ⟨reread, rekept, hreread, hrekept, htext⟩ := created_amount hagain
    rw [hother, hprinted] at hreread
    cases hreread
    obtain ⟨-, hrevalue, -⟩ := normal_form hprintedPositive hprintedShort hrekept
    -- Both normal forms stand for one number, so they are one decimal.
    have hunique := Decimal.eq_of_stripped (NormalLaws.normalize_strips rekept)
      (NormalLaws.normalize_strips kept) (hrevalue.trans hsame)
    rw [htext, hunique, hamount]

end StellarPay
