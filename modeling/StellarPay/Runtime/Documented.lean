import StellarPay.Core.Parsing
import StellarPay.Runtime.Exact

/-!
# A platform that reads decimals as documented

The exact platform with `Decimal::from_str` as it is documented, so that the laws of parsing hold as
well as those of decimals.
-/

namespace StellarPay.Documented

/-- `Decimal::from_str`, with an error for what is no decimal. -/
def decimalFromStr (text : String) : Except String Decimal :=
  match Decimal.fromStr text with
  | some decimal => .ok decimal
  | none => .error "invalid decimal"

/-- The platform. -/
@[reducible]
def platform : Platform :=
  { Exact.platform with decimalFromStr := decimalFromStr, decimalFromStr_empty := ⟨_, rfl⟩ }

attribute [local instance] platform

/-- The laws of parsing. -/
instance : ParserLaws where
  from_str {text} _ := by
    change (decimalFromStr text).toOption = _
    unfold decimalFromStr
    cases Decimal.fromStr text <;> rfl

/-- A plain numeral that fits is parsed exactly. -/
theorem numeral_parsed (coefficient scale : Nat) (hcoefficient : coefficient < 2 ^ 96)
    (hscale : scale ≤ 28) :
    ∃ decimal, Platform.decimalFromStr (numeral coefficient scale) = .ok decimal ∧
      decimal.value = (⟨false, coefficient, scale⟩ : Written).value ∧ decimal.scale = scale :=
  parse_exact (read_numeral coefficient scale)
    (well_separated_of_not_mem (separator_not_mem_numeral coefficient scale)) hcoefficient hscale

/-- The laws of decimals. -/
instance : DecimalLaws where
  parse_numeral {coefficient scale} hcoefficient hscale := by
    obtain ⟨decimal, hdecimal, hvalue, -⟩ :=
      numeral_parsed coefficient scale hcoefficient hscale
    exact ⟨decimal, hdecimal, hvalue.trans (by simp [Written.value, Written.magnitude])⟩
  to_string {decimal} hnonneg := if_pos hnonneg
  normalize_value decimal := (Exact.strip_zeros_spec _ _).2.2
  numeric_ok {decimal} _ hrange := ⟨decimal, if_pos (Exact.value_lt_iff.mp hrange), rfl⟩
  numeric_error {decimal} hrange :=
    ⟨_, if_neg fun hsmall => (Exact.value_lt_iff.mpr hsmall).not_ge hrange⟩

/-- The scale. -/
instance : ScaleLaws where
  parse_scale {coefficient scale decimal} hcoefficient hscale hparsed := by
    obtain ⟨other, hother, -, hsame⟩ := numeral_parsed coefficient scale hcoefficient hscale
    cases hparsed.symm.trans hother
    exact hsame

/-- The normal form. -/
instance : NormalLaws where
  normalize_strips _ := Exact.strip_zeros_stripped _ _

end StellarPay.Documented
