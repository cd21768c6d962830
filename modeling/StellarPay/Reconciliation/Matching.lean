import StellarPay.Payments.Validation
import StellarPay.Reconciliation.Payable

/-!
# Matching an amount with a transfer

The parser rounds long numbers, yet no rounding makes an amount match a transfer it should not: an
amount that validation accepted is parsed exactly, or it is far beyond what the ledger can carry.
-/

namespace StellarPay

/-- An amount as Horizon prints it: an integer part, a point and seven digits. -/
structure HorizonAmount (text : String) (whole fraction : List Char) : Prop where
  text_eq : text.toList = whole ++ '.' :: fraction
  whole_digits : ∀ char ∈ whole, char.isDigit = true
  whole_some : whole ≠ []
  fraction_digits : ∀ char ∈ fraction, char.isDigit = true
  fraction_length : fraction.length = 7

/-- Where the next digit does not fit, the number is far beyond the ledger before and after
rounding. -/
theorem Written.beyond_ledger {number : Written} {decimal : Decimal}
    (hdecimal : number.decimal = some decimal) (hpositive : 0 < number.value)
    (hscale : decimal.scale ≤ 7)
    (hlarge : 2 ^ 96 - 1 / 2 ≤ number.magnitude * 10 ^ (decimal.scale + 1)) :
    (maxStroops : ℚ) / 10 ^ 7 < number.value ∧ (maxStroops : ℚ) / 10 ^ 7 < decimal.value := by
  obtain ⟨hsign, hvalue⟩ := value_pos hpositive
  have hpow : (0 : ℚ) < 10 ^ decimal.scale := by positivity
  have hseven : (10 : ℚ) ^ decimal.scale ≤ 10 ^ 7 := pow_le_pow_right₀ (by norm_num) hscale
  rw [pow_succ _ decimal.scale, ← mul_assoc] at hlarge
  have hscaled : (2 ^ 92 : ℚ) ≤ number.magnitude * 10 ^ decimal.scale := by
    norm_num at hlarge ⊢
    linarith
  have hrounded : 2 ^ 92 ≤ number.roundedTo decimal.scale := by
    refine not_lt.mp fun hlt => ?_
    have hless := rounded_lt_iff.mp hlt
    push_cast at hless
    linarith
  have hbound (coefficient : ℚ) (hcoefficient : 2 ^ 92 ≤ coefficient) :
      (maxStroops : ℚ) / 10 ^ 7 < coefficient / 10 ^ decimal.scale := by
    have hmax : (maxStroops : ℚ) < 2 ^ 92 := by
      have hless : maxStroops < 2 ^ 92 := by decide
      exact_mod_cast hless
    calc (maxStroops : ℚ) / 10 ^ 7 < 2 ^ 92 / 10 ^ 7 := by gcongr
      _ ≤ coefficient / 10 ^ decimal.scale := by gcongr
  constructor
  · rw [hvalue]
    simpa [hpow.ne'] using hbound _ hscaled
  · rw [Decimal.value, mantissa_eq hdecimal hsign, Int.cast_natCast]
    exact hbound _ (by exact_mod_cast hrounded)

section Laws

variable [Platform] [ParserLaws]

/-- The amounts of the ledger are parsed exactly. -/
theorem horizon_amount_parsed {text : String} {whole fraction : List Char}
    (htext : HorizonAmount text whole fraction)
    (hledger : Nat.ofDigitChars 10 (whole ++ fraction) 0 ≤ maxStroops) :
    ∃ decimal, Platform.decimalFromStr text = .ok decimal ∧
      decimal.value = Nat.ofDigitChars 10 (whole ++ fraction) 0 / 10 ^ 7 := by
  have hseven := htext.fraction_length
  have hsome : fraction ≠ [] := by
    intro hnil
    simp [hnil] at hseven
  have hread := read_plain (by rw [htext.text_eq, if_neg hsome]) htext.whole_digits
    htext.whole_some htext.fraction_digits
  have hseparators := separator_not_mem (by rw [htext.text_eq, if_neg hsome]) htext.whole_digits
    htext.fraction_digits
  have hmax : maxStroops < 2 ^ 96 := by decide
  obtain ⟨decimal, hparsed, hvalue, -⟩ :=
    parse_exact hread (well_separated_of_not_mem hseparators) (hledger.trans_lt hmax)
      (by dsimp only; omega)
  refine ⟨decimal, hparsed, hvalue.trans ?_⟩
  simp [Written.value, Written.magnitude, hseven]

/-- An accepted amount matches a transfer exactly when it is, as written, what was transferred. -/
theorem amounts_match_exactly {expected actual : String} {decimal : Decimal} {number : Written}
    {whole fraction : List Char} (hvalid : validateAmount expected = .ok decimal)
    (hread : readNumber expected = some number) (hseparated : wellSeparated expected = true)
    (hactual : HorizonAmount actual whole fraction)
    (hledger : Nat.ofDigitChars 10 (whole ++ fraction) 0 ≤ maxStroops) :
    amountsMatch expected actual = true ↔
      number.value = Nat.ofDigitChars 10 (whole ++ fraction) 0 / 10 ^ 7 := by
  obtain ⟨hparsed, hpositive, hscale⟩ := validate_amount_ok hvalid
  obtain ⟨other, hother, hdecimal⟩ := (parsed_iff (readable_of_read hread hseparated)).mp hparsed
  cases hread.symm.trans hother
  obtain ⟨transfer, htransfer, hvalue⟩ := horizon_amount_parsed hactual hledger
  have hmatch : amountsMatch expected actual = true ↔ decimal.value = transfer.value := by
    rw [amounts_match_iff, NumericallyEqual]
    constructor
    · intro hequal
      obtain ⟨first, second, hfirst, hsecond, heq⟩ := hequal
      cases hparsed.symm.trans hfirst
      cases htransfer.symm.trans hsecond
      exact heq
    · exact fun heq => ⟨decimal, transfer, hparsed, htransfer, heq⟩
  rw [hmatch, hvalue]
  rcases Written.decimal_cases hdecimal with ⟨hsame, hexact⟩ | ⟨-, hlimit | hlarge⟩
  · rw [Written.decimal_value hexact, hsame, Written.value, Written.magnitude]
    split <;> simp
  · omega
  · -- Rounded: neither the number nor what it was rounded to is an amount of the ledger.
    obtain ⟨hnumber, hrounded⟩ := Written.beyond_ledger hdecimal
      (Written.pos_of_decimal hdecimal hpositive) hscale hlarge
    have hcarried : (Nat.ofDigitChars 10 (whole ++ fraction) 0 : ℚ) / 10 ^ 7 ≤
        maxStroops / 10 ^ 7 := by gcongr
    exact iff_of_false (hcarried.trans_lt hrounded).ne' (hcarried.trans_lt hnumber).ne'

end Laws

section Example

attribute [local instance] Documented.platform

/-- Ten lumens match a transfer of ten lumens. -/
theorem amounts_match_exactly_ten : amountsMatch "10" "10.0000000" = true := by
  have hvalid : validateAmount "10" = .ok ⟨10, 0, by decide, by decide⟩ := by decide +kernel
  have hread : readNumber "10" = some ⟨false, 10, 0⟩ := by decide +kernel
  have hactual : HorizonAmount "10.0000000" ['1', '0'] ['0', '0', '0', '0', '0', '0', '0'] :=
    ⟨by decide, List.all_eq_true.mp rfl, by decide, List.all_eq_true.mp rfl, rfl⟩
  have hcount : Nat.ofDigitChars 10
      (['1', '0'] ++ ['0', '0', '0', '0', '0', '0', '0']) 0 = 100000000 := by decide
  refine (amounts_match_exactly hvalid hread (by decide) hactual (by decide)).mpr ?_
  rw [hcount]
  norm_num [Written.value, Written.magnitude]

end Example

end StellarPay
