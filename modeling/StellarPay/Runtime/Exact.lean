import StellarPay.Core.Numerals
import StellarPay.Runtime.Plain

/-!
# A platform with exact decimals

The plain platform with decimals that are printed, normalized and stored as the libraries document
it, so that the laws of decimals hold.
-/

namespace StellarPay.Exact

/-- Remove trailing zeros after the point. -/
def stripZeros : Nat → Int → Int × Nat
  | 0, mantissa => (mantissa, 0)
  | scale + 1, mantissa =>
      if mantissa % 10 = 0 then stripZeros scale (mantissa / 10) else (mantissa, scale + 1)

/-- What is left is no larger, and stands for the same number. -/
theorem strip_zeros_spec (scale : Nat) (mantissa : Int) :
    (stripZeros scale mantissa).1.natAbs ≤ mantissa.natAbs ∧ (stripZeros scale mantissa).2 ≤ scale ∧
      ((stripZeros scale mantissa).1 : ℚ) / 10 ^ (stripZeros scale mantissa).2 =
        mantissa / 10 ^ scale := by
  induction scale generalizing mantissa with
  | zero => exact ⟨le_rfl, le_rfl, rfl⟩
  | succ scale ih =>
      rw [stripZeros]
      split
      · rename_i hzero
        obtain ⟨hsize, hscale, hvalue⟩ := ih (mantissa / 10)
        refine ⟨by omega, by omega, hvalue.trans ?_⟩
        have hten : (mantissa : ℚ) = 10 * (mantissa / 10 : Int) := by
          exact_mod_cast (Int.mul_ediv_cancel' (Int.dvd_of_emod_eq_zero hzero)).symm
        rw [hten, pow_succ]
        field_simp
      · exact ⟨le_rfl, le_rfl, rfl⟩

/-- What is left has no trailing zeros after the point. -/
theorem strip_zeros_stripped (scale : Nat) (mantissa : Int) :
    (stripZeros scale mantissa).2 = 0 ∨ (stripZeros scale mantissa).1 % 10 ≠ 0 := by
  induction scale generalizing mantissa with
  | zero => exact .inl rfl
  | succ scale ih =>
      rw [stripZeros]
      split
      · exact ih _
      · rename_i hdigit
        exact .inr hdigit

/-- `Decimal::normalize`. -/
def normalize (decimal : Decimal) : Decimal where
  mantissa := (stripZeros decimal.scale decimal.mantissa).1
  scale := (stripZeros decimal.scale decimal.mantissa).2
  mantissa_lt := (strip_zeros_spec _ _).1.trans_lt decimal.mantissa_lt
  scale_le := (strip_zeros_spec _ _).2.1.trans decimal.scale_le

/-- `Decimal::to_string`. -/
def decimalToString (decimal : Decimal) : String :=
  if 0 ≤ decimal.mantissa then numeral decimal.mantissa.toNat decimal.scale
  else "-" ++ numeral decimal.mantissa.natAbs decimal.scale

/-- A `NUMERIC(20, 7)` column, for decimals with at most seven fractional digits. -/
def numeric (decimal : Decimal) : Except String Decimal :=
  if decimal.mantissa.natAbs < 10 ^ 13 * 10 ^ decimal.scale then .ok decimal
  else .error "numeric field overflow"

/-- The platform. -/
@[reducible]
def platform : Platform :=
  { Plain.platform with
    normalize := normalize, decimalToString := decimalToString, numeric := numeric }

/-- The digits before the point end at the point. -/
theorem take_while_digits {whole rest : List Char}
    (hwhole : ∀ digit ∈ whole, digit.isDigit = true) :
    (whole ++ '.' :: rest).takeWhile Char.isDigit = whole := by
  rw [List.takeWhile_append_of_pos hwhole]
  simp [Char.isDigit]

/-- A plain numeral is parsed as its coefficient and its scale. -/
theorem parse_numeral_eq (coefficient scale : Nat) :
    Plain.decimalFromStr (numeral coefficient scale) = Plain.decimal coefficient scale := by
  have hwhole : ∀ digit ∈ Nat.toDigits 10 (coefficient / 10 ^ scale), digit.isDigit = true :=
    fun digit hdigit => Nat.isDigit_of_mem_toDigits (by decide) (by decide) hdigit
  have hvalue := of_digit_chars_numeral coefficient scale
  have hsome : Nat.toDigits 10 (coefficient / 10 ^ scale) ≠ [] := Nat.toDigits_ne_nil
  simp only [Plain.decimalFromStr, numeral, String.toList_ofList]
  generalize Nat.toDigits 10 (coefficient / 10 ^ scale) = whole at *
  obtain ⟨first, others, rfl⟩ := List.exists_cons_of_ne_nil hsome
  cases scale with
  | zero =>
      have htake : (first :: others ++ []).takeWhile Char.isDigit =
          first :: others ++ [].takeWhile Char.isDigit := List.takeWhile_append_of_pos hwhole
      rw [List.append_nil, List.takeWhile_nil, List.append_nil] at htake
      simp only [if_pos, List.append_nil, htake, List.drop_length]
      simp only [fixedDigits, List.append_nil] at hvalue
      exact congrArg (fun value : Nat => Plain.decimal value 0) hvalue
  | succ scale =>
      have hfraction : (fixedDigits (scale + 1) coefficient).all Char.isDigit = true :=
        List.all_eq_true.mpr fun digit => is_digit_of_mem_fixed_digits
      have hnonempty : fixedDigits (scale + 1) coefficient ≠ [] := by
        intro h
        simpa using congrArg List.length h
      simp only [Nat.add_one_ne_zero, if_false, take_while_digits hwhole, List.drop_left]
      rw [if_pos ⟨trivial, hnonempty, hfraction⟩, fixed_digits_length]
      exact congrArg (fun value : Nat => Plain.decimal value (scale + 1)) hvalue

attribute [local instance] platform

/-- The column keeps the order of time. -/
theorem timestamptz_mono : ∀ first second, first ≤ second →
    Platform.timestamptz first ≤ Platform.timestamptz second :=
  Plain.timestamptz_mono

/-- The coefficient of a decimal in range of the column is in range. -/
theorem value_lt_iff {decimal : Decimal} :
    |decimal.value| < 10 ^ 13 ↔ decimal.mantissa.natAbs < 10 ^ 13 * 10 ^ decimal.scale := by
  have hpow : (0 : ℚ) < 10 ^ decimal.scale := by positivity
  rw [Decimal.value, abs_div, abs_of_pos hpow, div_lt_iff₀ hpow, ← Int.cast_abs, Int.abs_eq_natAbs]
  exact_mod_cast Iff.rfl

/-- The laws of decimals. -/
instance : DecimalLaws where
  parse_numeral {coefficient scale} hcoefficient hscale := by
    have hrange : (coefficient : Int).natAbs < 2 ^ 96 ∧ scale ≤ 28 := ⟨hcoefficient, hscale⟩
    refine ⟨⟨coefficient, scale, hrange.1, hrange.2⟩, ?_, by simp [Decimal.value]⟩
    exact (parse_numeral_eq coefficient scale).trans (dif_pos hrange)
  to_string {decimal} hnonneg := if_pos hnonneg
  normalize_value decimal := (strip_zeros_spec _ _).2.2
  numeric_ok {decimal} _ hrange := ⟨decimal, if_pos (value_lt_iff.mp hrange), rfl⟩
  numeric_error {decimal} hrange :=
    ⟨_, if_neg fun hsmall => (value_lt_iff.mpr hsmall).not_ge hrange⟩

end StellarPay.Exact
