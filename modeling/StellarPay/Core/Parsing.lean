import StellarPay.Core.Numerals
import Mathlib.Tactic.Linarith

/-!
# How a decimal is read

`Decimal::from_str` as it is documented for plain numerals: a sign or none, digits with separators
among them, and at most one point. The written scale is kept while the coefficient has 96 bits and
the scale is at most 28. Fractional digits beyond that are rounded half up, and a number whose
integer part does not fit is an error. `ParserLaws` says that the platform reads numerals this way,
and refuses short texts that are none. Nothing is known of texts with an exponent, nor of what
stands behind digits that are rounded away.
-/

namespace StellarPay

/-- A number as it is written: a sign, all its digits as one number, and how many of them stand
after the point. -/
structure Written where
  negative : Bool
  coefficient : Nat
  scale : Nat
  deriving DecidableEq

/-- Read the rest of a number behind what has been read. A separator has a digit before it, and a
number has a digit. -/
def readRest (point seen : Bool) (number : Written) : List Char → Option Written
  | [] => if seen then some number else none
  | char :: rest =>
      if char.isDigit then
        readRest point true
          { number with
            coefficient := 10 * number.coefficient + (char.toNat - '0'.toNat)
            scale := if point then number.scale + 1 else number.scale }
          rest
      else if char = '.' ∧ point = false then readRest true seen number rest
      else if char = '_' ∧ seen = true then readRest point seen number rest
      else none

/-- The number that a text stands for, if it is one. -/
def readNumber (text : String) : Option Written :=
  match text.toList with
  | '-' :: rest => readRest false false ⟨true, 0, 0⟩ rest
  | '+' :: rest => readRest false false ⟨false, 0, 0⟩ rest
  | rest => readRest false false ⟨false, 0, 0⟩ rest

namespace Written

/-- The magnitude of the number. -/
def magnitude (number : Written) : ℚ :=
  number.coefficient / 10 ^ number.scale

/-- The number that was written. -/
def value (number : Written) : ℚ :=
  if number.negative then -number.magnitude else number.magnitude

/-- The coefficient of the magnitude at another scale, rounded half up. -/
def roundedTo (number : Written) (scale : Nat) : Nat :=
  (2 * number.coefficient * 10 ^ scale + 10 ^ number.scale) / (2 * 10 ^ number.scale)

/-- A coefficient with the sign of the number. -/
def signed (number : Written) (coefficient : Nat) : Int :=
  if number.negative then -coefficient else coefficient

@[simp]
theorem signed_nat_abs (number : Written) (coefficient : Nat) :
    (number.signed coefficient).natAbs = coefficient := by
  unfold signed
  split <;> simp

/-- The number at the largest scale, from `scale` down, at which its coefficient fits. -/
def fit (number : Written) : (scale : Nat) → scale ≤ 28 → Option Decimal
  | 0, hscale =>
      if hfits : number.roundedTo 0 < 2 ^ 96 then
        some ⟨number.signed (number.roundedTo 0), 0, by rwa [signed_nat_abs], hscale⟩
      else none
  | scale + 1, hscale =>
      if hfits : number.roundedTo (scale + 1) < 2 ^ 96 then
        some ⟨number.signed (number.roundedTo (scale + 1)), scale + 1, by rwa [signed_nat_abs],
          hscale⟩
      else number.fit scale (Nat.le_of_succ_le hscale)

/-- The decimal that a written number is read as. -/
def decimal (number : Written) : Option Decimal :=
  number.fit (min number.scale 28) (Nat.min_le_right _ _)

end Written

/-- `Decimal::from_str`. -/
def Decimal.fromStr (text : String) : Option Decimal :=
  (readNumber text).bind Written.decimal

/-- What stands behind the point. -/
def fractionOf (text : String) : List Char :=
  (text.toList.dropWhile fun char => char != '.').drop 1

/-- Behind the point separators stand only among fewer than 28 digits. -/
def wellSeparated (text : String) : Bool :=
  !(fractionOf text).contains '_' || (fractionOf text).countP Char.isDigit < 28

/-- At most 27 digits, and no mark of an exponent: such a text is read to its end. -/
def shortText (text : String) : Bool :=
  text.toList.all (fun char => char != 'e' && char != 'E') &&
    text.toList.countP Char.isDigit ≤ 27

/-- The texts whose reading is documented: numerals whose separators are well placed, and short
texts that are no numerals. -/
def readable (text : String) : Bool :=
  if (readNumber text).isSome then wellSeparated text else shortText text

/-- The platform reads decimals as documented. -/
class ParserLaws [Platform] : Prop where
  from_str {text : String} : readable text = true →
    (Platform.decimalFromStr text).toOption = Decimal.fromStr text

/-- A text without separators has none that is misplaced. -/
theorem well_separated_of_not_mem {text : String} (h : '_' ∉ text.toList) :
    wellSeparated text = true := by
  have hnone : '_' ∉ fractionOf text := fun hmem =>
    h ((List.dropWhile_sublist _).subset (List.mem_of_mem_drop hmem))
  simp [wellSeparated, hnone]

/-- The reading of such a numeral is documented. -/
theorem readable_of_read {text : String} {number : Written} (hread : readNumber text = some number)
    (hseparated : wellSeparated text = true) : readable text = true := by
  rw [readable, hread]
  exact hseparated

namespace Written

/-- A magnitude rounds below a bound exactly when it is below it by more than a half. -/
theorem rounded_lt_iff {number : Written} {scale bound : Nat} :
    number.roundedTo scale < bound ↔ number.magnitude * 10 ^ scale < bound - 1 / 2 := by
  have hpow : (0 : ℚ) < 10 ^ number.scale := by positivity
  rw [roundedTo, Nat.div_lt_iff_lt_mul (by positivity), magnitude, lt_sub_iff_add_lt,
    div_mul_eq_mul_div, div_add' _ _ _ hpow.ne', div_lt_iff₀ hpow]
  constructor
  · intro h
    have hcast : (2 * number.coefficient * 10 ^ scale + 10 ^ number.scale : ℚ) <
        bound * (2 * 10 ^ number.scale) := by exact_mod_cast h
    linarith
  · intro h
    have hcast : (2 * number.coefficient * 10 ^ scale + 10 ^ number.scale : ℚ) <
        bound * (2 * 10 ^ number.scale) := by linarith
    exact_mod_cast hcast

/-- At the written scale nothing is rounded. -/
theorem rounded_self (number : Written) : number.roundedTo number.scale = number.coefficient := by
  have hpow : 0 < 10 ^ number.scale := by positivity
  have hsplit : 2 * number.coefficient * 10 ^ number.scale + 10 ^ number.scale =
      10 ^ number.scale + number.coefficient * (2 * 10 ^ number.scale) := by ring
  rw [roundedTo, hsplit, Nat.add_mul_div_right _ _ (by positivity),
    Nat.div_eq_of_lt (by omega), Nat.zero_add]

/-- Rounding at a larger scale gives a larger coefficient. -/
theorem rounded_mono (number : Written) {first second : Nat} (hle : first ≤ second) :
    number.roundedTo first ≤ number.roundedTo second := by
  refine Nat.div_le_div_right (Nat.add_le_add_right (Nat.mul_le_mul_left _ ?_) _)
  exact Nat.pow_le_pow_right (by decide) hle

/-- What the search for a scale finds. -/
theorem fit_eq_some {number : Written} {scale : Nat} {hscale : scale ≤ 28} {decimal : Decimal}
    (h : number.fit scale hscale = some decimal) :
    decimal.mantissa = number.signed (number.roundedTo decimal.scale) ∧ decimal.scale ≤ scale ∧
      number.roundedTo decimal.scale < 2 ^ 96 ∧
      ∀ larger, decimal.scale < larger → larger ≤ scale → 2 ^ 96 ≤ number.roundedTo larger := by
  induction scale with
  | zero =>
      rw [fit] at h
      split at h
      · rename_i hfits
        cases h
        exact ⟨rfl, le_rfl, hfits, fun larger hlt hle => absurd hle (Nat.not_le.mpr hlt)⟩
      · cases h
  | succ scale ih =>
      rw [fit] at h
      split at h
      · rename_i hfits
        cases h
        exact ⟨rfl, le_rfl, hfits, fun larger hlt hle => absurd hle (Nat.not_le.mpr hlt)⟩
      · rename_i hlarge
        obtain ⟨hmantissa, hle, hfits, hmore⟩ := ih h
        refine ⟨hmantissa, Nat.le_succ_of_le hle, hfits, fun larger hlt hbound => ?_⟩
        rcases Nat.lt_or_eq_of_le hbound with hless | rfl
        · exact hmore larger hlt (Nat.le_of_lt_succ hless)
        · exact Nat.not_lt.mp hlarge

/-- The search fails when the integer part does not fit. -/
theorem fit_eq_none {number : Written} {scale : Nat} {hscale : scale ≤ 28}
    (h : number.fit scale hscale = none) : 2 ^ 96 ≤ number.roundedTo 0 := by
  induction scale with
  | zero =>
      rw [fit] at h
      split at h
      · cases h
      · rename_i hlarge
        exact Nat.not_lt.mp hlarge
  | succ scale ih =>
      rw [fit] at h
      split at h
      · cases h
      · exact ih h

/-- The magnitude is not negative. -/
theorem magnitude_nonneg (number : Written) : 0 ≤ number.magnitude := by
  unfold magnitude
  positivity

/-- A magnitude that is a whole number at some scale is not rounded there. -/
theorem rounded_eq {number : Written} {scale coefficient : Nat}
    (h : number.magnitude * 10 ^ scale = coefficient) : number.roundedTo scale = coefficient := by
  refine Nat.le_antisymm (Nat.le_of_lt_succ (rounded_lt_iff.mpr ?_)) (Nat.not_lt.mp fun hlt => ?_)
  · rw [h]
    push_cast
    linarith
  · have hless := rounded_lt_iff.mp hlt
    rw [h] at hless
    linarith

/-- A number is read unless its integer part does not fit. -/
theorem decimal_eq_none_iff {number : Written} :
    number.decimal = none ↔ 2 ^ 96 ≤ number.roundedTo 0 := by
  constructor
  · exact fit_eq_none
  · intro hlarge
    cases hdecimal : number.decimal with
    | none => rfl
    | some decimal =>
        obtain ⟨-, -, hfits, -⟩ := fit_eq_some hdecimal
        have hmono := number.rounded_mono (Nat.zero_le decimal.scale)
        omega

/-- What a written number is read as: itself, or rounded at the largest scale, or at one where the
next digit does not fit. -/
theorem decimal_cases {number : Written} {decimal : Decimal} (h : number.decimal = some decimal) :
    decimal.scale = number.scale ∧ decimal.mantissa = number.signed number.coefficient ∨
      decimal.scale < number.scale ∧ (decimal.scale = 28 ∨
        2 ^ 96 - 1 / 2 ≤ number.magnitude * 10 ^ (decimal.scale + 1)) := by
  obtain ⟨hmantissa, hle, -, hmore⟩ := fit_eq_some h
  by_cases hscale : decimal.scale = number.scale
  · refine .inl ⟨hscale, ?_⟩
    rw [hmantissa, hscale, rounded_self]
  · refine .inr ⟨by omega, ?_⟩
    by_cases hlimit : decimal.scale = 28
    · exact .inl hlimit
    · -- The search went on to a smaller scale because the next larger one did not fit.
      have hnext := hmore (decimal.scale + 1) (Nat.lt_succ_self _) (by omega)
      have hlarge := mt rounded_lt_iff.mpr (Nat.not_lt.mpr hnext)
      refine .inr (le_of_not_gt fun hless => hlarge ?_)
      exact_mod_cast hless

/-- The number that is read, from its coefficient. -/
theorem decimal_value {number : Written} {decimal : Decimal} {coefficient : Nat}
    (h : decimal.mantissa = number.signed coefficient) :
    decimal.value =
      (if number.negative then -1 else 1) * (coefficient / 10 ^ decimal.scale : ℚ) := by
  rw [Decimal.value, h, signed]
  split
  · push_cast
    ring
  · push_cast
    ring

/-- A number that fits is read exactly, with the scale it is written with. -/
theorem decimal_exact {number : Written} (hcoefficient : number.coefficient < 2 ^ 96)
    (hscale : number.scale ≤ 28) :
    ∃ decimal, number.decimal = some decimal ∧ decimal.value = number.value ∧
      decimal.scale = number.scale ∧ decimal.mantissa = number.signed number.coefficient := by
  have hmin : min number.scale 28 = number.scale := Nat.min_eq_left hscale
  cases hdecimal : number.decimal with
  | none =>
      have hlarge := decimal_eq_none_iff.mp hdecimal
      have hmono := number.rounded_mono (Nat.zero_le number.scale)
      rw [rounded_self] at hmono
      omega
  | some decimal =>
      obtain ⟨hmantissa, hle, -, hmore⟩ := fit_eq_some hdecimal
      have hsame : decimal.scale = number.scale := by
        by_contra hne
        have hlarge := hmore number.scale (by omega) hmin.ge
        rw [rounded_self] at hlarge
        omega
      rw [hsame, rounded_self] at hmantissa
      refine ⟨decimal, rfl, ?_, hsame, hmantissa⟩
      rw [decimal_value hmantissa, hsame, value, magnitude]
      split <;> ring

end Written

/-- A digit that is read. -/
theorem read_digit {point seen : Bool} {number : Written} {char : Char} {rest : List Char}
    (h : char.isDigit = true) :
    readRest point seen number (char :: rest) =
      readRest point true
        { number with
          coefficient := 10 * number.coefficient + (char.toNat - '0'.toNat)
          scale := if point then number.scale + 1 else number.scale }
        rest := by
  rw [readRest, if_pos h]

/-- Digits are read as the number they stand for, and count as fractional digits behind the
point. -/
theorem read_digits {digits rest : List Char} (hdigits : ∀ char ∈ digits, char.isDigit = true)
    (hsome : digits ≠ []) (point seen negative : Bool) (coefficient scale : Nat) :
    readRest point seen ⟨negative, coefficient, scale⟩ (digits ++ rest) =
      readRest point true ⟨negative, Nat.ofDigitChars 10 digits coefficient,
        if point then scale + digits.length else scale⟩ rest := by
  induction digits generalizing seen coefficient scale with
  | nil => exact absurd rfl hsome
  | cons char others ih =>
      rw [List.cons_append, read_digit (hdigits char List.mem_cons_self)]
      dsimp only
      rcases others with _ | ⟨next, others⟩
      · cases point <;> rfl
      · rw [ih (fun other hother => hdigits other (List.mem_cons_of_mem _ hother)) (by simp)]
        cases point <;> simp [Nat.ofDigitChars_cons, Nat.add_comm, Nat.add_left_comm]

/-- A text of digits, with a point and digits behind it or without, as a number. -/
theorem read_plain {text : String} {whole fraction : List Char}
    (htext : text.toList = whole ++ if fraction = [] then [] else '.' :: fraction)
    (hwhole : ∀ char ∈ whole, char.isDigit = true) (hsome : whole ≠ [])
    (hfraction : ∀ char ∈ fraction, char.isDigit = true) :
    readNumber text =
      some ⟨false, Nat.ofDigitChars 10 (whole ++ fraction) 0, fraction.length⟩ := by
  obtain ⟨first, others, rfl⟩ := List.exists_cons_of_ne_nil hsome
  have hfirst := hwhole first List.mem_cons_self
  have hread : readNumber text = readRest false false ⟨false, 0, 0⟩ text.toList := by
    unfold readNumber
    rw [htext, List.cons_append]
    split
    · rename_i heq
      cases heq
      cases hfirst
    · rename_i heq
      cases heq
      cases hfirst
    · rfl
  rw [hread, htext, read_digits hwhole hsome]
  by_cases hnone : fraction = []
  · subst hnone
    simp [readRest]
  · rw [if_neg hnone, Nat.ofDigitChars_append]
    have hpoint : readRest false true
        ⟨false, Nat.ofDigitChars 10 (first :: others) 0, 0⟩ ('.' :: fraction) =
          readRest true true ⟨false, Nat.ofDigitChars 10 (first :: others) 0, 0⟩ fraction := by
      rw [readRest, if_neg (by decide), if_pos ⟨rfl, rfl⟩]
    have hdigits := @read_digits fraction [] hfraction hnone true true false
      (Nat.ofDigitChars 10 (first :: others) 0) 0
    rw [List.append_nil] at hdigits
    rw [if_neg Bool.false_ne_true, hpoint, hdigits]
    simp [readRest]

/-- Digits with a point among them have no separator. -/
theorem separator_not_mem {text : String} {whole fraction : List Char}
    (htext : text.toList = whole ++ if fraction = [] then [] else '.' :: fraction)
    (hwhole : ∀ char ∈ whole, char.isDigit = true)
    (hfraction : ∀ char ∈ fraction, char.isDigit = true) : '_' ∉ text.toList := by
  rw [htext]
  intro hmem
  rcases List.mem_append.mp hmem with hmem | hmem
  · exact absurd (hwhole _ hmem) (by decide)
  · split at hmem
    · cases hmem
    · rcases List.mem_cons.mp hmem with heq | hmem
      · cases heq
      · exact absurd (hfraction _ hmem) (by decide)

/-- A plain numeral is read as its coefficient and its scale. -/
theorem read_numeral (coefficient scale : Nat) :
    readNumber (numeral coefficient scale) = some ⟨false, coefficient, scale⟩ := by
  have hvalue := of_digit_chars_numeral coefficient scale
  have hlength := fixed_digits_length scale coefficient
  have hread := @read_plain (numeral coefficient scale) (Nat.toDigits 10 (coefficient / 10 ^ scale))
    (fixedDigits scale coefficient) ?_
    (fun char hchar => Nat.isDigit_of_mem_toDigits (by decide) (by decide) hchar)
    Nat.toDigits_ne_nil (fun char hchar => is_digit_of_mem_fixed_digits hchar)
  · rw [hread, hvalue, hlength]
  · rw [numeral, String.toList_ofList]
    cases scale with
    | zero => rfl
    | succ scale =>
        have hnonempty : fixedDigits (scale + 1) coefficient ≠ [] := by
          intro hnil
          simp [hnil] at hlength
        rw [if_neg (Nat.succ_ne_zero _), if_neg hnonempty]

/-- A plain numeral has no separator. -/
theorem separator_not_mem_numeral (coefficient scale : Nat) :
    '_' ∉ (numeral coefficient scale).toList := by
  rw [numeral, String.toList_ofList]
  intro hmem
  rcases List.mem_append.mp hmem with hmem | hmem
  · exact absurd (Nat.isDigit_of_mem_toDigits (by decide) (by decide) hmem) (by decide)
  · split at hmem
    · cases hmem
    · rcases List.mem_cons.mp hmem with heq | hmem
      · cases heq
      · exact absurd (is_digit_of_mem_fixed_digits hmem) (by decide)

section Platform

variable [Platform] [ParserLaws]

/-- A text is parsed exactly when the documented reading gives a decimal. -/
theorem parsed_iff {text : String} {decimal : Decimal} (hreadable : readable text = true) :
    Platform.decimalFromStr text = .ok decimal ↔
      ∃ number, readNumber text = some number ∧ number.decimal = some decimal := by
  have hlaw := ParserLaws.from_str hreadable
  rw [Decimal.fromStr] at hlaw
  rw [← Option.bind_eq_some_iff, ← hlaw]
  cases Platform.decimalFromStr text <;> simp [Except.toOption]

/-- What a text is parsed as when the number it stands for fits. -/
theorem parse_exact {text : String} {number : Written} (hread : readNumber text = some number)
    (hseparated : wellSeparated text = true) (hcoefficient : number.coefficient < 2 ^ 96)
    (hscale : number.scale ≤ 28) :
    ∃ decimal, Platform.decimalFromStr text = .ok decimal ∧ decimal.value = number.value ∧
      decimal.scale = number.scale := by
  obtain ⟨decimal, hdecimal, hvalue, hsame, -⟩ := Written.decimal_exact hcoefficient hscale
  have hreadable := readable_of_read hread hseparated
  exact ⟨decimal, (parsed_iff hreadable).mpr ⟨number, hread, hdecimal⟩, hvalue, hsame⟩

end Platform

end StellarPay
