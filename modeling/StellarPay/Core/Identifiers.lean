import StellarPay.Core.Platform

/-!
# The texts of identifiers

How `uuid` reads the text of an identifier: 32 hexadecimal digits, with hyphens or without them, and
with hyphens also in braces or as a URN. An identifier is read back from the text it is displayed
as.
-/

namespace StellarPay

/-- The value of a hexadecimal digit, small or capital. -/
def hexValue (char : Char) : Option Nat :=
  if '0' ≤ char ∧ char ≤ '9' then some (char.toNat - '0'.toNat)
  else if 'a' ≤ char ∧ char ≤ 'f' then some (char.toNat - 'a'.toNat + 10)
  else if 'A' ≤ char ∧ char ≤ 'F' then some (char.toNat - 'A'.toNat + 10)
  else none

/-- The number that hexadecimal digits stand for, after the digits of another one. -/
def hexNumber : Nat → List Char → Option Nat
  | before, [] => some before
  | before, char :: rest => do
      let digit ← hexValue char
      hexNumber (16 * before + digit) rest

namespace Uuid

/-- `parse_simple`. -/
def parseSimple (digits : List Char) : Option Uuid :=
  (hexNumber 0 digits).map (BitVec.ofNat 128)

/-- `parse_hyphenated`. -/
def parseHyphenated (chars : List Char) : Option Uuid :=
  if chars[8]? = some '-' ∧ chars[13]? = some '-' ∧ chars[18]? = some '-' ∧
      chars[23]? = some '-' then
    parseSimple (chars.take 8 ++ (chars.drop 9).take 4 ++ (chars.drop 14).take 4 ++
      (chars.drop 19).take 4 ++ chars.drop 24)
  else none

/-- `Uuid::parse_str`. -/
def parseStr (text : String) : Option Uuid :=
  let chars := text.toList
  match chars.length with
  | 32 => parseSimple chars
  | 36 => parseHyphenated chars
  | 38 =>
      if chars.head? = some '{' ∧ chars.getLast? = some '}' then parseHyphenated chars.tail.dropLast
      else none
  | 45 => if "urn:uuid:".toList <+: chars then parseHyphenated (chars.drop 9) else none
  | _ => none

end Uuid

/-- The last hexadecimal digits of a number, as many as `width`. -/
def hexDigits (width number : Nat) : List Char :=
  (List.range width).map fun index => Nat.digitChar (number / 16 ^ (width - 1 - index) % 16)

/-- The last digit is that of the remainder. -/
theorem hex_digits_succ (width number : Nat) :
    hexDigits (width + 1) number =
      hexDigits width (number / 16) ++ [Nat.digitChar (number % 16)] := by
  rw [hexDigits, List.range_succ, List.map_append, List.map_singleton]
  congr 1
  · refine List.map_congr_left fun index hindex => ?_
    have hlt := List.mem_range.mp hindex
    have hplace : (width - 1 - index).succ = width + 1 - 1 - index := by omega
    rw [Nat.div_div_eq_div_mul, ← Nat.pow_succ', hplace]
  · simp

/-- Digits are read as their value. -/
theorem hex_value_digit_char : ∀ digit < 16, hexValue (Nat.digitChar digit) = some digit := by
  decide

/-- Digits behind others are read after them. -/
theorem hex_number_append (before : Nat) (first second : List Char) :
    hexNumber before (first ++ second) =
      (hexNumber before first).bind fun value => hexNumber value second := by
  induction first generalizing before with
  | nil => rfl
  | cons char rest ih =>
      rw [List.cons_append, hexNumber, hexNumber]
      cases hexValue char with
      | none => rfl
      | some digit => exact ih _

/-- The last digits of a number are read as its remainder. -/
theorem hex_number_digits (width number : Nat) :
    hexNumber 0 (hexDigits width number) = some (number % 16 ^ width) := by
  induction width generalizing number with
  | zero => simp [hexDigits, hexNumber, Nat.mod_one]
  | succ width ih =>
      have hdigit : hexValue (Nat.digitChar (number % 16)) = some (number % 16) :=
        hex_value_digit_char _ (Nat.mod_lt _ (by decide))
      rw [hex_digits_succ, hex_number_append, ih, Option.bind_some, hexNumber, hdigit,
        Nat.pow_succ', Nat.mod_mul]
      simp only [hexNumber, Option.bind_eq_bind, Option.bind_some, Option.some.injEq]
      omega

namespace Uuid

/-- The digits of an identifier. -/
theorem simple_eq (id : Uuid) : id.simple.toList = hexDigits 32 id.toNat :=
  String.toList_ofList

/-- An identifier is read back from its digits. -/
theorem parse_simple_digits (id : Uuid) : parseSimple (hexDigits 32 id.toNat) = some id := by
  rw [parseSimple, hex_number_digits, Option.map_some, Nat.mod_eq_of_lt (by simpa using id.isLt)]
  simp

/-- Digits with hyphens between them are read as those without. -/
theorem parse_hyphenated_pieces {first second third fourth fifth : List Char}
    (hfirst : first.length = 8) (hsecond : second.length = 4) (hthird : third.length = 4)
    (hfourth : fourth.length = 4) :
    parseHyphenated
        (first ++ '-' :: (second ++ '-' :: (third ++ '-' :: (fourth ++ '-' :: fifth)))) =
      parseSimple (first ++ second ++ third ++ fourth ++ fifth) := by
  simp [parseHyphenated, List.getElem?_append, List.drop_append, List.drop_of_length_le, hfirst,
    hsecond, hthird, hfourth]

/-- The pieces of a text, put together. -/
theorem pieces_eq (digits : List Char) :
    digits.take 8 ++ (digits.drop 8).take 4 ++ (digits.drop 12).take 4 ++
      (digits.drop 16).take 4 ++ digits.drop 20 = digits := by
  have hdrop : ∀ count, (digits.drop count).take 4 ++ digits.drop (count + 4) =
      digits.drop count := fun count => by
    rw [← List.drop_drop, List.take_append_drop]
  rw [List.append_assoc, List.append_assoc, List.append_assoc, hdrop 16, hdrop 12, hdrop 8,
    List.take_append_drop]

/-- An identifier is read back from the text it is displayed as. -/
theorem parse_str_hyphenated (id : Uuid) : parseStr id.hyphenated = some id := by
  have hlength : (hexDigits 32 id.toNat).length = 32 := by simp [hexDigits]
  have htext : id.hyphenated.toList.length = 36 := by simp [hyphenated, simple_eq, hlength]
  rw [parseStr, htext]
  simp only [hyphenated, simple_eq, String.toList_ofList, List.append_assoc, List.cons_append]
  rw [parse_hyphenated_pieces (by simp [hlength]) (by simp [hlength]) (by simp [hlength])
    (by simp [hlength]), pieces_eq, parse_simple_digits]

end Uuid

end StellarPay
