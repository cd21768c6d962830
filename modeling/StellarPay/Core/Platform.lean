import Mathlib.Data.List.AList
import Mathlib.Data.List.FinRange
import Mathlib.Data.List.Sort
import Mathlib.Data.Rat.Cast.Order
import Mathlib.Tactic.FieldSimp

/-!
# What the crates take from elsewhere

Identifiers, instants, decimals and hash maps as the libraries document them. What cannot be
read from their documentation alone, such as the exact texts `rust_decimal` parses, is the
class `Platform`, a parameter of the whole development.
-/

namespace StellarPay

/-- A 128-bit identifier (`uuid::Uuid`). -/
abbrev Uuid : Type := BitVec 128

/-- The 32 lowercase hexadecimal digits of an identifier (`Uuid::simple`). -/
def Uuid.simple (id : Uuid) : String :=
  String.ofList ((List.range 32).map fun index => Nat.digitChar (id.toNat / 16 ^ (31 - index) % 16))

/-- The hyphenated text of an identifier, which is also how it is displayed. -/
def Uuid.hyphenated (id : Uuid) : String :=
  let digits := id.simple.toList
  String.ofList (digits.take 8 ++ '-' :: (digits.drop 8).take 4 ++ '-' :: (digits.drop 12).take 4 ++
    '-' :: (digits.drop 16).take 4 ++ '-' :: digits.drop 20)

/-- An instant in nanoseconds since the Unix epoch (`chrono::DateTime<Utc>`). -/
abbrev DateTime : Type := Int

/-- A signed length of time in nanoseconds (`chrono::Duration`). -/
abbrev TimeDelta : Type := Int

/-- A length of time in nanoseconds (`std::time::Duration`). -/
abbrev Duration : Type := Nat

/-- `chrono::Duration::from_std`: lengths beyond `i64::MAX` milliseconds are out of range. -/
def TimeDelta.fromStd (duration : Duration) : Option TimeDelta :=
  if duration ≤ (2 ^ 63 - 1) * 10 ^ 6 then some duration else none

/-- A hash map. The order of the entries is arbitrary and no operation below depends on it. -/
abbrev HashMap (κ ν : Type) : Type := AList fun _ : κ => ν

namespace HashMap

variable {κ ν : Type}

/-- The values in the map's own order. -/
def values (map : HashMap κ ν) : List ν :=
  map.entries.map Sigma.snd

/-- The values are those that some key maps to. -/
theorem mem_values [DecidableEq κ] {map : HashMap κ ν} {value : ν} :
    value ∈ map.values ↔ ∃ key, map.lookup key = some value := by
  simp only [values, List.mem_map]
  constructor
  · rintro ⟨⟨key, _⟩, hentry, rfl⟩
    exact ⟨key, AList.mem_lookup_iff.mpr hentry⟩
  · intro hlookup
    obtain ⟨key, hkey⟩ := hlookup
    exact ⟨⟨key, value⟩, AList.mem_lookup_iff.mp hkey, rfl⟩

/-- Looking up after an insertion. -/
theorem lookup_insert_eq [DecidableEq κ] (map : HashMap κ ν) (key other : κ) (value : ν) :
    (map.insert key value : HashMap κ ν).lookup other =
      if other = key then some value else map.lookup other := by
  by_cases h : other = key
  · subst h
    simp
  · simp [h, AList.lookup_insert_ne h]

/-- Replacing a value by a related one relates every value to the one under its key. -/
theorem insert_keeps [DecidableEq κ] {map : HashMap κ ν} (relation : ν → ν → Prop)
    (hrefl : ∀ value, relation value value) {target key : κ} {old new value : ν}
    (hold : map.lookup target = some old) (hnew : relation old new)
    (hvalue : map.lookup key = some value) :
    ∃ later, (map.insert target new : HashMap κ ν).lookup key = some later ∧
      relation value later := by
  rw [lookup_insert_eq]
  by_cases hkey : key = target
  · subst hkey
    cases hold.symm.trans hvalue
    exact ⟨new, if_pos rfl, hnew⟩
  · exact ⟨value, (if_neg hkey).trans hvalue, hrefl value⟩

/-- Values that carry their own key are distinct in it. -/
theorem values_nodup {map : HashMap κ ν} [DecidableEq κ] {name : ν → κ}
    (hkeyed : ∀ key value, map.lookup key = some value → name value = key) :
    (map.values.map name).Nodup := by
  have hkeys : map.values.map name = map.keys := by
    rw [values, List.map_map]
    refine List.map_congr_left fun entry hentry => ?_
    exact hkeyed entry.1 entry.2 (AList.mem_lookup_iff.mpr hentry)
  rw [hkeys]
  exact map.nodupKeys

/-- There is one value for every key. -/
theorem length_values (map : HashMap κ ν) : map.values.length = map.keys.length := by
  simp only [values, AList.keys, List.keys, List.length_map]

/-- Inserting under a new key adds a value. -/
theorem length_values_insert_new [DecidableEq κ] {map : HashMap κ ν} {key : κ} {value : ν}
    (hnew : map.lookup key = none) :
    (values (map.insert key value)).length = map.values.length + 1 := by
  have hkeys : key ∉ map.keys := AList.lookup_eq_none.mp hnew
  rw [length_values, length_values, AList.keys_insert, List.length_cons,
    List.erase_of_not_mem hkeys]

/-- Inserting under a key that is in use replaces its value. -/
theorem length_values_insert_old [DecidableEq κ] {map : HashMap κ ν} {key : κ} {old value : ν}
    (hold : map.lookup key = some old) :
    (values (map.insert key value)).length = map.values.length := by
  have hkey : key ∈ map.keys := AList.lookup_isSome.mp (Option.isSome_iff_exists.mpr ⟨old, hold⟩)
  have hpos := List.length_pos_of_mem hkey
  rw [length_values, length_values, AList.keys_insert, List.length_cons,
    List.length_erase_of_mem hkey]
  omega

end HashMap

/-- An order in which a map is iterated or a table scanned, as a permutation of the positions. -/
abbrev Scan : Type := (length : Nat) → Equiv.Perm (Fin length)

namespace Scan

/-- The elements in the order of the scan. -/
def order {α : Type} (scan : Scan) (elements : List α) : List α :=
  List.ofFn fun position => elements.get (scan elements.length position)

/-- A scan visits every element once. -/
theorem order_perm {α : Type} (scan : Scan) (elements : List α) :
    (scan.order elements).Perm elements := by
  have hperm := Equiv.Perm.ofFn_comp_perm (scan elements.length) elements.get
  rwa [List.ofFn_get] at hperm

@[simp]
theorem mem_order {α : Type} {scan : Scan} {elements : List α} {element : α} :
    element ∈ scan.order elements ↔ element ∈ elements :=
  (scan.order_perm elements).mem_iff

end Scan

/-- Sort by an instant, earliest first, keeping the given order among equals (`sort_by_key`). -/
def sortByKey {α : Type} (key : α → DateTime) (elements : List α) : List α :=
  elements.insertionSort fun first second => key first ≤ key second

/-- Sorting neither adds nor removes elements. -/
theorem sort_by_key_perm {α : Type} (key : α → DateTime) (elements : List α) :
    (sortByKey key elements).Perm elements :=
  List.perm_insertionSort _ _

/-- The result is in ascending order. -/
theorem sort_by_key_sorted {α : Type} (key : α → DateTime) (elements : List α) :
    (sortByKey key elements).Pairwise fun first second => key first ≤ key second := by
  have htotal : Std.Total fun first second : α => key first ≤ key second :=
    ⟨fun first second => Int.le_total (key first) (key second)⟩
  have htrans : IsTrans α fun first second => key first ≤ key second :=
    ⟨fun _ _ _ => Int.le_trans⟩
  exact List.pairwise_insertionSort _ _

/-- Reading rows succeeds when every row reads. -/
theorem mapM_eq_map {α β ε : Type} {read : α → Except ε β} {value : α → β} {rows : List α}
    (h : ∀ row ∈ rows, read row = .ok (value row)) : rows.mapM read = .ok (rows.map value) := by
  induction rows with
  | nil => rfl
  | cons row rest ih =>
      have hrest := ih fun other hother => h other (List.mem_cons_of_mem _ hother)
      rw [List.mapM_cons, h row List.mem_cons_self, hrest]
      rfl

/-- A 96-bit coefficient with a power of ten (`rust_decimal::Decimal`). -/
structure Decimal where
  mantissa : Int
  scale : Nat
  mantissa_lt : mantissa.natAbs < 2 ^ 96
  scale_le : scale ≤ 28
  deriving DecidableEq

namespace Decimal

/-- The number a decimal stands for. -/
def value (decimal : Decimal) : ℚ :=
  decimal.mantissa / 10 ^ decimal.scale

/-- `Decimal::ZERO`. -/
def zero : Decimal :=
  ⟨0, 0, by decide, by decide⟩

/-- Equality of decimals, which ignores trailing zeros (`PartialEq`). -/
def eq (left right : Decimal) : Bool :=
  left.mantissa * 10 ^ right.scale == right.mantissa * 10 ^ left.scale

/-- The order of decimals (`PartialOrd`). -/
def le (left right : Decimal) : Bool :=
  left.mantissa * 10 ^ right.scale ≤ right.mantissa * 10 ^ left.scale

/-- Decimals are equal when they stand for the same number. -/
theorem eq_iff_value_eq {left right : Decimal} :
    left.eq right = true ↔ left.value = right.value := by
  have hleft : (10 : ℚ) ^ left.scale ≠ 0 := pow_ne_zero _ (by norm_num)
  have hright : (10 : ℚ) ^ right.scale ≠ 0 := pow_ne_zero _ (by norm_num)
  rw [eq, value, value, div_eq_div_iff hleft hright, beq_iff_eq]
  exact_mod_cast Iff.rfl

end Decimal

/-- `serde_json::Value`, without the numbers that are no integers. -/
inductive Value where
  | null
  | bool (value : Bool)
  | number (value : Int)
  | string (value : String)
  | array (values : List Value)
  | object (fields : List (String × Value))

/-- The field of an object, if it has it. -/
def Value.field (key : String) : Value → Option Value
  | .object fields => fields.lookup key
  | _ => none

/-- The behaviour of third-party code that the crates rely on without defining it. -/
class Platform where
  /-- `Decimal::from_str`, with the text of its error. -/
  decimalFromStr : String → Except String Decimal
  /-- The empty text is not a decimal. -/
  decimalFromStr_empty : ∃ message, decimalFromStr "" = .error message
  /-- `Decimal::normalize`. -/
  normalize : Decimal → Decimal
  /-- `Decimal::to_string`. -/
  decimalToString : Decimal → String
  /-- What a `NUMERIC(20, 7)` column stores for a bound decimal, or the database's error. -/
  numeric : Decimal → Except String Decimal
  /-- What a `TIMESTAMPTZ` column stores for a bound instant. -/
  timestamptz : DateTime → DateTime
  /-- The JSON text of an instant. -/
  dateTimeToJson : DateTime → String
  /-- `serde_json::to_vec` of a value. -/
  jsonToVec : Value → List UInt8
  /-- HMAC-SHA256 of a payload under a key. -/
  hmacSha256 : List UInt8 → List UInt8 → List UInt8
  /-- `hex::encode`. -/
  hexEncode : List UInt8 → String

end StellarPay
