import StellarPay.Runtime.System

/-!
# A plain platform

Concrete values for everything the model leaves open, to run it on: decimals written with digits
and at most one point, tables that keep what they are given, and an outside world in which nothing
fails and nothing has happened yet.
-/

namespace StellarPay.Plain

open Interleaving

/-- A decimal of these digits, if it is in range. -/
def decimal (mantissa : Int) (scale : Nat) : Except String Decimal :=
  if h : mantissa.natAbs < 2 ^ 96 ∧ scale ≤ 28 then .ok ⟨mantissa, scale, h.1, h.2⟩
  else .error "decimal out of range"

/-- The number that decimal digits stand for. -/
def digitsValue (digits : List Char) : Nat :=
  digits.foldl (fun value digit => 10 * value + (digit.toNat - '0'.toNat)) 0

/-- Digits, with a point and more digits or without. -/
def decimalFromStr (text : String) : Except String Decimal :=
  let whole := text.toList.takeWhile Char.isDigit
  let rest := text.toList.drop whole.length
  match whole, rest with
  | [], _ => .error "invalid decimal"
  | _, [] => decimal (digitsValue whole) 0
  | _, point :: fraction =>
      if point = '.' ∧ fraction ≠ [] ∧ fraction.all Char.isDigit then
        decimal (digitsValue (whole ++ fraction)) fraction.length
      else .error "invalid decimal"

/-- Bytes, each after a one, and then a zero. -/
def writeBytes (bytes : List UInt8) : List UInt8 :=
  bytes.flatMap (fun byte => [1, byte]) ++ [0]

/-- The bytes of a text, in the same way. -/
def writeText (text : String) : List UInt8 :=
  writeBytes text.toUTF8.data.toList

mutual

/-- A value as bytes: its kind, and then what it is made of. Different values have different
bytes. -/
def writeValue : Value → List UInt8
  | .null => [0]
  | .bool value => [1, if value then 1 else 0]
  | .number value => 2 :: writeText (toString value)
  | .string value => 3 :: writeText value
  | .array values => 4 :: writeValues values
  | .object fields => 5 :: writeFields fields

/-- The values of an array, each after a one, and then a zero. -/
def writeValues : List Value → List UInt8
  | [] => [0]
  | value :: rest => 1 :: writeValue value ++ writeValues rest

/-- The fields of an object, in the same way. -/
def writeFields : List (String × Value) → List UInt8
  | [] => [0]
  | (name, value) :: rest => 1 :: writeText name ++ writeValue value ++ writeFields rest

end

/-- The two hexadecimal digits of every byte. -/
def hexDigits (bytes : List UInt8) : String :=
  String.ofList (bytes.flatMap fun byte =>
    [Nat.digitChar (byte.toNat / 16), Nat.digitChar (byte.toNat % 16)])

/-- The platform. A body, a digest and its digits tell what they were made of. -/
@[reducible]
def platform : Platform where
  decimalFromStr := decimalFromStr
  decimalFromStr_empty := ⟨_, rfl⟩
  normalize := id
  decimalToString decimal := toString decimal.mantissa
  numeric := .ok
  timestamptz time := time - time % 1000
  dateTimeToJson time := toString time
  jsonToVec := writeValue
  hmacSha256 secret payload := writeBytes secret ++ payload
  hexEncode := hexDigits

/-- Every list is scanned in its own order. -/
def scan : Scan :=
  fun _ => Equiv.refl _

/-- A Horizon that knows no payment and no transaction. -/
def horizon : Horizon where
  payments _ := .ok []
  memo _ := .ok none
  transaction _ := .error .notFound

/-- A Horizon with these records on every page, whose transactions all carry `memo`. -/
def horizonWith (records : List HorizonPaymentRecord) (memo : String) : Horizon where
  payments _ := .ok records
  memo _ := .ok (some memo)
  transaction hash := .ok ⟨hash, true, 1, 0⟩

/-- A moment at which nothing fails. -/
def env (now : DateTime) (uuid : Uuid) : Env where
  now := now
  uuid := uuid
  scan := scan
  horizon := horizon
  recorder := .ok ()
  endpoint := .ok 200
  paymentsFault := none
  eventsFault := none

/-- A moment at which Horizon shows these records, with this memo on every transaction. -/
def envWith (now : DateTime) (uuid : Uuid) (records : List HorizonPaymentRecord)
    (memo : String) : Env :=
  { env now uuid with horizon := horizonWith records memo }

/-- A native payment on the ledger. -/
def native (hash destination amount : String) (createdAt : DateTime) : HorizonPaymentRecord where
  paymentType := "payment"
  recipient := some destination
  sender := some "GSENDER"
  amount := some amount
  assetType := some "native"
  transactionHash := hash
  createdAt := createdAt

/-- A payment of an issued asset on the ledger. -/
def issued (hash destination amount : String) (createdAt : DateTime) : HorizonPaymentRecord :=
  { native hash destination amount createdAt with assetType := some "credit_alphanum4" }

/-- The service, with a default destination. -/
def service : PaymentService :=
  ⟨"GDEST"⟩

/-- A worker with an expiry window of an hour. -/
def worker : ReconciliationWorker :=
  ⟨3600 * 10 ^ 9⟩

/-- The payment a call of `create` makes. -/
def pending (id : Uuid) (amount reference : String) (createdAt : DateTime) : Payment where
  id := id
  reference := reference
  amount := amount
  asset := .xlm
  destination := "GDEST"
  memo := some "m"
  status := .pending
  stellarTxHash := none
  createdAt := createdAt
  updatedAt := createdAt

/-- A call that creates a payment of `amount` with the memo `m`. -/
def create (amount reference : String) (key : Option String) : Call :=
  .createPayment service amount reference none (some "m") key

attribute [local instance] platform

/-- The column keeps the order of time. -/
theorem timestamptz_mono : ∀ first second, first ≤ second →
    Platform.timestamptz first ≤ Platform.timestamptz second := by
  have hmono : ∀ first second : Int,
      first ≤ second → first - first % 1000 ≤ second - second % 1000 := by omega
  exact hmono

/-- The database that holds these payments. -/
def holding (payments : List Payment) : World Database EventTable :=
  payments.foldl
    (fun world payment => (answer (env 0 0) (.createWithIdempotencyKey payment none) world).2)
    Backend.postgres.empty

end StellarPay.Plain
