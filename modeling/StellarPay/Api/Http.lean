import StellarPay.Core.Payment

/-!
# Headers and errors of the HTTP interface

What the handlers of `crates/api` take from the `http` crate, and `error.rs`. A header value is a
sequence of visible ASCII characters, spaces, tabs and bytes beyond ASCII. It is a text only if it
has none of the last kind.
-/

namespace StellarPay

namespace HeaderValue

/-- A byte that HTTP allows in a header value. -/
def isValid (byte : UInt8) : Bool :=
  byte == 9 || (32 ≤ byte && byte != 127)

/-- A byte of a value that is a text. -/
def isVisibleAscii (byte : UInt8) : Bool :=
  byte == 9 || (32 ≤ byte && byte < 127)

end HeaderValue

/-- `http::HeaderValue`. -/
structure HeaderValue where
  bytes : List UInt8
  valid : ∀ byte ∈ bytes, HeaderValue.isValid byte = true
  deriving DecidableEq

namespace HeaderValue

/-- `HeaderValue::to_str`. -/
def toStr (value : HeaderValue) : Option String :=
  if value.bytes.all isVisibleAscii then
    some (String.ofList (value.bytes.map fun byte => Char.ofNat byte.toNat))
  else none

/-- The value is a text. -/
def IsText (value : HeaderValue) : Prop :=
  ∀ byte ∈ value.bytes, byte < 128

instance (value : HeaderValue) : Decidable value.IsText :=
  List.decidableBAll (· < 128) value.bytes

/-- A value converts if none of its bytes is beyond ASCII. -/
theorem to_str_isSome_iff (value : HeaderValue) : value.toStr.isSome = true ↔ value.IsText := by
  have hbytes : value.bytes.all isVisibleAscii = true ↔ value.IsText := by
    rw [List.all_eq_true]
    refine forall₂_congr fun byte hbyte => ?_
    have hvalid := value.valid byte hbyte
    simp only [isVisibleAscii, isValid, Bool.or_eq_true, Bool.and_eq_true, beq_iff_eq,
      decide_eq_true_eq, bne_iff_ne, ne_eq, UInt8.le_iff_toNat_le, UInt8.lt_iff_toNat_lt,
      ← UInt8.toNat_inj, UInt8.reduceToNat] at hvalid ⊢
    omega
  rw [← hbytes, toStr]
  split <;> simp_all

end HeaderValue

/-- The name of a header, which does not tell small letters from capital ones. -/
def headerName (name : String) : String :=
  String.ofList (name.toList.map Char.toLower)

/-- `http::HeaderMap`: headers with their names in small letters. -/
structure HeaderMap where
  entries : List (String × HeaderValue)
  deriving DecidableEq

/-- `HeaderMap::get`: the first value of a header. -/
def HeaderMap.get (headers : HeaderMap) (name : String) : Option HeaderValue :=
  headers.entries.lookup (headerName name)

/-- The `StatusCode`s that the handlers answer with. -/
inductive StatusCode where
  | ok
  | created
  | badRequest
  | notFound
  | conflict
  | internalServerError
  deriving DecidableEq

/-- The number of a status. -/
def StatusCode.asU16 : StatusCode → Nat
  | ok => 200
  | created => 201
  | badRequest => 400
  | notFound => 404
  | conflict => 409
  | internalServerError => 500

/-- How a `RepositoryError` is displayed. -/
def RepositoryError.display : RepositoryError → String
  | database message => "database error: " ++ message
  | notFound => "not found"
  | conflict message => "conflict: " ++ message

/-- How a `PaymentError` is displayed. -/
def PaymentError.display : PaymentError → String
  | invalidAmount amount => "invalid amount: " ++ amount
  | unsupportedAsset => "unsupported asset"
  | duplicateReference reference => "reference already exists: " ++ reference
  | notFound id => "payment not found: " ++ id
  | invalidTransition source target =>
      "invalid status transition from " ++ source.debug ++ " to " ++ target.debug
  | repository error => "repository error: " ++ error.display

/-- `ApiError`. -/
structure ApiError where
  status : StatusCode
  message : String
  deriving DecidableEq

namespace ApiError

/-- The status that a payment error is answered with. -/
def statusOf : PaymentError → StatusCode
  | .invalidAmount _ | .unsupportedAsset => .badRequest
  | .notFound _ => .notFound
  | .duplicateReference _ => .conflict
  | .invalidTransition _ _ => .conflict
  | .repository .notFound => .notFound
  | .repository (.conflict _) => .conflict
  | .repository (.database _) => .internalServerError

/-- `From<PaymentError> for ApiError`. -/
def ofPayment (error : PaymentError) : ApiError :=
  ⟨statusOf error, error.display⟩

/-- `From<RepositoryError> for ApiError`. -/
def ofRepository (error : RepositoryError) : ApiError :=
  ofPayment (.repository error)

/-- The body of the response. -/
def body (error : ApiError) : Value :=
  .object [("error", .string error.message)]

/-- Every error is answered with an error status, and the server's own only for the database. -/
theorem status_of_error (error : PaymentError) :
    400 ≤ (ofPayment error).status.asU16 ∧
      ((ofPayment error).status = .internalServerError ↔
        ∃ message, error = .repository (.database message)) := by
  rcases error with _ | _ | _ | _ | _ | (_ | _ | _) <;>
    simp [ofPayment, statusOf, StatusCode.asU16]

end ApiError

end StellarPay
