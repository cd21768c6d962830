import StellarPay.Core.Platform

/-!
# Payments, their states and their errors

The domain types of `crates/core`: `payment.rs` and `errors.rs`.
-/

namespace StellarPay

/-- `Asset`. -/
inductive Asset where
  | xlm
  deriving DecidableEq

/-- `PaymentStatus`. -/
inductive PaymentStatus where
  | pending
  | detected
  | confirmed
  | failed
  | expired
  deriving DecidableEq

namespace PaymentStatus

/-- `PaymentStatus::can_transition_to`, the payment state machine. -/
def canTransitionTo : PaymentStatus → PaymentStatus → Bool
  | pending, detected => true
  | pending, expired => true
  | detected, confirmed => true
  | detected, failed => true
  | _, _ => false

/-- The variant name, as `{:?}` prints it. -/
def debug : PaymentStatus → String
  | pending => "Pending"
  | detected => "Detected"
  | confirmed => "Confirmed"
  | failed => "Failed"
  | expired => "Expired"

/-- The serialized name, in snake case. -/
def toJson : PaymentStatus → String
  | pending => "pending"
  | detected => "detected"
  | confirmed => "confirmed"
  | failed => "failed"
  | expired => "expired"

/-- A payment in one of these states holds the hash of a ledger transaction. -/
def settled : PaymentStatus → Bool
  | detected | confirmed | failed => true
  | pending | expired => false

/-- How far along the state machine a status is. -/
def rank : PaymentStatus → Nat
  | pending => 0
  | detected => 1
  | confirmed | failed | expired => 2

/-- Every transition moves forward. -/
theorem rank_lt_of_canTransitionTo {status next : PaymentStatus}
    (h : status.canTransitionTo next = true) : status.rank < next.rank := by
  revert h
  cases status <;> cases next <;> decide

end PaymentStatus

/-- `Payment`. -/
structure Payment where
  id : Uuid
  reference : String
  amount : String
  asset : Asset
  destination : String
  memo : Option String
  status : PaymentStatus
  stellarTxHash : Option String
  createdAt : DateTime
  updatedAt : DateTime
  deriving DecidableEq

/-- `RepositoryError`. -/
inductive RepositoryError where
  | database (message : String)
  | notFound
  | conflict (message : String)
  deriving DecidableEq

/-- `PaymentError`. -/
inductive PaymentError where
  | invalidAmount (amount : String)
  | unsupportedAsset
  | duplicateReference (reference : String)
  | notFound (id : String)
  | invalidTransition (source target : PaymentStatus)
  | repository (error : RepositoryError)
  deriving DecidableEq

end StellarPay
