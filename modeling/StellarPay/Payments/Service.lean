import StellarPay.Payments.Amount
import StellarPay.Runtime.Effects

/-!
# The payment service

`crates/payments/src/idempotency.rs` and `service.rs`, as programs over the requests of the
runtime. The two steps of `create_with_idempotency` and of `transition` are separate requests,
so other threads can act between them.
-/

namespace StellarPay

/-- `update_status`. In memory the guarded write already tells a missing payment from a refused
transition; on Postgres an `UPDATE` without a row is followed by a read that tells them apart. -/
def updateStatus (id : Uuid) (next : PaymentStatus) (hash : Option String) :
    Prog (Except RepositoryError Payment) := do
  match ← ask (.guardedUpdate id next hash) with
  | .error error => pure (.error error)
  | .ok (some updated) => pure (.ok updated)
  | .ok none =>
      match ← ask (.findById id) with
      | .error error => pure (.error error)
      | .ok (some _) => pure (.error (transitionConflict id next))
      | .ok none => pure (.error .notFound)

/-- What `create_with_idempotency` makes of the repository's answer: every conflict is reported as
a duplicate reference. -/
def createOutcome (reference : String) :
    Except RepositoryError Payment → Except PaymentError Payment
  | .ok created => .ok created
  | .error (.conflict _) => .error (.duplicateReference reference)
  | .error other => .error (.repository other)

/-- The outcome is a payment only if it was created. -/
theorem create_outcome_ok {reference : String} {reply : Except RepositoryError Payment}
    {payment : Payment} (h : createOutcome reference reply = .ok payment) :
    reply = .ok payment := by
  cases reply with
  | error error => cases error <;> cases h
  | ok created =>
      cases h
      rfl

/-- The lookup that comes before a creation, if there is a key to look up. -/
def findExisting : Option String → Prog (Except RepositoryError (Option Payment))
  | some key => ask (.findByIdempotencyKey key)
  | none => pure (.ok none)

/-- `create_with_idempotency`. -/
def createWithIdempotency (payment : Payment) (key : Option String) :
    Prog (Except PaymentError Payment) := do
  match ← findExisting key with
  | .error error => pure (.error (.repository error))
  | .ok (some existing) => pure (.ok existing)
  | .ok none => do
      let result ← ask (.createWithIdempotencyKey payment key)
      pure (createOutcome payment.reference result)

/-- `generate_memo`: the first half of the digits of a new identifier. -/
def generateMemo : Prog String := do
  let full : Uuid ← ask .newV4
  pure (String.ofList (full.simple.toList.take 16))

/-- The memo a client gave, or a generated one. -/
def memoOr : Option String → Prog String
  | some memo => pure memo
  | none => generateMemo

/-- `Payment::new`. -/
def Payment.new (amount reference destination : String) (memo : Option String) :
    Prog Payment := do
  let now : DateTime ← ask .utcNow
  let id : Uuid ← ask .newV4
  pure
    { id, reference, amount, asset := .xlm, destination, memo, status := .pending,
      stellarTxHash := none, createdAt := now, updatedAt := now }

/-- `PaymentService`. -/
structure PaymentService where
  defaultDestination : String

namespace PaymentService

/-- `PaymentService::create_payment`. -/
def createPayment [Platform] (service : PaymentService) (amount reference : String)
    (destination memo key : Option String) : Prog (Except PaymentError Payment) := do
  match validateAmount amount with
  | .error error => pure (.error error)
  | .ok _ =>
      let destination := destination.getD service.defaultDestination
      let memo ← memoOr memo
      let payment ← Payment.new amount reference destination (some memo)
      createWithIdempotency payment key

/-- `PaymentService::transition`. -/
def transition (id : Uuid) (target : PaymentStatus) (hash : Option String) :
    Prog (Except PaymentError Payment) := do
  match ← ask (.findById id) with
  | .error error => pure (.error (.repository error))
  | .ok none => pure (.error (.notFound id.hyphenated))
  | .ok (some current) =>
      if current.status.canTransitionTo target then
        match ← updateStatus id target hash with
        | .error error => pure (.error (.repository error))
        | .ok updated => pure (.ok updated)
      else pure (.error (.invalidTransition current.status target))

/-- `PaymentService::mark_detected`. -/
def markDetected (id : Uuid) (hash : String) : Prog (Except PaymentError Payment) :=
  transition id .detected (some hash)

/-- `PaymentService::confirm_payment`. -/
def confirmPayment (id : Uuid) : Prog (Except PaymentError Payment) :=
  transition id .confirmed none

/-- `PaymentService::fail_payment`. -/
def failPayment (id : Uuid) : Prog (Except PaymentError Payment) :=
  transition id .failed none

/-- `PaymentService::expire_payment`. -/
def expirePayment (id : Uuid) : Prog (Except PaymentError Payment) :=
  transition id .expired none

/-- `PaymentService::get_payment`. -/
def getPayment (id : Uuid) : Prog (Except PaymentError Payment) := do
  match ← ask (.findById id) with
  | .error error => pure (.error (.repository error))
  | .ok none => pure (.error (.notFound id.hyphenated))
  | .ok (some payment) => pure (.ok payment)

/-- `PaymentService::list_payments`. -/
def listPayments (filter : Option PaymentStatus) (page perPage : UInt32) :
    Prog (Except PaymentError (List Payment × Int)) := do
  match ← ask (.listPaginated filter page perPage) with
  | .error error => pure (.error (.repository error))
  | .ok payments =>
      match ← ask (.count filter) with
      | .error error => pure (.error (.repository error))
      | .ok total => pure (.ok (payments, total))

end PaymentService

end StellarPay
