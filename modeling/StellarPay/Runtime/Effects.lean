import StellarPay.Interleaving.Safety
import StellarPay.Stellar.Client
import StellarPay.Webhooks.Repository

/-!
# The requests of the services

The services reach everything outside themselves through trait objects, the clock and the
generator of identifiers. Each such call is a `Request`, answered in one atomic step against
the stores and an environment `Env`, which holds what the outside decides: the time, the next
identifier, the answers of Horizon, the recorder and the webhook endpoint, and whether a store
fails. A store that fails reports a database error and is left unchanged.
-/

namespace StellarPay

open Interleaving

/-- A call that leaves the service. -/
inductive Request where
  /-- `Utc::now`. -/
  | utcNow
  /-- `Uuid::new_v4`. -/
  | newV4
  | createWithIdempotencyKey (payment : Payment) (key : Option String)
  | findById (id : Uuid)
  | findByReference (reference : String)
  | findByIdempotencyKey (key : String)
  | guardedUpdate (id : Uuid) (next : PaymentStatus) (hash : Option String)
  | listPendingForReconciliation
  | listPaginated (filter : Option PaymentStatus) (page perPage : UInt32)
  | count (filter : Option PaymentStatus)
  /-- `StellarClient::find_payment`. -/
  | findPayment (destination memo : String) (since : DateTime)
  /-- `StellarClient::get_transaction`. -/
  | getTransaction (hash : String)
  /-- `OnChainRecorder::record_payment`. -/
  | recordPayment (payment : Payment)
  /-- The storing of a new event, after the clock has been read for it. -/
  | enqueue (now : DateTime) (paymentId : Uuid) (eventType : String) (payload : Value)
  | fetchDue (now : DateTime) (limit : Int)
  | markDelivered (id : Uuid) (deliveredAt : DateTime)
  | markFailed (id : Uuid) (nextAttemptAt : Option DateTime)
  | listForPayment (paymentId : Uuid)
  /-- An HTTP `POST` with its headers and body. -/
  | post (url : String) (headers : List (String × String)) (body : List UInt8)

/-- The request leaves it to the store to date what it writes. On Postgres this is `NOW()`, the
start of the transaction, which may lie before what others have read and done by the time the
statement takes effect. -/
def Request.datedByStore : Request → Bool
  | .guardedUpdate _ _ _ | .markFailed _ _ => true
  | _ => false

/-- The type of the answer to a request. -/
@[reducible]
def Answer : Request → Type
  | .utcNow => DateTime
  | .newV4 => Uuid
  | .createWithIdempotencyKey _ _ => Except RepositoryError Payment
  | .findById _ | .findByReference _ | .findByIdempotencyKey _ | .guardedUpdate _ _ _ =>
      Except RepositoryError (Option Payment)
  | .listPendingForReconciliation | .listPaginated _ _ _ => Except RepositoryError (List Payment)
  | .count _ => Except RepositoryError Int
  | .findPayment _ _ _ => Except StellarError (Option StellarPayment)
  | .getTransaction _ => Except StellarError StellarTransaction
  | .recordPayment _ => Except String Unit
  | .enqueue _ _ _ _ => Except RepositoryError WebhookEventRecord
  | .fetchDue _ _ | .listForPayment _ => Except RepositoryError (List WebhookEventRecord)
  | .markDelivered _ _ | .markFailed _ _ => Except RepositoryError Unit
  | .post _ _ _ => Except String Nat

/-- A program of the services. Its spans are the ids of the payments being reconciled and of the
events being delivered. -/
abbrev Prog (α : Type) : Type := Program Uuid Answer α

/-- Make one request. -/
abbrev ask (request : Request) : Prog (Answer request) :=
  Program.request request

/-- What the outside decides at one request. -/
structure Env where
  /-- What the clock shows; for a request whose store dates the write, the time that it takes. -/
  now : DateTime
  uuid : Uuid
  scan : Scan
  horizon : Horizon
  recorder : Except String Unit
  endpoint : Except String Nat
  paymentsFault : Option String
  eventsFault : Option String

/-- The two stores. -/
structure World (σ ε : Type) where
  payments : σ
  events : ε

section

variable {σ ε α : Type}

/-- An operation on a store that may be failing. -/
def attempt (fault : Option String) (operation : Except RepositoryError α × σ) (state : σ) :
    Except RepositoryError α × σ :=
  match fault with
  | some message => (.error (.database message), state)
  | none => operation

/-- Run an operation on the payment store. -/
def onPayments (env : Env) (operation : σ → Except RepositoryError α × σ) (world : World σ ε) :
    Except RepositoryError α × World σ ε :=
  let (result, after) := attempt env.paymentsFault (operation world.payments) world.payments
  (result, { world with payments := after })

/-- Run an operation on the event store. -/
def onEvents (env : Env) (operation : ε → Except RepositoryError α × ε) (world : World σ ε) :
    Except RepositoryError α × World σ ε :=
  let (result, after) := attempt env.eventsFault (operation world.events) world.events
  (result, { world with events := after })

/-- An operation that only reads. -/
def reading (operation : σ → Except RepositoryError α) (state : σ) :
    Except RepositoryError α × σ :=
  (operation state, state)

end

variable {σ ε : Type} [PaymentRepository σ] [WebhookEventRepository ε]

/-- The atomic effect of a request. -/
def answer (env : Env) : (request : Request) → World σ ε → Answer request × World σ ε
  | .utcNow, world => (env.now, world)
  | .newV4, world => (env.uuid, world)
  | .createWithIdempotencyKey payment key, world =>
      onPayments env (PaymentRepository.createWithIdempotencyKey payment key) world
  | .findById id, world => onPayments env (reading (PaymentRepository.findById id)) world
  | .findByReference reference, world =>
      onPayments env (reading (PaymentRepository.findByReference env.scan reference)) world
  | .findByIdempotencyKey key, world =>
      onPayments env (reading (PaymentRepository.findByIdempotencyKey key)) world
  | .guardedUpdate id next hash, world =>
      onPayments env (PaymentRepository.guardedUpdate env.now id next hash) world
  | .listPendingForReconciliation, world =>
      onPayments env (reading (PaymentRepository.listPendingForReconciliation env.scan)) world
  | .listPaginated filter page perPage, world =>
      onPayments env (reading (PaymentRepository.listPaginated env.scan filter page perPage)) world
  | .count filter, world => onPayments env (reading (PaymentRepository.count filter)) world
  | .findPayment destination memo since, world =>
      (HorizonClient.findPayment env.horizon destination memo since, world)
  | .getTransaction hash, world => (HorizonClient.getTransaction env.horizon hash, world)
  | .recordPayment _, world => (env.recorder, world)
  | .enqueue now paymentId eventType payload, world =>
      onEvents env (WebhookEventRepository.enqueue (stored world.payments paymentId).isSome
        env.uuid now paymentId eventType payload) world
  | .fetchDue now limit, world =>
      onEvents env (reading (WebhookEventRepository.fetchDue env.scan now limit)) world
  | .markDelivered id deliveredAt, world =>
      onEvents env (WebhookEventRepository.markDelivered id deliveredAt) world
  | .markFailed id nextAttemptAt, world =>
      onEvents env (WebhookEventRepository.markFailed env.now id nextAttemptAt) world
  | .listForPayment paymentId, world =>
      onEvents env (reading (WebhookEventRepository.listForPayment env.scan paymentId)) world
  | .post _ _ _, world => (env.endpoint, world)

end StellarPay
