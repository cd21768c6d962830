import StellarPay.Payments.InMemory
import StellarPay.Payments.PostgresLaws
import StellarPay.Reconciliation.Worker
import StellarPay.Webhooks.Delivery

/-!
# The whole system

The calls clients and background tasks can start, as one machine over either pair of stores.
`run_loop` and `run_delivery_loop` start their pass again and again and log its errors, so a
run of a loop is a run in which the pass is called any number of times.
-/

namespace StellarPay

open Interleaving

/-- The two implementations of the repositories. -/
inductive Backend where
  | inMemory
  | postgres

/-- The payment store of a backend. -/
def Backend.Payments : Backend → Type
  | .inMemory => InMemoryState
  | .postgres => Database

/-- The event store of a backend. -/
def Backend.Events : Backend → Type
  | .inMemory => InMemoryEvents
  | .postgres => EventTable

/-- The empty payment store of a backend. -/
def Backend.noPayments : (backend : Backend) → backend.Payments
  | .inMemory => InMemoryState.new
  | .postgres => Database.new

/-- The empty event store of a backend. -/
def Backend.noEvents : (backend : Backend) → backend.Events
  | .inMemory => InMemoryEvents.new
  | .postgres => EventTable.new

/-- Both stores of a backend, empty. -/
def Backend.empty (backend : Backend) : World backend.Payments backend.Events :=
  ⟨backend.noPayments, backend.noEvents⟩

section Instances

variable [Platform]

instance (backend : Backend) : PaymentRepository backend.Payments :=
  match backend with
  | .inMemory => inferInstanceAs (PaymentRepository InMemoryState)
  | .postgres => inferInstanceAs (PaymentRepository Database)

instance (backend : Backend) : RepositoryLaws backend.Payments :=
  match backend with
  | .inMemory => inferInstanceAs (RepositoryLaws InMemoryState)
  | .postgres => inferInstanceAs (RepositoryLaws Database)

instance (backend : Backend) : KeyLaws backend.Payments :=
  match backend with
  | .inMemory => inferInstanceAs (KeyLaws InMemoryState)
  | .postgres => inferInstanceAs (KeyLaws Database)

instance (backend : Backend) : WebhookEventRepository backend.Events :=
  match backend with
  | .inMemory => inferInstanceAs (WebhookEventRepository InMemoryEvents)
  | .postgres => inferInstanceAs (WebhookEventRepository EventTable)

instance (backend : Backend) : EventLaws backend.Events :=
  match backend with
  | .inMemory => inferInstanceAs (EventLaws InMemoryEvents)
  | .postgres => inferInstanceAs (EventLaws EventTable)

instance (backend : Backend) : DeliveryLaws backend.Events :=
  match backend with
  | .inMemory => inferInstanceAs (DeliveryLaws InMemoryEvents)
  | .postgres => inferInstanceAs (DeliveryLaws EventTable)

@[simp]
theorem Backend.stored_empty (backend : Backend) (id : Uuid) :
    stored backend.empty.payments id = none := by
  cases backend <;> rfl

@[simp]
theorem Backend.found_empty (backend : Backend) (id : Uuid) :
    EventLaws.found backend.empty.events id = none := by
  cases backend <;> rfl

/-- What a store keeps of an instant respects the order of time if a `TIMESTAMPTZ` does. -/
theorem Backend.time_mono (backend : Backend)
    (hmono : ∀ first second, first ≤ second →
      Platform.timestamptz first ≤ Platform.timestamptz second) :
    ∀ first second, first ≤ second →
      DeliveryLaws.time backend.Events first ≤ DeliveryLaws.time backend.Events second := by
  cases backend with
  | inMemory => exact fun _ _ hle => hle
  | postgres => exact hmono

end Instances

/-- A call of the service, or of one of its background tasks. -/
inductive Call where
  | createPayment (service : PaymentService) (amount reference : String)
      (destination memo key : Option String)
  | markDetected (id : Uuid) (hash : String)
  | confirmPayment (id : Uuid)
  | failPayment (id : Uuid)
  | expirePayment (id : Uuid)
  | getPayment (id : Uuid)
  | listPayments (filter : Option PaymentStatus) (page perPage : UInt32)
  /-- `update_status` of the repository, called directly. -/
  | updateStatus (id : Uuid) (next : PaymentStatus) (hash : Option String)
  | runOnce (worker : ReconciliationWorker)
  | deliverDue (service : WebhookService)

/-- The type of the result of a call. -/
@[reducible]
def Call.Result : Call → Type
  | .createPayment _ _ _ _ _ _ | .markDetected _ _ | .confirmPayment _ | .failPayment _
  | .expirePayment _ | .getPayment _ => Except PaymentError Payment
  | .listPayments _ _ _ => Except PaymentError (List Payment × Int)
  | .updateStatus _ _ _ => Except RepositoryError Payment
  | .runOnce _ => Except WorkerError Unit
  | .deliverDue _ => Except RepositoryError Unit

section

variable [Platform]

/-- The program of a call. -/
def Call.body : (call : Call) → Prog call.Result
  | .createPayment service amount reference destination memo key =>
      service.createPayment amount reference destination memo key
  | .markDetected id hash => PaymentService.markDetected id hash
  | .confirmPayment id => PaymentService.confirmPayment id
  | .failPayment id => PaymentService.failPayment id
  | .expirePayment id => PaymentService.expirePayment id
  | .getPayment id => PaymentService.getPayment id
  | .listPayments filter page perPage => PaymentService.listPayments filter page perPage
  | .updateStatus id next hash => StellarPay.updateStatus id next hash
  | .runOnce worker => worker.runOnce
  | .deliverDue service => service.deliverDue

variable (σ ε : Type) [PaymentRepository σ] [WebhookEventRepository ε]

/-- The machine of the system over two stores. -/
abbrev machine : Machine where
  Span := Uuid
  Request := Request
  Answer := Answer
  Env := Env
  World := World σ ε
  Call := Call
  Result := Call.Result
  answer := answer
  body := Call.body

/-- The machine of the system over the stores of a backend. -/
abbrev Backend.machine (backend : Backend) : Machine :=
  StellarPay.machine backend.Payments backend.Events

end

end StellarPay
