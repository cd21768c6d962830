import StellarPay.Payments.Service
import StellarPay.Webhooks.Service

/-!
# The reconciliation worker

`crates/reconciliation`. A pass lists the pending and detected payments and processes them one
by one, each in the span of its id. The first error ends the pass.
-/

namespace StellarPay

/-- The errors a pass can end with (`anyhow::Error`). -/
inductive WorkerError where
  | repository (error : RepositoryError)
  | stellar (error : StellarError)
  deriving DecidableEq

section

variable [Platform]

/-- `amounts_match`. -/
def amountsMatch (expected actual : String) : Bool :=
  match Platform.decimalFromStr expected with
  | .error _ => false
  | .ok expectedDecimal =>
      match Platform.decimalFromStr actual with
      | .error _ => false
      | .ok actualDecimal => expectedDecimal.eq actualDecimal

/-- Amounts match when they are numerically equal. -/
theorem amounts_match_iff {expected actual : String} :
    amountsMatch expected actual = true ↔ NumericallyEqual expected actual := by
  unfold amountsMatch NumericallyEqual
  cases Platform.decimalFromStr expected with
  | error _ => simp
  | ok first =>
      cases Platform.decimalFromStr actual with
      | error _ => simp
      | ok second => simp [Decimal.eq_iff_value_eq]

end

/-- `ReconciliationWorker`. -/
structure ReconciliationWorker where
  expiryWindow : Duration

namespace ReconciliationWorker

variable [Platform]

/-- `emit`: a failure is logged and otherwise ignored. -/
def emit (event : PaymentEvent) : Prog Unit := do
  let _ ← WebhookService.enqueueEvent event
  pure ()

/-- An announcement makes the requests of its event. -/
theorem emit_makes_of {event : PaymentEvent} {allowed : Request → Prop} (hdraw : allowed .newV4)
    (hread : allowed .utcNow)
    (hstore : ∀ id createdAt now, allowed (.enqueue now event.payment.id event.eventType
      (WebhookEnvelope.toJson
        ⟨id, event.eventType, createdAt, .object [("payment", event.payment.toJson)]⟩))) :
    (emit event).Makes allowed :=
  (WebhookService.enqueue_event_makes hdraw hread hstore).bind fun _ =>
    Interleaving.Program.makes_pure _

/-- The window as `process_pending` uses it. -/
def expiry (worker : ReconciliationWorker) : TimeDelta :=
  -- A window that chrono cannot represent counts as zero.
  (TimeDelta.fromStd worker.expiryWindow).getD 0

/-- `process_pending`. -/
def processPending (worker : ReconciliationWorker) (payment : Payment) :
    Prog (Except WorkerError Unit) := do
  let now : DateTime ← ask .utcNow
  let age : TimeDelta := now - payment.createdAt
  if worker.expiry ≤ age then
    match ← updateStatus payment.id .expired none with
    | .error error => pure (.error (.repository error))
    | .ok updated =>
        emit (.paymentExpired updated)
        pure (.ok ())
  else
    match payment.memo with
    | none => pure (.ok ())
    | some memo =>
        match ← ask (.findPayment payment.destination memo payment.createdAt) with
        | .error error => pure (.error (.stellar error))
        | .ok none => pure (.ok ())
        | .ok (some found) =>
            if amountsMatch payment.amount found.amount then
              match ← updateStatus payment.id .detected (some found.transactionHash) with
              | .error error => pure (.error (.repository error))
              | .ok updated =>
                  emit (.paymentDetected updated)
                  pure (.ok ())
            else pure (.ok ())

/-- `process_detected`. -/
def processDetected (payment : Payment) : Prog (Except WorkerError Unit) := do
  match payment.stellarTxHash with
  | none => pure (.ok ())
  | some hash =>
      match ← ask (.getTransaction hash) with
      | .error error => pure (.error (.stellar error))
      | .ok transaction =>
          if transaction.successful then
            match ← updateStatus payment.id .confirmed none with
            | .error error => pure (.error (.repository error))
            | .ok updated =>
                -- A failed recording is logged, and the pass goes on.
                let _ ← ask (.recordPayment updated)
                emit (.paymentConfirmed updated)
                pure (.ok ())
          else
            match ← updateStatus payment.id .failed none with
            | .error error => pure (.error (.repository error))
            | .ok updated =>
                emit (.paymentFailed updated)
                pure (.ok ())

/-- What a pass does with one payment of its list. -/
def process (worker : ReconciliationWorker) (payment : Payment) :
    Prog (Except WorkerError Unit) :=
  match payment.status with
  | .pending => worker.processPending payment
  | .detected => processDetected payment
  | _ => pure (.ok ())

/-- The loop of `run_once`. The `?` on each payment ends the pass at the first error. -/
def processAll (worker : ReconciliationWorker) : List Payment → Prog (Except WorkerError Unit)
  | [] => pure (.ok ())
  | payment :: rest => do
      match ← (worker.process payment).within payment.id with
      | .error error => pure (.error error)
      | .ok () => worker.processAll rest

/-- `run_once`. -/
def runOnce (worker : ReconciliationWorker) : Prog (Except WorkerError Unit) := do
  match ← ask .listPendingForReconciliation with
  | .error error => pure (.error (.repository error))
  | .ok pending => worker.processAll pending

end ReconciliationWorker

end StellarPay
