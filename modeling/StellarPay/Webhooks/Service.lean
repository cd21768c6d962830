import StellarPay.Runtime.Effects

/-!
# The webhook service

`crates/webhooks`: the backoff schedule, signing, and `WebhookService`, which enqueues the events
of payments and delivers the due ones, each in the span of its id.
-/

namespace StellarPay

/-- `BACKOFF_SCHEDULE`, in nanoseconds. -/
def backoffSchedule : List Duration :=
  [60, 5 * 60, 15 * 60, 60 * 60, 6 * 60 * 60].map (· * 10 ^ 9)

/-- `next_backoff`. -/
def nextBackoff (attemptsMade : UInt32) : Option Duration :=
  if attemptsMade = 0 then some 0
  else backoffSchedule[(attemptsMade - 1).toNat]?

/-- `to_chrono_duration`. -/
def toChronoDuration (delay : Duration) : TimeDelta :=
  (TimeDelta.fromStd delay).getD 0

/-- Every delay of the schedule leads to a later instant. -/
theorem to_chrono_nonneg {made : UInt32} {delay : Duration} (h : nextBackoff made = some delay) :
    0 ≤ toChronoDuration delay := by
  have hall : ∀ delay ∈ (0 : Duration) :: backoffSchedule, 0 ≤ toChronoDuration delay := by decide
  refine hall delay ?_
  rw [nextBackoff] at h
  split at h
  · cases h
    exact List.mem_cons_self
  · exact List.mem_cons_of_mem _ (List.mem_of_getElem? h)

/-- `SIGNATURE_HEADER`. -/
def signatureHeader : String :=
  "X-Stellar-Pay-Signature"

/-- `FETCH_BATCH_SIZE`. -/
def fetchBatchSize : Int :=
  50

variable [Platform]

/-- `sign_payload`. -/
def signPayload (secret : String) (payload : List UInt8) : String :=
  Platform.hexEncode (Platform.hmacSha256 secret.toUTF8.toList payload)

/-- `build_envelope`. -/
def buildEnvelope (event : PaymentEvent) : Prog WebhookEnvelope := do
  let id : Uuid ← ask .newV4
  let now : DateTime ← ask .utcNow
  pure
    { id, eventType := event.eventType, createdAt := now,
      data := .object [("payment", event.payment.toJson)] }

/-- `WebhookService`. -/
structure WebhookService where
  webhookUrl : String
  signingSecret : String

namespace WebhookService

/-- `WebhookEventRepository::enqueue`. Both implementations read the clock for the record, and only
then wait for the lock or for Postgres. -/
def enqueue (paymentId : Uuid) (eventType : String) (payload : Value) :
    Prog (Except RepositoryError WebhookEventRecord) := do
  let now : DateTime ← ask .utcNow
  ask (.enqueue now paymentId eventType payload)

/-- `WebhookService::enqueue_event`. -/
def enqueueEvent (event : PaymentEvent) : Prog (Except RepositoryError Unit) := do
  let envelope ← buildEnvelope event
  match ← enqueue event.payment.id event.eventType envelope.toJson with
  | .error error => pure (.error error)
  | .ok _ => pure (.ok ())

/-- Enqueueing an event draws the id of its envelope, reads the clock for the envelope and for the
record, and stores the record. -/
theorem enqueue_event_makes {event : PaymentEvent} {allowed : Request → Prop}
    (hdraw : allowed .newV4) (hread : allowed .utcNow)
    (hstore : ∀ id createdAt now, allowed (.enqueue now event.payment.id event.eventType
      (WebhookEnvelope.toJson
        ⟨id, event.eventType, createdAt, .object [("payment", event.payment.toJson)]⟩))) :
    (enqueueEvent event).Makes allowed := by
  refine ⟨hdraw, fun id => ⟨hread, fun createdAt => ⟨hread, fun now => ⟨?_, fun result => ?_⟩⟩⟩⟩
  · exact hstore id createdAt now
  · cases result <;> trivial

/-- The answer of the endpoint counts as a delivery: any 2xx. -/
def isSuccess : Except String Nat → Bool
  | .ok status => 200 ≤ status && status < 300
  | .error _ => false

/-- `WebhookService::deliver_one`. -/
def deliverOne (service : WebhookService) (record : WebhookEventRecord) : Prog Unit := do
  let body := Platform.jsonToVec record.payload
  let signature := signPayload service.signingSecret body
  let result ← ask (.post service.webhookUrl
    [(signatureHeader, "sha256=" ++ signature), ("Content-Type", "application/json")] body)
  if isSuccess result then
    let now : DateTime ← ask .utcNow
    -- A failed write is logged, so the event stays as it was and is due again.
    let _ ← ask (.markDelivered record.id now)
    pure ()
  else
    let attemptsMade : UInt32 := (record.attempts + 1).toUInt32
    match nextBackoff attemptsMade with
    | none =>
        let _ ← ask (.markFailed record.id none)
        pure ()
    | some delay =>
        let now : DateTime ← ask .utcNow
        let _ ← ask (.markFailed record.id (some (now + toChronoDuration delay)))
        pure ()

/-- The request that sends an event. -/
def postOf (webhooks : WebhookService) (record : WebhookEventRecord) : Request :=
  .post webhooks.webhookUrl
    [(signatureHeader, "sha256=" ++ signPayload webhooks.signingSecret
        (Platform.jsonToVec record.payload)), ("Content-Type", "application/json")]
    (Platform.jsonToVec record.payload)

/-- The loop of `deliver_due`. -/
def deliverAll (service : WebhookService) : List WebhookEventRecord → Prog Unit
  | [] => pure ()
  | record :: rest => do
      (service.deliverOne record).within record.id
      service.deliverAll rest

/-- `WebhookService::deliver_due`. -/
def deliverDue (service : WebhookService) : Prog (Except RepositoryError Unit) := do
  let now : DateTime ← ask .utcNow
  match ← ask (.fetchDue now fetchBatchSize) with
  | .error error => pure (.error error)
  | .ok due =>
      service.deliverAll due
      pure (.ok ())

/-- `run_delivery_loop`, as far as a number of passes. -/
def runDeliveryLoop (service : WebhookService) : Nat → Prog Unit
  | 0 => pure ()
  | passes + 1 => do
      -- The error of a pass is logged, and the loop goes on.
      let _ ← service.deliverDue
      service.runDeliveryLoop passes

end WebhookService

end StellarPay
