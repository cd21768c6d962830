import StellarPay.Core.Events
import StellarPay.Payments.Postgres

/-!
# The webhook event store

`crates/webhooks/src/repository.rs`: the event record, the `WebhookEventRepository` trait as a
class over the type of the store, and its two implementations. On Postgres the foreign key of
`webhook_events` looks at the table of payments, so `enqueue` is told whether the payment exists.
-/

namespace StellarPay

/-- `WebhookEventStatus`. -/
inductive WebhookEventStatus where
  | pending
  | delivered
  | failed
  deriving DecidableEq

/-- `WebhookEventRecord`. -/
structure WebhookEventRecord where
  id : Uuid
  paymentId : Uuid
  eventType : String
  payload : Value
  status : WebhookEventStatus
  attempts : Int32
  nextAttemptAt : Option DateTime
  deliveredAt : Option DateTime
  createdAt : DateTime
  updatedAt : DateTime

/-- The trait `WebhookEventRepository`. -/
class WebhookEventRepository (ε : Type) where
  /-- Store a new event, under a new id, for a payment that exists or not. -/
  enqueue : Bool → Uuid → DateTime → Uuid → String → Value → ε →
    Except RepositoryError WebhookEventRecord × ε
  /-- The pending events whose next attempt is due, earliest first, up to a limit. -/
  fetchDue : Scan → DateTime → Int → ε → Except RepositoryError (List WebhookEventRecord)
  /-- Record a successful delivery. -/
  markDelivered : Uuid → DateTime → ε → Except RepositoryError Unit × ε
  /-- Record a failed delivery and the time of the next attempt, if there is one. -/
  markFailed : DateTime → Uuid → Option DateTime → ε → Except RepositoryError Unit × ε
  /-- The events of a payment, oldest first. -/
  listForPayment : Scan → Uuid → ε → Except RepositoryError (List WebhookEventRecord)

/-- The events of a payment, as a reader of the store sees them. -/
def recordsFor {ε : Type} [WebhookEventRepository ε] (events : ε) (paymentId : Uuid) :
    List WebhookEventRecord :=
  match WebhookEventRepository.listForPayment (fun _ => Equiv.refl _) paymentId events with
  | .ok records => records
  | .error _ => []

/-- `InMemoryWebhookEventRepository`. Events are only ever inserted under their own id. -/
structure InMemoryEvents where
  events : HashMap Uuid WebhookEventRecord
  keyed : ∀ id event, events.lookup id = some event → event.id = id

namespace InMemoryEvents

/-- `InMemoryWebhookEventRepository::new`. -/
def new : InMemoryEvents :=
  ⟨∅, by simp⟩

/-- The store with `event` under its id. -/
def insert (store : InMemoryEvents) (event : WebhookEventRecord) : InMemoryEvents where
  events := store.events.insert event.id event
  keyed id found h := by
    rw [HashMap.lookup_insert_eq] at h
    split at h
    · rename_i hid
      cases h
      exact hid.symm
    · exact store.keyed id found h

/-- `enqueue`. -/
def enqueue (id : Uuid) (now : DateTime) (paymentId : Uuid) (eventType : String) (payload : Value)
    (store : InMemoryEvents) : Except RepositoryError WebhookEventRecord × InMemoryEvents :=
  let record : WebhookEventRecord :=
    { id, paymentId, eventType, payload, status := .pending, attempts := 0,
      nextAttemptAt := some now, deliveredAt := none, createdAt := now, updatedAt := now }
  (.ok record, store.insert record)

/-- The event is pending and its next attempt is not after `now`. -/
def due (now : DateTime) (event : WebhookEventRecord) : Bool :=
  event.status == .pending && event.nextAttemptAt.any (· ≤ now)

/-- `fetch_due`. Every due event has a next attempt, so the default of the key is not used. -/
def fetchDue (scan : Scan) (now : DateTime) (limit : Int) (store : InMemoryEvents) :
    Except RepositoryError (List WebhookEventRecord) :=
  let found := (scan.order store.events.values).filter (due now)
  .ok ((sortByKey (fun event => event.nextAttemptAt.getD 0) found).take limit.toNat)

/-- `mark_delivered`. -/
def markDelivered (id : Uuid) (deliveredAt : DateTime) (store : InMemoryEvents) :
    Except RepositoryError Unit × InMemoryEvents :=
  match store.events.lookup id with
  | none => (.error .notFound, store)
  | some event =>
      (.ok (), store.insert
        { event with
          status := .delivered, deliveredAt := some deliveredAt, nextAttemptAt := none,
          updatedAt := deliveredAt })

/-- `mark_failed`. The counter wraps around at its end, as it does without overflow checks. -/
def markFailed (now : DateTime) (id : Uuid) (nextAttemptAt : Option DateTime)
    (store : InMemoryEvents) : Except RepositoryError Unit × InMemoryEvents :=
  match store.events.lookup id with
  | none => (.error .notFound, store)
  | some event =>
      (.ok (), store.insert
        { event with
          attempts := event.attempts + 1, nextAttemptAt := nextAttemptAt,
          status := if nextAttemptAt.isSome then .pending else .failed, updatedAt := now })

/-- `list_for_payment`. -/
def listForPayment (scan : Scan) (paymentId : Uuid) (store : InMemoryEvents) :
    Except RepositoryError (List WebhookEventRecord) :=
  .ok (sortByKey WebhookEventRecord.createdAt
    ((scan.order store.events.values).filter fun event => event.paymentId == paymentId))

end InMemoryEvents

instance : WebhookEventRepository InMemoryEvents where
  enqueue _ := InMemoryEvents.enqueue
  fetchDue := InMemoryEvents.fetchDue
  markDelivered := InMemoryEvents.markDelivered
  markFailed := InMemoryEvents.markFailed
  listForPayment := InMemoryEvents.listForPayment

/-- The text of a status in the column `webhook_events.status`. -/
def WebhookEventStatus.toDb : WebhookEventStatus → String
  | pending => "pending"
  | delivered => "delivered"
  | failed => "failed"

/-- `status_from_db` of the webhooks crate. -/
def webhookStatusFromDb (value : String) : Except RepositoryError WebhookEventStatus :=
  match value with
  | "pending" => .ok .pending
  | "delivered" => .ok .delivered
  | "failed" => .ok .failed
  | other => .error (.database ("unknown webhook event status: " ++ other))

/-- `WebhookEventRow`. -/
structure WebhookEventRow where
  id : Uuid
  paymentId : Uuid
  eventType : String
  payload : Value
  status : String
  attempts : Int32
  nextAttemptAt : Option DateTime
  deliveredAt : Option DateTime
  createdAt : DateTime
  updatedAt : DateTime

/-- A row as a record with a given status. -/
def WebhookEventRow.record (row : WebhookEventRow) (status : WebhookEventStatus) :
    WebhookEventRecord where
  id := row.id
  paymentId := row.paymentId
  eventType := row.eventType
  payload := row.payload
  status := status
  attempts := row.attempts
  nextAttemptAt := row.nextAttemptAt
  deliveredAt := row.deliveredAt
  createdAt := row.createdAt
  updatedAt := row.updatedAt

/-- `TryFrom<WebhookEventRow> for WebhookEventRecord`. -/
def WebhookEventRow.toRecord (row : WebhookEventRow) :
    Except RepositoryError WebhookEventRecord :=
  match webhookStatusFromDb row.status with
  | .error error => .error error
  | .ok status => .ok (row.record status)

/-- The table `webhook_events`: rows under their primary key, with statuses that this program
wrote. -/
structure EventTable where
  rows : HashMap Uuid WebhookEventRow
  keyed : ∀ id row, rows.lookup id = some row → row.id = id
  statusWritten : ∀ id row, rows.lookup id = some row →
    ∃ status : WebhookEventStatus, row.status = status.toDb

mutual

/-- A `JSONB` parameter cannot hold the character NUL, in a text or in a key. -/
def Value.hasNul : Value → Bool
  | .string text => StellarPay.hasNul text
  | .array values => anyHasNul values
  | .object fields => anyFieldHasNul fields
  | .null | .bool _ | .number _ => false

/-- Some value of an array holds it. -/
def anyHasNul : List Value → Bool
  | [] => false
  | value :: rest => value.hasNul || anyHasNul rest

/-- Some field of an object holds it. -/
def anyFieldHasNul : List (String × Value) → Bool
  | [] => false
  | (key, value) :: rest => StellarPay.hasNul key || value.hasNul || anyFieldHasNul rest

end

/-- The error of a parameter that is not valid `JSONB`. -/
def invalidJson : SqlxError :=
  ⟨some "22P05", "unsupported Unicode escape sequence"⟩

/-- The error of a sum that an `INTEGER` cannot hold. -/
def integerOutOfRange : SqlxError :=
  ⟨some "22003", "integer out of range"⟩

namespace EventTable

/-- The table after the migrations. -/
def new : EventTable :=
  ⟨∅, by simp, by simp⟩

/-- The table with a row under its id. -/
def put (row : WebhookEventRow) (hstatus : ∃ status : WebhookEventStatus, row.status = status.toDb)
    (table : EventTable) : EventTable where
  rows := table.rows.insert row.id row
  keyed id found h := by
    rw [HashMap.lookup_insert_eq] at h
    split at h
    · rename_i hid
      cases h
      exact hid.symm
    · exact table.keyed id found h
  statusWritten id found h := by
    rw [HashMap.lookup_insert_eq] at h
    split at h
    · cases h
      exact hstatus
    · exact table.statusWritten id found h

variable [Platform]

/-- `map_sqlx_error` of the webhooks crate, which knows no conflicts. -/
def mapSqlxError (error : SqlxError) : RepositoryError :=
  .database error.message

/-- `enqueue`. The payload is kept as it is: a `JSONB` gives back the values of the model as they
were, unless they are nested deeper than `serde_json` reads. -/
def enqueue (paymentExists : Bool) (id : Uuid) (now : DateTime) (paymentId : Uuid)
    (eventType : String) (payload : Value) (table : EventTable) :
    Except RepositoryError WebhookEventRecord × EventTable :=
  if hasNul eventType then (.error (mapSqlxError invalidText), table)
  else if payload.hasNul then (.error (mapSqlxError invalidJson), table)
  else if (table.rows.lookup id).isSome then
    (.error (mapSqlxError (uniqueViolation "webhook_events_pkey")), table)
  else if paymentExists then
    let row : WebhookEventRow :=
      { id, paymentId, eventType, payload, status := "pending", attempts := 0,
        nextAttemptAt := some (Platform.timestamptz now), deliveredAt := none,
        createdAt := Platform.timestamptz now, updatedAt := Platform.timestamptz now }
    (row.toRecord, table.put row ⟨.pending, rfl⟩)
  else (.error (.database "insert violates foreign key constraint"), table)

/-- The `WHERE` clause of `fetch_due`. -/
def due (now : DateTime) (row : WebhookEventRow) : Bool :=
  row.status == "pending" && row.nextAttemptAt.any (· ≤ now)

/-- `fetch_due`. -/
def fetchDue (scan : Scan) (now : DateTime) (limit : Int) (table : EventTable) :
    Except RepositoryError (List WebhookEventRecord) :=
  if limit < 0 then .error (.database "LIMIT must not be negative")
  else
    let found := (scan.order table.rows.values).filter (due (Platform.timestamptz now))
    ((sortByKey (fun row => row.nextAttemptAt.getD 0) found).take limit.toNat).mapM
      WebhookEventRow.toRecord

/-- `mark_delivered`. An update of no row is not an error. -/
def markDelivered (id : Uuid) (deliveredAt : DateTime) (table : EventTable) :
    Except RepositoryError Unit × EventTable :=
  match table.rows.lookup id with
  | none => (.ok (), table)
  | some row =>
      (.ok (), table.put
        { row with
          status := "delivered", deliveredAt := some (Platform.timestamptz deliveredAt),
          nextAttemptAt := none, updatedAt := Platform.timestamptz deliveredAt }
        ⟨.delivered, rfl⟩)

/-- The status `mark_failed` writes. -/
def statusAfterFailure (nextAttemptAt : Option DateTime) : WebhookEventStatus :=
  if nextAttemptAt.isSome then .pending else .failed

/-- `mark_failed`. -/
def markFailed (now : DateTime) (id : Uuid) (nextAttemptAt : Option DateTime)
    (table : EventTable) : Except RepositoryError Unit × EventTable :=
  match table.rows.lookup id with
  | none => (.ok (), table)
  | some row =>
      if row.attempts = Int32.maxValue then (.error (mapSqlxError integerOutOfRange), table)
      else
        (.ok (), table.put
          { row with
            status := (statusAfterFailure nextAttemptAt).toDb, attempts := row.attempts + 1,
            nextAttemptAt := nextAttemptAt.map Platform.timestamptz,
            updatedAt := Platform.timestamptz now }
          ⟨_, rfl⟩)

/-- `list_for_payment`. -/
def listForPayment (scan : Scan) (paymentId : Uuid) (table : EventTable) :
    Except RepositoryError (List WebhookEventRecord) :=
  (sortByKey WebhookEventRow.createdAt
    ((scan.order table.rows.values).filter fun row => row.paymentId == paymentId)).mapM
      WebhookEventRow.toRecord

end EventTable

instance [Platform] : WebhookEventRepository EventTable where
  enqueue := EventTable.enqueue
  fetchDue := EventTable.fetchDue
  markDelivered := EventTable.markDelivered
  markFailed := EventTable.markFailed
  listForPayment := EventTable.listForPayment

end StellarPay
