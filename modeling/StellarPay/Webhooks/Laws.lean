import StellarPay.Webhooks.Repository

/-!
# Laws of the webhook event store

What both implementations have in common, in terms of the record found under an id: a new event is
found from then on, and whatever happens to it later, it stays the event it was.
-/

namespace StellarPay

/-- Two records of one event agree on what was enqueued. -/
structure WebhookEventRecord.SameEvent (first second : WebhookEventRecord) : Prop where
  id : second.id = first.id
  paymentId : second.paymentId = first.paymentId
  eventType : second.eventType = first.eventType
  payload : second.payload = first.payload

namespace WebhookEventRecord.SameEvent

variable {first second third : WebhookEventRecord}

theorem refl (record : WebhookEventRecord) : record.SameEvent record :=
  ⟨rfl, rfl, rfl, rfl⟩

theorem trans (h : first.SameEvent second) (h' : second.SameEvent third) :
    first.SameEvent third :=
  ⟨h'.id.trans h.id, h'.paymentId.trans h.paymentId, h'.eventType.trans h.eventType,
    h'.payload.trans h.payload⟩

end WebhookEventRecord.SameEvent

/-- What the two implementations of the trait have in common. -/
class EventLaws (ε : Type) [WebhookEventRepository ε] where
  /-- The record with this id. -/
  found : ε → Uuid → Option WebhookEventRecord
  mem_list {scan : Scan} {paymentId : Uuid} {events : ε} :
    ∃ records, WebhookEventRepository.listForPayment scan paymentId events = .ok records ∧
      ∀ record, record ∈ records ↔
        found events record.id = some record ∧ record.paymentId = paymentId
  enqueue_ok {paymentExists : Bool} {id : Uuid} {now : DateTime} {paymentId : Uuid}
      {eventType : String} {payload : Value} {events after : ε} {record : WebhookEventRecord} :
    WebhookEventRepository.enqueue paymentExists id now paymentId eventType payload events =
        (.ok record, after) →
      record.id = id ∧ record.paymentId = paymentId ∧ record.eventType = eventType ∧
      record.payload = payload ∧
      ∀ other, found after other = if other = id then some record else found events other
  enqueue_error {paymentExists : Bool} {id : Uuid} {now : DateTime} {paymentId : Uuid}
      {eventType : String} {payload : Value} {events after : ε} {error : RepositoryError} :
    WebhookEventRepository.enqueue paymentExists id now paymentId eventType payload events =
      (.error error, after) → after = events
  delivered_keeps (target : Uuid) (deliveredAt : DateTime) {events : ε} {id : Uuid}
      {record : WebhookEventRecord} : found events id = some record →
    ∃ later, found (WebhookEventRepository.markDelivered target deliveredAt events).2 id =
      some later ∧ record.SameEvent later
  failed_keeps (now : DateTime) (target : Uuid) (nextAttemptAt : Option DateTime) {events : ε}
      {id : Uuid} {record : WebhookEventRecord} : found events id = some record →
    ∃ later, found (WebhookEventRepository.markFailed now target nextAttemptAt events).2 id =
      some later ∧ record.SameEvent later

instance : EventLaws InMemoryEvents where
  found store id := store.events.lookup id
  mem_list {scan paymentId store} := by
    refine ⟨_, rfl, fun record => ?_⟩
    rw [(sort_by_key_perm _ _).mem_iff, List.mem_filter, Scan.mem_order, HashMap.mem_values,
      beq_iff_eq]
    refine and_congr_left fun _ => ⟨?_, fun h => ⟨_, h⟩⟩
    intro hentry
    obtain ⟨id, hid⟩ := hentry
    rwa [store.keyed id record hid]
  enqueue_ok h := by
    cases h
    exact ⟨rfl, rfl, rfl, rfl, fun other => HashMap.lookup_insert_eq _ _ other _⟩
  enqueue_error h := by
    cases h
  delivered_keeps target deliveredAt store id record hrecord := by
    cases hevent : store.events.lookup target with
    | none =>
        refine ⟨record, ?_, .refl record⟩
        simpa [WebhookEventRepository.markDelivered, InMemoryEvents.markDelivered, hevent] using
          hrecord
    | some event =>
        obtain rfl := store.keyed target event hevent
        simp only [WebhookEventRepository.markDelivered, InMemoryEvents.markDelivered, hevent]
        exact HashMap.insert_keeps WebhookEventRecord.SameEvent .refl hevent ⟨rfl, rfl, rfl, rfl⟩
          hrecord
  failed_keeps now target nextAttemptAt store id record hrecord := by
    cases hevent : store.events.lookup target with
    | none =>
        refine ⟨record, ?_, .refl record⟩
        simpa [WebhookEventRepository.markFailed, InMemoryEvents.markFailed, hevent] using hrecord
    | some event =>
        obtain rfl := store.keyed target event hevent
        simp only [WebhookEventRepository.markFailed, InMemoryEvents.markFailed, hevent]
        exact HashMap.insert_keeps WebhookEventRecord.SameEvent .refl hevent ⟨rfl, rfl, rfl, rfl⟩
          hrecord

/-- Every stored status reads back. -/
@[simp]
theorem webhook_status_from_db_to_db (status : WebhookEventStatus) :
    webhookStatusFromDb status.toDb = .ok status := by
  cases status <;> rfl

/-- The record a row reads as. A status that this program did not write counts as pending here; no
table contains one. -/
def WebhookEventRow.view (row : WebhookEventRow) : WebhookEventRecord :=
  match webhookStatusFromDb row.status with
  | .ok status => row.record status
  | .error _ => row.record .pending

namespace EventTable

/-- A record of a row differs from others of it in the status only. -/
theorem view_eq (row : WebhookEventRow) : ∃ status, row.view = row.record status := by
  unfold WebhookEventRow.view
  split <;> exact ⟨_, rfl⟩

/-- Every row of a table reads. -/
theorem to_record_eq {table : EventTable} {id : Uuid} {row : WebhookEventRow}
    (h : table.rows.lookup id = some row) : row.toRecord = .ok row.view := by
  obtain ⟨status, hstatus⟩ := table.statusWritten id row h
  simp [WebhookEventRow.toRecord, WebhookEventRow.view, hstatus]

/-- A row that was changed reads as the same event. -/
theorem view_same {row changed : WebhookEventRow} (hid : changed.id = row.id)
    (hpayment : changed.paymentId = row.paymentId) (htype : changed.eventType = row.eventType)
    (hpayload : changed.payload = row.payload) : row.view.SameEvent changed.view := by
  obtain ⟨status, hrow⟩ := view_eq row
  obtain ⟨status', hchanged⟩ := view_eq changed
  rw [hrow, hchanged]
  exact ⟨hid, hpayment, htype, hpayload⟩

/-- The row that `enqueue` inserts. -/
def newRow [Platform] (id : Uuid) (now : DateTime) (paymentId : Uuid) (eventType : String)
    (payload : Value) : WebhookEventRow where
  id := id
  paymentId := paymentId
  eventType := eventType
  payload := payload
  status := "pending"
  attempts := 0
  nextAttemptAt := some (Platform.timestamptz now)
  deliveredAt := none
  createdAt := Platform.timestamptz now
  updatedAt := Platform.timestamptz now

/-- What an insertion that succeeds returns and leaves. -/
theorem enqueue_ok_eq [Platform] {paymentExists : Bool} {id : Uuid} {now : DateTime}
    {paymentId : Uuid} {eventType : String} {payload : Value} {table after : EventTable}
    {record : WebhookEventRecord}
    (h : enqueue paymentExists id now paymentId eventType payload table = (.ok record, after)) :
    record = (newRow id now paymentId eventType payload).record .pending ∧
      after = table.put (newRow id now paymentId eventType payload) ⟨.pending, rfl⟩ := by
  simp only [enqueue] at h
  split at h
  · cases h
  · split at h
    · cases h
    · split at h
      · cases h
      · split at h
        · cases h
          exact ⟨rfl, rfl⟩
        · cases h

/-- An insertion that fails leaves the table as it was. -/
theorem enqueue_error_eq [Platform] {paymentExists : Bool} {id : Uuid} {now : DateTime}
    {paymentId : Uuid} {eventType : String} {payload : Value} {table after : EventTable}
    {error : RepositoryError}
    (h : enqueue paymentExists id now paymentId eventType payload table = (.error error, after)) :
    after = table := by
  simp only [enqueue] at h
  split at h
  · cases h
    rfl
  · split at h
    · cases h
      rfl
    · split at h
      · cases h
        rfl
      · split at h
        · cases h
        · cases h
          rfl

/-- Writing a changed row keeps all events what they are. -/
theorem put_keeps {table : EventTable} {target id : Uuid} {row changed : WebhookEventRow}
    {record : WebhookEventRecord}
    (hstatus : ∃ status : WebhookEventStatus, changed.status = status.toDb)
    (hrow : table.rows.lookup target = some row) (hid : changed.id = row.id)
    (hsame : row.view.SameEvent changed.view)
    (hrecord : (table.rows.lookup id).map WebhookEventRow.view = some record) :
    ∃ later, ((table.put changed hstatus).rows.lookup id).map WebhookEventRow.view = some later ∧
      record.SameEvent later := by
  obtain ⟨found, hfound, rfl⟩ := Option.map_eq_some_iff.mp hrecord
  obtain rfl := table.keyed target row hrow
  rw [← hid] at hrow
  obtain ⟨later, hlater, hkept⟩ := HashMap.insert_keeps
    (fun first second => first.view.SameEvent second.view) (fun row => .refl row.view)
    hrow hsame hfound
  exact ⟨later.view, congrArg (Option.map WebhookEventRow.view) hlater, hkept⟩

end EventTable

open EventTable in
instance [Platform] : EventLaws EventTable where
  found table id := (table.rows.lookup id).map WebhookEventRow.view
  mem_list {scan paymentId table} := by
    have hmem : ∀ row, row ∈ sortByKey WebhookEventRow.createdAt
        ((scan.order table.rows.values).filter fun row => row.paymentId == paymentId) ↔
          table.rows.lookup row.id = some row ∧ row.paymentId = paymentId := by
      intro row
      rw [(sort_by_key_perm _ _).mem_iff, List.mem_filter, Scan.mem_order, HashMap.mem_values,
        beq_iff_eq]
      refine and_congr_left fun _ => ⟨?_, fun h => ⟨_, h⟩⟩
      intro hentry
      obtain ⟨id, hid⟩ := hentry
      rwa [table.keyed id row hid]
    refine ⟨_, mapM_eq_map fun row hrow => to_record_eq ((hmem row).mp hrow).1, fun record => ?_⟩
    simp only [List.mem_map, hmem, Option.map_eq_some_iff]
    constructor
    · intro hlisted
      obtain ⟨row, ⟨hrow, hpayment⟩, rfl⟩ := hlisted
      obtain ⟨status, hview⟩ := view_eq row
      exact ⟨⟨row, by rw [hview]; exact hrow, rfl⟩, by rw [hview]; exact hpayment⟩
    · intro hkept
      obtain ⟨⟨row, hrow, rfl⟩, hpayment⟩ := hkept
      obtain ⟨status, hview⟩ := view_eq row
      rw [hview] at hrow hpayment
      exact ⟨row, ⟨hrow, hpayment⟩, rfl⟩
  enqueue_ok h := by
    obtain ⟨rfl, rfl⟩ := enqueue_ok_eq h
    refine ⟨rfl, rfl, rfl, rfl, fun other => ?_⟩
    simp only [EventTable.put, HashMap.lookup_insert_eq, newRow]
    split <;> rfl
  enqueue_error h := enqueue_error_eq h
  delivered_keeps target deliveredAt table id record hrecord := by
    cases hrow : table.rows.lookup target with
    | none =>
        refine ⟨record, ?_, .refl record⟩
        simpa [WebhookEventRepository.markDelivered, EventTable.markDelivered, hrow] using hrecord
    | some row =>
        simp only [WebhookEventRepository.markDelivered, EventTable.markDelivered, hrow]
        exact put_keeps _ hrow rfl (view_same rfl rfl rfl rfl) hrecord
  failed_keeps now target nextAttemptAt table id record hrecord := by
    cases hrow : table.rows.lookup target with
    | none =>
        refine ⟨record, ?_, .refl record⟩
        simpa [WebhookEventRepository.markFailed, EventTable.markFailed, hrow] using hrecord
    | some row =>
        simp only [WebhookEventRepository.markFailed, EventTable.markFailed, hrow]
        split
        · exact ⟨record, hrecord, .refl record⟩
        · exact put_keeps ⟨_, rfl⟩ hrow rfl (view_same rfl rfl rfl rfl) hrecord

end StellarPay
