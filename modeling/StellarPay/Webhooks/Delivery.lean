import StellarPay.Webhooks.Laws

/-!
# The operations of a delivery

What storing, fetching and marking do to the record found under an id, exact up to what a store
keeps of an instant. In memory that is the instant itself, on Postgres what a `TIMESTAMPTZ` holds.
Neither `mark_delivered` nor `mark_failed` looks at the status that a record already has.
-/

namespace StellarPay

namespace WebhookEventRecord

/-- A record as it is enqueued. -/
def enqueued (id paymentId : Uuid) (eventType : String) (payload : Value) (now : DateTime) :
    WebhookEventRecord where
  id := id
  paymentId := paymentId
  eventType := eventType
  payload := payload
  status := .pending
  attempts := 0
  nextAttemptAt := some now
  deliveredAt := none
  createdAt := now
  updatedAt := now

/-- A record after `mark_delivered`. -/
def delivered (record : WebhookEventRecord) (deliveredAt : DateTime) : WebhookEventRecord :=
  { record with
    status := .delivered, deliveredAt := some deliveredAt, nextAttemptAt := none,
    updatedAt := deliveredAt }

/-- A record after `mark_failed`. -/
def failed (record : WebhookEventRecord) (next : Option DateTime) (now : DateTime) :
    WebhookEventRecord :=
  { record with
    attempts := record.attempts + 1, nextAttemptAt := next,
    status := if next.isSome then .pending else .failed, updatedAt := now }

end WebhookEventRecord

/-- A failure never leaves an event delivered. -/
theorem WebhookEventRecord.failed_status_ne (record : WebhookEventRecord) (next : Option DateTime)
    (now : DateTime) : (record.failed next now).status ≠ .delivered := by
  rw [failed]
  dsimp only
  split <;> simp

/-- Below its end the counter of attempts goes up by one. -/
theorem to_int_succ {attempts : Int32} (h : attempts ≠ Int32.maxValue) :
    (attempts + 1).toInt = attempts.toInt + 1 := by
  have hupper := attempts.toInt_lt
  have hlower := attempts.le_toInt
  have hne : attempts.toInt ≠ 2 ^ 31 - 1 := fun hend => h (Int32.toInt_inj.mp hend)
  have hone : (1 : Int32).toInt = 1 := rfl
  rw [Int32.toInt_add]
  exact Int.bmod_eq_of_le (by omega) (by omega)

open EventLaws

/-- What the operations of a delivery do in either implementation. -/
class DeliveryLaws (ε : Type) [WebhookEventRepository ε] [EventLaws ε] where
  /-- What the store keeps of an instant. -/
  time : DateTime → DateTime
  found_id {events : ε} {id : Uuid} {record : WebhookEventRecord} :
    found events id = some record → record.id = id
  enqueue_new {paymentExists : Bool} {id : Uuid} {now : DateTime} {paymentId : Uuid}
      {eventType : String} {payload : Value} {events after : ε} {record : WebhookEventRecord} :
    WebhookEventRepository.enqueue paymentExists id now paymentId eventType payload events =
        (.ok record, after) →
      record = .enqueued id paymentId eventType payload (time now)
  fetch {scan : Scan} {now : DateTime} {limit : Int} {events : ε}
      {records : List WebhookEventRecord} :
    WebhookEventRepository.fetchDue scan now limit events = .ok records →
      (records.map WebhookEventRecord.id).Nodup ∧
      ∀ record ∈ records, found events record.id = some record ∧ record.status = .pending ∧
        ∃ next, record.nextAttemptAt = some next ∧ next ≤ time now
  delivered_found (target : Uuid) (deliveredAt : DateTime) (events : ε) (id : Uuid) :
    found (WebhookEventRepository.markDelivered target deliveredAt events).2 id =
      if id = target then (found events id).map (·.delivered (time deliveredAt))
      else found events id
  /-- Whether the store counts a failure over this many. Only at the end of the counter it may
  refuse. -/
  counts : Int32 → Bool
  counts_of_ne {attempts : Int32} : attempts ≠ Int32.maxValue → counts attempts = true
  failed_found (now : DateTime) (target : Uuid) (next : Option DateTime) (events : ε) (id : Uuid) :
    found (WebhookEventRepository.markFailed now target next events).2 id =
      if id = target then (found events id).map fun record =>
        if counts record.attempts then record.failed (next.map time) (time now) else record
      else found events id
  list_ordered {scan : Scan} {paymentId : Uuid} {events : ε} {records : List WebhookEventRecord} :
    WebhookEventRepository.listForPayment scan paymentId events = .ok records →
      (records.map WebhookEventRecord.id).Nodup ∧
      records.Pairwise fun first second => first.createdAt ≤ second.createdAt

/-- A record after `mark_failed` in a store. One that cannot count a further attempt stays as it
is. -/
def WebhookEventRecord.afterFailure (ε : Type) [WebhookEventRepository ε] [EventLaws ε]
    [DeliveryLaws ε] (record : WebhookEventRecord) (next : Option DateTime) (now : DateTime) :
    WebhookEventRecord :=
  if DeliveryLaws.counts ε record.attempts then record.failed next now else record

/-- Below the end of the counter the failure is recorded. -/
theorem WebhookEventRecord.after_failure_eq {ε : Type} [WebhookEventRepository ε] [EventLaws ε]
    [DeliveryLaws ε] {record : WebhookEventRecord} (h : record.attempts ≠ Int32.maxValue)
    (next : Option DateTime) (now : DateTime) :
    record.afterFailure ε next now = record.failed next now :=
  if_pos (DeliveryLaws.counts_of_ne h)

namespace InMemoryEvents

/-- A stored event is found under its own id. -/
theorem mem_values_iff {store : InMemoryEvents} {event : WebhookEventRecord} :
    event ∈ store.events.values ↔ store.events.lookup event.id = some event := by
  rw [HashMap.mem_values]
  constructor
  · intro hentry
    obtain ⟨id, hid⟩ := hentry
    rwa [store.keyed id event hid]
  · exact fun h => ⟨_, h⟩

/-- An operation that changes the record found under an id, if there is one. -/
theorem lookup_changed {store after : InMemoryEvents} {target : Uuid}
    (change : WebhookEventRecord → WebhookEventRecord) (hid : ∀ event, (change event).id = event.id)
    (hnone : store.events.lookup target = none → after = store)
    (hsome : ∀ event, store.events.lookup target = some event → after = store.insert (change event))
    (id : Uuid) : after.events.lookup id =
      if id = target then (store.events.lookup id).map change else store.events.lookup id := by
  cases hevent : store.events.lookup target with
  | none =>
      rw [hnone hevent]
      split
      · rename_i heq
        rw [heq, hevent]
        rfl
      · rfl
  | some event =>
      rw [hsome event hevent]
      have hkey : (change event).id = target := (hid event).trans (store.keyed target event hevent)
      refine (HashMap.lookup_insert_eq _ _ _ _).trans ?_
      rw [hkey]
      split
      · rename_i heq
        rw [heq, hevent]
        rfl
      · rfl

end InMemoryEvents

open InMemoryEvents in
instance : DeliveryLaws InMemoryEvents where
  time now := now
  found_id h := InMemoryEvents.keyed _ _ _ h
  enqueue_new h := by
    cases h
    rfl
  fetch {scan now limit store records} h := by
    cases h
    have hperm := (sort_by_key_perm (fun event : WebhookEventRecord => event.nextAttemptAt.getD 0)
      _).trans ((scan.order_perm store.events.values).filter (due now))
    refine ⟨?_, fun record hrecord => ?_⟩
    · refine List.Nodup.sublist ((List.take_sublist _ _).map _) ?_
      refine ((hperm.map WebhookEventRecord.id).nodup_iff).mpr ?_
      exact (HashMap.values_nodup store.keyed).sublist (List.filter_sublist.map _)
    · have hmem := hperm.mem_iff.mp (List.mem_of_mem_take hrecord)
      obtain ⟨hvalue, hdue⟩ := List.mem_filter.mp hmem
      obtain ⟨hstatus, hnext⟩ := Bool.and_eq_true_iff.mp hdue
      refine ⟨mem_values_iff.mp hvalue, beq_iff_eq.mp hstatus, ?_⟩
      simpa [Option.any_eq_true] using hnext
  delivered_found target deliveredAt store id := by
    refine lookup_changed (·.delivered deliveredAt) (fun _ => rfl) (fun hevent => ?_)
      (fun event hevent => ?_) id
    · simp only [WebhookEventRepository.markDelivered, InMemoryEvents.markDelivered, hevent]
    · simp only [WebhookEventRepository.markDelivered, InMemoryEvents.markDelivered, hevent]
      rfl
  counts _ := true
  counts_of_ne _ := rfl
  failed_found now target next store id := by
    rw [Option.map_id']
    refine lookup_changed (·.failed next now) (fun _ => rfl) (fun hevent => ?_)
      (fun event hevent => ?_) id
    · simp only [WebhookEventRepository.markFailed, InMemoryEvents.markFailed, hevent]
    · simp only [WebhookEventRepository.markFailed, InMemoryEvents.markFailed, hevent]
      rfl
  list_ordered {scan paymentId store records} h := by
    cases h
    have hperm := (sort_by_key_perm WebhookEventRecord.createdAt _).trans
      ((scan.order_perm store.events.values).filter fun event => event.paymentId == paymentId)
    refine ⟨?_, sort_by_key_sorted _ _⟩
    refine ((hperm.map WebhookEventRecord.id).nodup_iff).mpr ?_
    exact (HashMap.values_nodup store.keyed).sublist (List.filter_sublist.map _)

/-- The record of a row whose status this program wrote. -/
theorem WebhookEventRow.view_of_status {row : WebhookEventRow} {status : WebhookEventStatus}
    (h : row.status = status.toDb) : row.view = row.record status := by
  simp [view, h]

@[simp]
theorem WebhookEventRow.view_id (row : WebhookEventRow) : row.view.id = row.id := by
  obtain ⟨status, hview⟩ := EventTable.view_eq row
  rw [hview]
  rfl

namespace EventTable

/-- A stored row is found under its own id. -/
theorem mem_values_iff {table : EventTable} {row : WebhookEventRow} :
    row ∈ table.rows.values ↔ table.rows.lookup row.id = some row := by
  rw [HashMap.mem_values]
  constructor
  · intro hentry
    obtain ⟨id, hid⟩ := hentry
    rwa [table.keyed id row hid]
  · exact fun h => ⟨_, h⟩

/-- Rows that are stored all read. -/
theorem collect_eq {table : EventTable} {rows : List WebhookEventRow}
    (hrows : ∀ row ∈ rows, row ∈ table.rows.values) :
    rows.mapM WebhookEventRow.toRecord = .ok (rows.map WebhookEventRow.view) :=
  mapM_eq_map fun row hrow => to_record_eq (mem_values_iff.mp (hrows row hrow))

/-- Distinct rows read as records with distinct ids. -/
theorem view_ids_nodup {table : EventTable} {rows : List WebhookEventRow}
    (hrows : rows.Subperm table.rows.values) :
    ((rows.map WebhookEventRow.view).map WebhookEventRecord.id).Nodup := by
  have hids : WebhookEventRecord.id ∘ WebhookEventRow.view = WebhookEventRow.id := by
    funext row
    exact row.view_id
  rw [List.map_map, hids]
  obtain ⟨found, hperm, hsub⟩ := hrows
  exact ((hperm.map _).nodup_iff).mp ((HashMap.values_nodup table.keyed).sublist (hsub.map _))

/-- A statement that changes the row with an id, if there is one. -/
theorem lookup_changed {table after : EventTable} {target : Uuid}
    (change : WebhookEventRecord → WebhookEventRecord)
    (hnone : table.rows.lookup target = none → after = table)
    (hsome : ∀ row, table.rows.lookup target = some row → ∃ changed hstatus,
      after = table.put changed hstatus ∧ changed.id = row.id ∧ changed.view = change row.view)
    (id : Uuid) : (after.rows.lookup id).map WebhookEventRow.view =
      if id = target then ((table.rows.lookup id).map WebhookEventRow.view).map change
      else (table.rows.lookup id).map WebhookEventRow.view := by
  cases hrow : table.rows.lookup target with
  | none =>
      rw [hnone hrow]
      split
      · rename_i heq
        rw [heq, hrow]
        rfl
      · rfl
  | some row =>
      obtain ⟨changed, hstatus, rfl, hid, hview⟩ := hsome row hrow
      have hkey : changed.id = target := hid.trans (table.keyed target row hrow)
      simp only [put, HashMap.lookup_insert_eq, hkey]
      split
      · rename_i heq
        rw [heq, hrow, Option.map_some, Option.map_some, Option.map_some, hview]
      · rfl

/-- A row marked as delivered reads as the record marked as delivered. -/
theorem view_delivered (row : WebhookEventRow) (deliveredAt : DateTime) :
    ({ row with
        status := "delivered", deliveredAt := some deliveredAt, nextAttemptAt := none,
        updatedAt := deliveredAt } : WebhookEventRow).view = row.view.delivered deliveredAt := by
  obtain ⟨status, hview⟩ := view_eq row
  have hstatus : "delivered" = WebhookEventStatus.delivered.toDb := rfl
  rw [hview, WebhookEventRow.view_of_status hstatus]
  rfl

/-- A row with a failure recorded reads as the record with the failure recorded. -/
theorem view_failed (row : WebhookEventRow) (next : Option DateTime) (now : DateTime) :
    ({ row with
        status := (statusAfterFailure next).toDb, attempts := row.attempts + 1,
        nextAttemptAt := next, updatedAt := now } : WebhookEventRow).view =
      row.view.failed next now := by
  obtain ⟨status, hview⟩ := view_eq row
  rw [hview, WebhookEventRow.view_of_status rfl]
  rfl

/-- A row reads as a record of the same attempts. -/
@[simp]
theorem view_attempts (row : WebhookEventRow) : row.view.attempts = row.attempts := by
  obtain ⟨status, hview⟩ := view_eq row
  rw [hview]
  rfl

end EventTable

open EventTable in
instance [Platform] : DeliveryLaws EventTable where
  time := Platform.timestamptz
  found_id {table id record} h := by
    obtain ⟨row, hrow, rfl⟩ := Option.map_eq_some_iff.mp h
    rw [WebhookEventRow.view_id]
    exact table.keyed id row hrow
  enqueue_new h := by
    obtain ⟨rfl, -⟩ := enqueue_ok_eq h
    rfl
  fetch {scan now limit table records} h := by
    simp only [WebhookEventRepository.fetchDue, EventTable.fetchDue] at h
    split at h
    · cases h
    · have hperm := (sort_by_key_perm (fun row : WebhookEventRow => row.nextAttemptAt.getD 0)
        _).trans ((scan.order_perm table.rows.values).filter (due (Platform.timestamptz now)))
      have hsub := List.take_sublist limit.toNat (sortByKey (fun row => row.nextAttemptAt.getD 0)
        ((scan.order table.rows.values).filter (due (Platform.timestamptz now))))
      rw [collect_eq fun row hrow =>
        List.mem_of_mem_filter (hperm.mem_iff.mp (hsub.subset hrow))] at h
      cases h
      refine ⟨view_ids_nodup (hsub.subperm.trans
        (hperm.subperm.trans List.filter_sublist.subperm)), fun record hrecord => ?_⟩
      obtain ⟨row, hrow, rfl⟩ := List.mem_map.mp hrecord
      obtain ⟨hvalue, hdue⟩ := List.mem_filter.mp (hperm.mem_iff.mp (hsub.subset hrow))
      obtain ⟨hstatus, hnext⟩ := Bool.and_eq_true_iff.mp hdue
      have hview : row.view = row.record .pending :=
        WebhookEventRow.view_of_status (beq_iff_eq.mp hstatus)
      refine ⟨?_, hview ▸ rfl, ?_⟩
      · show (table.rows.lookup row.view.id).map WebhookEventRow.view = _
        rw [WebhookEventRow.view_id, mem_values_iff.mp hvalue, Option.map_some]
      · rw [hview]
        simpa [Option.any_eq_true, WebhookEventRow.record] using hnext
  delivered_found target deliveredAt table id := by
    refine lookup_changed (·.delivered (Platform.timestamptz deliveredAt)) (fun hrow => ?_)
      (fun row hrow => ?_) id
    · simp only [WebhookEventRepository.markDelivered, EventTable.markDelivered, hrow]
    · simp only [WebhookEventRepository.markDelivered, EventTable.markDelivered, hrow]
      exact ⟨_, ⟨.delivered, rfl⟩, rfl, rfl, view_delivered row _⟩
  counts attempts := attempts != Int32.maxValue
  counts_of_ne h := bne_iff_ne.mpr h
  failed_found now target next table id := by
    let change (record : WebhookEventRecord) : WebhookEventRecord :=
      if record.attempts != Int32.maxValue then
        record.failed (next.map Platform.timestamptz) (Platform.timestamptz now)
      else record
    by_cases hend : ∃ row, table.rows.lookup target = some row ∧ row.attempts = Int32.maxValue
    · obtain ⟨row, hrow, hmax⟩ := hend
      have hsame : change row.view = row.view := if_neg (by simp [hmax])
      simp only [WebhookEventRepository.markFailed, EventTable.markFailed, hrow, if_pos hmax]
      show (table.rows.lookup id).map WebhookEventRow.view = if id = target then
        ((table.rows.lookup id).map WebhookEventRow.view).map change else _
      split
      · rename_i heq
        rw [heq, hrow, Option.map_some, Option.map_some, hsame]
      · rfl
    · refine lookup_changed change (fun hrow => ?_) (fun row hrow => ?_) id
      · simp only [WebhookEventRepository.markFailed, EventTable.markFailed, hrow]
      · have hroom : row.attempts ≠ Int32.maxValue := fun hmax => hend ⟨row, hrow, hmax⟩
        simp only [WebhookEventRepository.markFailed, EventTable.markFailed, hrow, if_neg hroom]
        refine ⟨_, ⟨_, rfl⟩, rfl, rfl, ?_⟩
        have hcounts : (row.view.attempts != Int32.maxValue) = true := by simpa using hroom
        rw [show change row.view = _ from if_pos hcounts, ← view_failed, statusAfterFailure,
          statusAfterFailure, Option.isSome_map]
  list_ordered {scan paymentId table records} h := by
    have hperm := (sort_by_key_perm WebhookEventRow.createdAt _).trans
      ((scan.order_perm table.rows.values).filter fun row => row.paymentId == paymentId)
    simp only [WebhookEventRepository.listForPayment, EventTable.listForPayment] at h
    rw [collect_eq fun row hrow => List.mem_of_mem_filter (hperm.mem_iff.mp hrow)] at h
    cases h
    refine ⟨view_ids_nodup (hperm.subperm.trans List.filter_sublist.subperm), ?_⟩
    rw [List.pairwise_map]
    refine (sort_by_key_sorted WebhookEventRow.createdAt _).imp fun {first second} h => ?_
    obtain ⟨_, hfirst⟩ := view_eq first
    obtain ⟨_, hsecond⟩ := view_eq second
    rwa [hfirst, hsecond]

end StellarPay
