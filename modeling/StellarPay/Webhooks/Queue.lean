import StellarPay.Core.Batching
import StellarPay.Webhooks.Delivery

/-!
# The queue of due events

`fetch_due` in either implementation: of the pending events whose next attempt is not after the
given time, the first ones by that attempt, as many as the limit allows.
-/

namespace StellarPay

open EventLaws Batching

namespace WebhookEventRecord

/-- The event is pending, and its next attempt is not after `now`. -/
def IsDue (record : WebhookEventRecord) (now : DateTime) : Prop :=
  record.status = .pending ∧ ∃ next, record.nextAttemptAt = some next ∧ next ≤ now

/-- The time that `fetch_due` sorts by. -/
def attemptTime (record : WebhookEventRecord) : DateTime :=
  record.nextAttemptAt.getD 0

end WebhookEventRecord

/-- The records that are due, each once. -/
structure DueRecords {ε : Type} [WebhookEventRepository ε] [EventLaws ε] (events : ε)
    (now : DateTime) (records : List WebhookEventRecord) : Prop where
  nodup : (records.map WebhookEventRecord.id).Nodup
  mem : ∀ record, record ∈ records ↔ found events record.id = some record ∧ record.IsDue now

/-- A batch of them names each once. -/
theorem DueRecords.batch_nodup {ε : Type} [WebhookEventRepository ε] [EventLaws ε] {events : ε}
    {now : DateTime} {limit : Nat} {candidates batch : List WebhookEventRecord}
    (h : DueRecords events now candidates)
    (hbatch : Foremost WebhookEventRecord.attemptTime limit candidates batch) :
    (batch.map WebhookEventRecord.id).Nodup := by
  obtain ⟨rest, hperm, -⟩ := hbatch.foremost
  have hall := ((hperm.map WebhookEventRecord.id).nodup_iff).mpr h.nodup
  rw [List.map_append] at hall
  exact hall.of_append_left

/-- What `fetch_due` answers in either implementation. -/
class QueueLaws (ε : Type) [WebhookEventRepository ε] [EventLaws ε] [DeliveryLaws ε] : Prop where
  fetch (scan : Scan) (now : DateTime) {limit : Int} (events : ε) (hlimit : 0 ≤ limit) :
    ∃ records candidates, WebhookEventRepository.fetchDue scan now limit events = .ok records ∧
      DueRecords events (DeliveryLaws.time ε now) candidates ∧
      Foremost WebhookEventRecord.attemptTime limit.toNat candidates records

namespace InMemoryEvents

/-- The test of `fetch_due` in memory. -/
theorem due_iff {now : DateTime} {event : WebhookEventRecord} :
    due now event = true ↔ event.IsDue now := by
  simp [due, WebhookEventRecord.IsDue, Option.any_eq_true]

/-- The due records in memory, in the order in which the map is iterated. -/
theorem due_records (scan : Scan) (now : DateTime) (store : InMemoryEvents) :
    DueRecords store now ((scan.order store.events.values).filter (due now)) := by
  have hperm := (scan.order_perm store.events.values).filter (due now)
  refine ⟨?_, fun record => ?_⟩
  · refine ((hperm.map WebhookEventRecord.id).nodup_iff).mpr ?_
    exact (HashMap.values_nodup store.keyed).sublist (List.filter_sublist.map _)
  · rw [List.mem_filter, Scan.mem_order, mem_values_iff, due_iff]
    rfl

end InMemoryEvents

open InMemoryEvents in
instance : QueueLaws InMemoryEvents where
  fetch scan now _ store _ :=
    ⟨_, _, rfl, due_records scan now store,
      foremost_take (sort_by_key_perm _ _) (sort_by_key_sorted _ _)⟩

namespace EventTable

/-- A row reads as a record of the same next attempt. -/
@[simp]
theorem view_next_attempt (row : WebhookEventRow) : row.view.nextAttemptAt = row.nextAttemptAt := by
  obtain ⟨status, hview⟩ := view_eq row
  rw [hview]
  rfl

/-- The `WHERE` clause of `fetch_due` selects the rows that read as due records. -/
theorem due_iff {table : EventTable} {now : DateTime} {row : WebhookEventRow}
    (hrow : row ∈ table.rows.values) : due now row = true ↔ row.view.IsDue now := by
  obtain ⟨status, hstatus⟩ := table.statusWritten row.id row (mem_values_iff.mp hrow)
  have hpending : row.status = "pending" ↔ row.view.status = .pending := by
    rw [WebhookEventRow.view_of_status hstatus, hstatus]
    cases status <;> simp [WebhookEventStatus.toDb, WebhookEventRow.record]
  rw [due, Bool.and_eq_true, beq_iff_eq, hpending, Option.any_eq_true]
  simp only [WebhookEventRecord.IsDue, view_next_attempt, decide_eq_true_eq]

/-- The due records of the table, in the order in which it is scanned. -/
theorem due_records [Platform] (scan : Scan) (now : DateTime) (table : EventTable) :
    DueRecords table now
      (((scan.order table.rows.values).filter (due now)).map WebhookEventRow.view) := by
  have hperm := (scan.order_perm table.rows.values).filter (due now)
  refine ⟨view_ids_nodup (hperm.subperm.trans List.filter_sublist.subperm), fun record => ?_⟩
  simp only [List.mem_map, List.mem_filter, Scan.mem_order]
  constructor
  · intro hlisted
    obtain ⟨row, ⟨hrow, hdue⟩, rfl⟩ := hlisted
    refine ⟨?_, (due_iff hrow).mp hdue⟩
    show (table.rows.lookup row.view.id).map WebhookEventRow.view = _
    rw [WebhookEventRow.view_id, mem_values_iff.mp hrow, Option.map_some]
  · intro hstored
    obtain ⟨hfound, hdue⟩ := hstored
    obtain ⟨row, hlookup, rfl⟩ := Option.map_eq_some_iff.mp hfound
    have hrow : row ∈ table.rows.values := HashMap.mem_values.mpr ⟨_, hlookup⟩
    exact ⟨row, ⟨hrow, (due_iff hrow).mpr hdue⟩, rfl⟩

end EventTable

open EventTable in
instance [Platform] : QueueLaws EventTable where
  fetch scan now limit table hlimit := by
    have hperm := sort_by_key_perm (fun row : WebhookEventRow => row.nextAttemptAt.getD 0)
      ((scan.order table.rows.values).filter (due (Platform.timestamptz now)))
    have hsorted := sort_by_key_sorted (fun row : WebhookEventRow => row.nextAttemptAt.getD 0)
      ((scan.order table.rows.values).filter (due (Platform.timestamptz now)))
    refine ⟨_, _, ?_, due_records scan (Platform.timestamptz now) table,
      foremost_take (hperm.map WebhookEventRow.view) ?_⟩
    · have hrows : ∀ row ∈ (sortByKey (fun row : WebhookEventRow => row.nextAttemptAt.getD 0)
          ((scan.order table.rows.values).filter (due (Platform.timestamptz now)))).take
            limit.toNat, row ∈ table.rows.values := fun row hrow =>
        Scan.mem_order.mp
          (List.mem_of_mem_filter (hperm.mem_iff.mp (List.mem_of_mem_take hrow)))
      show EventTable.fetchDue scan now limit table = _
      rw [EventTable.fetchDue, if_neg (Int.not_lt.mpr hlimit), ← List.map_take]
      exact collect_eq hrows
    · rw [Ascending, List.pairwise_map]
      refine hsorted.imp fun {first second} hle => ?_
      rwa [WebhookEventRecord.attemptTime, WebhookEventRecord.attemptTime, view_next_attempt,
        view_next_attempt]

end StellarPay
