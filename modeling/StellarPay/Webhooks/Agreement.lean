import StellarPay.Payments.Agreement
import StellarPay.Payments.Partition
import StellarPay.Webhooks.Queue

/-!
# The events in memory and in the table

When the two event stores hold the same events (`RelatedEvents`), and when two answers are the same.
The table keeps of an instant what a `TIMESTAMPTZ` keeps. Events whose sort keys the table does not
tell apart may be listed in any order, and if the limit of a batch cuts between them, any of them
may be taken.
-/

namespace StellarPay

open EventLaws Batching

variable [Platform]

namespace WebhookEventRecord

/-- What the columns of the table keep of a record. -/
def kept (record : WebhookEventRecord) : WebhookEventRecord :=
  { record with
    nextAttemptAt := record.nextAttemptAt.map Platform.timestamptz,
    deliveredAt := record.deliveredAt.map Platform.timestamptz,
    createdAt := Platform.timestamptz record.createdAt,
    updatedAt := Platform.timestamptz record.updatedAt }

@[simp]
theorem kept_id (record : WebhookEventRecord) : record.kept.id = record.id := rfl

/-- The columns keep a failure. -/
theorem kept_failed (record : WebhookEventRecord) (next : Option DateTime) (now : DateTime) :
    (record.failed next now).kept =
      record.kept.failed (next.map Platform.timestamptz) (Platform.timestamptz now) := by
  simp [kept, failed]

/-- The event is pending, and its next attempt, which is after `now`, is not after it any more in
the table. -/
def Straddles (record : WebhookEventRecord) (now : DateTime) : Prop :=
  record.status = .pending ∧ ∃ next, record.nextAttemptAt = some next ∧ now < next ∧
    Platform.timestamptz next ≤ Platform.timestamptz now

/-- The event is pending, and its next attempt is before `now` in the table. -/
def IsOverdue (record : WebhookEventRecord) (now : DateTime) : Prop :=
  record.status = .pending ∧ ∃ next, record.nextAttemptAt = some next ∧
    Platform.timestamptz next < Platform.timestamptz now

variable {record : WebhookEventRecord} {now : DateTime}

/-- What is due is sorted by its next attempt, also in the table. -/
theorem IsDue.kept_attempt_time (h : record.IsDue now) :
    record.kept.attemptTime = Platform.timestamptz record.attemptTime := by
  obtain ⟨-, next, hnext, -⟩ := h
  simp [attemptTime, kept, hnext]

/-- The record is due in the table. -/
theorem kept_is_due_iff : record.kept.IsDue (Platform.timestamptz now) ↔
    record.status = .pending ∧ ∃ next, record.nextAttemptAt = some next ∧
      Platform.timestamptz next ≤ Platform.timestamptz now := by
  simp [IsDue, kept]

section Order

variable (hmono : ∀ first second, first ≤ second →
  Platform.timestamptz first ≤ Platform.timestamptz second)
include hmono

/-- What is due in memory is due in the table; the other way round, unless it straddles the time. -/
theorem kept_is_due_of_not_straddles (h : ¬ record.Straddles now) :
    record.kept.IsDue (Platform.timestamptz now) ↔ record.IsDue now := by
  rw [kept_is_due_iff]
  constructor
  · intro hkept
    obtain ⟨hpending, next, hnext, hle⟩ := hkept
    exact ⟨hpending, next, hnext, not_lt.mp fun hlt => h ⟨hpending, next, hnext, hlt, hle⟩⟩
  · intro hdue
    obtain ⟨hpending, next, hnext, hle⟩ := hdue
    exact ⟨hpending, next, hnext, hmono next now hle⟩

/-- What is due, and sorted before the present time by the table, is overdue. -/
theorem overdue_iff :
    (record.IsDue now ∧ record.kept.attemptTime < Platform.timestamptz now) ↔
      record.IsOverdue now := by
  constructor
  · intro h
    obtain ⟨hdue, hlt⟩ := h
    rw [hdue.kept_attempt_time] at hlt
    obtain ⟨hpending, next, hnext, -⟩ := hdue
    rw [attemptTime, hnext] at hlt
    exact ⟨hpending, next, hnext, hlt⟩
  · intro h
    obtain ⟨hpending, next, hnext, hlt⟩ := h
    have hle : next ≤ now := le_of_not_gt fun hgt => absurd (hmono now next hgt.le) (not_le.mpr hlt)
    have hdue : record.IsDue now := ⟨hpending, next, hnext, hle⟩
    refine ⟨hdue, ?_⟩
    rwa [hdue.kept_attempt_time, attemptTime, hnext]

omit hmono in
/-- The same in the table. -/
theorem kept_overdue_iff :
    (record.kept.IsDue (Platform.timestamptz now) ∧
      record.kept.attemptTime < Platform.timestamptz now) ↔ record.IsOverdue now := by
  rw [kept_is_due_iff]
  constructor
  · intro h
    obtain ⟨⟨hpending, next, hnext, -⟩, hlt⟩ := h
    refine ⟨hpending, next, hnext, ?_⟩
    simpa [attemptTime, kept, hnext] using hlt
  · intro h
    obtain ⟨hpending, next, hnext, hlt⟩ := h
    refine ⟨⟨hpending, next, hnext, hlt.le⟩, ?_⟩
    simpa [attemptTime, kept, hnext] using hlt

end Order

end WebhookEventRecord

/-- The records of a store that are wanted, each once. -/
structure Selected {ε : Type} [WebhookEventRepository ε] [EventLaws ε] (events : ε)
    (wanted : WebhookEventRecord → Prop) (records : List WebhookEventRecord) : Prop where
  nodup : (records.map WebhookEventRecord.id).Nodup
  mem : ∀ record, record ∈ records ↔ found events record.id = some record ∧ wanted record

omit [Platform] in
/-- Some of the records that are due. -/
theorem DueRecords.filter {ε : Type} [WebhookEventRepository ε] [EventLaws ε] {events : ε}
    {now : DateTime} {records : List WebhookEventRecord} (h : DueRecords events now records)
    (test : WebhookEventRecord → Bool) :
    Selected events (fun record => record.IsDue now ∧ test record) (records.filter test) := by
  refine ⟨h.nodup.sublist (List.filter_sublist.map _), fun record => ?_⟩
  rw [List.mem_filter, h.mem, and_assoc]

/-- Both stores hold the same events under the same identifiers. -/
def RelatedEvents (memory : InMemoryEvents) (table : EventTable) : Prop :=
  ∀ id, found table id = (found memory id).map WebhookEventRecord.kept

/-- Two answers list the same events, position by position created at the same instant. -/
structure SameEvents (firsts seconds : List WebhookEventRecord) : Prop where
  perm : (firsts.map WebhookEventRecord.kept).Perm seconds
  times : (firsts.map WebhookEventRecord.kept).map WebhookEventRecord.createdAt =
    seconds.map WebhookEventRecord.createdAt

/-- Two answers are batches of one queue, the events that are due in memory. -/
structure SameBatch (memory : InMemoryEvents) (now : DateTime) (limit : Nat)
    (candidates firsts seconds : List WebhookEventRecord) : Prop where
  due : DueRecords memory now candidates
  first : Foremost WebhookEventRecord.attemptTime limit
    (candidates.map WebhookEventRecord.kept) (firsts.map WebhookEventRecord.kept)
  second : Foremost WebhookEventRecord.attemptTime limit
    (candidates.map WebhookEventRecord.kept) seconds

namespace SameBatch

variable {memory : InMemoryEvents} {now : DateTime} {limit : Nat}
  {candidates firsts seconds : List WebhookEventRecord}

/-- Position by position the sort keys are the same. -/
theorem times (h : SameBatch memory now limit candidates firsts seconds) :
    (firsts.map WebhookEventRecord.kept).map WebhookEventRecord.attemptTime =
      seconds.map WebhookEventRecord.attemptTime :=
  h.first.keys_eq h.second (.refl _)

end SameBatch

/-- The table takes no event for due that is not due in memory: there is none that straddles the
time, or those that are overdue fill the batch. -/
def TellsApart (memory : InMemoryEvents) (now : DateTime) (limit : Nat) : Prop :=
  (∀ record, found memory record.id = some record → ¬ record.Straddles now) ∨
  ∃ records : List WebhookEventRecord, (records.map WebhookEventRecord.id).Nodup ∧
    (∀ record ∈ records, found memory record.id = some record ∧ record.IsOverdue now) ∧
    limit ≤ records.length

/-- Any batch of what is due is fetched if the table is scanned in the right order. -/
theorem EventTable.exists_scan {table : EventTable} {now : DateTime} {limit : Nat}
    {candidates batch : List WebhookEventRecord}
    (hdue : DueRecords table (Platform.timestamptz now) candidates)
    (hbatch : Foremost WebhookEventRecord.attemptTime limit candidates batch) :
    ∃ scan, table.fetchDue scan now limit = .ok batch := by
  classical
  let test := due (Platform.timestamptz now)
  have hnodup : (table.rows.values.map WebhookEventRow.id).Nodup :=
    HashMap.values_nodup table.keyed
  obtain ⟨elements, hperm, hsorted, rfl⟩ := hbatch.continues
  -- The rows of these records, and all other rows after them.
  have hrows : elements.Perm ((table.rows.values.filter test).map WebhookEventRow.view) := by
    have hall := due_records (fun _ => Equiv.refl _) (Platform.timestamptz now) table
    have hother := ((Scan.order_perm (fun _ => Equiv.refl _) table.rows.values).filter test).map
      WebhookEventRow.view
    refine (hperm.trans ?_).trans hother
    rw [List.perm_ext_iff_of_nodup hdue.nodup.of_map hall.nodup.of_map]
    exact fun record => (hdue.mem record).trans (hall.mem record).symm
  obtain ⟨rows, hrowsPerm, rfl⟩ := perm_of_map hrows
  have htarget : (rows ++ table.rows.values.filter fun row => !test row).Perm table.rows.values :=
    (hrowsPerm.append_right _).trans (List.filter_append_perm _ _)
  obtain ⟨scan, hscan⟩ := Scan.exists_order hnodup.of_map htarget
  have hmem : ∀ row ∈ rows, row ∈ table.rows.values ∧ test row = true := fun row hrow =>
    List.mem_filter.mp (hrowsPerm.mem_iff.mp hrow)
  have hfound : (scan.order table.rows.values).filter test = rows := by
    rw [hscan, List.filter_append, List.filter_eq_self.mpr fun row hrow => (hmem row hrow).2,
      List.filter_filter]
    simp
  refine ⟨scan, ?_⟩
  have hsort : sortByKey (fun row : WebhookEventRow => row.nextAttemptAt.getD 0) rows = rows := by
    refine sort_by_key_eq ((List.pairwise_map.mp hsorted).imp fun hle => ?_)
    rwa [WebhookEventRecord.attemptTime, WebhookEventRecord.attemptTime, view_next_attempt,
      view_next_attempt] at hle
  rw [fetchDue, if_neg (Int.not_lt.mpr (Int.natCast_nonneg limit)), hfound]
  dsimp only
  rw [hsort, Int.toNat_natCast, ← List.map_take]
  exact collect_eq fun row hrow => (hmem row (List.mem_of_mem_take hrow)).1

omit [Platform] in
/-- A write to an event that is not stored fails in memory, and is not noticed by the table: the
two answer alike exactly if it is stored. -/
theorem same_write_iff {memory : InMemoryEvents} {target : Uuid}
    {result result' : Except RepositoryError Unit}
    (hmemory : result = match found memory target with
      | none => .error .notFound
      | some _ => .ok ())
    (htable : result' = .ok ()) :
    SameResult Eq result result' ↔ ∃ record, found memory target = some record := by
  rw [hmemory, htable]
  cases found memory target with
  | none => simp [SameResult]
  | some record => simp [SameResult]

namespace RelatedEvents

variable {memory : InMemoryEvents} {table : EventTable}

/-- Empty stores hold the same events. -/
theorem empty : RelatedEvents InMemoryEvents.new EventTable.new :=
  fun _ => rfl

/-- A record in memory is in the table. -/
theorem in_table (h : RelatedEvents memory table) {record : WebhookEventRecord}
    (hfound : found memory record.id = some record) :
    found table record.kept.id = some record.kept := by
  rw [WebhookEventRecord.kept_id, h record.id, hfound, Option.map_some]

/-- A record in the table is in memory. -/
theorem in_memory (h : RelatedEvents memory table) {record : WebhookEventRecord}
    (hfound : found table record.id = some record) :
    ∃ first, found memory first.id = some first ∧ first.kept = record := by
  rw [h record.id] at hfound
  obtain ⟨first, hfirst, hkept⟩ := Option.map_eq_some_iff.mp hfound
  refine ⟨first, ?_, hkept⟩
  rwa [DeliveryLaws.found_id hfirst]

/-- What is wanted in memory is what is wanted in the table. -/
theorem selected_perm (h : RelatedEvents memory table)
    {wanted wanted' : WebhookEventRecord → Prop} {firsts seconds : List WebhookEventRecord}
    (hsame : ∀ record, found memory record.id = some record →
      (wanted' record.kept ↔ wanted record))
    (hfirsts : Selected memory wanted firsts) (hseconds : Selected table wanted' seconds) :
    (firsts.map WebhookEventRecord.kept).Perm seconds := by
  have hids : (firsts.map WebhookEventRecord.kept).map WebhookEventRecord.id =
      firsts.map WebhookEventRecord.id := by
    rw [List.map_map]
    rfl
  rw [List.perm_ext_iff_of_nodup (hids.symm ▸ hfirsts.nodup).of_map hseconds.nodup.of_map]
  intro record
  rw [hseconds.mem, List.mem_map]
  constructor
  · intro hlisted
    obtain ⟨first, hfirst, rfl⟩ := hlisted
    obtain ⟨hfound, hwanted⟩ := (hfirsts.mem first).mp hfirst
    exact ⟨h.in_table hfound, (hsame first hfound).mpr hwanted⟩
  · intro hstored
    obtain ⟨hfound, hwanted⟩ := hstored
    obtain ⟨first, hfirst, rfl⟩ := h.in_memory hfound
    exact ⟨first, (hfirsts.mem first).mpr ⟨hfirst, (hsame first hfirst).mp hwanted⟩, rfl⟩

/-- Both stores return a new event exactly if its columns can hold its texts. -/
theorem same_enqueue_iff (h : RelatedEvents memory table) {id : Uuid}
    (hunused : found memory id = none) (now : DateTime) (paymentId : Uuid) (eventType : String)
    (payload : Value) :
    SameResult (fun first second => first.kept = second)
      (WebhookEventRepository.enqueue true id now paymentId eventType payload memory).1
      (WebhookEventRepository.enqueue true id now paymentId eventType payload table).1 ↔
    hasNul eventType = false ∧ payload.hasNul = false := by
  have hfree : table.rows.lookup id = none := by
    have hnone := h id
    rw [hunused] at hnone
    exact Option.map_eq_none_iff.mp hnone
  refine same_result_ok_iff.trans ⟨fun hanswer => ?_, fun htexts => ?_⟩
  · obtain ⟨second, hsecond, -⟩ := hanswer
    simp only [WebhookEventRepository.enqueue, EventTable.enqueue] at hsecond
    split at hsecond
    · cases hsecond
    · rename_i htype
      split at hsecond
      · cases hsecond
      · rename_i hpayload
        exact ⟨Bool.eq_false_iff.mpr htype, Bool.eq_false_iff.mpr hpayload⟩
  · obtain ⟨htype, hpayload⟩ := htexts
    refine ⟨_, ?_, rfl⟩
    simp [WebhookEventRepository.enqueue, EventTable.enqueue, htype, hpayload, hfree]
    rfl

/-- A new event is stored in both. -/
theorem after_enqueue (h : RelatedEvents memory table) {paymentExists : Bool} {id : Uuid}
    {now : DateTime} {paymentId : Uuid} {eventType : String} {payload : Value}
    {record : WebhookEventRecord} {after : EventTable}
    (hanswer : WebhookEventRepository.enqueue paymentExists id now paymentId eventType payload
      table = (.ok record, after)) :
    RelatedEvents (InMemoryEvents.enqueue id now paymentId eventType payload memory).2 after := by
  intro other
  obtain ⟨hid, -, -, -, hafter⟩ := enqueue_ok hanswer
  have hrecord := DeliveryLaws.enqueue_new hanswer
  rw [hafter other]
  show _ = ((memory.insert _).events.lookup other).map WebhookEventRecord.kept
  simp only [InMemoryEvents.insert, HashMap.lookup_insert_eq]
  split
  · rw [hrecord]
    rfl
  · exact h other

/-- Both stores answer a delivery alike exactly if its event is stored. -/
theorem same_delivered_iff (memory : InMemoryEvents) (table : EventTable) (target : Uuid)
    (deliveredAt : DateTime) :
    SameResult Eq (WebhookEventRepository.markDelivered target deliveredAt memory).1
      (WebhookEventRepository.markDelivered target deliveredAt table).1 ↔
    ∃ record, found memory target = some record := by
  refine same_write_iff ?_ ?_
  · show (memory.markDelivered target deliveredAt).1 =
      match memory.events.lookup target with | none => _ | some _ => _
    unfold InMemoryEvents.markDelivered
    cases memory.events.lookup target <;> rfl
  · show (table.markDelivered target deliveredAt).1 = _
    unfold EventTable.markDelivered
    cases table.rows.lookup target <;> rfl

/-- Both stores answer a failure alike exactly if its event is stored and its counter is not at its
end. -/
theorem same_failed_iff (h : RelatedEvents memory table) (now : DateTime) (target : Uuid)
    (next : Option DateTime) :
    SameResult Eq (WebhookEventRepository.markFailed now target next memory).1
      (WebhookEventRepository.markFailed now target next table).1 ↔
    ∃ record, found memory target = some record ∧ record.attempts ≠ Int32.maxValue := by
  have hmemory : (WebhookEventRepository.markFailed now target next memory).1 =
      match found memory target with
      | none => .error .notFound
      | some _ => .ok () := by
    show (memory.markFailed now target next).1 =
      match memory.events.lookup target with | none => _ | some _ => _
    unfold InMemoryEvents.markFailed
    cases memory.events.lookup target <;> rfl
  have htable : (WebhookEventRepository.markFailed now target next table).1 =
      match found memory target with
      | none => .ok ()
      | some record => if record.attempts = Int32.maxValue then
          .error (EventTable.mapSqlxError integerOutOfRange) else .ok () := by
    show (table.markFailed now target next).1 = _
    have hsame : (table.rows.lookup target).map WebhookEventRow.view =
        (found memory target).map WebhookEventRecord.kept := h target
    unfold EventTable.markFailed
    cases hrow : table.rows.lookup target with
    | none =>
        rw [hrow, Option.map_none] at hsame
        rw [Option.map_eq_none_iff.mp hsame.symm]
    | some row =>
        rw [hrow, Option.map_some] at hsame
        obtain ⟨record, hrecord, hkept⟩ := Option.map_eq_some_iff.mp hsame.symm
        have hattempts : row.attempts = record.attempts := by
          rw [← EventTable.view_attempts, ← hkept]
          rfl
        simp only [hrecord, hattempts]
        split <;> rfl
  rw [hmemory, htable]
  cases found memory target with
  | none => simp [SameResult]
  | some record =>
      by_cases hend : record.attempts = Int32.maxValue <;> simp [SameResult, hend]

/-- A delivery is recorded in both. -/
theorem after_delivered (h : RelatedEvents memory table) (target : Uuid) (deliveredAt : DateTime) :
    RelatedEvents (memory.markDelivered target deliveredAt).2
      (table.markDelivered target deliveredAt).2 := by
  intro other
  refine (DeliveryLaws.delivered_found target deliveredAt table other).trans ?_
  rw [show found (memory.markDelivered target deliveredAt).2 other = _ from
    DeliveryLaws.delivered_found target deliveredAt memory other, h other]
  split
  · rw [Option.map_map, Option.map_map]
    rfl
  · rfl

/-- A failure that can be counted is recorded in both. -/
theorem after_failed (h : RelatedEvents memory table) (now : DateTime) (target : Uuid)
    (next : Option DateTime)
    (hroom : ∀ record ∈ found memory target, record.attempts ≠ Int32.maxValue) :
    RelatedEvents (memory.markFailed now target next).2 (table.markFailed now target next).2 := by
  intro other
  refine (DeliveryLaws.failed_found now target next table other).trans ?_
  rw [show found (memory.markFailed now target next).2 other = _ from
    DeliveryLaws.failed_found now target next memory other, h other]
  split
  · rename_i hother
    cases hfound : found memory other with
    | none => rfl
    | some record =>
        have hcounts : DeliveryLaws.counts EventTable record.kept.attempts = true :=
          DeliveryLaws.counts_of_ne (hroom record (hother ▸ hfound))
        simp only [Option.map_some, hcounts, if_true]
        show some _ = some (record.failed (next.map id) now).kept
        rw [Option.map_id, WebhookEventRecord.kept_failed]
        rfl
  · rfl

section Batches

variable {now : DateTime} {limit : Nat} {candidates others : List WebhookEventRecord}
  (hmono : ∀ first second, first ≤ second →
    Platform.timestamptz first ≤ Platform.timestamptz second)
include hmono

/-- The overdue ones of both stores. -/
theorem overdue_perm (h : RelatedEvents memory table) (hdue : DueRecords memory now candidates)
    (hdue' : DueRecords table (Platform.timestamptz now) others) :
    ((candidates.filter fun record =>
        record.kept.attemptTime < Platform.timestamptz now).map WebhookEventRecord.kept).Perm
      (others.filter fun record => record.attemptTime < Platform.timestamptz now) := by
  refine h.selected_perm (fun record _ => ?_) (hdue.filter _) (hdue'.filter _)
  simp only [decide_eq_true_eq]
  rw [WebhookEventRecord.kept_overdue_iff, WebhookEventRecord.overdue_iff hmono]

/-- As many records as there are in memory that are overdue. -/
theorem overdue_full_iff (hdue : DueRecords memory now candidates) :
    (∃ records : List WebhookEventRecord, (records.map WebhookEventRecord.id).Nodup ∧
      (∀ record ∈ records, found memory record.id = some record ∧ record.IsOverdue now) ∧
      limit ≤ records.length) ↔
    limit ≤ (candidates.filter fun record =>
      record.kept.attemptTime < Platform.timestamptz now).length := by
  have hselected := hdue.filter fun record =>
    record.kept.attemptTime < Platform.timestamptz now
  have hmem : ∀ record, record ∈ (candidates.filter fun record =>
      record.kept.attemptTime < Platform.timestamptz now) ↔
        found memory record.id = some record ∧ record.IsOverdue now := by
    intro record
    rw [hselected.mem, decide_eq_true_eq, WebhookEventRecord.overdue_iff hmono]
  constructor
  · intro hrecords
    obtain ⟨records, hnodup, hall, hlimit⟩ := hrecords
    have hsubset : records ⊆ _ := fun record hrecord => (hmem record).mpr (hall record hrecord)
    exact hlimit.trans (hnodup.of_map.subperm hsubset).length_le
  · intro hlimit
    exact ⟨_, hselected.nodup, fun record hrecord => (hmem record).mp hrecord, hlimit⟩

/-- A batch of the table is one of what is due in memory, if the table tells the events apart. -/
theorem batch_of_table (h : RelatedEvents memory table) (hapart : TellsApart memory now limit)
    (hdue : DueRecords memory now candidates)
    (hdue' : DueRecords table (Platform.timestamptz now) others) {batch : List WebhookEventRecord}
    (hbatch : Foremost WebhookEventRecord.attemptTime limit others batch) :
    Foremost WebhookEventRecord.attemptTime limit (candidates.map WebhookEventRecord.kept)
      batch := by
  rcases hapart with hnone | hfull
  · have hperm : (candidates.map WebhookEventRecord.kept).Perm others :=
      h.selected_perm (fun record hfound =>
          WebhookEventRecord.kept_is_due_of_not_straddles hmono (hnone record hfound))
        ⟨hdue.nodup, hdue.mem⟩ ⟨hdue'.nodup, hdue'.mem⟩
    exact hbatch.of_perm hperm.symm
  · have hlimit := (overdue_full_iff hmono hdue).mp hfull
    have hperm := h.overdue_perm hmono hdue hdue'
    have hmap := List.filter_map (f := WebhookEventRecord.kept) (l := candidates)
      (p := fun record => decide (record.attemptTime < Platform.timestamptz now))
    have hlimit' := hperm.length_eq ▸ (List.length_map _).symm ▸ hlimit
    have hbelow := ((Foremost.below_iff hlimit').mpr hbatch).of_perm hperm.symm
    have hfilled : limit ≤ ((candidates.map WebhookEventRecord.kept).filter fun record =>
        record.attemptTime < Platform.timestamptz now).length := by
      rw [hmap, List.length_map]
      exact hlimit
    refine (Foremost.below_iff hfilled).mp ?_
    rw [hmap]
    exact hbelow

/-- A batch in memory, as the table keeps it. -/
theorem batch_of_memory (hdue : DueRecords memory now candidates)
    {batch : List WebhookEventRecord}
    (hbatch : Foremost WebhookEventRecord.attemptTime limit candidates batch) :
    Foremost WebhookEventRecord.attemptTime limit (candidates.map WebhookEventRecord.kept)
      (batch.map WebhookEventRecord.kept) := by
  refine hbatch.map _ fun first hfirst second hsecond hle => ?_
  have hfirstDue := ((hdue.mem first).mp hfirst).2
  have hsecondDue := ((hdue.mem second).mp hsecond).2
  rw [hfirstDue.kept_attempt_time, hsecondDue.kept_attempt_time]
  exact hmono _ _ hle

/-- Unless the overdue events fill the batch, the table may fetch an event that straddles the
time. -/
theorem fetched_of_straddles (h : RelatedEvents memory table) {record : WebhookEventRecord}
    (hfound : found memory record.id = some record) (hstraddles : record.Straddles now)
    (hdue : DueRecords memory now candidates)
    (hfew : (candidates.filter fun record =>
      record.kept.attemptTime < Platform.timestamptz now).length < limit) :
    ∃ scan batch, table.fetchDue scan now limit = .ok batch ∧ record.kept ∈ batch := by
  obtain ⟨others, hdue'⟩ : ∃ others, DueRecords table (Platform.timestamptz now) others :=
    ⟨_, EventTable.due_records (fun _ => Equiv.refl _) (Platform.timestamptz now) table⟩
  obtain ⟨hpending, next, hnext, hlt, hle⟩ := hstraddles
  have hkept : record.kept.IsDue (Platform.timestamptz now) :=
    WebhookEventRecord.kept_is_due_iff.mpr ⟨hpending, next, hnext, hle⟩
  -- In the table its next attempt is now, so that only overdue events come before it.
  have htime : record.kept.attemptTime = Platform.timestamptz now := by
    simpa [WebhookEventRecord.attemptTime, WebhookEventRecord.kept, hnext] using
      le_antisymm hle (hmono now next hlt.le)
  have hcount : (others.filter fun other =>
      other.attemptTime < record.kept.attemptTime).length < limit := by
    rw [htime, ← (h.overdue_perm hmono hdue hdue').length_eq, List.length_map]
    exact hfew
  obtain ⟨batch, hbatch, hmem⟩ :=
    exists_foremost_mem ((hdue'.mem record.kept).mpr ⟨h.in_table hfound, hkept⟩) hcount
  obtain ⟨scan, hscan⟩ := EventTable.exists_scan hdue' hbatch
  exact ⟨scan, batch, hscan, hmem⟩

/-- Both stores fetch batches of one queue, in whatever order they are scanned, exactly if the table
tells the events apart. -/
theorem same_fetch_iff (h : RelatedEvents memory table) :
    (∀ scan scan', SameResult
      (fun firsts seconds => ∃ candidates, SameBatch memory now limit candidates firsts seconds)
      (WebhookEventRepository.fetchDue scan now limit memory)
      (WebhookEventRepository.fetchDue scan' now limit table)) ↔ TellsApart memory now limit := by
  have hlimit : (0 : Int) ≤ limit := Int.natCast_nonneg limit
  constructor
  · intro hsame
    by_contra hapart
    simp only [TellsApart, not_or, not_forall, not_not] at hapart
    obtain ⟨⟨record, hfound, hstraddles⟩, hfew⟩ := hapart
    obtain ⟨firsts, candidates, hfetch, hdue, -⟩ :=
      QueueLaws.fetch (fun _ => Equiv.refl _) now memory hlimit
    obtain ⟨scan, batch, hscan, hmem⟩ := h.fetched_of_straddles hmono hfound hstraddles hdue
      (not_le.mp fun hfull => hfew ((overdue_full_iff hmono hdue).mpr hfull))
    have hanswers := hsame (fun _ => Equiv.refl _) scan
    rw [hfetch, show WebhookEventRepository.fetchDue scan now limit table = _ from hscan]
      at hanswers
    -- The record would be due in memory.
    obtain ⟨due, hbatches⟩ := hanswers
    obtain ⟨other, hother, hequal⟩ := List.mem_map.mp (hbatches.second.subset hmem)
    obtain ⟨hotherFound, -, time, htime, hle⟩ := (hbatches.due.mem other).mp hother
    have hid : other.kept.id = record.kept.id := by rw [hequal]
    rw [show other.id = record.id from hid, hfound] at hotherFound
    cases hotherFound
    obtain ⟨-, next, hnext, hlt, -⟩ := hstraddles
    cases hnext.symm.trans htime
    exact absurd hle (not_le.mpr hlt)
  · intro hapart scan scan'
    obtain ⟨firsts, candidates, hfetch, hdue, hbatch⟩ := QueueLaws.fetch scan now memory hlimit
    obtain ⟨seconds, others, hfetch', hdue', hbatch'⟩ := QueueLaws.fetch scan' now table hlimit
    rw [hfetch, hfetch']
    exact ⟨candidates, hdue, batch_of_memory hmono hdue hbatch,
      h.batch_of_table hmono hapart hdue hdue' hbatch'⟩

omit [Platform] hmono in
/-- The events of a payment in either store, oldest first. -/
theorem list_selected {ε : Type} [WebhookEventRepository ε] [EventLaws ε] [DeliveryLaws ε]
    (scan : Scan) (paymentId : Uuid) (events : ε) :
    ∃ records, WebhookEventRepository.listForPayment scan paymentId events = .ok records ∧
      Selected events (fun record => record.paymentId = paymentId) records ∧
      records.Pairwise fun first second => first.createdAt ≤ second.createdAt := by
  obtain ⟨records, hlist, hmem⟩ := @mem_list ε _ _ scan paymentId events
  obtain ⟨hnodup, hsorted⟩ := DeliveryLaws.list_ordered hlist
  exact ⟨records, hlist, ⟨hnodup, hmem⟩, hsorted⟩

/-- Both stores list the same events. -/
theorem same_list (h : RelatedEvents memory table) (scan scan' : Scan) (paymentId : Uuid) :
    SameResult SameEvents (WebhookEventRepository.listForPayment scan paymentId memory)
      (WebhookEventRepository.listForPayment scan' paymentId table) := by
  obtain ⟨firsts, hlist, hselected, hsorted⟩ := list_selected scan paymentId memory
  obtain ⟨seconds, hlist', hselected', hsorted'⟩ := list_selected scan' paymentId table
  rw [hlist, hlist']
  have hperm := h.selected_perm (fun record _ => Iff.rfl) hselected hselected'
  refine ⟨hperm, (hperm.map _).eq_of_pairwise (fun _ _ _ _ => Int.le_antisymm) ?_ ?_⟩
  · rw [List.map_map, List.pairwise_map]
    exact hsorted.imp fun hle => hmono _ _ hle
  · exact List.pairwise_map.mpr hsorted'

end Batches

end RelatedEvents

end StellarPay
