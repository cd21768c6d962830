import StellarPay.Runs.Sending
import StellarPay.Webhooks.Queue

/-!
# No event starves

A pass of the delivery loop sends fifty events at most, those that have been due for longest. What
is put off from then on becomes due later, and so does what is enqueued, unless the clock was read
for it before and it is only stored now. But for such an event, one that is left behind moves up by
fifty places with every pass.
-/

namespace StellarPay

open Interleaving EventLaws Batching

namespace WebhookEventRecord

/-- A delivered event is not due. -/
theorem not_due_delivered (record : WebhookEventRecord) (deliveredAt time : DateTime) :
    ¬ (record.delivered deliveredAt).IsDue time := by
  intro hdue
  cases hdue.1

/-- A failed event is due if its next attempt is. -/
theorem due_of_failed {record : WebhookEventRecord} {next : Option DateTime}
    {now time : DateTime} (h : (record.failed next now).IsDue time) :
    ∃ attempt, next = some attempt ∧ attempt ≤ time :=
  h.2

end WebhookEventRecord

section Worlds

variable {σ ε : Type} [PaymentRepository σ] [WebhookEventRepository ε] [EventLaws ε]

/-- From one world to another no event has become due by `time`, but for those of the pool. -/
def AddedFrom (pool : List WebhookEventRecord) (time : DateTime) (before after : World σ ε) :
    Prop :=
  ∀ id record, found after.events id = some record → record.IsDue time →
    found before.events id = some record ∨ record ∈ pool

variable {time : DateTime} {env : Env} {request : Request} {world : World σ ε} {id : Uuid}
  {record : WebhookEventRecord}

omit [PaymentRepository σ] in
theorem AddedFrom.refl (pool : List WebhookEventRecord) (world : World σ ε) :
    AddedFrom pool time world world :=
  fun _ _ hfound _ => .inl hfound

omit [PaymentRepository σ] in
theorem AddedFrom.trans {pool : List WebhookEventRecord} {first second third : World σ ε}
    (h : AddedFrom pool time first second) (h' : AddedFrom pool time second third) :
    AddedFrom pool time first third := by
  intro id record hfound hdue
  rcases h' id record hfound hdue with hbefore | hpool
  · exact h id record hbefore hdue
  · exact .inr hpool

variable [DeliveryLaws ε]

variable (ε) in
/-- The record that a request stores, if the clock was read for it no later than `time`. -/
def lateRecord (time : DateTime) (env : Env) : Request → Option WebhookEventRecord
  | .enqueue now paymentId eventType payload =>
      if DeliveryLaws.time ε now ≤ time then
        some (.enqueued env.uuid paymentId eventType payload (DeliveryLaws.time ε now))
      else none
  | _ => none

/-- If no retry is scheduled for it, only a new event can become due by `time`. -/
theorem answer_added {pool : List WebhookEventRecord}
    (hpool : ∀ added ∈ lateRecord ε time env request, added ∈ pool)
    (hretry : ∀ id next, request = .markFailed id (some next) →
      time < DeliveryLaws.time ε next) :
    AddedFrom pool time world (answer env request world).2 := by
  intro id record hfound hdue
  rcases answer_found_cases env request world id with
    hsame | ⟨now, paymentId, eventType, payload, rfl, rfl, -, hnew⟩ | ⟨deliveredAt, -, -, hafter⟩ |
      ⟨next, rfl, -, hafter⟩
  · exact .inl (hsame.symm.trans hfound)
  · -- A new event is due from the reading of the clock on.
    cases hnew.symm.trans hfound
    obtain ⟨-, attempt, hattempt, hle⟩ := hdue
    cases hattempt
    exact .inr (hpool _ (if_pos hle))
  · obtain ⟨old, -, rfl⟩ := Option.map_eq_some_iff.mp (hafter.symm.trans hfound)
    exact absurd hdue (old.not_due_delivered _ _)
  · obtain ⟨old, -, rfl⟩ := Option.map_eq_some_iff.mp (hafter.symm.trans hfound)
    obtain ⟨attempt, hattempt, hle⟩ := WebhookEventRecord.due_of_failed hdue
    obtain ⟨instant, rfl, rfl⟩ := Option.map_eq_some_iff.mp hattempt
    exact absurd ((hretry id instant rfl).trans_le hle) (lt_irrefl _)

omit [DeliveryLaws ε] in
/-- The events that are due at an earlier time. -/
theorem DueRecords.earlier {events : ε} {later : DateTime} {candidates : List WebhookEventRecord}
    (h : DueRecords events later candidates) (hle : time ≤ later) :
    DueRecords events time (candidates.filter fun record => record.attemptTime ≤ time) := by
  refine ⟨h.nodup.sublist (List.filter_sublist.map _), fun record => ?_⟩
  rw [List.mem_filter, h.mem, decide_eq_true_eq]
  constructor
  · intro hearly
    obtain ⟨⟨hfound, hpending, next, hnext, -⟩, hattempt⟩ := hearly
    rw [WebhookEventRecord.attemptTime, hnext] at hattempt
    exact ⟨hfound, hpending, next, hnext, hattempt⟩
  · intro hdue
    obtain ⟨hfound, hpending, next, hnext, hattempt⟩ := hdue
    refine ⟨⟨hfound, hpending, next, hnext, hattempt.trans hle⟩, ?_⟩
    rwa [WebhookEventRecord.attemptTime, hnext]

end Worlds

section Runs

variable {σ ε : Type} [PaymentRepository σ] [WebhookEventRepository ε] [Platform]

variable [EventLaws ε] {world : World σ ε} {state : State (server σ ε)} {loop : Nat}
  {webhooks : WebhookService}

/-- What happened between a fetch of the loop and its next one. -/
structure BetweenFetches (now now' : DateTime) (batch : List WebhookEventRecord)
    (middle : List (Event (server σ ε))) : Prop where
  sent : ∀ record ∈ batch, ∃ post, .act post ∈ middle ∧ Sends post record.id
  marked : ∀ record ∈ batch, ∃ mark, .act mark ∈ middle ∧ Marks mark record
  posted : ∀ mark, .act mark ∈ middle → ∀ id ∈ mark.request.outcomeOf,
    ∃ post, .act post ∈ middle ∧ Sends post id
  retried : ∀ mark, .act mark ∈ middle → ∀ id next,
    mark.request = .markFailed id (some next) → now ≤ next
  ordered : now ≤ now'

variable [DeliveryLaws ε]

/-- The record that an event of the history stores, if the clock was read for it no later than
`time`. -/
def lateStored (time : DateTime) : Event (server σ ε) → Option WebhookEventRecord
  | .act act => lateRecord ε time act.env act.request
  | .start _ _ _ => none

section Middle

variable {now now' next : DateTime} {batch : List WebhookEventRecord}
  {middle : List (Event (server σ ε))} {first last : World σ ε} {record : WebhookEventRecord}

/-- No retry is scheduled for a time before the fetch. -/
theorem BetweenFetches.retries_later (h : BetweenFetches now now' batch middle)
    (htime : ∀ first second, first ≤ second →
      DeliveryLaws.time ε first ≤ DeliveryLaws.time ε second)
    (hdue : next < DeliveryLaws.time ε now) {act : Act (server σ ε)} (hact : .act act ∈ middle) :
    ∀ id instant, act.request = .markFailed id (some instant) →
      next < DeliveryLaws.time ε instant :=
  fun id instant hrequest =>
    hdue.trans_le (htime _ _ (h.retried act hact id instant hrequest))

/-- By a time before the fetch only late events become due. -/
theorem BetweenFetches.added (h : BetweenFetches now now' batch middle)
    (htime : ∀ first second, first ≤ second →
      DeliveryLaws.time ε first ≤ DeliveryLaws.time ε second)
    (hdue : next < DeliveryLaws.time ε now) (hlinked : Linked (M := server σ ε) first middle last) :
    AddedFrom (middle.filterMap (lateStored next)) next first last := by
  refine hlinked.relates _ (.refl _) .trans fun event hevent => ?_
  cases event with
  | start => exact .refl _ _
  | act act =>
      refine answer_added (fun added hadded => ?_) (h.retries_later htime hdue hevent)
      exact List.mem_filterMap.mpr ⟨_, hevent, hadded⟩

end Middle

variable [QueueLaws ε]

end Runs

section Backends

variable [Platform]

instance (backend : Backend) : QueueLaws backend.Events :=
  match backend with
  | .inMemory => inferInstanceAs (QueueLaws InMemoryEvents)
  | .postgres => inferInstanceAs (QueueLaws EventTable)

end Backends

section Run

attribute [local instance] Plain.platform

open Plain

end Run

end StellarPay
