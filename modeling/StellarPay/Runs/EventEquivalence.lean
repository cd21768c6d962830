import StellarPay.Interleaving.Lockstep
import StellarPay.Runtime.Plain
import StellarPay.Webhooks.Agreement

/-!
# The event store in memory as a stand-in for Postgres

The same sequence of complete calls on both event stores, under the same readings of the clock and
the same generated identifiers. The statements of the table do not notice that there is no row to
change, its columns refuse the character NUL and a counter at its end, and its instants are those of
a `TIMESTAMPTZ`. The two answer alike along exactly the sequences in which no call meets one of
these differences.
-/

namespace StellarPay

open Interleaving EventLaws

/-- A call of the trait `WebhookEventRepository`: events are enqueued for existing payments, and no
limit is negative. -/
inductive EventCall where
  | enqueue (paymentId : Uuid) (eventType : String) (payload : Value)
  | fetchDue (now : DateTime) (limit : Nat)
  | markDelivered (id : Uuid) (deliveredAt : DateTime)
  | markFailed (id : Uuid) (nextAttemptAt : Option DateTime)
  | listForPayment (paymentId : Uuid)

/-- The type of the result of a call. -/
@[reducible]
def EventCall.Result : EventCall → Type
  | .enqueue _ _ _ => Except RepositoryError WebhookEventRecord
  | .fetchDue _ _ | .listForPayment _ => Except RepositoryError (List WebhookEventRecord)
  | .markDelivered _ _ | .markFailed _ _ => Except RepositoryError Unit

/-- A call, the identifier that is generated for it, and the reading of the clock. -/
structure EventStep where
  call : EventCall
  id : Uuid
  now : DateTime

namespace EventStep

/-- The result of the call, and what it leaves, when the store is scanned in this order. -/
def perform {ε : Type} [WebhookEventRepository ε] (step : EventStep) (scan : Scan) (events : ε) :
    step.call.Result × ε :=
  match step.call with
  | .enqueue paymentId eventType payload =>
      WebhookEventRepository.enqueue true step.id step.now paymentId eventType payload events
  | .fetchDue now limit => (WebhookEventRepository.fetchDue scan now limit events, events)
  | .markDelivered id deliveredAt => WebhookEventRepository.markDelivered id deliveredAt events
  | .markFailed id nextAttemptAt =>
      WebhookEventRepository.markFailed step.now id nextAttemptAt events
  | .listForPayment paymentId =>
      (WebhookEventRepository.listForPayment scan paymentId events, events)

/-- The identifier under which the call stores a new event. -/
def created (step : EventStep) : Option Uuid :=
  match step.call with
  | .enqueue _ _ _ => some step.id
  | _ => none

/-- What the call leaves. It does not depend on the order of the scan. -/
def leaves {ε : Type} [WebhookEventRepository ε] (step : EventStep) (events : ε) : ε :=
  (step.perform (fun _ => Equiv.refl _) events).2

variable [Platform]

/-- The same results of a call. -/
def SameAnswer (memory : InMemoryEvents) : (call : EventCall) → call.Result → call.Result → Prop
  | .enqueue _ _ _ => SameResult fun first second => first.kept = second
  | .fetchDue now limit => SameResult fun firsts seconds =>
      ∃ candidates, SameBatch memory now limit candidates firsts seconds
  | .markDelivered _ _ | .markFailed _ _ => SameResult Eq
  | .listForPayment _ => SameResult SameEvents

/-- Both stores return the same result, in whatever order they are scanned. -/
def Agrees (step : EventStep) (memory : InMemoryEvents) (table : EventTable) : Prop :=
  ∀ scan scan', SameAnswer memory step.call (step.perform scan memory).1
    (step.perform scan' table).1

/-- The call meets no difference between the stores. -/
def Fits (step : EventStep) (memory : InMemoryEvents) (_ : EventTable) : Prop :=
  match step.call with
  | .enqueue _ eventType payload => hasNul eventType = false ∧ payload.hasNul = false
  | .fetchDue now limit => TellsApart memory now limit
  | .markDelivered id _ => ∃ record, found memory id = some record
  | .markFailed id _ =>
      ∃ record, found memory id = some record ∧ record.attempts ≠ Int32.maxValue
  | .listForPayment _ => True

/-- The stores are related, and the calls to come store events under new identifiers. -/
structure Simulates (steps : List EventStep) (memory : InMemoryEvents) (table : EventTable) :
    Prop where
  related : RelatedEvents memory table
  fresh : (steps.filterMap created).Nodup
  unused : ∀ id ∈ steps.filterMap created, found memory id = none

variable {step : EventStep} {rest : List EventStep} {memory : InMemoryEvents}
  {table : EventTable}

omit [Platform] in
/-- What does not depend on the scans holds for all of them or for none. -/
theorem forall_scans_iff {same : Prop} : (∀ _ _ : Scan, same) ↔ same :=
  ⟨fun hall => hall (fun _ => Equiv.refl _) fun _ => Equiv.refl _, fun hsame _ _ => hsame⟩

/-- From related stores a call is answered alike exactly when it fits. -/
theorem agrees_iff (hmono : ∀ first second, first ≤ second →
      Platform.timestamptz first ≤ Platform.timestamptz second)
    (h : Simulates (step :: rest) memory table) :
    step.Agrees memory table ↔ step.Fits memory table := by
  obtain ⟨call, id, now⟩ := step
  have hrelated := h.related
  cases call with
  | enqueue paymentId eventType payload =>
      have hunused : found memory id = none := h.unused id (by simp [created])
      exact forall_scans_iff.trans
        (hrelated.same_enqueue_iff hunused now paymentId eventType payload)
  | fetchDue time limit => exact hrelated.same_fetch_iff hmono
  | markDelivered target deliveredAt =>
      exact forall_scans_iff.trans
        (RelatedEvents.same_delivered_iff memory table target deliveredAt)
  | markFailed target next =>
      exact forall_scans_iff.trans (hrelated.same_failed_iff now target next)
  | listForPayment paymentId =>
      exact iff_of_true (fun scan scan' => hrelated.same_list hmono scan scan' paymentId) trivial

omit [Platform] in
/-- Only the identifier of a new event comes into use. -/
theorem leaves_unused {id : Uuid} (hunused : found memory id = none)
    (hother : step.created ≠ some id) : found (step.leaves memory) id = none := by
  obtain ⟨call, created, now⟩ := step
  cases call with
  | enqueue paymentId eventType payload =>
      have hne : id ≠ created := fun heq => hother (congrArg some heq.symm)
      refine ((EventLaws.enqueue_ok (rfl : WebhookEventRepository.enqueue true created now paymentId
        eventType payload memory = (.ok _, _))).2.2.2.2 id).trans ?_
      rw [if_neg hne]
      exact hunused
  | markDelivered target deliveredAt =>
      refine (DeliveryLaws.delivered_found target deliveredAt memory id).trans ?_
      rw [hunused]
      exact ite_self _
  | markFailed target next =>
      refine (DeliveryLaws.failed_found now target next memory id).trans ?_
      rw [hunused]
      exact ite_self _
  | fetchDue _ _ | listForPayment _ => exact hunused

/-- A call that is answered alike leaves related stores. -/
theorem related_after (h : RelatedEvents memory table) (hagrees : step.Agrees memory table) :
    RelatedEvents (step.leaves memory) (step.leaves table) := by
  obtain ⟨call, id, now⟩ := step
  cases call with
  | enqueue paymentId eventType payload =>
      obtain ⟨record, hrecord, -⟩ :=
        same_result_ok_iff.mp (hagrees (fun _ => Equiv.refl _) fun _ => Equiv.refl _)
      exact h.after_enqueue (Prod.ext hrecord rfl)
  | markDelivered target deliveredAt => exact h.after_delivered target deliveredAt
  | markFailed target next =>
      have hsame := hagrees (fun _ => Equiv.refl _) fun _ => Equiv.refl _
      obtain ⟨record, hrecord, hroom⟩ := (h.same_failed_iff now target next).mp hsame
      refine h.after_failed now target next fun other hother => ?_
      cases hrecord.symm.trans hother
      exact hroom
  | fetchDue _ _ | listForPayment _ => exact h

/-- A call that fits keeps the simulation. -/
theorem simulates_after (hmono : ∀ first second, first ≤ second →
      Platform.timestamptz first ≤ Platform.timestamptz second)
    (h : Simulates (step :: rest) memory table) (hfits : step.Fits memory table) :
    Simulates rest (step.leaves memory) (step.leaves table) := by
  have hlater := (List.sublist_cons_self step rest).filterMap created
  refine ⟨related_after h.related ((agrees_iff hmono h).mpr hfits), h.fresh.sublist hlater,
    fun id hid => leaves_unused (h.unused id (hlater.subset hid)) fun hcreated => ?_⟩
  -- The identifier would be used twice.
  have hfresh := h.fresh
  simp only [List.filterMap_cons, hcreated] at hfresh
  exact (List.nodup_cons.mp hfresh).1 hid

end EventStep

section Sequences

variable [Platform]

end Sequences

section Run

attribute [local instance] Plain.platform

open Plain

/-- The payload of an event. -/
def payload : Value :=
  .object [("payment_id", .string "7")]

end Run

end StellarPay
