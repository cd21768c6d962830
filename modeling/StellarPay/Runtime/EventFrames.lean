import StellarPay.Runtime.System

/-!
# What a request changes in the event store

Three requests write events: storing a new one, and the two that record the outcome of a delivery.
`answer_enqueue`, `answer_mark_delivered` and `answer_mark_failed` say what these do, in terms of
the record found under an id, and `answer_events` that every other request leaves the events as they
are.
-/

namespace StellarPay

open Interleaving

/-- The request may write the event store. -/
def Request.writesEvents : Request → Bool
  | .enqueue _ _ _ _ | .markDelivered _ _ | .markFailed _ _ => true
  | _ => false

variable {σ ε : Type} [PaymentRepository σ] [WebhookEventRepository ε]

/-- A request that does not write events leaves them unchanged. -/
theorem answer_events {env : Env} {request : Request} {world : World σ ε}
    (h : request.writesEvents = false) : (answer env request world).2.events = world.events := by
  cases request with
  | enqueue | markDelivered | markFailed => cases h
  | fetchDue | listForPayment =>
      simp only [answer, onEvents, attempt, reading]
      cases env.eventsFault <;> rfl
  | _ => rfl

variable [EventLaws ε]

/-- The identifier generated for a new event is not in use (`Uuid::new_v4`). -/
def FreshEvent (env : Env) : Request → World σ ε → Prop
  | .enqueue _ _ _ _, world => EventLaws.found world.events env.uuid = none
  | _, _ => True

instance (env : Env) (request : Request) (world : World σ ε) :
    Decidable (FreshEvent env request world) :=
  match request with
  | .enqueue _ _ _ _ =>
      decidable_of_iff ((EventLaws.found world.events env.uuid).isNone = true)
        Option.isNone_iff_eq_none
  | .utcNow | .newV4 | .createWithIdempotencyKey _ _ | .findById _ | .findByReference _
  | .findByIdempotencyKey _ | .guardedUpdate _ _ _ | .listPendingForReconciliation
  | .listPaginated _ _ _ | .count _ | .findPayment _ _ _ | .getTransaction _ | .recordPayment _
  | .fetchDue _ _ | .markDelivered _ _ | .markFailed _ _ | .listForPayment _ | .post _ _ _ =>
      .isTrue trivial

/-- From one world to another every stored event stays what it is. -/
def KeepsEvents (before after : World σ ε) : Prop :=
  ∀ id record, EventLaws.found before.events id = some record →
    ∃ later, EventLaws.found after.events id = some later ∧ record.SameEvent later

omit [PaymentRepository σ] in
theorem KeepsEvents.refl (world : World σ ε) : KeepsEvents world world :=
  fun _ record hfound => ⟨record, hfound, .refl record⟩

omit [PaymentRepository σ] in
theorem KeepsEvents.trans {first second third : World σ ε} (h : KeepsEvents first second)
    (h' : KeepsEvents second third) : KeepsEvents first third := by
  intro id record hfound
  obtain ⟨later, hlater, hsame⟩ := h id record hfound
  obtain ⟨last, hlast, hsame'⟩ := h' id later hlater
  exact ⟨last, hlast, hsame.trans hsame'⟩

/-- Storing an event fails without effect, or adds one event. -/
theorem answer_enqueue (env : Env) (now : DateTime) (paymentId : Uuid) (eventType : String)
    (payload : Value) (world : World σ ε) :
    (∃ error, answer env (.enqueue now paymentId eventType payload) world =
      (.error error, world)) ∨
    ∃ record after,
      answer env (.enqueue now paymentId eventType payload) world =
        (.ok record, { world with events := after }) ∧
      record.id = env.uuid ∧ record.paymentId = paymentId ∧ record.eventType = eventType ∧
      record.payload = payload ∧
      ∀ other, EventLaws.found after other =
        if other = env.uuid then some record else EventLaws.found world.events other := by
  simp only [answer, onEvents, attempt]
  cases env.eventsFault with
  | some message => exact .inl ⟨_, rfl⟩
  | none =>
      cases hresult : WebhookEventRepository.enqueue (stored world.payments paymentId).isSome
          env.uuid now paymentId eventType payload world.events with
      | mk result after =>
          cases result with
          | error error =>
              obtain rfl := EventLaws.enqueue_error hresult
              exact .inl ⟨error, rfl⟩
          | ok record => exact .inr ⟨record, after, rfl, EventLaws.enqueue_ok hresult⟩

/-- With fresh identifiers no request loses or changes an event. -/
theorem answer_keeps_events {env : Env} {request : Request} {world : World σ ε}
    (hfresh : FreshEvent env request world) : KeepsEvents world (answer env request world).2 := by
  intro id record hfound
  cases request with
  | enqueue now paymentId eventType payload =>
      rcases answer_enqueue env now paymentId eventType payload world with
        ⟨error, hanswer⟩ | ⟨added, after, hanswer, -, -, -, -, hafter⟩
      · rw [hanswer]
        exact ⟨record, hfound, .refl record⟩
      · rw [hanswer]
        refine ⟨record, ?_, .refl record⟩
        rw [hafter, if_neg, hfound]
        rintro rfl
        cases hfound.symm.trans hfresh
  | markDelivered target deliveredAt =>
      simp only [answer, onEvents, attempt]
      cases env.eventsFault with
      | some message => exact ⟨record, hfound, .refl record⟩
      | none => exact EventLaws.delivered_keeps target deliveredAt hfound
  | markFailed target nextAttemptAt =>
      simp only [answer, onEvents, attempt]
      cases env.eventsFault with
      | some message => exact ⟨record, hfound, .refl record⟩
      | none => exact EventLaws.failed_keeps env.now target nextAttemptAt hfound
  | _ =>
      rw [answer_events rfl]
      exact ⟨record, hfound, .refl record⟩

/-- The request records no failure of an event at the end of its counter of attempts. -/
def CanCount (request : Request) (world : World σ ε) : Prop :=
  match request with
  | .markFailed id _ => ∀ record ∈ EventLaws.found world.events id,
      record.attempts ≠ Int32.maxValue
  | _ => True

instance (request : Request) (world : World σ ε) : Decidable (CanCount request world) := by
  unfold CanCount
  split <;> infer_instance

section Delivery

variable [DeliveryLaws ε]

/-- An event that is stored is a new one. -/
theorem answer_enqueue_record {env : Env} {now : DateTime} {paymentId : Uuid} {eventType : String}
    {payload : Value} {world : World σ ε} {record : WebhookEventRecord}
    (h : (answer env (.enqueue now paymentId eventType payload) world).1 = .ok record) :
    record = .enqueued env.uuid paymentId eventType payload (DeliveryLaws.time ε now) := by
  simp only [answer, onEvents, attempt] at h
  cases hfault : env.eventsFault with
  | some message =>
      rw [hfault] at h
      cases h
  | none =>
      rw [hfault] at h
      exact DeliveryLaws.enqueue_new (Prod.ext h rfl)

/-- A recorded delivery changes the record of its event, if the store works. -/
theorem answer_mark_delivered (env : Env) (target : Uuid) (deliveredAt : DateTime)
    (world : World σ ε) (id : Uuid) :
    EventLaws.found (answer env (.markDelivered target deliveredAt) world).2.events id =
      if env.eventsFault = none ∧ id = target then
        (EventLaws.found world.events id).map
          (·.delivered (DeliveryLaws.time ε deliveredAt))
      else EventLaws.found world.events id := by
  simp only [answer, onEvents, attempt]
  cases env.eventsFault with
  | some message => rfl
  | none =>
      refine (DeliveryLaws.delivered_found target deliveredAt world.events id).trans ?_
      simp only [true_and]

/-- A recorded failure changes the record of its event, if the store works and can count it. -/
theorem answer_mark_failed (env : Env) (target : Uuid) (next : Option DateTime)
    (world : World σ ε) (id : Uuid) :
    EventLaws.found (answer env (.markFailed target next) world).2.events id =
      if env.eventsFault = none ∧ id = target then
        (EventLaws.found world.events id).map
          (·.afterFailure ε (next.map (DeliveryLaws.time ε)) (DeliveryLaws.time ε env.now))
      else EventLaws.found world.events id := by
  simp only [answer, onEvents, attempt]
  cases env.eventsFault with
  | some message => rfl
  | none =>
      refine (DeliveryLaws.failed_found env.now target next world.events id).trans ?_
      simp only [true_and, WebhookEventRecord.afterFailure]

/-- What a request does to the record of one event: nothing, or it stores the event, or it records
an outcome of its delivery. -/
theorem answer_found_cases (env : Env) (request : Request) (world : World σ ε) (id : Uuid) :
    EventLaws.found (answer env request world).2.events id = EventLaws.found world.events id ∨
    (∃ now paymentId eventType payload, request = .enqueue now paymentId eventType payload ∧
      id = env.uuid ∧
      (answer env (.enqueue now paymentId eventType payload) world).1 =
        .ok (.enqueued id paymentId eventType payload (DeliveryLaws.time ε now)) ∧
      EventLaws.found (answer env request world).2.events id =
        some (.enqueued id paymentId eventType payload (DeliveryLaws.time ε now))) ∨
    (∃ deliveredAt, request = .markDelivered id deliveredAt ∧ env.eventsFault = none ∧
      EventLaws.found (answer env request world).2.events id =
        (EventLaws.found world.events id).map (·.delivered (DeliveryLaws.time ε deliveredAt))) ∨
    ∃ next, request = .markFailed id next ∧ env.eventsFault = none ∧
      EventLaws.found (answer env request world).2.events id =
        (EventLaws.found world.events id).map
          (·.failed (next.map (DeliveryLaws.time ε)) (DeliveryLaws.time ε env.now)) := by
  cases hwrites : request.writesEvents with
  | false => exact .inl (by rw [answer_events hwrites])
  | true =>
      cases request with
      | enqueue now paymentId eventType payload =>
          rcases answer_enqueue env now paymentId eventType payload world with
            ⟨error, hanswer⟩ | ⟨record, after, hanswer, -, -, -, -, hafter⟩
          · exact .inl (by rw [hanswer])
          · obtain rfl := answer_enqueue_record (congrArg Prod.fst hanswer)
            by_cases hid : id = env.uuid
            · subst hid
              refine .inr (.inl ⟨now, paymentId, eventType, payload, rfl, rfl, ?_, ?_⟩)
              · rw [hanswer]
              · rw [hanswer]
                exact (hafter _).trans (if_pos rfl)
            · refine .inl ?_
              rw [hanswer]
              exact (hafter id).trans (if_neg hid)
      | markDelivered target deliveredAt =>
          have hafter := answer_mark_delivered env target deliveredAt world id
          by_cases hchanges : env.eventsFault = none ∧ id = target
          · obtain ⟨hworks, rfl⟩ := hchanges
            exact .inr (.inr (.inl ⟨deliveredAt, rfl, hworks, hafter.trans (if_pos ⟨hworks, rfl⟩)⟩))
          · exact .inl (hafter.trans (if_neg hchanges))
      | markFailed target next =>
          have hafter := answer_mark_failed env target next world id
          by_cases hchanges : env.eventsFault = none ∧ id = target
          · obtain ⟨hworks, rfl⟩ := hchanges
            rw [if_pos ⟨hworks, rfl⟩] at hafter
            cases hfound : EventLaws.found world.events id with
            | none => exact .inl (by rw [hafter, hfound, Option.map_none])
            | some record =>
                rw [hfound, Option.map_some, WebhookEventRecord.afterFailure] at hafter
                split at hafter
                · exact .inr (.inr (.inr ⟨next, rfl, hworks, hafter⟩))
                · exact .inl hafter
          · exact .inl (hafter.trans (if_neg hchanges))
      | _ => cases hwrites

/-- The events fetched as due are distinct, stored and pending, and their next attempt is not after
the given time. -/
theorem answer_fetch_due {env : Env} {now : DateTime} {limit : Int} {world : World σ ε}
    {records : List WebhookEventRecord}
    (h : (answer env (.fetchDue now limit) world).1 = .ok records) :
    (records.map WebhookEventRecord.id).Nodup ∧
      ∀ record ∈ records, EventLaws.found world.events record.id = some record ∧
        record.status = .pending ∧
        ∃ next, record.nextAttemptAt = some next ∧ next ≤ DeliveryLaws.time ε now := by
  simp only [answer, onEvents, attempt, reading] at h
  cases hfault : env.eventsFault with
  | some message =>
      rw [hfault] at h
      cases h
  | none =>
      rw [hfault] at h
      exact DeliveryLaws.fetch h

end Delivery

end StellarPay
