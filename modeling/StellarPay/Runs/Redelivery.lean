import StellarPay.Runs.Enqueueing

/-!
# Deliveries that are recorded over

Two passes may fetch the same event, and each records what became of its own post. Neither write
looks at the status that the event has by then, so the later outcome stands: a delivered event
stays delivered exactly as long as no other outcome is recorded over the delivery.
-/

namespace StellarPay

open Interleaving

open EventLaws (found)

section Steps

variable {σ ε : Type} [PaymentRepository σ] [WebhookEventRepository ε] [EventLaws ε]
  [DeliveryLaws ε]

/-- From one world to another the delivered events stay delivered, with the same times. -/
def KeepsDelivered (before after : World σ ε) : Prop :=
  ∀ id record, found before.events id = some record → record.status = .delivered →
    ∃ later, found after.events id = some later ∧ later.status = .delivered ∧
      later.deliveredAt = record.deliveredAt ∧ later.nextAttemptAt = record.nextAttemptAt

omit [PaymentRepository σ] [DeliveryLaws ε] in
theorem KeepsDelivered.refl (world : World σ ε) : KeepsDelivered world world :=
  fun _ record hfound hstatus => ⟨record, hfound, hstatus, rfl, rfl⟩

omit [PaymentRepository σ] [DeliveryLaws ε] in
theorem KeepsDelivered.trans {first second third : World σ ε} (h : KeepsDelivered first second)
    (h' : KeepsDelivered second third) : KeepsDelivered first third := by
  intro id record hfound hstatus
  obtain ⟨later, hlater, hdelivered, hat, hnext⟩ := h id record hfound hstatus
  obtain ⟨last, hlast, hstill, hat', hnext'⟩ := h' id later hlater hdelivered
  exact ⟨last, hlast, hstill, hat'.trans hat, hnext'.trans hnext⟩

/-- No delivered event has a next attempt. -/
def DeliveredRest (world : World σ ε) : Prop :=
  ∀ id record, found world.events id = some record → record.status = .delivered →
    record.nextAttemptAt = none

/-- The request records an outcome over a delivery: a failure that can be counted, or a delivery at
another time. -/
def Overwrites (env : Env) : Request → World σ ε → Prop
  | .markFailed id _, world => env.eventsFault = none ∧
      ∃ record, found world.events id = some record ∧ record.status = .delivered ∧
        DeliveryLaws.counts ε record.attempts = true
  | .markDelivered id deliveredAt, world => env.eventsFault = none ∧
      ∃ record, found world.events id = some record ∧ record.status = .delivered ∧
        record.deliveredAt ≠ some (DeliveryLaws.time ε deliveredAt)
  | _, _ => False

instance (env : Env) (request : Request) (world : World σ ε) :
    Decidable (Overwrites env request world) :=
  match request with
  | .markFailed id _ =>
      decidable_of_iff (env.eventsFault.isNone = true ∧
        (found world.events id).any (fun record => record.status == .delivered &&
          DeliveryLaws.counts ε record.attempts) = true)
        (by simp [Overwrites, Option.any_eq_true])
  | .markDelivered id deliveredAt =>
      decidable_of_iff (env.eventsFault.isNone = true ∧
        (found world.events id).any (fun record => record.status == .delivered &&
          record.deliveredAt != some (DeliveryLaws.time ε deliveredAt)) = true)
        (by simp [Overwrites, Option.any_eq_true])
  | .utcNow | .newV4 | .createWithIdempotencyKey _ _ | .findById _ | .findByReference _
  | .findByIdempotencyKey _ | .guardedUpdate _ _ _ | .listPendingForReconciliation
  | .listPaginated _ _ _ | .count _ | .findPayment _ _ _ | .getTransaction _ | .recordPayment _
  | .enqueue _ _ _ _ | .fetchDue _ _ | .listForPayment _ | .post _ _ _ =>
      .isFalse id

/-- Every request leaves delivered events without a next attempt. -/
theorem answer_delivered_rest {env : Env} {request : Request} {world : World σ ε}
    (h : DeliveredRest world) : DeliveredRest (answer env request world).2 := by
  intro id record hrecord hstatus
  cases request with
  | enqueue now paymentId eventType payload =>
      rcases answer_enqueue env now paymentId eventType payload world with
        ⟨error, hanswer⟩ | ⟨added, after, hanswer, -, -, -, -, hafter⟩
      · rw [hanswer] at hrecord
        exact h id record hrecord hstatus
      · have hadded := answer_enqueue_record (congrArg Prod.fst hanswer)
        rw [hanswer, hafter] at hrecord
        split at hrecord
        · cases hrecord
          rw [hadded] at hstatus
          cases hstatus
        · exact h id record hrecord hstatus
  | markDelivered target deliveredAt =>
      rw [answer_mark_delivered] at hrecord
      split at hrecord
      · obtain ⟨old, -, rfl⟩ := Option.map_eq_some_iff.mp hrecord
        rfl
      · exact h id record hrecord hstatus
  | markFailed target next =>
      rw [answer_mark_failed] at hrecord
      split at hrecord
      · obtain ⟨old, hold, rfl⟩ := Option.map_eq_some_iff.mp hrecord
        rw [WebhookEventRecord.afterFailure] at hstatus ⊢
        split at hstatus
        · exact absurd hstatus (old.failed_status_ne _ _)
        · rename_i hrefused
          rw [if_neg hrefused]
          exact h id old hold hstatus
      · exact h id record hrecord hstatus
  | _ =>
      rw [answer_events rfl] at hrecord
      exact h id record hrecord hstatus

/-- A request keeps the delivered events exactly when it does not record over a delivery. -/
theorem answer_keeps_delivered_iff {env : Env} {request : Request} {world : World σ ε}
    (hfresh : FreshEvent env request world) (hrest : DeliveredRest world) :
    KeepsDelivered world (answer env request world).2 ↔ ¬ Overwrites env request world := by
  cases request with
  | enqueue now paymentId eventType payload =>
      refine iff_of_true (fun id record hrecord hstatus => ?_) id
      refine ⟨record, ?_, hstatus, rfl, rfl⟩
      rcases answer_enqueue env now paymentId eventType payload world with
        ⟨error, hanswer⟩ | ⟨added, after, hanswer, -, -, -, -, hafter⟩
      · rw [hanswer, hrecord]
      · rw [hanswer, hafter, if_neg, hrecord]
        rintro rfl
        cases hrecord.symm.trans hfresh
  | markDelivered target deliveredAt =>
      constructor
      · rintro hkeeps ⟨hworks, record, hrecord, hstatus, hat⟩
        obtain ⟨later, hlater, -, hsame, -⟩ := hkeeps target record hrecord hstatus
        rw [answer_mark_delivered, if_pos ⟨hworks, rfl⟩, hrecord] at hlater
        cases hlater
        exact hat hsame.symm
      · intro hkept id record hrecord hstatus
        rw [answer_mark_delivered, hrecord]
        split
        · rename_i hmarked
          obtain ⟨hworks, rfl⟩ := hmarked
          have hat : record.deliveredAt = some (DeliveryLaws.time ε deliveredAt) := by
            by_contra hne
            exact hkept ⟨hworks, record, hrecord, hstatus, hne⟩
          exact ⟨_, rfl, rfl, hat.symm, (hrest id record hrecord hstatus).symm⟩
        · exact ⟨record, rfl, hstatus, rfl, rfl⟩
  | markFailed target next =>
      constructor
      · rintro hkeeps ⟨hworks, record, hrecord, hstatus, hcounts⟩
        obtain ⟨later, hlater, hdelivered, -⟩ := hkeeps target record hrecord hstatus
        rw [answer_mark_failed, if_pos ⟨hworks, rfl⟩, hrecord, Option.map_some,
          WebhookEventRecord.afterFailure, if_pos hcounts] at hlater
        cases hlater
        exact record.failed_status_ne _ _ hdelivered
      · intro hkept id record hrecord hstatus
        rw [answer_mark_failed, hrecord]
        split
        · rename_i hmarked
          obtain ⟨hworks, rfl⟩ := hmarked
          have hrefused : ¬ DeliveryLaws.counts ε record.attempts = true :=
            fun hcounts => hkept ⟨hworks, record, hrecord, hstatus, hcounts⟩
          rw [Option.map_some, WebhookEventRecord.afterFailure, if_neg hrefused]
          exact ⟨record, rfl, hstatus, rfl, rfl⟩
        · exact ⟨record, rfl, hstatus, rfl, rfl⟩
  | _ =>
      refine iff_of_true (fun id record hrecord hstatus => ?_) id
      rw [answer_events rfl]
      exact ⟨record, hrecord, hstatus, rfl, rfl⟩

end Steps

section Runs

variable {σ ε : Type} [PaymentRepository σ] [WebhookEventRepository ε] [EventLaws ε]
  [DeliveryLaws ε] [Platform]

/-- The event fetched this webhook event as due. -/
def Fetches (event : Event (machine σ ε)) (id : Uuid) : Prop :=
  ∃ act now limit records, event = .act act ∧ act.Got (.fetchDue now limit) (.ok records) ∧
    ∃ record ∈ records, record.id = id

/-- What it means in a run that a delivery is final. -/
structure DeliveredFinal (world : World σ ε) (trace : List (Event (machine σ ε))) : Prop where
  /-- An event that is delivered in one world of the run is delivered in all later ones, with the
  same times. -/
  kept : (worlds (M := machine σ ε) world trace).Pairwise KeepsDelivered
  /-- An event that is delivered is not fetched later. -/
  unfetched : trace.Pairwise fun earlier later => ∀ id record,
    found earlier.after.events id = some record → record.status = .delivered → ¬ Fetches later id

variable {world : World σ ε} {state : State (machine σ ε)}

/-- In every world that an event of a run met, delivered events have no next attempt. -/
theorem delivered_rest_before {rules : Rules (machine σ ε)} (hreach : Reachable rules world state)
    (hworld : DeliveredRest world) :
    ∀ event ∈ state.config.trace, DeliveredRest event.before := by
  refine hreach.linked.keeps_before DeliveredRest (fun event _ hbefore => ?_) hworld
  cases event with
  | start => exact hbefore
  | act act => exact answer_delivered_rest hbefore

/-- A fetch does not return an event that is delivered. -/
theorem not_fetches {event : Event (machine σ ε)} {id : Uuid} {record : WebhookEventRecord}
    (hfound : found event.before.events id = some record) (hstatus : record.status = .delivered) :
    ¬ Fetches event id := by
  rintro ⟨act, now, limit, records, rfl, ⟨hrequest, hgot⟩, fetched, hmem, rfl⟩
  obtain ⟨hstored, hpending, -⟩ := (answer_fetch_due hgot).2 fetched hmem
  cases hstored.symm.trans hfound
  rw [hstatus] at hpending
  cases hpending

/-- Deliveries are final in a run exactly when no request of it records over one. -/
theorem delivered_final_iff (hreach : Reachable (enqueueRules σ ε) world state)
    (hworld : DeliveredRest world) : DeliveredFinal world state.config.trace ↔
      ∀ act, .act act ∈ state.config.trace → ¬ Overwrites act.env act.request act.before := by
  have hstep : ∀ act, .act act ∈ state.config.trace →
      (KeepsDelivered act.before act.after ↔ ¬ Overwrites act.env act.request act.before) :=
    fun act hact => answer_keeps_delivered_iff (hreach.permitted hact)
      (delivered_rest_before hreach hworld _ hact)
  constructor
  · intro h act hact
    exact (hstep act hact).mp (hreach.linked.of_pairwise_worlds KeepsDelivered h.kept _ hact)
  · intro h
    have hevents : ∀ event ∈ state.config.trace, KeepsDelivered event.before event.after := by
      intro event hevent
      cases event with
      | start => exact .refl _
      | act act => exact (hstep act hevent).mpr (h act hevent)
    refine ⟨hreach.linked.pairwise_worlds KeepsDelivered .trans hevents, ?_⟩
    refine (hreach.linked.pairwise_events KeepsDelivered .refl .trans hevents).imp ?_
    intro earlier later hkeeps id record hfound hstatus
    obtain ⟨stored, hstored, hstill, -⟩ := hkeeps id record hfound hstatus
    exact not_fetches hstored hstill

end Runs

section Backends

variable [Platform]

/-- On either backend, in every run from empty stores, with any number of passes and whatever else
is called and fails: deliveries are final exactly when no request records over one. -/
theorem delivered_final (backend : Backend) {state : State backend.machine}
    (hreach : Reachable (enqueueRules backend.Payments backend.Events) backend.empty state) :
    DeliveredFinal backend.empty state.config.trace ↔
      ∀ act, .act act ∈ state.config.trace → ¬ Overwrites act.env act.request act.before := by
  refine delivered_final_iff hreach fun id record hfound => ?_
  rw [backend.found_empty] at hfound
  cases hfound

end Backends

section Run

attribute [local instance] Plain.platform

open Plain

/-- A moment at which the endpoint answers with an error. -/
def envDown (now : DateTime) (uuid : Uuid) : Env :=
  { env now uuid with endpoint := .ok 500 }

/-- The webhook service. -/
def hooks : WebhookService :=
  ⟨"https://shop.example/hook", "secret"⟩

/-- One pass delivers the event of `notifiedRun`. -/
def singleDelivery : List (Choice Backend.postgres.machine) :=
  notifiedRun ++ [.start (.deliverDue hooks), .act 2 (env 7000 8), .act 2 (env 7000 8),
    .act 2 (env 7000 8), .act 2 (env 8000 8), .act 2 (env 8000 8)]

/-- The event does not record over a delivery. -/
def respectsDelivered : Event Backend.postgres.machine → Bool
  | .act act => !decide (Overwrites act.env act.request act.before)
  | .start _ _ _ => true

/-- The delivery of `singleDelivery` is final. -/
theorem delivered_final_single : ∃ state : State Backend.postgres.machine,
    (found state.config.world.events 9).map WebhookEventRecord.status = some .delivered ∧
    DeliveredFinal Backend.postgres.empty state.config.trace := by
  obtain ⟨state, hreach, htest⟩ := exists_reachable
    (enqueueRules Backend.postgres.Payments Backend.postgres.Events) singleDelivery
    Backend.postgres.empty (fun state =>
      (found state.config.world.events 9).map WebhookEventRecord.status == some .delivered &&
        state.config.trace.all respectsDelivered) (by decide +kernel)
  simp only [Bool.and_eq_true, beq_iff_eq, List.all_eq_true] at htest
  refine ⟨state, htest.1, (delivered_final .postgres hreach).mpr fun act hact => ?_⟩
  simpa [respectsDelivered] using htest.2 _ hact

/-- Two passes fetch the event of `notifiedRun`. The first one delivers it, and then the second one,
whose post fails, records the failure. -/
def doubleDelivery : List (Choice Backend.postgres.machine) :=
  notifiedRun ++ [.start (.deliverDue hooks), .start (.deliverDue hooks), .act 2 (env 7000 8),
    .act 3 (env 7000 8), .act 2 (env 7000 8), .act 3 (env 7000 8), .act 2 (env 7000 8),
    .act 2 (env 8000 8), .act 2 (env 8000 8), .act 3 (envDown 9000 8), .act 3 (env 9000 8),
    .act 3 (env 9000 8)]

/-- The event left the webhook event with this id delivered. -/
def leavesDelivered (id : Uuid) (event : Event Backend.postgres.machine) : Bool :=
  (found event.after.events id).any fun record => record.status == .delivered

/-- In `doubleDelivery` the event is delivered, and pending again in the end. -/
theorem delivered_then_pending : ∃ state : State Backend.postgres.machine,
    Reachable (enqueueRules Backend.postgres.Payments Backend.postgres.Events)
      Backend.postgres.empty state ∧
    (∃ event ∈ state.config.trace, leavesDelivered 9 event = true) ∧
    (found state.config.world.events 9).map WebhookEventRecord.status = some .pending := by
  obtain ⟨state, hreach, htest⟩ := exists_reachable
    (enqueueRules Backend.postgres.Payments Backend.postgres.Events) doubleDelivery
    Backend.postgres.empty (fun state =>
      state.config.trace.any (leavesDelivered 9) &&
        (found state.config.world.events 9).map WebhookEventRecord.status == some .pending)
    (by decide +kernel)
  simp only [Bool.and_eq_true, beq_iff_eq, List.any_eq_true] at htest
  exact ⟨state, hreach, htest.1, htest.2⟩

end Run

end StellarPay
