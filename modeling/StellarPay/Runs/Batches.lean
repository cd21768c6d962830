import StellarPay.Interleaving.Alone
import StellarPay.Runs.Deliveries
import StellarPay.Runtime.Frames
import StellarPay.Webhooks.Queue

/-!
# A pass of deliveries alone

One `deliver_due` with nobody else writing to the event store, which works. It posts a batch of the
events that are due, one after the other, and records the outcome of each before it goes on. What
the endpoint answers for one event changes nothing for the others.
-/

namespace StellarPay

open Interleaving EventLaws Batching

section Rules

variable (σ ε : Type) [PaymentRepository σ] [WebhookEventRepository ε] [Platform]

/-- The event store works. Nothing is said of the clock, of the order of scans and of the endpoint,
whose answers are chosen anew at every request. -/
def eventsWork : Rules (machine σ ε) :=
  ⟨fun _ => True, fun env _ _ _ => env.eventsFault = none⟩

instance : DecidablePred (eventsWork σ ε).admits :=
  fun _ => inferInstanceAs (Decidable True)

instance (env : Env) (span : Option Uuid) (request : Request) (world : World σ ε) :
    Decidable ((eventsWork σ ε).permits env span request world) :=
  inferInstanceAs (Decidable (_ = _))

end Rules

section Turns

variable {σ ε : Type} [PaymentRepository σ] [WebhookEventRepository ε] [Platform]
  [EventLaws ε] [DeliveryLaws ε]

/-- The requests of one delivery, and the record it leaves: the event is posted, and delivered on a
2xx; otherwise it is tried again when the schedule says, or has failed when the schedule is at its
end. -/
inductive Round (service : WebhookService) (record : WebhookEventRecord) :
    List (Act (machine σ ε)) → WebhookEventRecord → Prop where
  | delivered (post clock mark : Act (machine σ ε)) (hpost : post.request = service.postOf record)
      (hclock : clock.request = .utcNow)
      (hmark : mark.request = .markDelivered record.id clock.env.now)
      (hsuccess : WebhookService.isSuccess post.env.endpoint = true) :
      Round service record [post, clock, mark]
        (record.delivered (DeliveryLaws.time ε clock.env.now))
  | retried (post clock mark : Act (machine σ ε)) (delay : Duration)
      (hpost : post.request = service.postOf record) (hclock : clock.request = .utcNow)
      (hmark : mark.request =
        .markFailed record.id (some (clock.env.now + toChronoDuration delay)))
      (hfailure : WebhookService.isSuccess post.env.endpoint = false)
      (hbackoff : nextBackoff record.attemptsMade = some delay) :
      Round service record [post, clock, mark]
        (record.failed (some (DeliveryLaws.time ε (clock.env.now + toChronoDuration delay)))
          (DeliveryLaws.time ε mark.env.now))
  | exhausted (post mark : Act (machine σ ε)) (hpost : post.request = service.postOf record)
      (hmark : mark.request = .markFailed record.id none)
      (hfailure : WebhookService.isSuccess post.env.endpoint = false)
      (hbackoff : nextBackoff record.attemptsMade = none) :
      Round service record [post, mark]
        (record.failed none (DeliveryLaws.time ε mark.env.now))

/-- From one world to another only the record under `id` has changed. -/
structure Changes (id : Uuid) (outcome : WebhookEventRecord) (before after : World σ ε) :
    Prop where
  events : ∀ other, found after.events other =
    if other = id then some outcome else found before.events other
  payments : after.payments = before.payments

variable {service : WebhookService} {record : WebhookEventRecord} {world : World σ ε}

omit [Platform] [PaymentRepository σ] [DeliveryLaws ε] in
/-- An operation changes the record that is found under the id of a stored one. -/
theorem Changes.of_map {before after : World σ ε} (change : WebhookEventRecord → WebhookEventRecord)
    (hfound : found before.events record.id = some record)
    (hafter : ∀ other, found after.events other =
      if other = record.id then (found before.events other).map change
      else found before.events other)
    (hpayments : after.payments = before.payments) :
    Changes record.id (change record) before after := by
  refine ⟨fun other => ?_, hpayments⟩
  rw [hafter]
  split
  · rename_i hid
    rw [hid, hfound, Option.map_some]
  · rfl

omit [Platform] in
/-- A recorded delivery changes the record of its event. -/
theorem changes_of_mark_delivered {env : Env} {time : DateTime} (hworks : env.eventsFault = none)
    (hfound : found world.events record.id = some record) :
    Changes record.id (record.delivered (DeliveryLaws.time ε time)) world
      (answer env (.markDelivered record.id time) world).2 := by
  refine .of_map (·.delivered (DeliveryLaws.time ε time)) hfound (fun other => ?_)
    (answer_payments rfl)
  rw [answer_mark_delivered]
  simp only [hworks, true_and]

omit [Platform] in
/-- So does a recorded failure, in a store that counts it. -/
theorem changes_of_mark_failed (hcounts : ∀ attempts, DeliveryLaws.counts ε attempts = true)
    {env : Env} (next : Option DateTime) (hworks : env.eventsFault = none)
    (hfound : found world.events record.id = some record) :
    Changes record.id
      (record.failed (next.map (DeliveryLaws.time ε)) (DeliveryLaws.time ε env.now)) world
      (answer env (.markFailed record.id next) world).2 := by
  refine .of_map (·.failed (next.map (DeliveryLaws.time ε)) (DeliveryLaws.time ε env.now)) hfound
    (fun other => ?_) (answer_payments rfl)
  rw [answer_mark_failed]
  simp only [hworks, true_and, WebhookEventRecord.afterFailure, hcounts, if_true]

/-- `deliver_one` on an event that is stored as it was fetched. -/
theorem deliver_one_alone (hcounts : ∀ attempts, DeliveryLaws.counts ε attempts = true)
    (hfound : found world.events record.id = some record) :
    Alone (eventsWork σ ε) (some record.id) (service.deliverOne record)
      (fun acts _ after => ∃ outcome, Round service record acts outcome ∧
        Changes record.id outcome world after) world := by
  refine alone_request_bind fun post _ => ?_
  dsimp only
  split
  · rename_i hsuccess
    refine alone_request_bind fun clock _ => ?_
    refine alone_request_bind fun mark hworks => ?_
    exact alone_pure ⟨_, .delivered _ _ _ rfl rfl rfl hsuccess,
      changes_of_mark_delivered hworks hfound⟩
  · rename_i hfailure
    have hfailure : WebhookService.isSuccess post.endpoint = false := Bool.eq_false_iff.mpr hfailure
    split
    · rename_i hbackoff
      refine alone_request_bind fun mark hworks => ?_
      exact alone_pure ⟨_, .exhausted _ _ rfl rfl hfailure hbackoff,
        changes_of_mark_failed hcounts none hworks hfound⟩
    · rename_i delay hbackoff
      refine alone_request_bind fun clock _ => ?_
      refine alone_request_bind fun mark hworks => ?_
      exact alone_pure ⟨_, .retried _ _ _ delay rfl rfl rfl hfailure hbackoff,
        changes_of_mark_failed hcounts (some _) hworks hfound⟩

/-- The events that requests post, in order. -/
def postedBy (acts : List (Act (machine σ ε))) : List Request :=
  (acts.filter fun act => act.request.isPost).map Act.request

omit [DeliveryLaws ε] [EventLaws ε] in
@[simp]
theorem posted_by_append (acts more : List (Act (machine σ ε))) :
    postedBy (acts ++ more) = postedBy acts ++ postedBy more := by
  simp [postedBy]

omit [DeliveryLaws ε] [EventLaws ε] in
/-- A request that is not a post adds nothing. -/
theorem posted_by_cons {act : Act (machine σ ε)} {acts : List (Act (machine σ ε))}
    (h : act.request.isPost = false) : postedBy (act :: acts) = postedBy acts := by
  simp [postedBy, h]

omit [DeliveryLaws ε] [EventLaws ε] in
/-- A post is added. -/
theorem posted_by_cons_post {act : Act (machine σ ε)} {acts : List (Act (machine σ ε))}
    (h : act.request = service.postOf record) :
    postedBy (act :: acts) = service.postOf record :: postedBy acts := by
  have hpost : act.request.isPost = true := by
    rw [h]
    rfl
  rw [postedBy, List.filter_cons, if_pos hpost, List.map_cons, h, postedBy]

/-- A delivery posts its event once. -/
theorem Round.posted_by_eq {acts : List (Act (machine σ ε))} {outcome : WebhookEventRecord}
    (h : Round service record acts outcome) : postedBy acts = [service.postOf record] := by
  cases h with
  | delivered post clock mark hpost hclock hmark
  | retried post clock mark delay hpost hclock hmark =>
      rw [posted_by_cons_post hpost, posted_by_cons (hclock ▸ rfl), posted_by_cons (hmark ▸ rfl)]
      rfl
  | exhausted post mark hpost hmark =>
      rw [posted_by_cons_post hpost, posted_by_cons (hmark ▸ rfl)]
      rfl

/-- What the loop over a batch leaves: the events of the batch are posted in its order and nothing
else is, each is left by a delivery of its own, and everything else is as it was. -/
structure BatchDone (service : WebhookService) (batch : List WebhookEventRecord)
    (before : World σ ε) (acts : List (Act (machine σ ε))) (after : World σ ε) : Prop where
  posted : postedBy acts = batch.map service.postOf
  handled : ∀ record ∈ batch, ∃ round outcome, round <:+: acts ∧
    Round service record round outcome ∧ found after.events record.id = some outcome
  others : ∀ id, (∀ record ∈ batch, record.id ≠ id) →
    found after.events id = found before.events id
  payments : after.payments = before.payments

/-- A delivery and the rest of the loop, for another event each. -/
theorem BatchDone.cons {rest : List WebhookEventRecord} {outcome : WebhookEventRecord}
    {before middle after : World σ ε} {round acts : List (Act (machine σ ε))}
    (h : BatchDone service rest middle acts after)
    (hround : Round service record round outcome)
    (hchanges : Changes record.id outcome before middle)
    (hdistinct : ∀ other ∈ rest, other.id ≠ record.id) :
    BatchDone service (record :: rest) before (round ++ acts) after := by
  refine ⟨?_, fun other hother => ?_, fun id hid => ?_, h.payments.trans hchanges.payments⟩
  · rw [posted_by_append, hround.posted_by_eq, h.posted]
    rfl
  · rcases List.mem_cons.mp hother with rfl | hother
    · refine ⟨round, outcome, (List.prefix_append _ _).isInfix, hround, ?_⟩
      rw [h.others _ hdistinct, hchanges.events, if_pos rfl]
    · obtain ⟨own, left, hinfix, hown, hleft⟩ := h.handled other hother
      exact ⟨own, left, hinfix.trans (List.suffix_append _ _).isInfix, hown, hleft⟩
  · rw [h.others id fun other hother => hid other (List.mem_cons_of_mem _ hother),
      hchanges.events, if_neg (Ne.symm (hid record List.mem_cons_self))]

/-- A request before the loop that posts nothing. -/
theorem BatchDone.look {batch : List WebhookEventRecord} {before after : World σ ε}
    {act : Act (machine σ ε)} {acts : List (Act (machine σ ε))}
    (h : BatchDone service batch before acts after) (hpost : act.request.isPost = false) :
    BatchDone service batch before (act :: acts) after := by
  refine ⟨(posted_by_cons hpost).trans h.posted, fun record hrecord => ?_, h.others, h.payments⟩
  obtain ⟨round, outcome, hinfix, hround, hleft⟩ := h.handled record hrecord
  exact ⟨round, outcome, hinfix.trans (List.suffix_cons _ _).isInfix, hround, hleft⟩

/-- The loop of `deliver_due` over events that are stored as they were fetched. -/
theorem deliver_all_alone (hcounts : ∀ attempts, DeliveryLaws.counts ε attempts = true)
    {batch : List WebhookEventRecord}
    (hnodup : (batch.map WebhookEventRecord.id).Nodup)
    (hfound : ∀ record ∈ batch, found world.events record.id = some record) :
    Alone (eventsWork σ ε) none (service.deliverAll batch)
      (fun acts _ after => BatchDone service batch world acts after) world := by
  induction batch generalizing world with
  | nil => exact alone_pure ⟨rfl, by simp, fun _ _ => rfl, rfl⟩
  | cons record rest ih =>
      obtain ⟨hnotin, hrest⟩ := List.nodup_cons.mp hnodup
      have hdistinct : ∀ other ∈ rest, other.id ≠ record.id := fun other hother heq =>
        hnotin (heq ▸ List.mem_map_of_mem hother)
      refine alone_bind (alone_within ?_)
      refine (deliver_one_alone hcounts (hfound record List.mem_cons_self)).mono
        fun round _ middle h => ?_
      obtain ⟨outcome, hround, hchanges⟩ := h
      refine (ih hrest fun other hother => ?_).mono fun acts _ after hdone =>
        hdone.cons hround hchanges hdistinct
      rw [hchanges.events, if_neg (hdistinct other hother)]
      exact hfound other (List.mem_cons_of_mem _ hother)

/-- What a pass leaves whose clock showed `now` at first. -/
structure BatchPassDone (service : WebhookService) (now : DateTime)
    (candidates batch : List WebhookEventRecord) (before : World σ ε)
    (acts : List (Act (machine σ ε))) (result : Except RepositoryError Unit)
    (after : World σ ε) : Prop where
  ok : result = .ok ()
  reading : ∃ first rest, acts = first :: rest ∧ first.request = .utcNow ∧ first.env.now = now
  due : DueRecords before.events (DeliveryLaws.time ε now) candidates
  foremost : Foremost WebhookEventRecord.attemptTime 50 candidates batch
  done : BatchDone service batch before acts after

/-- `deliver_due` with nobody else acting. -/
theorem deliver_due_alone [QueueLaws ε]
    (hcounts : ∀ attempts, DeliveryLaws.counts ε attempts = true) :
    Alone (eventsWork σ ε) none service.deliverDue
      (fun acts result after => ∃ now candidates batch,
        BatchPassDone service now candidates batch world acts result after) world := by
  refine alone_request_bind fun clock _ => ?_
  refine alone_request_bind fun fetch hworks => ?_
  obtain ⟨batch, candidates, hfetch, hcandidates, hbatch⟩ :=
    QueueLaws.fetch fetch.scan clock.now world.events (show 0 ≤ fetchBatchSize by decide)
  have hreply : (machine σ ε).answer fetch
      (.fetchDue ((machine σ ε).answer clock .utcNow world).1 fetchBatchSize)
      ((machine σ ε).answer clock .utcNow world).2 = (.ok batch, world) := by
    simp only [answer, onEvents, attempt, reading, show fetch.eventsFault = none from hworks,
      hfetch]
  rw [hreply]
  have hstored : ∀ record ∈ batch, found world.events record.id = some record := fun record hmem =>
    ((hcandidates.mem record).mp (hbatch.subset hmem)).1
  refine alone_bind ((deliver_all_alone hcounts ?_ hstored).mono
    fun acts _ after hdone => alone_pure ?_)
  · exact hcandidates.batch_nodup hbatch
  · refine ⟨clock.now, candidates, batch, rfl, ⟨_, _, rfl, rfl, rfl⟩, hcandidates, hbatch, ?_⟩
    rw [List.append_nil]
    exact (hdone.look rfl).look rfl

end Turns

section InMemory

variable {σ : Type} [PaymentRepository σ] [Platform] {service : WebhookService}

/-- What a delivery of an event that could be counted leaves: a delivered event with its attempts,
or one that is not, with one attempt more. -/
def CountedOnce (record outcome : WebhookEventRecord) : Prop :=
  outcome.status = .delivered ∧ outcome.attempts = record.attempts ∨
    outcome.status ≠ .delivered ∧ outcome.attempts.toInt = record.attempts.toInt + 1

/-- The delivery of an event counts once, below the end of the counter. -/
theorem Round.counted {record outcome : WebhookEventRecord}
    {acts : List (Act (machine σ InMemoryEvents))} (h : Round service record acts outcome)
    (hroom : record.attempts ≠ Int32.maxValue) : CountedOnce record outcome := by
  cases h with
  | delivered => exact .inl ⟨rfl, rfl⟩
  | retried | exhausted => exact .inr ⟨record.failed_status_ne _ _, to_int_succ hroom⟩

/-- In memory, whatever events are stored, whatever the clock shows and whatever the endpoint
answers, as long as no event that is due when the pass begins is at the end of its counter: a pass
that is all that was ever started can go on to its end, and when it has ended, it has posted its
batch. No due event that it did not post is due earlier than one that it posted. -/
theorem batch_delivered {before : World σ InMemoryEvents} {state : State (machine σ InMemoryEvents)}
    (hreach : Reachable (eventsWork σ InMemoryEvents) before state)
    {program : Prog (Except RepositoryError Unit)}
    (hthreads : state.threads = [⟨.deliverDue service, program⟩])
    (hroom : ∀ first ∈ state.config.acts.head?, ∀ record,
      found before.events record.id = some record → record.IsDue first.env.now →
        record.attempts ≠ Int32.maxValue) :
    (∃ later result, Reachable (eventsWork σ InMemoryEvents) before later ∧
      later.threads = [⟨.deliverDue service, .done result⟩]) ∧
    ∀ result, program = .done result → ∃ now candidates batch,
      BatchPassDone service now candidates batch before state.config.acts result
        state.config.world ∧
      (∀ posted ∈ batch, ∀ record, found before.events record.id = some record →
        record.IsDue now → record ∉ batch → posted.attemptTime ≤ record.attemptTime) ∧
      ∀ posted ∈ batch, ∀ outcome, found state.config.world.events posted.id = some outcome →
        CountedOnce posted outcome := by
  constructor
  · refine hreach.can_finish (fun _ _ _ => ⟨Plain.env 0 0, rfl⟩) hthreads
  · intro result hdone
    subst hdone
    obtain ⟨now, candidates, batch, hpass⟩ :=
      finishes_alone (deliver_due_alone fun _ => rfl) hreach hthreads
    refine ⟨now, candidates, batch, hpass, fun posted hposted record hstored hdue hleft => ?_,
      fun posted hposted outcome houtcome => ?_⟩
    · exact hpass.foremost.le_of_notMem hposted ((hpass.due.mem record).mpr ⟨hstored, hdue⟩) hleft
    · obtain ⟨_, left, -, hround, hleft⟩ := hpass.done.handled posted hposted
      obtain ⟨hstored, hdue⟩ := (hpass.due.mem posted).mp (hpass.foremost.subset hposted)
      obtain ⟨first, rest, hacts, -, hnow⟩ := hpass.reading
      cases hleft.symm.trans houtcome
      refine hround.counted (hroom first ?_ posted hstored (hnow ▸ hdue))
      rw [hacts]
      rfl

end InMemory

section Run

attribute [local instance] Plain.platform

open Plain

/-- A service that delivers to a shop. -/
def shopWebhooks : WebhookService :=
  ⟨"https://shop.example/hook", "secret"⟩

/-- Events of one payment in memory, enqueued at these times under these ids. -/
def enqueuedAt (times : List (DateTime × Uuid)) : World InMemoryState InMemoryEvents :=
  times.foldl
    (fun world entry =>
      (answer (env entry.1 entry.2) (.enqueue entry.1 7 "payment.detected" .null) world).2)
    ⟨InMemoryState.new, InMemoryEvents.new⟩

/-- A pass at 8000: the endpoint is down for the event that has waited longest, and takes the next
one. -/
def mixedPass : List (Choice (machine InMemoryState InMemoryEvents)) :=
  [.start (.deliverDue shopWebhooks), .act 0 (env 8000 0), .act 0 (env 8000 0),
    .act 0 (endpointDown 8000 0), .act 0 (env 8001 0), .act 0 (env 8002 0), .act 0 (env 8003 0),
    .act 0 (env 8004 0), .act 0 (env 8005 0)]

/-- A pass of `shopWebhooks` was all that was started, and has ended. -/
def passEnded (state : State (machine InMemoryState InMemoryEvents)) : Bool :=
  match state.threads with
  | [⟨.deliverDue webhooks, .done _⟩] =>
      webhooks.webhookUrl == shopWebhooks.webhookUrl &&
        webhooks.signingSecret == shopWebhooks.signingSecret
  | _ => false

/-- The status and the attempts of an event after a pass. -/
def eventAfter (state : State (machine InMemoryState InMemoryEvents)) (id : Uuid) :
    Option (WebhookEventStatus × Int32) :=
  (found state.config.world.events id).map fun record => (record.status, record.attempts)

/-- No event of the store is at the end of its counter. -/
def allRoom (world : World InMemoryState InMemoryEvents) : Bool :=
  world.events.events.values.all fun record => record.attempts != Int32.maxValue

/-- A pass of `shopWebhooks` that has ended is all that the state has. -/
theorem threads_of_ended {state : State (machine InMemoryState InMemoryEvents)}
    (h : passEnded state = true) :
    ∃ result, state.threads = [⟨.deliverDue shopWebhooks, .done result⟩] := by
  unfold passEnded at h
  split at h
  · rename_i webhooks result hthreads
    obtain ⟨hurl, hsecret⟩ := Bool.and_eq_true_iff.mp h
    obtain rfl : webhooks = shopWebhooks := by
      cases webhooks
      simp only [shopWebhooks, beq_iff_eq] at hurl hsecret ⊢
      rw [hurl, hsecret]
    exact ⟨result, hthreads⟩
  · cases h

/-- Of three events one is tried again, one is delivered, and one was not due. -/
theorem batch_delivered_mixed : ∃ state : State (machine InMemoryState InMemoryEvents),
    [10, 9, 11].map (eventAfter state) =
      [some (.pending, 1), some (.delivered, 0), some (.pending, 0)] ∧
    ∃ result now candidates batch, BatchPassDone shopWebhooks now candidates batch
      (enqueuedAt [(6000, 9), (5000, 10), (9000, 11)]) state.config.acts result
      state.config.world := by
  obtain ⟨state, hreach, htest⟩ := exists_reachable (eventsWork InMemoryState InMemoryEvents)
    mixedPass (enqueuedAt [(6000, 9), (5000, 10), (9000, 11)]) (fun state => passEnded state &&
      [10, 9, 11].map (eventAfter state) ==
        [some (.pending, 1), some (.delivered, 0), some (.pending, 0)]) (by decide)
  obtain ⟨hended, hafter⟩ := Bool.and_eq_true_iff.mp htest
  refine ⟨state, beq_iff_eq.mp hafter, ?_⟩
  obtain ⟨result, hthreads⟩ := threads_of_ended hended
  have hroom : allRoom (enqueuedAt [(6000, 9), (5000, 10), (9000, 11)]) = true := by decide
  have hcounts : ∀ first ∈ state.config.acts.head?, ∀ record,
      found (enqueuedAt [(6000, 9), (5000, 10), (9000, 11)]).events record.id = some record →
        record.IsDue first.env.now → record.attempts ≠ Int32.maxValue := by
    intro _ _ record hstored _
    have hmem := InMemoryEvents.mem_values_iff.mpr hstored
    exact bne_iff_ne.mp (List.all_eq_true.mp hroom record hmem)
  obtain ⟨now, candidates, batch, hpass, -⟩ :=
    (batch_delivered hreach hthreads hcounts).2 result rfl
  exact ⟨result, now, candidates, batch, hpass⟩

/-- An event in memory that has counted as many failures as an `i32` holds. -/
def lastCount : WebhookEventRecord :=
  { WebhookEventRecord.enqueued 9 7 "payment.detected" .null 6000 with attempts := Int32.maxValue }

/-- A pass at 8000 of which the endpoint takes nothing. -/
def lastPass : List (Choice (machine InMemoryState InMemoryEvents)) :=
  [.start (.deliverDue shopWebhooks), .act 0 (env 8000 0), .act 0 (env 8000 0),
    .act 0 (endpointDown 8000 0), .act 0 (env 8001 0)]

/-- A pass that fails to deliver `lastCount` leaves it with the least `i32` for its attempts. -/
theorem last_count_wraps : ∃ state : State (machine InMemoryState InMemoryEvents),
    Reachable (eventsWork InMemoryState InMemoryEvents)
      ⟨InMemoryState.new, InMemoryEvents.new.insert lastCount⟩ state ∧
    (∃ result, state.threads = [⟨.deliverDue shopWebhooks, .done result⟩]) ∧
    lastCount.IsDue 8000 ∧ ∃ outcome, found state.config.world.events lastCount.id = some outcome ∧
      outcome.attempts = Int32.minValue ∧ ¬ CountedOnce lastCount outcome := by
  obtain ⟨state, hreach, htest⟩ := exists_reachable (eventsWork InMemoryState InMemoryEvents)
    lastPass ⟨InMemoryState.new, InMemoryEvents.new.insert lastCount⟩ (fun state =>
      passEnded state && (found state.config.world.events lastCount.id).any fun outcome =>
        outcome.status == .failed && outcome.attempts == Int32.minValue) (by decide)
  simp only [Bool.and_eq_true, Option.any_eq_true, beq_iff_eq] at htest
  obtain ⟨hended, outcome, houtcome, hstatus, hattempts⟩ := htest
  refine ⟨state, hreach, threads_of_ended hended, ⟨rfl, 6000, rfl, by decide⟩, outcome, houtcome,
    hattempts, fun hcounted => ?_⟩
  rcases hcounted with ⟨hdelivered, -⟩ | ⟨-, hone⟩
  · cases hstatus.symm.trans hdelivered
  · rw [hattempts, Int32.toInt_minValue] at hone
    exact absurd hone (by decide)

end Run

end StellarPay
