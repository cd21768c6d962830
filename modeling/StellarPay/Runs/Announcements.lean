import StellarPay.Runs.Keys
import StellarPay.Runs.Ordering

/-!
# Announcing creations

`payment.created` is a type of event that nothing sends: `create_payment` does not touch the event
store, and a pass announces the transitions it commits, none of which leads to `Pending`. So a
stored payment never has the event of its creation.
-/

namespace StellarPay

open Interleaving

section Machine

variable {σ ε : Type} [PaymentRepository σ] [WebhookEventRepository ε] [Platform]
  [RepositoryLaws σ] {rules : Rules (machine σ ε)} {world : World σ ε}
  {state : State (machine σ ε)}

/-- No pass announces a creation: it would have to commit a transition to `Pending`. -/
theorem creation_not_attempted (hreach : Reachable rules world state) {event : Event (machine σ ε)}
    (hevent : event ∈ state.config.trace) (id : Uuid) (payload : Value) :
    attempted event ≠ some (id, PaymentStatus.pending.eventType, payload) := by
  intro hattempted
  obtain ⟨before, after, htrace⟩ := List.append_of_mem hevent
  obtain ⟨commit, -, updated, hcommitted, -, htype, -⟩ :=
    announced_committed hreach htrace hattempted
  rw [event_type_eq, PaymentStatus.eventType_inj] at htype
  obtain ⟨source, -, htransition⟩ := (committed_stored hcommitted).2
  rw [htype] at htransition
  exact Nat.not_lt_zero _ (PaymentStatus.rank_lt_of_canTransitionTo htransition)

variable [EventLaws ε] [DeliveryLaws ε]

/-- No record of a store that was empty at first announces a creation. -/
theorem creation_not_found (hreach : Reachable rules world state)
    (hempty : ∀ id, EventLaws.found world.events id = none) {id : Uuid}
    {record : WebhookEventRecord}
    (hfound : EventLaws.found state.config.world.events id = some record) :
    record.eventType ≠ PaymentStatus.pending.eventType := by
  intro htype
  obtain ⟨position, act, now, hposition, made, ⟨hrequest, -⟩, -⟩ :=
    stored_of_found hreach hempty hfound
  have hact : .act act ∈ state.config.trace := List.mem_of_getElem? hposition
  refine creation_not_attempted hreach hact record.paymentId record.payload ?_
  obtain ⟨thread, span, request, env, before⟩ := act
  obtain rfl : request = _ := hrequest
  rw [attempted, htype]

end Machine

section Api

variable {σ ε : Type} [PaymentRepository σ] [WebhookEventRepository ε] [Platform] {app : AppState}

/-- The requests a request of the API can make: those of the call behind it, and one for the events
of a payment. -/
def ApiCall.Allows (app : AppState) (call : ApiCall) (request : Request) : Prop :=
  (call.behind app).Allows request ∨ ∃ id, request = .listForPayment id

/-- A request of the API makes only the requests it can. -/
theorem api_body_makes (call : ApiCall) : (call.body app).Makes (call.Allows app) := by
  rw [show call.body app = (call.behind app).body >>= call.respond app from
    (frontEnd InMemoryState InMemoryEvents app).body_eq call]
  refine ((body_makes _).mono fun _ h => .inl h).bind fun result => ?_
  have hdone : ∀ {α β : Type} (make : α → β) (result : Except PaymentError α),
      (respondWith make result).Makes (call.Allows app) := by
    intro α β make result
    obtain ⟨response, hresponse⟩ := respond_with_done make result
    rw [hresponse]
    trivial
  cases call with
  | createPayment | listPayments | getPayment | getPaymentStatus => exact hdone _ result
  | task => trivial
  | listPaymentWebhookEvents id =>
      cases result with
      | error error => trivial
      | ok payment =>
          refine ⟨.inr ⟨id, rfl⟩, fun reply => ?_⟩
          cases reply <;> trivial

/-- The event stored a record of this type for the payment. -/
def StoresRecord (event : Event (api σ ε app)) (paymentId : Uuid) (eventType : String) : Prop :=
  ∃ act now payload record, event = .act act ∧
    act.Got (.enqueue now paymentId eventType payload) (.ok record)

variable [RepositoryLaws σ] {rules : Rules (machine σ ε)} {world : World σ ε}
  {state : State (api σ ε app)}

/-- No request stores the event of a creation. -/
theorem creation_not_stored (hreach : Reachable ((frontEnd σ ε app).rules rules) world state)
    {event : Event (api σ ε app)} (hevent : event ∈ state.config.trace) (id : Uuid) :
    ¬ StoresRecord event id "payment.created" := by
  intro hannounced
  obtain ⟨act, now, payload, record, rfl, hrequest, -⟩ := hannounced
  obtain ⟨inner, hinner, hshows⟩ := FrontEnd.exists_behind hreach
  obtain ⟨⟨call, program⟩, ht, -, hallows, -⟩ :=
    hreach.acts_make (ApiCall.Allows app) (fun call _ => api_body_makes call) act hevent
  have hbehind : (call.behind app).Allows act.request := by
    refine hallows.resolve_right fun ⟨listed, hlisted⟩ => ?_
    cases hrequest.symm.trans hlisted
  rw [hrequest] at hbehind
  obtain ⟨worker, hworker⟩ := hbehind.of_enqueue
  have hmade : ∀ result, ∃ made, (frontEnd σ ε app).respond call result = .done made := by
    cases call with
    | task task => exact fun result => ⟨result, rfl⟩
    | _ => cases hworker
  have hkept := hshows.kept_act hreach hevent ht hmade
  refine creation_not_attempted hinner hkept id payload ?_
  obtain ⟨thread, span, request, env, before⟩ := act
  obtain rfl : request = _ := hrequest
  rfl

variable [EventLaws ε]

/-- Every stored payment was announced. -/
structure CreationsAnnounced (state : State (api σ ε app)) : Prop where
  /-- A stored payment has exactly one event of its creation. -/
  once : ∀ id payment, stored state.config.world.payments id = some payment →
    ∃! record : WebhookEventRecord, EventLaws.found state.config.world.events record.id =
      some record ∧ record.paymentId = id ∧ record.eventType = "payment.created"
  /-- It was stored before every other event of the payment. -/
  first : state.config.trace.Pairwise fun earlier later => ∀ id eventType,
    StoresRecord earlier id eventType → ¬ StoresRecord later id "payment.created"
  /-- A request that creates nothing, be it a replay or refused, adds none. -/
  silent : ∀ (thread : Nat) (headers : HeaderMap) (request : CreatePaymentRequest)
    (program : Prog (Except ApiError (StatusCode × PaymentResponse))),
    state.threads[thread]? = some ⟨.createPayment headers request, program⟩ →
    (∀ act, .act act ∈ state.config.trace → act.thread = thread →
      act.after.payments = act.before.payments) →
    ∀ event ∈ state.config.trace, event.thread = thread →
      ∀ id, ¬ StoresRecord event id "payment.created"

variable [DeliveryLaws ε]

/-- From an event store that is empty, the creations are announced as long as there are none. -/
theorem announced_iff_of_empty (hreach : Reachable ((frontEnd σ ε app).rules rules) world state)
    (hempty : ∀ id, EventLaws.found world.events id = none) :
    CreationsAnnounced state ↔ ∀ id, stored state.config.world.payments id = none := by
  constructor
  · intro hannounced id
    refine Option.eq_none_iff_forall_ne_some.mpr fun payment hstored => ?_
    obtain ⟨record, ⟨hfound, -, htype⟩, -⟩ := hannounced.once id payment hstored
    obtain ⟨inner, hinner, hshows⟩ := FrontEnd.exists_behind hreach
    rw [← hshows.world] at hfound
    exact creation_not_found hinner hempty hfound htype
  · intro hnone
    refine ⟨fun id payment hstored => ?_, ?_, fun _ _ _ _ _ _ event hevent _ id => ?_⟩
    · cases (hnone id).symm.trans hstored
    · refine List.pairwise_of_forall_mem_list fun _ _ later hlater id _ _ => ?_
      exact creation_not_stored hreach hlater id
    · exact creation_not_stored hreach hevent id

end Api

section Backends

variable [Platform]

/-- In the runs of the API that begin with empty stores, whatever is requested and whatever the
background tasks do, the creations are announced in a state if and only if it holds no payment. -/
theorem creations_announced_iff {backend : Backend} {app : AppState}
    {state : State (api backend.Payments backend.Events app)}
    (hreach : Reachable ((frontEnd backend.Payments backend.Events app).rules .any) backend.empty
      state) :
    CreationsAnnounced state ↔ ∀ id, stored state.config.world.payments id = none :=
  announced_iff_of_empty hreach backend.found_empty

end Backends

section Tests

attribute [local instance] Plain.platform

open Plain

/-- One request creates a payment, and a pass finds nothing to do with it. -/
def announcelessRun : List (Choice (api Database EventTable plainApp)) :=
  [.start (.createPayment ⟨[]⟩ (requestOf "10" "order-1")), .act 0 (env 5000 7),
    .act 0 (env 5000 7), .act 0 (env 5000 7), .start (.task (.runOnce worker)),
    .act 1 (env 6000 8), .act 1 (env 6000 8), .act 1 (env 6000 8)]

/-- A payment that was created without any failure has no event of its creation, before and after
a pass. -/
theorem creation_unannounced : ∃ state : State (api Database EventTable plainApp),
    Reachable ((frontEnd Database EventTable plainApp).rules .any) Backend.postgres.empty state ∧
    stored state.config.world.payments 7 = some (pending 7 "10" "order-1" 5000) ∧
    (∀ act, .act act ∈ state.config.trace →
      act.env.paymentsFault = none ∧ act.env.eventsFault = none) ∧
    ¬ CreationsAnnounced state := by
  obtain ⟨state, hreach, htest⟩ := @exists_reachable (api Database EventTable plainApp) .any _ _
    announcelessRun Backend.postgres.empty
    (fun state =>
      decide (stored state.config.world.payments 7 = some (pending 7 "10" "order-1" 5000)) &&
      state.config.trace.all fun
        | .act act => act.env.paymentsFault.isNone && act.env.eventsFault.isNone
        | .start _ _ _ => true) (by decide)
  simp only [Bool.and_eq_true, decide_eq_true_eq, List.all_eq_true] at htest
  obtain ⟨hstored, hworks⟩ := htest
  refine ⟨state, hreach, hstored, fun act hact => by simpa using hworks _ hact, ?_⟩
  intro hannounced
  obtain ⟨record, ⟨hfound, -, htype⟩, -⟩ := hannounced.once 7 _ hstored
  have hrules : Reachable ((frontEnd Database EventTable plainApp).rules .any)
    Backend.postgres.empty state := hreach
  obtain ⟨inner, hinner, hshows⟩ := FrontEnd.exists_behind hrules
  rw [← hshows.world] at hfound
  exact creation_not_found hinner (fun _ => rfl) hfound htype

/-- In the state of that run the creations are announced if and only if it holds no payment. -/
theorem creations_announced_iff_created : ∃ state : State (api Database EventTable plainApp),
    stored state.config.world.payments 7 = some (pending 7 "10" "order-1" 5000) ∧
    (CreationsAnnounced state ↔ ∀ id, stored state.config.world.payments id = none) := by
  obtain ⟨state, hreach, htest⟩ := @exists_reachable (api Database EventTable plainApp) .any _ _
    announcelessRun Backend.postgres.empty
    (fun state =>
      decide (stored state.config.world.payments 7 = some (pending 7 "10" "order-1" 5000)))
    (by decide)
  exact ⟨state, of_decide_eq_true htest,
    @creations_announced_iff platform .postgres plainApp state hreach⟩

end Tests

end StellarPay
