import StellarPay.Interleaving.Assumption
import StellarPay.Runtime.EventFrames
import StellarPay.Runtime.Requests

/-!
# A server

`crates/api/src/startup.rs`: a server answers clients, reconciles payments, and runs
`run_delivery_loop`, which is the only one to deliver webhooks. Its machine has the requests and the
stores of the system, with the whole loop as one call, so that a pass begins when the one before it
has ended. The calls of the service that are passes by themselves are not started.
-/

namespace StellarPay

open Interleaving

/-- What a server runs. -/
inductive ServerCall where
  | service (call : Call)
  /-- `enqueue_event`, called directly. -/
  | enqueueEvent (event : PaymentEvent)
  /-- `run_delivery_loop`, as far as a number of passes. -/
  | deliveryLoop (webhooks : WebhookService) (passes : Nat)

namespace ServerCall

/-- The type of the result of a call. -/
@[reducible]
def Result : ServerCall → Type
  | .service call => call.Result
  | .enqueueEvent _ => Except RepositoryError Unit
  | .deliveryLoop _ _ => Unit

/-- The call is a pass of deliveries outside the loop. -/
def isPass : ServerCall → Bool
  | .service (.deliverDue _) => true
  | _ => false

/-- The service whose events a loop delivers. -/
def loopService : ServerCall → Option WebhookService
  | .deliveryLoop webhooks _ => some webhooks
  | _ => none

variable [Platform]

/-- The program of a call. -/
def body : (call : ServerCall) → Prog call.Result
  | .service call => call.body
  | .enqueueEvent event => WebhookService.enqueueEvent event
  | .deliveryLoop webhooks passes => webhooks.runDeliveryLoop passes

end ServerCall

section Machine

variable (σ ε : Type) [PaymentRepository σ] [WebhookEventRepository ε] [Platform]

/-- The machine of a server over two stores. -/
abbrev server : Machine where
  Span := Uuid
  Request := Request
  Answer := Answer
  Env := Env
  World := World σ ε
  Call := ServerCall
  Result := ServerCall.Result
  answer := answer
  body := ServerCall.body

/-- The machine of a server over the stores of a backend. -/
abbrev Backend.server (backend : Backend) : Machine :=
  StellarPay.server backend.Payments backend.Events

variable [EventLaws ε]

/-- The loop is the only one to deliver, and the identifiers of new events are fresh. -/
def serverRules : Rules (server σ ε) :=
  ⟨fun call => call.isPass = false, fun env _ request world => FreshEvent env request world⟩

instance : DecidablePred (serverRules σ ε).admits :=
  fun call => inferInstanceAs (Decidable (call.isPass = false))

instance (env : Env) (span : Option Uuid) (request : Request) (world : World σ ε) :
    Decidable ((serverRules σ ε).permits env span request world) :=
  inferInstanceAs (Decidable (FreshEvent env request world))

end Machine

namespace Request

/-- The request sends an event or records what became of it. -/
def delivers : Request → Bool
  | .post _ _ _ | .markDelivered _ _ | .markFailed _ _ => true
  | _ => false

/-- The request records what became of an event. -/
def marks : Request → Bool
  | .markDelivered _ _ | .markFailed _ _ => true
  | _ => false

/-- The request sends an event. -/
def isPost : Request → Bool
  | .post _ _ _ => true
  | _ => false

/-- The request records that an event could not be delivered. -/
def isFailure : Request → Bool
  | .markFailed _ _ => true
  | _ => false

/-- A post is a request of a delivery. -/
theorem delivers_of_is_post {request : Request} (h : request.isPost = true) :
    request.delivers = true := by
  cases request <;> first | rfl | cases h

/-- So is the record of a failure. -/
theorem delivers_of_is_failure {request : Request} (h : request.isFailure = true) :
    request.delivers = true := by
  cases request <;> first | rfl | cases h

end Request

section Runs

variable {σ ε : Type} [PaymentRepository σ] [WebhookEventRepository ε] [Platform]

/-- Only the loop delivers. -/
theorem other_makes {call : ServerCall} (hpass : call.isPass = false)
    (hloop : call.loopService = none) :
    call.body.Makes fun request => request.delivers = false := by
  cases call with
  | service call =>
      refine (body_makes call).mono fun request hallowed => ?_
      cases call with
      | deliverDue => cases hpass
      | _ => cases request <;> first | rfl | cases hallowed
  | enqueueEvent event => exact WebhookService.enqueue_event_makes rfl rfl fun _ _ _ => rfl
  | deliveryLoop => cases hloop

/-- No two threads of the pool run a loop. -/
def OneLoop (state : State (server σ ε)) : Prop :=
  state.threads.Pairwise fun first second =>
    first.call.loopService.isSome = true → second.call.loopService = none

instance (state : State (server σ ε)) : Decidable (OneLoop state) :=
  inferInstanceAs (Decidable (List.Pairwise _ _))

variable (σ ε) in
/-- The loop is the thread `loop`, and it delivers for `webhooks`. -/
def loopAt (loop : Nat) (webhooks : WebhookService) : Assumption (server σ ε) where
  Holds history := ∀ (thread : Nat) (call : ServerCall) (before : World σ ε),
    .start thread call before ∈ history →
      call.loopService = if thread = loop then some webhooks else none
  shorter hgrows h thread call before hstart := h thread call before (hgrows.subset hstart)

/-- A pool with one loop at most has it at one place. -/
theorem loop_at_of_one {rules : Rules (server σ ε)} {world : World σ ε}
    {state : State (server σ ε)} (hreach : Reachable rules world state) (hone : OneLoop state) :
    ∃ loop webhooks, (loopAt σ ε loop webhooks).Holds state.config.trace := by
  have hthread : ∀ {thread call before}, .start thread call before ∈ state.config.trace →
      ∃ t, state.threads[thread]? = some t ∧ t.call = call := by
    intro thread call before hstart
    obtain ⟨t, ht⟩ := hreach.thread_of_event hstart
    exact ⟨t, ht, (hreach.start_unique ht hstart hstart).1.symm⟩
  by_cases hloop : ∃ (loop : Nat) (t : Thread (server σ ε)) (webhooks : WebhookService),
      state.threads[loop]? = some t ∧ t.call.loopService = some webhooks
  · obtain ⟨loop, t, webhooks, ht, hservice⟩ := hloop
    refine ⟨loop, webhooks, fun thread call before hstart => ?_⟩
    obtain ⟨other, hother, rfl⟩ := hthread hstart
    rcases Nat.lt_trichotomy thread loop with hlt | rfl | hgt
    · rw [if_neg (Nat.ne_of_lt hlt)]
      by_contra hne
      have hnone := pairwise_at hone hother ht hlt (Option.isSome_iff_ne_none.mpr hne)
      rw [hservice] at hnone
      cases hnone
    · cases ht.symm.trans hother
      rw [if_pos rfl, hservice]
    · rw [if_neg (Nat.ne_of_gt hgt)]
      exact pairwise_at hone ht hother hgt (by rw [hservice]; rfl)
  · refine ⟨state.threads.length, ⟨"", ""⟩, fun thread call before hstart => ?_⟩
    have hlt : thread < state.threads.length := hreach.known _ hstart
    rw [if_neg (Nat.ne_of_lt hlt)]
    obtain ⟨t, ht, rfl⟩ := hthread hstart
    cases hservice : t.call.loopService with
    | none => rfl
    | some webhooks => exact absurd ⟨thread, t, webhooks, ht, hservice⟩ hloop

end Runs

end StellarPay
