import StellarPay.Payments.Lifecycle
import StellarPay.Runtime.Frames
import StellarPay.Runtime.Requests
import StellarPay.Runtime.Plain

/-!
# The lifecycle of payments over whole runs

The services never write a payment except by the requests `Request.Disciplined` admits. Each of
these is one `PaymentStep` for every payment, whatever the others do in between, so every payment
of every run lives as `Lifecycle` promises.
-/

namespace StellarPay

open Interleaving

/-- How the services write payments: new payments are pending and without a hash, and a hash comes
exactly with detection. -/
def Request.Disciplined : Request → Prop
  | .createWithIdempotencyKey payment _ =>
      payment.status = .pending ∧ payment.stellarTxHash = none
  | .guardedUpdate _ next hash => hash.isSome = true ↔ next = .detected
  | _ => True

/-- A write of the repository that goes around the service. -/
def Call.direct : Call → Bool
  | .updateStatus _ _ _ => true
  | _ => false

/-- A disciplined update makes disciplined requests. -/
theorem Request.OfUpdate.disciplined {id : Uuid} {next : PaymentStatus} {hash : Option String}
    {request : Request} (h : request.OfUpdate id next hash)
    (hhash : hash.isSome = true ↔ next = .detected) : request.Disciplined := by
  cases request with
  | findById => trivial
  | guardedUpdate =>
      obtain ⟨_, rfl, rfl⟩ := h
      exact hhash
  | _ => exact h.elim

/-- The calls of the services and the background tasks write payments in the disciplined way. -/
theorem Call.Allows.disciplined {call : Call} {request : Request} (h : call.Allows request)
    (hdirect : call.direct = false) : request.Disciplined := by
  cases call with
  | createPayment =>
      cases request with
      | createWithIdempotencyKey => exact h.2
      | utcNow | newV4 | findByIdempotencyKey => trivial
      | _ => exact h.elim
  | markDetected => exact Request.OfUpdate.disciplined h (by simp)
  | confirmPayment => exact Request.OfUpdate.disciplined h (by simp)
  | failPayment => exact Request.OfUpdate.disciplined h (by simp)
  | expirePayment => exact Request.OfUpdate.disciplined h (by simp)
  | updateStatus => cases hdirect
  | runOnce =>
      cases request with
      | guardedUpdate => exact h
      | createWithIdempotencyKey => exact h.elim
      | _ => trivial
  | getPayment | listPayments | deliverDue =>
      cases request with
      | guardedUpdate | createWithIdempotencyKey => exact h.elim
      | _ => trivial

section Steps

variable {σ ε : Type} [PaymentRepository σ] [WebhookEventRepository ε] [RepositoryLaws σ]

/-- A disciplined request is one step in the life of every payment. -/
theorem answer_step {env : Env} {request : Request} {world : World σ ε}
    (hdisciplined : request.Disciplined) (hfresh : FreshId request world) (id : Uuid) :
    PaymentStep (stored world.payments id) (stored (answer env request world).2.payments id) := by
  rcases answer_cases env request world id with
    hsame | ⟨payment, key, created, rfl, rfl, hstatus, hhash, hstored, -⟩ |
    ⟨source, next, hash, time, rfl, hsource, htransition, hstored, -⟩
  · rw [hsame]
    exact .stay _
  · rw [hstored, show stored world.payments payment.id = none from hfresh]
    exact .created created (hstatus.trans hdisciplined.1) (hhash.trans hdisciplined.2)
  · rw [hstored, hsource]
    exact .moved source next hash time htransition hdisciplined

variable [Platform]

/-- The calls of the services and the background tasks, with generated identifiers fresh. -/
def serviceRules (σ ε : Type) [PaymentRepository σ] [WebhookEventRepository ε] :
    Rules (machine σ ε) :=
  ⟨fun call => call.direct = false, fun _ _ request world => FreshId request world⟩

instance (call : Call) : Decidable ((serviceRules σ ε).admits call) :=
  inferInstanceAs (Decidable (call.direct = false))

instance (env : Env) (span : Option Uuid) (request : Request) (world : World σ ε) :
    Decidable ((serviceRules σ ε).permits env span request world) :=
  inferInstanceAs (Decidable (FreshId request world))

/-- Every event of a run of the services is one step in the life of every payment. -/
theorem event_step {world : World σ ε} {state : State (machine σ ε)}
    (hreach : Reachable (serviceRules σ ε) world state) (id : Uuid) :
    ∀ event ∈ state.config.trace,
      PaymentStep (stored event.before.payments id) (stored event.after.payments id) := by
  intro event hevent
  cases event with
  | start => exact .stay _
  | act act =>
      obtain ⟨t, _, hdirect, hallows, hfresh⟩ := act_allowed hreach hevent
      exact answer_step (hallows.disciplined hdirect) hfresh id

/-- From one world to another every coupled payment stays, and advances. -/
def Progresses (before after : World σ ε) : Prop :=
  ∀ id payment, stored before.payments id = some payment → payment.Coupled →
    ∃ later, stored after.payments id = some later ∧ later.Coupled ∧ payment.Advances later

omit [WebhookEventRepository ε] [RepositoryLaws σ] [Platform] in
theorem Progresses.refl (world : World σ ε) : Progresses world world :=
  fun _ payment hstored hcoupled => ⟨payment, hstored, hcoupled, .refl payment⟩

omit [WebhookEventRepository ε] [RepositoryLaws σ] [Platform] in
theorem Progresses.trans {first second third : World σ ε} (h : Progresses first second)
    (h' : Progresses second third) : Progresses first third := by
  intro id payment hstored hcoupled
  obtain ⟨later, hlater, hcoupled', hadvances⟩ := h id payment hstored hcoupled
  obtain ⟨last, hlast, hcoupled'', hadvances'⟩ := h' id later hlater hcoupled'
  exact ⟨last, hlast, hcoupled'', hadvances.trans hadvances'⟩

/-- Every event of a run of the services lets the payments progress. -/
theorem event_progresses {world : World σ ε} {state : State (machine σ ε)}
    (hreach : Reachable (serviceRules σ ε) world state) :
    ∀ event ∈ state.config.trace, Progresses event.before event.after := by
  intro event hevent id payment hstored hcoupled
  have hstep := event_step hreach id event hevent
  rw [hstored] at hstep
  obtain ⟨later, hlater, hadvances⟩ := hstep.advances hcoupled
  exact ⟨later, hlater, hstep.coupled (by simpa using hcoupled) later hlater, hadvances⟩

/-- If all payments are coupled at first, they are in every world that an event met. -/
theorem coupled_before {world : World σ ε} {state : State (machine σ ε)}
    (hreach : Reachable (serviceRules σ ε) world state)
    (hworld : ∀ id, ∀ payment ∈ stored world.payments id, payment.Coupled) :
    ∀ event ∈ state.config.trace, ∀ id, ∀ payment ∈ stored event.before.payments id,
      payment.Coupled :=
  hreach.linked.keeps_before
    (fun seen => ∀ id, ∀ payment ∈ stored seen.payments id, payment.Coupled)
    (fun event hevent hbefore id => (event_step hreach id event hevent).coupled (hbefore id)) hworld

/-- In every run of the services over a store without the payment, the payment lives as promised
once it is there, and it is never lost. -/
theorem lifecycle_of_reachable {world : World σ ε} {state : State (machine σ ε)}
    (hreach : Reachable (serviceRules σ ε) world state) {id : Uuid}
    (hempty : stored world.payments id = none) :
    ∃ count records,
      (worlds (M := machine σ ε) world state.config.trace).map (stored ·.payments id) =
        List.replicate count none ++ records.map some ∧ Lifecycle records := by
  have hchain := hreach.linked.is_chain
    (fun first second => PaymentStep (stored first.payments id) (stored second.payments id))
    (event_step hreach id)
  have hsteps := (List.isChain_map fun seen : World σ ε => stored seen.payments id).mpr hchain
  rw [worlds, List.map_cons, hempty] at hsteps ⊢
  exact PaymentStep.chain_none hsteps

end Steps

section Backends

variable [Platform]

/-- On either backend, in every run of the services from empty stores, every payment lives as
promised once it is there, and none is ever lost. -/
theorem payment_lifecycle (backend : Backend) {state : State backend.machine}
    (hreach : Reachable (serviceRules backend.Payments backend.Events) backend.empty state)
    (id : Uuid) :
    ∃ count records,
      (worlds (M := backend.machine) backend.empty state.config.trace).map (stored ·.payments id) =
        List.replicate count none ++ records.map some ∧ Lifecycle records :=
  lifecycle_of_reachable hreach (backend.stored_empty id)

end Backends

section Run

attribute [local instance] Plain.platform

open Plain

/-- A payment is created, and a pass finds it on the ledger. -/
def detectionRun : List (Choice Backend.postgres.machine) :=
  [.start (create "10" "order-1" none), .act 0 (env 5000 7), .act 0 (env 5000 7),
    .act 0 (env 5000 7), .start (.runOnce worker), .act 1 (env 6000 8), .act 1 (env 6000 8),
    .act 1 (envWith 6000 8 [native "tx" "GDEST" "10.0" 5500] "m"), .act 1 (env 6000 8)]

/-- The payment of `detectionRun` lives as promised. -/
theorem payment_lifecycle_detection : ∃ state : State Backend.postgres.machine,
    (stored state.config.world.payments 7).map Payment.status = some .detected ∧
    ∃ count records,
      (worlds (M := Backend.postgres.machine) Backend.postgres.empty state.config.trace).map
          (stored ·.payments 7) =
        List.replicate count none ++ records.map some ∧ Lifecycle records := by
  obtain ⟨state, hreach, hstatus⟩ := exists_reachable
    (serviceRules Backend.postgres.Payments Backend.postgres.Events) detectionRun
    Backend.postgres.empty (fun state =>
      (stored state.config.world.payments 7).map Payment.status == some .detected) (by decide)
  exact ⟨state, by simpa using hstatus, payment_lifecycle .postgres hreach 7⟩

end Run

end StellarPay
