import StellarPay.Interleaving.Lockstep
import StellarPay.Payments.Simulation
import StellarPay.Runs.Creation
import StellarPay.Runtime.Exact
import Mathlib.Tactic.NormNum.Ineq

/-!
# The repository in memory as a stand-in for Postgres

The same sequence of complete calls on both repositories. The maps in memory do not know the
constraints of the schema beyond the uniqueness of references: two payments may hold one hash, a
key may be linked again, and any amount and any text is stored. The two answer alike along exactly
the sequences in which no call meets one of these constraints.
-/

namespace StellarPay

open Interleaving PaymentRepository

/-- A call of the trait `PaymentRepository`. -/
inductive RepositoryCall where
  | createWithIdempotencyKey (payment : Payment) (key : Option String)
  | findById (id : Uuid)
  | findByReference (reference : String)
  | findByIdempotencyKey (key : String)
  | updateStatus (id : Uuid) (next : PaymentStatus) (hash : Option String)
  | listPendingForReconciliation
  | listPaginated (filter : Option PaymentStatus) (page perPage : UInt32)
  | count (filter : Option PaymentStatus)

namespace RepositoryCall

/-- The type of the result of a call. -/
@[reducible]
def Result : RepositoryCall → Type
  | .createWithIdempotencyKey _ _ | .updateStatus _ _ _ => Except RepositoryError Payment
  | .findById _ | .findByReference _ | .findByIdempotencyKey _ =>
      Except RepositoryError (Option Payment)
  | .listPendingForReconciliation | .listPaginated _ _ _ => Except RepositoryError (List Payment)
  | .count _ => Except RepositoryError Int

/-- The requests of a call. -/
def body : (call : RepositoryCall) → Prog call.Result
  | .createWithIdempotencyKey payment key => ask (.createWithIdempotencyKey payment key)
  | .findById id => ask (.findById id)
  | .findByReference reference => ask (.findByReference reference)
  | .findByIdempotencyKey key => ask (.findByIdempotencyKey key)
  | .updateStatus id next hash => StellarPay.updateStatus id next hash
  | .listPendingForReconciliation => ask .listPendingForReconciliation
  | .listPaginated filter page perPage => ask (.listPaginated filter page perPage)
  | .count filter => ask (.count filter)

/-- The identifier of the payment a call creates. -/
def created : RepositoryCall → Option Uuid
  | .createWithIdempotencyKey payment _ => some payment.id
  | _ => none

/-- The calls the services make: what they create has a valid amount and no hash. -/
def Issued [Platform] : RepositoryCall → Prop
  | .createWithIdempotencyKey payment _ =>
      (∃ decimal, validateAmount payment.amount = .ok decimal) ∧ payment.stellarTxHash = none
  | _ => True

section Alone

variable {σ ε : Type} [PaymentRepository σ] [WebhookEventRepository ε]

/-- Carry out a call from start to end with nobody else acting, on a store that works. -/
def perform (call : RepositoryCall) (env : Env) (world : World σ ε) :
    call.Result × World σ ε :=
  call.body.run answer (fun _ => { env with paymentsFault := none }) world

/-- `update_status` alone is the guarded write, and the read that explains why nothing matched. -/
theorem perform_update [RepositoryLaws σ] (env : Env) (world : World σ ε) (id : Uuid)
    (next : PaymentStatus) (hash : Option String) :
    (updateStatus id next hash).perform env world =
      (updateOutcome id next (stored world.payments id)
        (guardedUpdate env.now id next hash world.payments).1,
        { world with payments := (guardedUpdate env.now id next hash world.payments).2 }) := by
  simp only [perform, body, StellarPay.updateStatus, Program.run_bind, Program.run_request, answer,
    onPayments, attempt]
  cases hanswer : guardedUpdate env.now id next hash world.payments with
  | mk result after =>
      rcases result with error | _ | updated
      · rfl
      · obtain rfl := RepositoryLaws.update_none hanswer
        simp only [Program.run_bind, Program.run_request, answer, onPayments, attempt, reading,
          RepositoryLaws.findById_eq]
        cases stored world.payments id <;> rfl
      · rfl

/-- A call stores nothing under an unused identifier that it does not create. -/
theorem perform_unused [RepositoryLaws σ] (call : RepositoryCall) (env : Env) {world : World σ ε}
    {id : Uuid} (hunused : stored world.payments id = none) (hother : call.created ≠ some id) :
    stored (call.perform env world).2.payments id = none := by
  cases call with
  | createWithIdempotencyKey payment key =>
      show stored (PaymentRepository.createWithIdempotencyKey payment key world.payments).2 id =
        none
      cases hanswer : PaymentRepository.createWithIdempotencyKey payment key world.payments with
      | mk result after =>
          cases result with
          | error error => rwa [RepositoryLaws.create_error hanswer]
          | ok created =>
              have hne : id ≠ payment.id := fun heq => hother (congrArg some heq.symm)
              rwa [(RepositoryLaws.create_ok hanswer).2.2.2, if_neg hne]
  | updateStatus target next hash =>
      rw [perform_update]
      rcases update_effect env.now target next hash world.payments none with
        ⟨updated, ⟨payment, hstored, -⟩, -, hafter⟩ | ⟨-, hafter⟩
      · have hne : id ≠ target := by
          rintro rfl
          cases hunused.symm.trans hstored
        rwa [hafter, if_neg hne]
      · rwa [hafter]
  | _ => exact hunused

end Alone

/-- The condition under which a call meets no constraint that only the schema has. -/
def Fits [Platform] (memory : InMemoryState) : RepositoryCall → Prop
  | .createWithIdempotencyKey payment key =>
      payment.FitsColumns ∧ (ReferenceUsed memory payment.reference ∨
        ∀ name, key = some name → hasNul name = false ∧ linked memory name = none)
  | .findByReference text | .findByIdempotencyKey text => hasNul text = false
  | .updateStatus id next hash =>
      ∀ text, hash = some text → hasNul text = false ∧
        (CanMove memory id next → HashUnused memory id text)
  | _ => True

variable [Platform]

/-- The same results of a call. A page is the same part of listings that are the same. -/
def SameAnswer (memory : InMemoryState) (db : Database) :
    (call : RepositoryCall) → call.Result → call.Result → Prop
  | .createWithIdempotencyKey _ _ | .updateStatus _ _ _ => SameResult Payment.SameAs
  | .findById _ | .findByReference _ | .findByIdempotencyKey _ =>
      SameResult (Option.Rel Payment.SameAs)
  | .listPendingForReconciliation => SameResult SameListing
  | .listPaginated filter page perPage => fun first second =>
      ∃ firsts seconds, first = .ok (pageOf page perPage firsts) ∧
        second = .ok (pageOf page perPage seconds) ∧
        Listing memory (selects filter) (fun earlier later => later ≤ earlier) firsts ∧
        Listing db (selects filter) (fun earlier later => later ≤ earlier) seconds ∧
        SameListing firsts seconds
  | .count _ => SameResult Eq

end RepositoryCall

/-- A call, and the moments at which each repository carries it out. -/
structure RepositoryStep where
  call : RepositoryCall
  memoryEnv : Env
  dbEnv : Env

namespace RepositoryStep

variable [Platform]

/-- What the call leaves in memory. -/
def inMemory (step : RepositoryStep) (memory : World InMemoryState InMemoryEvents) :
    World InMemoryState InMemoryEvents :=
  (step.call.perform step.memoryEnv memory).2

/-- What the call leaves in the tables. -/
def inTables (step : RepositoryStep) (db : World Database EventTable) : World Database EventTable :=
  (step.call.perform step.dbEnv db).2

/-- Both repositories return the same result. -/
def Agrees (step : RepositoryStep) (memory : World InMemoryState InMemoryEvents)
    (db : World Database EventTable) : Prop :=
  step.call.SameAnswer memory.payments db.payments (step.call.perform step.memoryEnv memory).1
    (step.call.perform step.dbEnv db).1

/-- The call meets no constraint that only the schema has. -/
def Fits (step : RepositoryStep) (memory : World InMemoryState InMemoryEvents)
    (_ : World Database EventTable) : Prop :=
  step.call.Fits memory.payments

/-- The stores are related, and the calls to come create payments under new identifiers. -/
structure Simulates (steps : List RepositoryStep) (memory : World InMemoryState InMemoryEvents)
    (db : World Database EventTable) : Prop where
  related : Related memory.payments db.payments
  issued : ∀ step ∈ steps, step.call.Issued
  fresh : (steps.filterMap fun step => step.call.created).Nodup
  unused : ∀ id ∈ steps.filterMap fun step => step.call.created,
    stored memory.payments id = none

variable {step : RepositoryStep} {rest : List RepositoryStep}
  {memory : World InMemoryState InMemoryEvents} {db : World Database EventTable}

/-- From related stores a call is answered alike exactly when it fits. -/
theorem agrees_iff [DecimalLaws]
    (hmono : ∀ first second, first ≤ second →
      Platform.timestamptz first ≤ Platform.timestamptz second)
    (h : Simulates (step :: rest) memory db) : step.Agrees memory db ↔ step.Fits memory db := by
  obtain ⟨call, memoryEnv, dbEnv⟩ := step
  have hrelated := h.related
  cases call with
  | createWithIdempotencyKey payment key =>
      obtain ⟨⟨decimal, hvalid⟩, hhash⟩ := h.issued _ List.mem_cons_self
      have hunused : stored memory.payments payment.id = none :=
        h.unused payment.id (by simp [RepositoryCall.created])
      exact hrelated.create_iff hvalid hhash hunused
  | findById id => exact iff_of_true (hrelated.find_by_id id) trivial
  | findByReference reference => exact hrelated.find_by_reference_iff _ _ reference
  | findByIdempotencyKey key => exact hrelated.find_by_key_iff key
  | updateStatus id next hash =>
      rw [Agrees, RepositoryCall.perform_update, RepositoryCall.perform_update]
      exact hrelated.update_iff _ _ id next hash
  | listPendingForReconciliation => exact iff_of_true (hrelated.same_pending hmono _ _) trivial
  | listPaginated filter page perPage =>
      exact iff_of_true (hrelated.same_page hmono _ _ filter page perPage) trivial
  | count filter => exact iff_of_true (hrelated.same_count filter) trivial

/-- A call that is answered alike leaves related stores. -/
theorem related_after (h : Related memory.payments db.payments) (hagrees : step.Agrees memory db) :
    Related (step.inMemory memory).payments (step.inTables db).payments := by
  obtain ⟨call, memoryEnv, dbEnv⟩ := step
  cases call with
  | createWithIdempotencyKey payment key => exact h.after_create hagrees
  | updateStatus id next hash =>
      rw [Agrees, RepositoryCall.perform_update, RepositoryCall.perform_update] at hagrees
      rw [inMemory, inTables, RepositoryCall.perform_update, RepositoryCall.perform_update]
      exact h.after_update _ _ id next hash hagrees
  | _ => exact h

/-- A call that fits keeps the simulation. -/
theorem simulates_after [DecimalLaws]
    (hmono : ∀ first second, first ≤ second →
      Platform.timestamptz first ≤ Platform.timestamptz second)
    (h : Simulates (step :: rest) memory db) (hfits : step.Fits memory db) :
    Simulates rest (step.inMemory memory) (step.inTables db) := by
  have hlater := (List.sublist_cons_self step rest).filterMap fun step => step.call.created
  refine ⟨related_after h.related ((agrees_iff hmono h).mpr hfits),
    fun other hother => h.issued other (List.mem_cons_of_mem _ hother),
    h.fresh.sublist hlater, fun id hid => ?_⟩
  have hunused := h.unused id (hlater.subset hid)
  refine step.call.perform_unused step.memoryEnv hunused fun hcreated => ?_
  -- The identifier would be created twice.
  have hfresh := h.fresh
  simp only [List.filterMap_cons, hcreated] at hfresh
  exact (List.nodup_cons.mp hfresh).1 hid

end RepositoryStep

section Issued

/-- The call of the trait that a request is, or begins. -/
def Request.repositoryCall : Request → Option RepositoryCall
  | .createWithIdempotencyKey payment key => some (.createWithIdempotencyKey payment key)
  | .findById id => some (.findById id)
  | .findByReference reference => some (.findByReference reference)
  | .findByIdempotencyKey key => some (.findByIdempotencyKey key)
  | .guardedUpdate id next hash => some (.updateStatus id next hash)
  | .listPendingForReconciliation => some .listPendingForReconciliation
  | .listPaginated filter page perPage => some (.listPaginated filter page perPage)
  | .count filter => some (.count filter)
  | _ => none

variable [Platform]

/-- Only a creation can fail to be a call the services make. -/
theorem issued_of_not_creation {request : Request}
    (h : ∀ payment key, request ≠ .createWithIdempotencyKey payment key) :
    ∀ issued ∈ request.repositoryCall, issued.Issued := by
  intro issued hissued
  cases request with
  | createWithIdempotencyKey payment key => exact absurd rfl (h payment key)
  | _ =>
      cases hissued <;> trivial

/-- Every call that the services and their tasks make of the repository is `Issued`. -/
theorem body_issues (call : Call) :
    call.body.Makes fun request => ∀ issued ∈ request.repositoryCall, issued.Issued := by
  cases call with
  | createPayment service amount reference destination memo key =>
      refine create_payment_creates_sent.mono fun request hsent => ?_
      cases request with
      | createWithIdempotencyKey payment used =>
          intro issued hissued
          cases hissued
          exact ⟨hsent.2.amount.symm ▸ hsent.2.valid, hsent.2.hash⟩
      | _ => exact issued_of_not_creation fun _ _ => nofun
  | _ =>
      refine (body_makes _).mono fun request hallows => issued_of_not_creation ?_
      intro payment key hrequest
      subst hrequest
      exact hallows

end Issued

section Sequences

variable [Platform]

/-- Something holds of every call of a sequence and the stores it finds, from empty stores. -/
def AtEveryCall (property : RepositoryStep → World InMemoryState InMemoryEvents →
    World Database EventTable → Prop) (steps : List RepositoryStep) : Prop :=
  Throughout RepositoryStep.inMemory RepositoryStep.inTables property steps
    ⟨InMemoryState.new, InMemoryEvents.new⟩ ⟨Database.new, EventTable.new⟩

variable [DecimalLaws]

/-- Along every sequence of calls of the services that create payments under distinct identifiers,
from empty stores: both repositories return the same results exactly when every call fits the store
it finds. -/
theorem stores_agree_iff {steps : List RepositoryStep}
    (hmono : ∀ first second, first ≤ second →
      Platform.timestamptz first ≤ Platform.timestamptz second)
    (hissued : ∀ step ∈ steps, step.call.Issued)
    (hfresh : (steps.filterMap fun step => step.call.created).Nodup) :
    AtEveryCall RepositoryStep.Agrees steps ↔ AtEveryCall RepositoryStep.Fits steps :=
  Throughout.iff_of_simulation (fun _ _ _ _ h => RepositoryStep.agrees_iff hmono h)
    (fun _ _ _ _ h hfits => RepositoryStep.simulates_after hmono h hfits)
    ⟨related_empty, hissued, hfresh, fun _ _ => rfl⟩

end Sequences

section Run

attribute [local instance] Exact.platform

open Plain

/-- Two payments of ten units, and a detection of each with its hash. -/
def detections (first second : String) : List RepositoryStep :=
  [⟨.createWithIdempotencyKey (pending 7 "10" "order-1" 5000) (some "k"), env 5000 0, env 5000 0⟩,
    ⟨.createWithIdempotencyKey (pending 8 "10" "order-2" 5000) none, env 5000 0, env 5000 0⟩,
    ⟨.updateStatus 7 .detected (some first), env 6000 0, env 6001 0⟩,
    ⟨.updateStatus 8 .detected (some second), env 6000 0, env 6001 0⟩]

/-- The services make these calls. -/
theorem detections_issued (first second : String) :
    ∀ step ∈ detections first second, step.call.Issued := by
  simp only [detections, List.forall_mem_cons]
  exact ⟨⟨⟨_, rfl⟩, rfl⟩, ⟨⟨_, rfl⟩, rfl⟩, trivial, trivial, by simp⟩

/-- The columns can hold these payments. -/
theorem ten_fits_columns (id : Uuid) {reference : String} (hreference : hasNul reference = false) :
    (pending id "10" reference 5000).FitsColumns := by
  refine ⟨fun decimal hparsed => ?_, hreference, (by decide : hasNul "GDEST" = false), ?_⟩
  · have hten : Platform.decimalFromStr "10" = .ok ⟨10, 0, by decide, by decide⟩ := rfl
    cases hparsed.symm.trans hten
    norm_num [Decimal.value]
  · intro text htext
    cases htext
    decide

/-- The two repositories agree when the payments are given two hashes. -/
theorem stores_agree_iff_distinct :
    AtEveryCall RepositoryStep.Agrees (detections "tx" "ty") := by
  refine (stores_agree_iff Exact.timestamptz_mono (detections_issued "tx" "ty") (by decide)).mpr
    ⟨⟨ten_fits_columns 7 (by decide), .inr ?_⟩, ⟨ten_fits_columns 8 (by decide), .inr ?_⟩, ?_, ?_,
      trivial⟩
  · intro name hname
    cases hname
    exact ⟨by decide, rfl⟩
  · nofun
  · intro text htext
    cases htext
    exact ⟨by decide, fun _ => by decide⟩
  · intro text htext
    cases htext
    exact ⟨by decide, fun _ => by decide⟩

/-- The two repositories disagree when two payments are given one hash. -/
theorem shared_hash_disagrees : ∃ steps : List RepositoryStep,
    (∀ step ∈ steps, step.call.Issued) ∧
    (steps.filterMap fun step => step.call.created).Nodup ∧
    ¬ AtEveryCall RepositoryStep.Agrees steps := by
  refine ⟨detections "tx" "tx", detections_issued _ _, by decide, fun hagrees => ?_⟩
  -- The last call succeeds in memory and conflicts in the tables.
  exact hagrees.2.2.2.1

end Run

end StellarPay
