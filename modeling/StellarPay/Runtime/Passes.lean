import StellarPay.Interleaving.Alone
import StellarPay.Reconciliation.Worker

/-!
# Passes with any client

The worker holds its `StellarClient` as a trait object. Here the client is not the Horizon client
but answers whatever it likes, without an error, so that results about the worker do not depend on
how a client searches. A pass is also made to work through its payments in an order that is given.
-/

namespace StellarPay

open Interleaving

/-- What the outside decides at one request of a pass: beside the environment, what the client
answers. -/
structure Moment where
  env : Env
  found : Option StellarPayment
  transaction : StellarTransaction

section Requests

variable {σ ε : Type} [PaymentRepository σ] [WebhookEventRepository ε]

/-- The atomic effect of a request. -/
def answerAt (moment : Moment) : (request : Request) → World σ ε → Answer request × World σ ε
  | .findPayment _ _ _, world => (.ok moment.found, world)
  | .getTransaction _, world => (.ok moment.transaction, world)
  | request, world => answer moment.env request world

/-- Where the Horizon client gives the same answers, requests have their effect on the system. -/
theorem answer_at_eq {moment : Moment} {request : Request} (world : World σ ε)
    (hfind : ∀ destination memo since, request = .findPayment destination memo since →
      HorizonClient.findPayment moment.env.horizon destination memo since = .ok moment.found)
    (hget : ∀ hash, request = .getTransaction hash →
      HorizonClient.getTransaction moment.env.horizon hash = .ok moment.transaction) :
    answerAt moment request world = answer moment.env request world := by
  cases request with
  | findPayment destination memo since =>
      exact Prod.ext (hfind destination memo since rfl).symm rfl
  | getTransaction hash => exact Prod.ext (hget hash rfl).symm rfl
  | _ => rfl

end Requests

/-- A pass, or its loop over these payments. -/
inductive PassCall where
  | runOnce (worker : ReconciliationWorker)
  | processAll (worker : ReconciliationWorker) (payments : List Payment)

/-- The program of a pass. -/
def PassCall.body [Platform] : PassCall → Prog (Except WorkerError Unit)
  | .runOnce worker => worker.runOnce
  | .processAll worker payments => worker.processAll payments

section Machine

variable (σ ε : Type) [PaymentRepository σ] [WebhookEventRepository ε] [Platform]

/-- The machine of the passes. -/
abbrev passMachine : Machine where
  Span := Uuid
  Request := Request
  Answer := Answer
  Env := Moment
  World := World σ ε
  Call := PassCall
  Result _ := Except WorkerError Unit
  answer := answerAt
  body := PassCall.body

end Machine

/-- What the client answers, payment by payment. -/
structure Answers where
  found : Uuid → Option StellarPayment
  transaction : Uuid → StellarTransaction

/-- In the span of a payment the client gives the answers for it. -/
def Answers.GivenAt (answers : Answers) (moment : Moment) : Option Uuid → Prop
  | some id => moment.found = answers.found id ∧ moment.transaction = answers.transaction id
  | none => True

instance (answers : Answers) (moment : Moment) (span : Option Uuid) :
    Decidable (answers.GivenAt moment span) :=
  match span with
  | some _ => inferInstanceAs (Decidable (_ ∧ _))
  | none => .isTrue trivial

section Rules

variable {σ ε : Type} [PaymentRepository σ] [WebhookEventRepository ε]

/-- An event that is enqueued is stored. -/
def EnqueueWorks (env : Env) : Request → World σ ε → Bool
  | .enqueue now paymentId eventType payload, world =>
      (answer env (.enqueue now paymentId eventType payload) world).1.isOk
  | _, _ => true

variable [Platform]

/-- No store fails, and the client gives these answers. Nothing is said of the clock, of the order
of scans and of the recorder. -/
def faultFree (answers : Answers) : Rules (passMachine σ ε) :=
  ⟨fun _ => True, fun moment span request world =>
    moment.env.paymentsFault = none ∧ EnqueueWorks moment.env request world = true ∧
      answers.GivenAt moment span⟩

instance (answers : Answers) : DecidablePred (faultFree (σ := σ) (ε := ε) answers).admits :=
  fun _ => inferInstanceAs (Decidable True)

instance (answers : Answers) (moment : Moment) (span : Option Uuid) (request : Request)
    (world : World σ ε) :
    Decidable ((faultFree answers).permits moment span request world) :=
  inferInstanceAs (Decidable (_ ∧ _))

/-- The payment that a request moved, with its new status. -/
def movedBy (act : Act (passMachine σ ε)) : Option (Uuid × PaymentStatus) :=
  match act with
  | ⟨_, _, .guardedUpdate id next hash, moment, before⟩ =>
      match (answer moment.env (.guardedUpdate id next hash) before).1 with
      | .ok (some _) => some (id, next)
      | _ => none
  | _ => none

/-- The payment and the type of the event that a request stored. -/
def notifiedBy (act : Act (passMachine σ ε)) : Option (Uuid × String) :=
  match act with
  | ⟨_, _, .enqueue now paymentId eventType payload, moment, before⟩ =>
      match (answer moment.env (.enqueue now paymentId eventType payload) before).1 with
      | .ok _ => some (paymentId, eventType)
      | .error _ => none
  | _ => none

/-- What the clock showed to a request that asked for the time for this payment. -/
def clockFor (id : Uuid) (act : Act (passMachine σ ε)) : Option DateTime :=
  match act with
  | ⟨_, some span, .utcNow, moment, _⟩ => if span = id then some moment.env.now else none
  | _ => none

/-- What the clock showed when it was first read for this payment. -/
def readingFor (id : Uuid) (acts : List (Act (passMachine σ ε))) : Option DateTime :=
  acts.findSome? (clockFor id)

end Rules

end StellarPay
