import StellarPay.Api.Startup
import StellarPay.Runs.Sessions

/-!
# The loops of the server

The other modules take a pass as a call of its own. A server runs two loops instead, and this is why
the one stands for the other: behind every run of the process there is a run in which each pass is
started by itself, with the same requests, the same worlds and the same answers to its clients.
-/

namespace StellarPay

open Interleaving

section Process

variable {σ ε : Type} [PaymentRepository σ] [WebhookEventRepository ε] [Platform]

/-- Behind every run of the server process there is a run without loops. It makes the same requests
in the same worlds, gives each client the same response, keeps the order of tasks that follow each
other, and runs each loop as passes that follow each other. -/
theorem loops_unfold {app : AppState} {rules : Rules (machine σ ε)} {world : World σ ε}
    {outer : State (process σ ε app).machine}
    (hreach : Reachable ((process σ ε app).rules ((frontEnd σ ε app).rules rules)) world outer) :
    ∃ (inner : State (api σ ε app)) (owners : List Nat),
      Reachable ((frontEnd σ ε app).rules rules) world inner ∧
      inner.config.world = outer.config.world ∧
      inner.config.trace.filterMap (Tasks.threadRequest owners) =
        outer.config.trace.filterMap Tasks.taskRequest ∧
      (∀ task call response, outer.threads[task]? = some ⟨.request call, .done response⟩ →
        ∃ thread : Nat, owners[thread]? = some task ∧
          inner.threads[thread]? = some ⟨call, .done response⟩) ∧
      (∀ first second, Follows outer first second → ∀ thread thread' : Nat,
        owners[thread]? = some first → owners[thread']? = some second →
        Follows inner thread thread') ∧
      ∀ task t pass, outer.threads[task]? = some t → t.call.pass = some pass →
        ∀ (thread : Nat) t', owners[thread]? = some task → inner.threads[thread]? = some t' →
          t'.call = .task pass ∧ ∀ later : Nat, thread < later → owners[later]? = some task →
            Follows inner thread later := by
  obtain ⟨inner, owners, hinner, hunfolds⟩ := Tasks.exists_unfolded hreach
  refine ⟨inner, owners, hinner, hunfolds.world, hunfolds.requests, ?_, ?_, ?_⟩
  · intro task call response ht
    obtain ⟨thread, made, howner, hthread, rfl⟩ := hunfolds.returned ht rfl
    exact ⟨thread, howner, hthread⟩
  · exact fun first second hfollows thread thread' howner howner' =>
      hunfolds.follows_of hfollows howner howner'
  · intro task t pass ht hpass thread t' howner ht'
    refine ⟨?_, fun later hlt howner' => hunfolds.follows hlt (howner.trans howner'.symm)⟩
    have hcalls := hunfolds.belongs thread task t t' howner ht ht'
    obtain ⟨call, program⟩ := t
    cases call with
    | request => cases hpass
    | runLoop worker passes | runDeliveryLoop webhooks passes =>
        cases hpass
        exact loop_calls hcalls

end Process

section Schedules

variable {σ ε : Type} [PaymentRepository σ] [WebhookEventRepository ε] [Platform] {app : AppState}
  (rules : Rules (api σ ε app))

/-- A loop may run if its pass may, and an empty one always. -/
theorem loop_admitted_iff {pass : Call} {passes : Nat} :
    (loopScript σ ε app pass passes).Admitted rules ↔ passes = 0 ∨ rules.admits (.task pass) := by
  induction passes with
  | zero => exact ⟨fun _ => .inl rfl, fun _ => trivial⟩
  | succ passes ih =>
      constructor
      · exact fun h => .inr h.1
      · rintro (hzero | hadmits)
        · cases hzero
        · exact ⟨hadmits, fun _ => ih.mpr (.inr hadmits)⟩

/-- A loop may run if its pass may, so this can be decided. -/
def decideLoop [decides : DecidablePred rules.admits] (pass : Call) (passes : Nat) :
    Decidable ((loopScript σ ε app pass passes).Admitted rules) :=
  haveI : Decidable (rules.admits (.task pass)) := decides (.task pass)
  decidable_of_iff _ (loop_admitted_iff rules).symm

instance [decides : DecidablePred rules.admits] :
    DecidablePred ((process σ ε app).rules rules).admits
  | .request call =>
      haveI : Decidable (rules.admits call) := decides call
      decidable_of_iff (rules.admits call) ⟨fun h => ⟨h, fun _ => trivial⟩, And.left⟩
  | .runLoop worker passes => decideLoop rules (.runOnce worker) passes
  | .runDeliveryLoop webhooks passes => decideLoop rules (.deliverDue webhooks) passes

instance [∀ env span request world, Decidable (rules.permits env span request world)] (env : Env)
    (span : Option Uuid) (request : Request) (world : World σ ε) :
    Decidable (((process σ ε app).rules rules).permits env span request world) :=
  inferInstanceAs (Decidable (rules.permits env span request world))

end Schedules

section Run

attribute [local instance] Plain.platform

open Plain

/-- A client creates a payment, the loop detects it in one pass and confirms it in the next, and the
client asks for it. -/
def loopedTwice : List (Choice (process Database EventTable plainApp).machine) :=
  [.start (.request (.createPayment ⟨[]⟩ (requestOf "10" "order-1"))), .act 0 (env 5000 7),
    .act 0 (env 5000 7), .act 0 (env 5000 7), .start (.runLoop worker 2), .act 1 (env 6000 8),
    .act 1 (env 6000 8), .act 1 (envWith 6000 8 [native "tx" "GDEST" "10.0" 5500] "m"),
    .act 1 (env 6000 8), .act 1 (env 6000 9), .act 1 (env 6000 9), .act 1 (env 6000 9),
    .act 1 (env 6000 9), .act 1 (env 7000 10), .act 1 (envWith 7000 10 [] "m"),
    .act 1 (env 7000 10), .act 1 (env 7000 10), .act 1 (env 7000 11), .act 1 (env 7000 11),
    .act 1 (env 7000 11), .act 1 (env 7000 11),
    .start (.request (.getPayment 7)), .act 2 (env 9000 12)]

/-- What a task has answered to `get_payment`, if it has shown the payment. -/
def shownBy (state : State (process Database EventTable plainApp).machine) (task : Nat) :
    Option (Uuid × PaymentResponse) :=
  match state.threads[task]? with
  | some ⟨.request (.getPayment id), .done (.ok response)⟩ => some (id, response)
  | _ => none

/-- The task has given that answer. -/
theorem shown_by_eq {state : State (process Database EventTable plainApp).machine} {task : Nat}
    {id : Uuid} {response : PaymentResponse} (h : shownBy state task = some (id, response)) :
    state.threads[task]? = some ⟨.request (.getPayment id), .done (.ok response)⟩ := by
  unfold shownBy at h
  split at h
  · rename_i hthread
    cases h
    exact hthread
  · cases h

/-- Behind `loopedTwice` there is a run of passes in which the client sees the payment confirmed. -/
theorem loops_unfold_twice : ∃ (inner : State (api Database EventTable plainApp)) (thread : Nat)
    (response : PaymentResponse),
    Reachable ((frontEnd Database EventTable plainApp).rules (serviceRules Database EventTable))
      Backend.postgres.empty inner ∧
    inner.threads[thread]? = some ⟨.getPayment 7, .done (.ok response)⟩ ∧
    response.status = .confirmed := by
  obtain ⟨state, hreach, htest⟩ := exists_reachable ((process Database EventTable plainApp).rules
    ((frontEnd Database EventTable plainApp).rules (serviceRules Database EventTable))) loopedTwice
    Backend.postgres.empty (fun state => (shownBy state 2).any fun (id, response) =>
      id == 7 && response.status == .confirmed) (by decide +kernel)
  obtain ⟨⟨id, response⟩, hshown, htest⟩ := (Option.any_eq_true _ _).mp htest
  simp only [Bool.and_eq_true, beq_iff_eq] at htest
  obtain ⟨rfl, hstatus⟩ := htest
  obtain ⟨inner, owners, hinner, -, -, hanswers, -⟩ :=
    @loops_unfold Database EventTable _ _ platform plainApp (serviceRules Database EventTable)
      Backend.postgres.empty state hreach
  obtain ⟨thread, -, hthread⟩ := hanswers 2 (.getPayment 7) (.ok response) (shown_by_eq hshown)
  exact ⟨inner, thread, response, hinner, hthread, hstatus⟩

end Run

end StellarPay
