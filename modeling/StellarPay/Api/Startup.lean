import StellarPay.Api.Handlers
import StellarPay.Interleaving.Scripts

/-!
# The server process

`crates/api/src/startup.rs`: `run_server` spawns `run_loop` and `run_delivery_loop` and answers
requests beside them. Each loop is one task, which begins a pass when the one before it has ended.
-/

namespace StellarPay

open Interleaving

/-- `ReconciliationWorker::run_loop`, as far as a number of passes. -/
def ReconciliationWorker.runLoop [Platform] (worker : ReconciliationWorker) : Nat → Prog Unit
  | 0 => pure ()
  | passes + 1 => do
      -- The error of a pass is logged, and the loop goes on.
      let _ ← worker.runOnce
      worker.runLoop passes

/-- What the process runs. -/
inductive ProcessCall where
  | request (call : ApiCall)
  | runLoop (worker : ReconciliationWorker) (passes : Nat)
  | runDeliveryLoop (webhooks : WebhookService) (passes : Nat)

namespace ProcessCall

/-- The type of the result of a task. -/
@[reducible]
def Result : ProcessCall → Type
  | .request call => call.Result
  | .runLoop _ _ | .runDeliveryLoop _ _ => Unit

/-- The pass of a loop. -/
def pass : ProcessCall → Option Call
  | .request _ => none
  | .runLoop worker _ => some (.runOnce worker)
  | .runDeliveryLoop webhooks _ => some (.deliverDue webhooks)

variable [Platform]

/-- The program of a task. -/
def body (state : AppState) : (call : ProcessCall) → Prog call.Result
  | .request call => call.body state
  | .runLoop worker passes => worker.runLoop passes
  | .runDeliveryLoop webhooks passes => webhooks.runDeliveryLoop passes

end ProcessCall

section Machine

variable (σ ε : Type) [PaymentRepository σ] [WebhookEventRepository ε] [Platform]

/-- A loop over a pass. -/
def loopScript (state : AppState) (pass : Call) : Nat → Script (api σ ε state) Unit
  | 0 => .done ()
  | passes + 1 => .call (.task pass) fun _ => loopScript state pass passes

/-- How a task is written in requests of the API and in passes. -/
def ProcessCall.script (state : AppState) :
    (call : ProcessCall) → Script (api σ ε state) call.Result
  | .request call => .call call .done
  | .runLoop worker passes => loopScript σ ε state (.runOnce worker) passes
  | .runDeliveryLoop webhooks passes => loopScript σ ε state (.deliverDue webhooks) passes

/-- The loop of the worker runs its passes. -/
theorem run_loop_eq (state : AppState) (worker : ReconciliationWorker) (passes : Nat) :
    worker.runLoop passes = (loopScript σ ε state (.runOnce worker) passes).program := by
  induction passes with
  | zero => rfl
  | succ passes ih =>
      rw [ReconciliationWorker.runLoop, ih]
      rfl

/-- So does the loop of the deliveries. -/
theorem run_delivery_loop_eq (state : AppState) (webhooks : WebhookService) (passes : Nat) :
    webhooks.runDeliveryLoop passes =
      (loopScript σ ε state (.deliverDue webhooks) passes).program := by
  induction passes with
  | zero => rfl
  | succ passes ih =>
      rw [WebhookService.runDeliveryLoop, ih]
      rfl

variable {σ ε} in
/-- A loop runs nothing but its pass. -/
theorem loop_calls {state : AppState} {pass : Call} {passes : Nat} {call : ApiCall}
    (h : (loopScript σ ε state pass passes).Calls call) : call = .task pass := by
  induction passes with
  | zero => exact h.elim
  | succ passes ih =>
      rcases h with rfl | ⟨_, h⟩
      · rfl
      · exact ih h

/-- The tasks of the process over the machine of the API. -/
def process (state : AppState) : Tasks (api σ ε state) where
  Call := ProcessCall
  Result := ProcessCall.Result
  body := ProcessCall.body state
  script := ProcessCall.script σ ε state
  body_eq call := by
    cases call with
    | request call => exact (Program.bind_done (call.body state)).symm
    | runLoop worker passes => exact run_loop_eq σ ε state worker passes
    | runDeliveryLoop webhooks passes => exact run_delivery_loop_eq σ ε state webhooks passes

end Machine

end StellarPay
