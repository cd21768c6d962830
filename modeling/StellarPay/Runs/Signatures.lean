import StellarPay.Runtime.Server
import StellarPay.Webhooks.Signer

/-!
# Signatures of deliveries

Every webhook is posted with a header from which a receiver who has the secret verifies the body.
The text after `sha256=` is accepted for the body that was sent, and no other text is.
-/

namespace StellarPay

open Interleaving

/-- The service that a call delivers for. -/
def ServerCall.deliverer : ServerCall → Option WebhookService
  | .service (.deliverDue webhooks) | .deliveryLoop webhooks _ => some webhooks
  | _ => none

variable [Platform]

/-- If the request posts a webhook, its signature header reads `sha256=` and a text that verifies
the body under `secret`. -/
def Request.Signed (secret : String) : Request → Prop
  | .post _ headers body => ∃ signature,
      headers.lookup signatureHeader = some ("sha256=" ++ signature) ∧
      verifySignature secret body signature = true
  | _ => True

/-- A delivery signs what it posts. -/
theorem signed_of_delivery {service : WebhookService} {request : Request}
    (h : request.OfDeliveryBy service) : request.Signed service.signingSecret := by
  cases request with
  | post url headers body =>
      obtain ⟨record, hpost⟩ := h
      cases hpost
      exact ⟨_, rfl, verify_signature_iff.mpr rfl⟩
  | _ => trivial

/-- Whatever is compared, only equal bytes are accepted. For every secret and payload the verified
signature is the produced one. `deliver_one` begins with a post, and whatever it is answered, it
posts only with a header whose signature verifies the body. -/
theorem signatures_verified :
    (∀ a b : List UInt8, constantTimeEq a b = true ↔ a = b) ∧
    (∀ (secret : String) (payload : List UInt8) (signature : String),
      verifySignature secret payload signature = true ↔
        asBytes signature = asBytes (signPayload secret payload)) ∧
    (∀ (service : WebhookService) (record : WebhookEventRecord),
      (∃ next, service.deliverOne record = ask (service.postOf record) >>= next) ∧
      (service.deliverOne record).Makes (Request.Signed service.signingSecret)) := by
  refine ⟨fun a b => constant_time_eq_iff, fun secret payload signature => ?_,
    fun service record => ⟨⟨_, rfl⟩, ?_⟩⟩
  · rw [verify_signature_iff, as_bytes_injective.eq_iff]
  · exact deliver_one_makes.mono fun _ => signed_of_delivery

/-- The loop delivers for its service. -/
theorem run_delivery_loop_makes {service : WebhookService} (passes : Nat) :
    (service.runDeliveryLoop passes).Makes (Request.OfDeliveryBy service) := by
  induction passes with
  | zero => exact Program.makes_pure _
  | succ passes ih => exact deliver_due_makes.bind fun _ => ih

/-- What the call posts is signed for the service it delivers for. -/
def ServerCall.Signs (call : ServerCall) (request : Request) : Prop :=
  request.isPost = true →
    ∃ webhooks, call.deliverer = some webhooks ∧ request.Signed webhooks.signingSecret

/-- Every call of the server signs what it posts. -/
theorem server_call_signs (call : ServerCall) : call.body.Makes call.Signs := by
  cases hdeliverer : call.deliverer with
  | none =>
      have hpass : call.isPass = false := by
        cases call with
        | service call => cases call <;> first | rfl | cases hdeliverer
        | _ => rfl
      have hloop : call.loopService = none := by
        cases call with
        | deliveryLoop => cases hdeliverer
        | _ => rfl
      refine (other_makes hpass hloop).mono fun request hdelivers hpost => ?_
      rw [Request.delivers_of_is_post hpost] at hdelivers
      cases hdelivers
  | some webhooks =>
      have hmakes : call.body.Makes (Request.OfDeliveryBy webhooks) := by
        cases call with
        | service call =>
            cases call with
            | deliverDue =>
                cases hdeliverer
                exact deliver_due_makes
            | _ => cases hdeliverer
        | enqueueEvent => cases hdeliverer
        | deliveryLoop own passes =>
            cases hdeliverer
            exact run_delivery_loop_makes passes
      exact hmakes.mono fun request h _ => ⟨webhooks, hdeliverer, signed_of_delivery h⟩

/-- In every run, whatever else the threads do, every webhook that is posted verifies under the
secret of the service that its thread delivers for. -/
theorem posts_signed {σ ε : Type} [PaymentRepository σ] [WebhookEventRepository ε]
    {rules : Rules (server σ ε)} {world : World σ ε} {state : State (server σ ε)}
    (hreach : Reachable rules world state) {act : Act (server σ ε)}
    (hact : .act act ∈ state.config.trace) (hpost : act.request.isPost = true) :
    ∃ t webhooks, state.threads[act.thread]? = some t ∧ t.call.deliverer = some webhooks ∧
      act.request.Signed webhooks.signingSecret := by
  obtain ⟨t, ht, -, hsigns, -⟩ :=
    hreach.acts_make ServerCall.Signs (fun call _ => server_call_signs call) act hact
  obtain ⟨webhooks, hdeliverer, hsigned⟩ := hsigns hpost
  exact ⟨t, webhooks, ht, hdeliverer, hsigned⟩

end StellarPay
