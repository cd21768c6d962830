import StellarPay.Core.Rfc3339
import StellarPay.Runs.Posted
import StellarPay.Webhooks.Wire

/-!
# Webhooks as they are read

A receiver reads the body of a webhook with the types of `crates/core`: the envelope, and from its
data the payment. What it gets is the very record that a transition has committed, although the
document was kept in a column that does not keep the order of its fields, and may come from a
version that writes more of them.
-/

namespace StellarPay

open Interleaving

section Reading

variable [Platform] [Http.WireFormat]

/-- Read with the core types, the document tells of the transition that produced `updated`. -/
def TellsOf (updated : Payment) (document : Value) : Prop :=
  ∃ envelope, WebhookEnvelope.deserialize document = some envelope ∧
    envelope.eventType = updated.status.eventType ∧
    (envelope.data.field "payment").bind Payment.deserialize = some updated

variable [WireLaws]

/-- Whatever is added to it, a notification tells of its transition. -/
theorem notification_tells {id : Uuid} {now : DateTime} {updated : Payment} {document : Value}
    (h : (notification id now updated).toJson.Extended WireName document) :
    TellsOf updated document := by
  obtain ⟨data, hdata, henvelope⟩ := reads_envelope (notification id now updated) h
  refine ⟨_, henvelope, event_type_eq updated, ?_⟩
  obtain ⟨payment, hfield, hpayment⟩ := hdata.field_of "payment" updated.toJson (by decide)
    (by simp [valuesOf])
  show (data.field "payment").bind Payment.deserialize = some updated
  rw [hfield]
  exact reads_payment updated payment hpayment

end Reading

section Backends

variable [Platform] [Http.WireFormat] [WireLaws]

/-- On either backend, whatever runs and fails: the body of every webhook that is posted is the text
of a document from which its receiver reads, with the types of the crate itself and whatever order
the fields have come to be in and whatever was added to them, the record of a payment exactly as a
transition has committed it before, under the type of this transition. -/
theorem posts_readable {backend : Backend} {state : State backend.machine}
    (hreach : Reachable (serviceRules backend.Payments backend.Events) backend.empty state)
    {before after : List (Event backend.machine)} {post : Act backend.machine}
    (htrace : state.config.trace = before ++ .act post :: after)
    (hpost : post.request.isPost = true) :
    ∃ url headers document updated,
      post.request = .post url headers (Platform.jsonToVec document) ∧
      (∃ event ∈ before, committed event = some updated) ∧
      ∀ received, document.Extended WireName received → TellsOf updated received := by
  obtain ⟨_, service, updated, -, -, hinforms⟩ :=
    post_informs hreach (fun id => backend.found_empty id) htrace hpost
  obtain ⟨id, now, headers, hbody⟩ := hinforms.body
  exact ⟨_, headers, _, updated, hbody, hinforms.commit, fun _ => notification_tells⟩

end Backends

section Run

/-- The plain platform, with instants as `chrono` writes them. -/
@[reducible]
def wirePlatform : Platform :=
  { Plain.platform with dateTimeToJson := Rfc3339.text }

/-- The reader of such instants. -/
@[reducible]
def wireFormat : Http.WireFormat :=
  ⟨Rfc3339.read⟩

attribute [local instance] wirePlatform wireFormat

instance : WireLaws :=
  ⟨Rfc3339.read_text⟩

open Plain

/-- A payment is created and detected, and a delivery posts the notification. -/
def readRun : List (Choice Backend.postgres.machine) :=
  [.start (create "10" "order-1" none), .act 0 (env 5000 7), .act 0 (env 5000 7),
    .act 0 (env 5000 7), .start (.runOnce worker), .act 1 (env 6000 8), .act 1 (env 6000 8),
    .act 1 (envWith 6000 8 [native "tx" "GDEST" "10.0" 5500] "m"), .act 1 (env 6000 8),
    .act 1 (env 6000 9), .act 1 (env 6000 9), .act 1 (env 6000 9), .act 1 (env 6000 9),
    .start (.deliverDue ⟨"https://shop.example/hook", "secret"⟩), .act 2 (env 7000 10),
    .act 2 (env 7000 10), .act 2 (env 7000 10)]

/-- The event is a post. -/
def postsWebhook : Event Backend.postgres.machine → Bool
  | .act act => act.request.isPost
  | .start _ _ _ => false

/-- If the event commits a transition, it is the detection of the payment. -/
def detectsOnly (id : Uuid) (event : Event Backend.postgres.machine) : Bool :=
  (committed event).all fun updated => updated.id == id && updated.status == .detected

/-- From the post of `readRun` the detected payment is read. -/
theorem posts_readable_detection : ∃ (post : Act Backend.postgres.machine) (url : String)
    (headers : List (String × String)) (document : Value) (updated : Payment),
    post.request = .post url headers (Platform.jsonToVec document) ∧ updated.id = 7 ∧
    updated.status = .detected ∧
    ∀ received, document.Extended WireName received → TellsOf updated received := by
  obtain ⟨state, hreach, htest⟩ := exists_reachable
    (serviceRules Backend.postgres.Payments Backend.postgres.Events) readRun
    Backend.postgres.empty (fun state =>
      state.config.trace.any postsWebhook && state.config.trace.all (detectsOnly 7))
    (by decide +kernel)
  simp only [Bool.and_eq_true, List.any_eq_true, List.all_eq_true] at htest
  obtain ⟨⟨event, hevent, hpost⟩, honly⟩ := htest
  cases event with
  | start => cases hpost
  | act post =>
      obtain ⟨before, after, htrace⟩ := List.append_of_mem hevent
      obtain ⟨url, headers, document, updated, hrequest, ⟨commit, hcommit, hcommitted⟩, htells⟩ :=
        @posts_readable wirePlatform wireFormat _ .postgres state hreach before after post htrace
          hpost
      have hdetects := honly commit (by simp [htrace, hcommit])
      rw [detectsOnly, hcommitted] at hdetects
      simp only [Option.all_some, Bool.and_eq_true, beq_iff_eq] at hdetects
      exact ⟨post, url, headers, document, updated, hrequest, hdetects.1, hdetects.2, htells⟩

end Run

end StellarPay
