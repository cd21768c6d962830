import StellarPay.Interleaving.Own
import StellarPay.Interleaving.Trail
import StellarPay.Runs.Retries

/-!
# What a delivery asks for

A pass of deliveries, or a loop of them, asks for the following by itself, whatever the others do
and whatever it is answered: a look at the clock, a fetch at that time, and for each event of the
batch the post, perhaps a look at the clock, and the record of the outcome. So every event of a
batch is posted and marked before the next fetch, and no outcome is recorded but that of a post.
-/

namespace StellarPay

open Interleaving

/-- The event whose outcome a request records. -/
def Request.outcomeOf : Request → Option Uuid
  | .markDelivered id _ | .markFailed id _ => some id
  | _ => none

/-- A request that records an outcome is one of a delivery. -/
theorem delivers_of_outcome {request : Request} {id : Uuid} (h : request.outcomeOf = some id) :
    request.delivers = true := by
  cases request <;> first | rfl | cases h

/-- The service whose events a call delivers, in one pass or in a loop. -/
def ServerCall.sender : ServerCall → Option WebhookService
  | .service (.deliverDue webhooks) | .deliveryLoop webhooks _ => some webhooks
  | _ => none

section Stages

variable (σ ε : Type) [PaymentRepository σ] [WebhookEventRepository ε] [Platform]

/-- Where a delivery stands. -/
inductive SendStage where
  /-- The rest of the batch is to be sent, and when it is empty a new pass may begin. -/
  | sending (rest : List WebhookEventRecord)
  | looked (clock : Act (server σ ε))
  | posted (post : Act (server σ ε)) (record : WebhookEventRecord)
      (rest : List WebhookEventRecord)
  /-- It has looked at the clock after the post. -/
  | timed (post clock : Act (server σ ε)) (record : WebhookEventRecord)
      (rest : List WebhookEventRecord)

end Stages

section Deliveries

variable {σ ε : Type} [PaymentRepository σ] [WebhookEventRepository ε] [Platform]

namespace SendStage

/-- The events that are still to be posted. -/
def unsent : SendStage σ ε → List WebhookEventRecord
  | .sending rest | .posted _ _ rest | .timed _ _ _ rest => rest
  | .looked _ => []

/-- The events whose outcome is still to be recorded. -/
def unmarked : SendStage σ ε → List WebhookEventRecord
  | .sending rest => rest
  | .posted _ record rest | .timed _ _ record rest => record :: rest
  | .looked _ => []

/-- The post whose outcome is still to be recorded, and the event it sent. -/
def current : SendStage σ ε → Option (Act (server σ ε) × WebhookEventRecord)
  | .posted post record _ | .timed post _ record _ => some (post, record)
  | .sending _ | .looked _ => none

/-- The last look at the clock, as long as it counts. -/
def clock : SendStage σ ε → Option (Act (server σ ε))
  | .looked clock | .timed _ clock _ _ => some clock
  | .sending _ | .posted _ _ _ => none

end SendStage

/-- The event is posted as it was fetched. -/
def Posts (webhooks : WebhookService) (act : Act (server σ ε)) (record : WebhookEventRecord) :
    Prop :=
  act.span = some record.id ∧ act.request = webhooks.postOf record

/-- The request records what became of the event. -/
def Marks (act : Act (server σ ε)) (record : WebhookEventRecord) : Prop :=
  act.request.outcomeOf = some record.id

/-- What one request of a delivery does to its stage. -/
inductive Advance (webhooks : WebhookService) :
    SendStage σ ε → Act (server σ ε) → SendStage σ ε → Prop where
  | looked {act : Act (server σ ε)} (hrequest : act.request = .utcNow) :
      Advance webhooks (.sending []) act (.looked act)
  | fetched {clock act : Act (server σ ε)} {batch : List WebhookEventRecord}
      (hgot : act.Got (.fetchDue clock.env.now fetchBatchSize) (.ok batch)) :
      Advance webhooks (.looked clock) act (.sending batch)
  /-- The error is logged, and the pass is over. -/
  | unfetched {clock act : Act (server σ ε)} {error : RepositoryError}
      (hgot : act.Got (.fetchDue clock.env.now fetchBatchSize) (.error error)) :
      Advance webhooks (.looked clock) act (.sending [])
  | posted {record : WebhookEventRecord} {rest : List WebhookEventRecord}
      {act : Act (server σ ε)} (hposts : Posts webhooks act record) :
      Advance webhooks (.sending (record :: rest)) act (.posted act record rest)
  | timed {record : WebhookEventRecord} {rest : List WebhookEventRecord}
      {post act : Act (server σ ε)} (hrequest : act.request = .utcNow) :
      Advance webhooks (.posted post record rest) act (.timed post act record rest)
  | delivered {record : WebhookEventRecord} {rest : List WebhookEventRecord}
      {post clock act : Act (server σ ε)}
      (hsuccess : WebhookService.isSuccess post.env.endpoint = true)
      (hrequest : act.request = .markDelivered record.id clock.env.now) :
      Advance webhooks (.timed post clock record rest) act (.sending rest)
  | retried {record : WebhookEventRecord} {rest : List WebhookEventRecord}
      {post clock act : Act (server σ ε)} {delay : Duration}
      (hfailure : WebhookService.isSuccess post.env.endpoint = false)
      (hbackoff : nextBackoff record.attemptsMade = some delay)
      (hrequest : act.request =
        .markFailed record.id (some (clock.env.now + toChronoDuration delay))) :
      Advance webhooks (.timed post clock record rest) act (.sending rest)
  | exhausted {record : WebhookEventRecord} {rest : List WebhookEventRecord}
      {post act : Act (server σ ε)}
      (hfailure : WebhookService.isSuccess post.env.endpoint = false)
      (hbackoff : nextBackoff record.attemptsMade = none)
      (hrequest : act.request = .markFailed record.id none) :
      Advance webhooks (.posted post record rest) act (.sending rest)

variable {webhooks : WebhookService} {stage next first last : SendStage σ ε}
  {act : Act (server σ ε)} {acts : List (Act (server σ ε))} {record : WebhookEventRecord}
  {rest : List WebhookEventRecord} {history : List (Event (server σ ε))}

section Histories

/-- The thread delivers, and its requests have brought it to this stage. -/
def SendsAt (webhooks : WebhookService) (stage : SendStage σ ε)
    (history : List (Event (server σ ε))) : Prop :=
  ∃ thread call before acts, call.sender = some webhooks ∧
    history = .start thread call before :: acts.map .act ∧
      Trail (Advance webhooks) (.sending []) acts stage

/-- If the history is one of a delivery, it has come to some stage. -/
def SendsOn (history : List (Event (server σ ε))) : Prop :=
  ∀ thread call before acts webhooks, history = .start thread call before :: acts.map .act →
    call.sender = some webhooks → ∃ stage, Trail (Advance webhooks) (.sending []) acts stage

/-- A delivery that has come to a stage goes on. -/
theorem SendsAt.on (h : SendsAt webhooks stage history) : SendsOn history := by
  obtain ⟨thread, call, before, acts, hsender, rfl, htrail⟩ := h
  intro thread' call' before' acts' webhooks' heq hsender'
  obtain ⟨hstart, hacts⟩ := List.cons.inj heq
  cases hstart
  cases hsender.symm.trans hsender'
  have hinjective : Function.Injective (Event.act : Act (server σ ε) → Event (server σ ε)) :=
    fun _ _ h => Event.act.inj h
  rw [← hinjective.list_map hacts]
  exact ⟨stage, htrail⟩

/-- One more request. -/
theorem SendsAt.snoc (h : SendsAt webhooks stage history)
    (hadvance : Advance webhooks stage act next) :
    SendsAt webhooks next (history ++ [.act act]) := by
  obtain ⟨thread, call, before, acts, hsender, rfl, htrail⟩ := h
  exact ⟨thread, call, before, acts ++ [act], hsender, by simp, htrail.snoc hadvance⟩

variable {rules : Rules (server σ ε)} {thread : Nat} {outer : Option Uuid} {α : Type}

/-- A request that advances the delivery, then the rest of the program. -/
theorem advance_request_bind {request : Request} {program : Answer request → Prog α}
    {post : α → List (Event (server σ ε)) → Prop} (h : SendsAt webhooks stage history)
    (hprogram : ∀ env world, ∃ next,
      Advance webhooks stage ⟨thread, outer, request, env, world⟩ next ∧
      ∀ later, SendsAt webhooks next later →
        Local rules SendsOn thread outer (program ((server σ ε).answer env request world).1)
          post later) :
    Local rules SendsOn thread outer (.request request >>= program) post history := by
  refine local_request_bind fun env world _ => ?_
  obtain ⟨next, hadvance, hrest⟩ := hprogram env world
  have hnext := h.snoc hadvance
  exact ⟨hnext.on, hrest _ hnext⟩

/-- `deliver_one` sends the next event of the batch. -/
theorem deliver_one_sends (h : SendsAt webhooks (.sending (record :: rest)) history) :
    Local rules SendsOn thread (some record.id) (webhooks.deliverOne record)
      (fun _ later => SendsAt webhooks (.sending rest) later) history := by
  refine advance_request_bind h fun post world =>
    ⟨_, .posted ⟨rfl, rfl⟩, fun history hposted => ?_⟩
  dsimp only
  split
  · rename_i hsuccess
    refine advance_request_bind hposted fun clock world =>
      ⟨_, .timed rfl, fun history htimed => ?_⟩
    exact advance_request_bind htimed fun mark world =>
      ⟨_, .delivered hsuccess rfl, fun history hmarked => local_pure hmarked⟩
  · rename_i hfailure
    have hfailed : WebhookService.isSuccess post.endpoint = false := Bool.eq_false_iff.mpr hfailure
    split
    · rename_i hbackoff
      exact advance_request_bind hposted fun mark world =>
        ⟨_, .exhausted hfailed hbackoff rfl, fun history hmarked => local_pure hmarked⟩
    · rename_i delay hbackoff
      refine advance_request_bind hposted fun clock world =>
        ⟨_, .timed rfl, fun history htimed => ?_⟩
      exact advance_request_bind htimed fun mark world =>
        ⟨_, .retried hfailed hbackoff rfl, fun history hmarked => local_pure hmarked⟩

/-- `deliver_due` sends its batch. -/
theorem deliver_all_sends {batch : List WebhookEventRecord}
    (h : SendsAt webhooks (.sending batch) history) :
    Local rules SendsOn thread none (webhooks.deliverAll batch)
      (fun _ later => SendsAt webhooks (.sending []) later) history := by
  induction batch generalizing history with
  | nil => exact local_pure h
  | cons record rest ih =>
      refine local_bind (local_within ?_)
      exact (deliver_one_sends h).mono fun _ later hsent => ih hsent

/-- One pass. -/
theorem deliver_due_sends (h : SendsAt webhooks (.sending []) history) :
    Local rules SendsOn thread none webhooks.deliverDue
      (fun _ later => SendsAt webhooks (.sending []) later) history := by
  refine advance_request_bind h fun clock seen => ⟨_, .looked rfl, fun history hlooked => ?_⟩
  refine advance_request_bind hlooked fun fetch world => ?_
  cases hreply : ((server σ ε).answer fetch (.fetchDue ((server σ ε).answer clock .utcNow
    seen).1 fetchBatchSize) world).1 with
  | error error =>
      exact ⟨_, .unfetched ⟨rfl, hreply⟩, fun history hfailed => local_pure hfailed⟩
  | ok batch =>
      refine ⟨_, .fetched ⟨rfl, hreply⟩, fun history hfetched => ?_⟩
      exact local_bind ((deliver_all_sends hfetched).mono fun _ later hsent =>
        local_pure hsent)

/-- Pass after pass. -/
theorem run_delivery_loop_sends (passes : Nat)
    (h : SendsAt webhooks (.sending []) history) :
    Local rules SendsOn thread none (webhooks.runDeliveryLoop passes)
      (fun _ _ => True) history := by
  induction passes generalizing history with
  | zero => exact local_pure trivial
  | succ passes ih =>
      exact local_bind ((deliver_due_sends h).mono fun _ later hsent => ih hsent)

/-- In every run the requests of a delivery have brought it to some stage. -/
theorem sends_on {world : World σ ε} {state : State (server σ ε)}
    (hreach : Reachable rules world state) (thread : Nat) :
    SendsOn (state.config.own thread) := by
  have hnil : SendsOn ([] : List (Event (server σ ε))) := by
    intro thread call before acts webhooks heq
    cases heq
  refine (hreach.own_holds (fun _ _ _ => True) hnil fun call thread before _ => ?_).1 thread
  cases hsender : call.sender with
  | none =>
      have hother : ∀ more, SendsOn ([.start thread call before] ++ more) := by
        intro more thread' call' before' acts webhooks heq hsender'
        cases (List.cons.inj heq).1
        cases hsender.symm.trans hsender'
      exact ⟨hother [], local_any hother⟩
  | some webhooks =>
      have hstart : SendsAt webhooks (.sending []) [.start thread call before] :=
        ⟨thread, call, before, [], hsender, rfl, .nil⟩
      refine ⟨hstart.on, ?_⟩
      cases call with
      | enqueueEvent => cases hsender
      | deliveryLoop own passes =>
          cases hsender
          exact run_delivery_loop_sends passes hstart
      | service call =>
          cases call with
          | deliverDue own =>
              cases hsender
              exact (deliver_due_sends hstart).mono fun _ _ _ => trivial
          | _ => cases hsender

end Histories

section Passes

/-- A request posts the next event of the batch, or leaves what there is to post. -/
theorem Advance.sent (h : Advance webhooks stage act next) :
    ∀ record ∈ stage.unsent, Posts webhooks act record ∨ record ∈ next.unsent := by
  intro record hrecord
  cases h with
  | posted hposts =>
      rcases List.mem_cons.mp hrecord with rfl | hrest
      · exact .inl hposts
      · exact .inr hrest
  | looked | fetched | unfetched => cases hrecord
  | timed | delivered | retried | exhausted => exact .inr hrecord

/-- A request records the outcome of an event, or leaves what there is to record. -/
theorem Advance.marked (h : Advance webhooks stage act next) :
    ∀ record ∈ stage.unmarked, Marks act record ∨ record ∈ next.unmarked := by
  intro record hrecord
  cases h with
  | looked | fetched | unfetched => cases hrecord
  | posted | timed => exact .inr hrecord
  | delivered _ hrequest | retried _ _ hrequest | exhausted _ _ hrequest =>
      rcases List.mem_cons.mp hrecord with rfl | hrest
      · exact .inl (by rw [Marks, hrequest]; rfl)
      · exact .inr hrest

/-- The request sends the event with this id. -/
def Sends (act : Act (server σ ε)) (id : Uuid) : Prop :=
  act.span = some id ∧ act.request.isPost = true

/-- The outcome that a request records is that of the post at hand. -/
theorem Advance.of_outcome (h : Advance webhooks stage act next) {id : Uuid}
    (hid : act.request.outcomeOf = some id) :
    ∃ post record, stage.current = some (post, record) ∧ record.id = id := by
  cases h with
  | looked hrequest | timed hrequest =>
      rw [hrequest] at hid
      cases hid
  | fetched hgot | unfetched hgot =>
      rw [hgot.1] at hid
      cases hid
  | posted hposts =>
      rw [hposts.2] at hid
      cases hid
  | delivered _ hrequest | retried _ _ hrequest | exhausted _ _ hrequest =>
      rw [hrequest] at hid
      cases hid
      exact ⟨_, _, rfl, rfl⟩

/-- The post at hand was made since, if none was at hand at first. -/
theorem current_of_trail (h : Trail (Advance webhooks) first acts last)
    (hfirst : first.current = none) {post : Act (server σ ε)}
    (hcurrent : last.current = some (post, record)) :
    post ∈ acts ∧ Posts webhooks post record := by
  induction h generalizing post record with
  | nil => cases hfirst.symm.trans hcurrent
  | snoc h hadvance ih =>
      cases hadvance with
      | posted hposts =>
          cases hcurrent
          exact ⟨List.mem_append_right _ (List.mem_singleton.mpr rfl), hposts⟩
      | timed =>
          obtain ⟨hpost, hposts⟩ := ih hcurrent
          exact ⟨List.mem_append_left _ hpost, hposts⟩
      | looked | fetched | unfetched | delivered | retried | exhausted => cases hcurrent

end Passes

end Deliveries

end StellarPay
