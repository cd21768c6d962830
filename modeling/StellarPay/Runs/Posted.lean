import StellarPay.Runs.Enqueueing
import StellarPay.Runs.Reads
import StellarPay.Runs.Signatures

/-!
# What a receiver of webhooks can rely on

From the commit of a transition to the post of its webhook three writers are at work: the pass that
commits and enqueues, the event store, and the delivery that fetches and posts. What is posted in
the end was committed before, it says what that transition made of the payment, and whoever reads
the payment afterwards finds it so or further on.
-/

namespace StellarPay

open Interleaving EventLaws

section Program

variable [Platform]

/-- Whatever a call enqueues is the envelope of an event. -/
theorem body_encloses (call : Call) : call.body.Makes Request.Encloses := by
  cases call with
  | runOnce worker =>
      refine Program.makes_request_bind _ _ |>.mpr ⟨trivial, fun pending => ?_⟩
      cases pending with
      | error error => exact Program.makes_pure _
      | ok pending => exact process_all_makes_of fun _ _ => Request.OfProcess.encloses
  | _ =>
      refine (body_makes _).mono fun request hallowed => ?_
      cases request with
      | enqueue => exact False.elim hallowed
      | _ => trivial

/-- If the request is a post, it sends an event of this batch. -/
def Request.Sends (service : WebhookService) (batch : List WebhookEventRecord)
    (request : Request) : Prop :=
  request.isPost = true → ∃ record ∈ batch, request = service.postOf record

/-- The loop of a delivery posts the events of its batch. -/
theorem deliver_all_sends_batch {service : WebhookService} {batch : List WebhookEventRecord} :
    (service.deliverAll batch).Makes (Request.Sends service batch) := by
  induction batch with
  | nil => exact Program.makes_pure _
  | cons record rest ih =>
      have hone : (service.deliverOne record).Makes (Request.Sends service (record :: rest)) := by
        have hquiet : ∀ {request : Request}, request.isPost = false →
            request.Sends service (record :: rest) := fun hnot hpost => by simp [hnot] at hpost
        refine Program.makes_request_bind _ _ |>.mpr ⟨?_, fun result => ?_⟩
        · exact fun _ => ⟨record, List.mem_cons_self, rfl⟩
        · dsimp only
          split
          · exact ⟨hquiet rfl, fun _ => ⟨hquiet rfl, fun _ => trivial⟩⟩
          · split
            · exact ⟨hquiet rfl, fun _ => trivial⟩
            · exact ⟨hquiet rfl, fun _ => ⟨hquiet rfl, fun _ => trivial⟩⟩
      refine (Program.makes_within.mpr hone).bind fun _ => ih.mono fun request hsends hpost => ?_
      obtain ⟨sent, hsent, hrequest⟩ := hsends hpost
      exact ⟨sent, List.mem_cons_of_mem _ hsent, hrequest⟩

end Program

section Fetched

variable {σ ε : Type} [PaymentRepository σ] [WebhookEventRepository ε] [Platform]
  {rules : Rules (machine σ ε)} {thread : Nat} {service : WebhookService}
  {history : List (Event (machine σ ε))}

/-- The post sends an event that has been fetched before. -/
def SendsFetched (service : WebhookService) (earlier : List (Event (machine σ ε)))
    (post : Act (machine σ ε)) : Prop :=
  ∃ fetch now batch, .act fetch ∈ earlier ∧ fetch.Got (.fetchDue now fetchBatchSize) (.ok batch) ∧
    ∃ record ∈ batch, post.request = service.postOf record

/-- If the thread delivers, it posts what it has fetched. -/
def PostHistory (history : List (Event (machine σ ε))) : Prop :=
  ∀ thread service before events, history = .start thread (.deliverDue service) before :: events →
    ∀ earlier post later, history = earlier ++ .act post :: later →
      post.request.isPost = true → SendsFetched service earlier post

/-- A thread that posts nothing posts what it has fetched. -/
theorem post_history_of_quiet
    (h : ∀ post, .act post ∈ history → post.request.isPost = false) : PostHistory history := by
  intro _ _ _ _ _ earlier post later hhistory hpost
  rw [h post (by simp [hhistory])] at hpost
  cases hpost

/-- A delivery posts what it has fetched. -/
theorem deliver_due_posts {before : World σ ε} :
    Local rules PostHistory thread none service.deliverDue (fun _ _ => True)
      [.start thread (.deliverDue service) before] := by
  refine local_got_bind fun clock now _ hclock => ⟨post_history_of_quiet fun post hmem => ?_, ?_⟩
  · obtain rfl : post = clock := by simpa using hmem
    rw [hclock.1]
    rfl
  refine local_got_bind fun fetch reply _ hfetch => ?_
  have hquiet : ∀ post, .act post ∈ [Event.start (M := machine σ ε) thread (.deliverDue service)
      before, .act clock, .act fetch] → post.request.isPost = false := by
    intro post hmem
    have hcases : post = clock ∨ post = fetch := by simpa using hmem
    rcases hcases with rfl | rfl
    · rw [hclock.1]
      rfl
    · rw [hfetch.1]
      rfl
  refine ⟨post_history_of_quiet hquiet, ?_⟩
  cases reply with
  | error error => exact local_pure trivial
  | ok batch =>
      have hacts : ∀ acts : List (Act (machine σ ε)),
          (∀ act ∈ acts, act.request.Sends service batch) →
          PostHistory ([.start thread (.deliverDue service) before, .act clock, .act fetch] ++
            acts.map .act) := by
        rintro acts hacts _ _ _ _ ⟨⟩ earlier post later hhistory hpost
        rcases split_extended hhistory with ⟨rest, hold⟩ | ⟨middle, rfl, hnew⟩
        · rw [hquiet post (hold ▸ List.mem_append_right _ List.mem_cons_self)] at hpost
          cases hpost
        · obtain ⟨act, hact, heq⟩ := List.mem_map.mp hnew
          cases heq
          exact ⟨fetch, now, batch, by simp, hfetch, hacts post hact hpost⟩
      exact local_bind ((local_acts deliver_all_sends_batch (fun _ _ _ hsends => hsends) hacts).mono
        fun _ _ _ => local_pure trivial)

/-- In every run, deliveries post what they have fetched. -/
theorem post_history {world : World σ ε} {state : State (machine σ ε)}
    (hreach : Reachable rules world state) (thread : Nat) :
    PostHistory (state.config.own thread) := by
  refine (@Reachable.own_holds (machine σ ε) rules PostHistory (fun _ _ _ => True)
    (fun _ _ _ _ => nofun) (fun call thread before _ => ?_) world state hreach).1 thread
  have hstart : PostHistory [Event.start (M := machine σ ε) thread call before] :=
    post_history_of_quiet (by simp)
  refine ⟨hstart, ?_⟩
  cases call with
  | deliverDue service => exact deliver_due_posts
  | _ =>
      refine (local_any fun more => ?_).mono fun _ _ _ => trivial
      rintro _ _ _ _ ⟨⟩

/-- A post sends an event that its thread has fetched before. -/
theorem post_sends_fetched {world : World σ ε} {state : State (machine σ ε)}
    (hreach : Reachable rules world state) {before after : List (Event (machine σ ε))}
    {post : Act (machine σ ε)} (htrace : state.config.trace = before ++ .act post :: after)
    (hpost : post.request.isPost = true) :
    ∃ t service, state.threads[post.thread]? = some t ∧ t.call = .deliverDue service ∧
      SendsFetched service before post := by
  have hmem : .act post ∈ state.config.trace := by simp [htrace]
  obtain ⟨t, ht, -, hallows, -⟩ := act_allowed hreach hmem
  obtain ⟨service, hcall⟩ : ∃ service, t.call = .deliverDue service := by
    cases hcall : t.call with
    | deliverDue service => exact ⟨service, rfl⟩
    | _ =>
        exfalso
        rw [hcall] at hallows
        revert hpost hallows
        cases post.request <;> simp [Request.isPost, Call.Allows, Request.OfCreation,
          Request.OfUpdate, Request.OfReading, Request.OfPass]
  obtain ⟨start, acts, hown⟩ := hreach.own_eq ht
  rw [hcall] at hown
  obtain ⟨fetch, now, batch, hfetch, hsends⟩ := post_history hreach post.thread post.thread service
    start _ hown _ post _ (Config.own_split htrace) hpost
  exact ⟨t, service, ht, hcall, fetch, now, batch, (List.mem_filter.mp hfetch).1, hsends⟩

end Fetched

section Receiver

variable {σ ε : Type} [PaymentRepository σ] [WebhookEventRepository ε] [Platform]

/-- The envelope that tells of the transition that produced `updated`. -/
def notification (id : Uuid) (now : DateTime) (updated : Payment) : WebhookEnvelope :=
  ⟨id, (eventFor updated).eventType, now, .object [("payment", updated.toJson)]⟩

/-- The post tells of the transition that produced `updated`, which had been committed, and verifies
under the secret of the service. -/
structure Informs (service : WebhookService) (before : List (Event (machine σ ε)))
    (post : Act (machine σ ε)) (updated : Payment) : Prop where
  commit : ∃ event ∈ before, committed event = some updated
  body : ∃ id now headers, post.request =
    .post service.webhookUrl headers (Platform.jsonToVec (notification id now updated).toJson)
  signed : post.request.Signed service.signingSecret

variable [RepositoryLaws σ] [EventLaws ε] [DeliveryLaws ε] {rules : Rules (machine σ ε)}
  {world : World σ ε} {state : State (machine σ ε)}

omit [RepositoryLaws σ] in
/-- In every run over an empty event store, what a record says was enqueued. -/
theorem record_enqueued (hreach : Reachable rules world state)
    (hempty : ∀ id, found world.events id = none) :
    ∀ id record, found state.config.world.events id = some record →
      ∃ enqueue now, .act enqueue ∈ state.config.trace ∧
        enqueue.request = .enqueue now record.paymentId record.eventType record.payload := by
  induction hreach with
  | init =>
      intro id record hfound
      cases (hempty id).symm.trans hfound
  | @step state _ hbefore hstep ih =>
      -- A record that the step leaves as it says was enqueued before.
      have hold : ∀ {event : Event (machine σ ε)} {id : Uuid} {old : WebhookEventRecord},
          found state.config.world.events id = some old →
          ∃ enqueue now, .act enqueue ∈ state.config.trace ++ [event] ∧
            enqueue.request = .enqueue now old.paymentId old.eventType old.payload := by
        intro event id old hfound
        obtain ⟨enqueue, now, henqueue, hrequest⟩ := ih id old hfound
        exact ⟨enqueue, now, List.mem_append_left _ henqueue, hrequest⟩
      cases hstep with
      | start call hadmits => exact fun id record hfound => hold hfound
      | act thread call span request next env hthread hpermits =>
          intro id record hfound
          rcases answer_found_cases env request state.config.world id with
            hsame | ⟨_, _, _, _, hrequest, -, -, hnew⟩ | ⟨_, -, -, hafter⟩ | ⟨_, -, -, hafter⟩
          · exact hold (hsame.symm.trans hfound)
          · cases hnew.symm.trans hfound
            exact ⟨_, _, state.config.act_mem .., hrequest⟩
          · obtain ⟨old, hstored, rfl⟩ := Option.map_eq_some_iff.mp (hafter.symm.trans hfound)
            obtain ⟨enqueue, now, henqueue, hrequest⟩ := hold hstored
            exact ⟨enqueue, now, henqueue, hrequest⟩
          · obtain ⟨old, hstored, rfl⟩ := Option.map_eq_some_iff.mp (hafter.symm.trans hfound)
            obtain ⟨enqueue, now, henqueue, hrequest⟩ := hold hstored
            exact ⟨enqueue, now, henqueue, hrequest⟩

omit [EventLaws ε] [DeliveryLaws ε] in
/-- What was enqueued is the notification of a transition that had been committed. -/
theorem enqueued_informs (hreach : Reachable rules world state)
    {before after : List (Event (machine σ ε))} {enqueue : Act (machine σ ε)}
    (htrace : state.config.trace = before ++ .act enqueue :: after) {now : DateTime}
    {paymentId : Uuid} {eventType : String} {payload : Value}
    (hrequest : enqueue.request = .enqueue now paymentId eventType payload) :
    ∃ updated, (∃ event ∈ before, committed event = some updated) ∧
      ∃ id now, payload = (notification id now updated).toJson := by
  have hmem : .act enqueue ∈ state.config.trace := by simp [htrace]
  have hattempted : attempted (.act enqueue) = some (paymentId, eventType, payload) := by
    obtain ⟨thread, span, request, env, world⟩ := enqueue
    subst hrequest
    rfl
  obtain ⟨commit, hcommit, updated, hcommitted, -, htype, hpayment⟩ :=
    announced_committed hreach htrace hattempted
  obtain ⟨-, -, -, hencloses, -⟩ := hreach.acts_make (fun _ => Request.Encloses)
    (fun call _ => body_encloses call) enqueue hmem
  rw [hrequest] at hencloses
  obtain ⟨event, id, now, -, rfl, rfl⟩ := hencloses
  refine ⟨updated, ⟨commit, hcommit, hcommitted⟩, id, now, ?_⟩
  have hsame : event.payment.toJson = updated.toJson := Option.some.inj hpayment
  rw [notification, htype, hsame]

/-- In every run over an empty event store, a post informs of a transition. -/
theorem post_informs (hreach : Reachable rules world state)
    (hempty : ∀ id, found world.events id = none) {before after : List (Event (machine σ ε))}
    {post : Act (machine σ ε)} (htrace : state.config.trace = before ++ .act post :: after)
    (hpost : post.request.isPost = true) :
    ∃ t service updated, state.threads[post.thread]? = some t ∧ t.call = .deliverDue service ∧
      Informs service before post updated := by
  obtain ⟨t, service, ht, hcall, fetch, now, batch, hfetch, hgot, record, hrecord, hrequest⟩ :=
    post_sends_fetched hreach htrace hpost
  obtain ⟨earlier, between, rfl⟩ := List.append_of_mem hfetch
  have hsplit : state.config.trace =
      earlier ++ .act fetch :: (between ++ .act post :: after) := by
    rw [htrace, List.append_assoc, List.cons_append]
  -- What was fetched had been stored, and what had been stored had been enqueued.
  obtain ⟨seen, _, hseen, -, hconfig, -⟩ := hreach.at_event hsplit
  have hstored := ((answer_fetch_due hgot.2).2 record hrecord).1
  obtain ⟨enqueue, _, henqueue, hpayload⟩ := record_enqueued hseen hempty record.id record (by
    rw [hconfig]
    exact hstored)
  rw [hconfig] at henqueue
  obtain ⟨first, second, rfl⟩ := List.append_of_mem henqueue
  rw [List.append_assoc, List.cons_append] at hsplit
  obtain ⟨updated, ⟨commit, hcommit, hcommitted⟩, id, now, hnotification⟩ :=
    enqueued_informs hreach hsplit hpayload
  refine ⟨t, service, updated, ht, hcall, ⟨commit, by simp [hcommit], hcommitted⟩, ?_, ?_⟩
  · exact ⟨id, now, _, by rw [hrequest, WebhookService.postOf, hnotification]⟩
  · exact signed_of_delivery (by rw [hrequest]; exact ⟨record, rfl⟩)

end Receiver

section Backends

variable [Platform]

/-- On either backend, whatever runs and fails, whoever receives a webhook can rely on it: it was
posted by a delivery, verifies under the secret of that delivery, and says what a transition that
had been committed made of the payment. Every request from then on meets that payment as it was
said to be, or further on. -/
theorem posts_truthful {backend : Backend} {state : State backend.machine}
    (hreach : Reachable (serviceRules backend.Payments backend.Events) backend.empty state)
    {before after : List (Event backend.machine)} {post : Act backend.machine}
    (htrace : state.config.trace = before ++ .act post :: after)
    (hpost : post.request.isPost = true) :
    ∃ t service updated, state.threads[post.thread]? = some t ∧ t.call = .deliverDue service ∧
      Informs service before post updated ∧ ∀ event ∈ .act post :: after, ∃ met,
        stored event.before.payments updated.id = some met ∧ updated.LeadsTo met := by
  obtain ⟨t, service, updated, ht, hcall, hinforms⟩ :=
    post_informs hreach (fun id => backend.found_empty id) htrace hpost
  refine ⟨t, service, updated, ht, hcall, hinforms, fun event hevent => ?_⟩
  obtain ⟨commit, hcommit, hcommitted⟩ := hinforms.commit
  have hpairs := hreach.linked.pairwise_events Leads Leads.refl Leads.trans (event_leads hreach)
  rw [htrace] at hpairs
  have hleads := (List.pairwise_append.mp hpairs).2.2 commit hcommit event hevent
  have hmem : commit ∈ state.config.trace := by simp [htrace, hcommit]
  have hstored := (committed_stored hcommitted).1
  obtain ⟨met, hmet, -, hlater⟩ := hleads updated.id updated hstored
    (coupled_after hreach (by simp) hmem updated.id updated hstored)
  exact ⟨met, hmet, hlater⟩

end Backends

section Run

attribute [local instance] Plain.platform

open Plain

/-- A payment is created and detected, and a delivery posts the notification. -/
def postedRun : List (Choice Backend.postgres.machine) :=
  notifiedRun ++ [.start (.deliverDue ⟨"https://shop.example/hook", "secret"⟩),
    .act 2 (env 7000 10), .act 2 (env 7000 10), .act 2 (env 7000 10)]

/-- The event is a post. -/
def isPostEvent : Event Backend.postgres.machine → Bool
  | .act act => act.request.isPost
  | .start _ _ _ => false

/-- The post of `postedRun` informs of a transition. -/
theorem posts_truthful_detection : ∃ (state : State Backend.postgres.machine)
    (service : WebhookService) (before after : List (Event Backend.postgres.machine))
    (post : Act Backend.postgres.machine) (updated : Payment),
    state.config.trace = before ++ .act post :: after ∧ Informs service before post updated ∧
    ∃ met, stored post.before.payments updated.id = some met ∧ updated.LeadsTo met := by
  obtain ⟨state, hreach, htest⟩ := exists_reachable
    (serviceRules Backend.postgres.Payments Backend.postgres.Events) postedRun
    Backend.postgres.empty (fun state => state.config.trace.any isPostEvent) (by decide +kernel)
  obtain ⟨event, hevent, hpost⟩ := List.any_eq_true.mp htest
  cases event with
  | start => cases hpost
  | act post =>
      obtain ⟨before, after, htrace⟩ := List.append_of_mem hevent
      obtain ⟨_, service, updated, -, -, hinforms, hmet⟩ :=
        @posts_truthful platform .postgres state hreach before after post htrace hpost
      exact ⟨state, service, before, after, post, updated, htrace, hinforms,
        hmet _ List.mem_cons_self⟩

end Run

end StellarPay
