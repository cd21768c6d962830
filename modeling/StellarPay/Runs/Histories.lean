import StellarPay.Runs.Ordering
import StellarPay.Runs.Posted
import StellarPay.Runs.Sessions

/-!
# What the history of a payment tells

`list_payment_webhook_events` reads two stores, one after the other, while passes write both and
deliveries write one. An event that a client has been shown stays in the history, with what was
recorded of its delivery or more, and it is no rumour: the transition it announces had been
committed, so whatever the client is told of the payment afterwards has that transition behind it.
-/

namespace StellarPay

open Interleaving

open EventLaws (found)

/-- A record of an event, and one of the same event later on. -/
structure WebhookEventRecord.GoesOn (first second : WebhookEventRecord) : Prop where
  same : first.SameEvent second
  createdAt : second.createdAt = first.createdAt
  attempts : first.attempts.toInt ≤ second.attempts.toInt
  delivered : first.deliveredAt.isSome = true → second.deliveredAt.isSome = true

namespace WebhookEventRecord.GoesOn

variable {first second third : WebhookEventRecord}

theorem refl (record : WebhookEventRecord) : record.GoesOn record :=
  ⟨.refl record, rfl, Int.le_refl _, fun h => h⟩

theorem trans (h : first.GoesOn second) (h' : second.GoesOn third) : first.GoesOn third :=
  ⟨h.same.trans h'.same, h'.createdAt.trans h.createdAt, Int.le_trans h.attempts h'.attempts,
    fun hdelivered => h'.delivered (h.delivered hdelivered)⟩

end WebhookEventRecord.GoesOn

section Worlds

variable {σ ε : Type} [PaymentRepository σ] [WebhookEventRepository ε] [EventLaws ε]

/-- From one world to another every event stays in the history. -/
def HistoryGrows (before after : World σ ε) : Prop :=
  ∀ id record, found before.events id = some record →
    ∃ later, found after.events id = some later ∧ record.GoesOn later

omit [PaymentRepository σ] in
theorem HistoryGrows.refl (world : World σ ε) : HistoryGrows world world :=
  fun _ record hfound => ⟨record, hfound, .refl record⟩

omit [PaymentRepository σ] in
theorem HistoryGrows.trans {first second third : World σ ε} (h : HistoryGrows first second)
    (h' : HistoryGrows second third) : HistoryGrows first third := by
  intro id record hfound
  obtain ⟨later, hlater, hon⟩ := h id record hfound
  obtain ⟨last, hlast, hon'⟩ := h' id later hlater
  exact ⟨last, hlast, hon.trans hon'⟩

/-- No request that can count takes anything back of what a history says. -/
theorem answer_history_grows [DeliveryLaws ε] {env : Env} {request : Request} {world : World σ ε}
    (hfresh : FreshEvent env request world) (hcount : CanCount request world) :
    HistoryGrows world (answer env request world).2 := by
  intro id record hfound
  rcases answer_found_cases env request world id with
    hsame | ⟨_, _, _, _, rfl, rfl, -, -⟩ | ⟨_, -, -, hafter⟩ | ⟨_, rfl, -, hafter⟩
  · exact ⟨record, hsame.trans hfound, .refl record⟩
  · cases hfound.symm.trans hfresh
  · rw [hfound] at hafter
    exact ⟨_, hafter, ⟨rfl, rfl, rfl, rfl⟩, rfl, Int.le_refl _, fun _ => rfl⟩
  · rw [hfound] at hafter
    refine ⟨_, hafter, ⟨rfl, rfl, rfl, rfl⟩, rfl, ?_, fun h => h⟩
    have hsucc := to_int_succ (hcount record hfound)
    show record.attempts.toInt ≤ (record.attempts + 1).toInt
    omega

variable (σ ε) in
/-- The services, with the identifiers of new payments and of new events fresh. No event comes to
the end of its counter of attempts. -/
def historyRules [Platform] : Rules (machine σ ε) :=
  ⟨fun call => call.direct = false, fun env _ request world =>
    FreshId request world ∧ FreshEvent env request world ∧ CanCount request world⟩

instance [Platform] : DecidablePred (historyRules σ ε).admits :=
  fun call => inferInstanceAs (Decidable (call.direct = false))

instance [Platform] (env : Env) (span : Option Uuid) (request : Request) (world : World σ ε) :
    Decidable ((historyRules σ ε).permits env span request world) :=
  inferInstanceAs (Decidable (FreshId request world ∧ FreshEvent env request world ∧
    CanCount request world))

end Worlds

section Handler

variable {σ ε : Type} [PaymentRepository σ] [WebhookEventRepository ε] [Platform] {app : AppState}

/-- How `list_payment_webhook_events` returns: it looks for the payment, and then for its events. -/
inductive HistoryTrace (id : Uuid) (history : List (Event (api σ ε app))) :
    Except ApiError WebhookEventListResponse → Prop where
  | unread (error : RepositoryError) (find : Act (api σ ε app)) (hfind : .act find ∈ history)
      (hgot : find.Got (.findById id) (.error error)) :
      HistoryTrace id history (.error (.ofRepository error))
  | missing (find : Act (api σ ε app)) (hfind : .act find ∈ history)
      (hgot : find.Got (.findById id) (.ok none)) :
      HistoryTrace id history (.error (.ofPayment (.notFound id.hyphenated)))
  | unlisted (error : RepositoryError) (list : Act (api σ ε app)) (hlist : .act list ∈ history)
      (hgot : list.Got (.listForPayment id) (.error error)) :
      HistoryTrace id history (.error (.ofRepository error))
  | listed (find list : Act (api σ ε app)) (payment : Payment) (records : List WebhookEventRecord)
      (hfind : .act find ∈ history) (hpayment : find.Got (.findById id) (.ok (some payment)))
      (hlist : .act list ∈ history) (hrecords : list.Got (.listForPayment id) (.ok records)) :
      HistoryTrace id history (.ok ⟨records.map WebhookEventResponse.ofRecord⟩)

variable {rules : Rules (api σ ε app)} {thread : Nat} {history : List (Event (api σ ε app))}

/-- What `list_payment_webhook_events` does. -/
theorem history_trace (id : Uuid) :
    Local rules (fun _ => True) thread none (AppState.listPaymentWebhookEvents id)
      (fun result history => HistoryTrace id history result) history := by
  refine local_bind (local_got_bind fun find reply _ hfind => ⟨trivial, ?_⟩)
  have hmem : .act find ∈ history ++ [Event.act find] := by simp
  rcases reply with error | _ | payment
  · exact local_pure (local_pure (.unread error find hmem hfind))
  · exact local_pure (local_pure (.missing find hmem hfind))
  · refine local_pure (local_got_bind fun list reply _ hlist => ⟨trivial, ?_⟩)
    have hmem' : .act list ∈ history ++ [Event.act find] ++ [Event.act list] := by simp
    cases reply with
    | error error => exact local_pure (.unlisted error list hmem' hlist)
    | ok records =>
        exact local_pure (.listed find list payment records (List.mem_append_left _ hmem) hfind
          hmem' hlist)

/-- What an answered request has done, if it was for a history. -/
def HistoryDone : (call : ApiCall) → call.Result → List (Event (api σ ε app)) → Prop
  | .listPaymentWebhookEvents id, response, history => HistoryTrace id history response
  | _, _, _ => True

/-- An answered request for a history was answered in one of these ways. -/
theorem history_returned {world : World σ ε} {state : State (api σ ε app)}
    (hreach : Reachable rules world state) {id : Uuid}
    {response : Except ApiError WebhookEventListResponse}
    (hthread : state.threads[thread]? = some ⟨.listPaymentWebhookEvents id, .done response⟩) :
    HistoryTrace id (state.config.own thread) response := by
  have hcalls : ∀ call thread before, rules.admits call → True ∧
      Local rules (fun _ => True) thread none (call.body app) (HistoryDone call)
        [.start thread call before] := by
    intro call thread before _
    refine ⟨trivial, ?_⟩
    cases call with
    | listPaymentWebhookEvents id => exact history_trace id
    | _ => exact (local_any fun _ => trivial).mono fun _ _ _ => trivial
  have hholds := @Reachable.own_holds (api σ ε app) rules (fun _ => True) HistoryDone trivial hcalls
    world state hreach
  exact hholds.2 thread (.listPaymentWebhookEvents id) response hthread

end Handler

section Store

variable {σ ε : Type} [PaymentRepository σ] [WebhookEventRepository ε] {env : Env} {id : Uuid}
  {world : World σ ε}

/-- Looking for a payment, or for the events of one, changes nothing. -/
theorem find_quiet : (answer env (.findById id) world).2 = world :=
  on_payments_reading env _ world

theorem list_quiet : (answer env (.listForPayment id) world).2 = world := by
  simp only [answer, onEvents, attempt, reading]
  cases env.eventsFault <;> rfl

variable [EventLaws ε]

/-- A list of events is failed by the database, or holds the events found for the payment. -/
theorem list_answered (env : Env) (id : Uuid) (world : World σ ε) :
    (∃ message, (answer env (.listForPayment id) world).1 = .error (.database message)) ∨
      ∃ records, (answer env (.listForPayment id) world).1 = .ok records ∧
        WebhookEventRepository.listForPayment env.scan id world.events = .ok records ∧
        ∀ record, record ∈ records ↔
          found world.events record.id = some record ∧ record.paymentId = id := by
  obtain ⟨records, hlisted, hmem⟩ := @EventLaws.mem_list ε _ _ env.scan id world.events
  cases hfault : env.eventsFault with
  | some message =>
      left
      exact ⟨message, by simp [answer, onEvents, attempt, hfault]⟩
  | none =>
      right
      exact ⟨records, by simp [answer, onEvents, attempt, reading, hfault, hlisted], hlisted, hmem⟩

/-- A list of events that fails was failed by the database. -/
theorem list_failed {error : RepositoryError}
    (h : (answer env (.listForPayment id) world).1 = .error error) :
    ∃ message, error = .database message := by
  rcases list_answered env id world with
    ⟨message, hanswer⟩ | ⟨_, hanswer, -⟩
  · cases hanswer.symm.trans h
    exact ⟨message, rfl⟩
  · cases hanswer.symm.trans h

/-- The events that are listed are those found for the payment, each once and oldest first. -/
theorem list_records [DeliveryLaws ε] {records : List WebhookEventRecord}
    (h : (answer env (.listForPayment id) world).1 = .ok records) :
    (records.map WebhookEventRecord.id).Nodup ∧
      records.Pairwise (fun first second => first.createdAt ≤ second.createdAt) ∧
      ∀ record, record ∈ records ↔
        found world.events record.id = some record ∧ record.paymentId = id := by
  rcases list_answered env id world with
    ⟨_, hanswer⟩ | ⟨_, hanswer, hlisted, hmem⟩
  · cases hanswer.symm.trans h
  · cases hanswer.symm.trans h
    obtain ⟨hnodup, hordered⟩ := DeliveryLaws.list_ordered hlisted
    exact ⟨hnodup, hordered, hmem⟩

end Store

section Machine

variable {σ ε : Type} [PaymentRepository σ] [WebhookEventRepository ε] [Platform]
  [RepositoryLaws σ] [EventLaws ε] [DeliveryLaws ε] {rules : Rules (machine σ ε)}
  {world : World σ ε} {state : State (machine σ ε)}

/-- In every run over an empty event store, what an event announces had been committed. -/
theorem record_committed (hreach : Reachable rules world state)
    (hempty : ∀ id, found world.events id = none) {id : Uuid} {record : WebhookEventRecord}
    (hfound : found state.config.world.events id = some record) :
    ∃ commit ∈ state.config.trace, ∃ updated, committed commit = some updated ∧
      updated.id = record.paymentId ∧ record.eventType = updated.status.eventType ∧
      (record.payload.field "data").bind (Value.field "payment") = some updated.toJson := by
  obtain ⟨_, hstored⟩ := stored_of_found hreach hempty hfound
  obtain ⟨_, -, hread⟩ := hstored.read hreach
  obtain ⟨_, -, commit, updated, hposition, hcommitted, hid, htype, hpayload⟩ :=
    hread.committed hreach
  refine ⟨commit, List.mem_of_getElem? hposition, updated, hcommitted, hid, ?_, hpayload⟩
  rw [← htype, event_type_eq]

end Machine

namespace ApiCall

/-- The payment whose history a response shows, and the events of it. -/
def historyShown : (call : ApiCall) → call.Result → Option (Uuid × List WebhookEventResponse)
  | .listPaymentWebhookEvents id, .ok shown => some (id, shown.data)
  | _, _ => none

/-- The payment that a request is about, by its id. -/
def asksAbout : ApiCall → Option Uuid
  | .getPayment id | .getPaymentStatus id | .listPaymentWebhookEvents id => some id
  | _ => none

/-- The error that such a request is answered with. -/
def failure : (call : ApiCall) → call.Result → Option ApiError
  | .getPayment _, .error error | .getPaymentStatus _, .error error
  | .listPaymentWebhookEvents _, .error error => some error
  | _, _ => none

end ApiCall

/-- An event as it was shown, and as it is shown later on. -/
structure WebhookEventResponse.GoesOn (first second : WebhookEventResponse) : Prop where
  id : second.id = first.id
  paymentId : second.paymentId = first.paymentId
  eventType : second.eventType = first.eventType
  createdAt : second.createdAt = first.createdAt
  attempts : first.attempts.toInt ≤ second.attempts.toInt
  delivered : first.deliveredAt.isSome = true → second.deliveredAt.isSome = true

/-- What the history of a payment tells a client, and what it is told after it. -/
structure HistoryKept (id : Uuid) (events : List WebhookEventResponse) (call' : ApiCall)
    (response' : call'.Result) : Prop where
  /-- The events are those of the payment, each once and oldest first. -/
  owned : ∀ event ∈ events, event.paymentId = id
  once : (events.map WebhookEventResponse.id).Nodup
  ordered : events.Pairwise fun first second => first.createdAt ≤ second.createdAt
  /-- A later history shows every event again. -/
  shown : ∀ later, call'.historyShown response' = some (id, later) →
    ∀ event ∈ events, ∃ event' ∈ later, event.GoesOn event'
  /-- The transition that an event announces is behind every status that is told later. -/
  announced : ∀ event ∈ events, ∃ status : PaymentStatus, event.eventType = status.eventType ∧
    ∀ told ∈ call'.told response', told.1 = id → status.Reaches told.2
  /-- The payment is found, unless the server fails. -/
  found : call'.asksAbout = some id → ∀ error, call'.failure response' = some error →
    error.status = .internalServerError

section Api

variable {σ ε : Type} [PaymentRepository σ] [WebhookEventRepository ε] [Platform] {app : AppState}
  [RepositoryLaws σ] [EventLaws ε] {world : World σ ε} {outer : State (api σ ε app)}

omit [RepositoryLaws σ] in
/-- Such a run is one of the services. -/
theorem service_of_history
    (hreach : Reachable ((frontEnd σ ε app).rules (historyRules σ ε)) world outer) :
    Reachable ((frontEnd σ ε app).rules (serviceRules σ ε)) world outer := by
  have hadmits : ∀ call, ((frontEnd σ ε app).rules (historyRules σ ε)).admits call →
      ((frontEnd σ ε app).rules (serviceRules σ ε)).admits call := fun _ h => h
  have hpermits : ∀ env span request world,
      ((frontEnd σ ε app).rules (historyRules σ ε)).permits env span request world →
      ((frontEnd σ ε app).rules (serviceRules σ ε)).permits env span request world :=
    fun _ _ _ _ h => And.left h
  exact hreach.mono hadmits hpermits

omit [EventLaws ε] in
/-- In a run of the services every event of the API is one step in the life of every payment. -/
theorem api_step (hreach : Reachable ((frontEnd σ ε app).rules (serviceRules σ ε)) world outer)
    (id : Uuid) : ∀ event ∈ outer.config.trace,
      PaymentStep (stored event.before.payments id) (stored event.after.payments id) := by
  intro event hevent
  obtain ⟨inner, hinner, hshows⟩ := FrontEnd.exists_behind hreach
  rcases hshows.kept event hevent with hkept | ⟨act, rfl, hquiet, -⟩
  · have hstep := event_step hinner id _ hkept
    cases event with
    | start => exact hstep
    | act => exact hstep
  · show PaymentStep (stored act.before.payments id) (stored act.after.payments id)
    rw [show act.after = act.before from hquiet act.env act.before]
    exact .stay _

omit [EventLaws ε] in
/-- So it leads on. -/
theorem api_leads (hreach : Reachable ((frontEnd σ ε app).rules (serviceRules σ ε)) world outer) :
    ∀ event ∈ outer.config.trace, Leads event.before event.after := by
  intro event hevent id payment hstored hcoupled
  have hstep := api_step hreach id event hevent
  rw [hstored] at hstep
  exact hstep.leads hcoupled

omit [EventLaws ε] in
/-- If all payments are coupled at first, they are in every world that an event met. -/
theorem api_coupled (hreach : Reachable ((frontEnd σ ε app).rules (serviceRules σ ε)) world outer)
    (hworld : ∀ id, ∀ payment ∈ stored world.payments id, payment.Coupled) :
    ∀ event ∈ outer.config.trace, ∀ id, ∀ payment ∈ stored event.before.payments id,
      payment.Coupled :=
  hreach.linked.keeps_before
    (fun seen => ∀ id, ∀ payment ∈ stored seen.payments id, payment.Coupled)
    (fun event hevent hbefore id => (api_step hreach id event hevent).coupled (hbefore id)) hworld

omit [RepositoryLaws σ] in
/-- No event of such a run takes anything back of a history. -/
theorem api_history_grows [DeliveryLaws ε]
    (hreach : Reachable ((frontEnd σ ε app).rules (historyRules σ ε)) world outer) :
    ∀ event ∈ outer.config.trace, HistoryGrows event.before event.after := by
  intro event hevent
  cases event with
  | start => exact .refl _
  | act act =>
      obtain ⟨-, hfresh, hcount⟩ := hreach.permitted hevent
      exact answer_history_grows hfresh hcount

omit [EventLaws ε] in
/-- A status that is told was met, or left, by a request of the thread. -/
theorem told_met [KeyLaws σ] [ListingLaws σ] {rules : Rules (machine σ ε)} {thread : Nat}
    (hreach : Reachable ((frontEnd σ ε app).rules rules) world outer) {call : ApiCall}
    {response : call.Result} (ht : outer.threads[thread]? = some ⟨call, .done response⟩)
    {told : Uuid × PaymentStatus} (htold : told ∈ call.told response) :
    ∃ act payment, .act act ∈ outer.config.trace ∧ act.thread = thread ∧
      stored act.after.payments told.1 = some payment ∧ payment.status = told.2 := by
  obtain ⟨inner, hinner, hshows⟩ := FrontEnd.exists_behind hreach
  obtain ⟨result, ht', payment, hpayment, rfl⟩ := told_behind hshows ht htold
  obtain ⟨act, hact, hstored⟩ := shown_met hinner ht' hpayment
  obtain ⟨hmem, hthread⟩ := Config.mem_own.mp hact
  exact ⟨_, payment, hshows.outer_act hmem, hthread, hstored, rfl⟩

omit [RepositoryLaws σ] [EventLaws ε] in
/-- A response that shows a history has found the payment, and listed its events. -/
theorem history_listed {rules : Rules (api σ ε app)} {thread : Nat}
    (hreach : Reachable rules world outer) {call : ApiCall} {response : call.Result}
    (ht : outer.threads[thread]? = some ⟨call, .done response⟩) {id : Uuid}
    {events : List WebhookEventResponse} (hshown : call.historyShown response = some (id, events)) :
    ∃ find list payment records, .act find ∈ outer.config.own thread ∧
      .act list ∈ outer.config.own thread ∧ find.Got (.findById id) (.ok (some payment)) ∧
      list.Got (.listForPayment id) (.ok records) ∧
      events = records.map WebhookEventResponse.ofRecord := by
  cases call with
  | listPaymentWebhookEvents asked =>
      cases history_returned hreach ht with
      | unread | missing | unlisted => cases hshown
      | listed find list payment records hfind hpayment hlist hrecords =>
          cases hshown
          exact ⟨find, list, payment, records, hfind, hlist, hpayment, hrecords, rfl⟩
  | _ => cases hshown

omit [EventLaws ε] in
/-- What a read met is met by every request of a thread that follows, or what it leads to. -/
theorem read_leads (hreach : Reachable ((frontEnd σ ε app).rules (serviceRules σ ε)) world outer)
    (hworld : ∀ id, ∀ payment ∈ stored world.payments id, payment.Coupled) {first second : Nat}
    (hfollows : Interleaving.Follows outer first second) {read later : Act (api σ ε app)}
    (hread : .act read ∈ outer.config.own first) (hlater : .act later ∈ outer.config.own second)
    (hquiet : read.after = read.before) {id : Uuid} {payment : Payment}
    (hstored : stored read.before.payments id = some payment) :
    ∃ next, stored later.before.payments id = some next ∧ payment.LeadsTo next := by
  obtain ⟨hmem, rfl⟩ := Config.mem_own.mp hread
  obtain ⟨hmem', rfl⟩ := Config.mem_own.mp hlater
  have hleads := hreach.follows_relates Leads .refl .trans (api_leads hreach) hfollows hmem hmem'
  rw [show (Event.act read).after = read.before from hquiet] at hleads
  obtain ⟨next, hnext, -, hleads⟩ :=
    hleads id payment hstored (api_coupled hreach hworld _ hmem id payment hstored)
  exact ⟨next, hnext, hleads⟩

/-- A request about a payment that it can find fails only with the server. -/
theorem failure_internal {rules : Rules (machine σ ε)} {thread : Nat}
    (hreach : Reachable ((frontEnd σ ε app).rules rules) world outer) {call : ApiCall}
    {response : call.Result} (ht : outer.threads[thread]? = some ⟨call, .done response⟩)
    {id : Uuid} (hasks : call.asksAbout = some id) {error : ApiError}
    (hfailure : call.failure response = some error)
    (hstored : ∀ act, .act act ∈ outer.config.own thread → stored act.before.payments id ≠ none) :
    error.status = .internalServerError := by
  have hmissing : ∀ find : Act (api σ ε app), .act find ∈ outer.config.own thread →
      ¬ find.Got (.findById id) (.ok none) := by
    intro find hfind hgot
    rcases answer_find find.env id find.before with ⟨-, error, hfailed⟩ | hanswer
    · cases hfailed.symm.trans hgot.2
    · exact hstored find hfind (Except.ok.inj (hanswer.symm.trans hgot.2))
  have hread : call.asksFor = some id → call.refusal response = some error →
      error.status = .internalServerError := by
    intro hasks hrefusal
    obtain ⟨inner, hinner, hshows⟩ := FrontEnd.exists_behind hreach
    rcases asked_behind hshows ht hasks with ⟨_, -, -, hnone⟩ | ⟨failure, ht', hfailed⟩
    · cases hnone.symm.trans hrefusal
    cases hfailed.symm.trans hrefusal
    have htrace : ReadTrace id (inner.config.own thread) (.error failure) :=
      read_returned hinner ht'
    cases htrace with
    | failed error find hfind hgot =>
        obtain ⟨message, rfl⟩ := find_failed hgot.2
        rfl
    | missing find hfind hgot =>
        obtain ⟨hmem, hthread⟩ := Config.mem_own.mp hfind
        exact absurd hgot (hmissing _ (Config.mem_own.mpr ⟨hshows.outer_act hmem, hthread⟩))
  cases call with
  | getPayment asked =>
      refine hread hasks ?_
      cases response <;> exact hfailure
  | getPaymentStatus asked =>
      refine hread hasks ?_
      cases response <;> exact hfailure
  | listPaymentWebhookEvents asked =>
      cases hasks
      cases history_returned hreach ht with
      | unread error find hfind hgot =>
          cases hfailure
          obtain ⟨message, rfl⟩ := find_failed hgot.2
          rfl
      | missing find hfind hgot => exact absurd hgot (hmissing find hfind)
      | unlisted error list hlist hgot =>
          cases hfailure
          obtain ⟨message, rfl⟩ := list_failed hgot.2
          rfl
      | listed => cases hfailure
  | _ => cases hasks

variable [DeliveryLaws ε]

/-- The transition that a listed event announces is behind the payment as it was stored then. -/
theorem event_announced
    (hreach : Reachable ((frontEnd σ ε app).rules (serviceRules σ ε)) world outer)
    (hworld : ∀ id, ∀ payment ∈ stored world.payments id, payment.Coupled)
    (hempty : ∀ id, EventLaws.found world.events id = none) {list : Act (api σ ε app)}
    (hlist : .act list ∈ outer.config.trace) {id : Uuid} {record : WebhookEventRecord}
    (hfound : EventLaws.found list.before.events id = some record) :
    ∃ status : PaymentStatus, record.eventType = status.eventType ∧ ∃ met,
      stored list.before.payments record.paymentId = some met ∧ status.Reaches met.status := by
  obtain ⟨seen, hseen, hmetBy, -⟩ := hreach.met_by_act hlist
  obtain ⟨inner, hinner, hshows⟩ := FrontEnd.exists_behind hseen
  have hworldAt : inner.config.world = list.before := hshows.world.trans hmetBy
  rw [← hworldAt] at hfound ⊢
  obtain ⟨commit, hcommit, updated, hcommitted, hid, htype, -⟩ :=
    record_committed hinner hempty hfound
  have hleads := hinner.linked.relates_last Leads .refl .trans (event_leads hinner) hcommit
  have hstored := (committed_stored hcommitted).1
  obtain ⟨met, hmet, -, hlater⟩ := hleads updated.id updated hstored
    (coupled_after hinner hworld hcommit updated.id updated hstored)
  exact ⟨updated.status, htype, met, hid ▸ hmet, hlater.status⟩

end Api

section Backends

variable [Platform]

/-- On either backend, in every run of the services from empty stores, whatever else is called,
interleaved and fails: what the history of a payment has told a client is kept by every answer to a
request that the client sends afterwards, as long as no event comes to the end of its counter of
attempts, an `i32`. -/
theorem history_kept {backend : Backend} {app : AppState}
    {state : State (api backend.Payments backend.Events app)}
    (hreach : Reachable ((frontEnd backend.Payments backend.Events app).rules
      (historyRules backend.Payments backend.Events)) backend.empty state)
    {first second : Nat} (hfollows : Interleaving.Follows state first second) {call call' : ApiCall}
    {response : call.Result} {response' : call'.Result}
    (hfirst : state.threads[first]? = some ⟨call, .done response⟩)
    (hsecond : state.threads[second]? = some ⟨call', .done response'⟩) {id : Uuid}
    {events : List WebhookEventResponse} (hshown : call.historyShown response = some (id, events)) :
    HistoryKept id events call' response' := by
  have hservice := service_of_history hreach
  have hworld : ∀ id, ∀ payment ∈ stored backend.empty.payments id, payment.Coupled := by simp
  obtain ⟨find, list, payment, records, hfind, hlist, hpayment, hrecords, rfl⟩ :=
    history_listed hreach hfirst hshown
  obtain ⟨hnodup, hordered, hmem⟩ := list_records hrecords.2
  have hquiet : list.after = list.before := by
    rw [Act.after, hrecords.1]
    exact list_quiet
  have hrecord : ∀ event ∈ records.map WebhookEventResponse.ofRecord, ∃ record,
      event = .ofRecord record ∧ found list.before.events record.id = some record ∧
        record.paymentId = id := by
    intro event hevent
    obtain ⟨record, hrecord, rfl⟩ := List.mem_map.mp hevent
    exact ⟨record, rfl, (hmem record).mp hrecord⟩
  refine ⟨fun event hevent => ?_, ?_, ?_, fun later hlater event hevent => ?_,
    fun event hevent => ?_, fun hasks error hfailure => ?_⟩
  · obtain ⟨record, rfl, -, hid⟩ := hrecord event hevent
    exact hid
  · rw [List.map_map]
    exact hnodup
  · exact List.pairwise_map.mpr hordered
  · obtain ⟨record, rfl, hfound, hid⟩ := hrecord event hevent
    obtain ⟨-, list', -, records', -, hlist', -, hrecords', rfl⟩ :=
      history_listed hreach hsecond hlater
    obtain ⟨hlistMem, rfl⟩ := Config.mem_own.mp hlist
    obtain ⟨hlistMem', rfl⟩ := Config.mem_own.mp hlist'
    have hgrows := hreach.follows_relates HistoryGrows .refl .trans (api_history_grows hreach)
      hfollows hlistMem hlistMem'
    rw [show (Event.act list).after = list.before from hquiet] at hgrows
    obtain ⟨next, hnext, hon⟩ := hgrows record.id record hfound
    have hlisted : next ∈ records' := ((list_records hrecords'.2).2.2 next).mpr
      ⟨by rw [hon.same.id]; exact hnext, hon.same.paymentId.trans hid⟩
    exact ⟨_, List.mem_map_of_mem hlisted, hon.same.id, hon.same.paymentId, hon.same.eventType,
      hon.createdAt, hon.attempts, hon.delivered⟩
  · obtain ⟨record, rfl, hfound, rfl⟩ := hrecord event hevent
    obtain ⟨status, htype, met, hmet, hreaches⟩ := event_announced hservice hworld
      (fun id => backend.found_empty id) (Config.mem_of_own hlist) hfound
    refine ⟨status, htype, fun told htold hid => ?_⟩
    obtain ⟨act, payment, hact, hthread, hstored, hstatus⟩ := told_met hreach hsecond htold
    have hown : .act act ∈ state.config.own second := Config.mem_own.mpr ⟨hact, hthread⟩
    obtain ⟨next, hnext, hleads⟩ := read_leads hservice hworld hfollows hlist hown hquiet hmet
    -- The request itself may still have moved the payment.
    obtain ⟨last, hlast, -, hleads'⟩ := api_leads hservice _ hact _ next hnext
      (api_coupled hservice hworld _ hact _ next hnext)
    rw [hid] at hstored
    cases hlast.symm.trans hstored
    exact hstatus ▸ (hreaches.trans hleads.status).trans hleads'.status
  · refine failure_internal hreach hsecond hasks hfailure fun act hact hnone => ?_
    rcases answer_find find.env id find.before with ⟨-, error, hfailed⟩ | hanswer
    · cases hfailed.symm.trans hpayment.2
    · have hquietFind : find.after = find.before := by
        rw [Act.after, hpayment.1]
        exact find_quiet
      obtain ⟨next, hnext, -⟩ := read_leads hservice hworld hfollows hfind hact hquietFind
        (Except.ok.inj (hanswer.symm.trans hpayment.2))
      cases hnone.symm.trans hnext

end Backends

section Run

attribute [local instance] Plain.platform

open Plain

/-- A payment is created, detected and its notification stored. A client asks for the history before
and after a delivery that fails. -/
def historyRun : List (Choice (api Database EventTable plainApp)) :=
  askedAgain.take 9 ++ [.act 1 (env 6000 9), .act 1 (env 6000 9), .act 1 (env 6000 9),
    .act 1 (env 6000 9),
    .start (.listPaymentWebhookEvents 7), .act 2 (env 6500 8), .act 2 (env 6500 8),
    .start (.task (.deliverDue ⟨"https://shop.example/hook", "secret"⟩)), .act 3 (env 7000 8),
    .act 3 (env 7000 8), .act 3 { env 7000 8 with endpoint := .ok 500 }, .act 3 (env 8000 8),
    .act 3 (env 8000 8), .start (.listPaymentWebhookEvents 7), .act 4 (env 9000 8),
    .act 4 (env 9000 8)]

/-- The history that a thread has answered. -/
def historyAt (state : State (api Database EventTable plainApp)) (thread : Nat) :
    Option (Uuid × List WebhookEventResponse) :=
  match state.threads[thread]? with
  | some ⟨call, .done response⟩ => call.historyShown response
  | _ => none

/-- The thread has given that answer. -/
theorem history_at_eq {state : State (api Database EventTable plainApp)} {thread : Nat} {id : Uuid}
    {events : List WebhookEventResponse} (h : historyAt state thread = some (id, events)) :
    state.threads[thread]? = some ⟨.listPaymentWebhookEvents id, .done (.ok ⟨events⟩)⟩ := by
  unfold historyAt at h
  split at h
  · rename_i call response hthread
    cases call with
    | listPaymentWebhookEvents asked =>
        cases response with
        | error => cases h
        | ok shown =>
            cases h
            exact hthread
    | _ => cases h
  · cases h

/-- The second history of `historyRun` shows the event of the first, with the attempt that was made
in between. -/
theorem history_kept_attempt : ∃ shown later : List WebhookEventResponse,
    shown.map WebhookEventResponse.attempts = [0] ∧
    later.map WebhookEventResponse.attempts = [1] ∧
    HistoryKept 7 shown (.listPaymentWebhookEvents 7) (.ok ⟨later⟩) := by
  obtain ⟨state, hreach, htest⟩ := exists_reachable
    ((frontEnd Database EventTable plainApp).rules (historyRules Database EventTable)) historyRun
    Backend.postgres.empty (fun state => decide (Interleaving.Follows state 2 4) &&
      (historyAt state 2).any (fun shown =>
        shown.1 == 7 && shown.2.map WebhookEventResponse.attempts == [0]) &&
      (historyAt state 4).any (fun shown =>
        shown.1 == 7 && shown.2.map WebhookEventResponse.attempts == [1])) (by decide +kernel)
  simp only [Bool.and_eq_true, beq_iff_eq, decide_eq_true_eq, Option.any_eq_true] at htest
  obtain ⟨⟨hfollows, ⟨_, shown⟩, hshown, rfl, hnone⟩, ⟨_, later⟩, hlater, rfl, hone⟩ := htest
  exact ⟨shown, later, hnone, hone, @history_kept platform .postgres plainApp state hreach 2 4
    hfollows _ _ _ _ (history_at_eq hshown) (history_at_eq hlater) 7 shown rfl⟩

end Run

end StellarPay
