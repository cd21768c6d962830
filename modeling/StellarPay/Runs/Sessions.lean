import StellarPay.Runs.Keys
import StellarPay.Runs.Reads

/-!
# What a client of the API is told

A client that sends its requests one after the other, while any number of other clients, passes and
writers are at work. What it has been told of a payment holds from then on: later responses show the
same payment with the same terms, its status where it was or further on, and never that the payment
does not exist.
-/

namespace StellarPay

open Interleaving

/-- The payment that a response represents. -/
def PaymentResponse.payment (shown : PaymentResponse) : Payment where
  id := shown.id
  reference := shown.reference
  amount := shown.amount
  asset := shown.asset
  destination := shown.destination
  memo := shown.memo
  status := shown.status
  stellarTxHash := shown.stellarTxHash
  createdAt := shown.createdAt
  updatedAt := shown.updatedAt

/-- A payment that is represented is the one that was represented. -/
@[simp]
theorem PaymentResponse.of_payment_payment (payment : Payment) :
    (PaymentResponse.ofPayment payment).payment = payment :=
  rfl

namespace ApiCall

/-- The representations of payments in a response. -/
def shown : (call : ApiCall) → call.Result → List PaymentResponse
  | .createPayment _ _, .ok (_, shown) => [shown]
  | .getPayment _, .ok shown => [shown]
  | .listPayments _, .ok listed => listed.data
  | _, _ => []

/-- The payments a response names, each with its status. -/
def told : (call : ApiCall) → call.Result → List (Uuid × PaymentStatus)
  | .createPayment _ _, .ok (_, shown) => [(shown.id, shown.status)]
  | .getPayment _, .ok shown => [(shown.id, shown.status)]
  | .getPaymentStatus _, .ok told => [(told.id, told.status)]
  | .listPayments _, .ok listed => listed.data.map fun shown => (shown.id, shown.status)
  | _, _ => []

/-- The payment that a request asks for, by its id. -/
def asksFor : ApiCall → Option Uuid
  | .getPayment id | .getPaymentStatus id => some id
  | _ => none

/-- The error that such a request is answered with. -/
def refusal : (call : ApiCall) → call.Result → Option ApiError
  | .getPayment _, .error error | .getPaymentStatus _, .error error => some error
  | _, _ => none

end ApiCall

section Behind

variable {σ ε : Type} [PaymentRepository σ] [WebhookEventRepository ε] [Platform] {app : AppState}
  {rules : Rules (machine σ ε)} {world : World σ ε} {outer : State (api σ ε app)}
  {inner : State (machine σ ε)} {thread : Nat}

/-- Every payment in a response is represented as the call behind has returned it. -/
theorem shown_behind (hshows : FrontEnd.Shows (F := frontEnd σ ε app) outer inner)
    {call : ApiCall} {response : call.Result}
    (ht : outer.threads[thread]? = some ⟨call, .done response⟩) {shown : PaymentResponse}
    (hshown : shown ∈ call.shown response) :
    ∃ result, inner.threads[thread]? = some ⟨call.behind app, .done result⟩ ∧
      ∃ payment ∈ (call.behind app).shown result, shown = .ofPayment payment := by
  cases call with
  | createPayment headers request =>
      obtain ⟨result, hinner, hresponse⟩ :=
        hshows.returned ht (respond_with_done createdResponse)
      refine ⟨result, hinner, ?_⟩
      cases result with
      | error error => cases hresponse; cases hshown
      | ok payment =>
          cases hresponse
          exact ⟨payment, List.mem_singleton.mpr rfl, List.mem_singleton.mp hshown⟩
  | getPayment id =>
      obtain ⟨result, hinner, hresponse⟩ :=
        hshows.returned ht (respond_with_done PaymentResponse.ofPayment)
      refine ⟨result, hinner, ?_⟩
      cases result with
      | error error => cases hresponse; cases hshown
      | ok payment =>
          cases hresponse
          exact ⟨payment, List.mem_singleton.mpr rfl, List.mem_singleton.mp hshown⟩
  | listPayments query =>
      obtain ⟨result, hinner, hresponse⟩ :=
        hshows.returned ht (respond_with_done query.response)
      refine ⟨result, hinner, ?_⟩
      cases result with
      | error error => cases hresponse; cases hshown
      | ok listed =>
          cases hresponse
          obtain ⟨payment, hpayment, heq⟩ := List.mem_map.mp hshown
          exact ⟨payment, hpayment, heq.symm⟩
  | getPaymentStatus | listPaymentWebhookEvents | task => cases hshown

/-- Every payment that a response names has the status that the call behind has returned. -/
theorem told_behind (hshows : FrontEnd.Shows (F := frontEnd σ ε app) outer inner)
    {call : ApiCall} {response : call.Result}
    (ht : outer.threads[thread]? = some ⟨call, .done response⟩) {told : Uuid × PaymentStatus}
    (htold : told ∈ call.told response) :
    ∃ result, inner.threads[thread]? = some ⟨call.behind app, .done result⟩ ∧
      ∃ payment ∈ (call.behind app).shown result, told = (payment.id, payment.status) := by
  have hrepresented : ∀ shown ∈ call.shown response, told = (shown.id, shown.status) →
      ∃ result, inner.threads[thread]? = some ⟨call.behind app, .done result⟩ ∧
        ∃ payment ∈ (call.behind app).shown result, told = (payment.id, payment.status) := by
    intro shown hshown heq
    obtain ⟨result, hinner, payment, hpayment, rfl⟩ := shown_behind hshows ht hshown
    exact ⟨result, hinner, payment, hpayment, heq⟩
  cases call with
  | createPayment | getPayment =>
      rcases response with error | response
      · cases htold
      · exact hrepresented _ (List.mem_singleton.mpr rfl) (List.mem_singleton.mp htold)
  | listPayments query =>
      rcases response with error | response
      · cases htold
      · obtain ⟨shown, hshown, heq⟩ := List.mem_map.mp htold
        exact hrepresented shown hshown heq.symm
  | getPaymentStatus id =>
      obtain ⟨result, hinner, hresponse⟩ :=
        hshows.returned ht (respond_with_done PaymentStatusResponse.ofPayment)
      refine ⟨result, hinner, ?_⟩
      cases result with
      | error error => cases hresponse; cases htold
      | ok payment =>
          cases hresponse
          exact ⟨payment, List.mem_singleton.mpr rfl, List.mem_singleton.mp htold⟩
  | listPaymentWebhookEvents | task => cases htold

/-- Behind a request for a payment, `get_payment` has returned what the response tells, or has
failed. -/
theorem asked_behind (hshows : FrontEnd.Shows (F := frontEnd σ ε app) outer inner)
    {call : ApiCall} {response : call.Result}
    (ht : outer.threads[thread]? = some ⟨call, .done response⟩) {id : Uuid}
    (hasks : call.asksFor = some id) :
    (∃ payment, inner.threads[thread]? = some ⟨.getPayment id, .done (.ok payment)⟩ ∧
      call.told response = [(payment.id, payment.status)] ∧ call.refusal response = none) ∨
    ∃ failure, inner.threads[thread]? = some ⟨.getPayment id, .done (.error failure)⟩ ∧
      call.refusal response = some (.ofPayment failure) := by
  cases call with
  | getPayment asked =>
      cases hasks
      obtain ⟨result, hinner, hresponse⟩ :=
        hshows.returned ht (respond_with_done PaymentResponse.ofPayment)
      cases result with
      | ok payment =>
          cases hresponse
          exact .inl ⟨payment, hinner, rfl, rfl⟩
      | error failure =>
          cases hresponse
          exact .inr ⟨failure, hinner, rfl⟩
  | getPaymentStatus asked =>
      cases hasks
      obtain ⟨result, hinner, hresponse⟩ :=
        hshows.returned ht (respond_with_done PaymentStatusResponse.ofPayment)
      cases result with
      | ok payment =>
          cases hresponse
          exact .inl ⟨payment, hinner, rfl, rfl⟩
      | error failure =>
          cases hresponse
          exact .inr ⟨failure, hinner, rfl⟩
  | _ => cases hasks

end Behind

/-- What a response tells a client after another one. -/
structure SessionKept (call : ApiCall) (response : call.Result) (call' : ApiCall)
    (response' : call'.Result) : Prop where
  /-- A payment that is shown again leads on from what was shown. -/
  leads : ∀ shown ∈ call.shown response, ∀ shown' ∈ call'.shown response', shown'.id = shown.id →
    shown.payment.LeadsTo shown'.payment
  /-- A status that is told again can be reached from the one that was told. -/
  reaches : ∀ told ∈ call.told response, ∀ told' ∈ call'.told response', told'.1 = told.1 →
    told.2.Reaches told'.2
  /-- A request for a payment that was named is answered with it, unless the server fails. -/
  answered : ∀ told ∈ call.told response, call'.asksFor = some told.1 →
    (∃ status, call'.told response' = [(told.1, status)] ∧ told.2.Reaches status) ∨
      ∃ error, call'.refusal response' = some error ∧ error.status = .internalServerError

section Backends

variable [Platform]

/-- On either backend, whatever else is called and however it is interleaved, a client that sends
one request after the answer to another is told nothing that contradicts that answer. -/
theorem session_kept {backend : Backend} {app : AppState}
    {state : State (api backend.Payments backend.Events app)}
    (hreach : Reachable ((frontEnd backend.Payments backend.Events app).rules
      (serviceRules backend.Payments backend.Events)) backend.empty state)
    {first second : Nat} (hfollows : Follows state first second) {call call' : ApiCall}
    {response : call.Result} {response' : call'.Result}
    (hfirst : state.threads[first]? = some ⟨call, .done response⟩)
    (hsecond : state.threads[second]? = some ⟨call', .done response'⟩) :
    SessionKept call response call' response' := by
  obtain ⟨inner, hinner, hshows⟩ := FrontEnd.exists_behind hreach
  have horder := hshows.follows hfollows
  have hworld : ∀ id, ∀ payment ∈ stored backend.empty.payments id, payment.Coupled := by simp
  have hleads : ∀ {result result'},
      inner.threads[first]? = some ⟨call.behind app, .done result⟩ →
      inner.threads[second]? = some ⟨call'.behind app, .done result'⟩ →
      ∀ payment ∈ (call.behind app).shown result, ∀ payment' ∈ (call'.behind app).shown result',
        payment'.id = payment.id → payment.LeadsTo payment' :=
    fun ht ht' payment hpayment payment' hpayment' hid =>
      shown_leads hinner hworld horder ht ht' hpayment hpayment' hid
  refine ⟨fun shown hshown shown' hshown' hid => ?_, fun told htold told' htold' hid => ?_,
    fun told htold hasks => ?_⟩
  · obtain ⟨result, ht, payment, hpayment, rfl⟩ := shown_behind hshows hfirst hshown
    obtain ⟨result', ht', payment', hpayment', rfl⟩ := shown_behind hshows hsecond hshown'
    exact hleads ht ht' payment hpayment payment' hpayment' hid
  · obtain ⟨result, ht, payment, hpayment, rfl⟩ := told_behind hshows hfirst htold
    obtain ⟨result', ht', payment', hpayment', rfl⟩ := told_behind hshows hsecond htold'
    exact (hleads ht ht' payment hpayment payment' hpayment' hid).status
  · obtain ⟨result, ht, payment, hpayment, rfl⟩ := told_behind hshows hfirst htold
    rcases asked_behind hshows hsecond hasks with
      ⟨payment', ht', htold', -⟩ | ⟨failure, ht', hrefusal⟩
    · have hid : payment'.id = payment.id := get_payment_id hinner ht'
      have hleads : payment.LeadsTo payment' :=
        shown_leads hinner hworld horder ht ht' hpayment (List.mem_singleton.mpr rfl) hid
      exact .inl ⟨payment'.status, by rw [htold', hid], hleads.status⟩
    · obtain ⟨message, rfl⟩ := shown_stays hinner hworld horder ht ht' hpayment rfl
      exact .inr ⟨_, hrefusal, (ApiError.status_of_error _).2.mpr ⟨message, rfl⟩⟩

end Backends

section Schedules

variable {M : Machine} (F : FrontEnd M) (rules : Rules M)

instance [DecidablePred rules.admits] : DecidablePred (F.rules rules).admits :=
  fun call => inferInstanceAs (Decidable (rules.admits (F.behind call)))

instance [∀ env span request world, Decidable (rules.permits env span request world)] (env : M.Env)
    (span : Option M.Span) (request : M.Request) (world : M.World) :
    Decidable ((F.rules rules).permits env span request world) :=
  inferInstanceAs (Decidable (rules.permits env span request world))

end Schedules

section Run

attribute [local instance] Plain.platform

open Plain

/-- A client creates a payment, a pass detects it, and the client asks for it. -/
def askedAgain : List (Choice (api Database EventTable plainApp)) :=
  [.start (.createPayment ⟨[]⟩ (requestOf "10" "order-1")), .act 0 (env 5000 7),
    .act 0 (env 5000 7), .act 0 (env 5000 7), .start (.task (.runOnce worker)),
    .act 1 (env 6000 8), .act 1 (env 6000 8),
    .act 1 (envWith 6000 8 [native "tx" "GDEST" "10.0" 5500] "m"), .act 1 (env 6000 8),
    .start (.getPayment 7), .act 2 (env 9000 9)]

/-- What a thread has answered to `get_payment`. -/
def foundResponse (state : State (api Database EventTable plainApp)) (thread : Nat) :
    Option (Uuid × Except ApiError PaymentResponse) :=
  match state.threads[thread]? with
  | some ⟨.getPayment id, .done response⟩ => some (id, response)
  | _ => none

/-- The thread has given that answer. -/
theorem found_response_eq {state : State (api Database EventTable plainApp)} {thread : Nat}
    {id : Uuid} {response : Except ApiError PaymentResponse}
    (h : foundResponse state thread = some (id, response)) :
    state.threads[thread]? = some ⟨.getPayment id, .done response⟩ := by
  unfold foundResponse at h
  split at h
  · rename_i hthread
    cases h
    exact hthread
  · cases h

/-- The payment of `askedAgain` after its detection. -/
def detectedPayment : Payment :=
  (pending 7 "10" "order-1" 5000).moved .detected (some "tx") 6000

/-- The second answer of `askedAgain` shows the payment further on. -/
theorem session_kept_detected :
    SessionKept (.createPayment ⟨[]⟩ (requestOf "10" "order-1"))
      (showing (pending 7 "10" "order-1" 5000)) (.getPayment 7)
      (.ok (.ofPayment detectedPayment)) := by
  obtain ⟨state, hreach, htest⟩ := exists_reachable
    ((frontEnd Database EventTable plainApp).rules (serviceRules Database EventTable)) askedAgain
    Backend.postgres.empty (fun state => decide (Follows state 0 2) &&
      createResponse state 0 == some (⟨[]⟩, requestOf "10" "order-1",
        showing (pending 7 "10" "order-1" 5000)) &&
      foundResponse state 2 == some (7, .ok (.ofPayment detectedPayment))) (by decide)
  simp only [Bool.and_eq_true, beq_iff_eq, decide_eq_true_eq] at htest
  exact @session_kept platform .postgres plainApp state hreach 0 2 htest.1.1 _ _ _ _
    (Responded.thread_eq htest.1.2) (found_response_eq htest.2)

end Run

end StellarPay
