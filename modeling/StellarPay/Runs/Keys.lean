import StellarPay.Api.Handlers
import StellarPay.Runs.Creation
import StellarPay.Runs.Races

/-!
# Idempotency keys at the API

`create_payment` reads its key from a header with `to_str().ok()`, so a value with a byte beyond
ASCII is no key at all. A key that is a text is honoured on Postgres as long as the store answers
its lookup, whatever else is requested in between.
-/

namespace StellarPay

open Interleaving

section Service

variable {σ ε : Type} [PaymentRepository σ] [WebhookEventRepository ε] [Platform]
  {rules : Rules (machine σ ε)} {world : World σ ε} {state : State (machine σ ε)} {thread : Nat}
  {service : PaymentService} {amount reference : String} {destination memo key : Option String}

/-- A lookup that failed has ended the call. -/
def FailsWithLookup (result : Except PaymentError Payment) (history : List (Event (machine σ ε))) :
    Prop :=
  ∀ act name error, .act act ∈ history → act.Got (.findByIdempotencyKey name) (.error error) →
    result = .error (.repository error)

/-- No lookup in this history has failed. -/
def LookupsWork (history : List (Event (machine σ ε))) : Prop :=
  ∀ act name error, .act act ∈ history → ¬ act.Got (.findByIdempotencyKey name) (.error error)

variable {history : List (Event (machine σ ε))}

/-- One more request that is not a lookup that fails. -/
theorem LookupsWork.snoc {act : Act (machine σ ε)} (h : LookupsWork history)
    (hact : ∀ name error, ¬ act.Got (.findByIdempotencyKey name) (.error error)) :
    LookupsWork (history ++ [.act act]) := by
  intro lookup name error hlookup
  rcases List.mem_append.mp hlookup with hlookup | hlookup
  · exact h lookup name error hlookup
  · cases List.mem_singleton.mp hlookup
    exact hact name error

/-- A history without a failed lookup says nothing about the result. -/
theorem LookupsWork.fails (h : LookupsWork history) (result : Except PaymentError Payment) :
    FailsWithLookup result history :=
  fun act name error hact hgot => absurd hgot (h act name error hact)

/-- A request that is no lookup. -/
theorem LookupsWork.other {request : Request} {env : Env} {before : World σ ε}
    (h : LookupsWork history) (hrequest : ∀ name, request ≠ .findByIdempotencyKey name) :
    LookupsWork (history ++ [.act ⟨thread, none, request, env, before⟩]) :=
  h.snoc fun name _ hgot => hrequest name hgot.1

/-- `create_with_idempotency` ends when its lookup fails. -/
theorem create_with_idempotency_fails {payment : Payment} (h : LookupsWork history) :
    Local rules (fun _ => True) thread none (createWithIdempotency payment key)
      (fun result history => FailsWithLookup result history) history := by
  have hcreate : ∀ history : List (Event (machine σ ε)), LookupsWork history →
      Local rules (fun _ => True) thread none
        (ask (.createWithIdempotencyKey payment key) >>= fun result =>
          pure (createOutcome payment.reference result))
        (fun result history => FailsWithLookup result history) history := by
    intro history h
    refine local_request_bind fun env world _ => ⟨trivial, local_pure ?_⟩
    exact (h.other (by simp)).fails _
  unfold createWithIdempotency
  cases key with
  | none => exact hcreate history h
  | some name =>
      refine local_request_bind fun env world _ => ⟨trivial, ?_⟩
      cases hreply : (answer env (.findByIdempotencyKey name) world).1 with
      | error error =>
          refine local_pure fun act other failure hact hgot => ?_
          rcases List.mem_append.mp hact with hact | hact
          · exact absurd hgot (h act other failure hact)
          · cases List.mem_singleton.mp hact
            obtain ⟨hrequest, hfailed⟩ := hgot
            cases hrequest
            cases hreply.symm.trans hfailed
            rfl
      | ok found =>
          have hworks : LookupsWork (history ++
              [.act ⟨thread, none, .findByIdempotencyKey name, env, world⟩]) := by
            refine h.snoc fun other failure hgot => ?_
            obtain ⟨hrequest, hfailed⟩ := hgot
            cases hrequest
            cases hreply.symm.trans hfailed
          cases found with
          | some existing => exact local_pure (hworks.fails _)
          | none => exact hcreate _ hworks

/-- So does `create_payment`. -/
theorem create_payment_fails (h : LookupsWork history) :
    Local rules (fun _ => True) thread none
      (service.createPayment amount reference destination memo key)
      (fun result history => FailsWithLookup result history) history := by
  unfold PaymentService.createPayment
  split
  · exact local_pure (h.fails _)
  · have hmake : ∀ (history : List (Event (machine σ ε))) (text : String), LookupsWork history →
        Local rules (fun _ => True) thread none
          (Payment.new amount reference (destination.getD service.defaultDestination)
            (some text) >>= fun payment => createWithIdempotency payment key)
          (fun result history => FailsWithLookup result history) history := by
      intro history text h
      refine local_request_bind fun clock world _ => ⟨trivial, ?_⟩
      refine local_request_bind fun source world _ => ⟨trivial, ?_⟩
      exact create_with_idempotency_fails ((h.other (by simp)).other (by simp))
    cases memo with
    | some text => exact hmake history text h
    | none =>
        refine local_request_bind fun source world _ => ⟨trivial, ?_⟩
        exact hmake _ _ (h.other (by simp))

/-- What a finished call has read. -/
def CreateRead : (call : Call) → call.Result → List (Event (machine σ ε)) → Prop
  | .createPayment _ _ _ _ _ _, result, history => FailsWithLookup result history
  | _, _, _ => True

/-- A call that returned a payment had its lookup answered. -/
theorem lookup_answered (hreach : Reachable rules world state) {payment : Payment}
    (ht : state.threads[thread]? =
      some ⟨.createPayment service amount reference destination memo key, .done (.ok payment)⟩)
    {act : Act (machine σ ε)} (hact : .act act ∈ state.config.own thread) {name : String}
    (hrequest : act.request = .findByIdempotencyKey name) : act.env.paymentsFault = none := by
  have hcalls : ∀ call thread before, rules.admits call → True ∧
      Local rules (fun _ => True) thread none call.body (CreateRead call)
        [.start thread call before] := by
    intro call thread before _
    refine ⟨trivial, ?_⟩
    cases call with
    | createPayment => exact create_payment_fails (by simp [LookupsWork])
    | _ => exact (local_any fun _ => trivial).mono fun _ _ _ => trivial
  have hholds := @Reachable.own_holds (machine σ ε) rules (fun _ => True) CreateRead trivial hcalls
    world state hreach
  have hread := hholds.2 thread (.createPayment service amount reference destination memo key)
    (.ok payment) ht
  by_contra hfault
  obtain ⟨message, hmessage⟩ := Option.ne_none_iff_exists'.mp hfault
  have hfailed : (answer act.env (.findByIdempotencyKey name) act.before).1 =
      .error (.database message) := by
    simp [answer, onPayments, attempt, hmessage]
  cases hread act name _ hact ⟨hrequest, hfailed⟩

variable [RepositoryLaws σ] [KeyLaws σ]
  (hnew : ∀ env span request world, rules.permits env span request world →
    CreatesNew request world)

include hnew

/-- A call that returned a payment has met it linked to its key, or linked it. -/
theorem returned_linked (hreach : Reachable rules world state) {payment : Payment} {name : String}
    (ht : state.threads[thread]? = some
      ⟨.createPayment service amount reference destination memo (some name), .done (.ok payment)⟩) :
    ∃ act, .act act ∈ state.config.own thread ∧
      linked act.after.payments name = some payment.id := by
  have htrace := create_returned hreach ht
  generalize hresult : (.ok payment : Except PaymentError Payment) = result at htrace
  cases htrace with
  | invalid | unread => cases hresult
  | existing act other found hact hkey hgot =>
      cases hresult
      cases hkey
      obtain ⟨hrequest, hreply⟩ := hgot
      refine ⟨act, hact, ?_⟩
      have hquiet : act.after = act.before := by
        rw [Act.after, hrequest]
        exact on_payments_reading act.env _ act.before
      rw [hquiet]
      rcases answer_find_key act.env name act.before with
        ⟨error, hfailed, -⟩ | ⟨answered, hfound, hlinked, -⟩
      · cases hfailed.symm.trans hreply
      · cases hfound.symm.trans hreply
        exact hlinked
  | answered act created reply hact _ _ hgot =>
      rw [create_outcome_ok hresult.symm] at hgot
      have hcreates : Creates (.act act) name payment := ⟨act, created, rfl, hgot⟩
      exact ⟨act, hact, (event_creates hnew hreach (Config.mem_of_own hact) hcreates).2.1⟩

omit [KeyLaws σ] in
/-- A call without a key that returned a payment has created it. -/
theorem returned_created (hreach : Reachable rules world state) {payment : Payment}
    (ht : state.threads[thread]? = some
      ⟨.createPayment service amount reference destination memo none, .done (.ok payment)⟩) :
    ∃ act, .act act ∈ state.config.own thread ∧ act.after.payments ≠ act.before.payments := by
  have htrace := create_returned hreach ht
  generalize hresult : (.ok payment : Except PaymentError Payment) = result at htrace
  cases htrace with
  | invalid | unread => cases hresult
  | existing _ _ _ _ hkey => cases hkey
  | answered act created reply hact _ _ hgot =>
      rw [create_outcome_ok hresult.symm] at hgot
      obtain ⟨hrequest, hreply⟩ := hgot
      have hpermits := hreach.permitted (Config.mem_of_own hact)
      have hcreate := create_of_answer hreply
      rw [hrequest] at hpermits
      have hnone := (hnew _ _ _ _ hpermits _ _ hcreate).1
      obtain ⟨hsame, -, -, hstored⟩ := RepositoryLaws.create_ok hcreate
      -- Nothing was stored under the new identifier before, and the payment is after it.
      refine ⟨act, hact, fun heq => ?_⟩
      rw [Act.after, hrequest] at heq
      have hsome := hstored created.id
      rw [if_pos rfl, show (answer act.env (.createWithIdempotencyKey created none)
        act.before).2.payments = act.before.payments from heq, hnone] at hsome
      cases hsome

/-- A call that comes after one with its key replays the payment of the first, if the store answers
its lookup. -/
theorem second_replays (hreach : Reachable rules world state) {first second : Nat}
    (hfollows : Follows state first second) {payment : Payment} {name : String}
    {service' : PaymentService} {amount' reference' : String} {destination' memo' : Option String}
    {result : Except PaymentError Payment}
    (hfirst : state.threads[first]? = some
      ⟨.createPayment service amount reference destination memo (some name), .done (.ok payment)⟩)
    (hsecond : state.threads[second]? = some
      ⟨.createPayment service' amount' reference' destination' memo' (some name), .done result⟩)
    (hvalid : ∃ decimal, validateAmount amount' = .ok decimal)
    (hanswered : ∀ act, .act act ∈ state.config.trace → act.thread = second →
      act.request = .findByIdempotencyKey name → act.env.paymentsFault = none) :
    (∃ other, result = .ok other ∧ other.id = payment.id) ∧ ChangedNothing state second := by
  obtain ⟨act, hact, hlinked⟩ := returned_linked hnew hreach hfirst
  obtain ⟨hmem, rfl⟩ := Config.mem_own.mp hact
  obtain ⟨before, acts, hown⟩ := hreach.own_eq hsecond
  have hstart := Config.mem_of_own (hown ▸ List.mem_cons_self)
  -- The first call has met or made the link, and links only grow until the second one starts.
  have hgrows : Grows act.after.payments before.payments :=
    hreach.follows_relates (fun first second => Grows first.payments second.payments)
      (fun _ => .refl _) .trans (event_grows hnew hreach) hfollows hmem hstart
  have hbegan := hgrows.links _ _ hlinked
  have hcreate : CreateStarted state second (some name) before := ⟨_, _, _, _, _, hstart⟩
  have hreturned : CreateReturned state second amount' reference' (some name) result := by
    simp [CreateReturned, createResult, hsecond]
  refine ⟨?_, late_changes_nothing hnew hreach hcreate hbegan⟩
  rcases late_returns_linked hnew hreach hcreate hbegan hreturned with
    ⟨error, hinvalid, -⟩ | hsame | ⟨lookup, message, hlookup, hthread, hrequest, hfault, -⟩
  · obtain ⟨decimal, hdecimal⟩ := hvalid
    cases hdecimal.symm.trans hinvalid
  · exact hsame
  · cases (hanswered lookup hlookup hthread hrequest).symm.trans hfault

end Service

section Api

variable {σ ε : Type} [PaymentRepository σ] [WebhookEventRepository ε] [Platform] {app : AppState}

/-- The request and the response of a thread that has answered `create_payment`. -/
def createResponse (state : State (api σ ε app)) (thread : Nat) :
    Option (HeaderMap × CreatePaymentRequest × Except ApiError (StatusCode × PaymentResponse)) :=
  match state.threads[thread]? with
  | some ⟨.createPayment headers request, .done response⟩ => some (headers, request, response)
  | _ => none

/-- The thread has answered `create_payment`. -/
def Responded (state : State (api σ ε app)) (thread : Nat) (headers : HeaderMap)
    (request : CreatePaymentRequest)
    (response : Except ApiError (StatusCode × PaymentResponse)) : Prop :=
  createResponse state thread = some (headers, request, response)

/-- The response shows the payment `id`, and its request has left the payments as they were. -/
def Replayed (state : State (api σ ε app)) (thread : Nat) (id : Uuid)
    (response : Except ApiError (StatusCode × PaymentResponse)) : Prop :=
  (∃ status payment, response = .ok (status, payment) ∧ payment.id = id) ∧
    ∀ act, .act act ∈ state.config.trace → act.thread = thread →
      act.after.payments = act.before.payments

/-- The store has not failed when the thread looked its key up. -/
def LookupAnswered (state : State (api σ ε app)) (thread : Nat) : Prop :=
  ∀ act key, .act act ∈ state.config.trace → act.thread = thread →
    act.request = .findByIdempotencyKey key → act.env.paymentsFault = none

variable {rules : Rules (machine σ ε)} {world : World σ ε} {state : State (api σ ε app)}
  {thread : Nat} {headers : HeaderMap} {request : CreatePaymentRequest}
  {response : Except ApiError (StatusCode × PaymentResponse)}

/-- The thread of an answered request. -/
theorem Responded.thread_eq (h : Responded state thread headers request response) :
    state.threads[thread]? = some ⟨.createPayment headers request, .done response⟩ := by
  unfold Responded createResponse at h
  split at h
  · rename_i hthread
    cases h
    exact hthread
  · cases h

/-- The response to `create_payment` takes no request. -/
theorem create_respond_done (app : AppState) (headers : HeaderMap) (request : CreatePaymentRequest)
    (result : Except PaymentError Payment) :
    ∃ made, (frontEnd σ ε app).respond (.createPayment headers request) result = .done made :=
  respond_with_done createdResponse result

/-- Behind an answered request is a call that returned, with the key of the headers. -/
theorem Responded.behind (h : Responded state thread headers request response)
    {inner : State (machine σ ε)} (hshows : FrontEnd.Shows (F := frontEnd σ ε app) state inner) :
    ∃ result, inner.threads[thread]? = some
      ⟨.createPayment app.paymentService request.amount request.reference request.destination
        request.memo (idempotencyKey headers), .done result⟩ ∧
      respondWith createdResponse result = .done response :=
  hshows.returned h.thread_eq (create_respond_done app headers request)

omit [Platform] in
/-- A payment in a response is the payment behind it. -/
theorem responded_ok {result : Except PaymentError Payment} {status : StatusCode}
    {shown : PaymentResponse}
    (h : respondWith createdResponse result = .done (.ok (status, shown))) :
    ∃ payment, result = .ok payment ∧ payment.id = shown.id := by
  cases result with
  | error error => cases h
  | ok payment =>
      cases h
      exact ⟨payment, rfl, rfl⟩

variable [RepositoryLaws σ] [KeyLaws σ]
  (hnew : ∀ env span request world, rules.permits env span request world →
    CreatesNew request world)

include hnew

/-- Where what is created is new, a request that follows one with its header replays it if and only
if the header is a text and the store answers the lookup. -/
theorem replayed_iff (hreach : Reachable ((frontEnd σ ε app).rules rules) world state)
    {first second : Nat} (hfollows : Follows state first second) {headers' : HeaderMap}
    {request' : CreatePaymentRequest} {value : HeaderValue}
    (hvalue : headers.get idempotencyKeyHeader = some value)
    (hvalue' : headers'.get idempotencyKeyHeader = some value) {status : StatusCode}
    {shown : PaymentResponse}
    (hfirst : Responded state first headers request (.ok (status, shown)))
    (hsecond : Responded state second headers' request' response)
    (hvalid : ∃ decimal, validateAmount request'.amount = .ok decimal) :
    Replayed state second shown.id response ↔ value.IsText ∧ LookupAnswered state second := by
  obtain ⟨inner, hinner, hshows⟩ := FrontEnd.exists_behind hreach
  obtain ⟨result, ht, hresult⟩ := hfirst.behind hshows
  obtain ⟨result', ht', hresult'⟩ := hsecond.behind hshows
  obtain ⟨payment, rfl, hid⟩ := responded_ok hresult
  have hkey : idempotencyKey headers = value.toStr := by
    rw [idempotencyKey, hvalue, Option.bind_some]
  have hkey' : idempotencyKey headers' = value.toStr := by
    rw [idempotencyKey, hvalue', Option.bind_some]
  rw [hkey] at ht
  rw [hkey'] at ht'
  have hkept : ∀ act, .act act ∈ state.config.trace → act.thread = second →
      FrontEnd.event (F := frontEnd σ ε app) (.act act) ∈ inner.config.trace := by
    intro act hact hthread
    subst hthread
    exact hshows.kept_act hreach hact hsecond.thread_eq
      (create_respond_done app headers' request')
  rw [← value.to_str_isSome_iff]
  constructor
  · intro hreplayed
    obtain ⟨⟨status', shown', rfl, -⟩, hunchanged⟩ := hreplayed
    obtain ⟨other, rfl, -⟩ := responded_ok hresult'
    cases htext : value.toStr with
    | none =>
        -- The header is no key, so the second call has created a payment of its own.
        rw [htext] at ht'
        obtain ⟨act, hact, hchanged⟩ := returned_created hnew hinner ht'
        obtain ⟨hact, hthread⟩ := Config.mem_own.mp hact
        exact absurd (hunchanged _ (hshows.outer_act hact) hthread) hchanged
    | some name =>
        refine ⟨rfl, fun act key hact hthread hrequest => ?_⟩
        have hown := Config.mem_own.mpr ⟨hkept act hact hthread, hthread⟩
        exact lookup_answered hinner ht' hown hrequest
  · intro hhonoured
    obtain ⟨htext, hanswered⟩ := hhonoured
    obtain ⟨name, hname⟩ := Option.isSome_iff_exists.mp htext
    rw [hname] at ht ht'
    obtain ⟨⟨other, rfl, hother⟩, hunchanged⟩ :=
      second_replays hnew hinner (hshows.follows hfollows) ht ht' hvalid
        fun act hact hthread hrequest =>
          hanswered _ name (hshows.outer_act hact) hthread hrequest
    cases hresult'
    refine ⟨⟨.created, .ofPayment other, rfl, hother.trans hid⟩, fun act hact hthread => ?_⟩
    exact congrArg World.payments (hunchanged _ (hkept act hact hthread) hthread)

end Api

section Backends

variable [Platform]

/-- On Postgres anything may happen. In memory identifiers are fresh, and no creation finds its key
linked. -/
def keyRules : (backend : Backend) → Rules backend.machine
  | .inMemory => unusedKeyRules
  | .postgres => .any

/-- What is created under these rules is new. -/
theorem key_rules_new {backend : Backend} {env : Env} {span : Option Uuid} {request : Request}
    {world : World backend.Payments backend.Events}
    (h : (keyRules backend).permits env span request world) : CreatesNew request world := by
  cases backend with
  | inMemory => exact unused_key_new h
  | postgres => exact postgres_new request world

/-- A request with the idempotency key of an earlier one, which has returned a payment, returns that
payment and changes nothing, if and only if the key is a text and the store answers the lookup. -/
theorem keys_honoured_iff {backend : Backend} {app : AppState}
    {world : World backend.Payments backend.Events}
    {state : State (api backend.Payments backend.Events app)}
    (hreach : Reachable ((frontEnd backend.Payments backend.Events app).rules (keyRules backend))
      world state)
    {first second : Nat} (hfollows : Follows state first second) {headers headers' : HeaderMap}
    {request request' : CreatePaymentRequest} {value : HeaderValue}
    (hvalue : headers.get idempotencyKeyHeader = some value)
    (hvalue' : headers'.get idempotencyKeyHeader = some value) {status : StatusCode}
    {shown : PaymentResponse}
    (hfirst : Responded state first headers request (.ok (status, shown)))
    {response : Except ApiError (StatusCode × PaymentResponse)}
    (hsecond : Responded state second headers' request' response)
    (hvalid : ∃ decimal, validateAmount request'.amount = .ok decimal) :
    Replayed state second shown.id response ↔ value.IsText ∧ LookupAnswered state second :=
  replayed_iff (fun _ _ _ _ h => key_rules_new h) hreach hfollows hvalue hvalue' hfirst hsecond
    hvalid

end Backends

section Tests

attribute [local instance] Plain.platform

open Plain

/-- The state of an application with the plain service. -/
def plainApp : AppState :=
  ⟨service⟩

/-- Headers with these bytes as the idempotency key. -/
def keyHeaders (bytes : List UInt8)
    (hvalid : ∀ byte ∈ bytes, HeaderValue.isValid byte = true) : HeaderMap :=
  ⟨[("idempotency-key", ⟨bytes, hvalid⟩)]⟩

/-- A request for a payment of `amount`. -/
def requestOf (amount reference : String) : CreatePaymentRequest :=
  ⟨amount, reference, none, some "m"⟩

/-- Two requests with the same headers, one after the other. Each of them makes `requests` requests
of its own. -/
def twoRequests (headers : HeaderMap) (first second : Nat) :
    List (Choice (api Database EventTable plainApp)) :=
  [.start (.createPayment headers (requestOf "10" "order-1"))] ++
    List.replicate first (.act 0 (env 5000 7)) ++
    [.start (.createPayment headers (requestOf "25" "order-2"))] ++
    List.replicate second (.act 1 (env 9000 8))

/-- The response that shows the payment. -/
def showing (payment : Payment) : Except ApiError (StatusCode × PaymentResponse) :=
  .ok (createdResponse payment)

/-- A key of two bytes beyond ASCII, an accented letter. -/
def accented : HeaderMap :=
  keyHeaders [0xC3, 0xA9] (List.all_eq_true.mp rfl)

/-- A key of one letter. -/
def lettered : HeaderMap :=
  keyHeaders [0x6B] (List.all_eq_true.mp rfl)

/-- The first value of an accented key is not a text. -/
example : idempotencyKey accented = none ∧ idempotencyKey lettered = some "k" := by
  decide

/-- A request with the accented key of an earlier one creates a second payment. -/
theorem key_ignored : ∃ (state : State (api Database EventTable plainApp)) (value : HeaderValue),
    Reachable ((frontEnd Database EventTable plainApp).rules .any) Backend.postgres.empty state ∧
    Follows state 0 1 ∧ accented.get idempotencyKeyHeader = some value ∧
    Responded state 0 accented (requestOf "10" "order-1")
      (showing (pending 7 "10" "order-1" 5000)) ∧
    Responded state 1 accented (requestOf "25" "order-2")
      (showing (pending 8 "25" "order-2" 9000)) ∧
    (∃ decimal, validateAmount "25" = .ok decimal) ∧
    ¬ Replayed state 1 7 (showing (pending 8 "25" "order-2" 9000)) := by
  obtain ⟨state, hreach, htest⟩ := @exists_reachable (api Database EventTable plainApp) .any _ _
    (twoRequests accented 3 3) Backend.postgres.empty
    (fun state => decide (Follows state 0 1) &&
      createResponse state 0 == some (accented, requestOf "10" "order-1",
        showing (pending 7 "10" "order-1" 5000)) &&
      createResponse state 1 == some (accented, requestOf "25" "order-2",
        showing (pending 8 "25" "order-2" 9000))) (by decide)
  simp only [Bool.and_eq_true, beq_iff_eq, decide_eq_true_eq] at htest
  refine ⟨state, _, hreach, htest.1.1, rfl, htest.1.2, htest.2, ⟨_, rfl⟩, fun hreplayed => ?_⟩
  obtain ⟨⟨status, shown, hshown, hid⟩, -⟩ := hreplayed
  cases hshown
  exact absurd hid (by decide)

/-- A request with the lettered key of an earlier one is given its payment. -/
theorem keys_honoured_lettered : ∃ state : State (api Database EventTable plainApp),
    Replayed state 1 7 (showing (pending 7 "10" "order-1" 5000)) ↔
      HeaderValue.IsText ⟨[0x6B], List.all_eq_true.mp rfl⟩ ∧ LookupAnswered state 1 := by
  obtain ⟨state, hreach, htest⟩ := @exists_reachable (api Database EventTable plainApp) .any _ _
    (twoRequests lettered 4 3) Backend.postgres.empty
    (fun state => decide (Follows state 0 1) &&
      createResponse state 0 == some (lettered, requestOf "10" "order-1",
        showing (pending 7 "10" "order-1" 5000)) &&
      createResponse state 1 == some (lettered, requestOf "25" "order-2",
        showing (pending 7 "10" "order-1" 5000))) (by decide)
  simp only [Bool.and_eq_true, beq_iff_eq, decide_eq_true_eq] at htest
  exact ⟨state, @keys_honoured_iff platform .postgres plainApp Backend.postgres.empty state hreach
    0 1 htest.1.1 lettered lettered _ _ _ rfl rfl _ _ htest.1.2 _ htest.2 ⟨_, rfl⟩⟩

end Tests

end StellarPay
