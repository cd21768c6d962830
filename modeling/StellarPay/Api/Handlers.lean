import StellarPay.Api.Http
import StellarPay.Interleaving.FrontEnd
import StellarPay.Runtime.System

/-!
# The handlers

`crates/api/src/dto` and `crates/api/src/handlers`. A handler makes one call of the service and then
a response of its result; only `list_payment_webhook_events` asks for more, and changes nothing. The
handlers are a front end over the machine of the system. `health` has no part in it.
-/

namespace StellarPay

open Interleaving

/-- `CreatePaymentRequest`. -/
structure CreatePaymentRequest where
  amount : String
  reference : String
  destination : Option String
  memo : Option String
  deriving DecidableEq

/-- `ListPaymentsQuery`. -/
structure ListPaymentsQuery where
  page : Option UInt32
  perPage : Option UInt32
  status : Option PaymentStatus

/-- `PaymentResponse`. -/
structure PaymentResponse where
  id : Uuid
  reference : String
  amount : String
  asset : Asset
  destination : String
  memo : Option String
  status : PaymentStatus
  stellarTxHash : Option String
  createdAt : DateTime
  updatedAt : DateTime
  deriving DecidableEq

/-- `From<Payment> for PaymentResponse`. -/
def PaymentResponse.ofPayment (payment : Payment) : PaymentResponse where
  id := payment.id
  reference := payment.reference
  amount := payment.amount
  asset := payment.asset
  destination := payment.destination
  memo := payment.memo
  status := payment.status
  stellarTxHash := payment.stellarTxHash
  createdAt := payment.createdAt
  updatedAt := payment.updatedAt

/-- `PaymentStatusResponse`. -/
structure PaymentStatusResponse where
  id : Uuid
  status : PaymentStatus

/-- What `get_payment_status` answers. -/
def PaymentStatusResponse.ofPayment (payment : Payment) : PaymentStatusResponse where
  id := payment.id
  status := payment.status

/-- `PaymentListResponse`. -/
structure PaymentListResponse where
  data : List PaymentResponse
  page : UInt32
  perPage : UInt32
  total : Int

/-- `WebhookEventResponse`. -/
structure WebhookEventResponse where
  id : Uuid
  paymentId : Uuid
  eventType : String
  status : WebhookEventStatus
  attempts : Int32
  nextAttemptAt : Option DateTime
  deliveredAt : Option DateTime
  createdAt : DateTime

/-- `From<WebhookEventRecord> for WebhookEventResponse`. -/
def WebhookEventResponse.ofRecord (record : WebhookEventRecord) : WebhookEventResponse where
  id := record.id
  paymentId := record.paymentId
  eventType := record.eventType
  status := record.status
  attempts := record.attempts
  nextAttemptAt := record.nextAttemptAt
  deliveredAt := record.deliveredAt
  createdAt := record.createdAt

/-- `WebhookEventListResponse`. -/
structure WebhookEventListResponse where
  data : List WebhookEventResponse

/-- `AppState`. The repository of the webhook events is part of the world. -/
structure AppState where
  paymentService : PaymentService

/-- `IDEMPOTENCY_KEY_HEADER`. -/
def idempotencyKeyHeader : String :=
  "Idempotency-Key"

/-- `DEFAULT_PAGE`. -/
def defaultPage : UInt32 :=
  1

/-- `DEFAULT_PER_PAGE`. -/
def defaultPerPage : UInt32 :=
  20

/-- `MAX_PER_PAGE`. -/
def maxPerPage : UInt32 :=
  100

/-- The key that `create_payment` takes from the headers. A value that is not a text is dropped. -/
def idempotencyKey (headers : HeaderMap) : Option String :=
  (headers.get idempotencyKeyHeader).bind HeaderValue.toStr

/-- The page that `list_payments` passes on. -/
def ListPaymentsQuery.pagePassed (query : ListPaymentsQuery) : UInt32 :=
  max (query.page.getD defaultPage) 1

/-- The number of payments a page that `list_payments` passes on. -/
def ListPaymentsQuery.perPagePassed (query : ListPaymentsQuery) : UInt32 :=
  max 1 (min (query.perPage.getD defaultPerPage) maxPerPage)

/-- What `create_payment` answers. -/
def createdResponse (payment : Payment) : StatusCode × PaymentResponse :=
  (.created, .ofPayment payment)

/-- What `list_payments` answers. -/
def ListPaymentsQuery.response (query : ListPaymentsQuery) (listed : List Payment × Int) :
    PaymentListResponse where
  data := listed.1.map PaymentResponse.ofPayment
  page := query.pagePassed
  perPage := query.perPagePassed
  total := listed.2

/-- A response is made of what the service returns, unless that is an error. -/
def respondWith {α β : Type} (make : α → β) :
    Except PaymentError α → Prog (Except ApiError β)
  | .error error => pure (.error (.ofPayment error))
  | .ok value => pure (.ok (make value))

namespace AppState

/-- The handler `create_payment`. -/
def createPayment [Platform] (state : AppState) (headers : HeaderMap)
    (request : CreatePaymentRequest) : Prog (Except ApiError (StatusCode × PaymentResponse)) := do
  let result ← state.paymentService.createPayment request.amount request.reference
    request.destination request.memo (idempotencyKey headers)
  respondWith createdResponse result

/-- The handler `list_payments`. -/
def listPayments (query : ListPaymentsQuery) : Prog (Except ApiError PaymentListResponse) := do
  let result ← PaymentService.listPayments query.status query.pagePassed query.perPagePassed
  respondWith query.response result

/-- The handler `get_payment`. -/
def getPayment (id : Uuid) : Prog (Except ApiError PaymentResponse) := do
  let result ← PaymentService.getPayment id
  respondWith PaymentResponse.ofPayment result

/-- The handler `get_payment_status`. -/
def getPaymentStatus (id : Uuid) : Prog (Except ApiError PaymentStatusResponse) := do
  let result ← PaymentService.getPayment id
  respondWith PaymentStatusResponse.ofPayment result

/-- The delivery history of a payment, once it is known to exist. -/
def deliveryHistory (id : Uuid) :
    Except PaymentError Payment → Prog (Except ApiError WebhookEventListResponse)
  | .error error => pure (.error (.ofPayment error))
  | .ok _ => do
      match ← ask (.listForPayment id) with
      | .error error => pure (.error (.ofRepository error))
      | .ok events => pure (.ok ⟨events.map WebhookEventResponse.ofRecord⟩)

/-- The handler `list_payment_webhook_events`. -/
def listPaymentWebhookEvents (id : Uuid) : Prog (Except ApiError WebhookEventListResponse) := do
  let result ← PaymentService.getPayment id
  deliveryHistory id result

end AppState

/-- A request of the API, or a call of a background task or of another user of the stores. -/
inductive ApiCall where
  | createPayment (headers : HeaderMap) (request : CreatePaymentRequest)
  | listPayments (query : ListPaymentsQuery)
  | getPayment (id : Uuid)
  | getPaymentStatus (id : Uuid)
  | listPaymentWebhookEvents (id : Uuid)
  | task (call : Call)

namespace ApiCall

/-- The type of the response to a request. -/
@[reducible]
def Result : ApiCall → Type
  | .createPayment _ _ => Except ApiError (StatusCode × PaymentResponse)
  | .listPayments _ => Except ApiError PaymentListResponse
  | .getPayment _ => Except ApiError PaymentResponse
  | .getPaymentStatus _ => Except ApiError PaymentStatusResponse
  | .listPaymentWebhookEvents _ => Except ApiError WebhookEventListResponse
  | .task call => call.Result

/-- The call of the service that a request makes. -/
@[reducible]
def behind (state : AppState) : ApiCall → Call
  | .createPayment headers request =>
      .createPayment state.paymentService request.amount request.reference request.destination
        request.memo (idempotencyKey headers)
  | .listPayments query => .listPayments query.status query.pagePassed query.perPagePassed
  | .getPayment id | .getPaymentStatus id | .listPaymentWebhookEvents id => .getPayment id
  | .task call => call

/-- What a request makes of the result. -/
def respond (state : AppState) :
    (call : ApiCall) → (call.behind state).Result → Prog call.Result
  | .createPayment _ _ => respondWith createdResponse
  | .listPayments query => respondWith query.response
  | .getPayment _ => respondWith PaymentResponse.ofPayment
  | .getPaymentStatus _ => respondWith PaymentStatusResponse.ofPayment
  | .listPaymentWebhookEvents id => AppState.deliveryHistory id
  | .task _ => pure

variable [Platform]

/-- The program of a request. -/
def body (state : AppState) : (call : ApiCall) → Prog call.Result
  | .createPayment headers request => state.createPayment headers request
  | .listPayments query => AppState.listPayments query
  | .getPayment id => AppState.getPayment id
  | .getPaymentStatus id => AppState.getPaymentStatus id
  | .listPaymentWebhookEvents id => AppState.listPaymentWebhookEvents id
  | .task call => call.body

end ApiCall

/-- A response is made without a request. -/
theorem respond_with_done {α β : Type} (make : α → β) (result : Except PaymentError α) :
    ∃ response, respondWith make result = .done response := by
  cases result with
  | error error => exact ⟨_, rfl⟩
  | ok value => exact ⟨_, rfl⟩

section Machine

variable (σ ε : Type) [PaymentRepository σ] [WebhookEventRepository ε] [Platform]

/-- What is made of a result changes nothing. -/
theorem respond_quiet (state : AppState) (call : ApiCall) (result : (call.behind state).Result) :
    (call.respond state result).Makes (machine σ ε).Quiet := by
  have hdone : ∀ {α β : Type} (make : α → β) (result : Except PaymentError α),
      (respondWith make result).Makes (machine σ ε).Quiet := by
    intro α β make result
    obtain ⟨response, hresponse⟩ := respond_with_done make result
    rw [hresponse]
    trivial
  cases call with
  | createPayment | listPayments | getPayment | getPaymentStatus => exact hdone _ result
  | task => trivial
  | listPaymentWebhookEvents id =>
      cases result with
      | error error => trivial
      | ok payment =>
          refine ⟨fun env world => ?_, fun reply => ?_⟩
          · show (onEvents env (reading (WebhookEventRepository.listForPayment env.scan id))
              world).2 = world
            unfold onEvents attempt reading
            cases env.eventsFault <;> rfl
          · cases reply <;> trivial

/-- The API over the machine of the system. -/
def frontEnd (state : AppState) : FrontEnd (machine σ ε) where
  Call := ApiCall
  Result := ApiCall.Result
  body := ApiCall.body state
  behind := ApiCall.behind state
  respond := ApiCall.respond state
  body_eq call := by
    cases call with
    | task call => exact (Program.bind_done call.body).symm
    | _ => rfl
  quiet := respond_quiet σ ε state

/-- The machine of the API. -/
abbrev api (state : AppState) : Machine :=
  (frontEnd σ ε state).machine

end Machine

end StellarPay
