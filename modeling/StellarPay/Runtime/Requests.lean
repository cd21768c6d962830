import StellarPay.Runtime.System

/-!
# The requests of each call

Which requests a call can make, whatever it is answered. Results about runs that only depend on
the kind of requests made read it off here.
-/

namespace StellarPay

open Interleaving

namespace Request

/-- The requests of a creation with this key: new payments are pending and without a hash. -/
def OfCreation (key : Option String) : Request → Prop
  | .utcNow | .newV4 => True
  | .findByIdempotencyKey name => key = some name
  | .createWithIdempotencyKey payment used =>
      used = key ∧ payment.status = .pending ∧ payment.stellarTxHash = none
  | _ => False

/-- The requests of an update of one payment. -/
def OfUpdate (id : Uuid) (next : PaymentStatus) (hash : Option String) : Request → Prop
  | .findById found => found = id
  | .guardedUpdate target status text => target = id ∧ status = next ∧ text = hash
  | _ => False

/-- Reads of the payments. -/
def OfReading : Request → Prop
  | .findById _ | .listPaginated _ _ _ | .count _ => True
  | _ => False

/-- The requests of a reconciliation pass: a hash is written exactly with a detection. -/
def OfPass : Request → Prop
  | .utcNow | .newV4 | .findById _ | .listPendingForReconciliation | .findPayment _ _ _
  | .getTransaction _ | .recordPayment _ | .enqueue _ _ _ _ => True
  | .guardedUpdate _ next hash => hash.isSome = true ↔ next = .detected
  | _ => False

/-- What is enqueued is the envelope of an event. -/
def Encloses [Platform] : Request → Prop
  | .enqueue _ paymentId eventType payload => ∃ (event : PaymentEvent) (id : Uuid) (now : DateTime),
      paymentId = event.payment.id ∧ eventType = event.eventType ∧
      payload = WebhookEnvelope.toJson
        ⟨id, event.eventType, now, .object [("payment", event.payment.toJson)]⟩
  | _ => True

/-- The requests that a pass makes for one payment: it writes no other one, and what it enqueues is
the envelope of an event. -/
def OfProcess [Platform] (id : Uuid) : Request → Prop
  | .utcNow | .newV4 | .findById _ | .findPayment _ _ _ | .getTransaction _ | .recordPayment _ =>
      True
  | .enqueue now paymentId eventType payload => Encloses (.enqueue now paymentId eventType payload)
  | .guardedUpdate target next hash => target = id ∧ (hash.isSome = true ↔ next = .detected)
  | _ => False

/-- They are requests of a pass. -/
theorem OfProcess.of_pass [Platform] {id : Uuid} {request : Request} (h : request.OfProcess id) :
    request.OfPass := by
  cases request with
  | guardedUpdate => exact h.2
  | _ => trivial

/-- They enclose what they enqueue. -/
theorem OfProcess.encloses [Platform] {id : Uuid} {request : Request} (h : request.OfProcess id) :
    request.Encloses := by
  cases request with
  | enqueue => exact h
  | _ => trivial

/-- The requests of a delivery of webhooks. -/
def OfDelivery : Request → Prop
  | .utcNow | .fetchDue _ _ | .markDelivered _ _ | .markFailed _ _ | .post _ _ _ => True
  | _ => False

/-- The requests of a delivery for `service`: it posts events as they were fetched. -/
def OfDeliveryBy [Platform] (service : WebhookService) : Request → Prop
  | .post url headers body => ∃ record, .post url headers body = service.postOf record
  | request => request.OfDelivery

/-- They are requests of a delivery. -/
theorem OfDeliveryBy.of_delivery [Platform] {service : WebhookService} {request : Request}
    (h : request.OfDeliveryBy service) : request.OfDelivery := by
  cases request with
  | post => trivial
  | _ => exact h

end Request

/-- The requests a call can make. -/
def Call.Allows : Call → Request → Prop
  | .createPayment _ _ _ _ _ key => Request.OfCreation key
  | .markDetected id hash => Request.OfUpdate id .detected (some hash)
  | .confirmPayment id => Request.OfUpdate id .confirmed none
  | .failPayment id => Request.OfUpdate id .failed none
  | .expirePayment id => Request.OfUpdate id .expired none
  | .getPayment _ | .listPayments _ _ _ => Request.OfReading
  | .updateStatus id next hash => Request.OfUpdate id next hash
  | .runOnce _ => Request.OfPass
  | .deliverDue _ => Request.OfDelivery

/-- An update is a guarded write, and perhaps a read that explains why nothing matched. -/
theorem update_status_makes {id : Uuid} {next : PaymentStatus} {hash : Option String}
    {allowed : Request → Prop} (hwrite : allowed (.guardedUpdate id next hash))
    (hread : allowed (.findById id)) : (updateStatus id next hash).Makes allowed := by
  refine Program.makes_request_bind _ _ |>.mpr ⟨hwrite, fun result => ?_⟩
  rcases result with error | _ | updated
  · exact Program.makes_pure _
  · refine Program.makes_request_bind _ _ |>.mpr ⟨hread, fun found => ?_⟩
    rcases found with error | _ | found <;> exact Program.makes_pure _
  · exact Program.makes_pure _

/-- A transition of the service is a read and an update. -/
theorem transition_makes {id : Uuid} {next : PaymentStatus} {hash : Option String} :
    (PaymentService.transition id next hash).Makes (Request.OfUpdate id next hash) := by
  have hupdate : (updateStatus id next hash).Makes (Request.OfUpdate id next hash) :=
    update_status_makes ⟨rfl, rfl, rfl⟩ rfl
  refine Program.makes_request_bind _ _ |>.mpr ⟨rfl, fun found => ?_⟩
  rcases found with error | _ | current
  · exact Program.makes_pure _
  · exact Program.makes_pure _
  · dsimp only
    split
    · refine hupdate.bind fun result => ?_
      cases result <;> exact Program.makes_pure _
    · exact Program.makes_pure _

variable [Platform]

/-- An update of the worker, followed by more requests when it succeeds. -/
theorem update_then_makes {id : Uuid} {next : PaymentStatus} {hash : Option String}
    {rest : Except RepositoryError Payment → Prog (Except WorkerError Unit)}
    (h : hash.isSome = true ↔ next = .detected)
    (hrest : ∀ updated, (rest (.ok updated)).Makes (Request.OfProcess id))
    (herror : ∀ error, rest (.error error) = pure (.error (.repository error))) :
    (updateStatus id next hash >>= rest).Makes (Request.OfProcess id) := by
  refine (update_status_makes ⟨rfl, h⟩ trivial).bind fun result => ?_
  cases result with
  | error error =>
      rw [herror]
      exact Program.makes_pure _
  | ok updated => exact hrest updated

/-- A creation asks for the time, for identifiers, for its key, and to create. -/
theorem create_payment_makes {service : PaymentService} {amount reference : String}
    {destination memo key : Option String} :
    (service.createPayment amount reference destination memo key).Makes
      (Request.OfCreation key) := by
  unfold PaymentService.createPayment
  split
  · exact Program.makes_pure _
  · have hmemo : (memoOr memo).Makes (Request.OfCreation key) := by
      cases memo with
      | none => exact ⟨trivial, fun _ => trivial⟩
      | some memo => exact Program.makes_pure _
    refine hmemo.bind fun memo => ?_
    refine Program.makes_request_bind _ _ |>.mpr ⟨trivial, fun now => ?_⟩
    refine Program.makes_request_bind _ _ |>.mpr ⟨trivial, fun id => ?_⟩
    refine .bind (?_ : (findExisting key).Makes _) fun existing => ?_
    · cases key with
      | none => exact Program.makes_pure _
      | some name => exact (Program.makes_request _).mpr rfl
    · rcases existing with error | _ | existing
      · exact Program.makes_pure _
      · exact Program.makes_request_bind _ _ |>.mpr ⟨⟨rfl, rfl, rfl⟩, fun _ => trivial⟩
      · exact Program.makes_pure _

/-- Sending an event is a request of a pass. -/
theorem emit_makes {event : PaymentEvent} {id : Uuid} :
    (ReconciliationWorker.emit event).Makes (Request.OfProcess id) :=
  ReconciliationWorker.emit_makes_of trivial trivial fun id createdAt _ =>
    ⟨event, id, createdAt, rfl, rfl, rfl⟩

/-- A pending payment is written as expired without a hash, or as detected with one. -/
theorem process_pending_makes {worker : ReconciliationWorker} {payment : Payment} :
    (worker.processPending payment).Makes (Request.OfProcess payment.id) := by
  refine Program.makes_request_bind _ _ |>.mpr ⟨trivial, fun now => ?_⟩
  dsimp only
  split
  · refine update_then_makes (by simp) (fun updated => ?_) fun _ => rfl
    exact emit_makes.bind fun _ => Program.makes_pure _
  · split
    · exact Program.makes_pure _
    · refine Program.makes_request_bind _ _ |>.mpr ⟨trivial, fun found => ?_⟩
      rcases found with error | _ | found
      · exact Program.makes_pure _
      · exact Program.makes_pure _
      · dsimp only
        split
        · refine update_then_makes (by simp) (fun updated => ?_) fun _ => rfl
          exact emit_makes.bind fun _ => Program.makes_pure _
        · exact Program.makes_pure _

/-- A detected payment is written as confirmed or as failed, without a hash. -/
theorem process_detected_makes {payment : Payment} :
    (ReconciliationWorker.processDetected payment).Makes (Request.OfProcess payment.id) := by
  unfold ReconciliationWorker.processDetected
  split
  · exact Program.makes_pure _
  · refine Program.makes_request_bind _ _ |>.mpr ⟨trivial, fun transaction => ?_⟩
    cases transaction with
    | error error => exact Program.makes_pure _
    | ok transaction =>
        dsimp only
        split
        · refine update_then_makes (by simp) (fun updated => ?_) fun _ => rfl
          refine Program.makes_request_bind _ _ |>.mpr ⟨trivial, fun _ => ?_⟩
          exact emit_makes.bind fun _ => Program.makes_pure _
        · refine update_then_makes (by simp) (fun updated => ?_) fun _ => rfl
          exact emit_makes.bind fun _ => Program.makes_pure _

/-- What a pass does with one payment of its list. -/
theorem process_makes {worker : ReconciliationWorker} {payment : Payment} :
    (worker.process payment).Makes (Request.OfProcess payment.id) := by
  unfold ReconciliationWorker.process
  split
  · exact process_pending_makes
  · exact process_detected_makes
  · exact Program.makes_pure _

/-- The loop of a pass processes its payments one by one. -/
theorem process_all_makes_of {worker : ReconciliationWorker} {payments : List Payment}
    {allowed : Request → Prop} (h : ∀ id request, Request.OfProcess id request → allowed request) :
    (worker.processAll payments).Makes allowed := by
  induction payments with
  | nil => exact Program.makes_pure _
  | cons payment rest ih =>
      have hprocess : (worker.process payment).Makes allowed := process_makes.mono (h payment.id)
      refine (Program.makes_within.mpr hprocess).bind fun result => ?_
      cases result with
      | error error => exact Program.makes_pure _
      | ok _ => exact ih

/-- It makes requests of a pass. -/
theorem process_all_makes {worker : ReconciliationWorker} {payments : List Payment} :
    (worker.processAll payments).Makes Request.OfPass :=
  process_all_makes_of fun _ _ => Request.OfProcess.of_pass

/-- The delivery of one event posts it and records the outcome. -/
theorem deliver_one_makes {service : WebhookService} {record : WebhookEventRecord} :
    (service.deliverOne record).Makes (Request.OfDeliveryBy service) := by
  refine Program.makes_request_bind _ _ |>.mpr ⟨⟨record, rfl⟩, fun result => ?_⟩
  dsimp only
  split
  · exact ⟨trivial, fun _ => ⟨trivial, fun _ => trivial⟩⟩
  · split
    · exact ⟨trivial, fun _ => trivial⟩
    · exact ⟨trivial, fun _ => ⟨trivial, fun _ => trivial⟩⟩

/-- The loop of a delivery posts its events one by one. -/
theorem deliver_all_makes {service : WebhookService} {records : List WebhookEventRecord} :
    (service.deliverAll records).Makes (Request.OfDeliveryBy service) := by
  induction records with
  | nil => exact Program.makes_pure _
  | cons record rest ih => exact (Program.makes_within.mpr deliver_one_makes).bind fun _ => ih

/-- A pass fetches what is due and delivers it. -/
theorem deliver_due_makes {service : WebhookService} :
    service.deliverDue.Makes (Request.OfDeliveryBy service) := by
  refine Program.makes_request_bind _ _ |>.mpr ⟨trivial, fun now => ?_⟩
  refine Program.makes_request_bind _ _ |>.mpr ⟨trivial, fun due => ?_⟩
  cases due with
  | error error => exact Program.makes_pure _
  | ok due => exact deliver_all_makes.bind fun _ => Program.makes_pure _

/-- Every call makes only the requests it can. -/
theorem body_makes (call : Call) : call.body.Makes call.Allows := by
  cases call with
  | createPayment => exact create_payment_makes
  | markDetected => exact transition_makes
  | confirmPayment => exact transition_makes
  | failPayment => exact transition_makes
  | expirePayment => exact transition_makes
  | getPayment id =>
      refine Program.makes_request_bind _ _ |>.mpr ⟨trivial, fun found => ?_⟩
      rcases found with error | _ | payment <;> exact Program.makes_pure _
  | listPayments filter page perPage =>
      refine Program.makes_request_bind _ _ |>.mpr ⟨trivial, fun payments => ?_⟩
      cases payments with
      | error error => exact Program.makes_pure _
      | ok payments =>
          refine Program.makes_request_bind _ _ |>.mpr ⟨trivial, fun total => ?_⟩
          cases total <;> exact Program.makes_pure _
  | updateStatus => exact update_status_makes ⟨rfl, rfl, rfl⟩ rfl
  | runOnce worker =>
      refine Program.makes_request_bind _ _ |>.mpr ⟨trivial, fun pending => ?_⟩
      cases pending with
      | error error => exact Program.makes_pure _
      | ok pending => exact process_all_makes
  | deliverDue service => exact deliver_due_makes.mono fun _ => Request.OfDeliveryBy.of_delivery

/-- What is known of every request of a run: its thread's call can make it, and it was permitted. -/
theorem act_allowed {σ ε : Type} [PaymentRepository σ] [WebhookEventRepository ε]
    {rules : Rules (machine σ ε)} {world : World σ ε} {state : State (machine σ ε)}
    (hreach : Reachable rules world state) {act : Act (machine σ ε)}
    (hact : .act act ∈ state.config.trace) :
    ∃ t, state.threads[act.thread]? = some t ∧ rules.admits t.call ∧
      t.call.Allows act.request ∧ rules.permits act.env act.span act.request act.before :=
  hreach.acts_make Call.Allows (fun call _ => body_makes call) act hact

end StellarPay
