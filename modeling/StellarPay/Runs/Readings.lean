import StellarPay.Interleaving.Own
import StellarPay.Runtime.Frames
import StellarPay.Runtime.Requests

/-!
# What is read off the clock

The instants that a request brings were read off the clock by its thread: the one of a new event
right before it is stored, the one of an outcome after its event was fetched. A payment is moved
after its thread has looked it up.
-/

namespace StellarPay

open Interleaving

/-- The request brings no instants, and needs no look at the store before it. -/
def Request.unstamped : Request → Bool
  | .createWithIdempotencyKey _ _ | .enqueue _ _ _ _ | .guardedUpdate _ _ _ | .markDelivered _ _
  | .markFailed _ _ => false
  | _ => true

variable {σ ε : Type} [PaymentRepository σ] [WebhookEventRepository ε] [Platform]

/-- The clock never went back. -/
def ClockOrdered (history : List (Event (machine σ ε))) : Prop :=
  Ascending (M := machine σ ε) Request.datedByStore Env.now history

instance (history : List (Event (machine σ ε))) : Decidable (ClockOrdered history) :=
  inferInstanceAs (Decidable (Ascending _ _ _))

/-- The thread had met the payment in the store. -/
def MetBefore (earlier : List (Event (machine σ ε))) (id : Uuid) : Prop :=
  ∃ look : Act (machine σ ε), .act look ∈ earlier ∧ look.request.datedByStore = false ∧
    ∃ payment, stored look.before.payments id = some payment

/-- The thread had fetched the event. -/
def Fetched (earlier : List (Event (machine σ ε))) (id : Uuid) (fetch : Act (machine σ ε)) : Prop :=
  .act fetch ∈ earlier ∧ ∃ now batch, fetch.Got (.fetchDue now fetchBatchSize) (.ok batch) ∧
    ∃ record ∈ batch, record.id = id

/-- The clock was read after the event had been fetched. -/
def ReadAfterFetch (earlier : List (Event (machine σ ε))) (id : Uuid) (look : Act (machine σ ε)) :
    Prop :=
  look.request = .utcNow ∧ ∃ fetch, [.act fetch, .act look].Sublist earlier ∧
    Fetched earlier id fetch

/-- What a thread has done before a request that brings instants, or that leaves it to the store to
date what it writes. -/
def StampedBy (earlier : List (Event (machine σ ε))) : Request → Prop
  | .createWithIdempotencyKey payment _ => payment.createdAt = payment.updatedAt ∧
      ∃ look : Act (machine σ ε), .act look ∈ earlier ∧ look.Got .utcNow payment.createdAt
  | .enqueue now _ _ _ => ∃ past look, earlier = past ++ [.act look] ∧ look.Got .utcNow now
  | .guardedUpdate id next hash => MetBefore earlier id ∨
      ∃ thread before, .start thread (.updateStatus id next hash) before ∈ earlier
  | .markDelivered id deliveredAt =>
      ∃ look, ReadAfterFetch earlier id look ∧ look.env.now = deliveredAt
  | .markFailed id none => ∃ fetch, Fetched earlier id fetch
  | .markFailed id (some next) => ∃ look, ReadAfterFetch earlier id look ∧ look.env.now ≤ next
  | _ => True

/-- A failure is recorded of an event that was fetched. -/
theorem fetched_of_failure {earlier : List (Event (machine σ ε))} {id : Uuid}
    {next : Option DateTime} (h : StampedBy earlier (.markFailed id next)) :
    ∃ fetch, Fetched earlier id fetch := by
  cases next with
  | none => exact h
  | some next =>
      obtain ⟨_, ⟨-, fetch, -, hfetched⟩, -⟩ := h
      exact ⟨fetch, hfetched⟩

/-- A quiet request needs nothing before it. -/
theorem stamped_of_unstamped {request : Request} (h : request.unstamped = true)
    (earlier : List (Event (machine σ ε))) : StampedBy earlier request := by
  cases request <;> first | (cases h; done) | trivial

/-- Before every request of a thread there is what it needs. -/
def Clocked (history : List (Event (machine σ ε))) : Prop :=
  ∀ earlier act later, history = earlier ++ .act act :: later → StampedBy earlier act.request

variable {history : List (Event (machine σ ε))}

/-- One more request. -/
theorem Clocked.snoc (h : Clocked history) {act : Act (machine σ ε)}
    (hstamped : StampedBy history act.request) : Clocked (history ++ [.act act]) := by
  intro earlier other later hsplit
  rcases List.eq_nil_or_concat' later with rfl | ⟨rest, last, rfl⟩
  · obtain ⟨rfl, heq⟩ := List.append_inj' hsplit rfl
    cases heq
    exact hstamped
  · rw [← List.cons_append, ← List.append_assoc] at hsplit
    exact h earlier other rest (List.append_inj' hsplit rfl).1

/-- More requests that need nothing. -/
theorem Clocked.more (h : Clocked history) {acts : List (Act (machine σ ε))}
    (hacts : ∀ act ∈ acts, act.request.unstamped = true) :
    Clocked (history ++ acts.map .act) := by
  induction acts generalizing history with
  | nil => simpa using h
  | cons act rest ih =>
      have hfirst := h.snoc (stamped_of_unstamped (hacts act List.mem_cons_self) history)
      have hmore := ih hfirst fun other hother => hacts other (List.mem_cons_of_mem _ hother)
      rwa [List.append_assoc] at hmore

/-- The history is clocked, and has everything that was in another one. -/
structure ClockedSince (base history : List (Event (machine σ ε))) : Prop where
  clocked : Clocked history
  kept : base ⊆ history

/-- A clocked history is clocked since itself. -/
theorem Clocked.since (h : Clocked history) : ClockedSince history history :=
  ⟨h, List.Subset.refl _⟩

/-- What a reading of the clock returns is the time of the request. -/
theorem now_of_reading {look : Act (machine σ ε)} {read : DateTime} (h : look.Got .utcNow read) :
    look.env.now = read := by
  obtain ⟨_, _, request, _, _⟩ := look
  obtain ⟨rfl, hanswer⟩ := h
  exact hanswer

/-- A payment that was looked up stays one that was looked up. -/
theorem MetBefore.mono {base : List (Event (machine σ ε))} {id : Uuid} (h : MetBefore base id)
    (hgrows : base ⊆ history) : MetBefore history id := by
  obtain ⟨look, hlook, hmet⟩ := h
  exact ⟨look, hgrows hlook, hmet⟩

section Programs

variable {rules : Rules (machine σ ε)} {thread : Nat} {outer : Option Uuid} {α β : Type}
  {base : List (Event (machine σ ε))}

/-- A program that needs nothing goes on. -/
theorem clocked_quiet {program : Prog α} (h : ClockedSince base history)
    (hquiet : program.Makes fun request => request.unstamped = true) :
    Local rules Clocked thread outer program (fun _ later => ClockedSince base later) history := by
  refine (local_acts hquiet (fun _ _ _ hunstamped => hunstamped) fun acts => h.clocked.more).mono ?_
  intro _ later hlater
  obtain ⟨acts, rfl, hacts⟩ := hlater
  exact ⟨h.clocked.more hacts, List.Subset.trans h.kept (List.subset_append_left _ _)⟩

/-- A request that has what it needs, and then the rest of the program. -/
theorem clocked_bind {request : Request} {next : Answer request → Prog β}
    {post : β → List (Event (machine σ ε)) → Prop} (h : ClockedSince base history)
    (hstamped : StampedBy history request)
    (hnext : ∀ (act : Act (machine σ ε)) (reply : Answer request), act.Got request reply →
      ClockedSince base (history ++ [.act act]) →
      Local rules Clocked thread outer (next reply) post (history ++ [.act act])) :
    Local rules Clocked thread outer (.request request >>= next) post history := by
  refine local_got_bind fun act reply _ hgot => ?_
  have hlater : Clocked (history ++ [.act act]) := h.clocked.snoc (by rw [hgot.1]; exact hstamped)
  exact ⟨hlater, hnext act reply hgot
    ⟨hlater, List.Subset.trans h.kept (List.subset_append_left _ _)⟩⟩

/-- A request that needs nothing, and then the rest of the program. -/
theorem clocked_look {request : Request} {next : Answer request → Prog β}
    {post : β → List (Event (machine σ ε)) → Prop} (h : ClockedSince base history)
    (hquiet : request.unstamped = true)
    (hnext : ∀ (act : Act (machine σ ε)) (reply : Answer request), act.Got request reply →
      ClockedSince base (history ++ [.act act]) →
      Local rules Clocked thread outer (next reply) post (history ++ [.act act])) :
    Local rules Clocked thread outer (.request request >>= next) post history :=
  clocked_bind h (stamped_of_unstamped hquiet history) hnext

/-- A creation stamps its payment by one reading. -/
theorem create_payment_clocked {service : PaymentService} {amount reference : String}
    {destination memo key : Option String} (h : Clocked history) :
    Local rules Clocked thread outer
      (service.createPayment amount reference destination memo key) (fun _ _ => True) history := by
  unfold PaymentService.createPayment
  split
  · exact local_pure trivial
  have hmemo : (memoOr memo).Makes fun request => request.unstamped = true := by
    cases memo with
    | none => exact ⟨rfl, fun _ => trivial⟩
    | some memo => exact Program.makes_pure _
  refine local_bind ((clocked_quiet h.since hmemo).mono fun memo history h => ?_)
  refine local_bind (clocked_look h rfl fun look now hlook h => ?_)
  refine clocked_look h rfl fun draw id _ h => local_pure ?_
  have hexisting : (findExisting key).Makes fun request => request.unstamped = true := by
    cases key with
    | none => exact Program.makes_pure _
    | some key => exact ⟨rfl, fun _ => trivial⟩
  refine local_bind ((clocked_quiet h.clocked.since hexisting).mono fun existing later h => ?_)
  rcases existing with error | _ | existing
  · exact local_pure trivial
  · exact clocked_bind h ⟨rfl, look, h.kept (by simp), hlook⟩ fun _ _ _ _ => local_pure trivial
  · exact local_pure trivial

/-- An update needs a look at the payment, or to be what was called. -/
theorem update_status_clocked {id : Uuid} {next : PaymentStatus} {hash : Option String}
    (h : ClockedSince base history) (hstamped : StampedBy history (.guardedUpdate id next hash)) :
    Local rules Clocked thread outer (updateStatus id next hash)
      (fun _ later => ClockedSince base later) history := by
  refine clocked_bind h hstamped fun act reply _ h => ?_
  rcases reply with error | _ | updated
  · exact local_pure h
  · refine clocked_look h rfl fun read found _ h => ?_
    rcases found with error | _ | found <;> exact local_pure h
  · exact local_pure h

/-- An event is stamped by the reading right before it is stored. -/
theorem enqueue_event_clocked {event : PaymentEvent} (h : ClockedSince base history) :
    Local rules Clocked thread outer (WebhookService.enqueueEvent event)
      (fun _ later => ClockedSince base later) history := by
  refine clocked_look h rfl fun draw id _ h => ?_
  refine clocked_look h rfl fun look createdAt _ h => ?_
  refine clocked_look h rfl fun clock now hclock h => ?_
  refine clocked_bind h ⟨_, clock, rfl, hclock⟩ fun store reply _ h => ?_
  cases reply <;> exact local_pure h

/-- An outcome that is recorded after a reading is stamped by it. -/
theorem mark_clocked {mark : DateTime → Request} {id : Uuid} {fetch : Act (machine σ ε)}
    (hfetched : Fetched base id fetch)
    (hmark : ∀ (earlier : List (Event (machine σ ε))) (look : Act (machine σ ε)),
      ReadAfterFetch earlier id look → StampedBy earlier (mark look.env.now))
    (h : ClockedSince base history) :
    Local rules Clocked thread outer
      (.request .utcNow >>= fun now : DateTime => .request (mark now) >>= fun _ => pure ())
      (fun _ later => ClockedSince base later) history := by
  refine clocked_look h rfl fun look now hlook hlooked => ?_
  have hfetch : .act fetch ∈ history := h.kept hfetched.1
  have hsublist : [.act fetch, .act look].Sublist (history ++ [Event.act look]) :=
    (List.singleton_sublist.mpr hfetch).append (List.Sublist.refl _)
  have hread : ReadAfterFetch (history ++ [Event.act look]) id look :=
    ⟨hlook.1, fetch, hsublist, List.mem_append_left _ hfetch, hfetched.2⟩
  refine clocked_bind hlooked ?_ fun _ _ _ h => local_pure h
  rw [← now_of_reading hlook]
  exact hmark _ look hread

/-- A delivery stamps its outcome by a reading after the fetch. -/
theorem deliver_one_clocked {service : WebhookService} {fetch : Act (machine σ ε)}
    {record : WebhookEventRecord} (hfetched : Fetched base record.id fetch)
    (h : ClockedSince base history) :
    Local rules Clocked thread outer (service.deliverOne record)
      (fun _ later => ClockedSince base later) history := by
  refine clocked_look h rfl fun post result _ h => ?_
  dsimp only
  split
  · exact mark_clocked hfetched (fun _ look hread => ⟨look, hread, rfl⟩) h
  · split
    · refine clocked_bind h ?_ fun _ _ _ h => local_pure h
      exact ⟨fetch, h.kept hfetched.1, hfetched.2⟩
    · rename_i delay hdelay
      refine mark_clocked hfetched (fun _ look hread => ⟨look, hread, ?_⟩) h
      exact Int.le_add_of_nonneg_right (to_chrono_nonneg hdelay)

/-- So do all deliveries of a batch. -/
theorem deliver_all_clocked {service : WebhookService} {fetch : Act (machine σ ε)}
    {records : List WebhookEventRecord}
    (hfetched : ∀ record ∈ records, Fetched base record.id fetch) (h : ClockedSince base history) :
    Local rules Clocked thread outer (service.deliverAll records)
      (fun _ later => ClockedSince base later) history := by
  induction records generalizing history with
  | nil => exact local_pure h
  | cons record rest ih =>
      obtain ⟨hfirst, hrest⟩ := List.forall_mem_cons.mp hfetched
      exact local_bind ((local_within (deliver_one_clocked hfirst h)).mono fun _ _ h => ih hrest h)

/-- So does a pass. -/
theorem deliver_due_clocked {service : WebhookService} (h : Clocked history) :
    Local rules Clocked thread outer service.deliverDue (fun _ _ => True) history := by
  refine clocked_look h.since rfl fun look now _ h => ?_
  refine clocked_look h rfl fun fetch reply hfetch h => ?_
  cases reply with
  | error error => exact local_pure trivial
  | ok batch =>
      have hfetched : ∀ record ∈ batch,
          Fetched (history ++ [.act look] ++ [.act fetch]) record.id fetch := fun record hrecord =>
        ⟨List.mem_concat_self, now, batch, hfetch, record, hrecord, rfl⟩
      exact local_bind ((deliver_all_clocked hfetched h.clocked.since).mono
        fun _ _ _ => local_pure trivial)

/-- An update of the worker, and what it does next. -/
theorem update_then_clocked {id : Uuid} {next : PaymentStatus} {hash : Option String}
    {rest : Except RepositoryError Payment → Prog (Except WorkerError Unit)}
    (hmet : MetBefore base id) (h : ClockedSince base history)
    (herror : ∀ error, rest (.error error) = pure (.error (.repository error)))
    (hok : ∀ updated later, ClockedSince base later →
      Local rules Clocked thread outer (rest (.ok updated))
        (fun _ last => ClockedSince base last) later) :
    Local rules Clocked thread outer (updateStatus id next hash >>= rest)
      (fun _ later => ClockedSince base later) history := by
  refine local_bind ((update_status_clocked h (.inl (hmet.mono h.kept))).mono
    fun result later h => ?_)
  cases result with
  | error error =>
      rw [herror]
      exact local_pure h
  | ok updated => exact hok updated later h

/-- The announcement that ends the processing of a payment. -/
theorem emit_clocked {event : PaymentEvent} {result : Except WorkerError Unit}
    (h : ClockedSince base history) :
    Local rules Clocked thread outer (ReconciliationWorker.emit event >>= fun _ => pure result)
      (fun _ later => ClockedSince base later) history := by
  refine local_bind (local_bind ((enqueue_event_clocked h).mono fun _ later h => ?_))
  exact local_pure (local_pure h)

/-- A pass moves a pending payment that it has looked up. -/
theorem process_pending_clocked {worker : ReconciliationWorker} {payment : Payment}
    (hmet : MetBefore base payment.id) (h : ClockedSince base history) :
    Local rules Clocked thread outer (worker.processPending payment)
      (fun _ later => ClockedSince base later) history := by
  refine clocked_look h rfl fun clock now _ h => ?_
  dsimp only
  split
  · exact update_then_clocked hmet h (fun _ => rfl) fun _ _ h => emit_clocked h
  · split
    · exact local_pure h
    · rename_i memo _
      refine clocked_look h rfl fun search found _ h => ?_
      rcases found with error | _ | found
      · exact local_pure h
      · exact local_pure h
      · dsimp only
        split
        · exact update_then_clocked hmet h (fun _ => rfl) fun _ _ h => emit_clocked h
        · exact local_pure h

/-- So it does with a detected one. -/
theorem process_detected_clocked {payment : Payment} (hmet : MetBefore base payment.id)
    (h : ClockedSince base history) :
    Local rules Clocked thread outer (ReconciliationWorker.processDetected payment)
      (fun _ later => ClockedSince base later) history := by
  unfold ReconciliationWorker.processDetected
  split
  · exact local_pure h
  · rename_i hash _
    refine clocked_look h rfl fun search found _ h => ?_
    cases found with
    | error error => exact local_pure h
    | ok transaction =>
        dsimp only
        split
        · refine update_then_clocked hmet h (fun _ => rfl) fun updated _ h => ?_
          exact clocked_look h rfl fun _ _ _ h => emit_clocked h
        · exact update_then_clocked hmet h (fun _ => rfl) fun _ _ h => emit_clocked h

/-- So it does with all payments of its list. -/
theorem process_all_clocked {worker : ReconciliationWorker} {payments : List Payment}
    (hmet : ∀ payment ∈ payments, MetBefore base payment.id) (h : ClockedSince base history) :
    Local rules Clocked thread none (worker.processAll payments)
      (fun _ later => ClockedSince base later) history := by
  induction payments generalizing history with
  | nil => exact local_pure h
  | cons payment rest ih =>
      obtain ⟨hfirst, hrest⟩ := List.forall_mem_cons.mp hmet
      have hprocess : Local rules Clocked thread (some payment.id) (worker.process payment)
          (fun _ later => ClockedSince base later) history := by
        unfold ReconciliationWorker.process
        split
        · exact process_pending_clocked hfirst h
        · exact process_detected_clocked hfirst h
        · exact local_pure h
      refine local_bind ((local_within hprocess).mono fun result later h => ?_)
      cases result with
      | error error => exact local_pure h
      | ok _ => exact ih hrest h

variable [RepositoryLaws σ]

/-- A pass has looked up what it has listed. -/
theorem run_once_clocked {worker : ReconciliationWorker} (h : Clocked history) :
    Local rules Clocked thread none worker.runOnce (fun _ _ => True) history := by
  refine clocked_look h.since rfl fun listing reply hlisting h => ?_
  cases reply with
  | error error => exact local_pure trivial
  | ok payments =>
      refine (process_all_clocked (fun payment hpayment => ?_) h.clocked.since).mono
        fun _ _ _ => trivial
      have hstored := ((answer_listing hlisting.2).2.2 payment).mp hpayment
      exact ⟨listing, List.mem_concat_self, by rw [hlisting.1]; rfl, payment, hstored.1⟩

/-- A transition of the service looks the payment up first. -/
theorem transition_clocked {id : Uuid} {target : PaymentStatus} {hash : Option String}
    (h : Clocked history) :
    Local rules Clocked thread outer (PaymentService.transition id target hash)
      (fun _ _ => True) history := by
  refine clocked_look h.since rfl fun look reply hlook h => ?_
  rcases reply with error | _ | current
  · exact local_pure trivial
  · exact local_pure trivial
  dsimp only
  split
  · refine local_bind ((update_status_clocked h ?_).mono fun result _ _ => ?_)
    · refine .inl ⟨look, List.mem_concat_self, by rw [hlook.1]; rfl, current, ?_⟩
      rcases answer_find look.env id look.before with ⟨-, error, herror⟩ | hfound
      · have hfailed := herror.symm.trans hlook.2
        cases hfailed
      · exact Except.ok.inj (hfound.symm.trans hlook.2)
    · cases result <;> exact local_pure trivial
  · exact local_pure trivial

end Programs

variable [RepositoryLaws σ] {rules : Rules (machine σ ε)} {world : World σ ε}
  {state : State (machine σ ε)}

/-- In every run, the instants that a thread has brought were read off the clock by it. -/
theorem clocked (hreach : Reachable rules world state) (thread : Nat) :
    Clocked (state.config.own thread) := by
  refine (@Reachable.own_holds (machine σ ε) rules Clocked (fun _ _ _ => True) (by simp [Clocked])
    (fun call thread before _ => ?_) world state hreach).1 thread
  have hstart : Clocked [Event.start (M := machine σ ε) thread call before] := by
    intro earlier act later hsplit
    simp [List.cons_eq_append_iff] at hsplit
  refine ⟨hstart, ?_⟩
  have hquiet : (∀ request, call.Allows request → request.unstamped = true) →
      Local rules Clocked thread none ((machine σ ε).body call) (fun _ _ => True)
        [Event.start (M := machine σ ε) thread call before] := fun hallows =>
    (clocked_quiet hstart.since ((body_makes call).mono hallows)).mono fun _ _ _ => trivial
  cases call with
  | createPayment => exact create_payment_clocked hstart
  | markDetected | confirmPayment | failPayment | expirePayment => exact transition_clocked hstart
  | updateStatus =>
      refine (update_status_clocked hstart.since (.inr ⟨thread, before, ?_⟩)).mono
        fun _ _ _ => trivial
      exact List.mem_singleton.mpr rfl
  | runOnce => exact run_once_clocked hstart
  | deliverDue => exact deliver_due_clocked hstart
  | getPayment | listPayments =>
      refine hquiet fun request hallowed => ?_
      cases request <;> first | rfl | exact hallowed.elim

/-- So were the instants that a request of the run has brought. -/
theorem stamped_of_mem (hreach : Reachable rules world state) {act : Act (machine σ ε)}
    (hact : .act act ∈ state.config.trace) : ∃ earlier later,
      state.config.own act.thread = earlier ++ .act act :: later ∧
      StampedBy earlier act.request := by
  obtain ⟨earlier, later, hown⟩ := List.append_of_mem (Config.mem_own.mpr ⟨hact, rfl⟩)
  exact ⟨earlier, later, hown, clocked hreach act.thread earlier act later hown⟩

end StellarPay
