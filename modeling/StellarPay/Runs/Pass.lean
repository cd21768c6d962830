import StellarPay.Interleaving.Own
import StellarPay.Runtime.Frames
import StellarPay.Runtime.Requests

/-!
# What a reconciliation pass does

The own history of a pass, whatever the other threads do: it looks around, commits a transition
for a reason that it has just seen (`Explained`), and then announces that transition before it
turns to anything else (`Tells`). What follows for the payments and for the notifications of whole
runs is in the modules after this one.
-/

namespace StellarPay

open Interleaving

section Events

variable {σ ε : Type} [PaymentRepository σ] [WebhookEventRepository ε] [Platform]

/-- The payment that an event moved, as the guarded update returned it. -/
def committed : Event (machine σ ε) → Option Payment
  | .act ⟨_, _, .guardedUpdate id next hash, env, before⟩ =>
      match (answer env (.guardedUpdate id next hash) before).1 with
      | .ok moved => moved
      | .error _ => none
  | _ => none

/-- The notification that an event tried to store: the payment, the type and the payload. -/
def attempted : Event (machine σ ε) → Option (Uuid × String × Value)
  | .act ⟨_, _, .enqueue _ paymentId eventType payload, _, _⟩ =>
      some (paymentId, eventType, payload)
  | _ => none

/-- The payment that an event asked the recorder to record. -/
def recorded : Event (machine σ ε) → Option Payment
  | .act ⟨_, _, .recordPayment payment, _, _⟩ => some payment
  | _ => none

/-- A commit is a guarded update that returned the payment. -/
theorem committed_eq_some {event : Event (machine σ ε)} {updated : Payment}
    (h : committed event = some updated) : ∃ act id next hash, event = .act act ∧
      act.Got (.guardedUpdate id next hash) (.ok (some updated)) := by
  unfold committed at h
  split at h
  · rename_i thread span id next hash env world
    split at h
    · rename_i moved hanswer
      exact ⟨_, id, next, hash, rfl, rfl, hanswer.trans (by rw [h])⟩
    · cases h
  · cases h

/-- A guarded update that returned the payment is a commit. -/
theorem committed_of_got {act : Act (machine σ ε)} {id : Uuid} {next : PaymentStatus}
    {hash : Option String} {updated : Payment}
    (h : act.Got (.guardedUpdate id next hash) (.ok (some updated))) :
    committed (.act act) = some updated := by
  obtain ⟨thread, span, request, env, before⟩ := act
  obtain ⟨rfl, hanswer⟩ := h
  simp only [committed]
  rw [show (answer env (.guardedUpdate id next hash) before).1 = _ from hanswer]

/-- An attempt is a request to store an event. -/
theorem attempted_eq_some {event : Event (machine σ ε)} {id : Uuid} {eventType : String}
    {payload : Value} (h : attempted event = some (id, eventType, payload)) :
    ∃ act now, event = .act act ∧ act.request = .enqueue now id eventType payload := by
  unfold attempted at h
  split at h
  · cases h
    exact ⟨_, _, rfl, rfl⟩
  · cases h

/-- A recording is a request to the recorder. -/
theorem recorded_eq_some {event : Event (machine σ ε)} {payment : Payment}
    (h : recorded event = some payment) :
    ∃ act, event = .act act ∧ act.request = .recordPayment payment := by
  unfold recorded at h
  split at h
  · cases h
    exact ⟨_, rfl, rfl⟩
  · cases h

/-- The event asked for the time or for an identifier. -/
def Idle : Event (machine σ ε) → Prop
  | .act act => act.request = .utcNow ∨ act.request = .newV4
  | .start _ _ _ => False

/-- An event that commits neither announces nor records. -/
theorem eq_none_of_committed {event : Event (machine σ ε)} {updated : Payment}
    (h : committed event = some updated) : attempted event = none ∧ recorded event = none := by
  unfold committed at h
  split at h
  · exact ⟨rfl, rfl⟩
  · cases h

/-- An event that announces neither commits nor records. -/
theorem eq_none_of_attempted {event : Event (machine σ ε)} {attempt : Uuid × String × Value}
    (h : attempted event = some attempt) : committed event = none ∧ recorded event = none := by
  unfold attempted at h
  split at h
  · exact ⟨rfl, rfl⟩
  · cases h

/-- An event that records neither commits nor announces. -/
theorem eq_none_of_recorded {event : Event (machine σ ε)} {payment : Payment}
    (h : recorded event = some payment) : committed event = none ∧ attempted event = none := by
  unfold recorded at h
  split at h
  · exact ⟨rfl, rfl⟩
  · cases h

/-- An idle event does none of the three. -/
theorem Idle.eq_none {event : Event (machine σ ε)} (h : Idle event) :
    committed event = none ∧ attempted event = none ∧ recorded event = none := by
  cases event with
  | start => exact h.elim
  | act act =>
      obtain ⟨thread, span, request, env, before⟩ := act
      rcases h with rfl | rfl <;> exact ⟨rfl, rfl, rfl⟩

/-- The event that a worker sends for a payment it has moved. -/
def eventFor (payment : Payment) : PaymentEvent :=
  match payment.status with
  | .pending => .paymentCreated payment
  | .detected => .paymentDetected payment
  | .confirmed => .paymentConfirmed payment
  | .failed => .paymentFailed payment
  | .expired => .paymentExpired payment

/-- The event tried to store the notification of the transition that produced `updated`. -/
def Announces (event : Event (machine σ ε)) (updated : Payment) : Prop :=
  ∃ payload, attempted event = some (updated.id, (eventFor updated).eventType, payload) ∧
    (payload.field "data").bind (Value.field "payment") = some updated.toJson

/-- A listing in the history found `payment` stored like this. -/
def Snapshot (history : List (Event (machine σ ε))) (payment : Payment) : Prop :=
  ∃ listing, .act listing ∈ history ∧ stored listing.before.payments payment.id = some payment

/-- What a pass has seen when it writes a transition. -/
inductive Explained (worker : ReconciliationWorker) (history : List (Event (machine σ ε))) :
    Uuid → PaymentStatus → Option String → Prop where
  /-- The clock showed that the payment is too old. -/
  | expired (snapshot : Payment) (clock : Act (machine σ ε)) (hsnapshot : Snapshot history snapshot)
      (hclock : .act clock ∈ history)
      (hage : clock.request = .utcNow ∧ worker.expiry ≤ clock.env.now - snapshot.createdAt) :
      Explained worker history snapshot.id .expired none
  /-- The clock showed that the payment is young enough, and the search that followed at once found
  a transfer with its memo and its amount. -/
  | detected (snapshot : Payment) (earlier : List (Event (machine σ ε)))
      (clock find : Act (machine σ ε)) (memo : String) (found : StellarPayment)
      (hsnapshot : Snapshot earlier snapshot)
      (hsteps : history = earlier ++ [.act clock, .act find])
      (hclock : clock.span = some snapshot.id ∧ clock.request = .utcNow ∧
        clock.env.now - snapshot.createdAt < worker.expiry)
      (hmemo : snapshot.memo = some memo) (hspan : find.span = some snapshot.id)
      (hfind : find.Got (.findPayment snapshot.destination memo snapshot.createdAt)
        (.ok (some found)))
      (hamount : amountsMatch snapshot.amount found.amount = true) :
      Explained worker history snapshot.id .detected (some found.transactionHash)
  /-- The transaction of the payment was looked up. -/
  | verified (snapshot : Payment) (act : Act (machine σ ε)) (hash : String)
      (transaction : StellarTransaction) (hsnapshot : Snapshot history snapshot)
      (hhash : snapshot.stellarTxHash = some hash) (hact : .act act ∈ history)
      (hgot : act.Got (.getTransaction hash) (.ok transaction)) :
      Explained worker history snapshot.id
        (if transaction.successful then .confirmed else .failed) none

/-- Where a pass stands between its commits and its notifications. -/
inductive Stage where
  /-- Every transition has been announced. -/
  | clear
  /-- The transition that produced `updated` has not been announced yet. -/
  | owing (updated : Payment) (recorded : Bool)

/-- What one event of a pass does to its stage: the pass looks around, commits, records what it
confirmed, or announces. -/
inductive Move (worker : ReconciliationWorker) (history : List (Event (machine σ ε)))
    (event : Event (machine σ ε)) : Stage → Stage → Prop where
  | look (hcommitted : committed event = none) (hattempted : attempted event = none)
      (hrecorded : recorded event = none) : Move worker history event .clear .clear
  | commit (act : Act (machine σ ε)) (id : Uuid) (next : PaymentStatus) (hash : Option String)
      (updated : Payment) (hevent : event = .act act)
      (hrequest : act.request = .guardedUpdate id next hash)
      (hexplained : Explained worker history id next hash)
      (hcommitted : committed event = some updated) :
      Move worker history event .clear (.owing updated false)
  | idle {updated : Payment} {told : Bool} (hidle : Idle event) :
      Move worker history event (.owing updated told) (.owing updated told)
  | record {updated : Payment} (hconfirmed : updated.status = .confirmed)
      (hrecorded : recorded event = some updated) :
      Move worker history event (.owing updated false) (.owing updated true)
  | announce {updated : Payment} {told : Bool} (hannounces : Announces event updated) :
      Move worker history event (.owing updated told) .clear

/-- The history of a pass, and the stage it has reached. -/
inductive Tells (worker : ReconciliationWorker) : List (Event (machine σ ε)) → Stage → Prop where
  | nil : Tells worker [] .clear
  | snoc {history : List (Event (machine σ ε))} {event : Event (machine σ ε)}
      {stage next : Stage} (h : Tells worker history stage)
      (hmove : Move worker history event stage next) : Tells worker (history ++ [event]) next

/-- If the thread runs a pass, its history is that of a pass. -/
def PassHistory (events : List (Event (machine σ ε))) : Prop :=
  ∀ thread worker before history, events = .start thread (.runOnce worker) before :: history →
    ∃ stage, Tells worker history stage

variable {worker : ReconciliationWorker} {history : List (Event (machine σ ε))}

/-- A snapshot stays one. -/
theorem Snapshot.mono {payment : Payment} {later : List (Event (machine σ ε))}
    (h : Snapshot history payment) (hgrows : history ⊆ later) : Snapshot later payment := by
  obtain ⟨listing, hlisting, hstored⟩ := h
  exact ⟨listing, hgrows hlisting, hstored⟩

/-- The last event of the history of a pass is a move. -/
theorem Tells.snoc_inv {stage : Stage} {event : Event (machine σ ε)}
    (h : Tells worker (history ++ [event]) stage) :
    ∃ previous, Tells worker history previous ∧ Move worker history event previous stage := by
  generalize hall : history ++ [event] = all at h
  cases h with
  | nil => simp at hall
  | snoc h hmove =>
      obtain ⟨rfl, hevent⟩ := List.append_inj' hall rfl
      cases hevent
      exact ⟨_, h, hmove⟩

/-- A commit is made when everything has been announced, and for a reason. -/
theorem Move.of_committed {event : Event (machine σ ε)} {stage next : Stage} {updated : Payment}
    (h : Move worker history event stage next) (hcommitted : committed event = some updated) :
    stage = .clear ∧ next = .owing updated false ∧ ∃ act id target hash, event = .act act ∧
      act.request = .guardedUpdate id target hash ∧ Explained worker history id target hash := by
  obtain ⟨hattempted, hrecorded⟩ := eq_none_of_committed hcommitted
  cases h with
  | look hnone => simp [hnone] at hcommitted
  | commit act id target hash moved hevent hrequest hexplained hmoved =>
      cases hmoved.symm.trans hcommitted
      exact ⟨rfl, rfl, act, id, target, hash, hevent, hrequest, hexplained⟩
  | idle hidle => simp [hidle.eq_none.1] at hcommitted
  | record _ hrecord => simp [hrecord] at hrecorded
  | announce hannounces =>
      obtain ⟨payload, hannounce, _⟩ := hannounces
      simp [hannounce] at hattempted

/-- An attempt to store a notification announces the transition that is owed. -/
theorem Move.of_attempted {event : Event (machine σ ε)} {stage next : Stage} {id : Uuid}
    {eventType : String} {payload : Value} (h : Move worker history event stage next)
    (hattempted : attempted event = some (id, eventType, payload)) :
    ∃ updated told, stage = .owing updated told ∧ next = .clear ∧ Announces event updated := by
  obtain ⟨hcommitted, hrecorded⟩ := eq_none_of_attempted hattempted
  cases h with
  | look _ hnone => simp [hnone] at hattempted
  | commit _ _ _ _ _ _ _ _ hmoved => simp [hmoved] at hcommitted
  | idle hidle => simp [hidle.eq_none.2.1] at hattempted
  | record _ hrecord => simp [hrecord] at hrecorded
  | announce hannounces => exact ⟨_, _, rfl, rfl, hannounces⟩

/-- A recording records the confirmed payment whose transition is owed. -/
theorem Move.of_recorded {event : Event (machine σ ε)} {stage next : Stage} {payment : Payment}
    (h : Move worker history event stage next) (hrecorded : recorded event = some payment) :
    stage = .owing payment false ∧ next = .owing payment true ∧ payment.status = .confirmed := by
  obtain ⟨hcommitted, hattempted⟩ := eq_none_of_recorded hrecorded
  cases h with
  | look _ _ hnone => simp [hnone] at hrecorded
  | commit _ _ _ _ _ _ _ _ hmoved => simp [hmoved] at hcommitted
  | idle hidle => simp [hidle.eq_none.2.2] at hrecorded
  | record hconfirmed hrecord =>
      cases hrecord.symm.trans hrecorded
      exact ⟨rfl, rfl, hconfirmed⟩
  | announce hannounces =>
      obtain ⟨payload, hannounce, _⟩ := hannounces
      simp [hannounce] at hattempted

/-- Every beginning of the history of a pass is one. -/
theorem Tells.split {stage : Stage} {more : List (Event (machine σ ε))}
    (h : Tells worker (history ++ more) stage) : ∃ earlier, Tells worker history earlier := by
  induction more using List.reverseRecOn generalizing stage with
  | nil => exact ⟨stage, by simpa using h⟩
  | append_singleton more event ih =>
      rw [← List.append_assoc] at h
      obtain ⟨previous, hprevious, -⟩ := h.snoc_inv
      exact ih hprevious

/-- Every event of the history of a pass was a move at its time. -/
theorem Tells.at_event {stage : Stage} {event : Event (machine σ ε)}
    {more : List (Event (machine σ ε))} (h : Tells worker (history ++ event :: more) stage) :
    ∃ earlier later, Tells worker history earlier ∧ Move worker history event earlier later := by
  rw [← List.singleton_append, ← List.append_assoc] at h
  obtain ⟨next, hnext⟩ := h.split
  obtain ⟨previous, hprevious, hmove⟩ := hnext.snoc_inv
  exact ⟨previous, next, hprevious, hmove⟩

end Events

section Program

variable {σ ε : Type} [PaymentRepository σ] [WebhookEventRepository ε] [Platform]
  (rules : Rules (machine σ ε)) {α β : Type}

/-- A thread that runs a pass of `worker`, with the history since its start. -/
def InPass (thread : Nat) (worker : ReconciliationWorker) (before : World σ ε)
    (outer : Option Uuid) (program : Prog α) (post : α → List (Event (machine σ ε)) → Prop)
    (history : List (Event (machine σ ε))) : Prop :=
  Local rules PassHistory thread outer program
    (fun result events => ∃ later, events = .start thread (.runOnce worker) before :: later ∧
      history <+: later ∧ post result later)
    (.start thread (.runOnce worker) before :: history)

variable {rules} {thread : Nat} {worker : ReconciliationWorker} {before : World σ ε}
  {outer : Option Uuid} {history : List (Event (machine σ ε))}

theorem in_pass_pure {result : α} {post : α → List (Event (machine σ ε)) → Prop}
    (h : post result history) :
    InPass rules thread worker before outer (pure result) post history :=
  local_pure ⟨history, rfl, List.prefix_refl _, h⟩

/-- A composition continues with the history of its first part. -/
theorem in_pass_bind {program : Prog α} {next : α → Prog β}
    {middle : α → List (Event (machine σ ε)) → Prop}
    {post : β → List (Event (machine σ ε)) → Prop}
    (h : InPass rules thread worker before outer program middle history)
    (hnext : ∀ result later, history <+: later → middle result later →
      InPass rules thread worker before outer (next result) post later) :
    InPass rules thread worker before outer (program >>= next) post history := by
  refine local_bind (Local.mono h ?_)
  rintro result _ ⟨later, rfl, hgrows, hmiddle⟩
  refine Local.mono (hnext result later hgrows hmiddle) ?_
  rintro final _ ⟨last, rfl, hgrows', hpost⟩
  exact ⟨last, rfl, hgrows.trans hgrows', hpost⟩

/-- A request of a pass extends its history, and must leave it the history of a pass. -/
theorem in_pass_request {request : Request} {next : Answer request → Prog β}
    {post : β → List (Event (machine σ ε)) → Prop}
    (h : ∀ env world,
      (∃ stage, Tells worker (history ++ [.act ⟨thread, outer, request, env, world⟩]) stage) ∧
      InPass rules thread worker before outer (next (answer env request world).1) post
        (history ++ [.act ⟨thread, outer, request, env, world⟩])) :
    InPass rules thread worker before outer (ask request >>= next) post history := by
  refine local_request_bind fun env world _ => ?_
  obtain ⟨⟨stage, hstage⟩, hnext⟩ := h env world
  refine ⟨?_, Local.mono hnext ?_⟩
  · intro other worker' before' history' heq
    cases heq
    exact ⟨stage, hstage⟩
  · rintro result _ ⟨later, rfl, hgrows, hpost⟩
    exact ⟨later, rfl, (List.prefix_append _ _).trans hgrows, hpost⟩

/-- A request that only looks around. -/
theorem in_pass_look {request : Request} {next : Answer request → Prog β}
    {post : β → List (Event (machine σ ε)) → Prop} (hclear : Tells worker history .clear)
    (hlook : ∀ env world,
      committed (σ := σ) (ε := ε) (.act ⟨thread, outer, request, env, world⟩) = none ∧
      attempted (σ := σ) (ε := ε) (.act ⟨thread, outer, request, env, world⟩) = none ∧
      recorded (σ := σ) (ε := ε) (.act ⟨thread, outer, request, env, world⟩) = none)
    (hnext : ∀ env world,
      Tells worker (history ++ [.act ⟨thread, outer, request, env, world⟩]) .clear →
      InPass rules thread worker before outer (next (answer env request world).1) post
        (history ++ [.act ⟨thread, outer, request, env, world⟩])) :
    InPass rules thread worker before outer (ask request >>= next) post history := by
  refine in_pass_request fun env world => ?_
  obtain ⟨hcommitted, hattempted, hrecorded⟩ := hlook env world
  have hlater := hclear.snoc (.look hcommitted hattempted hrecorded)
  exact ⟨⟨_, hlater⟩, hnext env world hlater⟩

/-- A request for the time or for an identifier, while an announcement is owed. -/
theorem in_pass_idle {request : Request} {next : Answer request → Prog β}
    {post : β → List (Event (machine σ ε)) → Prop} {updated : Payment} {told : Bool}
    (howing : Tells worker history (.owing updated told))
    (hidle : request = .utcNow ∨ request = .newV4)
    (hnext : ∀ env world,
      Tells worker (history ++ [.act ⟨thread, outer, request, env, world⟩])
        (.owing updated told) →
      InPass rules thread worker before outer (next (answer env request world).1) post
        (history ++ [.act ⟨thread, outer, request, env, world⟩])) :
    InPass rules thread worker before outer (ask request >>= next) post history := by
  refine in_pass_request fun env world => ?_
  have hlater : Tells worker (history ++ [.act ⟨thread, outer, request, env, world⟩])
      (.owing updated told) := howing.snoc (.idle hidle)
  exact ⟨⟨_, hlater⟩, hnext env world hlater⟩

/-- The payload of an envelope holds the payment it was built for. -/
theorem envelope_payment (id : Uuid) (eventType : String) (createdAt : DateTime)
    (payment : Payment) :
    ((WebhookEnvelope.toJson ⟨id, eventType, createdAt,
      .object [("payment", payment.toJson)]⟩).field "data").bind (Value.field "payment") =
        some payment.toJson :=
  rfl

/-- Announcing the transition clears it. -/
theorem emit_in_pass {updated : Payment} {told : Bool}
    (h : Tells worker history (.owing updated told)) :
    InPass rules thread worker before outer (ReconciliationWorker.emit (eventFor updated))
      (fun _ later => Tells worker later .clear) history := by
  have hpayment : (eventFor updated).payment = updated := by
    unfold eventFor
    split <;> rfl
  refine in_pass_idle h (.inr rfl) fun env world h => ?_
  refine in_pass_idle h (.inl rfl) fun env world h => ?_
  refine in_pass_idle h (.inl rfl) fun env world h => ?_
  refine in_pass_request fun env world => ?_
  have hannounces : ∀ id createdAt now, Announces (σ := σ) (ε := ε) (.act ⟨thread, outer,
      .enqueue now (eventFor updated).payment.id (eventFor updated).eventType
        (WebhookEnvelope.toJson ⟨id, (eventFor updated).eventType, createdAt,
          .object [("payment", (eventFor updated).payment.toJson)]⟩), env, world⟩) updated := by
    intro id createdAt now
    rw [hpayment]
    exact ⟨_, rfl, envelope_payment _ _ _ _⟩
  refine ⟨⟨_, h.snoc (.announce (hannounces _ _ _))⟩, ?_⟩
  generalize (answer env _ world).1 = result
  cases result <;> exact in_pass_pure (h.snoc (.announce (hannounces _ _ _)))

/-- The announcement that ends the processing of a payment. -/
theorem emit_then_in_pass {updated : Payment} {told : Bool} {event : PaymentEvent}
    {result : Except WorkerError Unit} (hevent : event = eventFor updated)
    (h : Tells worker history (.owing updated told)) :
    InPass rules thread worker before outer
      (ReconciliationWorker.emit event >>= fun _ => pure result)
      (fun _ later => Tells worker later .clear) history := by
  subst hevent
  exact in_pass_bind (emit_in_pass h) fun _ _ _ hclear => in_pass_pure hclear

variable [RepositoryLaws σ]

/-- An update that has its reason: either nothing was written, or an announcement is owed. -/
theorem update_status_in_pass {id : Uuid} {next : PaymentStatus} {hash : Option String}
    (h : Tells worker history .clear) (hexplained : Explained worker history id next hash) :
    InPass rules thread worker before outer (updateStatus id next hash)
      (fun result later =>
        match result with
        | .error _ => Tells worker later .clear
        | .ok updated => Tells worker later (.owing updated false) ∧ updated.status = next)
      history := by
  refine in_pass_request fun env world => ?_
  rcases answer_update env id next hash world with
    ⟨payment, time, after, hanswer, -, -, -⟩ | ⟨-, hnone⟩
  · have hcommitted : committed (σ := σ) (ε := ε)
        (.act ⟨thread, outer, .guardedUpdate id next hash, env, world⟩) =
          some (payment.moved next hash time) := by
      simp only [committed, hanswer]
    have howing := h.snoc (.commit _ id next hash _ rfl rfl hexplained hcommitted)
    refine ⟨⟨_, howing⟩, ?_⟩
    rw [hanswer]
    exact in_pass_pure ⟨howing, rfl⟩
  · have hcommitted : committed (σ := σ) (ε := ε)
        (.act ⟨thread, outer, .guardedUpdate id next hash, env, world⟩) = none := by
      simp only [committed]
      rcases hresult : (answer env (.guardedUpdate id next hash) world).1 with _ | _ | updated
      · rfl
      · rfl
      · exact absurd hresult (hnone updated)
    -- Nothing was written, and the read that may follow tells the pass only which error it is.
    have hclear := h.snoc (.look hcommitted rfl rfl)
    refine ⟨⟨_, hclear⟩, ?_⟩
    rcases hresult : (answer env (.guardedUpdate id next hash) world).1 with error | _ | updated
    · exact in_pass_pure hclear
    · refine in_pass_look hclear (fun _ _ => ⟨rfl, rfl, rfl⟩) fun env world hclear => ?_
      rcases (answer env (.findById id) world).1 with error | _ | found <;>
        exact in_pass_pure hclear
    · exact absurd hresult (hnone updated)

/-- An update of the worker, and what it does next. -/
theorem update_then_in_pass {id : Uuid} {next : PaymentStatus} {hash : Option String}
    {rest : Except RepositoryError Payment → Prog (Except WorkerError Unit)}
    (h : Tells worker history .clear) (hexplained : Explained worker history id next hash)
    (herror : ∀ error, rest (.error error) = pure (.error (.repository error)))
    (hok : ∀ updated later, Tells worker later (.owing updated false) → updated.status = next →
      InPass rules thread worker before outer (rest (.ok updated))
        (fun _ later => Tells worker later .clear) later) :
    InPass rules thread worker before outer (updateStatus id next hash >>= rest)
      (fun _ later => Tells worker later .clear) history := by
  refine in_pass_bind (update_status_in_pass h hexplained) fun result later _ hresult => ?_
  cases result with
  | error error =>
      rw [herror]
      exact in_pass_pure hresult
  | ok updated => exact hok updated later hresult.1 hresult.2

/-- A pending payment is expired because of its age, or detected because of what was found. -/
theorem process_pending_in_pass {payment : Payment} (h : Tells worker history .clear)
    (hsnapshot : Snapshot history payment) :
    InPass rules thread worker before (some payment.id) (worker.processPending payment)
      (fun _ later => Tells worker later .clear) history := by
  refine in_pass_look h (fun _ _ => ⟨rfl, rfl, rfl⟩) fun clock world h => ?_
  dsimp only
  split
  · rename_i hage
    refine update_then_in_pass h ?_ (fun _ => rfl) fun updated later howing hstatus => ?_
    · exact .expired payment ⟨thread, some payment.id, .utcNow, clock, world⟩
        (hsnapshot.mono (List.subset_append_left _ _)) List.mem_concat_self ⟨rfl, hage⟩
    · exact emit_then_in_pass (by rw [eventFor, hstatus]) howing
  · rename_i hage
    split
    · exact in_pass_pure h
    · rename_i memo hmemo
      refine in_pass_look h (fun _ _ => ⟨rfl, rfl, rfl⟩) fun env world' h => ?_
      rcases hfound : (answer env (.findPayment payment.destination memo payment.createdAt)
        world').1 with error | _ | found
      · exact in_pass_pure h
      · exact in_pass_pure h
      · dsimp only
        split
        · rename_i hamount
          refine update_then_in_pass h ?_ (fun _ => rfl) fun updated later howing hstatus => ?_
          · exact .detected payment history ⟨thread, some payment.id, .utcNow, clock, world⟩
              ⟨thread, some payment.id, .findPayment payment.destination memo payment.createdAt,
                env, world'⟩ memo found hsnapshot (by simp) ⟨rfl, rfl, not_le.mp hage⟩ hmemo rfl
              ⟨rfl, hfound⟩ hamount
          · exact emit_then_in_pass (by rw [eventFor, hstatus]) howing
        · exact in_pass_pure h

/-- A detected payment is confirmed or failed because of its transaction. -/
theorem process_detected_in_pass {payment : Payment} (h : Tells worker history .clear)
    (hsnapshot : Snapshot history payment) :
    InPass rules thread worker before outer (ReconciliationWorker.processDetected payment)
      (fun _ later => Tells worker later .clear) history := by
  unfold ReconciliationWorker.processDetected
  split
  · exact in_pass_pure h
  · rename_i hash hhash
    refine in_pass_look h (fun _ _ => ⟨rfl, rfl, rfl⟩) fun env world h => ?_
    rcases hresult : (answer env (.getTransaction hash) world).1 with error | transaction
    · exact in_pass_pure h
    · have hverified : Explained worker
          (history ++ [.act ⟨thread, outer, .getTransaction hash, env, world⟩]) payment.id
          (if transaction.successful then .confirmed else .failed) none :=
        .verified payment ⟨thread, outer, .getTransaction hash, env, world⟩ hash transaction
          (hsnapshot.mono (List.subset_append_left _ _)) hhash List.mem_concat_self ⟨rfl, hresult⟩
      dsimp only
      split
      · rename_i hsuccessful
        rw [if_pos hsuccessful] at hverified
        refine update_then_in_pass h hverified (fun _ => rfl) fun updated later howing hstatus => ?_
        refine in_pass_request fun env world => ?_
        have hrecord : Tells worker (later ++
            [.act ⟨thread, outer, .recordPayment updated, env, world⟩]) (.owing updated true) :=
          howing.snoc (.record hstatus rfl)
        exact ⟨⟨_, hrecord⟩, emit_then_in_pass (by rw [eventFor, hstatus]) hrecord⟩
      · rename_i hsuccessful
        rw [if_neg hsuccessful] at hverified
        refine update_then_in_pass h hverified (fun _ => rfl) fun updated later howing hstatus => ?_
        exact emit_then_in_pass (by rw [eventFor, hstatus]) howing

/-- The loop ends, with an error or not, when every transition has been announced. -/
theorem process_all_in_pass {payments : List Payment} (h : Tells worker history .clear)
    (hsnapshots : ∀ payment ∈ payments, Snapshot history payment) :
    InPass rules thread worker before none (worker.processAll payments)
      (fun _ later => Tells worker later .clear) history := by
  induction payments generalizing history with
  | nil => exact in_pass_pure h
  | cons payment rest ih =>
      have hsnapshot := hsnapshots payment List.mem_cons_self
      have hprocess : InPass rules thread worker before (some payment.id)
          (worker.process payment) (fun _ later => Tells worker later .clear) history := by
        unfold ReconciliationWorker.process
        split
        · exact process_pending_in_pass h hsnapshot
        · exact process_detected_in_pass h hsnapshot
        · exact in_pass_pure h
      refine in_pass_bind (local_within hprocess) fun result later hgrows hclear => ?_
      cases result with
      | error error => exact in_pass_pure hclear
      | ok _ =>
          exact ih hclear fun other hother =>
            (hsnapshots other (List.mem_cons_of_mem _ hother)).mono hgrows.subset

/-- A pass, from its listing to its end. -/
theorem run_once_in_pass :
    InPass (σ := σ) (ε := ε) rules thread worker before none worker.runOnce
      (fun _ later => Tells worker later .clear) [] := by
  refine in_pass_look .nil (fun _ _ => ⟨rfl, rfl, rfl⟩) fun env world h => ?_
  rcases hpending : (answer env .listPendingForReconciliation world).1 with error | pending
  · exact in_pass_pure h
  · refine process_all_in_pass h fun payment hpayment => ?_
    exact ⟨_, List.mem_append_right _ (List.mem_singleton.mpr rfl),
      ((answer_listing hpending).2.2 payment).mp hpayment |>.1⟩

/-- What a call has done when it has returned: a pass has announced its transitions. -/
def PassDone : (call : Call) → call.Result → List (Event (machine σ ε)) → Prop
  | .runOnce worker, _, events => ∃ thread before history,
      events = .start thread (.runOnce worker) before :: history ∧ Tells worker history .clear
  | _, _, _ => True

/-- In every run every thread that runs a pass has the history of one, and has announced all its
transitions when it has returned. -/
theorem pass_history {world : World σ ε} {state : State (machine σ ε)}
    (hreach : Reachable rules world state) :
    (∀ thread, PassHistory (state.config.own thread)) ∧
    ∀ (thread : Nat) (call : Call) (result : call.Result),
      state.threads[thread]? = some ⟨call, .done result⟩ →
        PassDone call result (state.config.own thread) := by
  have hnil : PassHistory ([] : List (Event (machine σ ε))) := by
    rintro _ _ _ _ ⟨⟩
  refine hreach.own_holds PassDone hnil fun call thread before _ => ?_
  have hother (hcall : ∀ worker, call ≠ .runOnce worker) (more : List (Event (machine σ ε))) :
      PassHistory (.start thread call before :: more) := by
    intro other worker before' history heq
    cases heq
    exact absurd rfl (hcall worker)
  cases call with
  | runOnce worker =>
      refine ⟨?_, Local.mono run_once_in_pass ?_⟩
      · intro other worker' before' history heq
        cases heq
        exact ⟨_, .nil⟩
      · rintro result _ ⟨history, rfl, -, hclear⟩
        exact ⟨thread, before, history, rfl, hclear⟩
  | _ =>
      have hany := hother (by rintro _ ⟨⟩)
      exact ⟨hany [], local_any hany⟩

/-- The history of a thread that runs a pass, which owes nothing once it has returned. -/
theorem pass_stage {world : World σ ε} {state : State (machine σ ε)}
    (hreach : Reachable rules world state) {thread : Nat} {t : Thread (machine σ ε)}
    {worker : ReconciliationWorker} (hthread : state.threads[thread]? = some t)
    (hcall : t.call = .runOnce worker) :
    ∃ first history stage,
      state.config.own thread = .start thread (.runOnce worker) first :: history ∧
        Tells worker history stage ∧ ∀ result, t.program = .done result → stage = .clear := by
  obtain ⟨first, acts, hown⟩ := hreach.own_eq hthread
  obtain ⟨call, program⟩ := t
  obtain rfl : call = .runOnce worker := hcall
  cases program with
  | done result =>
      obtain ⟨other, before, history, hstart, hclear⟩ := (pass_history hreach).2 _ _ _ hthread
      cases hown.symm.trans hstart
      exact ⟨first, _, .clear, hown, hclear, fun _ _ => rfl⟩
  | call span request next =>
      obtain ⟨stage, htells⟩ := (pass_history hreach).1 thread thread worker first _ hown
      exact ⟨first, _, stage, hown, htells, fun _ => nofun⟩

/-- An event of a thread that runs a pass was a move of the pass. -/
theorem pass_event {world : World σ ε} {state : State (machine σ ε)}
    (hreach : Reachable rules world state) {act : Act (machine σ ε)}
    {before after : List (Event (machine σ ε))} {t : Thread (machine σ ε)}
    {worker : ReconciliationWorker}
    (hown : state.config.own act.thread = before ++ .act act :: after)
    (hthread : state.threads[act.thread]? = some t) (hcall : t.call = .runOnce worker) :
    ∃ first history stage next,
      before = .start act.thread (.runOnce worker) first :: history ∧ Tells worker history stage ∧
        Move worker history (.act act) stage next := by
  obtain ⟨first, history, _, hstart, htells, -⟩ := pass_stage hreach hthread hcall
  rw [hown] at hstart
  cases before with
  | nil => simp at hstart
  | cons head earlier =>
      obtain ⟨rfl, rfl⟩ := List.cons.inj hstart
      obtain ⟨stage, next, hstage, hmove⟩ := htells.at_event
      exact ⟨first, earlier, stage, next, rfl, hstage, hmove⟩

end Program

end StellarPay
