import StellarPay.Runs.Notifications
import StellarPay.Runtime.Passes

/-!
# The turns of a pass without faults

With nobody else at work and nothing failing, the turn of a payment carries out what is `planned`
for it. The loop of a pass is followed turn by turn: since the payments of a list are distinct,
each turn finds its payment as it was listed, and leaves the others alone.
-/

namespace StellarPay

open Interleaving

section Step

variable [Platform]

/-- What becomes of a payment whose age a pass reads at `now`: its next status, and its hash if it
is given one. -/
inductive Becomes (window : TimeDelta) (answers : Answers) (now : DateTime) (payment : Payment) :
    PaymentStatus → Option String → Prop where
  | expired (hstatus : payment.status = .pending) (hage : window ≤ now - payment.createdAt) :
      Becomes window answers now payment .expired none
  | detected (memo : String) (found : StellarPayment) (hstatus : payment.status = .pending)
      (hage : now - payment.createdAt < window) (hmemo : payment.memo = some memo)
      (hfound : answers.found payment.id = some found)
      (hamount : NumericallyEqual payment.amount found.amount) :
      Becomes window answers now payment .detected (some found.transactionHash)
  | confirmed (hash : String) (hstatus : payment.status = .detected)
      (hhash : payment.stellarTxHash = some hash)
      (hsuccessful : (answers.transaction payment.id).successful = true) :
      Becomes window answers now payment .confirmed none
  | failed (hash : String) (hstatus : payment.status = .detected)
      (hhash : payment.stellarTxHash = some hash)
      (hsuccessful : (answers.transaction payment.id).successful = false) :
      Becomes window answers now payment .failed none

/-- The write that a pass makes for a payment. -/
def planned (window : TimeDelta) (answers : Answers) (now : DateTime) (payment : Payment) :
    Option (PaymentStatus × Option String) :=
  match payment.status with
  | .pending =>
      if window ≤ now - payment.createdAt then some (.expired, none)
      else
        match payment.memo, answers.found payment.id with
        | some _, some found =>
            if amountsMatch payment.amount found.amount then
              some (.detected, some found.transactionHash)
            else none
        | _, _ => none
  | .detected =>
      payment.stellarTxHash.map fun _ =>
        (if (answers.transaction payment.id).successful then .confirmed else .failed, none)
  | _ => none

variable {window : TimeDelta} {answers : Answers} {now : DateTime} {payment : Payment}

/-- The write is what becomes of the payment. -/
theorem planned_iff {next : PaymentStatus} {hash : Option String} :
    planned window answers now payment = some (next, hash) ↔
      Becomes window answers now payment next hash := by
  constructor
  · intro h
    unfold planned at h
    split at h
    · rename_i hstatus
      split at h
      · rename_i hage
        cases h
        exact .expired hstatus hage
      · rename_i hage
        split at h
        · rename_i memo found hmemo hfound
          split at h
          · rename_i hamount
            cases h
            exact .detected memo found hstatus (not_le.mp hage) hmemo hfound
              (amounts_match_iff.mp hamount)
          · cases h
        · cases h
    · rename_i hstatus
      obtain ⟨text, hhash, h⟩ := Option.map_eq_some_iff.mp h
      cases hsuccessful : (answers.transaction payment.id).successful with
      | true =>
          rw [hsuccessful] at h
          cases h
          exact .confirmed text hstatus hhash hsuccessful
      | false =>
          rw [hsuccessful] at h
          cases h
          exact .failed text hstatus hhash hsuccessful
    · cases h
  · intro h
    cases h with
    | expired hstatus hage => simp [planned, hstatus, hage]
    | detected memo found hstatus hage hmemo hfound hamount =>
        simp [planned, hstatus, not_le.mpr hage, hmemo, hfound, amounts_match_iff.mpr hamount]
    | confirmed hash hstatus hhash hsuccessful => simp [planned, hstatus, hhash, hsuccessful]
    | failed hash hstatus hhash hsuccessful => simp [planned, hstatus, hhash, hsuccessful]

/-- A write goes along the state machine. -/
theorem Becomes.transition {next : PaymentStatus} {hash : Option String}
    (h : Becomes window answers now payment next hash) :
    payment.status.canTransitionTo next = true := by
  cases h with
  | expired hstatus | detected _ _ hstatus | confirmed _ hstatus | failed _ hstatus =>
      rw [hstatus]
      rfl

end Step

section Turns

variable {σ ε : Type} [PaymentRepository σ] [WebhookEventRepository ε] [Platform]

/-- The requests were made in the span `id`, moved these payments and stored these events. -/
structure Does (id : Uuid) (moves : List (Uuid × PaymentStatus)) (notes : List (Uuid × String))
    (acts : List (Act (passMachine σ ε))) : Prop where
  spans : ∀ act ∈ acts, act.span = some id
  moves : acts.filterMap movedBy = moves
  notes : acts.filterMap notifiedBy = notes

variable {id : Uuid} {moves : List (Uuid × PaymentStatus)} {notes : List (Uuid × String)}
  {acts : List (Act (passMachine σ ε))}

theorem Does.nil : Does id [] [] ([] : List (Act (passMachine σ ε))) :=
  ⟨by simp, rfl, rfl⟩

/-- A request before the others that neither moves a payment nor stores an event. -/
theorem Does.look {act : Act (passMachine σ ε)} (h : Does id moves notes acts)
    (hspan : act.span = some id) (hmoved : movedBy act = none) (hnotified : notifiedBy act = none) :
    Does id moves notes (act :: acts) :=
  ⟨by simpa [hspan] using h.spans, by rw [List.filterMap_cons_none hmoved, h.moves],
    by rw [List.filterMap_cons_none hnotified, h.notes]⟩

/-- A request before the others that moves a payment. -/
theorem Does.move {act : Act (passMachine σ ε)} {move : Uuid × PaymentStatus}
    (h : Does id moves notes acts) (hspan : act.span = some id) (hmoved : movedBy act = some move)
    (hnotified : notifiedBy act = none) : Does id (move :: moves) notes (act :: acts) :=
  ⟨by simpa [hspan] using h.spans, by rw [List.filterMap_cons_some hmoved, h.moves],
    by rw [List.filterMap_cons_none hnotified, h.notes]⟩

/-- A request before the others that stores an event. -/
theorem Does.note {act : Act (passMachine σ ε)} {note : Uuid × String}
    (h : Does id moves notes acts) (hspan : act.span = some id) (hmoved : movedBy act = none)
    (hnotified : notifiedBy act = some note) : Does id moves (note :: notes) (act :: acts) :=
  ⟨by simpa [hspan] using h.spans, by rw [List.filterMap_cons_none hmoved, h.moves],
    by rw [List.filterMap_cons_some hnotified, h.notes]⟩

/-- What a turn of `payment` leaves: everything as it was, or the payment moved and an event of its
new status stored. -/
def Leaves (payment : Payment) (change : Option (PaymentStatus × Option String))
    (world : World σ ε) (acts : List (Act (passMachine σ ε))) (result : Except WorkerError Unit)
    (after : World σ ε) : Prop :=
  result = .ok () ∧
    match change with
    | none => Does payment.id [] [] acts ∧ after.payments = world.payments
    | some (next, hash) =>
        Does payment.id [(payment.id, next)] [(payment.id, next.eventType)] acts ∧
        ∃ time, ∀ id, stored after.payments id =
          if id = payment.id then some (payment.moved next hash time)
          else stored world.payments id

variable {answers : Answers} {world : World σ ε} {payment : Payment}

/-- A request to store an event that works has stored it. -/
theorem notified_by_enqueue {moment : Moment} {now : DateTime} {paymentId : Uuid}
    {eventType : String} {payload : Value} {before : World σ ε} (span : Option Uuid)
    (hworks : EnqueueWorks moment.env (.enqueue now paymentId eventType payload) before = true) :
    (∃ record, (answerAt moment (.enqueue now paymentId eventType payload) before).1 = .ok record) ∧
      notifiedBy (σ := σ) (ε := ε)
        ⟨0, span, .enqueue now paymentId eventType payload, moment, before⟩ =
          some (paymentId, eventType) := by
  simp only [EnqueueWorks] at hworks
  simp only [answerAt, notifiedBy]
  cases hanswer : (answer moment.env (.enqueue now paymentId eventType payload) before).1 with
  | error error =>
      rw [hanswer] at hworks
      cases hworks
  | ok record => exact ⟨⟨record, rfl⟩, rfl⟩

/-- Sending an event stores it. -/
theorem emit_alone (event : PaymentEvent) :
    Alone (faultFree answers) (some id) (ReconciliationWorker.emit event)
      (fun acts _ after => Does id [] [(event.payment.id, event.eventType)] acts ∧
        after.payments = world.payments) world := by
  refine alone_request_bind fun first _ => ?_
  refine alone_request_bind fun second _ => ?_
  refine alone_request_bind fun third _ => ?_
  refine alone_request_bind fun last hpermits => ?_
  obtain ⟨⟨record, hrecord⟩, hnotified⟩ := notified_by_enqueue (some id) hpermits.2.1
  have hdoes := Does.nil.note rfl rfl hnotified
  rw [show ((passMachine σ ε).answer last (.enqueue _ _ _ _) _).1 = _ from hrecord]
  exact alone_pure ⟨((hdoes.look rfl rfl rfl).look rfl rfl rfl).look rfl rfl rfl, rfl⟩

/-- The event that ends a turn. -/
theorem emit_then_alone (event : PaymentEvent) :
    Alone (faultFree answers) (some id)
      (ReconciliationWorker.emit event >>= fun _ => pure (.ok () : Except WorkerError Unit))
      (fun acts result after => result = .ok () ∧
        Does id [] [(event.payment.id, event.eventType)] acts ∧ after.payments = world.payments)
      world := by
  refine alone_bind ((emit_alone event).mono fun acts _ after h => alone_pure ⟨rfl, ?_, h.2⟩)
  rw [List.append_nil]
  exact h.1

/-- A turn may begin with a request that neither moves a payment nor stores an event. -/
theorem Leaves.look {change : Option (PaymentStatus × Option String)}
    {result : Except WorkerError Unit} {after : World σ ε} {act : Act (passMachine σ ε)}
    (h : Leaves payment change world acts result after) (hspan : act.span = some payment.id)
    (hmoved : movedBy act = none) (hnotified : notifiedBy act = none) :
    Leaves payment change world (act :: acts) result after := by
  refine ⟨h.1, ?_⟩
  have hchange := h.2
  cases change with
  | none => exact ⟨hchange.1.look hspan hmoved hnotified, hchange.2⟩
  | some change => exact ⟨hchange.1.look hspan hmoved hnotified, hchange.2⟩

variable [RepositoryLaws σ]
  (haccepts : ∀ (state : σ) (id : Uuid) (hash : Option String),
    RepositoryLaws.accepts state id hash)

include haccepts

/-- An update of the payment of the turn goes well. -/
theorem update_alone {next : PaymentStatus} {hash : Option String}
    {rest : Except RepositoryError Payment → Prog (Except WorkerError Unit)}
    (hstored : stored world.payments payment.id = some payment)
    (htransition : payment.status.canTransitionTo next = true)
    (hrest : ∀ time (after : World σ ε),
      Alone (faultFree answers) (some payment.id) (rest (.ok (payment.moved next hash time)))
        (fun acts result later => result = .ok () ∧
          Does payment.id [] [(payment.id, next.eventType)] acts ∧
          later.payments = after.payments) after) :
    Alone (faultFree answers) (some payment.id) (updateStatus payment.id next hash >>= rest)
      (Leaves payment (some (next, hash)) world) world := by
  unfold updateStatus
  rw [Program.bind_bind]
  refine alone_request_bind fun moment hpermits => ?_
  -- The payment is as it was listed, so the guard lets the update through.
  have hok := (answer_update_ok_iff hstored htransition).mpr
    ⟨hpermits.1, haccepts world.payments payment.id hash⟩
  rcases answer_update moment.env payment.id next hash world with
    ⟨source, time, after, hanswer, hsource, -, hafter⟩ | ⟨-, hnone⟩
  · cases hstored.symm.trans hsource
    have hmoved : movedBy (σ := σ) (ε := ε)
        ⟨0, some payment.id, .guardedUpdate payment.id next hash, moment, world⟩ =
          some (payment.id, next) := by
      simp only [movedBy, hanswer]
    rw [show (passMachine σ ε).answer moment (.guardedUpdate payment.id next hash) world = _ from
      hanswer]
    refine (hrest time { world with payments := after }).mono fun acts result later h => ?_
    obtain ⟨hresult, hdoes, hlater⟩ := h
    refine ⟨hresult, hdoes.move rfl hmoved rfl, time, fun id => ?_⟩
    rw [hlater]
    exact hafter id
  · obtain ⟨updated, hupdated⟩ := hok
    exact absurd hupdated (hnone updated)

/-- A turn of a pending payment, once its age has been read. -/
theorem process_pending_alone (worker : ReconciliationWorker)
    (hstatus : payment.status = .pending)
    (hstored : stored world.payments payment.id = some payment) :
    Alone (faultFree answers) (some payment.id) (worker.processPending payment)
      (fun acts result after => ∃ now, readingFor payment.id acts = some now ∧
        Leaves payment (planned worker.expiry answers now payment) world acts result after)
      world := by
  refine alone_request_bind fun clock _ => ?_
  have hreading (acts : List (Act (passMachine σ ε))) : readingFor payment.id
      (⟨0, some payment.id, .utcNow, clock, world⟩ :: acts) = some clock.env.now := by
    simp [readingFor, clockFor]
  suffices hrest : Alone (faultFree answers) (some payment.id) _
      (Leaves payment (planned worker.expiry answers clock.env.now payment) world) world from
    hrest.mono fun acts result after h => ⟨_, hreading acts, h.look rfl rfl rfl⟩
  simp only [planned, hstatus]
  change Alone _ _ (if worker.expiry ≤ clock.env.now - payment.createdAt then _ else _) _ _
  by_cases hage : worker.expiry ≤ clock.env.now - payment.createdAt
  · rw [if_pos hage, if_pos hage]
    refine update_alone haccepts hstored (by rw [hstatus]; rfl) fun time after => ?_
    exact emit_then_alone (.paymentExpired (payment.moved .expired none time))
  · rw [if_neg hage, if_neg hage]
    cases payment.memo with
    | none => exact alone_pure ⟨rfl, .nil, rfl⟩
    | some memo =>
        refine alone_request_bind fun search hpermits => ?_
        have hgiven : search.found = answers.found payment.id := hpermits.2.2.1
        rw [← hgiven]
        suffices hrest : Alone (faultFree answers) (some payment.id) _ (Leaves payment _ world)
            world from hrest.mono fun acts result after h => h.look rfl rfl rfl
        rw [show ((passMachine σ ε).answer search (.findPayment payment.destination memo
          payment.createdAt) world).1 = .ok search.found from rfl]
        cases search.found with
        | none => exact alone_pure ⟨rfl, .nil, rfl⟩
        | some found =>
            dsimp only
            by_cases hamount : amountsMatch payment.amount found.amount = true
            · rw [if_pos hamount, if_pos hamount]
              refine update_alone haccepts hstored (by rw [hstatus]; rfl) fun time after => ?_
              exact emit_then_alone (.paymentDetected
                (payment.moved .detected (some found.transactionHash) time))
            · rw [if_neg hamount, if_neg hamount]
              exact alone_pure ⟨rfl, .nil, rfl⟩

/-- A turn of a detected payment. -/
theorem process_detected_alone (now : DateTime) (worker : ReconciliationWorker)
    (hstatus : payment.status = .detected)
    (hstored : stored world.payments payment.id = some payment) :
    Alone (faultFree answers) (some payment.id) (ReconciliationWorker.processDetected payment)
      (Leaves payment (planned worker.expiry answers now payment) world) world := by
  simp only [planned, hstatus]
  unfold ReconciliationWorker.processDetected
  cases payment.stellarTxHash with
  | none => exact alone_pure ⟨rfl, .nil, rfl⟩
  | some hash =>
      refine alone_request_bind fun lookup hpermits => ?_
      have hgiven : lookup.transaction = answers.transaction payment.id := hpermits.2.2.2
      rw [← hgiven, Option.map_some]
      suffices hrest : Alone (faultFree answers) (some payment.id) _ (Leaves payment _ world)
          world from hrest.mono fun acts result after h => h.look rfl rfl rfl
      change Alone _ _ (if lookup.transaction.successful then _ else _) _ _
      by_cases hsuccessful : lookup.transaction.successful = true
      · rw [if_pos hsuccessful, if_pos hsuccessful]
        refine update_alone haccepts hstored (by rw [hstatus]; rfl) fun time after => ?_
        refine alone_request_bind fun recorder _ => ?_
        refine (emit_then_alone (.paymentConfirmed (payment.moved .confirmed none time))).mono
          fun acts result later h => ?_
        exact ⟨h.1, h.2.1.look rfl rfl rfl, h.2.2⟩
      · rw [if_neg hsuccessful, if_neg hsuccessful]
        refine update_alone haccepts hstored (by rw [hstatus]; rfl) fun time after => ?_
        exact emit_then_alone (.paymentFailed (payment.moved .failed none time))

end Turns

section Loop

variable {σ ε : Type} [PaymentRepository σ] [WebhookEventRepository ε] [Platform]
  {window : TimeDelta} {answers : Answers} {world : World σ ε} {payment : Payment}
  {acts more : List (Act (passMachine σ ε))}

/-- The write that a pass with these requests makes for a payment. -/
def plannedIn (window : TimeDelta) (answers : Answers) (acts : List (Act (passMachine σ ε)))
    (payment : Payment) : Option (PaymentStatus × Option String) :=
  planned window answers ((readingFor payment.id acts).getD 0) payment

/-- A turn of a payment, in which the age of a pending one is read. -/
structure Turn (window : TimeDelta) (answers : Answers) (payment : Payment) (world : World σ ε)
    (acts : List (Act (passMachine σ ε))) (result : Except WorkerError Unit)
    (after : World σ ε) : Prop where
  read : payment.status = .pending → ∃ now, readingFor payment.id acts = some now
  leaves : Leaves payment (plannedIn window answers acts payment) world acts result after

/-- What the loop of a pass over these payments leaves. -/
structure LoopDone (window : TimeDelta) (answers : Answers) (payments : List Payment)
    (world : World σ ε) (acts : List (Act (passMachine σ ε))) (result : Except WorkerError Unit)
    (after : World σ ε) : Prop where
  ok : result = .ok ()
  spans : ∀ act ∈ acts, ∃ payment ∈ payments, act.span = some payment.id
  read : ∀ payment ∈ payments, payment.status = .pending →
    ∃ now, readingFor payment.id acts = some now
  moves : acts.filterMap movedBy = payments.filterMap fun payment =>
    (plannedIn window answers acts payment).map fun change => (payment.id, change.1)
  notes : acts.filterMap notifiedBy = payments.filterMap fun payment =>
    (plannedIn window answers acts payment).map fun change => (payment.id, change.1.eventType)
  moved : ∀ payment ∈ payments, ∀ next hash,
    plannedIn window answers acts payment = some (next, hash) →
      ∃ time, stored after.payments payment.id = some (payment.moved next hash time)
  kept : ∀ id, (∀ payment ∈ payments, payment.id = id →
    plannedIn window answers acts payment = none) →
      stored after.payments id = stored world.payments id

/-- Requests for other payments show no reading. -/
theorem reading_eq_none {id : Uuid} (h : ∀ act ∈ acts, act.span ≠ some id) :
    readingFor id acts = none := by
  refine List.findSome?_eq_none_iff.mpr fun act hact => ?_
  have hspan := h act hact
  unfold clockFor
  split
  · rw [if_neg]
    rintro rfl
    exact hspan rfl
  · rfl

/-- The first reading is one of the earlier requests, if they show any. -/
theorem reading_append (id : Uuid) :
    readingFor id (acts ++ more) = (readingFor id acts).or (readingFor id more) := by
  rw [readingFor, List.findSome?_append]
  rfl

/-- Later requests for other payments do not change the reading. -/
theorem reading_append_left {id : Uuid} (h : ∀ act ∈ more, act.span ≠ some id) :
    readingFor id (acts ++ more) = readingFor id acts := by
  rw [reading_append, reading_eq_none h, Option.or_none]

/-- Nor do earlier ones. -/
theorem reading_append_right {id : Uuid} (h : ∀ act ∈ acts, act.span ≠ some id) :
    readingFor id (acts ++ more) = readingFor id more := by
  rw [reading_append, reading_eq_none h, Option.none_or]

/-- What a turn has done is what its plan says. -/
theorem Leaves.logs {change : Option (PaymentStatus × Option String)}
    {result : Except WorkerError Unit} {after : World σ ε}
    (h : Leaves payment change world acts result after) :
    (∀ act ∈ acts, act.span = some payment.id) ∧
    acts.filterMap movedBy = (change.map fun change => (payment.id, change.1)).toList ∧
    acts.filterMap notifiedBy =
      (change.map fun change => (payment.id, change.1.eventType)).toList := by
  have hchange := h.2
  cases change with
  | none => exact ⟨hchange.1.spans, hchange.1.moves, hchange.1.notes⟩
  | some change => exact ⟨hchange.1.spans, hchange.1.moves, hchange.1.notes⟩

/-- A turn leaves the other payments as they were. -/
theorem Leaves.frame {change : Option (PaymentStatus × Option String)}
    {result : Except WorkerError Unit} {after : World σ ε}
    (h : Leaves payment change world acts result after) {id : Uuid}
    (hid : id = payment.id → change = none) :
    stored after.payments id = stored world.payments id := by
  have hchange := h.2
  cases change with
  | none => rw [hchange.2]
  | some change =>
      obtain ⟨-, time, hafter⟩ := hchange
      rw [hafter, if_neg fun heq => nomatch hid heq]

omit [Platform] in
/-- The log of a list of plans is that of the first one and those of the others. -/
theorem plans_cons {α : Type} {plan other : Payment → Option (PaymentStatus × Option String)}
    (label : Payment → PaymentStatus × Option String → α) {rest : List Payment}
    (h : ∀ later ∈ rest, plan later = other later) :
    (payment :: rest).filterMap (fun listed => (plan listed).map (label listed)) =
      ((plan payment).map (label payment)).toList ++
        rest.filterMap fun listed => (other listed).map (label listed) := by
  have hrest : rest.filterMap (fun listed => (plan listed).map (label listed)) =
      rest.filterMap fun listed => (other listed).map (label listed) :=
    List.filterMap_congr fun later hlater => by rw [h later hlater]
  rw [List.filterMap_cons, hrest]
  cases plan payment <;> rfl

/-- A turn, and then the rest of the loop. -/
theorem LoopDone.cons {rest : List Payment} {result final : Except WorkerError Unit}
    {middle after : World σ ε} (hturn : Turn window answers payment world acts result middle)
    (hloop : LoopDone window answers rest middle more final after)
    (hnew : ∀ other ∈ rest, other.id ≠ payment.id) :
    LoopDone window answers (payment :: rest) world (acts ++ more) final after := by
  obtain ⟨hspans, hmoves, hnotes⟩ := hturn.leaves.logs
  have hself : readingFor payment.id (acts ++ more) = readingFor payment.id acts := by
    refine reading_append_left fun act hact hspan => ?_
    obtain ⟨other, hother, hid⟩ := hloop.spans act hact
    exact hnew other hother (Option.some.inj (hid.symm.trans hspan))
  have hothers : ∀ other ∈ rest, readingFor other.id (acts ++ more) =
      readingFor other.id more := by
    intro other hother
    refine reading_append_right fun act hact hspan => ?_
    exact hnew other hother (Option.some.inj (hspan.symm.trans (hspans act hact)))
  have hplan : plannedIn window answers (acts ++ more) payment =
      plannedIn window answers acts payment := by
    rw [plannedIn, hself, plannedIn]
  have hplans : ∀ other ∈ rest, plannedIn window answers (acts ++ more) other =
      plannedIn window answers more other := by
    intro other hother
    rw [plannedIn, hothers other hother, plannedIn]
  refine ⟨hloop.ok, fun act hact => ?_, fun listed hlisted hstatus => ?_, ?_, ?_,
    fun listed hlisted next hash hwrite => ?_, fun id hid => ?_⟩
  · rcases List.mem_append.mp hact with hact | hact
    · exact ⟨payment, List.mem_cons_self, hspans act hact⟩
    · obtain ⟨other, hother, hspan⟩ := hloop.spans act hact
      exact ⟨other, List.mem_cons_of_mem _ hother, hspan⟩
  · rcases List.mem_cons.mp hlisted with rfl | hlisted
    · rw [hself]
      exact hturn.read hstatus
    · rw [hothers listed hlisted]
      exact hloop.read listed hlisted hstatus
  · rw [List.filterMap_append, hmoves, hloop.moves, ← hplan]
    exact (plans_cons (fun payment change => (payment.id, change.1)) hplans).symm
  · rw [List.filterMap_append, hnotes, hloop.notes, ← hplan]
    exact (plans_cons (fun payment change => (payment.id, change.1.eventType)) hplans).symm
  · rcases List.mem_cons.mp hlisted with rfl | hlisted
    · have hchange := hturn.leaves.2
      rw [← hplan, hwrite] at hchange
      obtain ⟨-, time, hmiddle⟩ := hchange
      -- The other turns leave the payment as its own turn has left it.
      refine ⟨time, ?_⟩
      rw [hloop.kept listed.id fun other hother heq => absurd heq (hnew other hother), hmiddle,
        if_pos rfl]
    · rw [hplans listed hlisted] at hwrite
      exact hloop.moved listed hlisted next hash hwrite
  · rw [hloop.kept id fun other hother heq => ?_]
    · refine hturn.leaves.frame fun heq => ?_
      rw [← hplan]
      exact hid payment List.mem_cons_self heq.symm
    · rw [← hplans other hother]
      exact hid other (List.mem_cons_of_mem _ hother) heq

variable [RepositoryLaws σ]
  (haccepts : ∀ (state : σ) (id : Uuid) (hash : Option String),
    RepositoryLaws.accepts state id hash)

include haccepts

/-- A turn of a listed payment. -/
theorem process_alone (worker : ReconciliationWorker)
    (hstored : stored world.payments payment.id = some payment)
    (hlisted : payment.status = .pending ∨ payment.status = .detected) :
    Alone (faultFree answers) (some payment.id) (worker.process payment)
      (Turn worker.expiry answers payment world) world := by
  unfold ReconciliationWorker.process
  rcases hlisted with hstatus | hstatus
  · rw [hstatus]
    refine (process_pending_alone haccepts worker hstatus hstored).mono fun acts _ _ h => ?_
    obtain ⟨now, hnow, hleaves⟩ := h
    refine ⟨fun _ => ⟨now, hnow⟩, ?_⟩
    rw [plannedIn, hnow]
    exact hleaves
  · rw [hstatus]
    refine (process_detected_alone haccepts 0 worker hstatus hstored).mono fun acts _ _ h => ?_
    refine ⟨fun hpending => absurd (hstatus.symm.trans hpending) (by simp), ?_⟩
    -- What becomes of a detected payment does not depend on the time.
    have hsame : plannedIn worker.expiry answers acts payment =
        planned worker.expiry answers 0 payment := by
      simp only [plannedIn, planned, hstatus]
    rw [hsame]
    exact h

/-- The loop of a pass over distinct payments, each of them as it is stored. -/
theorem process_all_alone (worker : ReconciliationWorker) {payments : List Payment}
    (hnodup : (payments.map Payment.id).Nodup)
    (hlisted : ∀ payment ∈ payments, stored world.payments payment.id = some payment ∧
      (payment.status = .pending ∨ payment.status = .detected)) :
    Alone (faultFree answers) none (worker.processAll payments)
      (LoopDone worker.expiry answers payments world) world := by
  induction payments generalizing world with
  | nil => exact alone_pure ⟨rfl, by simp, by simp, rfl, rfl, by simp, fun _ _ => rfl⟩
  | cons payment rest ih =>
      rw [List.map_cons, List.nodup_cons] at hnodup
      obtain ⟨hfresh, hnodup⟩ := hnodup
      have hnew : ∀ other ∈ rest, other.id ≠ payment.id :=
        fun other hother heq => hfresh (heq ▸ List.mem_map_of_mem hother)
      obtain ⟨hstored, hstatus⟩ := hlisted payment List.mem_cons_self
      refine alone_bind (alone_within ?_)
      refine (process_alone haccepts worker hstored hstatus).mono fun acts result middle hturn => ?_
      obtain rfl := hturn.leaves.1
      refine (ih hnodup fun other hother => ?_).mono fun more final after hloop =>
        hloop.cons hturn hnew
      obtain ⟨hother', hstatus'⟩ := hlisted other (List.mem_cons_of_mem _ hother)
      refine ⟨?_, hstatus'⟩
      rw [hturn.leaves.frame fun heq => absurd heq (hnew other hother)]
      exact hother'

end Loop

end StellarPay
