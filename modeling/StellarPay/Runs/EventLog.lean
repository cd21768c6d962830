import StellarPay.Runs.Enqueueing
import StellarPay.Runs.Histories
import StellarPay.Runs.Progress

/-!
# The event log of a payment

A server changes statuses in its passes alone, and a pass stores an event after each commit. The
statuses that a payment has come through can be read off the present one, because the state machine
is a tree. So when no pass is at work and no event was refused, the events that are stored for a
payment are known from its status: one for each status after the first.
-/

namespace StellarPay

open Interleaving EventLaws

namespace PaymentStatus

/-- The statuses that a payment has come through since its creation. -/
def passed : PaymentStatus → List PaymentStatus
  | .pending => []
  | .detected => [.detected]
  | .confirmed => [.detected, .confirmed]
  | .failed => [.detected, .failed]
  | .expired => [.expired]

/-- A transition adds its own status to them. -/
theorem passed_of_transition {first second : PaymentStatus}
    (h : first.canTransitionTo second = true) : second.passed = first.passed ++ [second] := by
  cases first <;> cases second <;> first | rfl | cases h

/-- No status comes twice. -/
theorem passed_nodup (status : PaymentStatus) : status.passed.Nodup := by
  cases status <;> decide

/-- A status that a transition has led to was passed by whatever it leads on to. -/
theorem Reaches.mem_passed {source first second : PaymentStatus}
    (hsource : source.canTransitionTo first = true) (h : first.Reaches second) :
    first ∈ second.passed := by
  induction h with
  | refl =>
      rw [passed_of_transition hsource]
      exact List.mem_append_right _ List.mem_cons_self
  | tail _ hstep ih =>
      rw [passed_of_transition hstep]
      exact List.mem_append_left _ ih

end PaymentStatus

/-- The calls of a server. None of them changes a status, except for the passes. -/
def Call.served : Call → Bool
  | .createPayment _ _ _ _ _ _ | .getPayment _ | .listPayments _ _ _ | .runOnce _
  | .deliverDue _ => true
  | _ => false

/-- They go through the services. -/
theorem Call.direct_of_served {call : Call} (h : call.served = true) : call.direct = false := by
  cases call <;> first | rfl | cases h

/-- Of two places in a list that are different one has no element of a kind that occurs once. -/
theorem position_unique {α : Type} {property : α → Bool} {list : List α}
    (honce : list.countP property ≤ 1) {first second : Nat} {a b : α}
    (ha : list[first]? = some a) (hb : list[second]? = some b) (hfirst : property a = true)
    (hsecond : property b = true) : first = second := by
  have hbefore : ∀ {i j : Nat} {x y : α}, list[i]? = some x → list[j]? = some y →
      property x = true → property y = true → ¬ i < j := by
    intro i j x y hx hy hpx hpy hlt
    have hleft : 0 < (list.take j).countP property :=
      List.countP_pos_iff.mpr ⟨x, List.mem_of_getElem? (List.getElem?_take_of_lt hlt ▸ hx), hpx⟩
    have hright : 0 < (list.drop j).countP property := by
      refine List.countP_pos_iff.mpr ⟨y, List.mem_of_getElem? (i := 0) ?_, hpy⟩
      rw [List.getElem?_drop]
      exact hy
    have hsum : list.countP property =
        (list.take j).countP property + (list.drop j).countP property := by
      rw [← List.countP_append, List.take_append_drop]
    omega
  exact Nat.le_antisymm (Nat.not_lt.mp (hbefore hb ha hsecond hfirst))
    (Nat.not_lt.mp (hbefore ha hb hfirst hsecond))

section Rules

variable (σ ε : Type) [PaymentRepository σ] [WebhookEventRepository ε] [Platform] [EventLaws ε]

/-- What a server runs, with fresh identifiers. -/
def servedRules : Rules (machine σ ε) :=
  ⟨fun call => call.served = true, fun env _ request world =>
    FreshId request world ∧ FreshEvent env request world⟩

instance : DecidablePred (servedRules σ ε).admits :=
  fun call => inferInstanceAs (Decidable (call.served = true))

instance (env : Env) (span : Option Uuid) (request : Request) (world : World σ ε) :
    Decidable ((servedRules σ ε).permits env span request world) :=
  inferInstanceAs (Decidable (FreshId request world ∧ FreshEvent env request world))

end Rules

section Runs

variable {σ ε : Type} [PaymentRepository σ] [WebhookEventRepository ε] [Platform] [EventLaws ε]
  {world : World σ ε} {state : State (machine σ ε)}

/-- Such a run is one of the services. -/
theorem service_of_served (hreach : Reachable (servedRules σ ε) world state) :
    Reachable (serviceRules σ ε) world state := by
  have hadmits : ∀ call, (servedRules σ ε).admits call → (serviceRules σ ε).admits call :=
    fun _ h => Call.direct_of_served h
  have hpermits : ∀ env span request world, (servedRules σ ε).permits env span request world →
      (serviceRules σ ε).permits env span request world := fun _ _ _ _ h => And.left h
  exact hreach.mono hadmits hpermits

/-- No pass is at work. -/
def PassesEnded (state : State (machine σ ε)) : Prop :=
  ∀ t ∈ state.threads, ∀ worker, t.call = .runOnce worker → ∃ result, t.program = .done result

/-- No event was refused by the store. -/
def NoneRefused (state : State (machine σ ε)) : Prop :=
  ∀ act, .act act ∈ state.config.trace → ∀ now paymentId eventType payload error,
    ¬ act.Got (.enqueue now paymentId eventType payload) (.error error)

/-- A commit of a server was made by a pass. -/
theorem pass_of_committed (hreach : Reachable (servedRules σ ε) world state)
    {commit : Event (machine σ ε)} (hcommit : commit ∈ state.config.trace) {updated : Payment}
    (hcommitted : committed commit = some updated) :
    ∃ t worker, state.threads[commit.thread]? = some t ∧ t.call = .runOnce worker := by
  obtain ⟨act, id, next, hash, rfl, hrequest, -⟩ := committed_eq_some hcommitted
  obtain ⟨⟨call, program⟩, ht, hserved, hallows, -⟩ := act_allowed hreach hcommit
  rw [hrequest] at hallows
  cases call with
  | runOnce worker => exact ⟨_, worker, ht, rfl⟩
  | createPayment | getPayment | listPayments | deliverDue => exact hallows.elim
  | markDetected | confirmPayment | failPayment | expirePayment | updateStatus => cases hserved

variable [RepositoryLaws σ]

/-- Every status that a stored payment has passed was committed. -/
theorem passed_committed (hreach : Reachable (servedRules σ ε) world state)
    (hempty : ∀ id, stored world.payments id = none) {id : Uuid} {payment : Payment}
    (hstored : stored state.config.world.payments id = some payment) :
    ∀ status ∈ payment.status.passed, ∃ commit ∈ state.config.trace, ∃ updated,
      committed commit = some updated ∧ updated.id = id ∧ updated.status = status := by
  refine hreach.linked.keeps (fun seen : World σ ε => ∀ payment,
    stored seen.payments id = some payment → ∀ status ∈ payment.status.passed,
      ∃ commit ∈ state.config.trace, ∃ updated,
        committed commit = some updated ∧ updated.id = id ∧ updated.status = status)
    ?_ ?_ payment hstored
  · intro event hevent hbefore payment hafter
    cases event with
    | start => exact hbefore payment hafter
    | act act =>
        rcases answer_cases act.env act.request act.before id with
          hsame | ⟨new, key, created, hrequest, -, hstatus, -, hcreated, -⟩ |
          ⟨source, next, hash, time, hrequest, hsource, htransition, hmoved, hanswer⟩
        · exact hbefore payment (hsame.symm.trans hafter)
        · -- A new payment is pending, and has passed nothing.
          cases hcreated.symm.trans hafter
          obtain ⟨t, -, hserved, hallows, -⟩ := act_allowed hreach hevent
          have hdisciplined := hallows.disciplined (Call.direct_of_served hserved)
          rw [hrequest] at hdisciplined
          rw [hstatus, hdisciplined.1]
          exact fun status hpassed => absurd hpassed List.not_mem_nil
        · cases hmoved.symm.trans hafter
          have hgot : act.Got (.guardedUpdate id next hash)
              (.ok (some (source.moved next hash time))) := ⟨hrequest, hanswer⟩
          have hcommitted := committed_of_got hgot
          intro status hpassed
          rw [show (source.moved next hash time).status = next from rfl,
            PaymentStatus.passed_of_transition htransition, List.mem_append,
            List.mem_singleton] at hpassed
          rcases hpassed with hpassed | rfl
          · exact hbefore source hsource status hpassed
          · have hid : source.id = id := RepositoryLaws.stored_id hsource
            exact ⟨_, hevent, _, hcommitted, hid, rfl⟩
  · intro payment hstored
    cases (hempty id).symm.trans hstored

/-- An event of a kind is stored once at most for a payment. -/
theorem stored_once (hreach : Reachable (servedRules σ ε) world state)
    {first second : WebhookEventRecord} (hpayment : second.paymentId = first.paymentId)
    (htype : second.eventType = first.eventType) {position later : Nat}
    (hfirst : StoredAt state.config.trace first position)
    (hsecond : StoredAt state.config.trace second later) : position = later := by
  have hpermits : ∀ env span request world, (servedRules σ ε).permits env span request world →
      (freshRules σ ε).permits env span request world := fun _ _ _ _ h => And.left h
  have hfresh : Reachable (freshRules σ ε) world state :=
    hreach.mono (fun _ _ => trivial) hpermits
  have honce := (count_announces_le hreach first.paymentId first.eventType).trans
    (count_commits_le_one hfresh first.paymentId first.eventType)
  have hannounces : ∀ {record : WebhookEventRecord} {position : Nat},
      record.paymentId = first.paymentId → record.eventType = first.eventType →
      StoredAt state.config.trace record position → ∃ event,
        state.config.trace[position]? = some event ∧
          announces first.paymentId first.eventType event = true := by
    intro record position hid hkind hstored
    obtain ⟨⟨thread, span, request, env, before⟩, _, hposition, _, ⟨hrequest, -⟩, -⟩ := hstored
    dsimp only at hrequest
    subst hrequest
    exact ⟨_, hposition, by simp [announces, attempted, hid, hkind]⟩
  obtain ⟨event, hevent, hannounced⟩ := hannounces rfl rfl hfirst
  obtain ⟨event', hevent', hannounced'⟩ := hannounces hpayment htype hsecond
  exact position_unique honce hevent hevent' hannounced hannounced'

variable [DeliveryLaws ε]

/-- Two events of a kind that are found for one payment are one. -/
theorem found_once (hreach : Reachable (servedRules σ ε) world state)
    (hempty : ∀ id, found world.events id = none) {first second : WebhookEventRecord}
    (hfirst : found state.config.world.events first.id = some first)
    (hsecond : found state.config.world.events second.id = some second)
    (hpayment : second.paymentId = first.paymentId) (htype : second.eventType = first.eventType) :
    second = first := by
  obtain ⟨position, hstored⟩ := stored_of_found hreach hempty hfirst
  obtain ⟨later, hstored'⟩ := stored_of_found hreach hempty hsecond
  obtain rfl := stored_once hreach hpayment htype hstored hstored'
  obtain ⟨act, now, hposition, record, hgot, hid, -⟩ := hstored
  obtain ⟨act', now', hposition', record', hgot', hid', -⟩ := hstored'
  cases hposition.symm.trans hposition'
  obtain ⟨hnow, -, -, hpayload⟩ := Request.enqueue.inj (hgot.1.symm.trans hgot'.1)
  rw [hpayment, htype, ← hnow, ← hpayload] at hgot'
  cases hgot.2.symm.trans hgot'.2
  rw [← hid', hid, hfirst] at hsecond
  exact (Option.some.inj hsecond).symm

omit [PaymentRepository σ] [Platform] [RepositoryLaws σ] in
/-- A reader of the store sees no record twice. -/
theorem records_for_nodup (events : ε) (paymentId : Uuid) :
    (recordsFor events paymentId).Nodup := by
  obtain ⟨records, hlist, -⟩ := @mem_list ε _ _ (fun _ => Equiv.refl _) paymentId events
  rw [recordsFor, hlist]
  exact (DeliveryLaws.list_ordered hlist).1.of_map

/-- The events that are stored for a payment are told by the payment. -/
structure LogComplete (world : World σ ε) (payment : Payment) : Prop where
  /-- There is one for each status that it has passed, and no other. -/
  types : ((recordsFor world.events payment.id).map WebhookEventRecord.eventType).Perm
    (payment.status.passed.map PaymentStatus.eventType)
  /-- Each holds a record of the payment that has led to this one. -/
  told : ∀ record ∈ recordsFor world.events payment.id, ∃ told : Payment,
    (record.payload.field "data").bind (Value.field "payment") = some told.toJson ∧
      record.eventType = told.status.eventType ∧ told.LeadsTo payment

/-- A record of a payment tells of a transition that has led to it. -/
theorem record_told (hreach : Reachable (servedRules σ ε) world state)
    (hpayments : ∀ id, stored world.payments id = none)
    (hempty : ∀ id, found world.events id = none) {payment : Payment}
    (hstored : stored state.config.world.payments payment.id = some payment)
    {record : WebhookEventRecord}
    (hrecord : record ∈ recordsFor state.config.world.events payment.id) :
    ∃ source : PaymentStatus, ∃ told : Payment, source.canTransitionTo told.status = true ∧
      (record.payload.field "data").bind (Value.field "payment") = some told.toJson ∧
      record.eventType = told.status.eventType ∧ told.LeadsTo payment := by
  obtain ⟨hfound, hpayment⟩ := mem_records_for.mp hrecord
  obtain ⟨commit, hcommit, told, hcommitted, hid, htype, hpayload⟩ :=
    record_committed hreach hempty hfound
  obtain ⟨hleft, source, -, htransition⟩ := committed_stored hcommitted
  have hcoupled : ∀ id, ∀ payment ∈ stored world.payments id, payment.Coupled := by
    intro id payment hmem
    rw [hpayments] at hmem
    cases hmem
  obtain ⟨last, hlast, -, hleads⟩ :=
    leads_to_last (service_of_served hreach) hcoupled hcommit hleft
  rw [hid, hpayment, hstored] at hlast
  cases hlast
  exact ⟨source.status, told, htransition, hpayload, htype, hleads⟩

omit [DeliveryLaws ε] in
/-- When no pass is at work and no event was refused, every commit is in the store. -/
theorem commit_notified (hreach : Reachable (servedRules σ ε) world state)
    (hended : PassesEnded state) (haccepted : NoneRefused state) {commit : Event (machine σ ε)}
    (hcommit : commit ∈ state.config.trace) {updated : Payment}
    (hcommitted : committed commit = some updated) : Notified state.config.world updated := by
  obtain ⟨t, worker, ht, hcall⟩ := pass_of_committed hreach hcommit hcommitted
  have hpermits : ∀ env span request world, (servedRules σ ε).permits env span request world →
      (enqueueRules σ ε).permits env span request world := fun _ _ _ _ h => And.right h
  have henqueue : Reachable (enqueueRules σ ε) world state :=
    hreach.mono (fun _ _ => trivial) hpermits
  cases fate_of_commit henqueue hcommit hcommitted ht hcall with
  | stored h => exact h
  | refused act now id eventType payload error hact _ hgot =>
      exact absurd hgot (haccepted act (Config.mem_of_own hact) now id eventType payload error)
  | stopped _ _ hrunning =>
      obtain ⟨result, hdone⟩ := hended t (List.mem_of_getElem? ht) worker hcall
      exact absurd hdone (hrunning result)

/-- Then the events of a payment are told by the payment. -/
theorem log_of_ended (hreach : Reachable (servedRules σ ε) world state)
    (hpayments : ∀ id, stored world.payments id = none)
    (hempty : ∀ id, found world.events id = none) (hended : PassesEnded state)
    (haccepted : NoneRefused state) {payment : Payment}
    (hstored : stored state.config.world.payments payment.id = some payment) :
    LogComplete state.config.world payment := by
  refine ⟨?_, fun record hrecord => ?_⟩
  · have hrecords : ((recordsFor state.config.world.events payment.id).map
        WebhookEventRecord.eventType).Nodup := by
      refine (records_for_nodup _ _).map_on fun first hfirst second hsecond htype => ?_
      obtain ⟨hfound, hpayment⟩ := mem_records_for.mp hfirst
      obtain ⟨hfound', hpayment'⟩ := mem_records_for.mp hsecond
      exact (found_once hreach hempty hfound hfound' (hpayment'.trans hpayment.symm)
        htype.symm).symm
    have hstatuses : (payment.status.passed.map PaymentStatus.eventType).Nodup :=
      payment.status.passed_nodup.map fun _ _ h => PaymentStatus.eventType_inj.mp h
    refine (List.perm_ext_iff_of_nodup hrecords hstatuses).mpr fun eventType => ?_
    rw [List.mem_map, List.mem_map]
    constructor
    · intro htold
      obtain ⟨record, hrecord, rfl⟩ := htold
      obtain ⟨source, told, htransition, -, htype, hleads⟩ :=
        record_told hreach hpayments hempty hstored hrecord
      exact ⟨told.status, hleads.status.mem_passed htransition, htype.symm⟩
    · intro hpassed
      obtain ⟨status, hstatus, rfl⟩ := hpassed
      obtain ⟨commit, hcommit, updated, hcommitted, hid, rfl⟩ :=
        passed_committed hreach hpayments hstored status hstatus
      obtain ⟨record, hrecord, htype, -⟩ :=
        commit_notified hreach hended haccepted hcommit hcommitted
      rw [hid] at hrecord
      exact ⟨record, hrecord, htype.trans (event_type_eq updated)⟩
  · obtain ⟨_, told, -, hpayload, htype, hleads⟩ :=
      record_told hreach hpayments hempty hstored hrecord
    exact ⟨told, hpayload, htype, hleads⟩

end Runs

section Backends

variable [Platform]

/-- On either backend, in every run of a server from empty stores: when no pass is at work and the
event store has refused none, the events of a payment are one for each status that it has come
through since its creation, which its present status tells, and each holds the payment as the
transition left it. A call of a store that fails has no effect on the store. -/
theorem log_complete {backend : Backend} {state : State backend.machine}
    (hreach : Reachable (servedRules backend.Payments backend.Events) backend.empty state)
    (hended : PassesEnded state) (haccepted : NoneRefused state) {payment : Payment}
    (hstored : stored state.config.world.payments payment.id = some payment) :
    LogComplete state.config.world payment :=
  log_of_ended hreach backend.stored_empty backend.found_empty hended haccepted hstored

end Backends

section Run

attribute [local instance] Plain.platform

open Plain

/-- The thread is not in the middle of a pass. -/
def betweenPasses : Thread Backend.postgres.machine → Bool
  | ⟨.runOnce _, .done _⟩ => true
  | ⟨.runOnce _, _⟩ => false
  | _ => true

/-- The event is no refusal of the event store. -/
def isAccepted : Event Backend.postgres.machine → Bool
  | .act ⟨_, _, .enqueue now paymentId eventType payload, env, before⟩ =>
      (answer env (.enqueue now paymentId eventType payload) before).1.toBool
  | _ => true

/-- No thread of such a pool is in a pass. -/
theorem passes_ended {state : State Backend.postgres.machine}
    (h : state.threads.all betweenPasses = true) : PassesEnded state := by
  intro t ht worker hcall
  have hbetween := List.all_eq_true.mp h t ht
  obtain ⟨call, program⟩ := t
  cases hcall
  cases program with
  | done result => exact ⟨result, rfl⟩
  | call => cases hbetween

/-- No event of such a trace was refused. -/
theorem none_refused {state : State Backend.postgres.machine}
    (h : state.config.trace.all isAccepted = true) : NoneRefused state := by
  intro act hact now paymentId eventType payload error hgot
  have haccepted := List.all_eq_true.mp h _ hact
  obtain ⟨thread, span, request, env, before⟩ := act
  obtain ⟨rfl, hanswer⟩ := hgot
  simp only [isAccepted] at haccepted
  rw [show (answer env (.enqueue now paymentId eventType payload) before).1 = .error error
    from hanswer] at haccepted
  cases haccepted

/-- After `twoPasses` the events of the payment are those of a confirmed one. -/
theorem log_complete_confirmed : ∃ (state : State Backend.postgres.machine) (payment : Payment),
    payment.id = 7 ∧ payment.status = .confirmed ∧ LogComplete state.config.world payment := by
  obtain ⟨state, hreach, htest⟩ := exists_reachable
    (servedRules Backend.postgres.Payments Backend.postgres.Events) twoPasses
    Backend.postgres.empty (fun state => state.threads.all betweenPasses &&
      state.config.trace.all isAccepted &&
      (stored state.config.world.payments 7).any fun payment =>
        payment.id == 7 && payment.status == .confirmed) (by decide +kernel)
  simp only [Bool.and_eq_true, beq_iff_eq, Option.any_eq_true] at htest
  obtain ⟨⟨hended, haccepted⟩, payment, hstored, hid, hstatus⟩ := htest
  exact ⟨state, payment, hid, hstatus, @log_complete platform .postgres state hreach
    (passes_ended hended) (none_refused haccepted) payment (hid ▸ hstored)⟩

end Run

end StellarPay
