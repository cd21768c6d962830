import StellarPay.Runs.Lifecycle
import StellarPay.Runs.Pass

/-!
# Notifications are neither invented nor repeated

Within a pass every announcement pays off one commit, so in no history are there more announcements
than commits. The state machine never returns, so the commits of one payment are of different kinds.
Together: at most one notification of each kind, and none of two kinds that exclude each other.
-/

namespace StellarPay

open Interleaving

/-- The type of the event for a payment in this status. -/
def PaymentStatus.eventType : PaymentStatus → String
  | pending => "payment.created"
  | detected => "payment.detected"
  | confirmed => "payment.confirmed"
  | failed => "payment.failed"
  | expired => "payment.expired"

/-- The type of an event tells the status of its payment. -/
theorem PaymentStatus.eventType_inj {first second : PaymentStatus} :
    first.eventType = second.eventType ↔ first = second := by
  cases first <;> cases second <;> simp [eventType]

/-- An event has the type of the status of its payment. -/
theorem event_type_eq (payment : Payment) :
    (eventFor payment).eventType = payment.status.eventType := by
  unfold eventFor
  cases payment.status <;> rfl

/-- A payment that has reached the first status can still move to the second. -/
def PaymentStatus.Precedes (first second : PaymentStatus) : Prop :=
  ∃ source : PaymentStatus, first.rank ≤ source.rank ∧ source.canTransitionTo second = true

/-- `Confirmed` and `Failed` are both final. -/
theorem final_exclusive : ¬ PaymentStatus.Precedes .confirmed .failed ∧
    ¬ PaymentStatus.Precedes .failed .confirmed := by
  constructor <;> rintro ⟨source, hrank, htransition⟩ <;> cases source <;>
    first | (cases htransition; done) | simp [PaymentStatus.rank] at hrank

/-- `Expired` is final, and a payment that was detected does not expire. -/
theorem expired_exclusive : ¬ PaymentStatus.Precedes .expired .detected ∧
    ¬ PaymentStatus.Precedes .detected .expired := by
  constructor <;> rintro ⟨source, hrank, htransition⟩ <;> cases source <;>
    first | (cases htransition; done) | simp [PaymentStatus.rank] at hrank

section Counts

variable {σ ε : Type} [PaymentRepository σ] [WebhookEventRepository ε] [Platform]
  (id : Uuid) (eventType : String)

/-- The event committed a transition of the payment that is announced under this type. -/
def commits (event : Event (machine σ ε)) : Bool :=
  (committed event).any fun updated =>
    updated.id == id && (eventFor updated).eventType == eventType

/-- The event tried to store such a notification. -/
def announces (event : Event (machine σ ε)) : Bool :=
  (attempted event).any fun attempt => attempt.1 == id && attempt.2.1 == eventType

/-- The event recorded the payment. -/
def records (event : Event (machine σ ε)) : Bool :=
  (recorded event).any fun payment => payment.id == id

/-- The notifications of this kind that a pass owes. -/
def Stage.owes : Stage → Nat
  | .clear => 0
  | .owing updated _ =>
      if updated.id = id ∧ (eventFor updated).eventType = eventType then 1 else 0

/-- The recordings of the payment that a pass owes. -/
def Stage.owesRecord : Stage → Nat
  | .owing updated false => if updated.id = id ∧ updated.status = .confirmed then 1 else 0
  | _ => 0

variable {worker : ReconciliationWorker} {history : List (Event (machine σ ε))}
  {event : Event (machine σ ε)} {stage next : Stage}

/-- An announcement pays off what is owed, and a commit adds to it. -/
theorem Move.announces_balance (h : Move worker history event stage next) :
    (if announces id eventType event then 1 else 0) + next.owes id eventType =
      stage.owes id eventType + if commits id eventType event then 1 else 0 := by
  cases h with
  | look hcommitted hattempted => simp [announces, commits, hcommitted, hattempted]
  | commit act _ _ _ updated _ _ _ hcommitted =>
      simp [announces, commits, hcommitted, (eq_none_of_committed hcommitted).1, Stage.owes]
  | idle hidle => simp [announces, commits, hidle.eq_none.1, hidle.eq_none.2.1, Stage.owes]
  | record _ hrecorded =>
      obtain ⟨hcommitted, hattempted⟩ := eq_none_of_recorded hrecorded
      simp [announces, commits, hcommitted, hattempted, Stage.owes]
  | announce hannounces =>
      obtain ⟨payload, hattempted, -⟩ := hannounces
      simp [announces, commits, hattempted, (eq_none_of_attempted hattempted).1, Stage.owes]

/-- A recording pays off what is owed, and a confirmation adds to it. -/
theorem Move.records_balance (h : Move worker history event stage next) :
    (if records id event then 1 else 0) + next.owesRecord id ≤
      stage.owesRecord id + if commits id "payment.confirmed" event then 1 else 0 := by
  cases h with
  | look hcommitted _ hrecorded => simp [records, commits, hcommitted, hrecorded]
  | commit act _ _ _ updated _ _ _ hcommitted =>
      have htype : (eventFor updated).eventType = "payment.confirmed" ↔
          updated.status = .confirmed := by
        rw [event_type_eq]
        change updated.status.eventType = PaymentStatus.confirmed.eventType ↔ _
        exact PaymentStatus.eventType_inj
      simp [records, commits, hcommitted, (eq_none_of_committed hcommitted).2, Stage.owesRecord,
        htype]
  | idle hidle => simp [records, commits, hidle.eq_none.1, hidle.eq_none.2.2]
  | record hconfirmed hrecorded =>
      simp [records, commits, hrecorded, (eq_none_of_recorded hrecorded).1, Stage.owesRecord,
        hconfirmed]
  | announce hannounces =>
      obtain ⟨payload, hattempted, -⟩ := hannounces
      obtain ⟨hcommitted, hrecorded⟩ := eq_none_of_attempted hattempted
      simp [records, commits, hcommitted, hrecorded, Stage.owesRecord]

/-- The announcements of a pass and those it owes are its commits. -/
theorem Tells.announces_count (h : Tells worker history stage) :
    history.countP (announces id eventType) + stage.owes id eventType =
      history.countP (commits id eventType) := by
  induction h with
  | nil => rfl
  | snoc h hmove ih =>
      have hbalance := hmove.announces_balance id eventType
      rw [List.countP_append, List.countP_append, List.countP_singleton, List.countP_singleton]
      omega

/-- The recordings of a pass and those it owes are confirmations. -/
theorem Tells.records_count (h : Tells worker history stage) :
    history.countP (records id) + stage.owesRecord id ≤
      history.countP (commits id "payment.confirmed") := by
  induction h with
  | nil => exact Nat.le_refl _
  | snoc h hmove ih =>
      have hbalance := hmove.records_balance id
      rw [List.countP_append, List.countP_append, List.countP_singleton, List.countP_singleton]
      omega

/-- What a pass owes it has committed. -/
theorem Tells.owing_committed {updated : Payment} {told : Bool}
    (h : Tells worker history (.owing updated told)) :
    ∃ commit ∈ history, committed commit = some updated := by
  generalize hstage : Stage.owing updated told = stage at h
  induction h generalizing told with
  | nil => cases hstage
  | snoc h hmove ih =>
      cases hmove with
      | commit _ _ _ _ moved _ _ _ hcommitted =>
          cases hstage
          exact ⟨_, List.mem_append_right _ List.mem_cons_self, hcommitted⟩
      | idle _ | record _ _ =>
          cases hstage
          obtain ⟨commit, hcommit, hcommitted⟩ := ih rfl
          exact ⟨commit, List.mem_append_left _ hcommit, hcommitted⟩
      | _ => cases hstage

end Counts

/-- Only a pass stores notifications. -/
theorem Call.Allows.of_enqueue {call : Call} {now : DateTime} {id : Uuid} {eventType : String}
    {payload : Value} (h : call.Allows (.enqueue now id eventType payload)) :
    ∃ worker, call = .runOnce worker := by
  cases call with
  | runOnce worker => exact ⟨worker, rfl⟩
  | _ => exact h.elim

/-- Only a pass records payments. -/
theorem Call.Allows.of_record {call : Call} {payment : Payment}
    (h : call.Allows (.recordPayment payment)) : ∃ worker, call = .runOnce worker := by
  cases call with
  | runOnce worker => exact ⟨worker, rfl⟩
  | _ => exact h.elim

section Runs

variable {σ ε : Type} [PaymentRepository σ] [WebhookEventRepository ε] [Platform]
  [RepositoryLaws σ] {rules : Rules (machine σ ε)} {world : World σ ε}
  {state : State (machine σ ε)}

/-- If the histories of passes have no more events of one kind than of another, and only passes have
events of the first kind, then no run has more of them. -/
theorem count_le_of_passes {property other : Event (machine σ ε) → Bool}
    (hreach : Reachable rules world state)
    (hstart : ∀ thread call before, property (.start thread call before) = false)
    (honly : ∀ act call, property (.act act) = true → Call.Allows call act.request →
      ∃ worker, call = .runOnce worker)
    (hpass : ∀ worker history stage, Tells worker history stage →
      history.countP property ≤ history.countP other) :
    state.config.trace.countP property ≤ state.config.trace.countP other := by
  -- Compare thread by thread: a pass, another call, or no thread at all.
  refine count_le_of_own property hreach.known fun thread => ?_
  cases ht : state.threads[thread]? with
  | none =>
      have hempty : state.config.own thread = [] := by
        refine List.filter_eq_nil_iff.mpr fun event hevent => ?_
        have hknown := hreach.known event hevent
        have hbound := List.getElem?_eq_none_iff.mp ht
        simp only [decide_eq_true_eq]
        omega
      simp [hempty]
  | some t =>
      by_cases hcall : ∃ worker, t.call = .runOnce worker
      · obtain ⟨worker, hcall⟩ := hcall
        obtain ⟨first, history, stage, hown, htells, -⟩ := pass_stage hreach ht hcall
        rw [hown, List.countP_cons_of_neg (by simp [hstart])]
        exact (hpass worker _ stage htells).trans (List.sublist_cons_self _ _).countP_le
      · have hzero : (state.config.own thread).countP property = 0 := by
          refine List.countP_eq_zero.mpr fun event hevent hproperty => ?_
          obtain ⟨htrace, hthread⟩ := Config.mem_own.mp hevent
          cases event with
          | start => simp [hstart] at hproperty
          | act act =>
              obtain ⟨t', ht', -, hallows, -⟩ := act_allowed hreach htrace
              rw [show act.thread = thread from hthread, ht] at ht'
              cases ht'
              exact hcall (honly act t.call hproperty hallows)
        rw [hzero]
        exact Nat.zero_le _

/-- There are no more notifications of a kind than commits of that kind. -/
theorem count_announces_le (hreach : Reachable rules world state) (id : Uuid)
    (eventType : String) :
    state.config.trace.countP (announces id eventType) ≤
      state.config.trace.countP (commits id eventType) := by
  refine count_le_of_passes hreach (fun _ _ _ => rfl) (fun act call hannounces hallows => ?_)
    fun worker history stage h => ?_
  · obtain ⟨⟨target, kind, payload⟩, hattempted, -⟩ := Option.any_eq_true _ _ |>.mp hannounces
    obtain ⟨_, _, ⟨⟩, hrequest⟩ := attempted_eq_some hattempted
    rw [hrequest] at hallows
    exact hallows.of_enqueue
  · have hcount := h.announces_count id eventType
    omega

/-- There are no more recordings of a payment than confirmations of it. -/
theorem count_records_le (hreach : Reachable rules world state) (id : Uuid) :
    state.config.trace.countP (records id) ≤
      state.config.trace.countP (commits id "payment.confirmed") := by
  refine count_le_of_passes hreach (fun _ _ _ => rfl) (fun act call hrecords hallows => ?_)
    fun worker history stage h => ?_
  · obtain ⟨payment, hrecorded, -⟩ := Option.any_eq_true _ _ |>.mp hrecords
    obtain ⟨_, ⟨⟩, hrequest⟩ := recorded_eq_some hrecorded
    rw [hrequest] at hallows
    exact hallows.of_record
  · have hcount := h.records_count id
    omega

/-- From one world to another every payment stays, and its status is no less far along. -/
def Ranked (before after : World σ ε) : Prop :=
  ∀ id payment, stored before.payments id = some payment →
    ∃ later, stored after.payments id = some later ∧ payment.status.rank ≤ later.status.rank

/-- With fresh identifiers every event follows this order. -/
theorem event_ranked (hreach : Reachable (freshRules σ ε) world state) :
    ∀ event ∈ state.config.trace, Ranked event.before event.after := by
  intro event hevent id payment hstored
  cases event with
  | start => exact ⟨payment, hstored, Nat.le_refl _⟩
  | act act =>
      have hfresh : FreshId act.request act.before := hreach.permitted hevent
      rcases answer_cases act.env act.request act.before id with
        hsame | ⟨new, key, created, hrequest, rfl, -⟩ |
        ⟨source, next, hash, time, -, hsource, htransition, hmoved, -⟩
      · exact ⟨payment, hsame.trans hstored, Nat.le_refl _⟩
      · rw [hrequest] at hfresh
        cases hstored.symm.trans hfresh
      · cases hstored.symm.trans hsource
        exact ⟨_, hmoved, (PaymentStatus.rank_lt_of_canTransitionTo htransition).le⟩

/-- A commit moved the stored payment, and left the result in the store. -/
theorem committed_stored {event : Event (machine σ ε)} {updated : Payment}
    (h : committed event = some updated) :
    stored event.after.payments updated.id = some updated ∧
      ∃ source, stored event.before.payments updated.id = some source ∧
        source.status.canTransitionTo updated.status = true := by
  obtain ⟨act, id, next, hash, rfl, hrequest, hanswer⟩ := committed_eq_some h
  obtain ⟨thread, span, request, env, before⟩ := act
  subst hrequest
  rcases answer_update env id next hash before with
    ⟨source, time, after, hmoved, hsource, htransition, hafter⟩ | ⟨-, hnone⟩
  · cases (congrArg Prod.fst hmoved).symm.trans hanswer
    have hid : source.id = id := RepositoryLaws.stored_id hsource
    refine ⟨?_, source, hid.symm ▸ hsource, htransition⟩
    change stored (answer env (.guardedUpdate id next hash) before).2.payments source.id = _
    rw [hmoved, hid]
    exact (hafter id).trans (if_pos rfl)
  · exact absurd hanswer (hnone updated)

/-- The commits of one payment follow the state machine. -/
theorem commits_pairwise (hreach : Reachable (freshRules σ ε) world state) :
    state.config.trace.Pairwise fun first second => ∀ moved later, committed first = some moved →
      committed second = some later → later.id = moved.id → moved.status.Precedes later.status := by
  have hpairs := hreach.linked.pairwise_events Ranked
    (fun _ _ payment hstored => ⟨payment, hstored, Nat.le_refl _⟩)
    (fun h h' id payment hstored => by
      obtain ⟨later, hlater, hle⟩ := h id payment hstored
      obtain ⟨last, hlast, hle'⟩ := h' id later hlater
      exact ⟨last, hlast, hle.trans hle'⟩)
    (event_ranked hreach)
  refine hpairs.imp fun {first second} hranked moved later hfirst hsecond hid => ?_
  obtain ⟨current, hcurrent, hrank⟩ := hranked _ _ (committed_stored hfirst).1
  obtain ⟨source, hsource, htransition⟩ := (committed_stored hsecond).2
  rw [hid] at hsource
  cases hcurrent.symm.trans hsource
  exact ⟨current.status, hrank, htransition⟩

/-- No transition of a kind is committed after another one of its kind. -/
theorem commits_once (hreach : Reachable (freshRules σ ε) world state) (id : Uuid)
    (eventType : String) : state.config.trace.Pairwise fun first second =>
      commits id eventType first = true → commits id eventType second = false := by
  refine (commits_pairwise hreach).imp fun {first second} hpair hfirst => ?_
  by_contra hsecond
  simp only [Bool.not_eq_false] at hsecond
  obtain ⟨moved, hmoved, hkind⟩ := Option.any_eq_true _ _ |>.mp hfirst
  obtain ⟨later, hlater, hkind'⟩ := Option.any_eq_true _ _ |>.mp hsecond
  simp only [Bool.and_eq_true, beq_iff_eq] at hkind hkind'
  obtain ⟨source, hrank, htransition⟩ :=
    hpair moved later hmoved hlater (hkind'.1.trans hkind.1.symm)
  have hsame : moved.status = later.status := by
    rw [← PaymentStatus.eventType_inj, ← event_type_eq, ← event_type_eq]
    exact hkind.2.trans hkind'.2.symm
  have hlt := PaymentStatus.rank_lt_of_canTransitionTo htransition
  rw [hsame] at hrank
  omega

/-- At most one transition of each kind is committed. -/
theorem count_commits_le_one (hreach : Reachable (freshRules σ ε) world state) (id : Uuid)
    (eventType : String) : state.config.trace.countP (commits id eventType) ≤ 1 :=
  count_le_one _ (commits_once hreach id eventType)

/-- The status of one of two commits of a payment can follow that of the other. -/
theorem commits_follow (hreach : Reachable (freshRules σ ε) world state)
    {first second : Event (machine σ ε)} (hfirst : first ∈ state.config.trace)
    (hsecond : second ∈ state.config.trace) {moved later : Payment}
    (hmoved : committed first = some moved) (hlater : committed second = some later)
    (hid : later.id = moved.id) (hdistinct : first ≠ second) :
    moved.status.Precedes later.status ∨ later.status.Precedes moved.status := by
  let related (first second : Event (machine σ ε)) : Prop :=
    ∀ moved later, committed first = some moved → committed second = some later →
      later.id = moved.id → moved.status.Precedes later.status ∨ later.status.Precedes moved.status
  have hsymmetric : Std.Symm related :=
    ⟨fun first second h moved later hmoved hlater hid =>
      (h later moved hlater hmoved hid.symm).symm⟩
  have hpairs : state.config.trace.Pairwise related :=
    (commits_pairwise hreach).imp fun h moved later hmoved hlater hid =>
      .inl (h moved later hmoved hlater hid)
  exact hpairs.forall hfirst hsecond hdistinct moved later hmoved hlater hid

/-- Every event that only a pass can make was a move of that pass, with its history before it. -/
theorem move_of_only (hreach : Reachable rules world state) {act : Act (machine σ ε)}
    {before after : List (Event (machine σ ε))}
    (htrace : state.config.trace = before ++ .act act :: after)
    (honly : ∀ call : Call, call.Allows act.request → ∃ worker, call = .runOnce worker) :
    ∃ worker history stage next,
      (∀ event ∈ history, event ∈ before ∧ event.thread = act.thread) ∧
      Tells worker history stage ∧ Move worker history (.act act) stage next := by
  have hmem : .act act ∈ state.config.trace := by simp [htrace]
  obtain ⟨t, ht, -, hallows, -⟩ := act_allowed hreach hmem
  obtain ⟨worker, hcall⟩ := honly t.call hallows
  have hown := Config.own_split htrace
  obtain ⟨first, history, stage, next, hbefore, htells, hmove⟩ := pass_event hreach hown ht hcall
  refine ⟨worker, history, stage, next, fun event hevent => ?_, htells, hmove⟩
  have hfilter : event ∈ before.filter fun other => other.thread = (Event.act act).thread := by
    rw [hbefore]
    exact List.mem_cons_of_mem _ hevent
  obtain ⟨hmem, hthread⟩ := List.mem_filter.mp hfilter
  exact ⟨hmem, of_decide_eq_true hthread⟩

/-- What a history says about notifications and recordings. -/
structure Faithful (trace : List (Event (machine σ ε))) : Prop where
  /-- A notification names a transition that was committed before it, and holds the payment as that
  transition left it. -/
  announced : ∀ before event after id eventType payload, trace = before ++ event :: after →
    attempted event = some (id, eventType, payload) →
    ∃ commit ∈ before, ∃ updated, committed commit = some updated ∧ updated.id = id ∧
      (eventFor updated).eventType = eventType ∧
      (payload.field "data").bind (Value.field "payment") = some updated.toJson
  /-- There is at most one notification of each type. -/
  once : ∀ id eventType, trace.countP (announces id eventType) ≤ 1
  /-- A payment that is announced as confirmed is not announced as failed. -/
  settled_once : ∀ id, trace.any (announces id "payment.confirmed") = true →
    trace.any (announces id "payment.failed") = false
  /-- A payment that is announced as expired is not announced as detected. -/
  expired_only : ∀ id, trace.any (announces id "payment.expired") = true →
    trace.any (announces id "payment.detected") = false
  /-- A payment is recorded after its confirmation was committed. -/
  recorded_confirmed : ∀ before event after payment, trace = before ++ event :: after →
    recorded event = some payment →
    payment.status = .confirmed ∧ ∃ commit ∈ before, committed commit = some payment
  /-- A payment is recorded at most once. -/
  recorded_once : ∀ id, trace.countP (records id) ≤ 1

/-- A notification was announced for a commit of its kind, which its thread had made. -/
theorem announced_by_thread (hreach : Reachable rules world state)
    {before after : List (Event (machine σ ε))} {event : Event (machine σ ε)} {id : Uuid}
    {eventType : String} {payload : Value} (htrace : state.config.trace = before ++ event :: after)
    (hattempted : attempted event = some (id, eventType, payload)) :
    ∃ commit ∈ before, commit.thread = event.thread ∧ ∃ updated, committed commit = some updated ∧
      updated.id = id ∧ (eventFor updated).eventType = eventType ∧
      (payload.field "data").bind (Value.field "payment") = some updated.toJson := by
  obtain ⟨act, now, rfl, hrequest⟩ := attempted_eq_some hattempted
  obtain ⟨worker, history, stage, next, hhistory, htells, hmove⟩ := move_of_only hreach htrace
    fun call hallows => by
      rw [hrequest] at hallows
      exact hallows.of_enqueue
  obtain ⟨updated, told, rfl, -, text, hannounce, hpayment⟩ := hmove.of_attempted hattempted
  cases hannounce.symm.trans hattempted
  obtain ⟨commit, hcommit, hcommitted⟩ := htells.owing_committed
  obtain ⟨hbefore, hthread⟩ := hhistory commit hcommit
  exact ⟨commit, hbefore, hthread, updated, hcommitted, rfl, rfl, hpayment⟩

/-- A notification was announced for a commit of its kind. -/
theorem announced_committed (hreach : Reachable rules world state)
    {before after : List (Event (machine σ ε))} {event : Event (machine σ ε)} {id : Uuid}
    {eventType : String} {payload : Value} (htrace : state.config.trace = before ++ event :: after)
    (hattempted : attempted event = some (id, eventType, payload)) :
    ∃ commit ∈ before, ∃ updated, committed commit = some updated ∧ updated.id = id ∧
      (eventFor updated).eventType = eventType ∧
      (payload.field "data").bind (Value.field "payment") = some updated.toJson := by
  obtain ⟨commit, hbefore, -, hannounced⟩ := announced_by_thread hreach htrace hattempted
  exact ⟨commit, hbefore, hannounced⟩

/-- A payment that was announced under a type was committed in a status of this type. -/
theorem any_announces (hreach : Reachable rules world state) {id : Uuid} {eventType : String}
    (h : state.config.trace.any (announces id eventType) = true) :
    ∃ commit ∈ state.config.trace, ∃ updated, committed commit = some updated ∧ updated.id = id ∧
      (eventFor updated).eventType = eventType := by
  obtain ⟨event, hevent, hannounces⟩ := List.any_eq_true.mp h
  obtain ⟨⟨target, kind, payload⟩, hattempted, hkind⟩ := Option.any_eq_true _ _ |>.mp hannounces
  obtain ⟨rfl, rfl⟩ : target = id ∧ kind = eventType := by simpa using hkind
  obtain ⟨before, after, htrace⟩ := List.append_of_mem hevent
  obtain ⟨commit, hcommit, updated, hcommitted, hid, htype, -⟩ :=
    announced_committed hreach htrace hattempted
  exact ⟨commit, by simp [htrace, hcommit], updated, hcommitted, hid, htype⟩

/-- Of two statuses that cannot follow each other, at most one is announced. -/
theorem announces_exclude (hreach : Reachable (freshRules σ ε) world state) {id : Uuid}
    (first second : PaymentStatus) (hne : first ≠ second) (hforward : ¬ first.Precedes second)
    (hbackward : ¬ second.Precedes first)
    (h : state.config.trace.any (announces id first.eventType) = true) :
    state.config.trace.any (announces id second.eventType) = false := by
  by_contra hnot
  obtain ⟨commit, hcommit, moved, hmoved, rfl, htype⟩ := any_announces hreach h
  obtain ⟨commit', hcommit', later, hlater, hid, htype'⟩ :=
    any_announces hreach (Bool.eq_true_of_not_eq_false hnot)
  rw [event_type_eq, PaymentStatus.eventType_inj] at htype htype'
  subst htype htype'
  have hdistinct : commit ≠ commit' := by
    rintro rfl
    cases hmoved.symm.trans hlater
    exact hne rfl
  rcases commits_follow hreach hcommit hcommit' hmoved hlater hid hdistinct with h | h
  · exact hforward h
  · exact hbackward h

/-- With fresh identifiers every history is faithful. -/
theorem faithful_of_reachable (hreach : Reachable (freshRules σ ε) world state) :
    Faithful state.config.trace where
  announced _ _ _ _ _ _ htrace hattempted := announced_committed hreach htrace hattempted
  once id eventType := (count_announces_le hreach id eventType).trans
    (count_commits_le_one hreach id eventType)
  settled_once _ h := announces_exclude hreach .confirmed .failed (by decide) final_exclusive.1
    final_exclusive.2 h
  expired_only _ h := announces_exclude hreach .expired .detected (by decide) expired_exclusive.1
    expired_exclusive.2 h
  recorded_confirmed before event after payment htrace hrecorded := by
    obtain ⟨act, rfl, hrequest⟩ := recorded_eq_some hrecorded
    obtain ⟨worker, history, stage, next, hhistory, htells, hmove⟩ := move_of_only hreach htrace
      fun call hallows => by
        rw [hrequest] at hallows
        exact hallows.of_record
    obtain ⟨rfl, -, hconfirmed⟩ := hmove.of_recorded hrecorded
    obtain ⟨commit, hcommit, hcommitted⟩ := htells.owing_committed
    exact ⟨hconfirmed, commit, (hhistory commit hcommit).1, hcommitted⟩
  recorded_once id := (count_records_le hreach id).trans
    (count_commits_le_one hreach id "payment.confirmed")

end Runs

section Backends

variable [Platform]

/-- On either backend, from any stores and whatever else is called and fails, no notification and
no recording is invented or repeated. -/
theorem notifications_faithful (backend : Backend) {world : World backend.Payments backend.Events}
    {state : State backend.machine}
    (hreach : Reachable (freshRules backend.Payments backend.Events) world state) :
    Faithful state.config.trace :=
  faithful_of_reachable hreach

end Backends

section Run

attribute [local instance] Plain.platform

open Plain

/-- Two passes list the payment of `detectionRun` at once; both find the transfer, and the second
one comes too late. -/
def racingPasses : List (Choice Backend.postgres.machine) :=
  let found := envWith 6000 8 [native "tx" "GDEST" "10.0" 5500] "m"
  [.start (create "10" "order-1" none), .act 0 (env 5000 7), .act 0 (env 5000 7),
    .act 0 (env 5000 7), .start (.runOnce worker), .start (.runOnce worker), .act 1 (env 6000 8),
    .act 2 (env 6000 8), .act 1 (env 6000 8), .act 2 (env 6000 8), .act 1 found, .act 2 found,
    .act 1 (env 6000 8), .act 2 (env 6000 8), .act 1 (env 6000 8), .act 1 (env 6000 8),
    .act 1 (env 6000 8), .act 1 (env 6000 8), .act 2 (env 6000 8)]

/-- The racing passes announce the detection once. -/
theorem notifications_faithful_race : ∃ state : State Backend.postgres.machine,
    state.config.trace.countP (announces 7 "payment.detected") = 1 ∧
      Faithful state.config.trace := by
  obtain ⟨state, hreach, hcount⟩ := exists_reachable
    (freshRules Backend.postgres.Payments Backend.postgres.Events) racingPasses
    Backend.postgres.empty (fun state =>
      state.config.trace.countP (announces 7 "payment.detected") == 1) (by decide)
  exact ⟨state, by simpa using hcount, notifications_faithful .postgres hreach⟩

end Run

end StellarPay
