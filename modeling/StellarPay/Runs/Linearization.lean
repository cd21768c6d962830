import StellarPay.Runs.Expiry
import StellarPay.Runs.Notifications

/-!
# Status changes take effect at one point

`transition` reads, checks and then writes under a second guard, and a write that matched nothing
is followed by a read that tells why. Whatever happens in between, a call that succeeds has one
request that moves the payment, its last, and a call that fails has one that met a reason for it
(`Linearized`). Since the statuses never return, few of the calls that race can succeed.
-/

namespace StellarPay

open Interleaving

section Calls

variable {σ ε : Type} [PaymentRepository σ] [WebhookEventRepository ε] [Platform]

/-- The payment, the target and the hash of a call that changes a status. -/
def Call.change : Call → Option (Uuid × PaymentStatus × Option String)
  | .markDetected id hash => some (id, .detected, some hash)
  | .confirmPayment id => some (id, .confirmed, none)
  | .failPayment id => some (id, .failed, none)
  | .expirePayment id => some (id, .expired, none)
  | .updateStatus id next hash => some (id, next, hash)
  | _ => none

/-- The payment that a call which changes a status returns if it succeeds. -/
def Call.succeeded : (call : Call) → call.Result → Option Payment
  | .markDetected _ _, result | .confirmPayment _, result | .failPayment _, result
  | .expirePayment _, result => result.toOption
  | .updateStatus _ _ _, result => result.toOption
  | _, _ => none

/-- The request moves the payment from a status that allows it, changes no other payment, and
returns what it has stored. -/
structure Moves (act : Act (machine σ ε)) (id : Uuid) (next : PaymentStatus) (hash : Option String)
    (updated : Payment) : Prop where
  got : act.Got (.guardedUpdate id next hash) (.ok (some updated))
  source : ∃ payment time, stored act.before.payments id = some payment ∧
    payment.status.canTransitionTo next = true ∧ updated = payment.moved next hash time
  after : ∀ other, stored act.after.payments other =
    if other = id then some updated else stored act.before.payments other

/-- The requests of a history have changed nothing. -/
def Quiet (history : List (Event (machine σ ε))) : Prop :=
  ∀ event ∈ history, event.after = event.before

variable [RepositoryLaws σ]

/-- The reasons for which a change of status fails. -/
inductive Refused (act : Act (machine σ ε)) (id : Uuid) (next : PaymentStatus)
    (hash : Option String) : Prop where
  /-- The payment is missing, or its status does not allow the target. -/
  | impossible (h : ∀ payment, stored act.before.payments id = some payment →
      payment.status.canTransitionTo next = false)
  /-- The store is failing. -/
  | failing (h : act.env.paymentsFault ≠ none)
  /-- The store does not take the hash. -/
  | unaccepted (h : ¬ RepositoryLaws.accepts act.before.payments id hash)

/-- How a call that changes a status has taken effect, read off its own history. -/
inductive Linearized (id : Uuid) (next : PaymentStatus) (hash : Option String)
    (history : List (Event (machine σ ε))) : Option Payment → Prop where
  /-- Its last request moved the payment, and the others changed nothing. -/
  | succeeded (earlier : List (Event (machine σ ε))) (act : Act (machine σ ε)) (updated : Payment)
      (hhistory : history = earlier ++ [.act act]) (hquiet : Quiet earlier)
      (hmoves : Moves act id next hash updated) : Linearized id next hash history (some updated)
  /-- Nothing was changed, and one of its requests met a reason. -/
  | refused (act : Act (machine σ ε)) (hact : .act act ∈ history) (hquiet : Quiet history)
      (hrefused : Refused act id next hash) : Linearized id next hash history none

variable {rules : Rules (machine σ ε)} {thread : Nat} {outer : Option Uuid}
  {history : List (Event (machine σ ε))} {id : Uuid} {next : PaymentStatus} {hash : Option String}

omit [RepositoryLaws σ] in
/-- One more request that changes nothing. -/
theorem Quiet.snoc {act : Act (machine σ ε)} (h : Quiet history) (hact : act.after = act.before) :
    Quiet (history ++ [.act act]) := by
  intro event hevent
  rcases List.mem_append.mp hevent with hevent | hevent
  · exact h event hevent
  · rw [List.mem_singleton.mp hevent]
    exact hact

/-- A guarded write moves the payment, or changes nothing and has met a reason. -/
theorem guarded_update_cases (act : Act (machine σ ε))
    (hrequest : act.request = .guardedUpdate id next hash) :
    (∃ updated, Moves act id next hash updated) ∨
      act.after = act.before ∧ Refused act id next hash ∧
        ∀ updated, ¬ act.Got (.guardedUpdate id next hash) (.ok (some updated)) := by
  obtain ⟨thread, span, request, env, world⟩ := act
  dsimp only at hrequest
  subst hrequest
  rcases answer_update env id next hash world with
    ⟨payment, time, after, hanswer, hstored, hallowed, hafter⟩ | ⟨hquiet, hnone⟩
  · refine .inl ⟨payment.moved next hash time, ⟨rfl, congrArg Prod.fst hanswer⟩,
      ⟨payment, time, hstored, hallowed, rfl⟩, fun other => ?_⟩
    change stored (answer env (.guardedUpdate id next hash) world).2.payments other = _
    rw [hanswer]
    exact hafter other
  · refine .inr ⟨hquiet, ?_, fun updated hgot => hnone updated hgot.2⟩
    by_cases hpossible : ∀ payment, stored world.payments id = some payment →
        payment.status.canTransitionTo next = false
    · exact .impossible hpossible
    · push Not at hpossible
      obtain ⟨payment, hstored, hallowed⟩ := hpossible
      have hiff : _ ↔ env.paymentsFault = none ∧ RepositoryLaws.accepts world.payments id hash :=
        answer_update_ok_iff hstored (Bool.eq_true_of_not_eq_false hallowed)
      by_cases hfault : env.paymentsFault = none
      · refine .unaccepted fun haccepts => ?_
        obtain ⟨updated, hupdated⟩ := hiff.mpr ⟨hfault, haccepts⟩
        exact hnone updated hupdated
      · exact .failing hfault

omit [RepositoryLaws σ] in
/-- A read changes nothing. -/
theorem Quiet.snoc_read (h : Quiet history) (env : Env) (world : World σ ε) :
    Quiet (history ++ [.act ⟨thread, outer, .findById id, env, world⟩]) := by
  refine h.snoc ?_
  change (answer env (.findById id) world).2 = world
  simp only [answer, on_payments_reading]

/-- `update_status` takes effect at its write. -/
theorem update_status_linearized (hquiet : Quiet history) :
    Local rules (fun _ => True) thread outer (updateStatus id next hash)
      (fun result later => Linearized id next hash later result.toOption) history := by
  refine local_request_bind fun env world _ => ⟨trivial, ?_⟩
  let act : Act (machine σ ε) := ⟨thread, outer, .guardedUpdate id next hash, env, world⟩
  have hact : Event.act act ∈ history ++ [Event.act act] :=
    List.mem_append_right _ (List.mem_singleton.mpr rfl)
  rcases guarded_update_cases act rfl with
    ⟨updated, hmoves⟩ | ⟨hsame, hrefused, hnone⟩
  · have hanswer : (answer env (.guardedUpdate id next hash) world).1 = .ok (some updated) :=
      hmoves.got.2
    rw [hanswer]
    exact local_pure (.succeeded history act updated rfl hquiet hmoves)
  · cases hanswer : (answer env (.guardedUpdate id next hash) world).1 with
    | error error => exact local_pure (.refused act hact (hquiet.snoc hsame) hrefused)
    | ok found =>
        cases found with
        | some updated => exact absurd ⟨rfl, hanswer⟩ (hnone updated)
        | none =>
            -- The read that follows only decides which error is returned.
            refine local_request_bind fun reader present _ => ⟨trivial, ?_⟩
            let read : Act (machine σ ε) := ⟨thread, outer, .findById id, reader, present⟩
            have hquiet' : Quiet (history ++ [Event.act act] ++ [Event.act read]) :=
              (hquiet.snoc hsame).snoc_read reader present
            rcases (answer reader (.findById id) present).1 with error | _ | found <;>
              exact local_pure
                (.refused act (List.mem_append_left _ hact) hquiet' hrefused)

/-- A transition of the service takes effect at its read or at its write. -/
theorem transition_linearized (hquiet : Quiet history) :
    Local rules (fun _ => True) thread outer (PaymentService.transition id next hash)
      (fun result later => Linearized id next hash later result.toOption) history := by
  refine local_request_bind fun env world _ => ⟨trivial, ?_⟩
  let act : Act (machine σ ε) := ⟨thread, outer, .findById id, env, world⟩
  have hact : Event.act act ∈ history ++ [Event.act act] :=
    List.mem_append_right _ (List.mem_singleton.mpr rfl)
  have hquiet' : Quiet (history ++ [Event.act act]) := hquiet.snoc_read env world
  rcases answer_find env id world with ⟨hfault, error, hanswer⟩ | hanswer
  · rw [hanswer]
    exact local_pure (.refused act hact hquiet' (.failing hfault))
  · rw [hanswer]
    cases hstored : stored world.payments id with
    | none =>
        refine local_pure (.refused act hact hquiet' (.impossible fun payment hpayment => ?_))
        cases hstored.symm.trans hpayment
    | some current =>
        dsimp only
        split
        · refine local_bind ((update_status_linearized hquiet').mono fun result later h => ?_)
          cases result <;> exact local_pure h
        · rename_i hrefused
          refine local_pure (.refused act hact hquiet' (.impossible fun payment hpayment => ?_))
          cases hstored.symm.trans hpayment
          exact Bool.eq_false_of_not_eq_true hrefused

/-- What a finished call that changes a status has done. -/
def ChangeDone (call : Call) (result : call.Result) (history : List (Event (machine σ ε))) : Prop :=
  ∀ id next hash, call.change = some (id, next, hash) →
    Linearized id next hash history (call.succeeded result)

/-- Every call that changes a status and has returned has taken effect at one point. -/
theorem change_returned {world : World σ ε} {state : State (machine σ ε)}
    (hreach : Reachable rules world state) {thread : Nat} {call : Call} {result : call.Result}
    (hthread : state.threads[thread]? = some ⟨call, .done result⟩) :
    ChangeDone call result (state.config.own thread) := by
  have hcalls : ∀ call thread before, rules.admits call → True ∧
      Local rules (fun _ => True) thread none call.body (ChangeDone call)
        [.start thread call before] := by
    intro call thread before _
    refine ⟨trivial, ?_⟩
    have hstart : Quiet [.start thread call before] := by
      intro event hevent
      rw [List.mem_singleton.mp hevent]
      rfl
    cases call with
    | markDetected | confirmPayment | failPayment | expirePayment =>
        refine (transition_linearized hstart).mono fun result later h => ?_
        rintro id next hash ⟨⟩
        exact h
    | updateStatus =>
        refine (update_status_linearized hstart).mono fun result later h => ?_
        rintro id next hash ⟨⟩
        exact h
    | _ =>
        refine (local_any fun _ => trivial).mono fun result later _ => ?_
        rintro id next hash ⟨⟩
  have hholds := @Reachable.own_holds (machine σ ε) rules (fun _ => True) ChangeDone trivial hcalls
    world state hreach
  exact hholds.2 thread call result hthread

end Calls

section Races

/-- Two changes that exclude each other, also if they are the same. -/
def Rivals (first second : PaymentStatus) : Prop :=
  (first = .confirmed ∨ first = .failed) ∧ (second = .confirmed ∨ second = .failed) ∨
    (first = .detected ∨ first = .expired) ∧ (second = .detected ∨ second = .expired)

theorem Rivals.symm {first second : PaymentStatus} (h : Rivals first second) :
    Rivals second first :=
  h.imp And.symm And.symm

/-- Neither of two rivals can follow the other. -/
theorem Rivals.not_precedes {first second : PaymentStatus} (h : Rivals first second) :
    ¬ first.Precedes second := by
  intro hchange
  obtain ⟨source, hrank, hallowed⟩ := hchange
  rcases h with ⟨rfl | rfl, rfl | rfl⟩ | ⟨rfl | rfl, rfl | rfl⟩ <;>
    cases source <;> cases hallowed <;> exact absurd hrank (by decide)

variable {σ ε : Type} [PaymentRepository σ] [WebhookEventRepository ε] [Platform]
  [RepositoryLaws σ] {world : World σ ε} {state : State (machine σ ε)}

/-- What holds of the changes of status in a history. -/
structure ChangesLinearize (state : State (machine σ ε)) : Prop where
  /-- A call that has returned has taken effect at one point. -/
  calls : ∀ (thread : Nat) (call : Call) (result : call.Result) id next hash,
    state.threads[thread]? = some ⟨call, .done result⟩ → call.change = some (id, next, hash) →
      Linearized id next hash (state.config.own thread) (call.succeeded result)
  /-- So has every update that is part of a pass: its write moves the payment, or changes nothing
  and has met a reason. -/
  writes : ∀ act id next hash, .act act ∈ state.config.trace →
    act.request = .guardedUpdate id next hash →
      (∃ updated, Moves act id next hash updated) ∨
        act.after = act.before ∧ Refused act id next hash
  /-- No two rivals are committed for one payment, by whatever call. -/
  once : state.config.trace.Pairwise fun first second => ∀ moved later,
    committed first = some moved → committed second = some later → later.id = moved.id →
      ¬ Rivals moved.status later.status
  /-- Of the rivals that race for one payment, one at most succeeds. -/
  racing : ∀ (first second : Nat) (call call' : Call) (result : call.Result)
    (result' : call'.Result) id next next' hash hash',
    state.threads[first]? = some ⟨call, .done result⟩ →
    state.threads[second]? = some ⟨call', .done result'⟩ → call.change = some (id, next, hash) →
    call'.change = some (id, next', hash') → Rivals next next' →
    (call.succeeded result).isSome = true → (call'.succeeded result').isSome = true →
      first = second

/-- A call that succeeds has committed its change. -/
theorem Linearized.committed {id : Uuid} {next : PaymentStatus} {hash : Option String}
    {history : List (Event (machine σ ε))} {updated : Option Payment}
    (h : Linearized id next hash history updated) (hsome : updated.isSome = true) :
    ∃ event ∈ history, ∃ moved, committed event = some moved ∧ moved.id = id ∧
      moved.status = next := by
  cases h with
  | succeeded earlier act moved hhistory hquiet hmoves =>
      obtain ⟨payment, time, hstored, -, rfl⟩ := hmoves.source
      refine ⟨.act act, by simp [hhistory], _, committed_of_got hmoves.got, ?_, rfl⟩
      change payment.id = id
      exact RepositoryLaws.stored_id hstored
  | refused => cases hsome

/-- With fresh identifiers every change of status takes effect at one point. -/
theorem changes_linearize_of_reachable (hreach : Reachable (freshRules σ ε) world state) :
    ChangesLinearize state where
  calls thread call result id next hash hthread hchange :=
    change_returned hreach hthread id next hash hchange
  writes act id next hash _ hrequest := by
    rcases guarded_update_cases act hrequest with hmoves | ⟨hsame, hrefused, -⟩
    · exact .inl hmoves
    · exact .inr ⟨hsame, hrefused⟩
  once := (commits_pairwise hreach).imp fun hfollows moved later hmoved hlater hid hrivals =>
    hrivals.not_precedes (hfollows moved later hmoved hlater hid)
  racing first second call call' result result' id next next' hash hash' hfirst hsecond hchange
      hchange' hrivals hsome hsome' := by
    by_contra hne
    obtain ⟨event, hevent, moved, hmoved, hid, rfl⟩ :=
      (change_returned hreach hfirst id next hash hchange).committed hsome
    obtain ⟨event', hevent', later, hlater, hid', rfl⟩ :=
      (change_returned hreach hsecond id next' hash' hchange').committed hsome'
    obtain ⟨hmem, hthread⟩ := Config.mem_own.mp hevent
    obtain ⟨hmem', hthread'⟩ := Config.mem_own.mp hevent'
    have hdistinct : event ≠ event' := by
      rintro rfl
      exact hne (hthread.symm.trans hthread')
    rcases commits_follow hreach hmem hmem' hmoved hlater (hid'.trans hid.symm) hdistinct with
      hfollows | hfollows
    · exact hrivals.not_precedes hfollows
    · exact hrivals.symm.not_precedes hfollows

end Races

section Backends

variable [Platform]

/-- On either backend, from any stores and whatever else is called and fails: every change of status
takes effect at one point, between the start and the end of its call. -/
theorem status_changes_linearize (backend : Backend)
    {world : World backend.Payments backend.Events} {state : State backend.machine}
    (hreach : Reachable (freshRules backend.Payments backend.Events) world state) :
    ChangesLinearize state :=
  changes_linearize_of_reachable hreach

end Backends

section Run

attribute [local instance] Plain.platform

open Plain

/-- The result of a thread that ran `mark_detected` or `expire_payment`. -/
def changeResult (state : State Backend.postgres.machine) (thread : Nat) :
    Option (Except PaymentError Payment) :=
  match state.threads[thread]? with
  | some ⟨.markDetected _ _, .done result⟩ | some ⟨.expirePayment _, .done result⟩ => some result
  | _ => none

/-- A payment is created, and two calls read it before either writes. -/
def detectOrExpire (hash : String) : List (Choice Backend.postgres.machine) :=
  [.start (create "10" "order-1" none), .act 0 (env 5000 7), .act 0 (env 5000 7),
    .act 0 (env 5000 7), .start (.markDetected 7 hash), .start (.expirePayment 7),
    .act 1 (env 6000 8), .act 2 (env 6000 8), .act 1 (env 6000 8), .act 2 (env 6000 8)]

/-- In the race the payment is detected, and is not expired any more. -/
theorem status_changes_linearize_race : ∃ state : State Backend.postgres.machine,
    (changeResult state 1).map Except.isOk = some true ∧
    (changeResult state 2).map Except.isOk = some false ∧ ChangesLinearize state := by
  obtain ⟨state, hreach, htest⟩ := exists_reachable
    (freshRules Backend.postgres.Payments Backend.postgres.Events)
    (detectOrExpire "tx" ++ [.act 2 (env 6000 8)]) Backend.postgres.empty
    (fun state => (changeResult state 1).map Except.isOk == some true &&
      (changeResult state 2).map Except.isOk == some false) (by decide)
  simp only [Bool.and_eq_true, beq_iff_eq] at htest
  exact ⟨state, htest.1, htest.2, status_changes_linearize .postgres hreach⟩

/-- The payment was pending and without a hash when the event took place. -/
def metPending (event : Event Backend.postgres.machine) : Bool :=
  (stored event.before.payments 7).any fun payment =>
    payment.status == .pending && payment.stellarTxHash == none

/-- On Postgres a hash with the character NUL is refused although the store works and the payment is
pending, and the only one, all the time. -/
theorem refused_while_pending : ∃ state : State Backend.postgres.machine,
    Reachable (freshRules Backend.postgres.Payments Backend.postgres.Events)
      Backend.postgres.empty state ∧
    (∃ error, changeResult state 1 = some (.error error)) ∧
    ∀ event ∈ state.config.own 1, metPending event = true := by
  obtain ⟨state, hreach, htest⟩ := exists_reachable
    (freshRules Backend.postgres.Payments Backend.postgres.Events)
    ((detectOrExpire (String.singleton (Char.ofNat 0))).take 9) Backend.postgres.empty
    (fun state => (changeResult state 1).any (fun result => !result.isOk) &&
      (state.config.own 1).all metPending) (by decide)
  simp only [Bool.and_eq_true, List.all_eq_true] at htest
  obtain ⟨result, hresult, hfailed⟩ := Option.any_eq_true _ _ |>.mp htest.1
  refine ⟨state, hreach, ?_, htest.2⟩
  cases result with
  | error error => exact ⟨error, hresult⟩
  | ok payment => cases hfailed

end Run

end StellarPay
