import StellarPay.Runs.Progress
import StellarPay.Stellar.Http

/-!
# What holds a pass up

A pass works through its list oldest first, and turns to a payment only when it has dealt with all
that are listed before it. A payment that it cannot deal with keeps it from everything younger,
whatever else is going on. An account that Horizon does not know is enough for that: `find_payment`
does not look at the status of the answer, and takes a 404 for a page that it cannot read.
-/

namespace StellarPay

open Interleaving

section Order

variable {σ ε : Type} [PaymentRepository σ] [WebhookEventRepository ε] [Platform]

/-- The request was made for this payment: in its span, or to write it. -/
def Serves (act : Act (machine σ ε)) (id : Uuid) : Prop :=
  act.span = some id ∨ ∃ next hash, act.request = .guardedUpdate id next hash

/-- A pass works in the order of its list: when it turned to a payment, it had dealt with all that
are listed before it. -/
def InOrder (worker : ReconciliationWorker) (listing : Act (machine σ ε))
    (history : List (Event (machine σ ε))) : Prop :=
  ∀ payments, listing.Got .listPendingForReconciliation (.ok payments) →
    ∀ earlier act later, history = earlier ++ .act act :: later →
    ∀ before payment after, payments = before ++ payment :: after → Serves act payment.id →
      ∀ other ∈ before, Handled worker earlier other

/-- If the thread runs a pass and has listed the payments, it works in the order of the list. -/
def OrderHistory (history : List (Event (machine σ ε))) : Prop :=
  ∀ thread worker before events, history = .start thread (.runOnce worker) before :: events →
    events = [] ∨ ∃ listing more, events = .act listing :: more ∧
      listing.request = .listPendingForReconciliation ∧ InOrder worker listing history

variable {worker : ReconciliationWorker} {listing : Act (machine σ ε)}
  {history : List (Event (machine σ ε))} {payments done rest : List Payment} {payment : Payment}

omit [Platform] in
/-- Only one of the listed payments has its id, so the list is cut there in one way. -/
theorem cut_unique {before after : List Payment} {served : Payment}
    (hnodup : (payments.map Payment.id).Nodup) (hpayments : payments = done ++ payment :: rest)
    (hsplit : payments = before ++ served :: after) (hid : served.id = payment.id) :
    before = done := by
  have hmem : payment ∈ payments := by simp [hpayments]
  have hmem' : served ∈ payments := by simp [hsplit]
  obtain rfl := List.inj_on_of_nodup_map hnodup hmem' hmem hid
  have hnodup := hnodup.of_map
  rw [hpayments] at hnodup
  have hdone : served ∉ done := fun hserved =>
    (List.nodup_append.mp hnodup).2.2 served hserved served List.mem_cons_self rfl
  have hrest : served ∉ rest :=
    (List.nodup_cons.mp (List.nodup_append.mp hnodup).2.1).1
  exact ((List.append_cons_inj_of_notMem hdone hrest).mp (hpayments.symm.trans hsplit)).1.symm

/-- The requests for one payment come in order, if all before it have been dealt with. -/
theorem InOrder.extend (h : InOrder worker listing history)
    (hlisting : listing.Got .listPendingForReconciliation (.ok payments))
    (hnodup : (payments.map Payment.id).Nodup) (hpayments : payments = done ++ payment :: rest)
    (hdone : ∀ other ∈ done, Handled worker history other)
    {acts : List (Act (machine σ ε))}
    (hacts : ∀ act ∈ acts, ∀ id, Serves act id → id = payment.id) :
    InOrder worker listing (history ++ acts.map .act) := by
  intro payments' hlisting' earlier act later hhistory before served after hsplit hserves
  cases hlisting.2.symm.trans hlisting'.2
  rcases split_extended hhistory with ⟨rest, hold⟩ | ⟨middle, rfl, hnew⟩
  · exact h payments hlisting earlier act rest hold before served after hsplit hserves
  · intro other hother
    have hact : act ∈ acts := by simpa using hnew
    obtain rfl := cut_unique hnodup hpayments hsplit (hacts act hact _ hserves)
    exact (hdone other hother).mono (List.subset_append_left _ _)

end Order

section Program

variable {σ ε : Type} [PaymentRepository σ] [WebhookEventRepository ε] [Platform]
  {rules : Rules (machine σ ε)} {thread : Nat} {worker : ReconciliationWorker}
  {first : World σ ε} {listing : Act (machine σ ε)} {payments done rest : List Payment}

/-- The thread of a pass has this history, which begins with its listing, and is in order. -/
structure Ordered (thread : Nat) (worker : ReconciliationWorker) (first : World σ ε)
    (listing : Act (machine σ ε)) (history : List (Event (machine σ ε))) : Prop where
  starts : ∃ more, history = .start thread (.runOnce worker) first :: .act listing :: more
  request : listing.request = .listPendingForReconciliation
  order : InOrder worker listing history

/-- Such a history has the property. -/
theorem Ordered.order_history {history : List (Event (machine σ ε))}
    (h : Ordered thread worker first listing history) : OrderHistory history := by
  intro thread' worker' before events hhistory
  obtain ⟨more, hstarts⟩ := h.starts
  rw [hstarts] at hhistory
  cases hhistory
  exact .inr ⟨listing, more, rfl, h.request, h.order⟩

/-- The payments that are left are processed in order, and in the end all of the list have been
dealt with. -/
theorem process_all_in_order {history : List (Event (machine σ ε))}
    (h : Ordered thread worker first listing history)
    (hlisting : listing.Got .listPendingForReconciliation (.ok payments))
    (hnodup : (payments.map Payment.id).Nodup) (hpayments : payments = done ++ rest)
    (hdone : ∀ other ∈ done, Handled worker history other)
    (hsnapshots : ∀ payment ∈ rest, Snapshot history payment) (hpursued : AllPursued history) :
    Local rules OrderHistory thread none (worker.processAll rest)
      (fun result later => Ordered thread worker first listing later ∧
        (result = .ok () → ∀ other ∈ payments, Handled worker later other)) history := by
  induction rest generalizing history done with
  | nil =>
      rw [List.append_nil] at hpayments
      exact local_pure ⟨h, fun _ => hpayments ▸ hdone⟩
  | cons payment rest ih =>
      -- Whatever is requested for the payment keeps the order.
      have hextends : ∀ acts : List (Act (machine σ ε)),
          (∀ act ∈ acts, ∀ id, Serves act id → id = payment.id) →
          Ordered thread worker first listing (history ++ acts.map .act) := by
        intro acts hacts
        obtain ⟨more, hstarts⟩ := h.starts
        refine ⟨⟨more ++ acts.map .act, by rw [hstarts]; rfl⟩, h.request, ?_⟩
        exact h.order.extend hlisting hnodup hpayments hdone hacts
      have hserves : ∀ (act : Act (machine σ ε)) (span : Option Uuid),
          act.span = (some payment.id).or span → act.request.OfProcess payment.id →
          ∀ id, Serves act id → id = payment.id := by
        rintro act span hspan hrequest id (hserves | ⟨next, hash, hwrites⟩)
        · rw [hspan] at hserves
          exact (Option.some.inj hserves).symm
        · rw [hwrites] at hrequest
          exact hrequest.1
      have hends : EndsWith rules thread (some payment.id) (worker.process payment)
          (fun later => AllPursued later ∧ Handled worker later payment) history :=
        process_ends (hsnapshots payment List.mem_cons_self) hpursued
      have hboth := Local.and hends (local_acts process_makes hserves fun acts hacts =>
        (hextends acts hacts).order_history)
      simp only [true_and] at hboth
      refine local_bind (Local.mono (local_within hboth) fun result later hlater => ?_)
      obtain ⟨hlater, acts, rfl, hacts⟩ := hlater
      cases result with
      | error error => exact local_pure ⟨hextends acts hacts, nofun⟩
      | ok _ =>
          obtain ⟨hgrows, hpursued, hhandled⟩ := hlater rfl
          have hnext : payments = (done ++ [payment]) ++ rest := by
            rw [hpayments, List.append_assoc]
            rfl
          have hall : ∀ other ∈ done ++ [payment],
              Handled worker (history ++ acts.map .act) other := by
            intro other hother
            rcases List.mem_append.mp hother with hearlier | hlast
            · exact (hdone other hearlier).mono hgrows.subset
            · rwa [List.mem_singleton.mp hlast]
          exact ih (hextends acts hacts) hnext hall (fun other hother =>
            (hsnapshots other (List.mem_cons_of_mem _ hother)).mono hgrows.subset) hpursued

/-- What a call that has returned has done: a pass without an error has dealt with all that it had
listed first. -/
def DealtWith : (call : Call) → call.Result → List (Event (machine σ ε)) → Prop
  | .runOnce worker, result, history => result = .ok () →
      ∀ thread before listing more payments,
        history = .start thread (.runOnce worker) before :: .act listing :: more →
        listing.Got .listPendingForReconciliation (.ok payments) →
        ∀ payment ∈ payments, Handled worker history payment
  | _, _, _ => True

/-- A pass works in order, from its start to its end. -/
theorem run_once_in_order [RepositoryLaws σ] :
    Local rules OrderHistory thread none worker.runOnce (DealtWith (.runOnce worker))
      [.start thread (.runOnce worker) first] := by
  refine local_got_bind fun listing reply hspan hgot => ?_
  have hordered : Ordered thread worker first listing
      [.start thread (.runOnce worker) first, .act listing] := by
    refine ⟨⟨[], rfl⟩, hgot.1, fun payments _ earlier act later hhistory _ _ _ _ hserves => ?_⟩
    -- The listing itself serves no payment.
    have hact : Event.act act ∈ [Event.start (M := machine σ ε) thread (.runOnce worker) first,
        .act listing] := by
      rw [hhistory]
      exact List.mem_append_right _ List.mem_cons_self
    obtain rfl : act = listing := by simpa using hact
    rcases hserves with hserves | ⟨next, hash, hwrites⟩
    · cases hspan.symm.trans hserves
    · cases hgot.1.symm.trans hwrites
  refine ⟨hordered.order_history, ?_⟩
  cases reply with
  | error error => exact local_pure nofun
  | ok payments =>
      obtain ⟨hnodup, -, hlisted⟩ := answer_listing hgot.2
      have hsnapshots : ∀ payment ∈ payments,
          Snapshot [.start thread (.runOnce worker) first, .act listing] payment :=
        fun payment hpayment => ⟨listing, List.mem_cons_of_mem _ List.mem_cons_self,
          ((hlisted payment).mp hpayment).1⟩
      have hpursued : AllPursued [.start thread (.runOnce worker) first, .act listing] := by
        intro find hfind
        obtain rfl : find = listing := by simpa using hfind
        exact .of_quiet (by rw [hgot.1]; rfl)
      refine (process_all_in_order hordered hgot hnodup (List.nil_append payments).symm
        (fun _ => nofun) hsnapshots hpursued).mono fun result later hlater hok => ?_
      rintro thread' before' listing' more' payments' hstarts' hgot' payment hpayment
      obtain ⟨more, hstarts⟩ := hlater.1.starts
      cases hstarts.symm.trans hstarts'
      cases hgot.2.symm.trans hgot'.2
      exact hlater.2 hok payment hpayment

/-- In every run, passes work in order, and deal with all that they list if they do not fail. -/
theorem order_of_reachable [RepositoryLaws σ] {world : World σ ε} {state : State (machine σ ε)}
    (hreach : Reachable rules world state) :
    (∀ thread, OrderHistory (state.config.own thread)) ∧
    ∀ (thread : Nat) (call : Call) (result : call.Result),
      state.threads[thread]? = some ⟨call, .done result⟩ →
        DealtWith call result (state.config.own thread) := by
  refine @Reachable.own_holds (machine σ ε) rules OrderHistory DealtWith (fun _ _ _ _ => nofun)
    (fun call thread before _ => ?_) world state hreach
  -- Of any other call there is nothing to show.
  have hother : (∀ worker, call ≠ .runOnce worker) →
      ∀ more, OrderHistory ([.start thread call before] ++ more) := by
    rintro hcall more _ worker _ _ ⟨⟩
    exact absurd rfl (hcall worker)
  cases call with
  | runOnce worker =>
      refine ⟨?_, run_once_in_order⟩
      rintro _ _ _ _ ⟨⟩
      exact .inl rfl
  | _ =>
      have hkeeps := hother fun _ => nofun
      exact ⟨hkeeps [], (local_any hkeeps).mono fun _ _ _ => trivial⟩

end Program

section Passes

variable {σ ε : Type} [PaymentRepository σ] [WebhookEventRepository ε] [Platform]

/-- The thread runs a pass of this worker, which has listed these payments. -/
def Listed (state : State (machine σ ε)) (thread : Nat) (worker : ReconciliationWorker)
    (payments : List Payment) : Prop :=
  ∃ before listing more,
    state.config.own thread = .start thread (.runOnce worker) before :: .act listing :: more ∧
    listing.Got .listPendingForReconciliation (.ok payments)

/-- Nothing that the pass has seen so far lets it deal with the payment: it is pending and young,
and no search for it has been answered. -/
structure Stuck (worker : ReconciliationWorker) (history : List (Event (machine σ ε)))
    (payment : Payment) : Prop where
  pending : payment.status = .pending
  memo : payment.memo ≠ none
  young : ∀ clock, .act clock ∈ history → clock.span = some payment.id →
    clock.request = .utcNow → clock.env.now - payment.createdAt < worker.expiry
  unanswered : ∀ find, .act find ∈ history → find.span = some payment.id →
    ∀ memo transfer,
      ¬ find.Got (.findPayment payment.destination memo payment.createdAt) (.ok transfer)

/-- The searches for the payment find no such account. -/
def AccountMissing [Http.WireFormat] (history : List (Event (machine σ ε)))
    (payment : Payment) : Prop :=
  ∀ find memo, .act find ∈ history → find.span = some payment.id →
    find.request = .findPayment payment.destination memo payment.createdAt →
    ∃ (network : Http.Network) (client : Http.HorizonClient) (message : String)
      (fields : List (String × Value)),
      network.LacksAccount client payment.destination message fields ∧
      find.env.horizon.payments payment.destination =
        network.run (client.getPage payment.destination)

variable {state : State (machine σ ε)} {thread : Nat} {worker : ReconciliationWorker}
  {history : List (Event (machine σ ε))} {payments before after : List Payment} {payment : Payment}

/-- A pass that is stuck has not dealt with the payment. -/
theorem Stuck.not_handled (h : Stuck worker history payment) :
    ¬ Handled worker history payment := by
  intro hhandled
  cases hhandled with
  | moved update next hash updated hmoving hupdate hgot =>
      cases hmoving with
      | expired clock hstatus hclock hspan hrequest hage =>
          exact absurd (h.young clock hclock hspan hrequest) (not_lt.mpr hage)
      | detected find memo found hstatus hfind hspan hfound =>
          exact h.unanswered find hfind hspan memo _ hfound
      | settled _ hstatus hnext => cases h.pending.symm.trans hstatus
  | waiting hstatus hleft =>
      cases hleft.1 with
      | unsearchable hmemo => exact h.memo hmemo
      | searched find memo transfer hfind hspan hmemo hgot hamount =>
          exact h.unanswered find hfind hspan memo transfer hgot
  | unhashed hstatus hhash => exact hstatus h.pending
  | settled hpending hdetected => exact hpending h.pending

/-- An account that is missing lets no search be answered. -/
theorem AccountMissing.unanswered [Http.WireFormat] (h : AccountMissing history payment)
    {find : Act (machine σ ε)} (hfind : .act find ∈ history) (hspan : find.span = some payment.id)
    (memo : String) (transfer : Option StellarPayment) :
    ¬ find.Got (.findPayment payment.destination memo payment.createdAt) (.ok transfer) := by
  rintro ⟨hrequest, hreply⟩
  obtain ⟨network, client, message, fields, hlacks, hpage⟩ := h find memo hfind hspan hrequest
  rw [hlacks.page] at hpage
  obtain ⟨findThread, span, request, env, world⟩ := find
  cases hrequest
  have hanswer : HorizonClient.findPayment env.horizon payment.destination memo
      payment.createdAt = .ok transfer := hreply
  rw [HorizonClient.findPayment, hpage] at hanswer
  cases hanswer

variable {rules : Rules (machine σ ε)} {world : World σ ε} [RepositoryLaws σ]

/-- A pass that is stuck with a payment has not turned to any that is listed after it, and does not
end without an error. -/
theorem stuck_holds_up (hreach : Reachable rules world state)
    (hlisted : Listed state thread worker payments)
    (hpayments : payments = before ++ payment :: after)
    (hstuck : Stuck worker (state.config.own thread) payment) :
    (∀ act, .act act ∈ state.config.own thread → ∀ other ∈ after, ¬ Serves act other.id) ∧
      state.threads[thread]? ≠ some ⟨.runOnce worker, .done (.ok ())⟩ := by
  obtain ⟨horder, hdealt⟩ := order_of_reachable hreach
  obtain ⟨start, listing, more, hown, hgot⟩ := hlisted
  refine ⟨fun act hact other hother hserves => ?_, fun hthread => ?_⟩
  · rcases horder thread thread worker start _ hown with hnone | ⟨first, rest, hfirst, -, horder⟩
    · cases hnone
    · cases hfirst
      obtain ⟨earlier, later, hsplit⟩ := List.append_of_mem hact
      obtain ⟨between, last, hafter⟩ := List.append_of_mem hother
      have hcut : payments = (before ++ payment :: between) ++ other :: last := by
        rw [hpayments, hafter, List.append_assoc, List.cons_append]
      have hhandled := horder payments hgot earlier act later hsplit _ other last hcut hserves
        payment (by simp)
      refine hstuck.not_handled (hhandled.mono ?_)
      rw [hsplit]
      exact List.subset_append_left _ _
  · refine hstuck.not_handled (hdealt thread _ _ hthread rfl thread start listing more payments
      hown hgot payment ?_)
    rw [hpayments]
    exact List.mem_append_right _ List.mem_cons_self

end Passes

section Backends

variable [Platform] {backend : Backend} {state : State backend.machine} {thread : Nat}
  {worker : ReconciliationWorker} {payments : List Payment}

/-- On either backend, whatever runs beside it, a pass lists the oldest payments first, turns to a
payment only when it has dealt with all that are listed before it, and has dealt with all of them
if it ends without an error. -/
theorem pass_in_order
    (hreach : Reachable (serviceRules backend.Payments backend.Events) backend.empty state)
    (hlisted : Listed state thread worker payments) :
    (payments.Pairwise fun first second => first.createdAt ≤ second.createdAt) ∧
    (∀ earlier act later, state.config.own thread = earlier ++ .act act :: later →
      ∀ before payment after, payments = before ++ payment :: after → Serves act payment.id →
        ∀ other ∈ before, Handled worker earlier other) ∧
    (state.threads[thread]? = some ⟨.runOnce worker, .done (.ok ())⟩ →
      ∀ payment ∈ payments, Handled worker (state.config.own thread) payment) := by
  obtain ⟨horder, hdealt⟩ := order_of_reachable hreach
  obtain ⟨start, listing, more, hown, hgot⟩ := hlisted
  refine ⟨(answer_listing hgot.2).2.1, fun earlier act later hhistory => ?_, fun hthread => ?_⟩
  · rcases horder thread thread worker start _ hown with hnone | ⟨first, rest, hfirst, -, horder⟩
    · cases hnone
    · cases hfirst
      exact horder payments hgot earlier act later hhistory
  · exact hdealt thread _ _ hthread rfl thread start listing more payments hown hgot

/-- On either backend, whatever runs beside it, a young payment to an account that Horizon does not
know keeps the pass from all younger payments: it makes no request for any of them, and does not end
without an error. Young is what is younger than the window that `process_pending` compares with, and
that window is zero when `chrono` cannot represent the configured one. -/
theorem missing_account_blocks [Http.WireFormat]
    (hreach : Reachable (serviceRules backend.Payments backend.Events) backend.empty state)
    (hlisted : Listed state thread worker payments) {before after : List Payment}
    {payment : Payment} (hpayments : payments = before ++ payment :: after)
    (hpending : payment.status = .pending) (hmemo : payment.memo ≠ none)
    (hyoung : ∀ clock, .act clock ∈ state.config.own thread → clock.span = some payment.id →
      clock.request = .utcNow → clock.env.now - payment.createdAt < worker.expiry)
    (hmissing : AccountMissing (state.config.own thread) payment) :
    (∀ act, .act act ∈ state.config.own thread → ∀ other ∈ after, ¬ Serves act other.id) ∧
      state.threads[thread]? ≠ some ⟨.runOnce worker, .done (.ok ())⟩ :=
  stuck_holds_up hreach hlisted hpayments ⟨hpending, hmemo, hyoung,
    fun _ hfind hspan => hmissing.unanswered hfind hspan⟩

end Backends

section Run

attribute [local instance] Plain.platform Http.plainFormat

open Plain

/-- A moment at which Horizon knows no account. -/
def envWithout (now : DateTime) (uuid : Uuid) : Env :=
  { env now uuid with horizon := { horizon with payments _ := .error (.decode "not a page") } }

/-- Two payments are created, the first to an account that is not there, and a pass begins. -/
def blockedPass : List (Choice Backend.postgres.machine) :=
  [.start (.createPayment service "10" "order-1" (some "GNEW") (some "m") none),
    .act 0 (env 5000 7), .act 0 (env 5000 7), .act 0 (env 5000 7),
    .start (create "20" "order-2" none), .act 1 (env 5100 9), .act 1 (env 5100 9),
    .act 1 (env 5100 9), .start (.runOnce worker), .act 2 (env 6000 8),
    .act 2 (envWithout 6000 8), .act 2 (envWithout 6000 8)]

/-- What the pass of `blockedPass` has listed: two payments. -/
def listedPair (state : State Backend.postgres.machine) :
    Option (ReconciliationWorker × Payment × Payment) :=
  match state.config.own 2 with
  | .start 2 (.runOnce worker) _ :: .act ⟨_, _, .listPendingForReconciliation, env, before⟩ :: _ =>
      match (answer env .listPendingForReconciliation before).1 with
      | .ok [first, second] => some (worker, first, second)
      | _ => none
  | _ => none

/-- They have been listed by a pass. -/
theorem listed_pair_eq {state : State Backend.postgres.machine} {worker : ReconciliationWorker}
    {first second : Payment} (h : listedPair state = some (worker, first, second)) :
    Listed state 2 worker [first, second] := by
  unfold listedPair at h
  split at h
  · rename_i hown
    split at h
    · rename_i hanswer
      cases h
      exact ⟨_, _, _, hown, rfl, hanswer⟩
    · cases h
  · cases h

/-- At this event the payment is young, and its account is not there. -/
def withoutAccount (worker : ReconciliationWorker) (payment : Payment) :
    Event Backend.postgres.machine → Bool
  | .act act => act.span != some payment.id ||
      (decide (act.env.now - payment.createdAt < worker.expiry) &&
        match act.env.horizon.payments payment.destination with
        | .error (.decode message) => message == "not a page"
        | _ => false)
  | .start _ _ _ => true

/-- What this says of an act in the span of the payment. -/
theorem without_account_eq {worker : ReconciliationWorker} {payment : Payment}
    {act : Act Backend.postgres.machine} (h : withoutAccount worker payment (.act act) = true)
    (hspan : act.span = some payment.id) :
    act.env.now - payment.createdAt < worker.expiry ∧
      act.env.horizon.payments payment.destination = .error (.decode "not a page") := by
  simp only [withoutAccount, hspan, bne_self_eq_false, Bool.false_or, Bool.and_eq_true,
    decide_eq_true_eq] at h
  obtain ⟨hyoung, hmissing⟩ := h
  split at hmissing
  · rename_i hpayments
    exact ⟨hyoung, by rw [hpayments, beq_iff_eq.mp hmissing]⟩
  · cases hmissing

/-- The network of which such a page is read. -/
theorem lacks_account (destination : String) :
    Http.Network.LacksAccount (fun _ => .ok ⟨Http.notFound, some (.object []), "not a page"⟩)
      ⟨"https://horizon.example"⟩ destination "not a page" [] :=
  ⟨rfl, fun _ => nofun⟩

/-- The run of the blocked pass. -/
theorem exists_blocked_pass : ∃ (state : State Backend.postgres.machine)
    (worker : ReconciliationWorker) (first second : Payment),
    Reachable (serviceRules Backend.postgres.Payments Backend.postgres.Events)
      Backend.postgres.empty state ∧ Listed state 2 worker [first, second] ∧
    (first.status = .pending ∧ first.memo ≠ none) ∧
    ∀ act, .act act ∈ state.config.own 2 → act.span = some first.id →
      act.env.now - first.createdAt < worker.expiry ∧
        act.env.horizon.payments first.destination = .error (.decode "not a page") := by
  obtain ⟨state, hreach, htest⟩ := exists_reachable
    (serviceRules Backend.postgres.Payments Backend.postgres.Events) blockedPass
    Backend.postgres.empty (fun state => (listedPair state).any fun (worker, first, _) =>
      decide (first.status = .pending ∧ first.memo ≠ none) &&
        (state.config.own 2).all (withoutAccount worker first))
    (by decide)
  obtain ⟨⟨worker, first, second⟩, hlisted, htest⟩ := (Option.any_eq_true _ _).mp htest
  simp only [Bool.and_eq_true, decide_eq_true_eq] at htest
  exact ⟨state, worker, first, second, hreach, listed_pair_eq hlisted, htest.1,
    fun act hact hspan => without_account_eq (List.all_eq_true.mp htest.2 _ hact) hspan⟩

/-- The blocked pass has worked in order. -/
theorem pass_in_order_blocked : ∃ (state : State Backend.postgres.machine)
    (worker : ReconciliationWorker) (first second : Payment),
    Listed state 2 worker [first, second] ∧ first.createdAt ≤ second.createdAt ∧
    ∀ earlier act later, state.config.own 2 = earlier ++ .act act :: later →
      Serves act second.id → Handled worker earlier first := by
  obtain ⟨state, worker, first, second, hreach, hlisted, -, -⟩ := exists_blocked_pass
  obtain ⟨hsorted, horder, -⟩ := @pass_in_order platform .postgres state 2 worker [first, second]
    hreach hlisted
  refine ⟨state, worker, first, second, hlisted, ?_, fun earlier act later hsplit hserves => ?_⟩
  · simpa using hsorted
  · exact horder earlier act later hsplit [first] second [] rfl hserves first List.mem_cons_self

/-- It does not get to its second payment. -/
theorem missing_account_blocks_second : ∃ (state : State Backend.postgres.machine)
    (worker : ReconciliationWorker) (first second : Payment),
    Listed state 2 worker [first, second] ∧
    (∀ act, .act act ∈ state.config.own 2 → ¬ Serves act second.id) ∧
    state.threads[2]? ≠ some ⟨.runOnce worker, .done (.ok ())⟩ := by
  obtain ⟨state, worker, first, second, hreach, hlisted, ⟨hpending, hmemo⟩, hacts⟩ :=
    exists_blocked_pass
  have hmissing : AccountMissing (state.config.own 2) first := by
    intro find memo hfind hspan _
    refine ⟨_, _, _, _, lacks_account first.destination, ?_⟩
    rw [(lacks_account first.destination).page]
    exact (hacts find hfind hspan).2
  obtain ⟨hblocked, hfails⟩ := @missing_account_blocks platform .postgres state 2 worker
    [first, second] Http.plainFormat hreach hlisted [] [second] first rfl hpending hmemo
    (fun clock hclock hspan _ => (hacts clock hclock hspan).1) hmissing
  exact ⟨state, worker, first, second, hlisted,
    fun act hact => hblocked act hact second List.mem_cons_self, hfails⟩

end Run

end StellarPay
