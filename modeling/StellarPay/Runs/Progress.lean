import StellarPay.Runs.Pass
import StellarPay.Runs.Reads

/-!
# What a pass gets done

A pass that ends without an error has dealt with every payment of its list: it has moved the
payment, or it has seen why there is nothing to do yet. Whatever runs beside it, the payments it
found detected are settled when it ends, and a payment whose transfer it was shown is settled when
the next pass has ended as well.
-/

namespace StellarPay

open Interleaving

/-- The request looks for a transfer. -/
def Request.searches : Request → Bool
  | .findPayment _ _ _ => true
  | _ => false

/-- Announcing a transition looks for nothing. -/
theorem emit_makes_no_search [Platform] {event : PaymentEvent} :
    (ReconciliationWorker.emit event).Makes fun request => request.searches = false :=
  ReconciliationWorker.emit_makes_of rfl rfl fun _ _ _ => rfl

section Histories

variable {σ ε : Type} [PaymentRepository σ] [WebhookEventRepository ε] [Platform]

/-- Why a young payment stays pending: it has no memo, or the search for it found nothing, or a
transfer of another amount. -/
inductive Unpaid (history : List (Event (machine σ ε))) (payment : Payment) : Prop where
  | unsearchable (hmemo : payment.memo = none) : Unpaid history payment
  | searched (find : Act (machine σ ε)) (memo : String) (transfer : Option StellarPayment)
      (hfind : .act find ∈ history) (hspan : find.span = some payment.id)
      (hmemo : payment.memo = some memo)
      (hgot : find.Got (.findPayment payment.destination memo payment.createdAt) (.ok transfer))
      (hamount : ∀ found ∈ transfer, amountsMatch payment.amount found.amount = false) :
      Unpaid history payment

/-- A pass has left a payment pending: the payment is young, and not paid. -/
def LeftPending (worker : ReconciliationWorker) (history : List (Event (machine σ ε)))
    (payment : Payment) : Prop :=
  Unpaid history payment ∧ ∃ clock, .act clock ∈ history ∧ clock.span = some payment.id ∧
    clock.request = .utcNow ∧ clock.env.now - payment.createdAt < worker.expiry

/-- Why a pass moves a payment: it is too old, a transfer was found for it, or its transaction was
looked up. -/
inductive Moving (worker : ReconciliationWorker) (history : List (Event (machine σ ε)))
    (payment : Payment) : PaymentStatus → Option String → Prop where
  | expired (clock : Act (machine σ ε)) (hstatus : payment.status = .pending)
      (hclock : .act clock ∈ history) (hspan : clock.span = some payment.id)
      (hrequest : clock.request = .utcNow)
      (hage : worker.expiry ≤ clock.env.now - payment.createdAt) :
      Moving worker history payment .expired none
  | detected (find : Act (machine σ ε)) (memo : String) (found : StellarPayment)
      (hstatus : payment.status = .pending) (hfind : .act find ∈ history)
      (hspan : find.span = some payment.id)
      (hgot : find.Got (.findPayment payment.destination memo payment.createdAt)
        (.ok (some found))) :
      Moving worker history payment .detected (some found.transactionHash)
  | settled (next : PaymentStatus) (hstatus : payment.status = .detected)
      (hnext : next = .confirmed ∨ next = .failed) : Moving worker history payment next none

/-- How a pass has dealt with a payment of its list. -/
inductive Handled (worker : ReconciliationWorker) (history : List (Event (machine σ ε)))
    (payment : Payment) : Prop where
  /-- It has moved the payment. -/
  | moved (update : Act (machine σ ε)) (next : PaymentStatus) (hash : Option String)
      (updated : Payment) (hmoving : Moving worker history payment next hash)
      (hupdate : .act update ∈ history)
      (hgot : update.Got (.guardedUpdate payment.id next hash) (.ok (some updated))) :
      Handled worker history payment
  /-- The payment is still young, and not paid. -/
  | waiting (hstatus : payment.status = .pending) (hleft : LeftPending worker history payment) :
      Handled worker history payment
  /-- A detected payment without a hash cannot be looked up. -/
  | unhashed (hstatus : payment.status ≠ .pending) (hhash : payment.stellarTxHash = none) :
      Handled worker history payment
  /-- There is nothing to do for the payment. -/
  | settled (hpending : payment.status ≠ .pending) (hdetected : payment.status ≠ .detected) :
      Handled worker history payment

/-- If the request found a transfer, it was for a payment of a list, and if the amount is right, the
payment has been detected with it. -/
def Pursued (history : List (Event (machine σ ε))) (find : Act (machine σ ε)) : Prop :=
  ∀ destination memo since found,
    find.Got (.findPayment destination memo since) (.ok (some found)) →
    ∃ payment, Snapshot history payment ∧ find.span = some payment.id ∧
      (amountsMatch payment.amount found.amount = true → ∃ update updated,
        .act update ∈ history ∧
        update.Got (.guardedUpdate payment.id .detected (some found.transactionHash))
          (.ok (some updated)))

/-- Every search of the history has been pursued. -/
def AllPursued (history : List (Event (machine σ ε))) : Prop :=
  ∀ find, .act find ∈ history → Pursued history find

variable {worker : ReconciliationWorker} {history later : List (Event (machine σ ε))}

/-- What was unpaid stays a reason. -/
theorem Unpaid.mono {payment : Payment} (h : Unpaid history payment) (hgrows : history ⊆ later) :
    Unpaid later payment := by
  cases h with
  | unsearchable hmemo => exact .unsearchable hmemo
  | searched find memo transfer hfind hspan hmemo hgot hamount =>
      exact .searched find memo transfer (hgrows hfind) hspan hmemo hgot hamount

/-- A reason to move a payment stays one. -/
theorem Moving.mono {payment : Payment} {next : PaymentStatus} {hash : Option String}
    (h : Moving worker history payment next hash) (hgrows : history ⊆ later) :
    Moving worker later payment next hash := by
  cases h with
  | expired clock hstatus hclock hspan hrequest hage =>
      exact .expired clock hstatus (hgrows hclock) hspan hrequest hage
  | detected find memo found hstatus hfind hspan hgot =>
      exact .detected find memo found hstatus (hgrows hfind) hspan hgot
  | settled _ hstatus hnext => exact .settled _ hstatus hnext

/-- It allows the transition. -/
theorem Moving.transition {payment : Payment} {next : PaymentStatus} {hash : Option String}
    (h : Moving worker history payment next hash) :
    payment.status.canTransitionTo next = true := by
  cases h with
  | expired _ hstatus | detected _ _ _ hstatus =>
      rw [hstatus]
      rfl
  | settled _ hstatus hnext =>
      rw [hstatus]
      rcases hnext with rfl | rfl <;> rfl

/-- A payment that has been dealt with stays so. -/
theorem Handled.mono {payment : Payment} (h : Handled worker history payment)
    (hgrows : history ⊆ later) : Handled worker later payment := by
  cases h with
  | moved update next hash updated hmoving hupdate hgot =>
      exact .moved update next hash updated (hmoving.mono hgrows) (hgrows hupdate) hgot
  | waiting hstatus hleft =>
      obtain ⟨hunpaid, clock, hclock, hspan, hrequest, hage⟩ := hleft
      exact .waiting hstatus ⟨hunpaid.mono hgrows, clock, hgrows hclock, hspan, hrequest, hage⟩
  | unhashed hstatus hhash => exact .unhashed hstatus hhash
  | settled hpending hdetected => exact .settled hpending hdetected

/-- A search that has been pursued stays so. -/
theorem Pursued.mono {find : Act (machine σ ε)} (h : Pursued history find)
    (hgrows : history ⊆ later) : Pursued later find := by
  intro destination memo since found hgot
  obtain ⟨payment, hsnapshot, hspan, hdetected⟩ := h destination memo since found hgot
  refine ⟨payment, hsnapshot.mono hgrows, hspan, fun hamount => ?_⟩
  obtain ⟨update, updated, hupdate, hgot⟩ := hdetected hamount
  exact ⟨update, updated, hgrows hupdate, hgot⟩

/-- Nothing has to be pursued of an act that looks for nothing. -/
theorem Pursued.of_quiet {act : Act (machine σ ε)} (h : act.request.searches = false) :
    Pursued history act := by
  rintro destination memo since found ⟨hrequest, -⟩
  rw [hrequest] at h
  cases h

/-- A search has been pursued if the payment was detected with what it found. -/
theorem Pursued.of_got {find : Act (machine σ ε)} {payment : Payment} {destination memo : String}
    {since : DateTime} {transfer : Option StellarPayment} (hsnapshot : Snapshot history payment)
    (hspan : find.span = some payment.id)
    (hgot : find.Got (.findPayment destination memo since) (.ok transfer))
    (h : ∀ found ∈ transfer, amountsMatch payment.amount found.amount = true →
      ∃ update updated, .act update ∈ history ∧
        update.Got (.guardedUpdate payment.id .detected (some found.transactionHash))
          (.ok (some updated))) :
    Pursued history find := by
  rintro destination' memo' since' found ⟨hrequest, hreply⟩
  cases hgot.1.symm.trans hrequest
  cases hgot.2.symm.trans hreply
  exact ⟨payment, hsnapshot, hspan, h found rfl⟩

/-- A history in which all that is new has been pursued. -/
theorem AllPursued.extend (h : AllPursued history) {acts : List (Act (machine σ ε))}
    (hacts : ∀ act ∈ acts, Pursued (history ++ acts.map .act) act) :
    AllPursued (history ++ acts.map .act) := by
  intro find hfind
  rcases List.mem_append.mp hfind with hearlier | hnew
  · exact (h find hearlier).mono (List.subset_append_left _ _)
  · obtain ⟨act, hact, heq⟩ := List.mem_map.mp hnew
    cases heq
    exact hacts find hact

/-- One more act that has been pursued. -/
theorem AllPursued.snoc (h : AllPursued history) {act : Act (machine σ ε)}
    (hact : Pursued (history ++ [.act act]) act) : AllPursued (history ++ [.act act]) :=
  h.extend (List.forall_mem_singleton.mpr hact)

end Histories

section Program

variable {σ ε : Type} [PaymentRepository σ] [WebhookEventRepository ε] [Platform]
  (rules : Rules (machine σ ε))

/-- If the program ends without an error, the history of its thread has grown and satisfies the
goal. -/
def EndsWith (thread : Nat) (outer : Option Uuid) (program : Prog (Except WorkerError Unit))
    (goal : List (Event (machine σ ε)) → Prop) (history : List (Event (machine σ ε))) : Prop :=
  Local rules (fun _ => True) thread outer program
    (fun result later => result = .ok () → history <+: later ∧ goal later) history

variable {rules} {thread : Nat} {outer : Option Uuid} {worker : ReconciliationWorker}
  {history : List (Event (machine σ ε))} {goal : List (Event (machine σ ε)) → Prop}

/-- A program that is at its end. -/
theorem ends_pure (h : goal history) : EndsWith rules thread outer (pure (.ok ())) goal history :=
  local_pure fun _ => ⟨List.prefix_rfl, h⟩

/-- A program that fails promises nothing. -/
theorem ends_error {program : Prog (Except WorkerError Unit)} {error : WorkerError}
    (h : program = pure (.error error)) : EndsWith rules thread outer program goal history := by
  subst h
  exact local_pure fun hok => nomatch hok

/-- A goal that follows from the goal is reached as well. -/
theorem EndsWith.weaken {program : Prog (Except WorkerError Unit)}
    {weaker : List (Event (machine σ ε)) → Prop}
    (h : EndsWith rules thread outer program goal history)
    (hgoal : ∀ later, history <+: later → goal later → weaker later) :
    EndsWith rules thread outer program weaker history :=
  Local.mono h fun _ later hlater hok => ⟨(hlater hok).1, hgoal later (hlater hok).1 (hlater hok).2⟩

/-- A part in a span of its own, and what follows unless it fails. -/
theorem ends_bind {span : Uuid} {program : Prog (Except WorkerError Unit)}
    {next : Except WorkerError Unit → Prog (Except WorkerError Unit)}
    {middle : List (Event (machine σ ε)) → Prop}
    (h : EndsWith rules thread (some span) program middle history)
    (herror : ∀ error, next (.error error) = pure (.error error))
    (hok : ∀ later, history <+: later → middle later →
      EndsWith rules thread none (next (.ok ())) goal later) :
    EndsWith rules thread none (program.within span >>= next) goal history := by
  have hwithin : Local rules (fun _ => True) thread none (program.within span)
    (fun result later => result = .ok () → history <+: later ∧ middle later) history :=
      local_within h
  refine local_bind (hwithin.mono fun result later hlater => ?_)
  cases result with
  | error error =>
      rw [herror]
      exact local_pure fun hfailed => nomatch hfailed
  | ok _ =>
      obtain ⟨hgrows, hmiddle⟩ := hlater rfl
      exact (hok later hgrows hmiddle).mono fun result last hlast hresult =>
        ⟨hgrows.trans (hlast hresult).1, (hlast hresult).2⟩

/-- A request, and what follows its answer. -/
theorem ends_request {request : Request}
    {next : Answer request → Prog (Except WorkerError Unit)}
    (h : ∀ (act : Act (machine σ ε)) (reply : Answer request), act.span = outer →
      act.Got request reply →
      EndsWith rules thread outer (next reply) goal (history ++ [.act act])) :
    EndsWith rules thread outer (ask request >>= next) goal history := by
  refine local_got_bind fun act reply hspan hgot => ⟨trivial, ?_⟩
  refine (h act reply hspan hgot).mono fun result later hlater hok => ?_
  obtain ⟨hgrows, hgoal⟩ := hlater hok
  exact ⟨(List.prefix_append _ _).trans hgrows, hgoal⟩

/-- An update of the worker has moved the payment if the pass goes on. -/
theorem ends_update {id : Uuid} {next : PaymentStatus} {hash : Option String}
    {rest : Except RepositoryError Payment → Prog (Except WorkerError Unit)}
    (herror : ∀ error, rest (.error error) = pure (.error (.repository error)))
    (hok : ∀ (update : Act (machine σ ε)) (updated : Payment),
      update.Got (.guardedUpdate id next hash) (.ok (some updated)) →
      EndsWith rules thread outer (rest (.ok updated)) goal (history ++ [.act update])) :
    EndsWith rules thread outer (updateStatus id next hash >>= rest) goal history := by
  refine ends_request fun update reply _ hgot => ?_
  rcases reply with error | _ | updated
  · exact ends_error (herror error)
  · refine ends_request fun read found _ _ => ?_
    rcases found with error | _ | found <;> exact ends_error (herror _)
  · exact hok update updated hgot

/-- The announcement at the end of a payment. -/
theorem ends_emit {event : PaymentEvent}
    (h : ∀ acts : List (Act (machine σ ε)), (∀ act ∈ acts, act.request.searches = false) →
      goal (history ++ acts.map .act)) :
    EndsWith rules thread outer
      (ReconciliationWorker.emit event >>= fun _ => pure (.ok ())) goal history := by
  refine local_bind ((local_makes emit_makes_no_search fun _ => trivial).mono ?_)
  rintro _ _ ⟨acts, rfl, hacts⟩
  exact local_pure fun _ => ⟨List.prefix_append _ _, h acts hacts⟩

/-- A transition that is announced is how the pass has dealt with the payment. -/
theorem ends_moved {payment : Payment} {event : PaymentEvent} {next : PaymentStatus}
    {hash : Option String} {update : Act (machine σ ε)} {updated : Payment}
    (hpursued : AllPursued history) (hmoving : Moving worker history payment next hash)
    (hupdate : .act update ∈ history)
    (hgot : update.Got (.guardedUpdate payment.id next hash) (.ok (some updated))) :
    EndsWith rules thread outer (ReconciliationWorker.emit event >>= fun _ => pure (.ok ()))
      (fun later => AllPursued later ∧ Handled worker later payment) history := by
  refine ends_emit fun acts hacts => ⟨?_, ?_⟩
  · exact hpursued.extend fun act hact => .of_quiet (hacts act hact)
  · exact .moved update next hash updated (hmoving.mono (List.subset_append_left _ _))
      (List.mem_append_left _ hupdate) hgot

/-- A pending payment is expired, detected, or still unpaid. -/
theorem process_pending_ends {payment : Payment} (hstatus : payment.status = .pending)
    (hsnapshot : Snapshot history payment) (hpursued : AllPursued history) :
    EndsWith rules thread (some payment.id) (worker.processPending payment)
      (fun later => AllPursued later ∧ Handled worker later payment) history := by
  refine ends_request fun clock now hspan hnow => ?_
  have hclock : AllPursued (history ++ [.act clock]) :=
    hpursued.snoc (.of_quiet (by rw [hnow.1]; rfl))
  dsimp only
  split
  · rename_i hage
    refine ends_update (fun _ => rfl) fun update updated hgot => ?_
    have hexpired : Moving worker (history ++ [.act clock] ++ [.act update]) payment .expired
        none := by
      obtain ⟨hrequest, rfl⟩ := hnow
      exact .expired clock hstatus (by simp) hspan hrequest hage
    exact ends_moved (hclock.snoc (.of_quiet (by rw [hgot.1]; rfl))) hexpired
      List.mem_concat_self hgot
  · rename_i hage
    have hwaiting : ∀ later, .act clock ∈ later → Unpaid later payment →
        Handled worker later payment := by
      obtain ⟨hrequest, rfl⟩ := hnow
      exact fun later hclock hunpaid =>
        .waiting hstatus ⟨hunpaid, clock, hclock, hspan, hrequest, not_le.mp hage⟩
    split
    · rename_i hmemo
      exact ends_pure ⟨hclock, hwaiting _ List.mem_concat_self (.unsearchable hmemo)⟩
    · rename_i memo hmemo
      refine ends_request fun find reply hspan' hfind => ?_
      have hlater : Snapshot (history ++ [.act clock] ++ [.act find]) payment :=
        (hsnapshot.mono (List.subset_append_left _ _)).mono (List.subset_append_left _ _)
      -- A search that found nothing of the right amount is pursued as it is.
      have hunpaid : ∀ transfer, find.Got (.findPayment payment.destination memo payment.createdAt)
          (.ok transfer) → (∀ found ∈ transfer, amountsMatch payment.amount found.amount = false) →
          EndsWith rules thread (some payment.id) (pure (.ok ()))
            (fun later => AllPursued later ∧ Handled worker later payment)
            (history ++ [.act clock] ++ [.act find]) := by
        intro transfer hgot hamount
        refine ends_pure ⟨hclock.snoc (.of_got hlater hspan' hgot fun found hfound hmatch => ?_),
          hwaiting _ (by simp) ?_⟩
        · simp [hamount found hfound] at hmatch
        · exact .searched find memo transfer List.mem_concat_self hspan' hmemo hgot hamount
      rcases reply with error | _ | found
      · exact ends_error rfl
      · exact hunpaid none hfind fun _ => nofun
      · dsimp only
        split
        · refine ends_update (fun _ => rfl) fun update updated hgot => ?_
          have hupdate :
              Pursued (history ++ [.act clock] ++ [.act find] ++ [.act update]) find := by
            refine .of_got (hlater.mono (List.subset_append_left _ _)) hspan' hfind ?_
            rintro _ ⟨⟩ -
            exact ⟨update, updated, List.mem_concat_self, hgot⟩
          have hdetected : Moving worker (history ++ [.act clock] ++ [.act find] ++ [.act update])
              payment .detected (some found.transactionHash) :=
            .detected find memo found hstatus (by simp) hspan' hfind
          refine ends_moved ?_ hdetected List.mem_concat_self hgot
          rw [List.append_assoc (history ++ [Event.act clock])] at hupdate ⊢
          have hpair : ∀ act ∈ [find, update],
              Pursued (history ++ [.act clock] ++ [find, update].map .act) act :=
            List.forall_mem_cons.mpr ⟨hupdate,
              List.forall_mem_singleton.mpr (.of_quiet (by rw [hgot.1]; rfl))⟩
          exact hclock.extend hpair
        · rename_i hamount
          refine hunpaid (some found) hfind ?_
          rintro _ ⟨⟩
          exact Bool.eq_false_iff.mpr hamount

/-- A detected payment is confirmed or failed, unless it has no hash. -/
theorem process_detected_ends {payment : Payment} (hstatus : payment.status = .detected)
    (hpursued : AllPursued history) :
    EndsWith rules thread outer (ReconciliationWorker.processDetected payment)
      (fun later => AllPursued later ∧ Handled worker later payment) history := by
  unfold ReconciliationWorker.processDetected
  split
  · rename_i hhash
    exact ends_pure ⟨hpursued, .unhashed (by rw [hstatus]; decide) hhash⟩
  · rename_i hash hhash
    refine ends_request fun lookup reply _ hlookup => ?_
    have hpursued : AllPursued (history ++ [.act lookup]) :=
      hpursued.snoc (.of_quiet (by rw [hlookup.1]; rfl))
    cases reply with
    | error error => exact ends_error rfl
    | ok transaction =>
        dsimp only
        split
        · refine ends_update (fun _ => rfl) fun update updated hgot => ?_
          have hpursued : AllPursued (history ++ [.act lookup] ++ [.act update]) :=
            hpursued.snoc (.of_quiet (by rw [hgot.1]; rfl))
          refine ends_request fun record _ _ hrecord => ?_
          refine ends_moved (hpursued.snoc (.of_quiet (by rw [hrecord.1]; rfl)))
            (.settled .confirmed hstatus (.inl rfl)) ?_ hgot
          exact List.mem_append_left _ List.mem_concat_self
        · refine ends_update (fun _ => rfl) fun update updated hgot => ?_
          exact ends_moved (hpursued.snoc (.of_quiet (by rw [hgot.1]; rfl)))
            (.settled .failed hstatus (.inr rfl)) List.mem_concat_self hgot

/-- A payment of the list is dealt with, as its status says. -/
theorem process_ends {payment : Payment} (hsnapshot : Snapshot history payment)
    (hpursued : AllPursued history) :
    EndsWith rules thread (some payment.id) (worker.process payment)
      (fun later => AllPursued later ∧ Handled worker later payment) history := by
  unfold ReconciliationWorker.process
  split
  · rename_i hstatus
    exact process_pending_ends hstatus hsnapshot hpursued
  · rename_i hstatus
    exact process_detected_ends hstatus hpursued
  · rename_i hpending hdetected
    exact ends_pure ⟨hpursued, .settled hpending hdetected⟩

/-- Each payment of the list is dealt with. -/
theorem process_all_ends {payments : List Payment}
    (hsnapshots : ∀ payment ∈ payments, Snapshot history payment) (hpursued : AllPursued history) :
    EndsWith rules thread none (worker.processAll payments)
      (fun later => AllPursued later ∧ ∀ payment ∈ payments, Handled worker later payment)
      history := by
  induction payments generalizing history with
  | nil => exact ends_pure ⟨hpursued, fun _ => nofun⟩
  | cons payment rest ih =>
      refine ends_bind (process_ends (hsnapshots payment List.mem_cons_self) hpursued)
        (fun _ => rfl) fun later hgrows hlater => ?_
      obtain ⟨hpursued, hhandled⟩ := hlater
      refine (ih (fun other hother => ?_) hpursued).weaken fun last hgrows' hlast => ?_
      · exact (hsnapshots other (List.mem_cons_of_mem _ hother)).mono hgrows.subset
      · refine ⟨hlast.1, List.forall_mem_cons.mpr ⟨?_, hlast.2⟩⟩
        exact hhandled.mono hgrows'.subset

/-- The thread has listed these payments, and has dealt with each of them. -/
structure PassedOver (worker : ReconciliationWorker) (history : List (Event (machine σ ε)))
    (listing : Act (machine σ ε)) (payments : List Payment) : Prop where
  listed : .act listing ∈ history
  got : listing.Got .listPendingForReconciliation (.ok payments)
  handled : ∀ payment ∈ payments, Handled worker history payment
  pursued : AllPursued history

/-- What a call that has returned has done: a pass without an error has dealt with its list. -/
def PassComplete : (call : Call) → call.Result → List (Event (machine σ ε)) → Prop
  | .runOnce worker, result, history =>
      result = .ok () → ∃ listing payments, PassedOver worker history listing payments
  | _, _, _ => True

/-- A pass, from its listing to its end. -/
theorem run_once_ends [RepositoryLaws σ] (hhistory : AllPursued history) :
    EndsWith rules thread none worker.runOnce
      (fun later => ∃ listing payments, PassedOver worker later listing payments) history := by
  refine ends_request fun listing reply _ hlisting => ?_
  cases reply with
  | error error => exact ends_error rfl
  | ok payments =>
      have hpursued : AllPursued (history ++ [.act listing]) :=
        hhistory.snoc (.of_quiet (by rw [hlisting.1]; rfl))
      have hsnapshots : ∀ payment ∈ payments, Snapshot (history ++ [.act listing]) payment := by
        intro payment hpayment
        exact ⟨listing, List.mem_concat_self,
          ((answer_listing hlisting.2).2.2 payment).mp hpayment |>.1⟩
      refine (process_all_ends hsnapshots hpursued).weaken fun later hgrows hlater => ?_
      exact ⟨listing, payments, hgrows.subset List.mem_concat_self, hlisting, hlater.2, hlater.1⟩

/-- In every run, a pass that has ended without an error has dealt with its list. -/
theorem pass_complete [RepositoryLaws σ] {world : World σ ε} {state : State (machine σ ε)}
    (hreach : Reachable rules world state)
    (hthread : state.threads[thread]? = some ⟨.runOnce worker, .done (.ok ())⟩) :
    ∃ listing payments, PassedOver worker (state.config.own thread) listing payments := by
  have hcalls : ∀ call thread before, rules.admits call → True ∧
      Local rules (fun _ => True) thread none call.body (PassComplete call)
        [.start thread call before] := by
    intro call thread before _
    refine ⟨trivial, ?_⟩
    cases call with
    | runOnce worker =>
        have hnone : AllPursued
            [Event.start (M := machine σ ε) thread (.runOnce worker) before] := by
          intro find hfind
          cases List.mem_singleton.mp hfind
        exact (run_once_ends hnone).mono fun _ _ hends hok => (hends hok).2
    | _ => exact (local_any fun _ => trivial).mono fun _ _ _ => trivial
  have hholds := @Reachable.own_holds (machine σ ε) rules (fun _ => True) PassComplete trivial
    hcalls world state hreach
  exact hholds.2 thread _ _ hthread rfl

end Program

/-- What follows detection. -/
theorem PaymentStatus.Reaches.of_detected {status : PaymentStatus}
    (h : PaymentStatus.detected.Reaches status) :
    status = .detected ∨ status = .confirmed ∨ status = .failed := by
  induction h with
  | refl => exact .inl rfl
  | @tail middle last _ hstep ih =>
      rcases ih with rfl | rfl | rfl <;> cases last <;> simp_all [PaymentStatus.canTransitionTo]

/-- A status that is not changed any more stays. -/
theorem PaymentStatus.Reaches.of_final {first second : PaymentStatus} (h : first.Reaches second)
    (hfinal : first.rank = 2) : second = first := by
  refine h.eq_or_rank.resolve_right fun hlt => ?_
  have hbound : second.rank ≤ 2 := by cases second <;> decide
  omega

section Worlds

variable {σ ε : Type} [PaymentRepository σ] [WebhookEventRepository ε] [Platform]
  [RepositoryLaws σ] {world : World σ ε} {state : State (machine σ ε)} {thread : Nat}
  {worker : ReconciliationWorker}

/-- Of a payment that an event left stored there is a last record. -/
theorem leads_to_last (hreach : Reachable (serviceRules σ ε) world state)
    (hworld : ∀ id, ∀ payment ∈ stored world.payments id, payment.Coupled)
    {event : Event (machine σ ε)} (hevent : event ∈ state.config.trace) {id : Uuid}
    {payment : Payment} (hstored : stored event.after.payments id = some payment) :
    ∃ last, stored state.config.world.payments id = some last ∧ last.Coupled ∧
      payment.LeadsTo last :=
  hreach.linked.relates_last Leads Leads.refl Leads.trans (event_leads hreach) hevent id payment
    hstored (coupled_after hreach hworld hevent id payment hstored)

/-- Of a payment that an event met stored as well. -/
theorem met_leads_to_last (hreach : Reachable (serviceRules σ ε) world state)
    (hworld : ∀ id, ∀ payment ∈ stored world.payments id, payment.Coupled)
    {event : Event (machine σ ε)} (hevent : event ∈ state.config.trace) {id : Uuid}
    {payment : Payment} (hstored : stored event.before.payments id = some payment) :
    ∃ last, stored state.config.world.payments id = some last ∧ payment.LeadsTo last := by
  have hcoupled := coupled_before hreach hworld event hevent id payment hstored
  obtain ⟨next, hnext, -, hleads⟩ := event_leads hreach event hevent id payment hstored hcoupled
  obtain ⟨last, hlast, -, hleads'⟩ := leads_to_last hreach hworld hevent hnext
  exact ⟨last, hlast, hleads.trans hleads'⟩

/-- An update that returned the payment has left it stored with its new status. -/
theorem updated_stored {update : Act (machine σ ε)} {id : Uuid} {next : PaymentStatus}
    {hash : Option String} {updated : Payment}
    (hgot : update.Got (.guardedUpdate id next hash) (.ok (some updated))) :
    stored update.after.payments id = some updated ∧ updated.status = next := by
  rcases guarded_update_cases update hgot.1 with ⟨moved, hmoves⟩ | ⟨-, -, hnone⟩
  · cases hmoves.got.2.symm.trans hgot.2
    obtain ⟨payment, time, -, -, rfl⟩ := hmoves.source
    exact ⟨(hmoves.after id).trans (if_pos rfl), rfl⟩
  · exact absurd hgot (hnone updated)

/-- What a pass that ended without an error has made of a payment that it had listed. -/
structure PassProgress (worker : ReconciliationWorker) (history : List (Event (machine σ ε)))
    (payment last : Payment) : Prop where
  leads : payment.LeadsTo last
  detected : payment.status = .detected → last.status = .confirmed ∨ last.status = .failed
  pending : payment.status = .pending → last.status ≠ .pending ∨ LeftPending worker history payment

/-- A payment that an update has moved is at its new status or further on in the end. -/
theorem updated_reaches (hreach : Reachable (serviceRules σ ε) world state)
    (hworld : ∀ id, ∀ payment ∈ stored world.payments id, payment.Coupled)
    {update : Act (machine σ ε)} (hupdate : .act update ∈ state.config.trace) {id : Uuid}
    {next : PaymentStatus} {hash : Option String} {updated last : Payment}
    (hgot : update.Got (.guardedUpdate id next hash) (.ok (some updated)))
    (hlast : stored state.config.world.payments id = some last) : next.Reaches last.status := by
  obtain ⟨hstored, rfl⟩ := updated_stored hgot
  obtain ⟨final, hfinal, -, hleads⟩ := leads_to_last hreach hworld hupdate hstored
  cases hfinal.symm.trans hlast
  exact hleads.status

/-- A payment that a pass has dealt with has progressed in the end. -/
theorem Handled.progress (hreach : Reachable (serviceRules σ ε) world state)
    (hworld : ∀ id, ∀ payment ∈ stored world.payments id, payment.Coupled)
    {payment last : Payment} (hcoupled : payment.Coupled) (hleads : payment.LeadsTo last)
    (hlast : stored state.config.world.payments payment.id = some last)
    (hhandled : Handled worker (state.config.own thread) payment) :
    PassProgress worker (state.config.own thread) payment last := by
  cases hhandled with
  | moved update next hash updated hmoving hupdate hgot =>
      have htransition := hmoving.transition
      have hreaches := updated_reaches hreach hworld (Config.mem_of_own hupdate) hgot hlast
      refine ⟨hleads, fun hstatus => ?_, fun hstatus => .inl fun hpending => ?_⟩
      · rw [hstatus] at htransition
        have hnext : next = .confirmed ∨ next = .failed := by
          cases next <;> simp_all [PaymentStatus.canTransitionTo]
        rcases hnext with rfl | rfl
        · exact .inl (hreaches.of_final rfl)
        · exact .inr (hreaches.of_final rfl)
      · have hlt := PaymentStatus.rank_lt_of_canTransitionTo htransition
        rcases hreaches.eq_or_rank with heq | hrank
        · rw [hstatus, ← heq, hpending] at hlt
          omega
        · rw [hpending] at hrank
          rw [hstatus] at hlt
          omega
  | waiting hstatus hleft =>
      refine ⟨hleads, fun hdetected => ?_, fun _ => .inr hleft⟩
      cases hstatus.symm.trans hdetected
  | unhashed hstatus hhash =>
      refine ⟨hleads, fun hdetected => ?_, fun hpending => absurd hpending hstatus⟩
      rw [Payment.Coupled, hhash, hdetected] at hcoupled
      cases hcoupled
  | settled hpending hdetected =>
      exact ⟨hleads, fun hstatus => absurd hstatus hdetected,
        fun hstatus => absurd hstatus hpending⟩

/-- A pass that has ended without an error has listed the pending and detected payments, and each
of them has progressed. -/
theorem pass_progresses (hreach : Reachable (serviceRules σ ε) world state)
    (hworld : ∀ id, ∀ payment ∈ stored world.payments id, payment.Coupled)
    (hthread : state.threads[thread]? = some ⟨.runOnce worker, .done (.ok ())⟩) :
    ∃ listing, .act listing ∈ state.config.own thread ∧
      listing.request = .listPendingForReconciliation ∧
      ∀ id payment, stored listing.before.payments id = some payment →
        payment.status = .pending ∨ payment.status = .detected →
        ∃ last, stored state.config.world.payments id = some last ∧
          PassProgress worker (state.config.own thread) payment last := by
  obtain ⟨listing, payments, hpassed⟩ := pass_complete hreach hthread
  refine ⟨listing, hpassed.listed, hpassed.got.1, fun id payment hstored hopen => ?_⟩
  obtain rfl := RepositoryLaws.stored_id hstored
  have hevent := Config.mem_of_own hpassed.listed
  have hcoupled := coupled_before hreach hworld _ hevent payment.id payment hstored
  have hmem := ((answer_listing hpassed.got.2).2.2 payment).mpr ⟨hstored, hopen⟩
  obtain ⟨last, hlast, hleads⟩ := met_leads_to_last hreach hworld hevent hstored
  exact ⟨last, hlast,
    (hpassed.handled payment hmem).progress hreach hworld hcoupled hleads hlast⟩

/-- A payment whose transfer was shown to a pass that has ended without an error is settled when a
later pass has ended without an error. -/
theorem shown_settles (hreach : Reachable (serviceRules σ ε) world state)
    (hworld : ∀ id, ∀ payment ∈ stored world.payments id, payment.Coupled)
    {first second : Nat} {worker' : ReconciliationWorker} (hfollows : Follows state first second)
    (hfirst : state.threads[first]? = some ⟨.runOnce worker, .done (.ok ())⟩)
    (hsecond : state.threads[second]? = some ⟨.runOnce worker', .done (.ok ())⟩)
    {find : Act (machine σ ε)} (hfind : .act find ∈ state.config.own first) {id : Uuid}
    (hspan : find.span = some id) {destination memo : String} {since : DateTime}
    {found : StellarPayment}
    (hgot : find.Got (.findPayment destination memo since) (.ok (some found))) {last : Payment}
    (hlast : stored state.config.world.payments id = some last)
    (hamount : amountsMatch last.amount found.amount = true) :
    last.status = .confirmed ∨ last.status = .failed := by
  obtain ⟨listing, payments, hpassed⟩ := pass_complete hreach hfirst
  obtain ⟨payment, ⟨snapshot, hsnapshot, hstored⟩, hspan', hdetects⟩ :=
    hpassed.pursued find hfind destination memo since found hgot
  cases hspan.symm.trans hspan'
  -- The amount of a payment never changes.
  obtain ⟨final, hfinal, hleads⟩ :=
    met_leads_to_last hreach hworld (Config.mem_of_own hsnapshot) hstored
  cases hfinal.symm.trans hlast
  have hsame : last.amount = payment.amount := hleads.terms.amount
  obtain ⟨update, updated, hupdate, hgot'⟩ := hdetects (hsame ▸ hamount)
  obtain ⟨hmoved, hdetected⟩ := updated_stored hgot'
  -- The second pass meets the payment detected, or settled already.
  obtain ⟨listing', hlisting', -, hprogress⟩ := pass_progresses hreach hworld hsecond
  obtain ⟨hmem, rfl⟩ := Config.mem_own.mp hupdate
  obtain ⟨hmem', rfl⟩ := Config.mem_own.mp hlisting'
  obtain ⟨met, hmet, -, hlater⟩ := follows_leads hreach hworld hfollows hmem hmem' hmoved
  obtain ⟨final, hfinal, hleads'⟩ := met_leads_to_last hreach hworld hmem' hmet
  cases hfinal.symm.trans hlast
  have hstatus : met.status = .detected ∨ met.status = .confirmed ∨ met.status = .failed :=
    (hdetected ▸ hlater.status).of_detected
  rcases hstatus with hopen | hconfirmed | hfailed
  · obtain ⟨final, hfinal, hprogress⟩ := hprogress _ met hmet (.inr hopen)
    cases hfinal.symm.trans hlast
    exact hprogress.detected hopen
  · exact .inl ((hleads'.status.of_final (by rw [hconfirmed]; rfl)).trans hconfirmed)
  · exact .inr ((hleads'.status.of_final (by rw [hfailed]; rfl)).trans hfailed)

end Worlds

section Backends

variable [Platform]

/-- On either backend, whatever runs beside it, a pass that has ended without an error has listed
the pending and detected payments: those that were detected are settled when it has ended, and those
that were pending have moved on, unless it saw that they are young and not paid. -/
theorem pass_progress {backend : Backend} {state : State backend.machine}
    (hreach : Reachable (serviceRules backend.Payments backend.Events) backend.empty state)
    {thread : Nat} {worker : ReconciliationWorker}
    (hthread : state.threads[thread]? = some ⟨.runOnce worker, .done (.ok ())⟩) :
    ∃ listing, .act listing ∈ state.config.own thread ∧
      listing.request = .listPendingForReconciliation ∧
      ∀ id payment, stored listing.before.payments id = some payment →
        payment.status = .pending ∨ payment.status = .detected →
        ∃ last, stored state.config.world.payments id = some last ∧
          PassProgress worker (state.config.own thread) payment last :=
  pass_progresses hreach (by simp) hthread

/-- On either backend, whatever runs beside them, two passes that end without an error, one after
the other, settle every payment for which the first was shown a transfer of the right amount. -/
theorem paid_settles {backend : Backend} {state : State backend.machine}
    (hreach : Reachable (serviceRules backend.Payments backend.Events) backend.empty state)
    {first second : Nat} {worker worker' : ReconciliationWorker}
    (hfollows : Follows state first second)
    (hfirst : state.threads[first]? = some ⟨.runOnce worker, .done (.ok ())⟩)
    (hsecond : state.threads[second]? = some ⟨.runOnce worker', .done (.ok ())⟩)
    {find : Act backend.machine} (hfind : .act find ∈ state.config.own first) {id : Uuid}
    (hspan : find.span = some id) {destination memo : String} {since : DateTime}
    {found : StellarPayment}
    (hgot : find.Got (.findPayment destination memo since) (.ok (some found))) {last : Payment}
    (hlast : stored state.config.world.payments id = some last)
    (hamount : amountsMatch last.amount found.amount = true) :
    last.status = .confirmed ∨ last.status = .failed :=
  shown_settles hreach (by simp) hfollows hfirst hsecond hfind hspan hgot hlast hamount

end Backends

section Run

attribute [local instance] Plain.platform

open Plain

/-- A payment is created, a pass detects it, and the next pass confirms it. -/
def twoPasses : List (Choice Backend.postgres.machine) :=
  detectionRun ++ [.act 1 (env 6000 9), .act 1 (env 6000 9), .act 1 (env 6000 9),
    .act 1 (env 6000 9), .start (.runOnce worker), .act 2 (env 7000 10),
    .act 2 (envWith 7000 10 [] "m"), .act 2 (env 7000 10), .act 2 (env 7000 10),
    .act 2 (env 7000 11), .act 2 (env 7000 11), .act 2 (env 7000 11), .act 2 (env 7000 11)]

/-- The thread has run a pass of the plain worker without an error. -/
def endedPass (state : State Backend.postgres.machine) (thread : Nat) :
    Option ReconciliationWorker :=
  match state.threads[thread]? with
  | some ⟨.runOnce worker, .done (.ok ())⟩ => some worker
  | _ => none

/-- The pass of the thread has ended. -/
theorem ended_pass_eq {state : State Backend.postgres.machine} {thread : Nat}
    {worker : ReconciliationWorker} (h : endedPass state thread = some worker) :
    state.threads[thread]? = some ⟨.runOnce worker, .done (.ok ())⟩ := by
  unfold endedPass at h
  split at h
  · rename_i hthread
    cases h
    exact hthread
  · cases h

/-- What the event has found for the payment of `twoPasses`. -/
def foundForSeven : Event Backend.postgres.machine → Option StellarPayment
  | .act ⟨1, some 7, .findPayment destination memo since, env, before⟩ =>
      match (answer env (.findPayment destination memo since) before).1 with
      | .ok found => found
      | .error _ => none
  | _ => none

/-- It was found by a search of the first pass in the span of the payment. -/
theorem found_for_seven_eq {event : Event Backend.postgres.machine} {found : StellarPayment}
    (h : foundForSeven event = some found) : ∃ find destination memo since, event = .act find ∧
      find.thread = 1 ∧ find.span = some 7 ∧
      find.Got (.findPayment destination memo since) (.ok (some found)) := by
  unfold foundForSeven at h
  split at h
  · split at h
    · rename_i hanswer
      subst h
      exact ⟨_, _, _, _, rfl, rfl, rfl, rfl, hanswer⟩
    · cases h
  · cases h

/-- The run of both passes, and what it comes to. -/
theorem exists_two_passes : ∃ (state : State Backend.postgres.machine) (first second :
    ReconciliationWorker) (find : Act Backend.postgres.machine) (last : Payment),
    Reachable (serviceRules Backend.postgres.Payments Backend.postgres.Events)
      Backend.postgres.empty state ∧ Follows state 1 2 ∧
    state.threads[1]? = some ⟨.runOnce first, .done (.ok ())⟩ ∧
    state.threads[2]? = some ⟨.runOnce second, .done (.ok ())⟩ ∧
    .act find ∈ state.config.own 1 ∧ find.span = some 7 ∧
    (∃ destination memo since found, amountsMatch last.amount found.amount = true ∧
      find.Got (.findPayment destination memo since) (.ok (some found))) ∧
    stored state.config.world.payments 7 = some last := by
  obtain ⟨state, hreach, htest⟩ := exists_reachable
    (serviceRules Backend.postgres.Payments Backend.postgres.Events) twoPasses
    Backend.postgres.empty (fun state => decide (Follows state 1 2) &&
      ((endedPass state 1).isSome && (endedPass state 2).isSome) &&
      (stored state.config.world.payments 7).any fun last => state.config.trace.any fun event =>
        (foundForSeven event).any fun found => amountsMatch last.amount found.amount)
    (by decide +kernel)
  simp only [Bool.and_eq_true, decide_eq_true_eq] at htest
  obtain ⟨⟨hfollows, hfirst, hsecond⟩, hlast⟩ := htest
  obtain ⟨first, hfirst⟩ := Option.isSome_iff_exists.mp hfirst
  obtain ⟨second, hsecond⟩ := Option.isSome_iff_exists.mp hsecond
  obtain ⟨last, hlast, hevent⟩ := (Option.any_eq_true _ _).mp hlast
  obtain ⟨event, hevent, hfound⟩ := List.any_eq_true.mp hevent
  obtain ⟨found, hfound, hamount⟩ := (Option.any_eq_true _ _).mp hfound
  obtain ⟨find, destination, memo, since, rfl, hthread, hspan, hgot⟩ := found_for_seven_eq hfound
  exact ⟨state, first, second, find, last, hreach, hfollows, ended_pass_eq hfirst,
    ended_pass_eq hsecond, Config.mem_own.mpr ⟨hevent, hthread⟩, hspan,
    ⟨destination, memo, since, found, hamount, hgot⟩, hlast⟩

/-- The first pass of `twoPasses` has made progress with all it had listed. -/
theorem pass_progress_first : ∃ (state : State Backend.postgres.machine)
    (worker : ReconciliationWorker) (listing : Act Backend.postgres.machine),
    .act listing ∈ state.config.own 1 ∧ listing.request = .listPendingForReconciliation ∧
    ∀ id payment, stored listing.before.payments id = some payment →
      payment.status = .pending ∨ payment.status = .detected →
      ∃ last, stored state.config.world.payments id = some last ∧
        PassProgress worker (state.config.own 1) payment last := by
  obtain ⟨state, first, _, _, _, hreach, _, hfirst, _⟩ := exists_two_passes
  exact ⟨state, first, @pass_progress platform .postgres state hreach 1 first hfirst⟩

/-- The payment of `twoPasses` is settled. -/
theorem paid_settles_two_passes : ∃ (state : State Backend.postgres.machine) (last : Payment),
    stored state.config.world.payments 7 = some last ∧
    (last.status = .confirmed ∨ last.status = .failed) := by
  obtain ⟨state, first, second, find, last, hreach, hfollows, hfirst, hsecond, hfind, hspan,
    ⟨destination, memo, since, found, hamount, hgot⟩, hlast⟩ := exists_two_passes
  exact ⟨state, last, hlast, @paid_settles platform .postgres state hreach 1 2 first second
    hfollows hfirst hsecond find hfind 7 hspan destination memo since found hgot last hlast
    hamount⟩

end Run

end StellarPay
