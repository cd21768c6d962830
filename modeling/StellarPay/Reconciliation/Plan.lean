import StellarPay.Runtime.Frames

/-!
# What processing one payment amounts to

`plan` is the decision a pass takes about one payment, as a function of the payment and of the
moment: an error, nothing, or one write. `run_process` shows that the code carries it out, so the
results about single passes reason about the plan. `Matched` and `Due` say when there is something
to write.
-/

namespace StellarPay

open Interleaving

section Plan

variable [Platform]

namespace ReconciliationWorker

/-- The status and the hash that processing `payment` writes at this moment. -/
def plan (worker : ReconciliationWorker) (env : Env) (payment : Payment) :
    Except WorkerError (Option (PaymentStatus × Option String)) :=
  match payment.status with
  | .pending =>
      if worker.expiry ≤ env.now - payment.createdAt then .ok (some (.expired, none))
      else
        match payment.memo with
        | none => .ok none
        | some memo =>
            match HorizonClient.findPayment env.horizon payment.destination memo
              payment.createdAt with
            | .error error => .error (.stellar error)
            | .ok none => .ok none
            | .ok (some found) =>
                if amountsMatch payment.amount found.amount then
                  .ok (some (.detected, some found.transactionHash))
                else .ok none
  | .detected =>
      match payment.stellarTxHash with
      | none => .ok none
      | some hash =>
          match HorizonClient.getTransaction env.horizon hash with
          | .error error => .error (.stellar error)
          | .ok transaction =>
              .ok (some (if transaction.successful then .confirmed else .failed, none))
  | _ => .ok none

end ReconciliationWorker

/-- The search of a pass stops at `record`, and its amount is the one of the payment. -/
def Matched (env : Env) (payment : Payment) (record : HorizonPaymentRecord) : Prop :=
  ∃ memo records amount, payment.memo = some memo ∧
    env.horizon.payments payment.destination = .ok records ∧
    env.horizon.FirstHit payment.destination memo payment.createdAt records record ∧
    record.amount = some amount ∧ NumericallyEqual payment.amount amount

/-- There is something to write for the payment: it is too old, it was paid, or the transaction that
paid it was looked up. -/
inductive Due (worker : ReconciliationWorker) (env : Env) (payment : Payment) : Prop where
  | expired (hstatus : payment.status = .pending)
      (hage : worker.expiry ≤ env.now - payment.createdAt)
  | matched (hstatus : payment.status = .pending)
      (hage : env.now - payment.createdAt < worker.expiry) (record : HorizonPaymentRecord)
      (hmatched : Matched env payment record)
  | verified (hstatus : payment.status = .detected) (hash : String)
      (transaction : StellarTransaction) (hhash : payment.stellarTxHash = some hash)
      (htransaction : env.horizon.transaction hash = .ok transaction)

/-- What a search found with a matching amount is a matched record, and conversely. -/
theorem matched_iff {env : Env} {payment : Payment} {hash : String} :
    (∃ record, Matched env payment record ∧ record.transactionHash = hash) ↔
      ∃ memo found, payment.memo = some memo ∧
        HorizonClient.findPayment env.horizon payment.destination memo payment.createdAt =
          .ok (some found) ∧
        amountsMatch payment.amount found.amount = true ∧ found.transactionHash = hash := by
  constructor
  · intro hmatch
    obtain ⟨record, ⟨memo, records, amount, hmemo, hrecords, hhit, hamount, hequal⟩, rfl⟩ := hmatch
    refine ⟨memo, HorizonClient.toStellarPayment record (some memo), hmemo, ?_, ?_, rfl⟩
    · simp only [HorizonClient.findPayment, hrecords]
      exact HorizonClient.search_eq_some_iff.mpr ⟨record, hhit, rfl⟩
    · rw [amounts_match_iff]
      simpa [HorizonClient.toStellarPayment, hamount] using hequal
  · intro hseen
    obtain ⟨memo, found, hmemo, hfound, hamount, rfl⟩ := hseen
    unfold HorizonClient.findPayment at hfound
    split at hfound
    · cases hfound
    · rename_i records hrecords
      obtain ⟨record, hhit, rfl⟩ := HorizonClient.search_eq_some_iff.mp hfound
      have hequal := amounts_match_iff.mp hamount
      cases htext : record.amount with
      | some text =>
          refine ⟨record, ⟨memo, records, text, hmemo, hrecords, hhit, htext, ?_⟩, rfl⟩
          simpa [HorizonClient.toStellarPayment, htext] using hequal
      | none =>
          -- A record without an amount is compared as the empty text, which is no decimal.
          obtain ⟨_, second, _, hsecond, _⟩ := hequal
          obtain ⟨message, hempty⟩ := Platform.decimalFromStr_empty
          simp [HorizonClient.toStellarPayment, htext, hempty] at hsecond

variable {worker : ReconciliationWorker} {env : Env} {payment : Payment}

/-- A pass plans a detection exactly for a young pending payment with a matched record. -/
theorem plan_detected_iff {hash : String} :
    worker.plan env payment = .ok (some (.detected, some hash)) ↔
      payment.status = .pending ∧ env.now - payment.createdAt < worker.expiry ∧
        ∃ record, Matched env payment record ∧ record.transactionHash = hash := by
  rw [matched_iff]
  unfold ReconciliationWorker.plan
  cases hstatus : payment.status with
  | pending =>
      by_cases hage : worker.expiry ≤ env.now - payment.createdAt
      · simp [hage]
      · cases hmemo : payment.memo with
        | none => simp [hage]
        | some memo =>
            rcases hfound : HorizonClient.findPayment env.horizon payment.destination memo
              payment.createdAt with error | _ | found
            · simp [hage, hfound]
            · simp [hage, hfound]
            · by_cases hamount : amountsMatch payment.amount found.amount = true
              · simp [hage, hfound, hamount, not_le.mp hage]
              · simp [hage, hfound, hamount]
  | detected =>
      cases payment.stellarTxHash with
      | none => simp
      | some hash =>
          cases htransaction : HorizonClient.getTransaction env.horizon hash <;> simp [htransaction]
  | _ => simp

/-- A pending payment is planned to expire, or to be detected with a hash. -/
theorem plan_pending_cases {next : PaymentStatus} {hash : Option String}
    (hstatus : payment.status = .pending)
    (hplan : worker.plan env payment = .ok (some (next, hash))) :
    worker.expiry ≤ env.now - payment.createdAt ∧ next = .expired ∧ hash = none ∨
      ∃ text, next = .detected ∧ hash = some text := by
  simp only [ReconciliationWorker.plan, hstatus] at hplan
  split at hplan
  · cases hplan
    exact .inl ⟨‹_›, rfl, rfl⟩
  · split at hplan
    · cases hplan
    · split at hplan
      · cases hplan
      · cases hplan
      · split at hplan <;> cases hplan
        exact .inr ⟨_, rfl, rfl⟩

/-- A pass plans a write exactly when there is something to write. -/
theorem due_iff : Due worker env payment ↔
    ∃ next hash, worker.plan env payment = .ok (some (next, hash)) := by
  constructor
  · rintro (⟨hstatus, hage⟩ | ⟨hstatus, hage, record, hmatched⟩ |
      ⟨hstatus, hash, transaction, hhash, htransaction⟩)
    · exact ⟨.expired, none, by simp [ReconciliationWorker.plan, hstatus, hage]⟩
    · exact ⟨_, _, plan_detected_iff.mpr ⟨hstatus, hage, record, hmatched, rfl⟩⟩
    · refine ⟨if transaction.successful then .confirmed else .failed, none, ?_⟩
      simp [ReconciliationWorker.plan, HorizonClient.getTransaction, hstatus, hhash, htransaction]
  · intro hplanned
    obtain ⟨next, hash, hplan⟩ := hplanned
    cases hstatus : payment.status with
    | pending =>
        rcases plan_pending_cases hstatus hplan with ⟨hage, _⟩ | ⟨text, rfl, rfl⟩
        · exact .expired hstatus hage
        · obtain ⟨_, hyoung, record, hmatched, _⟩ := plan_detected_iff.mp hplan
          exact .matched hstatus hyoung record hmatched
    | detected =>
        simp only [ReconciliationWorker.plan, hstatus] at hplan
        split at hplan
        · cases hplan
        · rename_i text hhash
          split at hplan
          · cases hplan
          · rename_i transaction htransaction
            exact .verified hstatus text transaction hhash htransaction
    | _ => simp [ReconciliationWorker.plan, hstatus] at hplan

end Plan

section Runs

variable {σ ε : Type} [PaymentRepository σ] [WebhookEventRepository ε]

/-- One write was carried out, or refused with an error. -/
structure Carried (env : Env) (id : Uuid) (next : PaymentStatus) (hash : Option String)
    (world : World σ ε) (outcome : Except WorkerError Unit × World σ ε) : Prop where
  payments : outcome.2.payments = (answer env (.guardedUpdate id next hash) world).2.payments
  result : outcome.1 = .ok () ↔
    ∃ updated, (answer env (.guardedUpdate id next hash) world).1 = .ok (some updated)

/-- An update, an error if it fails, and no more writes. -/
theorem run_update_then {id : Uuid} {next : PaymentStatus} {hash : Option String}
    {rest : Except RepositoryError Payment → Prog (Except WorkerError Unit)}
    (hreads : ∀ result, (rest result).Makes fun request => request.writesPayments = false)
    (herror : ∀ error, rest (.error error) = pure (.error (.repository error)))
    (hok : ∀ updated env (world : World σ ε),
      ((rest (.ok updated)).run answer env world).1 = .ok ())
    (env : Env) (world : World σ ε) :
    Carried env id next hash world
      ((updateStatus id next hash >>= rest).run answer (fun _ => env) world) := by
  unfold updateStatus
  rw [Program.bind_bind, Program.run_bind, Program.run_request]
  rcases hwrite : (answer env (.guardedUpdate id next hash) world).1 with error | _ | updated
  · refine ⟨run_payments (hreads _) _ _, ?_⟩
    simp [herror, hwrite]
  · -- Nothing matched the guard: whatever the second read finds, the result is an error.
    dsimp only
    rw [Program.bind_bind, Program.run_bind, Program.run_request]
    have hpayments (error : RepositoryError) (seen : World σ ε)
        (hseen : seen.payments = (answer env (.guardedUpdate id next hash) world).2.payments) :
        Carried env id next hash world
          ((rest (.error error)).run answer (fun _ => env) seen) := by
      refine ⟨(run_payments (hreads _) _ _).trans hseen, ?_⟩
      simp [herror, hwrite]
    have hread (seen : World σ ε) :
        (answer env (.findById id) seen).2.payments = seen.payments := answer_payments rfl
    rcases (answer env (.findById id) _).1 with error | _ | found <;> exact hpayments _ _ (hread _)
  · refine ⟨run_payments (hreads _) _ _, ?_⟩
    simp [hok, hwrite]

variable [Platform]

/-- Sending an event reads, and always goes well. -/
theorem run_emit_ok (event : PaymentEvent) (env : Option Uuid → Env) (world : World σ ε) :
    ((ReconciliationWorker.emit event >>= fun _ => pure (.ok ())).run answer env world).1 =
      (.ok () : Except WorkerError Unit) := by
  rw [Program.run_bind]
  rfl

/-- Sending an event does not write payments. -/
theorem emit_reads (event : PaymentEvent) :
    (ReconciliationWorker.emit event >>= fun _ =>
      pure (.ok ()) : Prog (Except WorkerError Unit)).Makes
        fun request => request.writesPayments = false := by
  have hemit : (ReconciliationWorker.emit event).Makes
      fun request => request.writesPayments = false :=
    ReconciliationWorker.emit_makes_of rfl rfl fun _ _ _ => rfl
  exact hemit.bind fun _ => Program.makes_pure _

/-- An update that is followed by nothing but its event. -/
theorem run_update_emit {id : Uuid} {next : PaymentStatus} {hash : Option String}
    (event : Payment → PaymentEvent) (env : Env) (world : World σ ε) :
    Carried env id next hash world
      ((updateStatus id next hash >>= fun result =>
        match result with
        | .error error => pure (.error (.repository error))
        | .ok updated => ReconciliationWorker.emit (event updated) >>= fun _ =>
            pure (.ok ())).run answer (fun _ => env) world) := by
  refine run_update_then ?_ (fun _ => rfl) (fun updated => run_emit_ok _) env world
  rintro (error | updated)
  · trivial
  · exact emit_reads _

/-- The outcome is what the plan says: its error, nothing, or its write. -/
def ReconciliationWorker.CarriesOut (worker : ReconciliationWorker) (env : Env) (payment : Payment)
    (world : World σ ε) (outcome : Except WorkerError Unit × World σ ε) : Prop :=
  match worker.plan env payment with
  | .error error => outcome = (.error error, world)
  | .ok none => outcome = (.ok (), world)
  | .ok (some (next, hash)) => Carried env payment.id next hash world outcome

/-- `process_pending` carries out the plan for a pending payment. -/
theorem run_pending (worker : ReconciliationWorker) (env : Env) {payment : Payment}
    (world : World σ ε) (hstatus : payment.status = .pending) :
    worker.CarriesOut env payment world
      ((worker.processPending payment).run answer (fun _ => env) world) := by
  unfold ReconciliationWorker.CarriesOut ReconciliationWorker.plan
    ReconciliationWorker.processPending
  rw [hstatus, Program.run_bind, Program.run_request]
  dsimp only [answer]
  by_cases hage : worker.expiry ≤ env.now - payment.createdAt
  · rw [if_pos hage, if_pos hage]
    exact run_update_emit .paymentExpired env world
  · rw [if_neg hage, if_neg hage]
    cases payment.memo with
    | none => rfl
    | some memo =>
        dsimp only
        rw [Program.run_bind, Program.run_request]
        dsimp only [answer]
        rcases HorizonClient.findPayment env.horizon payment.destination memo
          payment.createdAt with error | _ | found
        · rfl
        · rfl
        · dsimp only
          by_cases hamount : amountsMatch payment.amount found.amount = true
          · rw [if_pos hamount, if_pos hamount]
            exact run_update_emit .paymentDetected env world
          · rw [if_neg hamount, if_neg hamount]
            rfl

/-- `process_detected` carries out the plan for a detected payment. -/
theorem run_detected (worker : ReconciliationWorker) (env : Env) {payment : Payment}
    (world : World σ ε) (hstatus : payment.status = .detected) :
    worker.CarriesOut env payment world
      ((ReconciliationWorker.processDetected payment).run answer (fun _ => env) world) := by
  unfold ReconciliationWorker.CarriesOut ReconciliationWorker.plan
    ReconciliationWorker.processDetected
  rw [hstatus]
  dsimp only
  cases payment.stellarTxHash with
  | none => rfl
  | some hash =>
      dsimp only
      rw [Program.run_bind, Program.run_request]
      dsimp only [answer]
      rcases HorizonClient.getTransaction env.horizon hash with error | transaction
      · rfl
      · dsimp only
        by_cases hsuccessful : transaction.successful = true
        · rw [if_pos hsuccessful, if_pos hsuccessful]
          refine run_update_then ?_ (fun _ => rfl) (fun _ => ?_) env world
          · intro result
            cases result with
            | error error => trivial
            | ok updated => exact ⟨rfl, fun _ => emit_reads _⟩
          · intro env world
            exact run_emit_ok _ _ _
        · rw [if_neg hsuccessful, if_neg hsuccessful]
          exact run_update_emit .paymentFailed env world

/-- The code carries out the plan. -/
theorem run_process (worker : ReconciliationWorker) (env : Env) (payment : Payment)
    (world : World σ ε) :
    worker.CarriesOut env payment world
      ((worker.process payment).run answer (fun _ => env) world) := by
  unfold ReconciliationWorker.process
  cases hstatus : payment.status with
  | pending => exact run_pending worker env world hstatus
  | detected => exact run_detected worker env world hstatus
  | _ =>
      unfold ReconciliationWorker.CarriesOut ReconciliationWorker.plan
      rw [hstatus]
      rfl

/-- Processing a stored pending payment carries out the write that was planned, if the store takes
it, and otherwise leaves the payment as it is. -/
theorem run_process_pending [RepositoryLaws σ] (worker : ReconciliationWorker) (env : Env)
    {payment current : Payment} {world : World σ ε} (hpending : payment.status = .pending)
    (hcurrent : stored world.payments payment.id = some current)
    (hstatus : current.status = .pending) :
    (∃ next hash time, worker.plan env payment = .ok (some (next, hash)) ∧
      env.paymentsFault = none ∧ RepositoryLaws.accepts world.payments payment.id hash ∧
      stored ((worker.processPending payment).run answer (fun _ => env) world).2.payments
        payment.id = some (current.moved next hash time)) ∨
    (stored ((worker.processPending payment).run answer (fun _ => env) world).2.payments
        payment.id = some current ∧
      ∀ next hash, worker.plan env payment = .ok (some (next, hash)) →
        ¬ (env.paymentsFault = none ∧ RepositoryLaws.accepts world.payments payment.id hash)) := by
  have hrun := run_pending worker env world hpending
  unfold ReconciliationWorker.CarriesOut at hrun
  rcases hplan : worker.plan env payment with error | _ | ⟨next, hash⟩
  · rw [hplan] at hrun
    exact .inr ⟨by rw [hrun, hcurrent], by simp⟩
  · rw [hplan] at hrun
    exact .inr ⟨by rw [hrun, hcurrent], by simp⟩
  · rw [hplan] at hrun
    have hpossible : current.status.canTransitionTo next = true := by
      rw [hstatus]
      rcases plan_pending_cases hpending hplan with ⟨-, rfl, -⟩ | ⟨text, rfl, -⟩ <;> rfl
    have hiff : _ ↔ env.paymentsFault = none ∧
        RepositoryLaws.accepts world.payments payment.id hash :=
      answer_update_ok_iff hcurrent hpossible
    rw [hrun.payments]
    rcases answer_update env payment.id next hash world with
      ⟨source, time, after, hanswer, hsource, -, hafter⟩ | ⟨hanswer, hnone⟩
    · cases hcurrent.symm.trans hsource
      obtain ⟨hworks, haccepts⟩ := hiff.mp ⟨_, congrArg Prod.fst hanswer⟩
      refine .inl ⟨next, hash, time, rfl, hworks, haccepts, ?_⟩
      rw [hanswer, hafter, if_pos rfl]
    · refine .inr ⟨by rw [hanswer, hcurrent], fun next' hash' heq hwould => ?_⟩
      cases heq
      obtain ⟨updated, hok⟩ := hiff.mpr hwould
      exact hnone updated hok

end Runs

end StellarPay
