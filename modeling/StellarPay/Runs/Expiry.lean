import StellarPay.Runs.Detection

/-!
# Expiry is decided by the clock

`process_pending` compares the clock with the creation of the payment before it looks at the ledger.
From the end of the expiry window on a payment expires whatever the page of its destination shows,
and before that it does not expire. A payment that was paid in time is kept only by a pass that
looks in time.
-/

namespace StellarPay

open Interleaving

section Steps

variable {σ ε : Type} [Platform] [PaymentRepository σ] [WebhookEventRepository ε]

/-- Processing the payment moves it from `Pending` to `Expired`. -/
def Expires (worker : ReconciliationWorker) (env : Env) (payment : Payment) (world : World σ ε) :
    Prop :=
  (stored world.payments payment.id).map Payment.status = some .pending ∧
    (stored ((worker.processPending payment).run answer (fun _ => env) world).2.payments
      payment.id).map Payment.status = some .expired

/-- The page of the destination shows a native transfer with the memo and the amount of the payment,
made within its expiry window. -/
def PaidInTime (worker : ReconciliationWorker) (env : Env) (payment : Payment) : Prop :=
  ∃ records, ∃ record ∈ records, ∃ memo amount, payment.memo = some memo ∧
    env.horizon.payments payment.destination = .ok records ∧
    env.horizon.Candidate payment.destination memo payment.createdAt record ∧
    record.assetType = some "native" ∧ record.createdAt < payment.createdAt + worker.expiry ∧
    record.amount = some amount ∧ NumericallyEqual payment.amount amount

variable [RepositoryLaws σ] {worker : ReconciliationWorker} {env : Env} {payment : Payment}
  {world : World σ ε}

omit [RepositoryLaws σ] in
/-- A pass plans to expire a pending payment exactly when the clock says so. -/
theorem plan_expired_iff {hash : Option String} (hpending : payment.status = .pending) :
    worker.plan env payment = .ok (some (.expired, hash)) ↔
      hash = none ∧ worker.expiry ≤ env.now - payment.createdAt := by
  constructor
  · intro hplan
    rcases plan_pending_cases hpending hplan with ⟨hage, -, hnone⟩ | ⟨text, hnext, -⟩
    · exact ⟨hnone, hage⟩
    · cases hnext
  · intro hlate
    obtain ⟨rfl, hage⟩ := hlate
    simp only [ReconciliationWorker.plan, hpending, if_pos hage]

/-- A pending payment expires exactly when the clock is past its window and the store works. The
answers of Horizon play no part. -/
theorem expires_iff (hpending : payment.status = .pending) :
    Expires worker env payment world ↔
      (stored world.payments payment.id).map Payment.status = some .pending ∧
      env.paymentsFault = none ∧ RepositoryLaws.accepts world.payments payment.id none ∧
      worker.expiry ≤ env.now - payment.createdAt := by
  refine and_congr_right fun hstored => ?_
  obtain ⟨current, hcurrent, hstatus⟩ := Option.map_eq_some_iff.mp hstored
  rcases run_process_pending worker env hpending hcurrent hstatus with
    ⟨next, hash, time, hplan, hworks, haccepts, hafter⟩ | ⟨hafter, hrefused⟩
  · rw [hafter]
    rcases plan_pending_cases hpending hplan with ⟨hage, rfl, rfl⟩ | ⟨text, rfl, -⟩
    · exact iff_of_true rfl ⟨hworks, haccepts, hage⟩
    · refine iff_of_false (fun h => nomatch h) fun ⟨_, _, hage⟩ => ?_
      cases hplan.symm.trans ((plan_expired_iff hpending).mpr ⟨rfl, hage⟩)
  · rw [hafter]
    refine iff_of_false (by simp [hstatus]) fun ⟨hworks, haccepts, hage⟩ => ?_
    exact hrefused _ _ ((plan_expired_iff hpending).mpr ⟨rfl, hage⟩) ⟨hworks, haccepts⟩

end Steps

section Runs

variable {σ ε : Type} [Platform] [PaymentRepository σ] [WebhookEventRepository ε] [RepositoryLaws σ]
  {world : World σ ε} {state : State (machine σ ε)}

omit [RepositoryLaws σ] in
/-- A pass writes an expiry only for the age that its clock showed. -/
theorem Explained.of_expired {worker : ReconciliationWorker} {history : List (Event (machine σ ε))}
    {id : Uuid} {hash : Option String} (h : Explained worker history id .expired hash) :
    ∃ snapshot clock, snapshot.id = id ∧ Snapshot history snapshot ∧ .act clock ∈ history ∧
      clock.request = .utcNow ∧ worker.expiry ≤ clock.env.now - snapshot.createdAt := by
  generalize hnext : PaymentStatus.expired = next at h
  cases h with
  | expired snapshot clock hsnapshot hclock hage =>
      exact ⟨snapshot, clock, rfl, hsnapshot, hclock, hage⟩
  | detected => cases hnext
  | verified snapshot act hash transaction =>
      split at hnext <;> cases hnext

/-- In every run of creations and passes a payment is moved to `Expired` only by a pass that has
read the clock when the expiry window of the payment was over. -/
theorem expired_after_window (hreach : Reachable (reconciliationRules σ ε) world state)
    (hworld : ∀ id, ∀ payment ∈ stored world.payments id, payment.Coupled)
    {act : Act (machine σ ε)} {earlier later : List (Event (machine σ ε))} {id : Uuid}
    {hash : Option String} {updated : Payment}
    (hown : state.config.own act.thread = earlier ++ .act act :: later)
    (hgot : act.Got (.guardedUpdate id .expired hash) (.ok (some updated))) :
    ∃ worker first clock, .start act.thread (.runOnce worker) first ∈ earlier ∧
      .act clock ∈ earlier ∧ clock.request = .utcNow ∧
      worker.expiry ≤ clock.env.now - updated.createdAt := by
  obtain ⟨worker, first, history, hearlier, hexplained⟩ := commit_explained hreach hown hgot
  obtain ⟨snapshot, clock, rfl, hsnapshot, hclock, hnow, hage⟩ := hexplained.of_expired
  have hhistory : history ⊆ earlier := hearlier ▸ List.subset_cons_self _ _
  obtain ⟨current, hcurrent, hadvances⟩ :=
    snapshot_advances hreach hworld hown (hsnapshot.mono hhistory)
  rcases answer_update act.env snapshot.id .expired hash act.before with
    ⟨source, time, after, hanswer, hsource, -⟩ | ⟨-, hnone⟩
  · cases hcurrent.symm.trans hsource
    have hupdated : updated = current.moved .expired hash time := by
      have heq := hgot.2.symm.trans (congrArg Prod.fst hanswer)
      cases heq
      rfl
    refine ⟨worker, first, clock, hearlier ▸ List.mem_cons_self, hhistory hclock, hnow, ?_⟩
    rwa [hupdated, Payment.moved, hadvances.terms.createdAt]
  · exact absurd hgot.2 (hnone updated)

end Runs

section Backends

variable [Platform]

/-- An update without a hash has nothing that a store could refuse. -/
theorem Backend.accepts_none (backend : Backend) (payments : backend.Payments) (id : Uuid) :
    RepositoryLaws.accepts payments id none := by
  cases backend with
  | inMemory => trivial
  | postgres => intro text htext; cases htext

/-- On either backend: a pending payment expires exactly when it is processed at or after the end of
its window, whatever Horizon shows; if it is processed before that and the search stops at a record
with its amount and a hash that the store takes, it is detected; and in every run of creations and
passes from empty stores a payment expires only after its pass has read the clock at or after the
end of the window. -/
theorem expiry_by_clock (backend : Backend) :
    (∀ worker env payment (world : World backend.Payments backend.Events),
      payment.status = .pending →
        (Expires worker env payment world ↔
          (stored world.payments payment.id).map Payment.status = some .pending ∧
          env.paymentsFault = none ∧ worker.expiry ≤ env.now - payment.createdAt)) ∧
    (∀ worker env payment (world : World backend.Payments backend.Events) record,
      payment.status = .pending →
      (stored world.payments payment.id).map Payment.status = some .pending →
      env.paymentsFault = none → env.now - payment.createdAt < worker.expiry →
      Matched env payment record →
      RepositoryLaws.accepts world.payments payment.id (some record.transactionHash) →
        Detects worker env payment world record.transactionHash) ∧
    ∀ state : State backend.machine,
      Reachable (reconciliationRules backend.Payments backend.Events) backend.empty state →
      ∀ act earlier later id hash updated,
        state.config.own act.thread = earlier ++ .act act :: later →
        act.Got (.guardedUpdate id .expired hash) (.ok (some updated)) →
        ∃ worker first clock, .start act.thread (.runOnce worker) first ∈ earlier ∧
          .act clock ∈ earlier ∧ clock.request = .utcNow ∧
          worker.expiry ≤ clock.env.now - updated.createdAt := by
  refine ⟨fun worker env payment world hpending => ?_,
    fun worker env payment world record hpending hstored hworks hyoung hmatched haccepts => ?_,
    fun state hreach act earlier later id hash updated hown hgot => ?_⟩
  · rw [expires_iff hpending]
    simp only [backend.accepts_none, true_and]
  · exact (detects_iff hpending).mpr ⟨hstored, hworks, haccepts, hyoung, record, hmatched, rfl⟩
  · refine expired_after_window hreach (fun id payment hpayment => ?_) hown hgot
    rw [backend.stored_empty] at hpayment
    cases hpayment

end Backends

section Run

attribute [local instance] Plain.platform

open Plain

/-- The end of the expiry window, on a ledger that shows a transfer made in time. -/
def lateEnv : Env :=
  envWith (5000 + 3600 * 10 ^ 9) 8 [native "tx" "GDEST" "10.0" 5500] "m"

/-- A payment of ten units is processed for the first time when its window is over. -/
def latePass : List (Choice Backend.postgres.machine) :=
  [.start (create "10" "order-1" none), .act 0 (env 5000 7), .act 0 (env 5000 7),
    .act 0 (env 5000 7), .start (.runOnce worker), .act 1 lateEnv, .act 1 lateEnv, .act 1 lateEnv]

/-- The page of the destination shows the transfer of `lateEnv`. -/
def showsTransfer (env : Env) : Bool :=
  match env.horizon.payments "GDEST", env.horizon.memo "tx" with
  | .ok records, .ok memo => records == [native "tx" "GDEST" "10.0" 5500] && memo == some "m"
  | _, _ => false

/-- The event moved the payment of `latePass` from `Pending` to `Expired`, while the page showed the
transfer. -/
def expiresPaid : Event Backend.postgres.machine → Bool
  | .act ⟨thread, span, .guardedUpdate id .expired none, env, before⟩ =>
      id == 7 && stored before.payments 7 == some (pending 7 "10" "order-1" 5000) &&
        showsTransfer env &&
        (committed (σ := Backend.postgres.Payments) (ε := Backend.postgres.Events)
          (.act ⟨thread, span, .guardedUpdate id .expired none, env, before⟩)).isSome
  | _ => false

/-- The transfer of `lateEnv` pays the payment in time. -/
theorem paid_of_shows {env : Env} (h : showsTransfer env = true) :
    PaidInTime worker env (pending 7 "10" "order-1" 5000) := by
  unfold showsTransfer at h
  split at h
  · rename_i records memo hrecords hmemo
    simp only [Bool.and_eq_true, beq_iff_eq] at h
    obtain ⟨rfl, rfl⟩ := h
    refine ⟨_, _, List.mem_singleton_self _, "m", "10.0", rfl, hrecords, ?_, rfl, by decide, rfl,
      amounts_match_iff.mp (by decide)⟩
    exact ⟨rfl, by decide, rfl, hmemo⟩
  · cases h

/-- What such an event says. -/
theorem of_expires_paid {event : Event Backend.postgres.machine} (h : expiresPaid event = true) :
    ∃ act updated, event = .act act ∧
      act.Got (.guardedUpdate 7 .expired none) (.ok (some updated)) ∧
      stored act.before.payments 7 = some (pending 7 "10" "order-1" 5000) ∧
      PaidInTime worker act.env (pending 7 "10" "order-1" 5000) := by
  unfold expiresPaid at h
  split at h
  · simp only [Bool.and_eq_true, beq_iff_eq] at h
    obtain ⟨⟨⟨rfl, hstored⟩, hshows⟩, hcommitted⟩ := h
    obtain ⟨updated, hcommitted⟩ := Option.isSome_iff_exists.mp hcommitted
    obtain ⟨act, id, next, hash, hevent, hgot⟩ := committed_eq_some hcommitted
    cases hevent
    cases hgot.1
    exact ⟨_, updated, rfl, hgot, hstored, paid_of_shows hshows⟩
  · cases h

/-- In `latePass` the payment expires although the page shows that it was paid in time. -/
theorem paid_in_time_expires : ∃ (state : State Backend.postgres.machine)
    (act : Act Backend.postgres.machine) (updated : Payment),
    Reachable (reconciliationRules Backend.postgres.Payments Backend.postgres.Events)
      Backend.postgres.empty state ∧ .act act ∈ state.config.trace ∧
    act.Got (.guardedUpdate 7 .expired none) (.ok (some updated)) ∧
    stored act.before.payments 7 = some (pending 7 "10" "order-1" 5000) ∧
    PaidInTime worker act.env (pending 7 "10" "order-1" 5000) := by
  obtain ⟨state, hreach, htest⟩ := exists_reachable
    (reconciliationRules Backend.postgres.Payments Backend.postgres.Events) latePass
    Backend.postgres.empty (fun state => state.config.trace.any expiresPaid) (by decide)
  obtain ⟨event, hevent, hexpires⟩ := List.any_eq_true.mp htest
  obtain ⟨act, updated, rfl, hgot, hstored, hpaid⟩ := of_expires_paid hexpires
  exact ⟨state, act, updated, hreach, hevent, hgot, hstored, hpaid⟩

/-- The pass of `latePass` has read the clock at the end of the window. -/
theorem expiry_by_clock_late : ∃ (state : State Backend.postgres.machine)
    (act : Act Backend.postgres.machine) (updated : Payment), .act act ∈ state.config.trace ∧
    act.Got (.guardedUpdate 7 .expired none) (.ok (some updated)) ∧
    ∃ worker first clock, .start act.thread (.runOnce worker) first ∈ state.config.trace ∧
      .act clock ∈ state.config.trace ∧ clock.request = .utcNow ∧
      worker.expiry ≤ clock.env.now - updated.createdAt := by
  obtain ⟨state, hreach, htest⟩ := exists_reachable
    (reconciliationRules Backend.postgres.Payments Backend.postgres.Events) latePass
    Backend.postgres.empty (fun state => state.config.trace.any expiresPaid) (by decide)
  obtain ⟨event, hevent, hexpires⟩ := List.any_eq_true.mp htest
  obtain ⟨act, updated, rfl, hgot, -⟩ := of_expires_paid hexpires
  obtain ⟨earlier, later, hown⟩ := List.append_of_mem (Config.mem_own.mpr ⟨hevent, rfl⟩)
  obtain ⟨worker, first, clock, hstart, hclock, hnow, hage⟩ :=
    (expiry_by_clock .postgres).2.2 state hreach act earlier later 7 none updated hown hgot
  have hmem : ∀ {event}, event ∈ earlier → event ∈ state.config.trace := fun h =>
    Config.mem_of_own (hown ▸ List.mem_append_left _ h)
  exact ⟨state, act, updated, hevent, hgot, worker, first, clock, hmem hstart, hmem hclock, hnow,
    hage⟩

end Run

end StellarPay
