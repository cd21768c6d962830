import StellarPay.Runs.Expiry
import StellarPay.Runs.Isolation

/-!
# Longer expiry windows

The same pass with two expiry windows: everything outside is as it was, the clock and the answers of
Horizon for each payment included. Turn by turn, the pass with the shorter window stores no hash
that the other one does not, so it is refused no write that the other one makes, and whatever the
other one expires it expires too. The window that counts is the one chrono can represent: a longer
one than that counts as none at all, and everything expires.
-/

namespace StellarPay

open Interleaving

section Turns

variable {σ ε : Type} [Platform] [PaymentRepository σ] [WebhookEventRepository ε]
  [RepositoryLaws σ]

/-- The payment after a turn that writes this, or nothing. -/
def Payment.written (payment : Payment) (write : Option (PaymentStatus × Option String))
    (now : DateTime) : Payment :=
  match write with
  | none => payment
  | some (next, hash) => payment.moved next hash now

/-- The turn of a payment when the store works. It ends with an error of Horizon or with a refused
hash, and changes nothing; or it does what was planned. -/
inductive WorkingTurn (worker : ReconciliationWorker) (env : Env) (payment : Payment)
    (world : World σ ε) (outcome : Except WorkerError Unit × World σ ε) : Prop where
  | failed (error : WorkerError) (hresult : outcome.1 = .error error)
      (hsame : ∀ id, stored outcome.2.payments id = stored world.payments id)
      (hwhy : worker.plan env payment = .error error ∨
        ∃ next hash, worker.plan env payment = .ok (some (next, hash)) ∧
          ¬ RepositoryLaws.accepts world.payments payment.id hash)
  | done (write : Option (PaymentStatus × Option String)) (now : DateTime)
      (hplan : worker.plan env payment = .ok write) (hresult : outcome.1 = .ok ())
      (haccepts : ∀ next hash, write = some (next, hash) →
        RepositoryLaws.accepts world.payments payment.id hash)
      (hafter : ∀ id, stored outcome.2.payments id =
        if id = payment.id then some (payment.written write now) else stored world.payments id)

variable {worker : ReconciliationWorker} {env : Option Uuid → Env} {payment : Payment}

omit [RepositoryLaws σ] in
/-- A pass plans what the state machine permits. -/
theorem plan_transition {moment : Env} {next : PaymentStatus} {hash : Option String}
    (hplan : worker.plan moment payment = .ok (some (next, hash))) :
    payment.status.canTransitionTo next = true := by
  unfold ReconciliationWorker.plan at hplan
  cases hstatus : payment.status with
  | pending =>
      rcases plan_pending_cases hstatus hplan with ⟨-, rfl, -⟩ | ⟨text, rfl, -⟩ <;> rfl
  | detected =>
      simp only [hstatus] at hplan
      split at hplan
      · cases hplan
      · split at hplan
        · cases hplan
        · cases hplan
          split <;> rfl
  | _ => simp [hstatus] at hplan

omit [RepositoryLaws σ] in
/-- Only a pending payment that is old enough is planned to expire. -/
theorem plan_expired {moment : Env} {hash : Option String}
    (hplan : worker.plan moment payment = .ok (some (.expired, hash))) :
    payment.status = .pending ∧ worker.expiry ≤ moment.now - payment.createdAt := by
  have hpending : payment.status = .pending := by
    have htransition := plan_transition hplan
    cases hstatus : payment.status with
    | pending => rfl
    | _ =>
        rw [hstatus] at htransition
        cases htransition
  exact ⟨hpending, ((plan_expired_iff hpending).mp hplan).2⟩

/-- The turn of a payment for which a write is planned. -/
theorem Carried.working_turn {moment : Env} {next : PaymentStatus} {hash : Option String}
    {world : World σ ε} {outcome : Except WorkerError Unit × World σ ε}
    (h : Carried moment payment.id next hash world outcome) (hworks : moment.paymentsFault = none)
    (hstored : stored world.payments payment.id = some payment)
    (hplan : worker.plan moment payment = .ok (some (next, hash))) :
    WorkingTurn worker moment payment world outcome := by
  have hiff : (∃ updated, (answer moment (.guardedUpdate payment.id next hash) world).1 =
      .ok (some updated)) ↔
        moment.paymentsFault = none ∧ RepositoryLaws.accepts world.payments payment.id hash :=
    answer_update_ok_iff hstored (plan_transition hplan)
  have hpayments := h.payments
  rcases answer_update moment payment.id next hash world with
    ⟨source, time, after, hanswer, hsource, -, hafter⟩ | ⟨hanswer, hnone⟩
  · cases hstored.symm.trans hsource
    have hok : ∃ updated, (answer moment (.guardedUpdate payment.id next hash) world).1 =
        .ok (some updated) := ⟨_, congrArg Prod.fst hanswer⟩
    refine .done (some (next, hash)) time hplan (h.result.mpr hok) ?_ fun id => ?_
    · intro _ _ hwrite
      cases hwrite
      exact (hiff.mp hok).2
    · rw [hpayments, hanswer, hafter]
      rfl
  · rw [hanswer] at hpayments
    have hrefused : ¬ RepositoryLaws.accepts world.payments payment.id hash := by
      intro haccepts
      obtain ⟨updated, hupdated⟩ := hiff.mpr ⟨hworks, haccepts⟩
      exact hnone updated hupdated
    cases hresult : outcome.1 with
    | error error =>
        exact .failed error hresult (fun id => by rw [hpayments])
          (.inr ⟨next, hash, hplan, hrefused⟩)
    | ok _ =>
        obtain ⟨updated, hupdated⟩ := h.result.mp hresult
        exact absurd hupdated (hnone updated)

/-- A payment that is stored as it was listed has its turn. -/
theorem process_one_turn (worker : ReconciliationWorker) {world : World σ ε}
    (hworks : (env (some payment.id)).paymentsFault = none)
    (hstored : stored world.payments payment.id = some payment) :
    WorkingTurn worker (env (some payment.id)) payment world
      (processOne worker env payment world) := by
  have hrun := run_process worker (env (some payment.id)) payment world
  unfold ReconciliationWorker.CarriesOut at hrun
  rcases hplan : worker.plan (env (some payment.id)) payment with error | _ | ⟨next, hash⟩
  · rw [hplan] at hrun
    exact .failed error (congrArg Prod.fst hrun) (fun _ => by rw [processOne, hrun]) (.inl hplan)
  · rw [hplan] at hrun
    refine .done none 0 hplan (congrArg Prod.fst hrun) (by simp) fun id => ?_
    rw [processOne, hrun]
    split
    · rename_i hid
      rw [hid]
      exact hstored
    · rfl
  · rw [hplan] at hrun
    exact hrun.working_turn hworks hstored hplan

/-- The loop has these payments before it, and finds them as they were listed. -/
structure Unprocessed (listed : List Payment) (world : World σ ε) : Prop where
  nodup : (listed.map Payment.id).Nodup
  stored_as_listed : ∀ payment ∈ listed, stored world.payments payment.id = some payment

omit [Platform] [WebhookEventRepository ε] [RepositoryLaws σ] in
/-- The turn of a payment leaves the others as they were listed. -/
theorem Unprocessed.rest {rest : List Payment} {world after : World σ ε} {changed : Payment}
    (h : Unprocessed (payment :: rest) world)
    (hafter : ∀ id, stored after.payments id =
      if id = payment.id then some changed else stored world.payments id) :
    Unprocessed rest after := by
  obtain ⟨hnotin, hrest⟩ := List.nodup_cons.mp h.nodup
  refine ⟨hrest, fun other hother => ?_⟩
  have hne : other.id ≠ payment.id := fun heq => hnotin (heq ▸ List.mem_map_of_mem hother)
  rw [hafter, if_neg hne]
  exact h.stored_as_listed other (List.mem_cons_of_mem _ hother)

/-- The payment under `id` is stored as expired. -/
def IsExpired (world : World σ ε) (id : Uuid) : Prop :=
  (stored world.payments id).map Payment.status = some .expired

instance (world : World σ ε) (id : Uuid) : Decidable (IsExpired world id) :=
  inferInstanceAs (Decidable (_ = _))

/-- What has expired stays expired. -/
theorem pass_over_keeps_expired {listed : List Payment} {world : World σ ε} {id : Uuid}
    (h : IsExpired world id) : IsExpired (passOver worker env listed world).2 id := by
  induction listed generalizing world with
  | nil => exact h
  | cons payment rest ih =>
      have hone : IsExpired (processOne worker env payment world).2 id := by
        unfold IsExpired at h ⊢
        rcases process_one_cases worker env payment world with
          ⟨hsame, -⟩ | ⟨-, -, source, next, hash, time, hsource, htransition, hafter⟩
        · rw [hsame]
          exact h
        · rw [hafter]
          split
          · -- No transition leads out of `Expired`.
            rename_i hid
            rw [hid, hsource] at h
            rw [Option.some.inj h] at htransition
            cases next <;> cases htransition
          · exact h
      rw [pass_over_cons]
      rcases hstep : processOne worker env payment world with ⟨_ | _, after⟩
      · rw [hstep] at hone
        exact hone
      · rw [hstep] at hone
        exact ih hone

/-- A loop expires a payment only if it is a pending one of its list, and its age, as the clock
shows it in the turn of the payment, reaches the window that counts. -/
theorem pass_over_expires {listed : List Payment} {world : World σ ε} {id : Uuid}
    (hworks : ∀ span, (env span).paymentsFault = none) (hlisted : Unprocessed listed world)
    (hbefore : ¬ IsExpired world id) (hafter : IsExpired (passOver worker env listed world).2 id) :
    ∃ payment ∈ listed, payment.id = id ∧ payment.status = .pending ∧
      worker.expiry ≤ (env (some id)).now - payment.createdAt := by
  induction listed generalizing world with
  | nil => exact absurd hafter hbefore
  | cons payment rest ih =>
      have hturn := process_one_turn worker (hworks (some payment.id))
        (hlisted.stored_as_listed payment List.mem_cons_self)
      rw [pass_over_cons] at hafter
      rcases hstep : processOne worker env payment world with ⟨result, next⟩
      rw [hstep] at hturn hafter
      cases hturn with
      | failed error hresult hsame =>
          cases hresult
          unfold IsExpired at hafter
          rw [hsame] at hafter
          exact absurd hafter hbefore
      | done write now hplan hresult haccepts hstored =>
          cases hresult
          by_cases hexpired : IsExpired next id
          · unfold IsExpired at hexpired
            rw [hstored] at hexpired
            split at hexpired
            · rename_i hid
              have hlistedHere := hlisted.stored_as_listed payment List.mem_cons_self
              rcases write with _ | ⟨status, hash⟩
              · refine absurd ?_ hbefore
                unfold IsExpired
                rwa [hid, hlistedHere]
              · obtain rfl : status = .expired := Option.some.inj hexpired
                obtain ⟨hpending, hage⟩ := plan_expired hplan
                exact ⟨payment, List.mem_cons_self, hid.symm, hpending, hid ▸ hage⟩
            · exact absurd hexpired hbefore
          · obtain ⟨found, hfound, hfacts⟩ := ih (hlisted.rest hstored) hexpired hafter
            exact ⟨found, List.mem_cons_of_mem _ hfound, hfacts⟩

end Turns

section Backends

variable [Platform]

/-- A hash that one store takes is taken by a store of the same kind that holds fewer hashes. -/
theorem Backend.accepts_fewer (backend : Backend) {payments fewer : backend.Payments} {id : Uuid}
    {hash : Option String}
    (hfewer : ∀ other payment text, stored fewer other = some payment →
      payment.stellarTxHash = some text →
      ∃ holder, stored payments other = some holder ∧ holder.stellarTxHash = some text)
    (haccepts : RepositoryLaws.accepts payments id hash) :
    RepositoryLaws.accepts fewer id hash := by
  cases backend with
  | inMemory => trivial
  | postgres =>
      intro text htext
      obtain ⟨hplain, hfree⟩ := haccepts text htext
      refine ⟨hplain, fun other payment hpayment hne hhash => ?_⟩
      obtain ⟨holder, hholder, hheld⟩ := hfewer other payment text hpayment hhash
      exact hfree other holder hholder hne hheld

variable {backend : Backend} {env : Option Uuid → Env} {short long : ReconciliationWorker}

/-- The plans for one payment at one moment differ only if the shorter window is over. -/
theorem plan_shorter {moment : Env} {payment : Payment} (hle : short.expiry ≤ long.expiry) :
    payment.status = .pending ∧ short.plan moment payment = .ok (some (.expired, none)) ∨
      short.plan moment payment = long.plan moment payment := by
  cases hstatus : payment.status with
  | pending =>
      by_cases hage : short.expiry ≤ moment.now - payment.createdAt
      · exact .inl ⟨rfl, (plan_expired_iff hstatus).mpr ⟨rfl, hage⟩⟩
      · refine .inr ?_
        have hlong : ¬ long.expiry ≤ moment.now - payment.createdAt :=
          fun hage' => hage (hle.trans hage')
        simp only [ReconciliationWorker.plan, hstatus, if_neg hage, if_neg hlong]
  | _ =>
      refine .inr ?_
      simp only [ReconciliationWorker.plan, hstatus]

/-- The loops of two passes before the same payments: the first has stored no hash that the second
has not, and has expired whatever the second has. -/
structure Ahead (listed : List Payment) (first second : World backend.Payments backend.Events) :
    Prop where
  first_listed : Unprocessed listed first
  second_listed : Unprocessed listed second
  unpaid : ∀ payment ∈ listed, payment.status = .pending → payment.stellarTxHash = none
  hashes : ∀ id payment hash, stored first.payments id = some payment →
    payment.stellarTxHash = some hash →
    ∃ other, stored second.payments id = some other ∧ other.stellarTxHash = some hash
  expired : ∀ id, IsExpired second id → IsExpired first id

/-- Compared with the write of a longer window, a shorter one writes the same, or lets a pending
payment expire. -/
def Sooner (payment : Payment) (write sooner : Option (PaymentStatus × Option String)) : Prop :=
  payment.status = .pending ∧ sooner = some (.expired, none) ∨ sooner = write

section Sooner

variable {payment : Payment} {write sooner : Option (PaymentStatus × Option String)}

omit [Platform] in
/-- It stores no hash that the other one does not store. -/
theorem Sooner.hash (h : Sooner payment write sooner) {now time : DateTime} {hash : String}
    (hunpaid : payment.status = .pending → payment.stellarTxHash = none)
    (hhash : (payment.written sooner time).stellarTxHash = some hash) :
    (payment.written write now).stellarTxHash = some hash := by
  rcases h with ⟨hpending, rfl⟩ | rfl
  · rw [Payment.written, Payment.moved, hunpaid hpending] at hhash
    cases hhash
  · rcases sooner with _ | ⟨next, text⟩ <;> exact hhash

omit [Platform] in
/-- It expires what the other one expires. -/
theorem Sooner.expired (h : Sooner payment write sooner) {now time : DateTime}
    (hexpired : (payment.written write now).status = .expired) :
    (payment.written sooner time).status = .expired := by
  rcases h with ⟨-, rfl⟩ | rfl
  · rfl
  · rcases sooner with _ | ⟨next, text⟩ <;> exact hexpired

end Sooner

/-- Where the longer window has done its turn, the shorter one does it too. -/
theorem Ahead.does {payment : Payment} {rest : List Payment}
    {first second : World backend.Payments backend.Events}
    {outcome : Except WorkerError Unit × World backend.Payments backend.Events}
    {write : Option (PaymentStatus × Option String)}
    (h : Ahead (payment :: rest) first second) (hle : short.expiry ≤ long.expiry)
    (hshort : WorkingTurn short (env (some payment.id)) payment first outcome)
    (hplan : long.plan (env (some payment.id)) payment = .ok write)
    (haccepts : ∀ next hash, write = some (next, hash) →
      RepositoryLaws.accepts second.payments payment.id hash) :
    outcome.1 = .ok () ∧ ∃ sooner time, Sooner payment write sooner ∧
      ∀ id, stored outcome.2.payments id =
        if id = payment.id then some (payment.written sooner time)
        else stored first.payments id := by
  cases hshort with
  | failed error hresult hsame hwhy =>
      -- The plan is to expire, which no store refuses, or the one that the other pass carried out.
      exfalso
      rcases plan_shorter hle with ⟨-, hexpires⟩ | hequal
      · rcases hwhy with herror | ⟨next, hash, hwrite, hrefused⟩
        · cases hexpires.symm.trans herror
        · cases hexpires.symm.trans hwrite
          exact hrefused (backend.accepts_none _ _)
      · rcases hwhy with herror | ⟨next, hash, hwrite, hrefused⟩
        · cases hplan.symm.trans (hequal.symm.trans herror)
        · cases hplan.symm.trans (hequal.symm.trans hwrite)
          exact hrefused (backend.accepts_fewer h.hashes (haccepts next hash rfl))
  | done sooner time hplan' hresult haccepts' hafter =>
      refine ⟨hresult, sooner, time, ?_, hafter⟩
      rcases plan_shorter hle with ⟨hpending, hexpires⟩ | hequal
      · cases hexpires.symm.trans hplan'
        exact .inl ⟨hpending, rfl⟩
      · cases hplan.symm.trans (hequal.symm.trans hplan')
        exact .inr rfl

/-- After a turn of both the shorter window is still ahead. -/
theorem Ahead.turn {payment : Payment} {rest : List Payment}
    {first second after after' : World backend.Payments backend.Events}
    {write sooner : Option (PaymentStatus × Option String)} {now time : DateTime}
    (h : Ahead (payment :: rest) first second) (hsooner : Sooner payment write sooner)
    (hafter : ∀ id, stored after.payments id =
      if id = payment.id then some (payment.written sooner time) else stored first.payments id)
    (hafter' : ∀ id, stored after'.payments id =
      if id = payment.id then some (payment.written write now) else stored second.payments id) :
    Ahead rest after after' := by
  refine ⟨h.first_listed.rest hafter, h.second_listed.rest hafter',
    fun other hother => h.unpaid other (List.mem_cons_of_mem _ hother), ?_, ?_⟩
  · intro id found hash hfound hhash
    rw [hafter] at hfound
    rw [hafter']
    split
    · rename_i hid
      rw [if_pos hid] at hfound
      cases hfound
      exact ⟨_, rfl, hsooner.hash (h.unpaid payment List.mem_cons_self) hhash⟩
    · rename_i hid
      rw [if_neg hid] at hfound
      exact h.hashes id found hash hfound hhash
  · intro id hexpired
    unfold IsExpired at hexpired ⊢
    rw [hafter'] at hexpired
    rw [hafter]
    split
    · rename_i hid
      rw [if_pos hid] at hexpired
      exact congrArg some (hsooner.expired (Option.some.inj hexpired))
    · rename_i hid
      rw [if_neg hid] at hexpired
      exact h.expired id hexpired

/-- What the loop with the longer window expires, the loop with the shorter one expires. -/
theorem Ahead.run {listed : List Payment} {first second : World backend.Payments backend.Events}
    (h : Ahead listed first second) (hle : short.expiry ≤ long.expiry)
    (hworks : ∀ span, (env span).paymentsFault = none) {id : Uuid}
    (hexpired : IsExpired (passOver long env listed second).2 id) :
    IsExpired (passOver short env listed first).2 id := by
  induction listed generalizing first second with
  | nil => exact h.expired id hexpired
  | cons payment rest ih =>
      have hlong := process_one_turn long (hworks (some payment.id))
        (h.second_listed.stored_as_listed payment List.mem_cons_self)
      have hshort := process_one_turn short (hworks (some payment.id))
        (h.first_listed.stored_as_listed payment List.mem_cons_self)
      rw [pass_over_cons] at hexpired
      cases hlong with
      | failed error hresult hsame =>
          -- The pass with the longer window ends here, and the other one may go on.
          refine pass_over_keeps_expired (h.expired id ?_)
          rcases hstep : processOne long env payment second with ⟨result, next⟩
          rw [hstep] at hexpired hresult hsame
          cases hresult
          unfold IsExpired at hexpired ⊢
          rwa [← hsame]
      | done write now hplan hresult haccepts hafter =>
          obtain ⟨hok, sooner, time, hsooner, hafter'⟩ := h.does hle hshort hplan haccepts
          have hahead := h.turn hsooner hafter' hafter
          rw [pass_over_cons]
          rcases hstep : processOne long env payment second with ⟨result, next⟩
          rcases hstep' : processOne short env payment first with ⟨result', next'⟩
          rw [hstep] at hexpired hresult hahead
          rw [hstep'] at hok hahead
          cases hresult
          cases hok
          exact ih hahead hexpired

/-- The store of payments works at every moment of the pass. -/
def FaultFree (env : Option Uuid → Env) : Prop :=
  ∀ span, (env span).paymentsFault = none

/-- Pending payments hold no hash. -/
def PendingUnpaid {σ ε : Type} [PaymentRepository σ] (world : World σ ε) : Prop :=
  ∀ id payment, stored world.payments id = some payment → payment.status = .pending →
    payment.stellarTxHash = none

/-- In every run from empty stores they hold none: `create_payment` gives them none, and no update
leads back to `Pending`. -/
theorem pending_unpaid_of_reachable {rules : Rules backend.machine} {state : State backend.machine}
    (hreach : Reachable rules backend.empty state) : PendingUnpaid state.config.world := by
  refine hreach.linked.keeps PendingUnpaid (fun event hevent hbefore => ?_) ?_
  · cases event with
    | start => exact hbefore
    | act act =>
        intro id payment hstored hpending
        obtain ⟨t, -, -, hallows, -⟩ := act_allowed hreach hevent
        rcases answer_cases act.env act.request act.before id with
          hsame | ⟨asked, key, created, hrequest, -, -, hhash, hafter, -⟩ |
          ⟨source, next, hash, time, -, -, htransition, hafter, -⟩
        · exact hbefore id payment (hsame.symm.trans hstored) hpending
        · cases hafter.symm.trans hstored
          rw [hrequest] at hallows
          rw [hhash]
          cases hcall : t.call <;> rw [hcall] at hallows <;>
            first | exact hallows.2.2 | cases hallows
        · cases hafter.symm.trans hstored
          rw [Payment.moved] at hpending
          rw [show next = .pending from hpending] at htransition
          cases hsource : source.status <;> rw [hsource] at htransition <;> cases htransition
  · intro id payment hstored
    rw [backend.stored_empty] at hstored
    cases hstored

/-- The pass moves the payment under `id` to `Expired`. -/
def PassExpires (worker : ReconciliationWorker) (env : Option Uuid → Env)
    (world : World backend.Payments backend.Events) (id : Uuid) : Prop :=
  ¬ IsExpired world id ∧ IsExpired (worker.runOnce.run answer env world).2 id

instance (worker : ReconciliationWorker) (env : Option Uuid → Env)
    (world : World backend.Payments backend.Events) (id : Uuid) :
    Decidable (PassExpires worker env world id) :=
  inferInstanceAs (Decidable (_ ∧ _))

/-- What a pass with the longer window expires, the same pass with the shorter one expires. -/
def ExpiresNoMore (shorter longer : Duration) : Prop :=
  ∀ (backend : Backend) (world : World backend.Payments backend.Events) (env : Option Uuid → Env),
    PendingUnpaid world → FaultFree env →
    ∀ id, PassExpires ⟨longer⟩ env world id → PassExpires ⟨shorter⟩ env world id

/-- A pass with this window expires a payment only if its age, as the clock shows it in the turn of
the payment, is at least the window. -/
def ExpiresByAge (window : Duration) : Prop :=
  ∀ (backend : Backend) (world : World backend.Payments backend.Events) (env : Option Uuid → Env),
    FaultFree env → ∀ id, PassExpires ⟨window⟩ env world id →
      ∃ payment, stored world.payments id = some payment ∧
        (window : Int) ≤ (env (some id)).now - payment.createdAt

/-- The list of a pass, when the store works. -/
theorem listing_of_works (hworks : FaultFree env)
    (world : World backend.Payments backend.Events) :
    ∃ listed, (answer (env none) .listPendingForReconciliation world).1 = .ok listed := by
  obtain ⟨listed, hlisted, -⟩ :=
    @RepositoryLaws.mem_pending backend.Payments _ _ (env none).scan world.payments
  refine ⟨listed, ?_⟩
  simp only [answer, onPayments, attempt, reading, hworks none]
  exact hlisted

/-- Before its loop the pass has all of its list to process. -/
theorem unprocessed_of_listing {moment : Env} {world : World backend.Payments backend.Events}
    {listed : List Payment}
    (hlisting : (answer moment .listPendingForReconciliation world).1 = .ok listed) :
    Unprocessed listed world := by
  obtain ⟨hnodup, -, hmem⟩ := answer_listing hlisting
  exact ⟨hnodup, fun payment hpayment => ((hmem payment).mp hpayment).1⟩

/-- A pass expires a payment only if its age reaches the window that counts. -/
theorem pass_expires_age {worker : ReconciliationWorker}
    {world : World backend.Payments backend.Events} {id : Uuid} (hworks : FaultFree env)
    (h : PassExpires worker env world id) :
    ∃ payment, stored world.payments id = some payment ∧
      worker.expiry ≤ (env (some id)).now - payment.createdAt := by
  obtain ⟨hbefore, hafter⟩ := h
  obtain ⟨listed, hlisting⟩ := listing_of_works hworks world
  have hlisted := unprocessed_of_listing hlisting
  rw [run_once_eq hlisting] at hafter
  obtain ⟨payment, hmem, rfl, -, hage⟩ := pass_over_expires hworks hlisted hbefore hafter
  exact ⟨payment, hlisted.stored_as_listed payment hmem, hage⟩

/-- What a pass with the longer window expires, the same pass with the shorter one expires, if the
windows that count are in the same order. -/
theorem pass_expires_of_longer {world : World backend.Payments backend.Events} {id : Uuid}
    (hle : short.expiry ≤ long.expiry) (hunpaid : PendingUnpaid world) (hworks : FaultFree env)
    (h : PassExpires long env world id) : PassExpires short env world id := by
  obtain ⟨hbefore, hafter⟩ := h
  obtain ⟨listed, hlisting⟩ := listing_of_works hworks world
  have hlisted := unprocessed_of_listing hlisting
  rw [run_once_eq hlisting] at hafter
  have hahead : Ahead listed world world :=
    ⟨hlisted, hlisted,
      fun payment hmem => hunpaid payment.id payment (hlisted.stored_as_listed payment hmem),
      fun _ payment _ hstored hhash => ⟨payment, hstored, hhash⟩, fun _ hexpired => hexpired⟩
  refine ⟨hbefore, ?_⟩
  rw [run_once_eq hlisting]
  exact hahead.run hle hworks hafter

/-- The longest window that chrono can represent: `i64::MAX` milliseconds. -/
def longestWindow : Duration :=
  (2 ^ 63 - 1) * 10 ^ 6

omit [Platform] in
/-- A window that can be represented counts in full. -/
theorem expiry_eq_window {window : Duration} (h : window ≤ longestWindow) :
    ReconciliationWorker.expiry ⟨window⟩ = (window : Int) := by
  have hfits : TimeDelta.fromStd window = some (window : Int) := if_pos h
  rw [ReconciliationWorker.expiry, hfits]
  rfl

omit [Platform] in
/-- A window that cannot be represented counts as none. -/
theorem expiry_eq_zero {window : Duration} (h : ¬ window ≤ longestWindow) :
    ReconciliationWorker.expiry ⟨window⟩ = 0 := by
  have hfails : TimeDelta.fromStd window = none := if_neg h
  rw [ReconciliationWorker.expiry, hfails]
  rfl

/-- A pass reads the window that counts, and nothing else of its worker. -/
theorem run_once_congr {worker other : ReconciliationWorker} (h : worker.expiry = other.expiry) :
    worker.runOnce = other.runOnce := by
  have hprocess : worker.process = other.process := by
    funext payment
    simp only [ReconciliationWorker.process, ReconciliationWorker.processPending, h]
  have hall : worker.processAll = other.processAll := by
    funext payments
    induction payments with
    | nil => rfl
    | cons payment rest ih =>
        simp only [ReconciliationWorker.processAll, hprocess, ih]
  simp only [ReconciliationWorker.runOnce, hall]

/-- A store in memory with a payment that has just been created. -/
def newInvoice : World Backend.inMemory.Payments Backend.inMemory.Events :=
  (answer (Plain.env 5000 7) (.createWithIdempotencyKey (Plain.pending 7 "10" "order-1" 5000) none)
    Backend.inMemory.empty).2

/-- At this very moment the payment has the age zero, which is old enough for a window that counts
as none. -/
theorem new_invoice_expires {worker : ReconciliationWorker} (h : worker.expiry = 0) :
    PassExpires worker (fun _ => Plain.env 5000 8) newInvoice 7 := by
  have hzero : worker.expiry = ReconciliationWorker.expiry ⟨0⟩ := h
  constructor
  · intro hexpired
    have hpending : some PaymentStatus.pending = some .expired := hexpired
    cases hpending
  · rw [run_once_congr hzero]
    rfl

/-- The only payment of the store has no hash. -/
theorem new_invoice_unpaid : PendingUnpaid newInvoice := by
  intro id payment hstored _
  obtain ⟨-, -, hhash, hafter⟩ := @RepositoryLaws.create_ok Backend.inMemory.Payments _ _
    (Plain.pending 7 "10" "order-1" 5000) _ none Backend.inMemory.noPayments _ rfl
  rw [show stored newInvoice.payments id = _ from hafter id] at hstored
  split at hstored
  · cases hstored
    exact hhash
  · rw [show stored Backend.inMemory.noPayments id = none from
      Backend.stored_empty .inMemory id] at hstored
    cases hstored

/-- The age that the new payment must have reached is at most zero. -/
theorem age_of_new_invoice {age : Int}
    (h : ∃ payment, stored newInvoice.payments 7 = some payment ∧
      age ≤ (Plain.env 5000 8).now - payment.createdAt) : age ≤ 0 := by
  obtain ⟨payment, hpayment, hage⟩ := h
  cases hpayment
  exact hage

/-- The longer window expires no more exactly if it is the longer one of the windows that count. -/
theorem expires_no_more_iff {shorter longer : Duration} (hle : shorter ≤ longer) :
    ExpiresNoMore shorter longer ↔
      ReconciliationWorker.expiry ⟨shorter⟩ ≤ ReconciliationWorker.expiry ⟨longer⟩ := by
  constructor
  · intro h
    by_cases hlonger : longer ≤ longestWindow
    · rw [expiry_eq_window hlonger, expiry_eq_window (hle.trans hlonger)]
      exact Int.ofNat_le.mpr hle
    · have hzero := expiry_eq_zero hlonger
      rw [hzero]
      exact age_of_new_invoice (pass_expires_age (fun _ => rfl)
        (h .inMemory newInvoice _ new_invoice_unpaid (fun _ => rfl) 7 (new_invoice_expires hzero)))
  · intro hexpiry backend world env hunpaid hworks id hexpires
    exact pass_expires_of_longer hexpiry hunpaid hworks hexpires

/-- For two windows, of which the second is at least as long: the longer one expires no more, and
both expire by age, exactly if chrono can represent the longer one. -/
theorem windows_respected_iff {shorter longer : Duration} (hle : shorter ≤ longer) :
    (ExpiresNoMore shorter longer ∧ ExpiresByAge shorter ∧ ExpiresByAge longer) ↔
      longer ≤ longestWindow := by
  constructor
  · intro h
    by_contra hlonger
    have hzero := expiry_eq_zero hlonger
    have hage := age_of_new_invoice
      (h.2.2 .inMemory newInvoice _ (fun _ => rfl) 7 (new_invoice_expires hzero))
    have hshort : longer ≤ 0 := Int.ofNat_le.mp hage
    exact hlonger (hshort.trans (Nat.zero_le _))
  · intro hlonger
    have hbyAge : ∀ {window : Duration}, window ≤ longestWindow → ExpiresByAge window := by
      intro window hwindow backend world env hworks id hexpires
      obtain ⟨payment, hpayment, hage⟩ := pass_expires_age hworks hexpires
      exact ⟨payment, hpayment, expiry_eq_window hwindow ▸ hage⟩
    refine ⟨(expires_no_more_iff hle).mpr ?_, hbyAge (hle.trans hlonger), hbyAge hlonger⟩
    rw [expiry_eq_window hlonger, expiry_eq_window (hle.trans hlonger)]
    exact Int.ofNat_le.mpr hle

end Backends

section Run

attribute [local instance] Plain.platform

/-- Windows of one hour and of two. -/
theorem windows_respected_iff_hours :
    ExpiresNoMore (3600 * 10 ^ 9) (7200 * 10 ^ 9) ∧ ExpiresByAge (3600 * 10 ^ 9) ∧
      ExpiresByAge (7200 * 10 ^ 9) :=
  (windows_respected_iff (by decide)).mpr (by decide)

/-- A window of one millisecond more than chrono represents expires a payment at once that a window
of one hour keeps pending. -/
theorem unrepresentable_window_expires :
    PendingUnpaid newInvoice ∧ FaultFree (fun _ => Plain.env 7000 8) ∧
    PassExpires ⟨2 ^ 63 * 10 ^ 6⟩ (fun _ => Plain.env 7000 8) newInvoice 7 ∧
    ¬ PassExpires ⟨3600 * 10 ^ 9⟩ (fun _ => Plain.env 7000 8) newInvoice 7 ∧
    (stored newInvoice.payments 7).map (fun payment => 7000 - payment.createdAt) = some 2000 :=
  ⟨new_invoice_unpaid, fun _ => rfl, by decide, by decide, by decide⟩

end Run

end StellarPay
