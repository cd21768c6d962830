import StellarPay.Reconciliation.Plan
import StellarPay.Runs.Lifecycle

/-!
# One failing payment in a pass

A pass works through its list and ends at the first error. Compared with the same pass without
failures, the payments behind the first failing one are not processed at all, so they are as they
should be exactly when there was nothing to write for them.
-/

namespace StellarPay

open Interleaving

section Loop

variable {σ ε : Type} [Platform] [PaymentRepository σ] [WebhookEventRepository ε]
  (worker : ReconciliationWorker) (env : Option Uuid → Env)

/-- The loop of a pass over these payments, with nobody else acting. -/
def passOver (payments : List Payment) (world : World σ ε) :
    Except WorkerError Unit × World σ ε :=
  (worker.processAll payments).run answer env world

/-- One payment of the loop, in its own span. -/
def processOne (payment : Payment) (world : World σ ε) : Except WorkerError Unit × World σ ε :=
  (worker.process payment).run answer (fun _ => env (some payment.id)) world

variable {worker env}

theorem pass_over_cons (payment : Payment) (rest : List Payment) (world : World σ ε) :
    passOver worker env (payment :: rest) world =
      match processOne worker env payment world with
      | (.error error, after) => (.error error, after)
      | (.ok (), after) => passOver worker env rest after := by
  rw [passOver, ReconciliationWorker.processAll, Program.run_bind, Program.run_within]
  unfold processOne
  rcases (worker.process payment).run answer (fun _ => env (some payment.id)) world with
    ⟨_ | _, after⟩ <;> rfl

/-- The loop over two lists is the loop over the first, and over the second if no error comes up. -/
theorem pass_over_append (first second : List Payment) (world : World σ ε) :
    passOver worker env (first ++ second) world =
      match passOver worker env first world with
      | (.error error, after) => (.error error, after)
      | (.ok (), after) => passOver worker env second after := by
  induction first generalizing world with
  | nil => rfl
  | cons payment rest ih =>
      rw [List.cons_append, pass_over_cons, pass_over_cons]
      rcases processOne worker env payment world with ⟨_ | _, after⟩
      · rfl
      · exact ih after

/-- A pass is its loop over the list it read. -/
theorem run_once_eq {listed : List Payment} {world : World σ ε}
    (hlisting : (answer (env none) .listPendingForReconciliation world).1 = .ok listed) :
    worker.runOnce.run answer env world = passOver worker env listed world := by
  rw [ReconciliationWorker.runOnce, Program.run_bind, Program.run_request, hlisting]
  simp [passOver, answer]

/-- The loop depends on the moments in which its payments are processed only. -/
theorem pass_over_congr {other : Option Uuid → Env} {payments : List Payment}
    (hsame : ∀ payment ∈ payments, other (some payment.id) = env (some payment.id))
    (world : World σ ε) :
    passOver worker other payments world = passOver worker env payments world := by
  induction payments generalizing world with
  | nil => rfl
  | cons payment rest ih =>
      have hrest := ih fun later hlater => hsame later (List.mem_cons_of_mem _ hlater)
      have hone : processOne worker other payment world = processOne worker env payment world := by
        rw [processOne, processOne, hsame payment List.mem_cons_self]
      rw [pass_over_cons, pass_over_cons, hone]
      rcases processOne worker env payment world with ⟨_ | _, after⟩
      · rfl
      · exact hrest after

variable [RepositoryLaws σ]

variable (worker env) in
/-- What processing one payment does to the payments: nothing, or one move of it. -/
theorem process_one_cases (payment : Payment) (world : World σ ε) :
    (∀ id, stored (processOne worker env payment world).2.payments id = stored world.payments id) ∧
        ((processOne worker env payment world).1 = .ok () →
          ¬ Due worker (env (some payment.id)) payment) ∨
    Due worker (env (some payment.id)) payment ∧
      (processOne worker env payment world).1 = .ok () ∧
      ∃ source next hash time, stored world.payments payment.id = some source ∧
        source.status.canTransitionTo next = true ∧
        ∀ id, stored (processOne worker env payment world).2.payments id =
          if id = payment.id then some (source.moved next hash time)
          else stored world.payments id := by
  have hrun := run_process worker (env (some payment.id)) payment world
  unfold ReconciliationWorker.CarriesOut at hrun
  rw [due_iff]
  rcases hplan : worker.plan (env (some payment.id)) payment with error | _ | ⟨next, hash⟩
  · rw [hplan] at hrun
    exact .inl ⟨by simp [processOne, hrun], by simp⟩
  · rw [hplan] at hrun
    exact .inl ⟨by simp [processOne, hrun], by simp⟩
  · rw [hplan] at hrun
    have hpayments := hrun.payments
    rcases answer_update (env (some payment.id)) payment.id next hash world with
      ⟨source, time, after, hanswer, hsource, htransition, hafter⟩ | ⟨hanswer, hnone⟩
    · rw [hanswer] at hpayments
      refine .inr ⟨⟨next, hash, rfl⟩, hrun.result.mpr ⟨_, congrArg Prod.fst hanswer⟩, source, next,
        hash, time, hsource, htransition, fun id => ?_⟩
      rw [processOne, hpayments, hafter]
    · rw [hanswer] at hpayments
      refine .inl ⟨fun id => by rw [processOne, hpayments], fun hok => ?_⟩
      obtain ⟨updated, hupdated⟩ := hrun.result.mp hok
      exact absurd hupdated (hnone updated)

/-- A payment for which there is nothing to write is left alone by the loop. -/
theorem pass_over_frame {payments : List Payment} {id : Uuid}
    (hidle : ∀ payment ∈ payments, payment.id = id → ¬ Due worker (env (some payment.id)) payment)
    (world : World σ ε) :
    stored (passOver worker env payments world).2.payments id = stored world.payments id := by
  induction payments generalizing world with
  | nil => rfl
  | cons payment rest ih =>
      have hrest := ih fun later hlater => hidle later (List.mem_cons_of_mem _ hlater)
      have hone : stored (processOne worker env payment world).2.payments id =
          stored world.payments id := by
        rcases process_one_cases worker env payment world with
          ⟨hsame, _⟩ | ⟨hdue, _, _, _, _, _, _, _, hafter⟩
        · exact hsame id
        · rw [hafter, if_neg]
          rintro rfl
          exact hidle payment List.mem_cons_self rfl hdue
      rw [pass_over_cons]
      rcases hstep : processOne worker env payment world with ⟨_ | _, after⟩
      · rw [hstep] at hone
        exact hone
      · rw [hstep] at hone
        exact (hrest after).trans hone

/-- A pass that goes well writes what there is to write for a listed payment. -/
theorem pass_over_moves {before behind : List Payment} {payment : Payment} {world : World σ ε}
    (hclean : (passOver worker env (before ++ payment :: behind) world).1 = .ok ())
    (hothers : ∀ other ∈ before ++ behind, other.id ≠ payment.id)
    (hstored : stored world.payments payment.id = some payment)
    (hdue : Due worker (env (some payment.id)) payment) :
    ∃ next hash time, payment.status.canTransitionTo next = true ∧
      stored (passOver worker env (before ++ payment :: behind) world).2.payments payment.id =
        some (payment.moved next hash time) := by
  have hframe (others : List Payment) (seen : World σ ε) (hsub : others ⊆ before ++ behind) :
      stored (passOver worker env others seen).2.payments payment.id =
        stored seen.payments payment.id :=
    pass_over_frame (fun other hother heq => absurd heq (hothers other (hsub hother))) seen
  have hpast := hframe before world (List.subset_append_left _ _)
  rw [pass_over_append] at hclean ⊢
  rcases hrun : passOver worker env before world with ⟨_ | _, past⟩
  · rw [hrun] at hclean
    cases hclean
  · rw [hrun] at hclean hpast
    dsimp only at hclean hpast ⊢
    rw [pass_over_cons] at hclean ⊢
    have hcases := process_one_cases worker env payment past
    rcases hone : processOne worker env payment past with ⟨_ | _, after⟩
    · rw [hone] at hclean
      cases hclean
    · rw [hone] at hcases
      rcases hcases with
        ⟨-, hidle⟩ | ⟨-, -, source, next, hash, time, hsource, htransition, hafter⟩
      · exact absurd hdue (hidle rfl)
      · cases (hpast.trans hstored).symm.trans hsource
        refine ⟨next, hash, time, htransition, ?_⟩
        rw [hframe behind after (List.subset_append_right _ _), hafter, if_pos rfl]

end Loop

section Faults

variable {σ ε : Type} [Platform] [PaymentRepository σ] [WebhookEventRepository ε]

/-- Two passes over the same list that differ in the moments of the failing payments only. Without
failures the pass goes well; with them the first failing payment of the list, when its turn comes,
gets an error from the search, the lookup or the update. -/
structure FaultyPass (worker : ReconciliationWorker) (world : World σ ε)
    (env faulty : Option Uuid → Env) (failing : Uuid → Prop) (listed : List Payment) : Prop where
  listing : (answer (env none) .listPendingForReconciliation world).1 = .ok listed
  clean : (worker.runOnce.run answer env world).1 = .ok ()
  same_listing : faulty none = env none
  same_moments : ∀ id, ¬ failing id → faulty (some id) = env (some id)
  fails : ∀ before payment after, listed = before ++ payment :: after → failing payment.id →
    (∀ earlier ∈ before, ¬ failing earlier.id) →
    (processOne worker faulty payment (passOver worker faulty before world).2).1 ≠ .ok ()

/-- After both passes the payments that do not fail have the same status and the same hash. -/
def Unaffected (worker : ReconciliationWorker) (world : World σ ε) (env faulty : Option Uuid → Env)
    (failing : Uuid → Prop) : Prop :=
  ∀ id, ¬ failing id →
    (stored (worker.runOnce.run answer faulty world).2.payments id).map
        (fun payment => (payment.status, payment.stellarTxHash)) =
      (stored (worker.runOnce.run answer env world).2.payments id).map
        (fun payment => (payment.status, payment.stellarTxHash))

/-- There is nothing to write for the payments that are listed behind the first failing one and do
not fail themselves. -/
def NothingBehind (worker : ReconciliationWorker) (env : Option Uuid → Env) (failing : Uuid → Prop)
    (listed : List Payment) : Prop :=
  ∀ before first after, listed = before ++ first :: after → failing first.id →
    (∀ earlier ∈ before, ¬ failing earlier.id) →
    ∀ payment ∈ after, ¬ failing payment.id → ¬ Due worker (env (some payment.id)) payment

omit [Platform] in
/-- A list in which something fails has a first failing element. -/
theorem exists_first {α : Type} {property : α → Prop} {elements : List α}
    (h : ∃ element ∈ elements, property element) :
    ∃ before first after, elements = before ++ first :: after ∧ property first ∧
      ∀ earlier ∈ before, ¬ property earlier := by
  classical
  obtain ⟨element, hmem, helement⟩ := h
  have hsome : (elements.find? fun element => decide (property element)).isSome := by
    rw [List.find?_isSome]
    exact ⟨element, hmem, by simpa using helement⟩
  obtain ⟨first, hfirst⟩ := Option.isSome_iff_exists.mp hsome
  obtain ⟨hproperty, before, after, heq, hbefore⟩ := List.find?_eq_some_iff_append.mp hfirst
  exact ⟨before, first, after, heq, by simpa using hproperty, by simpa using hbefore⟩

variable [RepositoryLaws σ] {worker : ReconciliationWorker} {world : World σ ε}
  {env faulty : Option Uuid → Env} {failing : Uuid → Prop} {listed : List Payment}

/-- The pass with failures leaves the payments as they are when the first failing one has its
turn. -/
theorem FaultyPass.stops (h : FaultyPass worker world env faulty failing listed)
    {before after : List Payment} {first : Payment} (hlisted : listed = before ++ first :: after)
    (hfirst : failing first.id) (hbefore : ∀ earlier ∈ before, ¬ failing earlier.id) (id : Uuid) :
    stored (worker.runOnce.run answer faulty world).2.payments id =
      stored (passOver worker env before world).2.payments id := by
  -- Until the first failing payment has its turn both passes do the same.
  have hsame : passOver worker faulty before world = passOver worker env before world :=
    pass_over_congr (fun payment hpayment => h.same_moments _ (hbefore payment hpayment)) world
  have hfails := h.fails before first after hlisted hfirst hbefore
  rw [hsame] at hfails
  rw [run_once_eq (h.same_listing ▸ h.listing), hlisted, pass_over_append, hsame]
  rcases hpast : passOver worker env before world with ⟨_ | _, past⟩
  · rfl
  · rw [hpast] at hfails
    dsimp only
    rw [pass_over_cons]
    rcases process_one_cases worker faulty first past with
      ⟨hunchanged, _⟩ | ⟨_, hok, _⟩
    · rcases hone : processOne worker faulty first past with ⟨_ | _, stopped⟩
      · rw [hone] at hunchanged
        exact hunchanged id
      · rw [hone] at hfails
        exact absurd rfl hfails
    · exact absurd hok hfails

/-- The payments that do not fail are unaffected exactly when there was nothing to write for those
behind the first failing one. -/
theorem FaultyPass.unaffected_iff (h : FaultyPass worker world env faulty failing listed) :
    Unaffected worker world env faulty failing ↔ NothingBehind worker env failing listed := by
  obtain ⟨hnodup, -, hmem⟩ := answer_listing h.listing
  constructor
  · intro hunaffected before first after hlisted hfirst hbefore payment hpayment hsound hdue
    obtain ⟨between, behind, rfl⟩ := List.append_of_mem hpayment
    have hsplit : listed = (before ++ first :: between) ++ payment :: behind := by
      simpa using hlisted
    have hothers : ∀ other ∈ (before ++ first :: between) ++ behind, other.id ≠ payment.id := by
      rw [hsplit, List.map_append, List.map_cons, List.nodup_middle, List.nodup_cons,
        ← List.map_append] at hnodup
      exact fun other hother heq => hnodup.1 (heq ▸ List.mem_map_of_mem hother)
    have hstored : stored world.payments payment.id = some payment :=
      ((hmem payment).mp (by simp [hsplit])).1
    have hkept : stored (passOver worker env before world).2.payments payment.id =
        stored world.payments payment.id :=
      pass_over_frame (fun other hother heq =>
        absurd heq (hothers other (by simp [hother]))) world
    have hclean := h.clean
    rw [run_once_eq h.listing, hsplit] at hclean
    obtain ⟨next, hash, time, htransition, hmoved⟩ := pass_over_moves hclean hothers hstored hdue
    -- The pass with failures stops before the payment, and the other one writes it.
    have hequal := hunaffected payment.id hsound
    rw [h.stops hlisted hfirst hbefore, hkept, hstored, run_once_eq h.listing, hsplit,
      hmoved] at hequal
    -- The write moved the status along the state machine, so it is another one.
    have hsame : payment.status = next := congrArg Prod.fst (Option.some.inj hequal)
    have hrank := PaymentStatus.rank_lt_of_canTransitionTo htransition
    rw [hsame] at hrank
    exact Nat.lt_irrefl _ hrank
  · intro hnothing id hid
    by_cases hany : ∃ payment ∈ listed, failing payment.id
    · obtain ⟨before, first, after, hlisted, hfirst, hbefore⟩ := exists_first hany
      rw [h.stops hlisted hfirst hbefore, run_once_eq h.listing, hlisted, pass_over_append]
      rcases hpast : passOver worker env before world with ⟨_ | _, past⟩
      · rfl
      · dsimp only
        rw [pass_over_frame]
        intro payment hpayment heq
        rcases List.mem_cons.mp hpayment with rfl | hpayment
        · exact absurd (heq ▸ hfirst) hid
        · exact hnothing before first after hlisted hfirst hbefore payment hpayment (heq ▸ hid)
    · have hsame : passOver worker faulty listed world = passOver worker env listed world :=
        pass_over_congr (fun payment hpayment => h.same_moments _
          fun hfailing => hany ⟨payment, hpayment, hfailing⟩) world
      rw [run_once_eq h.listing, run_once_eq (h.same_listing ▸ h.listing), hsame]

end Faults

section Backends

variable [Platform]

/-- On either backend, failing payments leave the others unaffected exactly when there was nothing
to write for those listed behind the first failing one. -/
theorem pass_isolation (backend : Backend) {worker : ReconciliationWorker}
    {world : World backend.Payments backend.Events} {env faulty : Option Uuid → Env}
    {failing : Uuid → Prop} {listed : List Payment}
    (h : FaultyPass worker world env faulty failing listed) :
    Unaffected worker world env faulty failing ↔ NothingBehind worker env failing listed :=
  h.unaffected_iff

end Backends

section Run

attribute [local instance] Plain.platform

open Plain

/-- Two pending payments. -/
def twoPending : List Payment :=
  [pending 7 "10" "order-1" 5000, pending 9 "20" "order-2" 6000]

/-- Moments at which Horizon shows these records for the second payment, and nothing for the
first. -/
def moments (records : List HorizonPaymentRecord) (span : Option Uuid) : Env :=
  if span = some 9 then envWith 7000 1 records "m" else Plain.env 7000 1

/-- The same moments, but Horizon is down when the first payment is searched. -/
def faultyMoments (records : List HorizonPaymentRecord) (span : Option Uuid) : Env :=
  if span = some 7 then
    { Plain.env 7000 1 with horizon := { horizon with payments := fun _ => .error .notFound } }
  else moments records span

/-- The search for the first of two payments fails. -/
theorem first_search_fails (records : List HorizonPaymentRecord)
    (hclean : (worker.runOnce.run answer (moments records) (holding twoPending)).1 = .ok ()) :
    FaultyPass worker (holding twoPending) (moments records) (faultyMoments records) (· = 7)
      twoPending := by
  refine ⟨rfl, hclean, rfl, fun id hid => ?_, ?_⟩
  · exact if_neg fun heq => hid (Option.some.inj heq)
  · rintro (_ | ⟨head, before⟩) payment after heq hpayment hbefore
    · obtain ⟨rfl, -⟩ := List.cons.inj heq
      have hfailed : (processOne worker (faultyMoments records) (pending 7 "10" "order-1" 5000)
          (holding twoPending)).1 = .error (.stellar .notFound) := rfl
      exact fun hok => nomatch hfailed.symm.trans hok
    · obtain ⟨rfl, -⟩ := List.cons.inj heq
      exact absurd rfl (hbefore _ List.mem_cons_self)

/-- If there is nothing on the page for the second payment, it is unaffected. -/
theorem pass_isolation_nothing_behind :
    Unaffected worker (holding twoPending) (moments []) (faultyMoments []) (· = 7) := by
  refine (pass_isolation .postgres (first_search_fails [] rfl)).mpr ?_
  rintro (_ | ⟨head, before⟩) first after heq hfirst hbefore payment hpayment - hdue
  · obtain ⟨rfl, rfl⟩ := List.cons.inj heq
    obtain rfl := List.mem_singleton.mp hpayment
    obtain ⟨next, hash, hplan⟩ := due_iff.mp hdue
    have hnothing : worker.plan (moments [] (some 9)) (pending 9 "20" "order-2" 6000) = .ok none :=
      rfl
    cases hnothing.symm.trans hplan
  · obtain ⟨rfl, -⟩ := List.cons.inj heq
    exact absurd rfl (hbefore _ List.mem_cons_self)

/-- The second payment is on the page, but it is not detected because the search for the first one
fails. -/
theorem first_failure_hides_second : ∃ records : List HorizonPaymentRecord,
    FaultyPass worker (holding twoPending) (moments records) (faultyMoments records) (· = 7)
      twoPending ∧
    ¬ Unaffected worker (holding twoPending) (moments records) (faultyMoments records) (· = 7) := by
  refine ⟨[native "tx" "GDEST" "20" 6500], first_search_fails _ rfl, fun h => ?_⟩
  have hequal := h 9 (by decide)
  revert hequal
  decide

end Run

end StellarPay
