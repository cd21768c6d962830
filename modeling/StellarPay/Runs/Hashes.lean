import StellarPay.Runs.Provenance

/-!
# One ledger transaction, one payment

The production schema declares `stellar_tx_hash` unique. `InMemoryPaymentRepository` does not look
at the hashes of the other payments, so two payments with one memo and one amount are both credited
with one transfer. Hashes stay distinct exactly as long as no update brings one that is in use.
-/

namespace StellarPay

open Interleaving

section Steps

variable {σ ε : Type} [PaymentRepository σ] [WebhookEventRepository ε]

/-- Distinct payments hold distinct hashes. -/
def HashesUnique (world : World σ ε) : Prop :=
  ∀ first second payment other hash, stored world.payments first = some payment →
    stored world.payments second = some other → payment.stellarTxHash = some hash →
    other.stellarTxHash = some hash → first = second

/-- The request is an update that goes through and brings a hash that another payment holds. -/
def Reuses (env : Env) : Request → World σ ε → Prop
  | .guardedUpdate id next (some hash), world => env.paymentsFault = none ∧
      (∃ payment, stored world.payments id = some payment ∧
        payment.status.canTransitionTo next = true) ∧
      ∃ other holder, stored world.payments other = some holder ∧ other ≠ id ∧
        holder.stellarTxHash = some hash
  | _, _ => False

variable [RepositoryLaws σ]

/-- The request is an update of this payment that goes through and brings this hash. -/
def Brings (env : Env) (request : Request) (world : World σ ε) (id : Uuid) (hash : String) : Prop :=
  ∃ next payment, request = .guardedUpdate id next (some hash) ∧ env.paymentsFault = none ∧
    stored world.payments id = some payment ∧ payment.status.canTransitionTo next = true

/-- A payment that holds a hash after a disciplined request held it before, or was given it. -/
theorem hash_before_or_brings {env : Env} {request : Request} {world : World σ ε} {id : Uuid}
    {payment : Payment} {hash : String} (hdisciplined : request.Disciplined)
    (hstored : stored (answer env request world).2.payments id = some payment)
    (hhash : payment.stellarTxHash = some hash) :
    (∃ earlier, stored world.payments id = some earlier ∧ earlier.stellarTxHash = some hash) ∨
      Brings env request world id hash := by
  rcases answer_cases env request world id with
    hsame | ⟨asked, key, created, rfl, -, -, hcreated, hafter, -⟩ |
    ⟨source, next, text, time, rfl, hsource, htransition, hafter, hok⟩
  · exact .inl ⟨payment, hsame.symm.trans hstored, hhash⟩
  · cases hafter.symm.trans hstored
    rw [hcreated, hdisciplined.2] at hhash
    cases hhash
  · cases hafter.symm.trans hstored
    cases text with
    | none => exact .inl ⟨source, hsource, hhash⟩
    | some text =>
        cases hhash
        have hworks := ((answer_update_ok_iff hsource htransition).mp ⟨_, hok⟩).1
        exact .inr ⟨next, source, rfl, hworks, hsource, htransition⟩

/-- Where every hash is accepted, a disciplined request keeps the hashes distinct exactly when it
does not bring one that is in use. -/
theorem answer_hashes_unique_iff {env : Env} {request : Request} {world : World σ ε}
    (haccepts : ∀ id hash, RepositoryLaws.accepts world.payments id hash)
    (hdisciplined : request.Disciplined) (hunique : HashesUnique world) :
    HashesUnique (answer env request world).2 ↔ ¬ Reuses env request world := by
  constructor
  · intro hafter hreuses
    unfold Reuses at hreuses
    split at hreuses
    · rename_i id next hash
      obtain ⟨hworks, ⟨payment, hpayment, htransition⟩, other, holder, hholder, hne, hheld⟩ :=
        hreuses
      obtain ⟨updated, hok⟩ :=
        (answer_update_ok_iff hpayment htransition).mpr ⟨hworks, haccepts id (some hash)⟩
      rcases answer_update env id next (some hash) world with
        ⟨source, time, after, hanswer, -, -, hstored⟩ | ⟨-, hnone⟩
      · refine hne (hafter other id holder (source.moved next (some hash) time) hash ?_ ?_ hheld
          rfl)
        · rw [hanswer, hstored, if_neg hne, hholder]
        · rw [hanswer, hstored, if_pos rfl]
      · exact hnone updated hok
    · exact hreuses
  · intro hkept first second payment other hash hpayment hother hhash hhash'
    by_contra hne
    rcases hash_before_or_brings hdisciplined hpayment hhash with ⟨old, hold, hheld⟩ | hbrings <;>
      rcases hash_before_or_brings hdisciplined hother hhash' with ⟨old', hold', hheld'⟩ | hbrings'
    · exact hne (hunique first second old old' hash hold hold' hheld hheld')
    · obtain ⟨next, source, rfl, hworks, hsource, htransition⟩ := hbrings'
      exact hkept ⟨hworks, ⟨source, hsource, htransition⟩, first, old, hold, hne, hheld⟩
    · obtain ⟨next, source, rfl, hworks, hsource, htransition⟩ := hbrings
      exact hkept ⟨hworks, ⟨source, hsource, htransition⟩, second, old', hold', Ne.symm hne, hheld'⟩
    · obtain ⟨next, source, rfl, -⟩ := hbrings
      obtain ⟨next', source', heq, -⟩ := hbrings'
      cases heq
      exact hne rfl

end Steps

section InMemory

variable [Platform]

/-- In memory, in every run of creations and passes from an empty store: distinct payments hold
distinct hashes in every state of the run exactly when no update of the run brings a hash that
another payment holds. -/
theorem hashes_unique_iff {events : InMemoryEvents}
    {state : State (machine InMemoryState InMemoryEvents)}
    (hreach : Reachable (reconciliationRules InMemoryState InMemoryEvents)
      ⟨InMemoryState.new, events⟩ state) :
    (∀ world ∈ worlds (M := machine InMemoryState InMemoryEvents) ⟨InMemoryState.new, events⟩
        state.config.trace, HashesUnique world) ↔
      ∀ act, .act act ∈ state.config.trace → ¬ Reuses act.env act.request act.before := by
  have hservice := reconciliation_service hreach
  have hstep : ∀ act, .act act ∈ state.config.trace → HashesUnique act.before →
      (HashesUnique act.after ↔ ¬ Reuses act.env act.request act.before) := by
    intro act hact hbefore
    obtain ⟨t, -, hdirect, hallows, -⟩ := act_allowed hservice hact
    exact answer_hashes_unique_iff (fun _ _ => trivial) (hallows.disciplined hdirect) hbefore
  have hfirst :
      HashesUnique (⟨InMemoryState.new, events⟩ : World InMemoryState InMemoryEvents) := by
    intro first second payment other hash hpayment
    cases hpayment
  constructor
  · intro hworlds act hact
    have hafter : ∀ event ∈ state.config.trace, HashesUnique event.after := fun event hevent =>
      hworlds _ (List.mem_cons_of_mem _ (List.mem_map_of_mem hevent))
    have hbefore := hreach.linked.keeps_before HashesUnique
      (fun event hevent _ => hafter event hevent) hfirst _ hact
    exact (hstep act hact hbefore).mp (hafter _ hact)
  · intro hkept world hworld
    have hevent : ∀ event ∈ state.config.trace, HashesUnique event.before →
        HashesUnique event.after := by
      intro event hevent hbefore
      cases event with
      | start => exact hbefore
      | act act => exact (hstep act hevent hbefore).mpr (hkept act hevent)
    rcases List.mem_cons.mp hworld with rfl | hworld
    · exact hfirst
    · obtain ⟨event, hmem, rfl⟩ := List.mem_map.mp hworld
      exact hevent event hmem (hreach.linked.keeps_before HashesUnique hevent hfirst event hmem)

end InMemory

section Run

attribute [local instance] Plain.platform

open Plain

/-- Two payments of ten units with one memo, and a pass that finds one transfer with it. -/
def sharedTransfer : List (Choice (machine InMemoryState InMemoryEvents)) :=
  let found := envWith 6000 9 [native "tx" "GDEST" "10.0" 5500] "m"
  [.start (create "10" "order-1" none), .act 0 (env 5000 7), .act 0 (env 5000 7),
    .act 0 (env 5000 7), .start (create "10" "order-2" none), .act 1 (env 5000 8),
    .act 1 (env 5000 8), .act 1 (env 5000 8), .start (.runOnce worker), .act 2 found, .act 2 found,
    .act 2 found, .act 2 found, .act 2 found, .act 2 found, .act 2 found, .act 2 found,
    .act 2 found, .act 2 found, .act 2 found]

/-- Some update of `sharedTransfer` brings a hash that is in use. -/
theorem hashes_unique_iff_shared : ∃ state : State (machine InMemoryState InMemoryEvents),
    (stored state.config.world.payments 7).bind Payment.stellarTxHash = some "tx" ∧
    ∃ act, .act act ∈ state.config.trace ∧ Reuses act.env act.request act.before := by
  obtain ⟨state, hreach, htest⟩ := exists_reachable
    (reconciliationRules InMemoryState InMemoryEvents) sharedTransfer
    ⟨InMemoryState.new, InMemoryEvents.new⟩ (fun state =>
      (stored state.config.world.payments 7).bind Payment.stellarTxHash == some "tx" &&
        (stored state.config.world.payments 8).bind Payment.stellarTxHash == some "tx")
    (by decide)
  simp only [Bool.and_eq_true, beq_iff_eq] at htest
  refine ⟨state, htest.1, ?_⟩
  by_contra hnone
  have hunique := (hashes_unique_iff hreach).mpr (fun act hact hreuses =>
    hnone ⟨act, hact, hreuses⟩) _ hreach.linked.last_mem
  obtain ⟨first, hfirst, hhash⟩ := Option.bind_eq_some_iff.mp htest.1
  obtain ⟨second, hsecond, hhash'⟩ := Option.bind_eq_some_iff.mp htest.2
  exact absurd (hunique 7 8 first second "tx" hfirst hsecond hhash hhash') (by decide)

/-- Both payments of `sharedTransfer` hold the hash of the one transfer. -/
theorem shared_transfer_hash : ∃ state : State (machine InMemoryState InMemoryEvents),
    Reachable (reconciliationRules InMemoryState InMemoryEvents)
      ⟨InMemoryState.new, InMemoryEvents.new⟩ state ∧
    (stored state.config.world.payments 7).bind Payment.stellarTxHash = some "tx" ∧
    (stored state.config.world.payments 8).bind Payment.stellarTxHash = some "tx" := by
  obtain ⟨state, hreach, htest⟩ := exists_reachable
    (reconciliationRules InMemoryState InMemoryEvents) sharedTransfer
    ⟨InMemoryState.new, InMemoryEvents.new⟩ (fun state =>
      (stored state.config.world.payments 7).bind Payment.stellarTxHash == some "tx" &&
        (stored state.config.world.payments 8).bind Payment.stellarTxHash == some "tx")
    (by decide)
  simp only [Bool.and_eq_true, beq_iff_eq] at htest
  exact ⟨state, hreach, htest.1, htest.2⟩

end Run

end StellarPay
