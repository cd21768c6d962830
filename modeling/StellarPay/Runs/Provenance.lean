import StellarPay.Reconciliation.Plan
import StellarPay.Runs.Lifecycle
import StellarPay.Runs.Pass

/-!
# Where settled payments come from

When only the reconciliation passes move payments, a payment that is detected, confirmed or failed
has its `Sighting` in the history: a pass whose clock showed the payment young enough, and the page
on which it then found the transfer. The passes act on old snapshots, so the proof follows a payment
from the listing of a pass to the search and to the commit.
-/

namespace StellarPay

open Interleaving

/-- A transition that is not made by the worker. -/
def Call.manual : Call → Bool
  | .markDetected _ _ | .confirmPayment _ | .failPayment _ | .expirePayment _
  | .updateStatus _ _ _ => true
  | _ => false

section Sightings

variable {σ ε : Type} [Platform] [PaymentRepository σ] [WebhookEventRepository ε]

/-- A processing step of a pass that found a transfer for `payment`. -/
structure Sighting (config : Config (machine σ ε)) (payment : Payment) where
  worker : ReconciliationWorker
  clock : Act (machine σ ε)
  find : Act (machine σ ε)
  memo : String
  records : List HorizonPaymentRecord
  record : HorizonPaymentRecord
  amount : String
  /-- The thread runs a pass of the worker. -/
  started : ∃ before, .start find.thread (.runOnce worker) before ∈ config.trace
  /-- The search comes right after the reading of the clock. -/
  steps : [.act clock, .act find] <:+: config.own find.thread
  /-- Both are made for this payment. -/
  span : clock.span = some payment.id ∧ find.span = some payment.id
  /-- The clock shows the payment younger than the expiry window. -/
  young : clock.request = .utcNow ∧ clock.env.now - payment.createdAt < worker.expiry
  /-- The payment was stored with the same terms when the search was made. -/
  present : ∃ current, stored find.before.payments payment.id = some current ∧
    current.SameTerms payment
  memo_eq : payment.memo = some memo
  request : find.request = .findPayment payment.destination memo payment.createdAt
  page : find.env.horizon.payments payment.destination = .ok records
  /-- The search stopped at the record: a payment to the destination, not older than the payment,
  whose transaction carries the memo. -/
  hit : find.env.horizon.FirstHit payment.destination memo payment.createdAt records record
  amount_eq : record.amount = some amount
  equal : NumericallyEqual payment.amount amount

/-- The transaction was looked up, with this outcome. -/
def LookedUp (config : Config (machine σ ε)) (hash : String) (successful : Bool) : Prop :=
  ∃ act transaction, .act act ∈ config.trace ∧ act.Got (.getTransaction hash) (.ok transaction) ∧
    transaction.successful = successful

/-- A sighting stays one, also of a later record of the payment. -/
def Sighting.mono {config later : Config (machine σ ε)} {payment current : Payment}
    (sighting : Sighting config payment) (hgrows : config.trace <+: later.trace)
    (hterms : payment.SameTerms current) : Sighting later current where
  worker := sighting.worker
  clock := sighting.clock
  find := sighting.find
  memo := sighting.memo
  records := sighting.records
  record := sighting.record
  amount := sighting.amount
  started := by
    obtain ⟨before, hstart⟩ := sighting.started
    exact ⟨before, hgrows.subset hstart⟩
  steps := sighting.steps.trans (Config.own_mono hgrows _).isInfix
  span := by
    rw [hterms.id]
    exact sighting.span
  young := by
    rw [hterms.createdAt]
    exact sighting.young
  present := by
    obtain ⟨found, hfound, hsame⟩ := sighting.present
    rw [hterms.id]
    exact ⟨found, hfound, hsame.trans hterms⟩
  memo_eq := hterms.memo.trans sighting.memo_eq
  request := by
    rw [hterms.destination, hterms.createdAt]
    exact sighting.request
  page := by
    rw [hterms.destination]
    exact sighting.page
  hit := by
    rw [hterms.destination, hterms.createdAt]
    exact sighting.hit
  amount_eq := sighting.amount_eq
  equal := by
    rw [hterms.amount]
    exact sighting.equal

theorem LookedUp.mono {config later : Config (machine σ ε)} {hash : String} {successful : Bool}
    (h : LookedUp config hash successful) (hgrows : config.trace <+: later.trace) :
    LookedUp later hash successful := by
  obtain ⟨act, transaction, hact, hfacts⟩ := h
  exact ⟨act, transaction, hgrows.subset hact, hfacts⟩

/-- What the history holds about a payment that is detected, confirmed or failed. -/
def Accounted (config : Config (machine σ ε)) (payment : Payment) : Prop :=
  ∃ sighting : Sighting config payment,
    payment.stellarTxHash = some sighting.record.transactionHash ∧
    (payment.status = .confirmed → LookedUp config sighting.record.transactionHash true) ∧
    (payment.status = .failed → LookedUp config sighting.record.transactionHash false)

/-- A payment that is accounted for stays so when only the history grows. -/
theorem Accounted.mono {config later : Config (machine σ ε)} {payment : Payment}
    (h : Accounted config payment) (hgrows : config.trace <+: later.trace) :
    Accounted later payment := by
  obtain ⟨sighting, hhash, hconfirmed, hfailed⟩ := h
  exact ⟨sighting.mono hgrows (.refl payment), hhash,
    fun hstatus => (hconfirmed hstatus).mono hgrows,
    fun hstatus => (hfailed hstatus).mono hgrows⟩

/-- A sighting accounts for the detection that keeps its hash. -/
theorem Sighting.accounted {config : Config (machine σ ε)} {payment : Payment} {hash : String}
    (sighting : Sighting config payment) (hhash : hash = sighting.record.transactionHash)
    (time : DateTime) : Accounted config (payment.moved .detected (some hash) time) := by
  refine ⟨sighting.mono (List.prefix_refl _) (payment.moved_same_terms _ _ time),
    congrArg some hhash, fun hstatus => ?_, fun hstatus => ?_⟩
  · cases hstatus
  · cases hstatus

/-- The outcome of a lookup accounts for the move of a payment that was accounted for. -/
theorem Accounted.verified {config : Config (machine σ ε)} {payment : Payment} {hash : String}
    {lookup : Act (machine σ ε)} {transaction : StellarTransaction} (h : Accounted config payment)
    (hhash : payment.stellarTxHash = some hash) (hlookup : .act lookup ∈ config.trace)
    (hgot : lookup.Got (.getTransaction hash) (.ok transaction)) (time : DateTime) :
    Accounted config
      (payment.moved (if transaction.successful then .confirmed else .failed) none time) := by
  obtain ⟨sighting, hsight, -⟩ := h
  have hrecord : sighting.record.transactionHash = hash := by
    rw [hhash] at hsight
    exact (Option.some.inj hsight).symm
  have hlooked : LookedUp config sighting.record.transactionHash transaction.successful :=
    ⟨lookup, transaction, hlookup, hrecord ▸ hgot, rfl⟩
  refine ⟨sighting.mono (List.prefix_refl _) (payment.moved_same_terms _ _ time), hsight,
    fun hstatus => ?_, fun hstatus => ?_⟩
  · have hsuccessful : transaction.successful = true := by
      by_contra hnot
      simp [Payment.moved, hnot] at hstatus
    exact hsuccessful ▸ hlooked
  · have hunsuccessful : transaction.successful = false := by
      by_contra hnot
      simp [Payment.moved, hnot] at hstatus
    exact hunsuccessful ▸ hlooked

end Sightings

section Runs

variable {σ ε : Type} [Platform] [PaymentRepository σ] [WebhookEventRepository ε]

variable (σ ε) in
/-- Every call that leaves the transitions to the worker, with generated identifiers fresh. -/
def reconciliationRules : Rules (machine σ ε) :=
  ⟨fun call => call.manual = false, fun _ _ request world => FreshId request world⟩

instance (call : Call) : Decidable ((reconciliationRules σ ε).admits call) :=
  inferInstanceAs (Decidable (call.manual = false))

instance (env : Env) (span : Option Uuid) (request : Request) (world : World σ ε) :
    Decidable ((reconciliationRules σ ε).permits env span request world) :=
  inferInstanceAs (Decidable (FreshId request world))

variable {world : World σ ε} {state : State (machine σ ε)}

/-- Such a run is a run of the services. -/
theorem reconciliation_service (hreach : Reachable (reconciliationRules σ ε) world state) :
    Reachable (serviceRules σ ε) world state := by
  have hadmits : ∀ call : Call, call.manual = false → call.direct = false := by
    intro call hmanual
    cases call <;> first | rfl | cases hmanual
  refine Reachable.mono ?_ ?_ hreach
  · exact hadmits
  · exact fun _ _ _ _ hfresh => hfresh

variable [RepositoryLaws σ]

/-- In such a run only a pass commits a transition, and for a reason that it has seen. -/
theorem commit_explained (hreach : Reachable (reconciliationRules σ ε) world state) {act : Act _}
    {before after : List (Event (machine σ ε))} {id : Uuid} {next : PaymentStatus}
    {hash : Option String} {updated : Payment}
    (hown : state.config.own act.thread = before ++ .act act :: after)
    (hcommit : act.Got (.guardedUpdate id next hash) (.ok (some updated))) :
    ∃ worker first history, before = .start act.thread (.runOnce worker) first :: history ∧
      Explained worker history id next hash := by
  have hact : .act act ∈ state.config.trace :=
    Config.mem_of_own (hown ▸ List.mem_append_right _ List.mem_cons_self)
  obtain ⟨t, ht, hmanual, hallows, -⟩ := act_allowed hreach hact
  rw [hcommit.1] at hallows
  -- Of the calls that are not made by hand, only a pass updates.
  obtain ⟨worker, hcall⟩ : ∃ worker, t.call = .runOnce worker := by
    change t.call.manual = false at hmanual
    cases hcall : t.call with
    | runOnce worker => exact ⟨worker, rfl⟩
    | markDetected | confirmPayment | failPayment | expirePayment | updateStatus =>
        simp [hcall, Call.manual] at hmanual
    | _ =>
        simp [hcall, Call.Allows, Request.OfCreation, Request.OfReading, Request.OfDelivery]
          at hallows
  obtain ⟨first, history, stage, later, hbefore, -, hmove⟩ := pass_event hreach hown ht hcall
  obtain ⟨_, _, other, id', next', hash', hevent, hrequest, hexplained⟩ :=
    hmove.of_committed (committed_of_got hcommit)
  cases hevent
  cases hcommit.1.symm.trans hrequest
  exact ⟨worker, first, history, hbefore, hexplained⟩

/-- A payment that a pass has listed is still there when the pass makes a later request, and has
only advanced. -/
theorem snapshot_advances (hreach : Reachable (reconciliationRules σ ε) world state)
    (hworld : ∀ id, ∀ payment ∈ stored world.payments id, payment.Coupled) {thread : Nat}
    {before after : List (Event (machine σ ε))} {event : Event (machine σ ε)}
    (hown : state.config.own thread = before ++ event :: after) {snapshot : Payment}
    (hsnapshot : Snapshot before snapshot) :
    ∃ current, stored event.before.payments snapshot.id = some current ∧
      snapshot.Advances current := by
  have hservice := reconciliation_service hreach
  obtain ⟨listing, hlisting, hstored⟩ := hsnapshot
  have hmem : .act listing ∈ state.config.trace :=
    Config.mem_of_own (hown ▸ List.mem_append_left _ hlisting)
  have hlater := hservice.own_relates Progresses .refl .trans (event_progresses hservice) hown
    hlisting (List.mem_cons_self : event ∈ event :: after)
  have hprogress := (event_progresses hservice _ hmem).trans hlater
  obtain ⟨current, hcurrent, -, hadvances⟩ := hprogress _ _ hstored
    (coupled_before hservice hworld _ hmem _ _ hstored)
  exact ⟨current, hcurrent, hadvances⟩

/-- The reason for a detection is a sighting. -/
theorem sighting_of_detected (hreach : Reachable (reconciliationRules σ ε) world state)
    (hworld : ∀ id, ∀ payment ∈ stored world.payments id, payment.Coupled) {thread : Nat}
    {worker : ReconciliationWorker} {first : World σ ε} {before after : List (Event (machine σ ε))}
    {clock find : Act (machine σ ε)} {snapshot : Payment} {memo : String} {found : StellarPayment}
    (hown : state.config.own thread = before ++ [.act clock, .act find] ++ after)
    (hstart : .start thread (.runOnce worker) first ∈ before) (hsnapshot : Snapshot before snapshot)
    (hclock : clock.span = some snapshot.id ∧ clock.request = .utcNow ∧
      clock.env.now - snapshot.createdAt < worker.expiry)
    (hmemo : snapshot.memo = some memo) (hspan : find.span = some snapshot.id)
    (hfind : find.Got (.findPayment snapshot.destination memo snapshot.createdAt)
      (.ok (some found)))
    (hamount : amountsMatch snapshot.amount found.amount = true) :
    ∃ sighting : Sighting state.config snapshot,
      found.transactionHash = sighting.record.transactionHash := by
  have hmem : ∀ event, event ∈ before ++ [.act clock, .act find] →
      event ∈ state.config.trace ∧ event.thread = thread := by
    intro event hevent
    exact Config.mem_own.mp (hown ▸ List.mem_append_left _ hevent)
  have hthread : find.thread = thread := (hmem (.act find) (by simp)).2
  have hfound : state.config.own thread = (before ++ [.act clock]) ++ .act find :: after := by
    simpa using hown
  obtain ⟨current, hcurrent, hadvances⟩ := snapshot_advances hreach hworld hfound
    (hsnapshot.mono (List.subset_append_left _ _))
  obtain ⟨record, ⟨text, records, amount, htext, hrecords, hhit, hrecord, hequal⟩, hhash⟩ :=
    matched_iff.mpr ⟨memo, found, hmemo, hfind.2, hamount, rfl⟩
  cases hmemo.symm.trans htext
  refine ⟨⟨worker, clock, find, memo, records, record, amount, ⟨first, ?_⟩, ?_, ⟨hclock.1, hspan⟩,
    hclock.2, ⟨current, hcurrent, hadvances.terms.symm⟩, hmemo, hfind.1, hrecords, hhit, hrecord,
    hequal⟩, hhash.symm⟩
  · rw [hthread]
    exact (hmem _ (List.mem_append_left _ hstart)).1
  · rw [hthread, hown]
    exact ⟨before, after, rfl⟩

/-- A commit that settles a payment accounts for it, if the payment was accounted for before in
case it was settled already. -/
theorem accounted_of_commit (hreach : Reachable (reconciliationRules σ ε) world state)
    (hworld : ∀ id, ∀ payment ∈ stored world.payments id, payment.Coupled)
    {act : Act (machine σ ε)} {before : List (Event (machine σ ε))} {id : Uuid}
    {target : PaymentStatus} {hash : Option String} {source : Payment} {time : DateTime}
    (hown : state.config.own act.thread = before ++ [.act act])
    (hcommit : act.Got (.guardedUpdate id target hash) (.ok (some (source.moved target hash time))))
    (hsource : stored act.before.payments id = some source)
    (htransition : source.status.canTransitionTo target = true)
    (haccounted : source.status.settled = true → Accounted state.config source)
    (hsettled : target.settled = true) :
    Accounted state.config (source.moved target hash time) := by
  obtain ⟨worker, first, history, rfl, hexplained⟩ := commit_explained hreach hown hcommit
  -- The pass acts on the record it listed, which the stored one has only advanced from.
  have hadvances (snapshot : Payment) (hid : snapshot.id = id)
      (hsnapshot : Snapshot history snapshot) : snapshot.Advances source := by
    obtain ⟨current, hcurrent, hadvances⟩ := snapshot_advances hreach hworld hown
      (hsnapshot.mono (List.subset_cons_self _ _))
    rw [hid] at hcurrent
    cases hcurrent.symm.trans hsource
    exact hadvances
  cases hexplained with
  | expired => cases hsettled
  | detected snapshot earlier clock find memo found hsnapshot hsteps hclock hmemo hspan hfind
      hamount =>
      subst hsteps
      rw [← List.cons_append] at hown
      obtain ⟨sighting, hhash⟩ := sighting_of_detected hreach hworld hown List.mem_cons_self
        (hsnapshot.mono (List.subset_cons_self _ _)) hclock hmemo hspan hfind hamount
      have hpast := hadvances snapshot rfl (hsnapshot.mono (List.subset_append_left _ _))
      exact (sighting.mono (List.prefix_refl _) hpast.terms).accounted hhash time
  | verified snapshot lookup hash transaction hsnapshot hhash hlookup hgot =>
      have hdetected : source.status = .detected := by
        revert htransition
        cases transaction.successful <;> cases source.status <;>
          simp [PaymentStatus.canTransitionTo]
      have hsourced : Accounted state.config source := haccounted (by rw [hdetected]; rfl)
      -- The hash that was looked up is still the one that the stored record has.
      have hcurrent := (hadvances snapshot rfl hsnapshot).hash hash hhash
      have hmem : .act lookup ∈ state.config.trace :=
        Config.mem_of_own (hown ▸ List.mem_append_left _ (List.mem_cons_of_mem _ hlookup))
      exact hsourced.verified hcurrent hmem hgot time

/-- In every such run from stores without payments, every settled payment is accounted for. -/
theorem accounted_of_reachable (hreach : Reachable (reconciliationRules σ ε) world state)
    (hempty : ∀ id, stored world.payments id = none) {id : Uuid} {payment : Payment}
    (hstored : stored state.config.world.payments id = some payment)
    (hsettled : payment.status.settled = true) : Accounted state.config payment := by
  have hworld : ∀ id, ∀ payment ∈ stored world.payments id, payment.Coupled := by
    simp [hempty]
  induction hreach generalizing id payment with
  | init => simp [State.init, hempty] at hstored
  | @step state next hbefore hstep ih =>
      have hreach := hbefore.step hstep
      cases hstep with
      | start call hadmits => exact (ih hstored hsettled).mono (List.prefix_append _ _)
      | act thread call span request rest env hthread hpermits =>
          have hgrows : state.config.trace <+: (state.config.act thread span request env).trace :=
            List.prefix_append _ _
          rcases answer_cases env request state.config.world id with
            hsame | ⟨new, key, created, rfl, -, hstatus, -, hcreated, -⟩ |
            ⟨source, target, hash, time, rfl, hsource, htransition, hmoved, hanswer⟩
          · exact (ih (hsame.symm.trans hstored) hsettled).mono hgrows
          · -- A new payment is pending, so it is not settled.
            obtain ⟨t, -, hmanual, hallows, -⟩ := act_allowed (reconciliation_service hreach)
              (state.config.act_mem thread span (.createWithIdempotencyKey new key) env)
            have hpending := (hallows.disciplined hmanual).1
            cases hcreated.symm.trans hstored
            rw [hstatus, hpending] at hsettled
            cases hsettled
          · cases hmoved.symm.trans hstored
            let act : Act (machine σ ε) :=
              ⟨thread, span, .guardedUpdate id target hash, env, state.config.world⟩
            have hcommit : act.Got (.guardedUpdate id target hash)
                (.ok (some (source.moved target hash time))) := ⟨rfl, hanswer⟩
            exact accounted_of_commit hreach hworld (state.config.own_act_self thread span _ env)
              hcommit hsource htransition (fun hsourced => (ih hsource hsourced).mono hgrows)
              hsettled

end Runs

section Backends

variable [Platform]

/-- On either backend, in every run of creations and passes from empty stores, a payment that is
detected, confirmed or failed has its sighting, and its transaction was looked up if it is confirmed
or failed. -/
theorem settlement_provenance (backend : Backend) {state : State backend.machine}
    (hreach : Reachable (reconciliationRules backend.Payments backend.Events) backend.empty state)
    {id : Uuid} {payment : Payment}
    (hstored : stored state.config.world.payments id = some payment)
    (hstatus : payment.status = .detected ∨ payment.status = .confirmed ∨
      payment.status = .failed) : Accounted state.config payment := by
  refine accounted_of_reachable hreach backend.stored_empty hstored ?_
  rcases hstatus with h | h | h <;> rw [h] <;> rfl

end Backends

section Run

attribute [local instance] Plain.platform

open Plain

/-- A payment is created, one pass finds it on the ledger, and another one confirms it. -/
def confirmationRun : List (Choice Backend.postgres.machine) :=
  detectionRun ++ [.start (.runOnce worker), .act 2 (env 7000 8),
    .act 2 (envWith 7000 8 [] "m"), .act 2 (env 7000 8)]

/-- The payment of `confirmationRun` is confirmed and accounted for. -/
theorem settlement_provenance_confirmation : ∃ (state : State Backend.postgres.machine)
    (payment : Payment), stored state.config.world.payments 7 = some payment ∧
      payment.status = .confirmed ∧ Accounted state.config payment := by
  obtain ⟨state, hreach, hconfirmed⟩ := exists_reachable
    (reconciliationRules Backend.postgres.Payments Backend.postgres.Events) confirmationRun
    Backend.postgres.empty (fun state =>
      (stored state.config.world.payments 7).any fun payment => payment.status == .confirmed)
    (by decide)
  obtain ⟨payment, hstored, hstatus⟩ := Option.any_eq_true _ _ |>.mp hconfirmed
  have hstatus : payment.status = .confirmed := by simpa using hstatus
  exact ⟨state, payment, hstored, hstatus,
    settlement_provenance .postgres hreach hstored (.inr (.inl hstatus))⟩

end Run

end StellarPay
