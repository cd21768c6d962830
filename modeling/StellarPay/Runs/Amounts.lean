import StellarPay.Interleaving.History
import StellarPay.Payments.Listings
import StellarPay.Payments.RoundTrip
import StellarPay.Payments.Simulation
import StellarPay.Runtime.Frames

/-!
# Amounts on Postgres

A payment that is created on Postgres comes back with the shortest text of its amount, and every
later read of it, by whatever operation, shows the same text.
-/

namespace StellarPay

open Interleaving

/-- The payments that an answer shows. -/
def shown : (request : Request) → Answer request → List Payment
  | .createWithIdempotencyKey _ _, .ok created => [created]
  | .findById _, .ok (some found) => [found]
  | .findByReference _, .ok (some found) => [found]
  | .findByIdempotencyKey _, .ok (some found) => [found]
  | .guardedUpdate _ _ _, .ok (some updated) => [updated]
  | .listPendingForReconciliation, .ok listed => listed
  | .listPaginated _ _ _, .ok listed => listed
  | _, _ => []

/-- Where a success alone shows a payment, a payment that is shown is in the reply. -/
theorem reply_of_shown {showing : Except RepositoryError (Option Payment) → List Payment}
    {reply : Except RepositoryError (Option Payment)} {payment : Payment}
    (hfound : ∀ found, showing (.ok (some found)) = [found]) (hnone : showing (.ok none) = [])
    (herror : ∀ error, showing (.error error) = []) (h : payment ∈ showing reply) :
    reply = .ok (some payment) := by
  rcases reply with error | _ | found
  · simp [herror] at h
  · simp [hnone] at h
  · rw [hfound] at h
    rw [List.mem_singleton.mp h]

/-- A read that goes well is one of the repository. -/
theorem reading_ok {σ ε α : Type} {env : Env} {operation : σ → Except RepositoryError α}
    {world : World σ ε} {result : α}
    (h : (onPayments env (reading operation) world).1 = .ok result) :
    operation world.payments = .ok result := by
  unfold onPayments attempt reading at h
  cases hfault : env.paymentsFault with
  | some message =>
      rw [hfault] at h
      cases h
  | none =>
      rw [hfault] at h
      exact h

section Laws

variable {ε : Type} [Platform] [WebhookEventRepository ε]

/-- A creation that succeeds stores what it returns. -/
theorem Database.created_stored {payment created : Payment} {key : Option String}
    {db after : Database} (h : db.createWithIdempotencyKey payment key = (.ok created, after)) :
    created.id = payment.id ∧ stored after payment.id = some created := by
  obtain ⟨hsame, -, -, hafter⟩ := @RepositoryLaws.create_ok Database _ _ _ _ _ _ _ h
  exact ⟨hsame.id, (hafter payment.id).trans (if_pos rfl)⟩

/-- What an answer shows is stored like this from then on. -/
theorem shown_stored (env : Env) (request : Request) (world : World Database ε) :
    ∀ payment ∈ shown request (answer env request world).1,
      stored (answer env request world).2.payments payment.id = some payment := by
  intro payment hshown
  cases request with
  | createWithIdempotencyKey asked key =>
      cases hresult : (answer env (.createWithIdempotencyKey asked key) world).1 with
      | error error => simp [hresult, shown] at hshown
      | ok created =>
          obtain ⟨hid, hstored⟩ := Database.created_stored (create_of_answer hresult)
          obtain rfl : payment = created := by simpa [hresult, shown] using hshown
          rwa [hid]
  | guardedUpdate id next hash =>
      rcases answer_update env id next hash world with
        ⟨source, time, after, hanswer, hsource, -, hafter⟩ | ⟨-, hnone⟩
      · obtain rfl : payment = source.moved next hash time := by
          simpa [hanswer, shown] using hshown
        have hid : source.id = id := RepositoryLaws.stored_id hsource
        rw [hanswer]
        exact (hafter _).trans (if_pos hid)
      · exact absurd (reply_of_shown (fun _ => rfl) rfl (fun _ => rfl) hshown) (hnone payment)
  | findById id =>
      rw [answer_payments rfl]
      have hresult := reply_of_shown (fun _ => rfl) rfl (fun _ => rfl) hshown
      have hfound :=
        (RepositoryLaws.findById_eq world.payments id).symm.trans (reading_ok hresult)
      have hstored : stored world.payments id = some payment := Except.ok.inj hfound
      rwa [RepositoryLaws.stored_id hstored]
  | findByReference reference =>
      rw [answer_payments rfl]
      have hread : world.payments.findByReference reference = .ok (some payment) :=
        reading_ok (reply_of_shown (fun _ => rfl) rfl (fun _ => rfl) hshown)
      cases hnul : hasNul reference with
      | true => simp [Database.findByReference, hnul] at hread
      | false =>
          obtain ⟨other, hother, hfinds⟩ := Database.find_reference hnul world.payments
          cases hother.symm.trans hread
          exact (hfinds.1 payment rfl).1
  | findByIdempotencyKey key =>
      rw [answer_payments rfl]
      have hresult := reply_of_shown (fun _ => rfl) rfl (fun _ => rfl) hshown
      exact (KeyLaws.find_key (reading_ok hresult)).2 payment rfl
  | listPendingForReconciliation =>
      rw [answer_payments rfl]
      rcases hresult : (answer env .listPendingForReconciliation world).1 with _ | listed
      · simp [hresult, shown] at hshown
      · rw [hresult] at hshown
        exact ((answer_listing hresult).2.2 payment).mp hshown |>.1
  | listPaginated filter page perPage =>
      rw [answer_payments rfl]
      rcases hresult : (answer env (.listPaginated filter page perPage) world).1 with _ | listed
      · simp [hresult, shown] at hshown
      · rw [hresult] at hshown
        obtain ⟨payments, hpage, hlisting⟩ :=
          ListingLaws.page env.scan filter page perPage world.payments
        cases hpage.symm.trans (reading_ok hresult)
        exact ((hlisting.mem payment).mp (mem_of_mem_page hshown)).1
  | _ => cases hshown

/-- From one world to another every payment stays stored with the amount it has. -/
def KeepsAmounts (before after : World Database ε) : Prop :=
  ∀ id payment, stored before.payments id = some payment →
    ∃ later, stored after.payments id = some later ∧ later.amount = payment.amount

omit [WebhookEventRepository ε] in
theorem KeepsAmounts.refl (world : World Database ε) : KeepsAmounts world world :=
  fun _ payment hstored => ⟨payment, hstored, rfl⟩

omit [WebhookEventRepository ε] in
theorem KeepsAmounts.trans {first second third : World Database ε}
    (h : KeepsAmounts first second) (h' : KeepsAmounts second third) :
    KeepsAmounts first third := by
  intro id payment hstored
  obtain ⟨later, hlater, hsame⟩ := h id payment hstored
  obtain ⟨last, hlast, hsame'⟩ := h' id later hlater
  exact ⟨last, hlast, hsame'.trans hsame⟩

/-- No request changes the amount of a stored payment. -/
theorem answer_keeps_amounts (env : Env) (request : Request) (world : World Database ε) :
    KeepsAmounts world (answer env request world).2 := by
  intro id payment hstored
  rcases answer_cases env request world id with
    hsame | ⟨asked, key, created, rfl, rfl, -, -, -, hresult⟩ |
      ⟨source, next, hash, time, rfl, hsource, -, hafter, -⟩
  · exact ⟨payment, hsame.trans hstored, rfl⟩
  · -- The identifier of a stored payment is not taken again.
    rcases Database.create_cases asked key world.payments with
      ⟨error, herror⟩ | ⟨_, _, _, hfree, -⟩
    · cases herror.symm.trans (create_of_answer hresult)
    · simp [hfree] at hstored
  · cases hsource.symm.trans hstored
    exact ⟨_, hafter, rfl⟩

/-- What is stored after a request of a run is shown with its amount by every later request. -/
theorem later_shows_amount {rules : Rules (machine Database ε)} {world : World Database ε}
    {state : State (machine Database ε)} (hreach : Reachable rules world state)
    {before after : List (Event (machine Database ε))} {act later : Act (machine Database ε)}
    (htrace : state.config.trace = before ++ .act act :: after) (hlater : .act later ∈ after)
    {payment read : Payment} {id : Uuid} (hstored : stored act.after.payments id = some payment)
    (hread : read ∈ shown later.request (answer later.env later.request later.before).1)
    (hid : read.id = id) : read.amount = payment.amount := by
  have hevents : ∀ event ∈ state.config.trace, KeepsAmounts event.before event.after := by
    intro event _
    cases event with
    | start thread call seen => exact .refl seen
    | act made => exact answer_keeps_amounts made.env made.request made.before
  have hpairs := hreach.linked.pairwise_events KeepsAmounts .refl .trans hevents
  rw [htrace, List.pairwise_append, List.pairwise_cons] at hpairs
  have hkept : KeepsAmounts act.after later.before := hpairs.2.1.1 _ hlater
  obtain ⟨last, hlast, hamount⟩ :=
    (hkept.trans (answer_keeps_amounts later.env later.request later.before)) _ _ hstored
  have hshown := shown_stored later.env later.request later.before read hread
  rw [hid] at hshown
  cases hlast.symm.trans hshown
  exact hamount

variable [ScaleLaws] [DecimalLaws] [NormalLaws]

/-- A creation of an accepted amount on Postgres stores nothing, or what it returns and every later
read of the payment carry one text, which stands for the amount in its shortest form. -/
theorem amounts_survive {rules : Rules (machine Database ε)} {world : World Database ε}
    {state : State (machine Database ε)} (hreach : Reachable rules world state)
    {before after : List (Event (machine Database ε))} {act : Act (machine Database ε)}
    {payment : Payment} {key : Option String} {decimal : Decimal}
    (htrace : state.config.trace = before ++ .act act :: after)
    (hrequest : act.request = .createWithIdempotencyKey payment key)
    (hvalid : validateAmount payment.amount = .ok decimal) :
    (∃ error, act.Got (.createWithIdempotencyKey payment key) (.error error) ∧
      act.after.payments = act.before.payments) ∨
    ∃ created, act.Got (.createWithIdempotencyKey payment key) (.ok created) ∧
      created.id = payment.id ∧ Survives payment.amount decimal created.amount ∧
      ∀ later, .act later ∈ after →
        ∀ read ∈ shown later.request (answer later.env later.request later.before).1,
          read.id = payment.id → read.amount = created.amount := by
  rcases answer_create act.env payment key act.before with
    ⟨error, hanswer⟩ | ⟨created, stored', hanswer, hcreate⟩
  · refine .inl ⟨error, ⟨hrequest, congrArg Prod.fst hanswer⟩, ?_⟩
    rw [Act.after, hrequest]
    exact congrArg (fun outcome => outcome.2.payments) hanswer
  · obtain ⟨hid, hstored⟩ := Database.created_stored hcreate
    refine .inr ⟨created, ⟨hrequest, congrArg Prod.fst hanswer⟩, hid,
      Database.amount_survives hvalid hcreate, fun later hlater read hread hsame => ?_⟩
    have hfirst : stored act.after.payments payment.id = some created := by
      rw [Act.after, hrequest]
      have hworld : (answer act.env (.createWithIdempotencyKey payment key) act.before).2.payments =
          stored' := congrArg (fun outcome => outcome.2.payments) hanswer
      exact hworld ▸ hstored
    exact later_shows_amount hreach htrace hlater hfirst hread hsame

end Laws

section Run

attribute [local instance] Documented.platform

open Plain

/-- A creation, and a read of the payment. -/
def createThenRead : List (Choice (machine Database EventTable)) :=
  [.start (create "10.50" "order-1" none), .act 0 (env 5000 7), .act 0 (env 5000 7),
    .act 0 (env 5000 7), .start (.getPayment 7), .act 1 (env 6000 8)]

/-- The payment of the creation, and of the read after it. -/
def createdAndRead (state : State (machine Database EventTable)) : Option (Payment × Payment) :=
  match state.config.trace with
  | [_, _, _, .act ⟨_, _, .createWithIdempotencyKey payment key, first, seen⟩, _,
      .act ⟨_, _, .findById id, second, later⟩] =>
      match (answer first (.createWithIdempotencyKey payment key) seen).1,
          (answer second (.findById id) later).1 with
      | .ok created, .ok (some read) =>
          if payment.amount = "10.50" ∧ read.id = payment.id then some (created, read) else none
      | _, _ => none
  | _ => none

/-- An amount with a trailing zero comes back without it, and is read as it came back. -/
theorem amounts_survive_read : ∃ (state : State (machine Database EventTable))
    (created read : Payment) (decimal : Decimal), createdAndRead state = some (created, read) ∧
      Survives "10.50" decimal created.amount ∧ read.amount = created.amount := by
  obtain ⟨state, hreach, htest⟩ := exists_reachable .any createThenRead
    ⟨Database.new, EventTable.new⟩ (fun state => (createdAndRead state).isSome) (by decide +kernel)
  obtain ⟨⟨created, read⟩, hresult⟩ := Option.isSome_iff_exists.mp htest
  obtain ⟨decimal, hvalid⟩ : ∃ decimal, validateAmount "10.50" = .ok decimal :=
    ⟨⟨1050, 2, by decide, by decide⟩, by decide +kernel⟩
  refine ⟨state, created, read, decimal, hresult, ?_⟩
  unfold createdAndRead at hresult
  split at hresult
  · rename_i a b c thread span payment key first seen d other outer id second later htrace
    split at hresult
    · rename_i returned found hcreate hread
      simp only [Option.ite_none_right_eq_some, Option.some.injEq, Prod.mk.injEq] at hresult
      obtain ⟨⟨hamount, hid⟩, rfl, rfl⟩ := hresult
      rw [← hamount] at hvalid ⊢
      have hsplit : state.config.trace = [a, b, c] ++
          .act ⟨thread, span, .createWithIdempotencyKey payment key, first, seen⟩ ::
            [d, .act ⟨other, outer, .findById id, second, later⟩] := htrace
      rcases amounts_survive hreach hsplit rfl hvalid with
        ⟨error, ⟨-, herror⟩, -⟩ | ⟨kept, ⟨-, hkept⟩, -, hsurvives, hlater⟩
      · cases hcreate.symm.trans herror
      · cases hcreate.symm.trans hkept
        have hshown : found ∈ shown (.findById id) (answer second (.findById id) later).1 := by
          rw [hread]
          exact List.mem_singleton_self found
        refine ⟨hsurvives, hlater ⟨other, outer, .findById id, second, later⟩ ?_ found hshown hid⟩
        exact List.mem_cons_of_mem d (List.mem_singleton_self _)
    · cases hresult
  · cases hresult

end Run

end StellarPay
