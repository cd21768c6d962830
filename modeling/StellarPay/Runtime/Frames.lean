import StellarPay.Runtime.System

/-!
# What a request changes

Only two requests write payments: creation and the guarded update. `answer_create` and
`answer_update` say what these do, in terms of what a read finds, and `answer_payments` that
every other request leaves the payments as they are.
-/

namespace StellarPay

open Interleaving

/-- The request may write the payment store. -/
def Request.writesPayments : Request → Bool
  | .createWithIdempotencyKey _ _ | .guardedUpdate _ _ _ => true
  | _ => false

/-- A generated identifier is not in use (`Uuid::new_v4`). -/
def FreshId {σ ε : Type} [PaymentRepository σ] : Request → World σ ε → Prop
  | .createWithIdempotencyKey payment _, world => stored world.payments payment.id = none
  | _, _ => True

instance {σ ε : Type} [PaymentRepository σ] (request : Request) (world : World σ ε) :
    Decidable (FreshId request world) := by
  unfold FreshId
  split <;> infer_instance

/-- Every call, with generated identifiers fresh. -/
def freshRules (σ ε : Type) [Platform] [PaymentRepository σ] [WebhookEventRepository ε] :
    Rules (machine σ ε) :=
  ⟨fun _ => True, fun _ _ request world => FreshId request world⟩

section

variable {σ ε : Type} [Platform] [PaymentRepository σ] [WebhookEventRepository ε]

instance : DecidablePred (freshRules σ ε).admits :=
  fun _ => inferInstanceAs (Decidable True)

instance (env : Env) (span : Option Uuid) (request : Request) (world : World σ ε) :
    Decidable ((freshRules σ ε).permits env span request world) :=
  inferInstanceAs (Decidable (FreshId request world))

end

variable {σ ε : Type}

/-- An operation that only reads leaves the world as it is. -/
@[simp]
theorem on_payments_reading {α : Type} (env : Env) (operation : σ → Except RepositoryError α)
    (world : World σ ε) : (onPayments env (reading operation) world).2 = world := by
  unfold onPayments attempt reading
  cases env.paymentsFault <;> rfl

/-- An operation on the events leaves the payments as they are. -/
@[simp]
theorem on_events_payments {α : Type} (env : Env)
    (operation : ε → Except RepositoryError α × ε) (world : World σ ε) :
    (onEvents env operation world).2.payments = world.payments :=
  rfl

variable [PaymentRepository σ] [WebhookEventRepository ε]

/-- A request that does not write payments leaves them unchanged. -/
theorem answer_payments {env : Env} {request : Request} {world : World σ ε}
    (h : request.writesPayments = false) :
    (answer env request world).2.payments = world.payments := by
  cases request <;> first | (cases h; done) | rfl | simp [answer]

/-- Running alone, a program that does not write payments leaves them unchanged. -/
theorem run_payments {α : Type} {program : Prog α}
    (hreads : program.Makes fun request => request.writesPayments = false)
    (env : Option Uuid → Env) (world : World σ ε) :
    (program.run answer env world).2.payments = world.payments := by
  induction program generalizing world with
  | done result => rfl
  | call span request next ih =>
      exact (ih _ (hreads.2 _) _).trans (answer_payments hreads.1)

section Keys

variable [KeyLaws σ]

/-- A guarded update links no key. -/
@[simp]
theorem answer_update_links (env : Env) (id : Uuid) (next : PaymentStatus)
    (hash : Option String) (world : World σ ε) (key : String) :
    linked (answer env (.guardedUpdate id next hash) world).2.payments key =
      linked world.payments key := by
  simp only [answer, onPayments, attempt]
  cases env.paymentsFault with
  | some message => rfl
  | none => exact KeyLaws.update_links env.now id next hash world.payments key

/-- A lookup by key fails because the store does, or finds the linked payment. -/
theorem answer_find_key (env : Env) (key : String) (world : World σ ε) :
    (∃ error, (answer env (.findByIdempotencyKey key) world).1 = .error error ∧
      (linked world.payments key ≠ none → ∃ message, env.paymentsFault = some message ∧
        error = .database message)) ∨
    ∃ found, (answer env (.findByIdempotencyKey key) world).1 = .ok found ∧
      linked world.payments key = found.map Payment.id ∧
      ∀ payment ∈ found, stored world.payments payment.id = some payment := by
  simp only [answer, onPayments, attempt, reading]
  cases hfault : env.paymentsFault with
  | some message => exact .inl ⟨_, rfl, fun _ => ⟨message, rfl, rfl⟩⟩
  | none =>
      cases hfound : PaymentRepository.findByIdempotencyKey key world.payments with
      | error error =>
          refine .inl ⟨error, rfl, fun hlinked => ?_⟩
          obtain ⟨id, hid⟩ := Option.ne_none_iff_exists'.mp hlinked
          obtain ⟨payment, hpayment⟩ := KeyLaws.find_linked hid
          rw [hfound] at hpayment
          cases hpayment
      | ok found => exact .inr ⟨found, rfl, KeyLaws.find_key hfound⟩

end Keys

variable [RepositoryLaws σ]

/-- A read by id fails with the store, or finds what is stored. -/
theorem answer_find (env : Env) (id : Uuid) (world : World σ ε) :
    (env.paymentsFault ≠ none ∧ ∃ error, (answer env (.findById id) world).1 = .error error) ∨
      (answer env (.findById id) world).1 = .ok (stored world.payments id) := by
  simp only [answer, onPayments, attempt, reading]
  cases env.paymentsFault with
  | some message => exact .inl ⟨by simp, _, rfl⟩
  | none => exact .inr (RepositoryLaws.findById_eq _ _)

/-- A listing has every pending and detected payment once, as it is stored, oldest first. -/
theorem answer_listing {env : Env} {world : World σ ε} {pending : List Payment}
    (h : (answer env .listPendingForReconciliation world).1 = .ok pending) :
    (pending.map Payment.id).Nodup ∧
      (pending.Pairwise fun first second => first.createdAt ≤ second.createdAt) ∧
      ∀ payment, payment ∈ pending ↔ stored world.payments payment.id = some payment ∧
        (payment.status = .pending ∨ payment.status = .detected) := by
  simp only [answer, onPayments, attempt, reading] at h
  cases hfault : env.paymentsFault with
  | some message => simp [hfault] at h
  | none =>
      obtain ⟨payments, hlist, hfacts⟩ : ∃ payments,
          PaymentRepository.listPendingForReconciliation env.scan world.payments =
            .ok payments ∧ _ :=
        RepositoryLaws.mem_pending
      rw [hfault] at h
      rw [hlist] at h
      cases h
      exact hfacts

/-- A creation is refused without effect, or stores one payment that reads find from then on. -/
theorem answer_create (env : Env) (payment : Payment) (key : Option String)
    (world : World σ ε) :
    (∃ error, answer env (.createWithIdempotencyKey payment key) world = (.error error, world)) ∨
    ∃ created after,
      answer env (.createWithIdempotencyKey payment key) world =
        (.ok created, { world with payments := after }) ∧
      PaymentRepository.createWithIdempotencyKey payment key world.payments =
        (.ok created, after) := by
  simp only [answer, onPayments, attempt]
  cases env.paymentsFault with
  | some message => exact .inl ⟨_, rfl⟩
  | none =>
      cases hresult : PaymentRepository.createWithIdempotencyKey payment key world.payments with
      | mk result after =>
          cases result with
          | error error =>
              have hafter := RepositoryLaws.create_error hresult
              subst hafter
              exact .inl ⟨error, by simp⟩
          | ok created => exact .inr ⟨created, after, by simp, rfl⟩

/-- A creation that succeeds is one of the repository. -/
theorem create_of_answer {env : Env} {payment created : Payment} {key : Option String}
    {world : World σ ε}
    (h : (answer env (.createWithIdempotencyKey payment key) world).1 = .ok created) :
    PaymentRepository.createWithIdempotencyKey payment key world.payments =
      (.ok created, (answer env (.createWithIdempotencyKey payment key) world).2.payments) := by
  rcases answer_create env payment key world with
    ⟨error, hanswer⟩ | ⟨stored, after, hanswer, hcreate⟩
  · rw [hanswer] at h
    cases h
  · rw [hanswer] at h
    cases h
    rw [hanswer, hcreate]

/-- A guarded update moves one stored payment along the state machine, or has no effect. -/
theorem answer_update (env : Env) (id : Uuid) (next : PaymentStatus) (hash : Option String)
    (world : World σ ε) :
    (∃ payment time after,
      answer env (.guardedUpdate id next hash) world =
        (.ok (some (payment.moved next hash time)), { world with payments := after }) ∧
      stored world.payments id = some payment ∧ payment.status.canTransitionTo next = true ∧
      ∀ other, stored after other =
        if other = id then some (payment.moved next hash time)
        else stored world.payments other) ∨
    ((answer env (.guardedUpdate id next hash) world).2 = world ∧
      ∀ updated, (answer env (.guardedUpdate id next hash) world).1 ≠ .ok (some updated)) := by
  simp only [answer, onPayments, attempt]
  cases env.paymentsFault with
  | some message => exact .inr ⟨rfl, by simp⟩
  | none =>
      cases hresult : PaymentRepository.guardedUpdate env.now id next hash world.payments with
      | mk result after =>
          rcases result with error | _ | updated
          · have hafter := RepositoryLaws.update_error hresult
            subst hafter
            exact .inr ⟨by simp, by simp⟩
          · have hafter := RepositoryLaws.update_none hresult
            subst hafter
            exact .inr ⟨by simp, by simp⟩
          · obtain ⟨payment, time, hstored, hguard, rfl, hafter⟩ :=
              RepositoryLaws.update_ok hresult
            exact .inl ⟨payment, time, after, by simp, hstored, hguard, hafter⟩

/-- A guarded update of a payment that may move succeeds exactly when the store works and accepts
the hash. -/
theorem answer_update_ok_iff {env : Env} {id : Uuid} {next : PaymentStatus} {hash : Option String}
    {world : World σ ε} {payment : Payment} (hstored : stored world.payments id = some payment)
    (htransition : payment.status.canTransitionTo next = true) :
    (∃ updated, (answer env (.guardedUpdate id next hash) world).1 = .ok (some updated)) ↔
      env.paymentsFault = none ∧ RepositoryLaws.accepts world.payments id hash := by
  simp only [answer, onPayments, attempt]
  cases env.paymentsFault with
  | some message => simp
  | none =>
      rw [← RepositoryLaws.update_accepts hstored htransition]
      simp only [true_and]
      refine exists_congr fun updated => ⟨fun hresult => ?_, ?_⟩
      · exact ⟨_, Prod.ext hresult rfl⟩
      · intro hsucceeds
        obtain ⟨after, hafter⟩ := hsucceeds
        rw [hafter]

/-- What a request does to one payment: nothing, unless it creates the payment or moves it. -/
theorem answer_cases (env : Env) (request : Request) (world : World σ ε) (id : Uuid) :
    stored (answer env request world).2.payments id = stored world.payments id ∨
    (∃ payment key created, request = .createWithIdempotencyKey payment key ∧ payment.id = id ∧
      created.status = payment.status ∧ created.stellarTxHash = payment.stellarTxHash ∧
      stored (answer env request world).2.payments id = some created ∧
      (answer env (.createWithIdempotencyKey payment key) world).1 = .ok created) ∨
    ∃ source next hash time, request = .guardedUpdate id next hash ∧
      stored world.payments id = some source ∧ source.status.canTransitionTo next = true ∧
      stored (answer env request world).2.payments id = some (source.moved next hash time) ∧
      (answer env (.guardedUpdate id next hash) world).1 =
        .ok (some (source.moved next hash time)) := by
  cases hwrites : request.writesPayments with
  | false => exact .inl (by rw [answer_payments hwrites])
  | true =>
      cases request with
      | createWithIdempotencyKey payment key =>
          rcases answer_create env payment key world with
            ⟨error, hanswer⟩ | ⟨created, after, hanswer, hcreate⟩
          · exact .inl (by rw [hanswer])
          · obtain ⟨_, hstatus, hhash, hstored⟩ := RepositoryLaws.create_ok hcreate
            simp only [hanswer, hstored]
            by_cases hid : id = payment.id
            · refine .inr (.inl ⟨payment, key, created, rfl, hid.symm, hstatus, hhash, ?_, ?_⟩)
              · exact if_pos hid
              · rw [hanswer]
            · exact .inl (if_neg hid)
      | guardedUpdate target next hash =>
          rcases answer_update env target next hash world with
            ⟨source, time, after, hanswer, hsource, htransition, hstored⟩ | ⟨hanswer, _⟩
          · by_cases hid : id = target
            · subst hid
              refine .inr (.inr ⟨source, next, hash, time, rfl, hsource, htransition, ?_, ?_⟩)
              · simp [hanswer, hstored]
              · rw [hanswer]
            · exact .inl (by simp [hanswer, hstored, hid])
          · exact .inl (by rw [hanswer])
      | _ => cases hwrites

end StellarPay
