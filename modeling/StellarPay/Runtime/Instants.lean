import StellarPay.Runtime.Frames
import StellarPay.Runtime.System

/-!
# What the stores of payments keep of instants

The store in memory keeps the instants of a payment as they are, a `TIMESTAMPTZ` column keeps what
the database makes of them. A creation brings its own instants, and an update is stamped with the
clock of the request.
-/

namespace StellarPay

/-- What the two implementations of the trait do with instants. -/
class InstantLaws (σ : Type) [PaymentRepository σ] where
  /-- What the store keeps of an instant. -/
  time : DateTime → DateTime
  create_times {payment created : Payment} {key : Option String} {state after : σ} :
    PaymentRepository.createWithIdempotencyKey payment key state = (.ok created, after) →
      created.createdAt = time payment.createdAt ∧ created.updatedAt = time payment.updatedAt
  update_time {now : DateTime} {id : Uuid} {next : PaymentStatus} {hash : Option String}
      {state after : σ} {updated : Payment} :
    PaymentRepository.guardedUpdate now id next hash state = (.ok (some updated), after) →
      updated.updatedAt = time now

open InMemoryState in
instance : InstantLaws InMemoryState where
  time now := now
  create_times {payment created key state after} h := by
    rcases create_cases payment key state with ⟨_, _, hcreate⟩ | ⟨_, final, hcreate, -⟩
    · cases hcreate.symm.trans h
    · cases hcreate.symm.trans h
      exact ⟨rfl, rfl⟩
  update_time {now id next hash state after updated} h := by
    rw [guarded_update_eq] at h
    rcases update_cases now id next hash state with ⟨payment, -, -, hupdate⟩ | ⟨_, _, hupdate⟩
    · rw [hupdate] at h
      cases h
      rfl
    · rw [hupdate] at h
      cases h

section Postgres

variable [Platform]

open Database in
instance : InstantLaws Database where
  time := Platform.timestamptz
  create_times {payment created key db after} h := by
    rcases create_cases payment key db with ⟨_, hcreate⟩ | ⟨amount, final, hcreate, -⟩
    · cases hcreate.symm.trans h
    · cases hcreate.symm.trans h
      simp [PaymentRow.view, Payment.toRow, PaymentRow.payment]
  update_time {now id next hash db after updated} h := by
    rcases update_cases now id next hash db with
      ⟨row, final, -, -, -, hupdate, -⟩ | ⟨-, ⟨_, hupdate⟩ | hupdate⟩
    · cases hupdate.symm.trans h
      rfl
    · cases hupdate.symm.trans h
    · cases hupdate.symm.trans h

instance (backend : Backend) : InstantLaws backend.Payments :=
  match backend with
  | .inMemory => inferInstanceAs (InstantLaws InMemoryState)
  | .postgres => inferInstanceAs (InstantLaws Database)

/-- Both stores of a backend keep the same of an instant. -/
theorem Backend.same_time (backend : Backend) (time : DateTime) :
    InstantLaws.time backend.Payments time = DeliveryLaws.time backend.Events time := by
  cases backend <;> rfl

end Postgres

section Requests

variable {σ ε : Type} [PaymentRepository σ] [WebhookEventRepository ε] [RepositoryLaws σ]
  [InstantLaws σ] {env : Env} {world : World σ ε}

/-- A payment that is created has the instants it came with. -/
theorem answer_create_times {payment created : Payment} {key : Option String}
    (h : (answer env (.createWithIdempotencyKey payment key) world).1 = .ok created) :
    created.createdAt = InstantLaws.time σ payment.createdAt ∧
      created.updatedAt = InstantLaws.time σ payment.updatedAt :=
  InstantLaws.create_times (create_of_answer h)

omit [RepositoryLaws σ] in
/-- A payment that is updated is stamped by the clock. -/
theorem answer_update_time {id : Uuid} {next : PaymentStatus} {hash : Option String}
    {updated : Payment}
    (h : (answer env (.guardedUpdate id next hash) world).1 = .ok (some updated)) :
    updated.updatedAt = InstantLaws.time σ env.now := by
  simp only [answer, onPayments, attempt] at h
  cases hfault : env.paymentsFault with
  | some message =>
      rw [hfault] at h
      cases h
  | none =>
      rw [hfault] at h
      exact InstantLaws.update_time (Prod.ext h rfl)

end Requests

end StellarPay
