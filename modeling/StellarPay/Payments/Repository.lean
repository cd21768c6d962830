import StellarPay.Core.Payment

/-!
# The payment repository

The transition guard of `crates/payments/src/repository.rs`, the `PaymentRepository` trait as a
class over the type of the store, and the laws both implementations satisfy. The laws speak
about `stored`, what a read finds under an id; they are all that the results about runs use.

Each operation is one atomic step of the store. `update_status` is two on Postgres, so the
class has its guarded write, and the operation itself is the program `updateStatus`.
-/

namespace StellarPay

/-- `ALL_STATUSES`. -/
def allStatuses : List PaymentStatus :=
  [.pending, .detected, .confirmed, .failed, .expired]

/-- `valid_from_states`: the statuses from which `target` may be reached. -/
def validFromStates (target : PaymentStatus) : List PaymentStatus :=
  allStatuses.filter fun source => source.canTransitionTo target

/-- `status_to_db`. -/
def statusToDb : PaymentStatus → String
  | .pending => "pending"
  | .detected => "detected"
  | .confirmed => "confirmed"
  | .failed => "failed"
  | .expired => "expired"

/-- `status_from_db`. -/
def statusFromDb (value : String) : Except RepositoryError PaymentStatus :=
  match value with
  | "pending" => .ok .pending
  | "detected" => .ok .detected
  | "confirmed" => .ok .confirmed
  | "failed" => .ok .failed
  | "expired" => .ok .expired
  | other => .error (.database ("unknown payment status: " ++ other))

/-- The guard admits exactly the transitions of the state machine. -/
@[simp]
theorem mem_valid_from_states {source target : PaymentStatus} :
    source ∈ validFromStates target ↔ source.canTransitionTo target = true := by
  cases source <;> simp [validFromStates, allStatuses]

/-- Every stored status reads back. -/
@[simp]
theorem status_from_db_to_db (status : PaymentStatus) :
    statusFromDb (statusToDb status) = .ok status := by
  cases status <;> rfl

/-- Distinct statuses have distinct texts. -/
theorem status_to_db_injective : Function.Injective statusToDb := by
  intro first second h
  have hread := congrArg statusFromDb h
  simpa using hread

/-- The text guard of the `UPDATE` is the guard on statuses. -/
theorem status_to_db_mem_valid {source target : PaymentStatus} :
    statusToDb source ∈ (validFromStates target).map statusToDb ↔
      source.canTransitionTo target = true := by
  rw [List.mem_map_of_injective status_to_db_injective, mem_valid_from_states]

/-- The message of a refused transition. -/
def transitionConflict (id : Uuid) (next : PaymentStatus) : RepositoryError :=
  .conflict ("cannot transition payment " ++ id.hyphenated ++ " to " ++ next.debug)

/-- `(page.max(1) - 1) * per_page`, computed in `u32` as a release build does. -/
def pageOffset (page perPage : UInt32) : UInt32 :=
  (max page 1 - 1) * perPage

/-- A payment after a permitted write of `next`. A hash that is not given is kept. -/
def Payment.moved (payment : Payment) (next : PaymentStatus) (hash : Option String)
    (now : DateTime) : Payment :=
  { payment with
    status := next, stellarTxHash := hash.or payment.stellarTxHash, updatedAt := now }

/-- The trait `PaymentRepository`. Reads that meet several rows do so in the order of a scan. -/
class PaymentRepository (σ : Type) where
  /-- Store a payment, and link the key to it if one is given. -/
  createWithIdempotencyKey : Payment → Option String → σ → Except RepositoryError Payment × σ
  /-- The payment with this id. -/
  findById : Uuid → σ → Except RepositoryError (Option Payment)
  /-- A payment with this reference. -/
  findByReference : Scan → String → σ → Except RepositoryError (Option Payment)
  /-- The payment this key is linked to. -/
  findByIdempotencyKey : String → σ → Except RepositoryError (Option Payment)
  /-- The guarded write of `update_status`. No payment means that nothing matched the guard. -/
  guardedUpdate : DateTime → Uuid → PaymentStatus → Option String → σ →
    Except RepositoryError (Option Payment) × σ
  /-- The pending and detected payments, oldest first. -/
  listPendingForReconciliation : Scan → σ → Except RepositoryError (List Payment)
  /-- One page of the payments, newest first. -/
  listPaginated : Scan → Option PaymentStatus → UInt32 → UInt32 → σ →
    Except RepositoryError (List Payment)
  /-- The number of payments. -/
  count : Option PaymentStatus → σ → Except RepositoryError Int

section

variable {σ : Type} [PaymentRepository σ]

/-- What a read finds under an id. -/
def stored (state : σ) (id : Uuid) : Option Payment :=
  match PaymentRepository.findById id state with
  | .ok found => found
  | .error _ => none

/-- The payment a key is linked to. -/
def linked (state : σ) (key : String) : Option Uuid :=
  match PaymentRepository.findByIdempotencyKey key state with
  | .ok found => found.map Payment.id
  | .error _ => none

end

/-- Two records of one payment agree on everything a client chose at creation. -/
structure Payment.SameRequest (first second : Payment) : Prop where
  id : first.id = second.id
  reference : first.reference = second.reference
  destination : first.destination = second.destination
  memo : first.memo = second.memo

/-- What the two implementations of the trait have in common. -/
class RepositoryLaws (σ : Type) [PaymentRepository σ] where
  /-- A payment may be given this hash. -/
  accepts : σ → Uuid → Option String → Prop
  findById_eq (state : σ) (id : Uuid) :
    PaymentRepository.findById id state = .ok (stored state id)
  stored_id {state : σ} {id : Uuid} {payment : Payment} :
    stored state id = some payment → payment.id = id
  create_ok {payment created : Payment} {key : Option String} {state after : σ} :
    PaymentRepository.createWithIdempotencyKey payment key state = (.ok created, after) →
      created.SameRequest payment ∧ created.status = payment.status ∧
      created.stellarTxHash = payment.stellarTxHash ∧
      ∀ id, stored after id = if id = payment.id then some created else stored state id
  create_error {payment : Payment} {key : Option String} {state after : σ}
      {error : RepositoryError} :
    PaymentRepository.createWithIdempotencyKey payment key state = (.error error, after) →
      after = state
  update_ok {now : DateTime} {id : Uuid} {next : PaymentStatus} {hash : Option String}
      {state after : σ} {updated : Payment} :
    PaymentRepository.guardedUpdate now id next hash state = (.ok (some updated), after) →
      ∃ payment time, stored state id = some payment ∧
        payment.status.canTransitionTo next = true ∧ updated = payment.moved next hash time ∧
        ∀ other, stored after other = if other = id then some updated else stored state other
  update_none {now : DateTime} {id : Uuid} {next : PaymentStatus} {hash : Option String}
      {state after : σ} :
    PaymentRepository.guardedUpdate now id next hash state = (.ok none, after) → after = state
  update_error {now : DateTime} {id : Uuid} {next : PaymentStatus} {hash : Option String}
      {state after : σ} {error : RepositoryError} :
    PaymentRepository.guardedUpdate now id next hash state = (.error error, after) →
      after = state
  update_accepts {now : DateTime} {id : Uuid} {next : PaymentStatus} {hash : Option String}
      {state : σ} {payment : Payment} :
    stored state id = some payment → payment.status.canTransitionTo next = true →
      ((∃ updated after, PaymentRepository.guardedUpdate now id next hash state =
        (.ok (some updated), after)) ↔ accepts state id hash)
  mem_pending {scan : Scan} {state : σ} :
    ∃ payments, PaymentRepository.listPendingForReconciliation scan state = .ok payments ∧
      (payments.map Payment.id).Nodup ∧
      (payments.Pairwise fun first second => first.createdAt ≤ second.createdAt) ∧
      ∀ payment, payment ∈ payments ↔ stored state payment.id = some payment ∧
        (payment.status = .pending ∨ payment.status = .detected)

/-- What the two implementations do with idempotency keys. -/
class KeyLaws (σ : Type) [PaymentRepository σ] where
  /-- A lookup that answers finds the linked payment. -/
  find_key {key : String} {state : σ} {found : Option Payment} :
    PaymentRepository.findByIdempotencyKey key state = .ok found →
      linked state key = found.map Payment.id ∧
      ∀ payment ∈ found, stored state payment.id = some payment
  /-- A lookup of a linked key answers. -/
  find_linked {key : String} {state : σ} {id : Uuid} :
    linked state key = some id →
      ∃ payment, PaymentRepository.findByIdempotencyKey key state = .ok (some payment)
  /-- A creation links its key and no other. -/
  create_links {payment created : Payment} {key : Option String} {state after : σ} :
    PaymentRepository.createWithIdempotencyKey payment key state = (.ok created, after) →
      ∀ name, linked after name = if key = some name then some payment.id else linked state name
  /-- An update links nothing. -/
  update_links (now : DateTime) (id : Uuid) (next : PaymentStatus) (hash : Option String)
      (state : σ) (name : String) :
    linked (PaymentRepository.guardedUpdate now id next hash state).2 name = linked state name

end StellarPay
