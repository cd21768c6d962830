import StellarPay.Payments.Repository

/-!
# The Postgres repository

`PostgresPaymentRepository` over the tables of `migrations/0001` and `0002`. The constraints of
the schema are fields of `Database`, so a state that breaks one cannot be built: a statement
that would break one fails instead, and a failed statement or transaction changes nothing.
Every statement, and the transaction of `create_with_idempotency_key`, is one atomic step.
-/

namespace StellarPay

/-- `sqlx::Error`: the SQLSTATE of the database, if it is the database's, and the message. -/
structure SqlxError where
  code : Option String
  message : String

/-- `map_sqlx_error`. -/
def mapSqlxError (error : SqlxError) : RepositoryError :=
  if error.code = some "23505" then .conflict error.message else .database error.message

/-- A `TEXT` parameter cannot hold the character NUL. -/
def hasNul (text : String) : Bool :=
  text.toList.contains (Char.ofNat 0)

/-- The error of a parameter that is not valid `TEXT`. -/
def invalidText : SqlxError :=
  ⟨some "22021", "invalid byte sequence for encoding UTF8: 0x00"⟩

/-- The error of a `UNIQUE` or `PRIMARY KEY` constraint. -/
def uniqueViolation (constraint : String) : SqlxError :=
  ⟨some "23505", "duplicate key value violates unique constraint " ++ constraint⟩

/-- Every uniqueness violation becomes a conflict. -/
@[simp]
theorem map_unique_violation (constraint : String) :
    mapSqlxError (uniqueViolation constraint) =
      .conflict ("duplicate key value violates unique constraint " ++ constraint) :=
  if_pos rfl

/-- `PaymentRow`. -/
structure PaymentRow where
  id : Uuid
  reference : String
  amount : Decimal
  asset : String
  destination : String
  memo : Option String
  status : String
  stellarTxHash : Option String
  createdAt : DateTime
  updatedAt : DateTime
  deriving DecidableEq

/-- Both rows hold one and the same hash. `UNIQUE` does not compare `NULL`s. -/
def PaymentRow.SameHash (first second : PaymentRow) : Prop :=
  first.stellarTxHash ≠ none ∧ first.stellarTxHash = second.stellarTxHash

instance (first second : PaymentRow) : Decidable (first.SameHash second) :=
  inferInstanceAs (Decidable (_ ∧ _))

/-- The tables `payments` and `idempotency_keys` with the constraints of their schema. The last
field is not a constraint: it records that only this program writes the status column. -/
structure Database where
  payments : HashMap Uuid PaymentRow
  idempotencyKeys : HashMap String Uuid
  keyed : ∀ id row, payments.lookup id = some row → row.id = id
  referenceUnique : ∀ first ∈ payments.values, ∀ second ∈ payments.values,
    first.reference = second.reference → first.id = second.id
  hashUnique : ∀ first ∈ payments.values, ∀ second ∈ payments.values,
    first.SameHash second → first.id = second.id
  assetChecked : ∀ row ∈ payments.values, row.asset = "XLM"
  keyReferences : ∀ key id, idempotencyKeys.lookup key = some id → (payments.lookup id).isSome
  statusWritten : ∀ row ∈ payments.values, ∃ status, row.status = statusToDb status

section Rows

variable [Platform]

/-- A row as a payment with a given status. -/
def PaymentRow.payment (row : PaymentRow) (status : PaymentStatus) : Payment where
  id := row.id
  reference := row.reference
  amount := Platform.decimalToString (Platform.normalize row.amount)
  asset := .xlm
  destination := row.destination
  memo := row.memo
  status := status
  stellarTxHash := row.stellarTxHash
  createdAt := row.createdAt
  updatedAt := row.updatedAt

/-- `TryFrom<PaymentRow> for Payment`. -/
def PaymentRow.toPayment (row : PaymentRow) : Except RepositoryError Payment :=
  if row.asset ≠ "XLM" then .error (.database ("unknown asset: " ++ row.asset))
  else
    match statusFromDb row.status with
    | .error error => .error error
    | .ok status => .ok (row.payment status)

/-- What a row that this program wrote reads back as. -/
def PaymentRow.view (row : PaymentRow) : Payment :=
  match statusFromDb row.status with
  | .error _ => row.payment .pending
  | .ok status => row.payment status

/-- The row `create_with_idempotency_key` inserts for a payment and its stored amount. -/
def Payment.toRow (payment : Payment) (amount : Decimal) : PaymentRow where
  id := payment.id
  reference := payment.reference
  amount := amount
  asset := "XLM"
  destination := payment.destination
  memo := payment.memo
  status := statusToDb payment.status
  stellarTxHash := payment.stellarTxHash
  createdAt := Platform.timestamptz payment.createdAt
  updatedAt := Platform.timestamptz payment.updatedAt

/-- A row that passes the checks reads back without an error. -/
theorem PaymentRow.to_payment_eq {row : PaymentRow} (hasset : row.asset = "XLM")
    (hstatus : ∃ status, row.status = statusToDb status) : row.toPayment = .ok row.view := by
  obtain ⟨status, hstatus⟩ := hstatus
  simp [toPayment, view, hasset, hstatus]

@[simp]
theorem PaymentRow.view_id (row : PaymentRow) : row.view.id = row.id := by
  unfold view
  split <;> rfl

@[simp]
theorem PaymentRow.view_reference (row : PaymentRow) : row.view.reference = row.reference := by
  unfold view
  split <;> rfl

@[simp]
theorem PaymentRow.view_amount (row : PaymentRow) :
    row.view.amount = Platform.decimalToString (Platform.normalize row.amount) := by
  unfold view
  split <;> rfl

@[simp]
theorem PaymentRow.view_createdAt (row : PaymentRow) : row.view.createdAt = row.createdAt := by
  unfold view
  split <;> rfl

@[simp]
theorem PaymentRow.view_stellarTxHash (row : PaymentRow) :
    row.view.stellarTxHash = row.stellarTxHash := by
  unfold view
  split <;> rfl

theorem PaymentRow.view_status {row : PaymentRow} {status : PaymentStatus}
    (h : row.status = statusToDb status) : row.view.status = status := by
  simp [view, h, payment]

end Rows

namespace Database

/-- In empty tables every linked payment is there. -/
theorem empty_key_references (key : String) (id : Uuid)
    (h : (∅ : HashMap String Uuid).lookup key = some id) :
    ((∅ : HashMap Uuid PaymentRow).lookup id).isSome := by
  simp at h

/-- The tables after the migrations. -/
def new : Database where
  payments := ∅
  idempotencyKeys := ∅
  keyed := by simp
  referenceUnique := by simp [HashMap.mem_values]
  hashUnique := by simp [HashMap.mem_values]
  assetChecked := by simp [HashMap.mem_values]
  keyReferences := empty_key_references
  statusWritten := by simp [HashMap.mem_values]

theorem mem_values_iff {db : Database} {row : PaymentRow} :
    row ∈ db.payments.values ↔ db.payments.lookup row.id = some row := by
  rw [HashMap.mem_values]
  constructor
  · intro hentry
    obtain ⟨id, hid⟩ := hentry
    rwa [db.keyed id row hid]
  · exact fun h => ⟨_, h⟩

/-- No other row has this reference. -/
def ReferenceFree (db : Database) (row : PaymentRow) : Prop :=
  ∀ other ∈ db.payments.values, row.reference = other.reference → other.id = row.id

/-- No other row has this hash. -/
def HashFree (db : Database) (row : PaymentRow) : Prop :=
  ∀ other ∈ db.payments.values, row.SameHash other → other.id = row.id

instance (db : Database) (row : PaymentRow) : Decidable (db.ReferenceFree row) :=
  inferInstanceAs (Decidable (∀ _ ∈ _, _))

instance (db : Database) (row : PaymentRow) : Decidable (db.HashFree row) :=
  inferInstanceAs (Decidable (∀ _ ∈ _, _))

/-- The values after a row has been written under its id. -/
theorem mem_insert_values {db : Database} {row other : PaymentRow} :
    other ∈ HashMap.values (db.payments.insert row.id row) ↔
      other = row ∨ other.id ≠ row.id ∧ other ∈ db.payments.values := by
  rw [HashMap.mem_values]
  simp only [HashMap.lookup_insert_eq]
  constructor
  · intro hentry
    obtain ⟨id, hid⟩ := hentry
    split at hid
    · cases hid
      exact .inl rfl
    · rename_i hne
      have hother := db.keyed id other hid
      exact .inr ⟨hother ▸ hne, HashMap.mem_values.mpr ⟨id, hid⟩⟩
  · rintro (rfl | ⟨hne, hmem⟩)
    · exact ⟨other.id, if_pos rfl⟩
    · exact ⟨other.id, by rw [if_neg hne, mem_values_iff.mp hmem]⟩

/-- A uniqueness constraint survives the write of a row that no other row clashes with. -/
theorem unique_insert {db : Database} {row : PaymentRow} {clash : PaymentRow → PaymentRow → Prop}
    (hsymm : ∀ first second, clash first second → clash second first)
    (hold : ∀ first ∈ db.payments.values, ∀ second ∈ db.payments.values,
      clash first second → first.id = second.id)
    (hfree : ∀ other ∈ db.payments.values, clash row other → other.id = row.id) :
    ∀ first ∈ HashMap.values (db.payments.insert row.id row),
      ∀ second ∈ HashMap.values (db.payments.insert row.id row),
        clash first second → first.id = second.id := by
  intro first hfirst second hsecond h
  rcases mem_insert_values.mp hfirst with hrow | ⟨_, hfirst⟩ <;>
    rcases mem_insert_values.mp hsecond with hrow' | ⟨_, hsecond⟩
  · rw [hrow, hrow']
  · exact hrow ▸ (hfree second hsecond (hrow ▸ h)).symm
  · exact hrow' ▸ hfree first hfirst (hrow' ▸ hsymm _ _ h)
  · exact hold first hfirst second hsecond h

/-- A property of single rows survives the write of a row that has it. -/
theorem forall_insert {db : Database} {row : PaymentRow} {property : PaymentRow → Prop}
    (hold : ∀ other ∈ db.payments.values, property other) (hrow : property row) :
    ∀ other ∈ HashMap.values (db.payments.insert row.id row), property other := by
  intro other hother
  rcases mem_insert_values.mp hother with rfl | ⟨_, hother⟩
  · exact hrow
  · exact hold other hother

/-- Write one row, new or changed, subject to the constraints of the table. -/
def write (row : PaymentRow) (hstatus : ∃ status, row.status = statusToDb status)
    (db : Database) : Except SqlxError Database :=
  if hasset : row.asset = "XLM" then
    if hreference : db.ReferenceFree row then
      if hhash : db.HashFree row then
        .ok
          { db with
            payments := db.payments.insert row.id row
            keyed := by
              intro id found h
              rw [HashMap.lookup_insert_eq] at h
              split at h
              · rename_i hid
                cases h
                exact hid.symm
              · exact db.keyed id found h
            referenceUnique := unique_insert (fun _ _ => Eq.symm) db.referenceUnique hreference
            hashUnique := unique_insert (fun _ _ h => ⟨h.2 ▸ h.1, h.2.symm⟩) db.hashUnique hhash
            assetChecked := forall_insert db.assetChecked hasset
            statusWritten := forall_insert db.statusWritten hstatus
            keyReferences := by
              intro key id h
              rw [HashMap.lookup_insert_eq]
              split
              · rfl
              · exact db.keyReferences key id h }
      else .error (uniqueViolation "payments_stellar_tx_hash_key")
    else .error (uniqueViolation "payments_reference_key")
  else .error ⟨some "23514", "new row violates check constraint payments_asset_check"⟩

/-- Link a key to a payment, subject to the constraints of `idempotency_keys`. -/
def writeKey (key : String) (id : Uuid) (db : Database) : Except SqlxError Database :=
  if hasNul key then .error invalidText
  else if (db.idempotencyKeys.lookup key).isSome then
    .error (uniqueViolation "idempotency_keys_pkey")
  else if hpayment : (db.payments.lookup id).isSome then
    .ok
      { db with
        idempotencyKeys := db.idempotencyKeys.insert key id
        keyReferences := by
          intro other target h
          rw [HashMap.lookup_insert_eq] at h
          split at h
          · cases h
            exact hpayment
          · exact db.keyReferences other target h }
  else .error ⟨some "23503", "insert violates foreign key constraint"⟩

section Statements

variable [Platform]

/-- The `INSERT INTO payments` of `create_with_idempotency_key`. -/
def insertPayment (payment : Payment) (amount : Decimal) (db : Database) :
    Except SqlxError (PaymentRow × Database) :=
  if hasNul payment.reference || hasNul payment.destination || (payment.memo.any hasNul) ||
      (payment.stellarTxHash.any hasNul) then .error invalidText
  else
    match Platform.numeric amount with
    | .error message => .error ⟨some "22003", message⟩
    | .ok amount =>
        let row := payment.toRow amount
        if (db.payments.lookup row.id).isSome then .error (uniqueViolation "payments_pkey")
        else
          match db.write row ⟨payment.status, rfl⟩ with
          | .error error => .error error
          | .ok after => .ok (row, after)

/-- `create_with_idempotency_key`: both inserts, or neither. -/
def createWithIdempotencyKey (payment : Payment) (key : Option String) (db : Database) :
    Except RepositoryError Payment × Database :=
  match Platform.decimalFromStr payment.amount with
  | .error error => (.error (.database ("invalid amount: " ++ error)), db)
  | .ok amount =>
      match db.insertPayment payment amount with
      | .error error => (.error (mapSqlxError error), db)
      | .ok (row, inserted) =>
          match key with
          | none => (row.toPayment, inserted)
          | some key =>
              match inserted.writeKey key payment.id with
              -- The transaction rolls back, and the row of the payment with it.
              | .error error => (.error (mapSqlxError error), db)
              | .ok committed => (row.toPayment, committed)

/-- `find_by_id`. -/
def findById (id : Uuid) (db : Database) : Except RepositoryError (Option Payment) :=
  match db.payments.lookup id with
  | none => .ok none
  | some row => row.toPayment.map some

/-- `find_by_reference`. -/
def findByReference (reference : String) (db : Database) :
    Except RepositoryError (Option Payment) :=
  if hasNul reference then .error (mapSqlxError invalidText)
  else
    match db.payments.values.find? fun row => row.reference == reference with
    | none => .ok none
    | some row => row.toPayment.map some

/-- `find_by_idempotency_key`. -/
def findByIdempotencyKey (key : String) (db : Database) :
    Except RepositoryError (Option Payment) :=
  if hasNul key then .error (mapSqlxError invalidText)
  else
    match db.idempotencyKeys.lookup key with
    | none => .ok none
    | some id =>
        match db.payments.lookup id with
        | none => .ok none
        | some row => row.toPayment.map some

/-- The row the `UPDATE` of `update_status` writes. -/
def movedRow (now : DateTime) (next : PaymentStatus) (hash : Option String) (row : PaymentRow) :
    PaymentRow :=
  { row with
    status := statusToDb next, stellarTxHash := hash.or row.stellarTxHash,
    updatedAt := Platform.timestamptz now }

/-- The `UPDATE` of `update_status`. -/
def updateReturning (now : DateTime) (id : Uuid) (next : PaymentStatus) (hash : Option String)
    (db : Database) : Except RepositoryError (Option Payment) × Database :=
  let allowed := (validFromStates next).map statusToDb
  if hash.any hasNul then (.error (mapSqlxError invalidText), db)
  else
    match db.payments.lookup id with
    | none => (.ok none, db)
    | some row =>
        if row.status ∈ allowed then
          let updated := movedRow now next hash row
          match db.write updated ⟨next, rfl⟩ with
          | .error error => (.error (mapSqlxError error), db)
          | .ok after => (updated.toPayment.map some, after)
        else (.ok none, db)

/-- `list_pending_for_reconciliation`. -/
def listPendingForReconciliation (scan : Scan) (db : Database) :
    Except RepositoryError (List Payment) :=
  let rows := (scan.order db.payments.values).filter fun row =>
    row.status == "pending" || row.status == "detected"
  (sortByKey PaymentRow.createdAt rows).mapM PaymentRow.toPayment

/-- The rows a status filter lets through. -/
def matching (filter : Option PaymentStatus) (rows : List PaymentRow) : List PaymentRow :=
  rows.filter fun row =>
    match filter with
    | some status => row.status == statusToDb status
    | none => true

/-- `list_paginated`. -/
def listPaginated (scan : Scan) (filter : Option PaymentStatus) (page perPage : UInt32)
    (db : Database) : Except RepositoryError (List Payment) :=
  let sorted := sortByKey (fun row => -row.createdAt)
    (matching filter (scan.order db.payments.values))
  ((sorted.drop (pageOffset page perPage).toNat).take perPage.toNat).mapM PaymentRow.toPayment

/-- `count`. -/
def count (filter : Option PaymentStatus) (db : Database) : Except RepositoryError Int :=
  .ok (matching filter db.payments.values).length

end Statements

end Database

variable [Platform]

instance : PaymentRepository Database where
  createWithIdempotencyKey := Database.createWithIdempotencyKey
  findById := Database.findById
  findByReference _ := Database.findByReference
  findByIdempotencyKey := Database.findByIdempotencyKey
  guardedUpdate := Database.updateReturning
  listPendingForReconciliation := Database.listPendingForReconciliation
  listPaginated := Database.listPaginated
  count := Database.count

end StellarPay
