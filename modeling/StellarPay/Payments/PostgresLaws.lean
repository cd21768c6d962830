import StellarPay.Payments.Postgres

/-!
# What the Postgres statements do

One inversion lemma for each writing statement, and from them the laws of the trait.
-/

namespace StellarPay

namespace Database

/-- A write that succeeds stores the row, and the row clashed with no other. -/
theorem write_ok {row : PaymentRow} {hstatus : ∃ status, row.status = statusToDb status}
    {db after : Database} (h : db.write row hstatus = .ok after) :
    db.ReferenceFree row ∧ db.HashFree row ∧ after.idempotencyKeys = db.idempotencyKeys ∧
      ∀ id, after.payments.lookup id = if id = row.id then some row else db.payments.lookup id := by
  unfold write at h
  split at h
  · split at h
    · split at h
      · rename_i _ hreference hhash
        cases h
        exact ⟨hreference, hhash, rfl, fun id => HashMap.lookup_insert_eq _ _ id _⟩
      · cases h
    · cases h
  · cases h

/-- A write that fails on an `XLM` row broke a uniqueness constraint. -/
theorem write_error {row : PaymentRow} {hstatus : ∃ status, row.status = statusToDb status}
    {db : Database} {error : SqlxError} (hasset : row.asset = "XLM")
    (h : db.write row hstatus = .error error) :
    (¬ db.ReferenceFree row ∨ ¬ db.HashFree row) ∧ ∃ name, error = uniqueViolation name := by
  simp only [write, dif_pos hasset] at h
  split at h
  · split at h
    · cases h
    · rename_i hhash
      cases h
      exact ⟨.inr hhash, _, rfl⟩
  · rename_i hreference
    cases h
    exact ⟨.inl hreference, _, rfl⟩

/-- A key that is linked was free, and only it changes. -/
theorem write_key_ok {key : String} {id : Uuid} {db after : Database}
    (h : db.writeKey key id = .ok after) :
    hasNul key = false ∧ db.idempotencyKeys.lookup key = none ∧ after.payments = db.payments ∧
      ∀ other, after.idempotencyKeys.lookup other =
        if other = key then some id else db.idempotencyKeys.lookup other := by
  unfold writeKey at h
  split at h
  · cases h
  · rename_i hnul
    split at h
    · cases h
    · rename_i hfree
      split at h
      · cases h
        exact ⟨by simpa using hnul, by simpa using hfree, rfl,
          fun other => HashMap.lookup_insert_eq _ _ other _⟩
      · cases h

/-- A uniqueness violation is what becomes a conflict. -/
theorem map_sqlx_error_conflict_iff {error : SqlxError} :
    (∃ message, mapSqlxError error = .conflict message) ↔ error.code = some "23505" := by
  unfold mapSqlxError
  split <;> simp_all

/-- Linking a key to a stored payment conflicts exactly when the key is linked. -/
theorem write_key_conflict_iff (key : String) {id : Uuid} {db : Database}
    (hpayment : (db.payments.lookup id).isSome = true) :
    (∃ error, db.writeKey key id = .error error ∧ error.code = some "23505") ↔
      hasNul key = false ∧ db.idempotencyKeys.lookup key ≠ none := by
  unfold writeKey
  split
  · rename_i hnul
    simp [hnul, invalidText]
  · rename_i hnul
    split
    · rename_i hlinked
      simp [hnul, Option.isSome_iff_ne_none.mp hlinked, uniqueViolation]
    · rename_i hlinked
      simp [Option.not_isSome_iff_eq_none.mp hlinked]

variable [Platform]

/-- Every stored row reads back. -/
theorem to_payment_of_lookup {db : Database} {id : Uuid} {row : PaymentRow}
    (h : db.payments.lookup id = some row) : row.toPayment = .ok row.view := by
  have hrow : row ∈ db.payments.values := HashMap.mem_values.mpr ⟨id, h⟩
  exact row.to_payment_eq (db.assetChecked row hrow) (db.statusWritten row hrow)

/-- A read by id finds the view of the row. -/
theorem find_by_id_eq (db : Database) (id : Uuid) :
    db.findById id = .ok ((db.payments.lookup id).map PaymentRow.view) := by
  unfold findById
  cases hrow : db.payments.lookup id with
  | none => rfl
  | some row =>
      simp only [to_payment_of_lookup hrow]
      rfl

@[simp]
theorem stored_eq (db : Database) (id : Uuid) :
    stored db id = (db.payments.lookup id).map PaymentRow.view := by
  simp [stored, PaymentRepository.findById, find_by_id_eq]

/-- A read by key finds the payment the key references. -/
theorem linked_eq (db : Database) (key : String) :
    linked db key = if hasNul key then none else db.idempotencyKeys.lookup key := by
  simp only [linked, PaymentRepository.findByIdempotencyKey, findByIdempotencyKey]
  cases hnul : hasNul key with
  | true => rfl
  | false =>
      cases hkey : db.idempotencyKeys.lookup key with
      | none => rfl
      | some id =>
          obtain ⟨row, hrow⟩ := Option.isSome_iff_exists.mp (db.keyReferences key id hkey)
          simp [hrow, to_payment_of_lookup hrow, Except.map, db.keyed id row hrow]

/-- A lookup of valid text answers. -/
theorem find_key_answers {key : String} (hnul : hasNul key = false) (db : Database) :
    ∃ found, PaymentRepository.findByIdempotencyKey key db = .ok found := by
  simp only [PaymentRepository.findByIdempotencyKey, findByIdempotencyKey, hnul]
  cases hkey : db.idempotencyKeys.lookup key with
  | none => exact ⟨none, rfl⟩
  | some id =>
      obtain ⟨row, hrow⟩ := Option.isSome_iff_exists.mp (db.keyReferences key id hkey)
      exact ⟨some row.view, by simp [hrow, to_payment_of_lookup hrow, Except.map]⟩

/-- An insert that succeeds uses a new id and a new reference. -/
theorem insert_payment_ok {payment : Payment} {amount : Decimal} {db after : Database}
    {row : PaymentRow} (h : db.insertPayment payment amount = .ok (row, after)) :
    ∃ numeric, Platform.numeric amount = .ok numeric ∧ row = payment.toRow numeric ∧
      db.payments.lookup payment.id = none ∧ db.ReferenceFree row ∧
      after.idempotencyKeys = db.idempotencyKeys ∧ ∀ id, after.payments.lookup id =
        if id = payment.id then some row else db.payments.lookup id := by
  unfold insertPayment at h
  split at h
  · cases h
  · split at h
    · cases h
    · rename_i numeric hnumeric
      dsimp only at h
      split at h
      · cases h
      · rename_i hfree
        split at h
        · cases h
        · rename_i written hwrite
          cases h
          obtain ⟨hreference, _, hkeys, hlookup⟩ := write_ok hwrite
          exact ⟨numeric, hnumeric, rfl, by simpa [Payment.toRow] using hfree, hreference, hkeys,
            hlookup⟩

/-- The transaction stores the payment and its key together, or changes nothing. -/
theorem create_cases (payment : Payment) (key : Option String) (db : Database) :
    (∃ error, db.createWithIdempotencyKey payment key = (.error error, db)) ∨
    ∃ amount after, db.createWithIdempotencyKey payment key =
        (.ok (payment.toRow amount).view, after) ∧
      db.payments.lookup payment.id = none ∧ db.ReferenceFree (payment.toRow amount) ∧
      (∀ name, key = some name → hasNul name = false ∧ db.idempotencyKeys.lookup name = none) ∧
      (∀ id, after.payments.lookup id =
        if id = payment.id then some (payment.toRow amount) else db.payments.lookup id) ∧
      (∀ name, after.idempotencyKeys.lookup name =
        if key = some name then some payment.id else db.idempotencyKeys.lookup name) ∧
      ∃ asked, Platform.decimalFromStr payment.amount = .ok asked ∧
        Platform.numeric asked = .ok amount := by
  unfold createWithIdempotencyKey
  split
  · exact .inl ⟨_, rfl⟩
  · rename_i asked hasked
    split
    · exact .inl ⟨_, rfl⟩
    · rename_i row inserted hinsert
      obtain ⟨amount, hkept, rfl, hid, hreference, hkeys, hlookup⟩ := insert_payment_ok hinsert
      have hread : (payment.toRow amount).toPayment = .ok (payment.toRow amount).view :=
        to_payment_of_lookup ((hlookup payment.id).trans (if_pos rfl))
      split
      · exact .inr ⟨amount, inserted, by rw [hread], hid, hreference, by simp, hlookup,
          by simp [hkeys], asked, hasked, hkept⟩
      · rename_i name
        split
        · exact .inl ⟨_, rfl⟩
        · rename_i committed hcommit
          obtain ⟨hnul, hfree, hpayments, hlink⟩ := write_key_ok hcommit
          refine .inr ⟨amount, committed, by rw [hread], hid, hreference, ?_, ?_, ?_, asked,
            hasked, hkept⟩
          · rintro _ ⟨⟩
            exact ⟨hnul, hkeys ▸ hfree⟩
          · rw [hpayments]
            exact hlookup
          · intro other
            rw [hlink, hkeys]
            simp only [Option.some.injEq, eq_comm]

/-- The conditions under which a payment may be given a hash: nobody else holds it. -/
def Accepts (db : Database) (id : Uuid) (hash : Option String) : Prop :=
  ∀ text, hash = some text → hasNul text = false ∧
    ∀ other payment, stored db other = some payment → other ≠ id →
      payment.stellarTxHash ≠ some text

/-- The row an update writes clashes with no other row exactly when the hash is accepted. -/
theorem hash_free_moved {db : Database} {now : DateTime} {id : Uuid} {next : PaymentStatus}
    {hash : Option String} {row : PaymentRow} (hrow : db.payments.lookup id = some row)
    (hnul : hash.any hasNul = false) :
    db.HashFree (movedRow now next hash row) ↔ db.Accepts id hash := by
  have hid := db.keyed id row hrow
  cases hash with
  | none =>
      -- The row keeps its hash, and that is unique already.
      refine ⟨fun _ => by simp [Accepts], fun _ other hother h => ?_⟩
      exact (db.hashUnique row (HashMap.mem_values.mpr ⟨id, hrow⟩) other hother h).symm
  | some text =>
      have hnul : hasNul text = false := by simpa using hnul
      constructor
      · rintro hfree _ ⟨⟩
        refine ⟨hnul, fun other payment hother hne hhash => hne ?_⟩
        obtain ⟨found, hfound, rfl⟩ := Option.map_eq_some_iff.mp (stored_eq db other ▸ hother)
        rw [PaymentRow.view_stellarTxHash] at hhash
        have hsame := hfree found (HashMap.mem_values.mpr ⟨other, hfound⟩)
          ⟨by simp [movedRow], by simp [movedRow, hhash]⟩
        rw [← db.keyed other found hfound, hsame]
        exact hid
      · intro haccepts other hother h
        by_contra hne
        have hlookup := mem_values_iff.mp hother
        refine (haccepts text rfl).2 other.id other.view (by simp [hlookup]) ?_ ?_
        · exact fun heq => hne (heq.trans hid.symm)
        · rw [PaymentRow.view_stellarTxHash, ← h.2]
          rfl

/-- A moved row reads back as the moved payment. -/
theorem moved_row_view (now : DateTime) (next : PaymentStatus) (hash : Option String)
    (row : PaymentRow) :
    (movedRow now next hash row).view = row.view.moved next hash (Platform.timestamptz now) := by
  have hview : ∃ status, row.view = row.payment status := by
    unfold PaymentRow.view
    split <;> exact ⟨_, rfl⟩
  obtain ⟨status, hview⟩ := hview
  rw [hview]
  simp [PaymentRow.view, movedRow, PaymentRow.payment, Payment.moved]

/-- The text guard of the `UPDATE` decides by the state machine. -/
theorem guard_iff {db : Database} {id : Uuid} (next : PaymentStatus) {row : PaymentRow}
    (hrow : db.payments.lookup id = some row) :
    row.status ∈ (validFromStates next).map statusToDb ↔
      row.view.status.canTransitionTo next = true := by
  obtain ⟨status, hstatus⟩ := db.statusWritten row (HashMap.mem_values.mpr ⟨id, hrow⟩)
  rw [hstatus, status_to_db_mem_valid, PaymentRow.view_status hstatus]

/-- An accepted hash is valid text. -/
theorem Accepts.plain {db : Database} {id : Uuid} {hash : Option String}
    (h : db.Accepts id hash) : hash.any hasNul = false := by
  cases hash with
  | none => rfl
  | some text => exact (h text rfl).1

/-- The reference of a row was unique before the row moved. -/
theorem reference_free_moved {db : Database} {now : DateTime} {id : Uuid} {next : PaymentStatus}
    {hash : Option String} {row : PaymentRow} (hrow : db.payments.lookup id = some row) :
    db.ReferenceFree (movedRow now next hash row) :=
  fun other hother h =>
    (db.referenceUnique row (HashMap.mem_values.mpr ⟨id, hrow⟩) other hother h).symm

section Update

variable {db : Database} {id : Uuid} {next : PaymentStatus} {hash : Option String}
  {row : PaymentRow}

/-- The guarded update fails on a hash that is not valid text. -/
theorem update_nul (now : DateTime) (id : Uuid) (next : PaymentStatus) (db : Database)
    (hnul : hash.any hasNul = true) :
    db.updateReturning now id next hash = (.error (mapSqlxError invalidText), db) := by
  simp only [updateReturning, hnul]
  rfl

/-- It matches nothing where no transition is open. -/
theorem update_unmatched (now : DateTime) (hnul : hash.any hasNul = false)
    (hclosed : ∀ payment, stored db id = some payment →
      payment.status.canTransitionTo next = false) :
    db.updateReturning now id next hash = (.ok none, db) := by
  simp only [updateReturning, hnul]
  cases hrow : db.payments.lookup id with
  | none => rfl
  | some row =>
      have hguard : row.status ∉ (validFromStates next).map statusToDb := by
        rw [guard_iff next hrow, hclosed row.view (by simp [hrow])]
        exact Bool.false_ne_true
      simp [hguard]

/-- It violates a uniqueness constraint where the hash is not accepted. -/
theorem update_clash (now : DateTime) (hnul : hash.any hasNul = false)
    (hrow : db.payments.lookup id = some row)
    (hopen : row.view.status.canTransitionTo next = true) (hrefused : ¬ db.Accepts id hash) :
    ∃ name, db.updateReturning now id next hash =
      (.error (mapSqlxError (uniqueViolation name)), db) := by
  have hguard := (guard_iff next hrow).mpr hopen
  have hhash : ¬ db.HashFree (movedRow now next hash row) :=
    mt (hash_free_moved hrow hnul).mp hrefused
  have hasset := db.assetChecked row (HashMap.mem_values.mpr ⟨id, hrow⟩)
  cases hwrite : db.write (movedRow now next hash row) ⟨next, rfl⟩ with
  | ok after => exact absurd (write_ok hwrite).2.1 hhash
  | error error =>
      obtain ⟨-, name, rfl⟩ := write_error (by exact hasset) hwrite
      refine ⟨name, ?_⟩
      simp only [updateReturning, hnul, hrow, hguard, hwrite]
      rfl

/-- It writes the moved row where the transition is open and the hash accepted. -/
theorem update_written (now : DateTime) (hrow : db.payments.lookup id = some row)
    (hopen : row.view.status.canTransitionTo next = true) (haccepts : db.Accepts id hash) :
    ∃ after, db.updateReturning now id next hash =
        (.ok (some (row.view.moved next hash (Platform.timestamptz now))), after) ∧
      after.idempotencyKeys = db.idempotencyKeys ∧
      ∀ other, after.payments.lookup other =
        if other = id then some (movedRow now next hash row) else db.payments.lookup other := by
  have hnul := haccepts.plain
  have hguard := (guard_iff next hrow).mpr hopen
  have hasset := db.assetChecked row (HashMap.mem_values.mpr ⟨id, hrow⟩)
  cases hwrite : db.write (movedRow now next hash row) ⟨next, rfl⟩ with
  | ok after =>
      obtain ⟨-, -, hkeys, hlookup⟩ := write_ok hwrite
      have hid : (movedRow now next hash row).id = id := db.keyed id row hrow
      rw [hid] at hlookup
      have hread := to_payment_of_lookup ((hlookup id).trans (if_pos rfl))
      refine ⟨after, ?_, hkeys, hlookup⟩
      simp only [updateReturning, hnul, hrow, hguard, hwrite, hread, moved_row_view]
      rfl
  | error error =>
      rcases (write_error (by exact hasset) hwrite).1 with hclash | hclash
      · exact absurd (reference_free_moved hrow) hclash
      · exact absurd ((hash_free_moved hrow hnul).mpr haccepts) hclash

end Update

/-- The guarded update moves a stored payment, matches nothing, or fails without effect. -/
theorem update_cases (now : DateTime) (id : Uuid) (next : PaymentStatus) (hash : Option String)
    (db : Database) :
    (∃ row after, db.payments.lookup id = some row ∧
      row.view.status.canTransitionTo next = true ∧ db.Accepts id hash ∧
      db.updateReturning now id next hash =
        (.ok (some (row.view.moved next hash (Platform.timestamptz now))), after) ∧
      after.idempotencyKeys = db.idempotencyKeys ∧
      ∀ other, after.payments.lookup other =
        if other = id then some (movedRow now next hash row) else db.payments.lookup other) ∨
    ((∀ payment, stored db id = some payment → payment.status.canTransitionTo next = true →
        ¬ db.Accepts id hash) ∧
      ((∃ error, db.updateReturning now id next hash = (.error error, db)) ∨
        db.updateReturning now id next hash = (.ok none, db))) := by
  by_cases hopen : ∃ row, db.payments.lookup id = some row ∧
      row.view.status.canTransitionTo next = true
  · obtain ⟨row, hrow, hopen⟩ := hopen
    by_cases haccepts : db.Accepts id hash
    · obtain ⟨after, hupdate, hkeys, hlookup⟩ := update_written now hrow hopen haccepts
      exact .inl ⟨row, after, hrow, hopen, haccepts, hupdate, hkeys, hlookup⟩
    · refine .inr ⟨fun _ _ _ => haccepts, .inl ?_⟩
      cases hnul : hash.any hasNul with
      | true => exact ⟨_, update_nul now id next db hnul⟩
      | false =>
          obtain ⟨name, hupdate⟩ := update_clash now hnul hrow hopen haccepts
          exact ⟨_, hupdate⟩
  · have hclosed : ∀ payment, stored db id = some payment →
        payment.status.canTransitionTo next = false := by
      intro payment hpayment
      obtain ⟨row, hrow, rfl⟩ := Option.map_eq_some_iff.mp (stored_eq db id ▸ hpayment)
      exact Bool.eq_false_iff.mpr fun h => hopen ⟨row, hrow, h⟩
    refine .inr ⟨fun payment hpayment h => ?_, ?_⟩
    · rw [hclosed payment hpayment] at h
      cases h
    · cases hnul : hash.any hasNul with
      | true => exact .inl ⟨_, update_nul now id next db hnul⟩
      | false => exact .inr (update_unmatched now hnul hclosed)

/-- The text condition of the listing is the condition on statuses. -/
theorem pending_text_iff {db : Database} {row : PaymentRow} (hrow : row ∈ db.payments.values) :
    (row.status == "pending" || row.status == "detected") = true ↔
      row.view.status = .pending ∨ row.view.status = .detected := by
  obtain ⟨status, hstatus⟩ := db.statusWritten row hrow
  rw [hstatus, PaymentRow.view_status hstatus]
  cases status <;> decide

/-- A list of the rows of some kind, as payments, names each once. -/
theorem selected {db : Database} {chosen : PaymentRow → Bool} {wanted : PaymentStatus → Bool}
    {rows : List PaymentRow}
    (hchosen : ∀ row ∈ db.payments.values, chosen row = wanted row.view.status)
    (hperm : rows.Perm (db.payments.values.filter chosen)) :
    ((rows.map PaymentRow.view).map Payment.id).Nodup ∧
      ∀ payment, payment ∈ rows.map PaymentRow.view ↔
        stored db payment.id = some payment ∧ wanted payment.status = true := by
  constructor
  · rw [List.map_map, (hperm.map _).nodup_iff]
    have hids : PaymentRow.id = Payment.id ∘ PaymentRow.view := by
      funext row
      simp
    rw [← hids]
    exact (HashMap.values_nodup db.keyed).sublist (List.filter_sublist.map _)
  · intro payment
    rw [(hperm.map PaymentRow.view).mem_iff, stored_eq]
    simp only [List.mem_map, List.mem_filter, Option.map_eq_some_iff]
    constructor
    · intro hchosen
      obtain ⟨row, ⟨hrow, hrowChosen⟩, rfl⟩ := hchosen
      rw [PaymentRow.view_id]
      exact ⟨⟨row, mem_values_iff.mp hrow, rfl⟩, (hchosen row hrow).symm.trans hrowChosen⟩
    · intro hlisted
      obtain ⟨⟨row, hrow, rfl⟩, hwanted⟩ := hlisted
      have hmem : row ∈ db.payments.values := HashMap.mem_values.mpr ⟨_, hrow⟩
      exact ⟨row, ⟨hmem, (hchosen row hmem).trans hwanted⟩, rfl⟩

/-- Converting rows that all read back is converting each of them. -/
theorem collect_eq (db : Database) {rows : List PaymentRow}
    (hrows : ∀ row ∈ rows, row ∈ db.payments.values) :
    rows.mapM PaymentRow.toPayment = .ok (rows.map PaymentRow.view) :=
  mapM_eq_map fun row hrow => to_payment_of_lookup (mem_values_iff.mp (hrows row hrow))

end Database

open Database

variable [Platform]

instance : RepositoryLaws Database where
  accepts := Accepts
  findById_eq db id := by rw [stored_eq]; exact find_by_id_eq db id
  stored_id {db id payment} h := by
    rw [stored_eq] at h
    obtain ⟨row, hrow, rfl⟩ := Option.map_eq_some_iff.mp h
    rw [PaymentRow.view_id]
    exact db.keyed id row hrow
  create_ok {payment created key db after} h := by
    rcases create_cases payment key db with
      ⟨_, hcreate⟩ | ⟨amount, final, hcreate, _, _, _, hlookup, _⟩
    · simp [PaymentRepository.createWithIdempotencyKey, hcreate] at h
    · simp only [PaymentRepository.createWithIdempotencyKey, hcreate, Prod.mk.injEq,
        Except.ok.injEq] at h
      obtain ⟨rfl, rfl⟩ := h
      have hview : (payment.toRow amount).view = (payment.toRow amount).payment payment.status := by
        simp [PaymentRow.view, Payment.toRow]
      refine ⟨⟨?_, ?_, ?_, ?_⟩, ?_, ?_, fun id => ?_⟩
      iterate 6 rw [hview]; rfl
      rw [stored_eq, stored_eq, hlookup]
      split <;> rfl
  create_error {payment key db after error} h := by
    rcases create_cases payment key db with ⟨_, hcreate⟩ | ⟨amount, final, hcreate, _⟩
    · simp only [PaymentRepository.createWithIdempotencyKey, hcreate, Prod.mk.injEq] at h
      exact h.2.symm
    · simp [PaymentRepository.createWithIdempotencyKey, hcreate] at h
  update_ok {now id next hash db after updated} h := by
    rcases update_cases now id next hash db with
      ⟨row, final, hrow, hguard, _, hupdate, _, hlookup⟩ | ⟨_, ⟨_, hupdate⟩ | hupdate⟩
    · simp only [PaymentRepository.guardedUpdate, hupdate, Prod.mk.injEq, Except.ok.injEq,
        Option.some.injEq] at h
      obtain ⟨rfl, rfl⟩ := h
      refine ⟨row.view, _, by simp [hrow], hguard, rfl, fun other => ?_⟩
      rw [stored_eq, stored_eq, hlookup]
      split
      · rw [Option.map_some, moved_row_view]
      · rfl
    · simp [PaymentRepository.guardedUpdate, hupdate] at h
    · simp [PaymentRepository.guardedUpdate, hupdate] at h
  update_none {now id next hash db after} h := by
    rcases update_cases now id next hash db with
      ⟨_, _, _, _, _, hupdate, _⟩ | ⟨_, ⟨_, hupdate⟩ | hupdate⟩ <;>
      simp_all [PaymentRepository.guardedUpdate]
  update_error {now id next hash db after error} h := by
    rcases update_cases now id next hash db with
      ⟨_, _, _, _, _, hupdate, _⟩ | ⟨_, ⟨_, hupdate⟩ | hupdate⟩ <;>
      simp_all [PaymentRepository.guardedUpdate]
  update_accepts {now id next hash db payment} hfound hguard := by
    rcases update_cases now id next hash db with
      ⟨_, after, _, _, haccepts, hupdate, _⟩ | ⟨hrefused, hupdate⟩
    · exact ⟨fun _ => haccepts, fun _ => ⟨_, _, hupdate⟩⟩
    · refine ⟨?_, fun haccepts => absurd haccepts (hrefused payment hfound hguard)⟩
      intro hsucceeds
      obtain ⟨updated, after, hok⟩ := hsucceeds
      rcases hupdate with ⟨_, hupdate⟩ | hupdate <;>
        simp [PaymentRepository.guardedUpdate, hupdate] at hok
  mem_pending {scan db} := by
    have hperm := (sort_by_key_perm PaymentRow.createdAt _).trans
      ((scan.order_perm db.payments.values).filter fun row =>
        row.status == "pending" || row.status == "detected")
    have hrows := collect_eq db fun row hrow =>
      List.mem_of_mem_filter (hperm.mem_iff.mp hrow)
    have hchosen : ∀ row ∈ db.payments.values,
        (row.status == "pending" || row.status == "detected") =
          (row.view.status == .pending || row.view.status == .detected) := by
      intro row hrow
      rw [Bool.eq_iff_iff, pending_text_iff hrow]
      simp
    obtain ⟨hnodup, hmem⟩ := @selected _ db _
      (fun status => status == .pending || status == .detected) _ hchosen hperm
    refine ⟨_, hrows, hnodup, ?_, fun payment => (hmem payment).trans ?_⟩
    · rw [List.pairwise_map]
      simpa using sort_by_key_sorted PaymentRow.createdAt _
    · simp

instance : KeyLaws Database where
  find_key {key db found} h := by
    simp only [PaymentRepository.findByIdempotencyKey, findByIdempotencyKey] at h
    rw [linked_eq]
    split at h
    · cases h
    · rename_i hnul
      rw [if_neg hnul]
      split at h
      · rename_i hkey
        cases h
        exact ⟨hkey, by simp⟩
      · rename_i id hkey
        obtain ⟨row, hrow⟩ := Option.isSome_iff_exists.mp (db.keyReferences key id hkey)
        rw [hrow] at h
        simp only [to_payment_of_lookup hrow, Except.map, Except.ok.injEq] at h
        subst h
        have hid := db.keyed id row hrow
        simp only [hkey, Option.map_some, PaymentRow.view_id, hid, true_and]
        rintro _ ⟨⟩
        simp [hid, hrow]
  find_linked {key db id} h := by
    rw [linked_eq] at h
    split at h
    · cases h
    · rename_i hnul
      obtain ⟨row, hrow⟩ := Option.isSome_iff_exists.mp (db.keyReferences key id h)
      exact ⟨row.view, by simp [PaymentRepository.findByIdempotencyKey, findByIdempotencyKey, hnul,
        h, hrow, to_payment_of_lookup hrow, Except.map]⟩
  create_links {payment created key db after} h name := by
    rcases create_cases payment key db with
      ⟨_, hcreate⟩ | ⟨_, final, hcreate, _, _, hfree, _, hkeys, _⟩
    · simp [PaymentRepository.createWithIdempotencyKey, hcreate] at h
    · simp only [PaymentRepository.createWithIdempotencyKey, hcreate, Prod.mk.injEq] at h
      rw [← h.2, linked_eq, linked_eq, hkeys]
      by_cases hkey : key = some name
      · rw [if_pos hkey, if_pos hkey, (hfree name hkey).1]
        rfl
      · rw [if_neg hkey, if_neg hkey]
  update_links now id next hash db name := by
    simp only [PaymentRepository.guardedUpdate]
    rcases update_cases now id next hash db with
      ⟨_, _, _, _, _, hupdate, hkeys, _⟩ | ⟨_, ⟨_, hupdate⟩ | hupdate⟩
    · rw [hupdate, linked_eq, linked_eq, hkeys]
    · rw [hupdate]
    · rw [hupdate]

/-- A key that a creation on Postgres links was not linked before, and its payment is new. -/
theorem create_new {payment created : Payment} {key : Option String} {db after : Database}
    (h : PaymentRepository.createWithIdempotencyKey payment key db = (.ok created, after)) :
    stored db payment.id = none ∧ ∀ name, key = some name → linked db name = none := by
  rcases create_cases payment key db with
    ⟨_, hcreate⟩ | ⟨_, final, hcreate, hid, _, hfree, _⟩
  · simp [PaymentRepository.createWithIdempotencyKey, hcreate] at h
  · refine ⟨by simp [hid], fun name hname => ?_⟩
    obtain ⟨hnul, hlookup⟩ := hfree name hname
    simp [linked_eq, hlookup]

/-- The columns can hold the payment: its amount is a decimal in range, and no text has a NUL. -/
def Payment.storable (payment : Payment) : Bool :=
  match Platform.decimalFromStr payment.amount with
  | .error _ => false
  | .ok amount =>
      match Platform.numeric amount with
      | .error _ => false
      | .ok _ => !(hasNul payment.reference || hasNul payment.destination ||
          payment.memo.any hasNul || payment.stellarTxHash.any hasNul)

/-- The insert of a storable payment without a hash fails exactly on a used identifier or a used
reference, and then with a uniqueness violation. -/
theorem insert_payment_cases {payment : Payment} {amount : Decimal} (db : Database)
    (hhash : payment.stellarTxHash = none) (hstorable : payment.storable = true)
    (hamount : Platform.decimalFromStr payment.amount = .ok amount) :
    ((stored db payment.id = none ∧
        ∀ other ∈ db.payments.values, other.reference ≠ payment.reference) ∧
      ∃ row after, db.insertPayment payment amount = .ok (row, after)) ∨
    (¬ (stored db payment.id = none ∧
        ∀ other ∈ db.payments.values, other.reference ≠ payment.reference) ∧
      ∃ name, db.insertPayment payment amount = .error (uniqueViolation name)) := by
  simp only [Payment.storable, hamount] at hstorable
  cases hnumeric : Platform.numeric amount with
  | error message => simp [hnumeric] at hstorable
  | ok stored =>
      have htext : (hasNul payment.reference || hasNul payment.destination ||
          payment.memo.any hasNul || payment.stellarTxHash.any hasNul) = false := by
        simpa [hnumeric] using hstorable
      simp only [insertPayment, htext, hnumeric, stored_eq, Option.map_eq_none_iff]
      cases hid : db.payments.lookup payment.id with
      | some row =>
          refine .inr ⟨by simp, "payments_pkey", ?_⟩
          simp [Payment.toRow, hid]
      | none =>
          have hnew : ∀ other ∈ db.payments.values, other.id ≠ payment.id := by
            intro other hother heq
            rw [mem_values_iff, heq, hid] at hother
            cases hother
          have hrow : (db.payments.lookup (payment.toRow stored).id).isSome = false := by
            simp [Payment.toRow, hid]
          have hfree : db.HashFree (payment.toRow stored) :=
            fun other _ h => absurd hhash h.1
          simp only [hrow]
          cases hwrite : db.write (payment.toRow stored) ⟨payment.status, rfl⟩ with
          | ok after =>
              refine .inl ⟨⟨trivial, fun other hother heq => ?_⟩, _, after, rfl⟩
              exact hnew other hother ((write_ok hwrite).1 other hother heq.symm)
          | error error =>
              obtain ⟨hclash, name, rfl⟩ := write_error rfl hwrite
              refine .inr ⟨fun h => ?_, name, rfl⟩
              refine hclash.elim (fun hreference => hreference ?_) fun hhash => hhash hfree
              exact fun other hother heq => absurd heq.symm (h.2 other hother)

/-- The insert of a payment that is not storable fails for another reason than uniqueness. -/
theorem insert_payment_unstorable {payment : Payment} {amount : Decimal} (db : Database)
    (hstorable : payment.storable = false)
    (hamount : Platform.decimalFromStr payment.amount = .ok amount) :
    ∃ error, db.insertPayment payment amount = .error error ∧ error.code ≠ some "23505" := by
  simp only [Payment.storable, hamount] at hstorable
  unfold insertPayment
  split
  · exact ⟨invalidText, rfl, by decide⟩
  · rename_i htext
    cases hnumeric : Platform.numeric amount with
    | error message => exact ⟨_, rfl, by simp⟩
    | ok stored => simp_all

/-- Once the payment is inserted, the transaction conflicts exactly on a key that is linked. -/
theorem conflict_after_insert_iff {payment : Payment} {amount : Decimal} {key : Option String}
    {db inserted : Database} {row : PaymentRow}
    (hamount : Platform.decimalFromStr payment.amount = .ok amount)
    (hinsert : db.insertPayment payment amount = .ok (row, inserted)) :
    (∃ message, (db.createWithIdempotencyKey payment key).1 = .error (.conflict message)) ↔
      ∃ name, key = some name ∧ linked db name ≠ none := by
  obtain ⟨numeric, _, rfl, _, _, hkeys, hlookup⟩ := insert_payment_ok hinsert
  have hstored : inserted.payments.lookup payment.id = some (payment.toRow numeric) :=
    (hlookup payment.id).trans (if_pos rfl)
  have hread := to_payment_of_lookup hstored
  cases key with
  | none => simp [createWithIdempotencyKey, hamount, hinsert, hread]
  | some key =>
      have hlinked : linked db key ≠ none ↔
          hasNul key = false ∧ db.idempotencyKeys.lookup key ≠ none := by
        rw [linked_eq]
        cases hasNul key <;> simp
      have hconflict := write_key_conflict_iff key
        (show (inserted.payments.lookup payment.id).isSome = true by rw [hstored]; rfl)
      rw [hkeys, ← hlinked] at hconflict
      simp only [createWithIdempotencyKey, hamount, hinsert, Option.some.injEq, exists_eq_left',
        ← hconflict, ← map_sqlx_error_conflict_iff]
      cases inserted.writeKey key payment.id with
      | ok committed => simp [hread]
      | error error => simp

/-- A creation conflicts exactly when the payment is storable and its identifier, its reference or
its key is in use. -/
theorem create_conflict_iff {payment : Payment} {key : Option String} {db : Database}
    (hhash : payment.stellarTxHash = none) :
    (∃ message, (db.createWithIdempotencyKey payment key).1 = .error (.conflict message)) ↔
      payment.storable = true ∧ (stored db payment.id ≠ none ∨
        (∃ other ∈ db.payments.values, other.reference = payment.reference) ∨
        ∃ name, key = some name ∧ linked db name ≠ none) := by
  cases hamount : Platform.decimalFromStr payment.amount with
  | error message => simp [createWithIdempotencyKey, Payment.storable, hamount]
  | ok amount =>
      cases hstorable : payment.storable with
      | false =>
          obtain ⟨error, hinsert, hcode⟩ := insert_payment_unstorable db hstorable hamount
          simp [createWithIdempotencyKey, hamount, hinsert, map_sqlx_error_conflict_iff, hcode]
      | true =>
          rcases insert_payment_cases db hhash hstorable hamount with
            ⟨⟨hid, hreference⟩, row, inserted, hinsert⟩ | ⟨hused, name, hinsert⟩
          · rw [conflict_after_insert_iff hamount hinsert]
            refine ⟨fun hkey => ⟨rfl, .inr (.inr hkey)⟩, ?_⟩
            rintro ⟨_, hused | ⟨other, hother, heq⟩ | hkey⟩
            · exact absurd hid hused
            · exact absurd heq (hreference other hother)
            · exact hkey
          · simp only [createWithIdempotencyKey, hamount, hinsert, map_unique_violation]
            refine iff_of_true ⟨_, rfl⟩ ⟨trivial, ?_⟩
            by_contra hfree
            simp only [not_or, not_exists, not_and, not_not] at hfree
            exact hused ⟨hfree.1, fun other hother => hfree.2.1 other hother⟩

/-- A creation under a key that is valid text succeeds or conflicts exactly when the payment is
storable. -/
theorem create_storable_iff {payment : Payment} {key : Option String} (db : Database)
    (hhash : payment.stellarTxHash = none) (hkey : ∀ name, key = some name → hasNul name = false) :
    ((∃ created, (db.createWithIdempotencyKey payment key).1 = .ok created) ∨
      ∃ message, (db.createWithIdempotencyKey payment key).1 = .error (.conflict message)) ↔
      payment.storable = true := by
  cases hamount : Platform.decimalFromStr payment.amount with
  | error message => simp [createWithIdempotencyKey, Payment.storable, hamount]
  | ok amount =>
      cases hstorable : payment.storable with
      | false =>
          obtain ⟨error, hinsert, hcode⟩ := insert_payment_unstorable db hstorable hamount
          simp [createWithIdempotencyKey, hamount, hinsert, map_sqlx_error_conflict_iff, hcode]
      | true =>
          refine iff_of_true ?_ rfl
          rcases insert_payment_cases db hhash hstorable hamount with
            ⟨-, row, inserted, hinsert⟩ | ⟨-, name, hinsert⟩
          · obtain ⟨numeric, -, rfl, -, -, -, hlookup⟩ := insert_payment_ok hinsert
            have hstored := (hlookup payment.id).trans (if_pos rfl)
            have hread := to_payment_of_lookup hstored
            cases key with
            | none => simp [createWithIdempotencyKey, hamount, hinsert, hread]
            | some name =>
                cases hlinked : inserted.idempotencyKeys.lookup name <;>
                  simp [createWithIdempotencyKey, hamount, hinsert, writeKey, hkey name rfl,
                    hstored, hread, hlinked]
          · simp [createWithIdempotencyKey, hamount, hinsert]

end StellarPay
