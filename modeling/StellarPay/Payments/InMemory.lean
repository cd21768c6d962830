import StellarPay.Payments.Repository

/-!
# The in-memory repository

`InMemoryPaymentRepository`. Every operation holds the one mutex from start to end, so each is
a function of the state. Creation checks the reference but not the idempotency key, and nothing
keeps two payments from holding one ledger hash.
-/

namespace StellarPay

/-- `InMemoryState`. Payments are only ever inserted under their own id, and a key is only ever
linked to a payment that has been inserted. -/
structure InMemoryState where
  payments : HashMap Uuid Payment
  idempotencyKeys : HashMap String Uuid
  keyed : ∀ id payment, payments.lookup id = some payment → payment.id = id
  keyReferences : ∀ key id, idempotencyKeys.lookup key = some id → (payments.lookup id).isSome

namespace InMemoryState

/-- `InMemoryPaymentRepository::new`. -/
def new : InMemoryState :=
  ⟨∅, ∅, by simp, by simp⟩

/-- The state with `payment` stored under its id. -/
def insert (state : InMemoryState) (payment : Payment) : InMemoryState where
  payments := state.payments.insert payment.id payment
  idempotencyKeys := state.idempotencyKeys
  keyed id found h := by
    rw [HashMap.lookup_insert_eq] at h
    split at h
    · rename_i hid
      cases h
      exact hid.symm
    · exact state.keyed id found h
  keyReferences key id h := by
    rw [HashMap.lookup_insert_eq]
    split
    · rfl
    · exact state.keyReferences key id h

/-- The state with `key` linked to a payment it holds. -/
def link (state : InMemoryState) (key : String) (id : Uuid)
    (hpayment : (state.payments.lookup id).isSome) : InMemoryState :=
  { state with
    idempotencyKeys := state.idempotencyKeys.insert key id
    keyReferences := by
      intro other target h
      rw [HashMap.lookup_insert_eq] at h
      split at h
      · cases h
        exact hpayment
      · exact state.keyReferences other target h }

@[simp]
theorem insert_lookup (state : InMemoryState) (payment : Payment) (id : Uuid) :
    (state.insert payment).payments.lookup id =
      if id = payment.id then some payment else state.payments.lookup id :=
  HashMap.lookup_insert_eq _ _ _ _

/-- `create_with_idempotency_key`. -/
def createWithIdempotencyKey (payment : Payment) (key : Option String) (state : InMemoryState) :
    Except RepositoryError Payment × InMemoryState :=
  if state.payments.values.any fun existing => existing.reference == payment.reference then
    (.error (.conflict ("reference already exists: " ++ payment.reference)), state)
  else
    let inserted := state.insert payment
    -- Whether the key is linked already is not looked at.
    match key with
    | some key => (.ok payment, inserted.link key payment.id (by simp [inserted]))
    | none => (.ok payment, inserted)

/-- `find_by_id`. -/
def findById (id : Uuid) (state : InMemoryState) : Except RepositoryError (Option Payment) :=
  .ok (state.payments.lookup id)

/-- `find_by_reference`. -/
def findByReference (scan : Scan) (reference : String) (state : InMemoryState) :
    Except RepositoryError (Option Payment) :=
  .ok ((scan.order state.payments.values).find? fun payment => payment.reference == reference)

/-- `find_by_idempotency_key`. -/
def findByIdempotencyKey (key : String) (state : InMemoryState) :
    Except RepositoryError (Option Payment) :=
  match state.idempotencyKeys.lookup key with
  | none => .ok none
  | some id => .ok (state.payments.lookup id)

/-- `update_status`. -/
def updateStatus (now : DateTime) (id : Uuid) (next : PaymentStatus) (hash : Option String)
    (state : InMemoryState) : Except RepositoryError Payment × InMemoryState :=
  let allowed := validFromStates next
  match state.payments.lookup id with
  | none => (.error .notFound, state)
  | some payment =>
      if payment.status ∈ allowed then
        let updated := payment.moved next hash now
        (.ok updated, state.insert updated)
      else (.error (transitionConflict id next), state)

/-- `list_pending_for_reconciliation`. -/
def listPendingForReconciliation (scan : Scan) (state : InMemoryState) :
    Except RepositoryError (List Payment) :=
  let pending := (scan.order state.payments.values).filter fun payment =>
    payment.status == .pending || payment.status == .detected
  .ok (sortByKey Payment.createdAt pending)

/-- The payments a status filter lets through. -/
def matching (filter : Option PaymentStatus) (payments : List Payment) : List Payment :=
  payments.filter fun payment =>
    match filter with
    | some status => payment.status == status
    | none => true

/-- `list_paginated`. Sorting by the reversed key is sorting by the negated instant. -/
def listPaginated (scan : Scan) (filter : Option PaymentStatus) (page perPage : UInt32)
    (state : InMemoryState) : Except RepositoryError (List Payment) :=
  let sorted := sortByKey (fun payment => -payment.createdAt)
    (matching filter (scan.order state.payments.values))
  .ok ((sorted.drop (pageOffset page perPage).toNat).take perPage.toNat)

/-- `count`. -/
def count (filter : Option PaymentStatus) (state : InMemoryState) : Except RepositoryError Int :=
  .ok (matching filter state.payments.values).length

@[simp]
theorem insert_keys (state : InMemoryState) (payment : Payment) :
    (state.insert payment).idempotencyKeys = state.idempotencyKeys :=
  rfl

@[simp]
theorem link_payments (state : InMemoryState) (key : String) (id : Uuid)
    (hpayment : (state.payments.lookup id).isSome) :
    (state.link key id hpayment).payments = state.payments :=
  rfl

@[simp]
theorem link_lookup (state : InMemoryState) (key other : String) (id : Uuid)
    (hpayment : (state.payments.lookup id).isSome) :
    (state.link key id hpayment).idempotencyKeys.lookup other =
      if other = key then some id else state.idempotencyKeys.lookup other :=
  HashMap.lookup_insert_eq _ _ _ _

/-- A stored payment is found under its own id. -/
theorem mem_values_iff {state : InMemoryState} {payment : Payment} :
    payment ∈ state.payments.values ↔ state.payments.lookup payment.id = some payment := by
  rw [HashMap.mem_values]
  constructor
  · intro hentry
    obtain ⟨id, hid⟩ := hentry
    rwa [state.keyed id payment hid]
  · exact fun h => ⟨_, h⟩

/-- Creation succeeds exactly on an unused reference; then the payment and its key are stored. -/
theorem create_cases (payment : Payment) (key : Option String) (state : InMemoryState) :
    ((∃ existing ∈ state.payments.values, existing.reference = payment.reference) ∧
      ∃ message, state.createWithIdempotencyKey payment key =
        (.error (.conflict message), state)) ∨
    ((∀ existing ∈ state.payments.values, existing.reference ≠ payment.reference) ∧
      ∃ after, state.createWithIdempotencyKey payment key = (.ok payment, after) ∧
        after.payments = (state.insert payment).payments ∧
        ∀ other, after.idempotencyKeys.lookup other =
          if key = some other then some payment.id else state.idempotencyKeys.lookup other) := by
  by_cases hused : ∃ existing ∈ state.payments.values, existing.reference = payment.reference
  · refine .inl ⟨hused, "reference already exists: " ++ payment.reference, ?_⟩
    simp only [createWithIdempotencyKey, List.any_eq_true, beq_iff_eq, if_pos hused]
  · refine .inr ⟨by simpa using hused, ?_⟩
    simp only [createWithIdempotencyKey, List.any_eq_true, beq_iff_eq, if_neg hused]
    cases key with
    | none => exact ⟨_, rfl, rfl, by simp⟩
    | some key =>
        refine ⟨_, rfl, rfl, fun other => ?_⟩
        simp only [link_lookup, insert_keys, Option.some.injEq, eq_comm]

/-- An update is refused, or it moves a stored payment along the state machine. -/
theorem update_cases (now : DateTime) (id : Uuid) (next : PaymentStatus) (hash : Option String)
    (state : InMemoryState) :
    (∃ payment, state.payments.lookup id = some payment ∧
      payment.status.canTransitionTo next = true ∧
      state.updateStatus now id next hash =
        (.ok (payment.moved next hash now), state.insert (payment.moved next hash now))) ∨
    ((∀ payment, state.payments.lookup id = some payment →
        payment.status.canTransitionTo next = false) ∧
      ∃ error, state.updateStatus now id next hash = (.error error, state)) := by
  cases hfound : state.payments.lookup id with
  | none => exact .inr ⟨by simp, .notFound, by simp only [updateStatus, hfound]⟩
  | some payment =>
      cases hguard : payment.status.canTransitionTo next with
      | true => exact .inl ⟨payment, rfl, hguard, by simp [updateStatus, hfound, hguard]⟩
      | false =>
          refine .inr ⟨by simpa using hguard, transitionConflict id next, ?_⟩
          simp [updateStatus, hfound, hguard]

end InMemoryState

instance : PaymentRepository InMemoryState where
  createWithIdempotencyKey := InMemoryState.createWithIdempotencyKey
  findById := InMemoryState.findById
  findByReference := InMemoryState.findByReference
  findByIdempotencyKey := InMemoryState.findByIdempotencyKey
  guardedUpdate now id next hash state :=
    let (result, after) := state.updateStatus now id next hash
    (result.map some, after)
  listPendingForReconciliation := InMemoryState.listPendingForReconciliation
  listPaginated := InMemoryState.listPaginated
  count := InMemoryState.count

namespace InMemoryState

@[simp]
theorem stored_eq (state : InMemoryState) (id : Uuid) :
    stored state id = state.payments.lookup id :=
  rfl

/-- A key is linked to the payment its entry names. -/
@[simp]
theorem linked_eq (state : InMemoryState) (key : String) :
    linked state key = state.idempotencyKeys.lookup key := by
  unfold linked
  simp only [PaymentRepository.findByIdempotencyKey, findByIdempotencyKey]
  cases hkey : state.idempotencyKeys.lookup key with
  | none => rfl
  | some id =>
      obtain ⟨payment, hpayment⟩ := Option.isSome_iff_exists.mp (state.keyReferences key id hkey)
      simp [hpayment, state.keyed id payment hpayment]

/-- A list of the stored payments of some kind names each once. -/
theorem selected {state : InMemoryState} {wanted : Payment → Bool} {payments : List Payment}
    (hperm : payments.Perm (state.payments.values.filter wanted)) :
    (payments.map Payment.id).Nodup ∧ ∀ payment, payment ∈ payments ↔
      stored state payment.id = some payment ∧ wanted payment = true := by
  refine ⟨((hperm.map Payment.id).nodup_iff).mpr ?_, fun payment => ?_⟩
  · exact (HashMap.values_nodup state.keyed).sublist (List.filter_sublist.map _)
  · rw [hperm.mem_iff, List.mem_filter, mem_values_iff, stored_eq]

/-- What the class operation does with the outcome of `update_status`. -/
theorem guarded_update_eq (now : DateTime) (id : Uuid) (next : PaymentStatus)
    (hash : Option String) (state : InMemoryState) :
    PaymentRepository.guardedUpdate now id next hash state =
      ((state.updateStatus now id next hash).1.map some,
        (state.updateStatus now id next hash).2) :=
  rfl

end InMemoryState

open InMemoryState in
instance : RepositoryLaws InMemoryState where
  accepts _ _ _ := True
  findById_eq _ _ := rfl
  stored_id h := keyed _ _ _ h
  create_ok {payment created key state after} h := by
    rcases create_cases payment key state with ⟨_, _, hcreate⟩ | ⟨_, final, hcreate, hpayments, _⟩
    · simp [PaymentRepository.createWithIdempotencyKey, hcreate] at h
    · simp only [PaymentRepository.createWithIdempotencyKey, hcreate, Prod.mk.injEq,
        Except.ok.injEq] at h
      obtain ⟨rfl, rfl⟩ := h
      exact ⟨⟨rfl, rfl, rfl, rfl⟩, rfl, rfl, by simp [hpayments]⟩
  create_error {payment key state after error} h := by
    rcases create_cases payment key state with ⟨_, _, hcreate⟩ | ⟨_, final, hcreate, _⟩
    · simp only [PaymentRepository.createWithIdempotencyKey, hcreate, Prod.mk.injEq] at h
      exact h.2.symm
    · simp [PaymentRepository.createWithIdempotencyKey, hcreate] at h
  update_ok {now id next hash state after updated} h := by
    rw [guarded_update_eq] at h
    rcases update_cases now id next hash state with
      ⟨payment, hfound, hguard, hupdate⟩ | ⟨_, _, hupdate⟩
    · simp only [hupdate, Except.map, Prod.mk.injEq, Except.ok.injEq, Option.some.injEq] at h
      obtain ⟨rfl, rfl⟩ := h
      refine ⟨payment, now, hfound, hguard, rfl, fun other => ?_⟩
      simp [Payment.moved, state.keyed id payment hfound]
    · simp [hupdate, Except.map] at h
  update_none {now id next hash state after} h := by
    rw [guarded_update_eq] at h
    cases hresult : (state.updateStatus now id next hash).1 <;> simp [hresult, Except.map] at h
  update_error {now id next hash state after error} h := by
    rw [guarded_update_eq] at h
    rcases update_cases now id next hash state with
      ⟨payment, hfound, hguard, hupdate⟩ | ⟨_, _, hupdate⟩
    · simp [hupdate, Except.map] at h
    · simp only [hupdate, Prod.mk.injEq] at h
      exact h.2.symm
  update_accepts {now id next hash state payment} hfound hguard := by
    refine ⟨fun _ => trivial, fun _ => ?_⟩
    rcases update_cases now id next hash state with ⟨_, _, _, hupdate⟩ | ⟨hrefused, _⟩
    · exact ⟨_, _, by rw [guarded_update_eq, hupdate]; rfl⟩
    · simp [hrefused payment hfound] at hguard
  mem_pending {scan state} := by
    have hperm := (sort_by_key_perm Payment.createdAt _).trans
      ((scan.order_perm state.payments.values).filter fun payment =>
        payment.status == .pending || payment.status == .detected)
    obtain ⟨hnodup, hmem⟩ := selected hperm
    refine ⟨_, rfl, hnodup, sort_by_key_sorted _ _, fun payment => (hmem payment).trans ?_⟩
    simp

open InMemoryState in
instance : KeyLaws InMemoryState where
  find_key {key state found} h := by
    simp only [PaymentRepository.findByIdempotencyKey, findByIdempotencyKey] at h
    rw [linked_eq]
    split at h
    · rename_i hkey
      cases h
      exact ⟨hkey, by simp⟩
    · rename_i id hkey
      cases h
      obtain ⟨payment, hpayment⟩ := Option.isSome_iff_exists.mp (state.keyReferences key id hkey)
      have hid := state.keyed id payment hpayment
      simp only [hkey, hpayment, Option.map_some, hid, true_and]
      rintro _ ⟨⟩
      rw [stored_eq, hid, hpayment]
  find_linked {key state id} h := by
    rw [linked_eq] at h
    obtain ⟨payment, hpayment⟩ := Option.isSome_iff_exists.mp (state.keyReferences key id h)
    exact ⟨payment, by simp [PaymentRepository.findByIdempotencyKey, findByIdempotencyKey, h,
      hpayment]⟩
  create_links {payment created key state after} h name := by
    rcases create_cases payment key state with ⟨_, _, hcreate⟩ | ⟨_, final, hcreate, _, hkeys⟩
    · simp [PaymentRepository.createWithIdempotencyKey, hcreate] at h
    · simp only [PaymentRepository.createWithIdempotencyKey, hcreate, Prod.mk.injEq] at h
      rw [← h.2, linked_eq, linked_eq, hkeys]
  update_links now id next hash state name := by
    rw [guarded_update_eq]
    rcases update_cases now id next hash state with
      ⟨payment, _, _, hupdate⟩ | ⟨_, _, hupdate⟩ <;> simp [hupdate]

end StellarPay
