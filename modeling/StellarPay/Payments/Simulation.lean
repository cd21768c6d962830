import StellarPay.Payments.Agreement

/-!
# The operations on related stores

For each operation of the trait: on related stores the two implementations answer alike exactly
under a condition on the input and the store, and the stores are then related again. The conditions
are the constraints of the schema that the maps do not have.
-/

namespace StellarPay

open PaymentRepository

section Conditions

variable {σ : Type} [PaymentRepository σ]

/-- Some payment has this reference. -/
def ReferenceUsed (state : σ) (reference : String) : Prop :=
  ∃ id payment, stored state id = some payment ∧ payment.reference = reference

/-- No other payment holds this hash. -/
def HashUnused (state : σ) (id : Uuid) (hash : String) : Prop :=
  ∀ other holder, stored state other = some holder → other ≠ id →
    holder.stellarTxHash ≠ some hash

/-- The payment can make the transition. -/
def CanMove (state : σ) (id : Uuid) (next : PaymentStatus) : Prop :=
  ∃ payment, stored state id = some payment ∧ payment.status.canTransitionTo next = true

/-- The answer to a lookup of a reference. -/
structure FindsReference (state : σ) (reference : String) (found : Option Payment) : Prop where
  some : ∀ payment, found = some payment →
    stored state payment.id = some payment ∧ payment.reference = reference
  none : found = none → ¬ ReferenceUsed state reference

/-- Why an update without a transition to make is refused. -/
def refusal (id : Uuid) (next : PaymentStatus) : Option Payment → RepositoryError
  | some _ => transitionConflict id next
  | none => .notFound

/-- What `update_status` makes of the guarded write. If nothing matched, a read tells why. -/
def updateOutcome (id : Uuid) (next : PaymentStatus) (found : Option Payment) :
    Except RepositoryError (Option Payment) → Except RepositoryError Payment
  | .error error => .error error
  | .ok (some updated) => .ok updated
  | .ok none => .error (refusal id next found)

/-- An update carries out a transition that is open, or changes nothing. -/
theorem update_effect [RepositoryLaws σ] (now : DateTime) (id : Uuid) (next : PaymentStatus)
    (hash : Option String) (state : σ) (found : Option Payment) :
    (∃ updated, CanMove state id next ∧
      updateOutcome id next found (guardedUpdate now id next hash state).1 = .ok updated ∧
      ∀ other, stored (guardedUpdate now id next hash state).2 other =
        if other = id then some updated else stored state other) ∨
    ((∃ error, updateOutcome id next found (guardedUpdate now id next hash state).1 =
        .error error) ∧ (guardedUpdate now id next hash state).2 = state) := by
  cases hanswer : guardedUpdate now id next hash state with
  | mk result after =>
      rcases result with error | _ | updated
      · exact .inr ⟨⟨error, rfl⟩, RepositoryLaws.update_error hanswer⟩
      · exact .inr ⟨⟨refusal id next found, rfl⟩, RepositoryLaws.update_none hanswer⟩
      · obtain ⟨payment, -, hpayment, hopen, -, hstored⟩ := RepositoryLaws.update_ok hanswer
        exact .inl ⟨updated, ⟨payment, hpayment, hopen⟩, rfl, hstored⟩

end Conditions

/-- In memory the lookup of a reference finds a payment that has it. -/
theorem InMemoryState.find_reference (scan : Scan) (reference : String) (state : InMemoryState) :
    ∃ found, findByReference scan reference state = .ok found ∧
      FindsReference state reference found := by
  refine ⟨_, rfl, fun payment hfound => ?_, fun hnone => ?_⟩
  · have hmem := List.mem_of_find?_eq_some hfound
    rw [Scan.mem_order, mem_values_iff] at hmem
    exact ⟨hmem, by simpa using List.find?_some hfound⟩
  · intro hused
    obtain ⟨id, payment, hstored, hreference⟩ := hused
    have hmem : payment ∈ scan.order state.payments.values :=
      Scan.mem_order.mpr (HashMap.mem_values.mpr ⟨id, hstored⟩)
    have hne := List.find?_eq_none.mp hnone payment hmem
    simp [hreference] at hne

/-- In memory a creation is refused exactly on a used reference. -/
theorem InMemoryState.create_answers (memory : InMemoryState) (payment : Payment)
    (key : Option String) :
    (ReferenceUsed memory payment.reference ∧ ∃ message,
      (PaymentRepository.createWithIdempotencyKey payment key memory).1 =
        .error (.conflict message)) ∨
    (¬ ReferenceUsed memory payment.reference ∧
      (PaymentRepository.createWithIdempotencyKey payment key memory).1 = .ok payment) := by
  rcases create_cases payment key memory with
    ⟨⟨existing, hexisting, hreference⟩, message, hcreate⟩ | ⟨hfree, after, hcreate, -⟩
  · refine .inl ⟨⟨existing.id, existing, ?_, hreference⟩, message, congrArg Prod.fst hcreate⟩
    exact mem_values_iff.mp hexisting
  · refine .inr ⟨?_, congrArg Prod.fst hcreate⟩
    intro hused
    obtain ⟨id, other, hother, hreference⟩ := hused
    exact hfree other (HashMap.mem_values.mpr ⟨id, hother⟩) hreference

/-- In memory a hash is unused if no other value of the map holds it. -/
theorem InMemoryState.hash_unused_iff {memory : InMemoryState} {id : Uuid} {hash : String} :
    HashUnused memory id hash ↔
      ∀ holder ∈ memory.payments.values, holder.id ≠ id → holder.stellarTxHash ≠ some hash := by
  constructor
  · exact fun hunused holder hholder => hunused holder.id holder (mem_values_iff.mp hholder)
  · intro hvalues other holder hholder hne
    refine hvalues holder (HashMap.mem_values.mpr ⟨other, hholder⟩) ?_
    rwa [memory.keyed other holder hholder]

instance (memory : InMemoryState) (id : Uuid) (hash : String) :
    Decidable (HashUnused memory id hash) :=
  decidable_of_iff _ InMemoryState.hash_unused_iff.symm

/-- In memory the guarded write tells a missing payment from a refused transition. -/
theorem InMemoryState.update_answers (now : DateTime) (id : Uuid) (next : PaymentStatus)
    (hash : Option String) (memory : InMemoryState) :
    (guardedUpdate now id next hash memory).1 =
      match stored memory id with
      | none => .error .notFound
      | some payment =>
          if payment.status.canTransitionTo next then .ok (some (payment.moved next hash now))
          else .error (transitionConflict id next) := by
  rw [guarded_update_eq, stored_eq, updateStatus]
  cases hfound : memory.payments.lookup id with
  | none => rfl
  | some payment =>
      simp only [mem_valid_from_states]
      split <;> rfl

variable [Platform]

/-- In the tables the lookup of a reference that is valid text finds a payment that has it. -/
theorem Database.find_reference {reference : String} (hnul : hasNul reference = false)
    (db : Database) :
    ∃ found, db.findByReference reference = .ok found ∧ FindsReference db reference found := by
  simp only [Database.findByReference, hnul]
  cases hfind : db.payments.values.find? fun row => row.reference == reference with
  | none =>
      refine ⟨none, rfl, by simp, fun _ => ?_⟩
      intro hused
      obtain ⟨id, payment, hstored, hreference⟩ := hused
      obtain ⟨row, hrow, rfl⟩ := Option.map_eq_some_iff.mp (stored_eq db id ▸ hstored)
      have hne := List.find?_eq_none.mp hfind row (HashMap.mem_values.mpr ⟨id, hrow⟩)
      simp [← hreference] at hne
  | some row =>
      have hrow := mem_values_iff.mp (List.mem_of_find?_eq_some hfind)
      refine ⟨some row.view, by simp [to_payment_of_lookup hrow, Except.map], ?_, by simp⟩
      rintro _ ⟨⟩
      rw [stored_eq, PaymentRow.view_id, hrow, PaymentRow.view_reference]
      exact ⟨rfl, by simpa using List.find?_some hfind⟩

/-- Two payments in the tables have distinct references. -/
theorem Database.stored_reference {db : Database} {first second : Uuid} {payment other : Payment}
    (hfirst : stored db first = some payment) (hsecond : stored db second = some other)
    (hsame : payment.reference = other.reference) : payment = other := by
  obtain ⟨row, hrow, rfl⟩ := Option.map_eq_some_iff.mp (stored_eq db first ▸ hfirst)
  obtain ⟨row', hrow', rfl⟩ := Option.map_eq_some_iff.mp (stored_eq db second ▸ hsecond)
  have hid := db.referenceUnique row (HashMap.mem_values.mpr ⟨first, hrow⟩) row'
    (HashMap.mem_values.mpr ⟨second, hrow'⟩) (by simpa using hsame)
  rw [db.keyed first row hrow, db.keyed second row' hrow'] at hid
  subst hid
  cases hrow.symm.trans hrow'
  rfl

/-- A reference is used in the tables if a row has it. -/
theorem Database.reference_used_iff {db : Database} {reference : String} :
    (∃ other ∈ db.payments.values, other.reference = reference) ↔ ReferenceUsed db reference := by
  constructor
  · intro hused
    obtain ⟨row, hrow, hreference⟩ := hused
    refine ⟨row.id, row.view, ?_, by simpa using hreference⟩
    rw [stored_eq, mem_values_iff.mp hrow]
    rfl
  · intro hused
    obtain ⟨id, payment, hstored, hreference⟩ := hused
    obtain ⟨row, hrow, rfl⟩ := Option.map_eq_some_iff.mp (stored_eq db id ▸ hstored)
    exact ⟨row, HashMap.mem_values.mpr ⟨id, hrow⟩, by simpa using hreference⟩

/-- In the tables, a creation with a fresh identifier and an unused reference succeeds exactly when
the columns can hold the payment and its key is valid text and not linked. -/
theorem Database.create_ok_iff [DecimalLaws] {payment : Payment} (key : Option String)
    {decimal : Decimal} {db : Database} (hvalid : validateAmount payment.amount = .ok decimal)
    (hhash : payment.stellarTxHash = none) (hunused : stored db payment.id = none)
    (hreference : ¬ ReferenceUsed db payment.reference) :
    (∃ created, (PaymentRepository.createWithIdempotencyKey payment key db).1 = .ok created) ↔
      payment.FitsColumns ∧
        ∀ name, key = some name → hasNul name = false ∧ linked db name = none := by
  rw [← Payment.storable_iff hvalid hhash]
  constructor
  · intro hcreated
    obtain ⟨created, hok⟩ := hcreated
    rcases create_cases payment key db with
      ⟨error, hcreate⟩ | ⟨amount, after, hcreate, -, -, hkey, -⟩
    · simp [PaymentRepository.createWithIdempotencyKey, hcreate] at hok
    · have hnul : ∀ name, key = some name → hasNul name = false :=
        fun name hname => (hkey name hname).1
      refine ⟨(create_storable_iff db hhash hnul).mp (.inl ⟨created, hok⟩), fun name hname => ?_⟩
      obtain ⟨hplain, hfree⟩ := hkey name hname
      exact ⟨hplain, by simp [linked_eq, hfree]⟩
  · intro hfits
    obtain ⟨hstorable, hkey⟩ := hfits
    have hnul : ∀ name, key = some name → hasNul name = false :=
      fun name hname => (hkey name hname).1
    refine ((create_storable_iff db hhash hnul).mpr hstorable).resolve_right fun hconflict => ?_
    rcases ((create_conflict_iff hhash).mp hconflict).2 with hused | hused | ⟨name, hname, hlinked⟩
    · exact hused hunused
    · exact hreference (reference_used_iff.mp hused)
    · exact hlinked (hkey name hname).2

namespace Related

variable {memory : InMemoryState} {db : Database}

/-- The same references are in use. -/
theorem reference_used_iff (h : Related memory db) (reference : String) :
    ReferenceUsed memory reference ↔ ReferenceUsed db reference := by
  constructor
  · intro hused
    obtain ⟨id, payment, hstored, rfl⟩ := hused
    obtain ⟨kept, hkept, hsame⟩ := h.in_tables hstored
    exact ⟨id, kept, hkept, hsame.reference.symm⟩
  · intro hused
    obtain ⟨id, kept, hkept, rfl⟩ := hused
    obtain ⟨payment, hstored, hsame⟩ := h.in_memory hkept
    exact ⟨id, payment, hstored, hsame.reference⟩

/-- The same hashes are in use. -/
theorem hash_unused_iff (h : Related memory db) (id : Uuid) (hash : String) :
    HashUnused memory id hash ↔ HashUnused db id hash := by
  constructor
  · intro hunused other kept hkept hne
    obtain ⟨payment, hstored, hsame⟩ := h.in_memory hkept
    exact hsame.stellarTxHash ▸ hunused other payment hstored hne
  · intro hunused other payment hstored hne
    obtain ⟨kept, hkept, hsame⟩ := h.in_tables hstored
    exact hsame.stellarTxHash ▸ hunused other kept hkept hne

/-- The same transitions are open. -/
theorem can_move_iff (h : Related memory db) (id : Uuid) (next : PaymentStatus) :
    CanMove memory id next ↔ CanMove db id next := by
  constructor
  · intro hopen
    obtain ⟨payment, hstored, hmove⟩ := hopen
    obtain ⟨kept, hkept, hsame⟩ := h.in_tables hstored
    exact ⟨kept, hkept, hsame.status ▸ hmove⟩
  · intro hopen
    obtain ⟨kept, hkept, hmove⟩ := hopen
    obtain ⟨payment, hstored, hsame⟩ := h.in_memory hkept
    exact ⟨payment, hstored, hsame.status ▸ hmove⟩

/-- `find_by_id` answers alike. -/
theorem find_by_id (h : Related memory db) (id : Uuid) :
    SameResult (Option.Rel Payment.SameAs) (findById id memory) (findById id db) := by
  rw [RepositoryLaws.findById_eq, RepositoryLaws.findById_eq]
  exact h.payments id

/-- `find_by_reference` answers alike exactly if the reference is valid text. -/
theorem find_by_reference_iff (h : Related memory db) (scan scan' : Scan) (reference : String) :
    SameResult (Option.Rel Payment.SameAs) (findByReference scan reference memory)
      (findByReference scan' reference db) ↔ hasNul reference = false := by
  obtain ⟨first, hfirst, hfinds⟩ := memory.find_reference scan reference
  have hmemory : findByReference scan reference memory = .ok first := hfirst
  rw [hmemory]
  cases hnul : hasNul reference with
  | true =>
      refine iff_of_false ?_ (by simp)
      simp [findByReference, Database.findByReference, hnul, SameResult]
  | false =>
      obtain ⟨second, hsecond, hfinds'⟩ := Database.find_reference hnul db
      have hdb : findByReference scan' reference db = .ok second := hsecond
      rw [hdb]
      refine iff_of_true ?_ rfl
      cases first with
      | none =>
          cases second with
          | none => exact .none
          | some kept =>
              obtain ⟨hkept, hreference⟩ := hfinds'.some kept rfl
              refine absurd ?_ (hfinds.none rfl)
              exact (h.reference_used_iff reference).mpr ⟨_, kept, hkept, hreference⟩
      | some payment =>
          obtain ⟨hstored, hreference⟩ := hfinds.some payment rfl
          obtain ⟨kept, hkept, hsame⟩ := h.in_tables hstored
          cases second with
          | none =>
              refine absurd ?_ (hfinds'.none rfl)
              exact ⟨_, kept, hkept, hsame.reference.symm.trans hreference⟩
          | some other =>
              -- The reference is unique in the tables, so both have found the same payment.
              obtain ⟨hother, hreference'⟩ := hfinds'.some other rfl
              have hequal : kept = other := Database.stored_reference hkept hother
                (hsame.reference.symm.trans (hreference.trans hreference'.symm))
              exact .some (hequal ▸ hsame)

/-- `find_by_idempotency_key` answers alike exactly if the key is valid text. -/
theorem find_by_key_iff (h : Related memory db) (key : String) :
    SameResult (Option.Rel Payment.SameAs) (findByIdempotencyKey key memory)
      (findByIdempotencyKey key db) ↔ hasNul key = false := by
  obtain ⟨first, hfirst⟩ : ∃ found, findByIdempotencyKey key memory = .ok found := by
    simp only [findByIdempotencyKey, InMemoryState.findByIdempotencyKey]
    cases memory.idempotencyKeys.lookup key <;> exact ⟨_, rfl⟩
  rw [hfirst]
  cases hnul : hasNul key with
  | true =>
      refine iff_of_false ?_ (by simp)
      simp [findByIdempotencyKey, Database.findByIdempotencyKey, hnul, SameResult]
  | false =>
      obtain ⟨second, hsecond⟩ := Database.find_key_answers hnul db
      rw [hsecond]
      refine iff_of_true ?_ rfl
      obtain ⟨hlinked, hstored⟩ := KeyLaws.find_key hfirst
      obtain ⟨hlinked', hstored'⟩ := KeyLaws.find_key hsecond
      have hids := hlinked.symm.trans ((h.keys key).trans hlinked')
      cases first with
      | none =>
          cases second with
          | none => exact .none
          | some kept => cases hids
      | some payment =>
          cases second with
          | none => cases hids
          | some kept =>
              have hid : payment.id = kept.id := by simpa using hids
              obtain ⟨other, hother, hsame⟩ := h.in_tables (hstored payment rfl)
              rw [hid, hstored' kept rfl] at hother
              cases hother
              exact .some hsame

/-- Listings of the stored payments are the same. -/
theorem same_pending (h : Related memory db)
    (hmono : ∀ first second, first ≤ second →
      Platform.timestamptz first ≤ Platform.timestamptz second) (scan scan' : Scan) :
    SameResult SameListing (listPendingForReconciliation scan memory)
      (listPendingForReconciliation scan' db) := by
  obtain ⟨firsts, hmemory, hfirsts⟩ := pending_listing scan memory
  obtain ⟨seconds, hdb, hseconds⟩ := pending_listing scan' db
  rw [hmemory, hdb]
  exact h.same_listing hmono (fun _ _ => Int.le_antisymm) hfirsts hseconds

/-- The pages show the same part of listings that are the same. -/
theorem same_page (h : Related memory db)
    (hmono : ∀ first second, first ≤ second →
      Platform.timestamptz first ≤ Platform.timestamptz second) (scan scan' : Scan)
    (filter : Option PaymentStatus) (page perPage : UInt32) :
    ∃ firsts seconds, listPaginated scan filter page perPage memory =
        .ok (pageOf page perPage firsts) ∧
      listPaginated scan' filter page perPage db = .ok (pageOf page perPage seconds) ∧
      Listing memory (selects filter) (fun first second => second ≤ first) firsts ∧
      Listing db (selects filter) (fun first second => second ≤ first) seconds ∧
      SameListing firsts seconds := by
  obtain ⟨firsts, hmemory, hfirsts⟩ := ListingLaws.page scan filter page perPage memory
  obtain ⟨seconds, hdb, hseconds⟩ := ListingLaws.page scan' filter page perPage db
  refine ⟨firsts, seconds, hmemory, hdb, hfirsts, hseconds, ?_⟩
  exact h.same_listing (fun first second => hmono second first)
    (fun _ _ hle hge => Int.le_antisymm hge hle) hfirsts hseconds

/-- The counts are the same. -/
theorem same_count (h : Related memory db) (filter : Option PaymentStatus) :
    SameResult Eq (count filter memory) (count filter db) := by
  obtain ⟨firsts, hmemory, hfirsts⟩ := ListingLaws.count filter memory
  obtain ⟨seconds, hdb, hseconds⟩ := ListingLaws.count filter db
  obtain ⟨permuted, hperm, hrelated⟩ := h.same_payments hfirsts hseconds
  rw [hmemory, hdb]
  exact congrArg Nat.cast (hperm.length_eq.trans hrelated.length_eq)

/-- `create_with_idempotency_key` with a fresh identifier answers alike exactly if the columns can
hold the payment, and its reference is refused anyway or its key is valid text and not linked. -/
theorem create_iff [DecimalLaws] {payment : Payment} {key : Option String} {decimal : Decimal}
    (h : Related memory db) (hvalid : validateAmount payment.amount = .ok decimal)
    (hhash : payment.stellarTxHash = none) (hunused : stored memory payment.id = none) :
    SameResult Payment.SameAs (createWithIdempotencyKey payment key memory).1
        (createWithIdempotencyKey payment key db).1 ↔
      payment.FitsColumns ∧ (ReferenceUsed memory payment.reference ∨
        ∀ name, key = some name → hasNul name = false ∧ linked memory name = none) := by
  rcases memory.create_answers payment key with ⟨hused, message, hmemory⟩ | ⟨hfree, hmemory⟩
  · have hused' : ∃ other ∈ db.payments.values, other.reference = payment.reference :=
      Database.reference_used_iff.mpr ((h.reference_used_iff payment.reference).mp hused)
    rw [hmemory, same_result_conflict_iff]
    refine (create_conflict_iff hhash).trans ?_
    rw [Payment.storable_iff hvalid hhash]
    exact and_congr_right fun _ => iff_of_true (.inr (.inl hused')) (.inl hused)
  · have hfree' := mt (h.reference_used_iff payment.reference).mpr hfree
    have hok := Database.create_ok_iff key hvalid hhash
      ((h.stored_none_iff payment.id).mp hunused) hfree'
    simp only [hmemory, same_result_ok_iff, hfree, false_or, h.keys, ← hok]
    refine exists_congr fun created => and_iff_left_of_imp fun hcreated => ?_
    rcases Database.create_cases payment key db with
      ⟨error, hcreate⟩ | ⟨kept, after, hcreate, -, -, -, -, -, asked, hasked, hkept⟩
    · simp [createWithIdempotencyKey, hcreate] at hcreated
    · simp only [createWithIdempotencyKey, hcreate, Except.ok.injEq] at hcreated
      cases (validate_amount_ok hvalid).1.symm.trans hasked
      exact hcreated ▸ Payment.same_as_view hvalid hkept

/-- Creations that answer alike leave related stores. -/
theorem after_create {payment : Payment} {key : Option String} (h : Related memory db)
    (hsame : SameResult Payment.SameAs (createWithIdempotencyKey payment key memory).1
      (createWithIdempotencyKey payment key db).1) :
    Related (createWithIdempotencyKey payment key memory).2
      (createWithIdempotencyKey payment key db).2 := by
  generalize hmemory : createWithIdempotencyKey payment key memory = first at *
  generalize hdb : createWithIdempotencyKey payment key db = second at *
  obtain ⟨error | created, after⟩ := first <;> obtain ⟨error' | created', after'⟩ := second
  · cases RepositoryLaws.create_error hmemory
    cases RepositoryLaws.create_error hdb
    exact h
  · exact hsame.elim
  · exact hsame.elim
  · obtain ⟨-, -, -, hstored⟩ := RepositoryLaws.create_ok hmemory
    obtain ⟨-, -, -, hstored'⟩ := RepositoryLaws.create_ok hdb
    refine ⟨fun id => ?_, fun name => ?_⟩
    · rw [hstored, hstored']
      by_cases hid : id = payment.id
      · rw [if_pos hid, if_pos hid]
        exact .some hsame
      · rw [if_neg hid, if_neg hid]
        exact h.payments id
    · rw [KeyLaws.create_links hmemory, KeyLaws.create_links hdb, h.keys]

/-- A transition that is open is carried out alike exactly if the tables accept the hash. -/
theorem update_open_iff (h : Related memory db) (now later : DateTime) {id : Uuid}
    {next : PaymentStatus} {hash : Option String} (hmove : CanMove memory id next) :
    SameResult Payment.SameAs
        (updateOutcome id next (stored memory id) (guardedUpdate now id next hash memory).1)
        (updateOutcome id next (stored db id) (guardedUpdate later id next hash db).1) ↔
      db.Accepts id hash := by
  obtain ⟨payment, hstored, hopen⟩ := hmove
  obtain ⟨kept, hkept, hsame⟩ := h.in_tables hstored
  obtain ⟨row, hrow, rfl⟩ := Option.map_eq_some_iff.mp (Database.stored_eq db id ▸ hkept)
  have hopen' : row.view.status.canTransitionTo next = true := hsame.status ▸ hopen
  simp only [memory.update_answers, hstored, hopen, if_pos, updateOutcome, same_result_ok_iff]
  simp only [guardedUpdate]
  by_cases haccepts : db.Accepts id hash
  · obtain ⟨after, hdb, -, -⟩ := Database.update_written later hrow hopen' haccepts
    rw [hdb]
    exact iff_of_true ⟨_, rfl, hsame.moved next hash now _⟩ haccepts
  · refine iff_of_false ?_ haccepts
    cases hnul : hash.any hasNul with
    | true => simp [Database.update_nul later id next db hnul]
    | false =>
        obtain ⟨name, hdb⟩ := Database.update_clash later hnul hrow hopen' haccepts
        simp [hdb]

/-- Refusals of one update are of one variant, and never errors of the database. -/
theorem same_refusal (h : Related memory db) (id : Uuid) (next : PaymentStatus) :
    (refusal id next (stored memory id)).SameVariant (refusal id next (stored db id)) ∧
      ∀ message, ¬ (refusal id next (stored memory id)).SameVariant (.database message) := by
  cases hstored : stored memory id with
  | none =>
      rw [(h.stored_none_iff id).mp hstored]
      exact ⟨trivial, fun _ hsame => hsame⟩
  | some payment =>
      obtain ⟨kept, hkept, -⟩ := h.in_tables hstored
      rw [hkept]
      exact ⟨trivial, fun _ hsame => hsame⟩

/-- Where no transition is open, updates answer alike exactly if the hash is valid text. -/
theorem update_closed_iff (h : Related memory db) (now later : DateTime) {id : Uuid}
    {next : PaymentStatus} {hash : Option String} (hclosed : ¬ CanMove memory id next) :
    SameResult Payment.SameAs
        (updateOutcome id next (stored memory id) (guardedUpdate now id next hash memory).1)
        (updateOutcome id next (stored db id) (guardedUpdate later id next hash db).1) ↔
      hash.any hasNul = false := by
  obtain ⟨hsame, hother⟩ := h.same_refusal id next
  have hmemory :
      updateOutcome id next (stored memory id) (guardedUpdate now id next hash memory).1 =
        .error (refusal id next (stored memory id)) := by
    rw [memory.update_answers]
    cases hstored : stored memory id with
    | none => rfl
    | some payment =>
        have hrefused : ¬ payment.status.canTransitionTo next = true :=
          fun hopen => hclosed ⟨payment, hstored, hopen⟩
        simp only [if_neg hrefused]
        rfl
  have hclosed' : ∀ kept, stored db id = some kept → kept.status.canTransitionTo next = false :=
    fun kept hkept => Bool.eq_false_iff.mpr fun hopen =>
      hclosed ((h.can_move_iff id next).mpr ⟨kept, hkept, hopen⟩)
  rw [hmemory]
  simp only [guardedUpdate]
  cases hnul : hash.any hasNul with
  | true =>
      rw [Database.update_nul later id next db hnul]
      exact iff_of_false (hother _) (by simp)
  | false =>
      rw [Database.update_unmatched later hnul hclosed']
      exact iff_of_true hsame rfl

/-- `update_status` answers alike exactly if the hash is valid text, and if the payment can make the
transition no other payment holds the hash. -/
theorem update_iff (h : Related memory db) (now later : DateTime) (id : Uuid)
    (next : PaymentStatus) (hash : Option String) :
    SameResult Payment.SameAs
        (updateOutcome id next (stored memory id) (guardedUpdate now id next hash memory).1)
        (updateOutcome id next (stored db id) (guardedUpdate later id next hash db).1) ↔
      ∀ text, hash = some text → hasNul text = false ∧
        (CanMove memory id next → HashUnused memory id text) := by
  by_cases hmove : CanMove memory id next
  · rw [h.update_open_iff now later hmove]
    simp only [hmove, forall_const, h.hash_unused_iff]
    rfl
  · rw [h.update_closed_iff now later hmove]
    cases hash <;> simp [hmove]

/-- Updates that answer alike leave related stores. -/
theorem after_update (h : Related memory db) (now later : DateTime) (id : Uuid)
    (next : PaymentStatus) (hash : Option String)
    (hsame : SameResult Payment.SameAs
      (updateOutcome id next (stored memory id) (guardedUpdate now id next hash memory).1)
      (updateOutcome id next (stored db id) (guardedUpdate later id next hash db).1)) :
    Related (guardedUpdate now id next hash memory).2
      (guardedUpdate later id next hash db).2 := by
  refine ⟨fun other => ?_, fun name => ?_⟩
  · rcases update_effect now id next hash memory (stored memory id) with
      ⟨updated, -, hmemory, hafter⟩ | ⟨⟨error, hmemory⟩, hafter⟩ <;>
    rcases update_effect later id next hash db (stored db id) with
      ⟨updated', -, hdb, hafter'⟩ | ⟨⟨error', hdb⟩, hafter'⟩ <;>
    rw [hmemory, hdb] at hsame
    · rw [hafter, hafter']
      by_cases hid : other = id
      · rw [if_pos hid, if_pos hid]
        exact .some hsame
      · rw [if_neg hid, if_neg hid]
        exact h.payments other
    · exact hsame.elim
    · exact hsame.elim
    · rw [hafter, hafter']
      exact h.payments other
  · rw [KeyLaws.update_links, KeyLaws.update_links, h.keys]

end Related

end StellarPay
