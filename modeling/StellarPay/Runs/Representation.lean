import StellarPay.Runs.Equivalence

/-!
# The maps of the repository in memory

`InMemoryPaymentRepository` keeps two maps. Whatever is asked of it, from the empty state on, its
payments are stored under their own ids, their references are distinct and its keys name payments
that are stored, as long as every payment that is created has a new id. What is looked up then does
not depend on the order in which the maps are iterated.
-/

namespace StellarPay

/-- The error that a result reports. -/
def failure {α : Type} : Except RepositoryError α → Option RepositoryError
  | .ok _ => none
  | .error error => some error

/-- The error that the result of a call reports. -/
def RepositoryCall.failure : (call : RepositoryCall) → call.Result → Option RepositoryError
  | .createWithIdempotencyKey _ _, result | .updateStatus _ _ _, result => StellarPay.failure result
  | .findById _, result | .findByReference _, result | .findByIdempotencyKey _, result =>
      StellarPay.failure result
  | .listPendingForReconciliation, result | .listPaginated _ _ _, result =>
      StellarPay.failure result
  | .count _, result => StellarPay.failure result

namespace InMemoryState

/-- Carry out a call at a moment. The mutex is held from start to end. -/
def perform (scan : Scan) (now : DateTime) :
    (call : RepositoryCall) → InMemoryState → call.Result × InMemoryState
  | .createWithIdempotencyKey payment key, state => state.createWithIdempotencyKey payment key
  | .findById id, state => (state.findById id, state)
  | .findByReference reference, state => (state.findByReference scan reference, state)
  | .findByIdempotencyKey key, state => (state.findByIdempotencyKey key, state)
  | .updateStatus id next hash, state => state.updateStatus now id next hash
  | .listPendingForReconciliation, state => (state.listPendingForReconciliation scan, state)
  | .listPaginated filter page perPage, state =>
      (state.listPaginated scan filter page perPage, state)
  | .count filter, state => (state.count filter, state)

end InMemoryState

/-- A call that was carried out, and the state it met. -/
structure Performed where
  call : RepositoryCall
  scan : Scan
  now : DateTime
  before : InMemoryState

namespace Performed

/-- What the call returned. -/
def result (performed : Performed) : performed.call.Result :=
  (performed.before.perform performed.scan performed.now performed.call).1

/-- The state it left behind. -/
def after (performed : Performed) : InMemoryState :=
  (performed.before.perform performed.scan performed.now performed.call).2

/-- The payment and the key of a creation that went through. -/
def creation : Performed → Option (Payment × Option String)
  | ⟨.createWithIdempotencyKey payment key, _, _, before⟩ =>
      match (before.createWithIdempotencyKey payment key).1 with
      | .ok created => some (created, key)
      | .error _ => none
  | _ => none

/-- A payment that is created has an id that is not in use. -/
def Fresh (performed : Performed) : Prop :=
  ∀ id, performed.call.created = some id → performed.before.payments.lookup id = none

end Performed

/-- A run of the repository: the calls that were carried out from the empty state on, oldest first,
and the state they lead to. -/
inductive History : List Performed → InMemoryState → Prop where
  | new : History [] .new
  | step {log : List Performed} {state : InMemoryState} (hbefore : History log state)
      (call : RepositoryCall) (scan : Scan) (now : DateTime)
      (hfresh : Performed.Fresh ⟨call, scan, now, state⟩) :
      History (log ++ [⟨call, scan, now, state⟩]) (Performed.after ⟨call, scan, now, state⟩)

/-- A call that is carried out alone on the machine, request by request, is the same as one section
under the mutex. -/
theorem perform_alone (call : RepositoryCall) (env : Env)
    (world : World InMemoryState InMemoryEvents) :
    call.perform env world = ((world.payments.perform env.scan env.now call).1,
      { world with payments := (world.payments.perform env.scan env.now call).2 }) := by
  cases call with
  | updateStatus id next hash =>
      -- In memory a refused update is an error, and no second request asks for its reason.
      rw [RepositoryCall.perform_update, InMemoryState.guarded_update_eq, InMemoryState.perform]
      cases (world.payments.updateStatus env.now id next hash).1 <;> rfl
  | _ => rfl

/-- So calls that are carried out alone, one after the other, are a run of the repository. -/
theorem History.alone {log : List Performed} {world : World InMemoryState InMemoryEvents}
    (h : History log world.payments) (call : RepositoryCall) (env : Env)
    (hfresh : Performed.Fresh ⟨call, env.scan, env.now, world.payments⟩) :
    History (log ++ [⟨call, env.scan, env.now, world.payments⟩])
      (call.perform env world).2.payments := by
  rw [perform_alone]
  exact h.step call env.scan env.now hfresh

/-- What a call does to the maps: nothing, or it stores a new payment and links its key, or it moves
a stored payment. -/
inductive Performed.Effect (performed : Performed) : Prop where
  | nothing (hafter : performed.after = performed.before) (hcreation : performed.creation = none)
  | created (payment : Payment) (key : Option String)
      (hcreation : performed.creation = some (payment, key))
      (hfailure : performed.call.failure performed.result = none)
      (hid : performed.before.payments.lookup payment.id = none)
      (hreference : ∀ existing ∈ performed.before.payments.values,
        existing.reference ≠ payment.reference)
      (hpayments : performed.after.payments = performed.before.payments.insert payment.id payment)
      (hkeys : ∀ name, performed.after.idempotencyKeys.lookup name =
        if key = some name then some payment.id else performed.before.idempotencyKeys.lookup name)
  | moved (payment : Payment) (next : PaymentStatus) (hash : Option String) (now : DateTime)
      (hcreation : performed.creation = none)
      (hfailure : performed.call.failure performed.result = none)
      (hstored : performed.before.payments.lookup payment.id = some payment)
      (hafter : performed.after = performed.before.insert (payment.moved next hash now))

open InMemoryState in
/-- Every call has one of these effects. -/
theorem Performed.effect {performed : Performed} (hfresh : performed.Fresh) : performed.Effect := by
  obtain ⟨call, scan, now, before⟩ := performed
  cases call with
  | createWithIdempotencyKey payment key =>
      rcases create_cases payment key before with
        ⟨-, message, hcreate⟩ | ⟨hreference, after, hcreate, hpayments, hkeys⟩
      · refine .nothing (congrArg Prod.snd hcreate) ?_
        simp only [creation, hcreate]
      · refine .created payment key ?_ ?_ (hfresh payment.id rfl) hreference ?_ fun name => ?_
        · simp only [creation, hcreate]
        · simp only [RepositoryCall.failure, result, perform, hcreate, failure]
        · simp only [Performed.after, perform, hcreate]
          exact hpayments
        · simp only [Performed.after, perform, hcreate]
          exact hkeys name
  | updateStatus id next hash =>
      rcases update_cases now id next hash before with
        ⟨payment, hstored, -, hupdate⟩ | ⟨-, error, hupdate⟩
      · obtain rfl := before.keyed id payment hstored
        refine .moved payment next hash now rfl ?_ hstored (congrArg Prod.snd hupdate)
        simp only [RepositoryCall.failure, result, perform, hupdate, failure]
      · exact .nothing (congrArg Prod.snd hupdate) rfl
  | _ => exact .nothing rfl rfl

/-- A call that reports an error changes nothing. -/
theorem Performed.after_of_failure {performed : Performed} {error : RepositoryError}
    (hfresh : performed.Fresh) (h : performed.call.failure performed.result = some error) :
    performed.after = performed.before := by
  cases performed.effect hfresh with
  | nothing hafter => exact hafter
  | created payment key hcreation hfailure => cases hfailure.symm.trans h
  | moved payment next hash now hcreation hfailure => cases hfailure.symm.trans h

open InMemoryState

/-- What is kept from call to call. -/
structure Kept (log : List Performed) (state : InMemoryState) : Prop where
  /-- Two payments of one reference are one payment. -/
  references : ∀ first ∈ state.payments.values, ∀ second ∈ state.payments.values,
    first.reference = second.reference → first.id = second.id
  /-- What was stored before some call is stored now. -/
  grows : ∀ entry ∈ log, ∀ id, (entry.before.payments.lookup id).isSome = true →
    (state.payments.lookup id).isSome = true
  /-- The key of a creation is linked. -/
  linked : ∀ payment key, (payment, some key) ∈ log.filterMap Performed.creation →
    (state.idempotencyKeys.lookup key).isSome = true
  /-- Every creation added one payment, and nothing else did. -/
  counted : state.payments.values.length = (log.filterMap Performed.creation).length

namespace Kept

variable {log : List Performed} {entry : Performed}

/-- What an insertion keeps of the references: the new payment has one that no other has. -/
theorem references_insert {state after : InMemoryState} {payment : Payment}
    (hbefore : ∀ first ∈ state.payments.values, ∀ second ∈ state.payments.values,
      first.reference = second.reference → first.id = second.id)
    (hpayments : ∀ id, after.payments.lookup id =
      if id = payment.id then some payment else state.payments.lookup id)
    (hreference : ∀ other ∈ state.payments.values, other.reference = payment.reference →
      other.id = payment.id) :
    ∀ first ∈ after.payments.values, ∀ second ∈ after.payments.values,
      first.reference = second.reference → first.id = second.id := by
  have hcases : ∀ other ∈ after.payments.values,
      other = payment ∨ other ∈ state.payments.values := by
    intro other hother
    have hlookup := mem_values_iff.mp hother
    rw [hpayments] at hlookup
    split at hlookup
    · exact .inl (Option.some.inj hlookup).symm
    · exact .inr (mem_values_iff.mpr hlookup)
  intro first hfirst second hsecond hsame
  rcases hcases first hfirst with rfl | hfirst <;> rcases hcases second hsecond with rfl | hsecond
  · rfl
  · exact (hreference second hsecond hsame.symm).symm
  · exact hreference first hfirst hsame
  · exact hbefore first hfirst second hsecond hsame

/-- A payment that is stored after the last call is stored after an insertion. -/
theorem is_some_insert {state after : InMemoryState} {payment : Payment}
    (hpayments : ∀ id, after.payments.lookup id =
      if id = payment.id then some payment else state.payments.lookup id)
    (id : Uuid) (h : (state.payments.lookup id).isSome = true) :
    (after.payments.lookup id).isSome = true := by
  rw [hpayments]
  split
  · rfl
  · exact h

/-- Nothing that was stored before an earlier call is lost if the last call loses nothing. -/
theorem grows_append (h : Kept log entry.before)
    (hlast : ∀ id, (entry.before.payments.lookup id).isSome = true →
      (entry.after.payments.lookup id).isSome = true) :
    ∀ other ∈ log ++ [entry], ∀ id, (other.before.payments.lookup id).isSome = true →
      (entry.after.payments.lookup id).isSome = true := by
  intro other hother id hid
  rcases List.mem_append.mp hother with hlog | hentry
  · exact hlast id (h.grows other hlog id hid)
  · obtain rfl := List.mem_singleton.mp hentry
    exact hlast id hid

/-- A call that creates nothing adds no creation. -/
theorem creations_append_none (hcreation : entry.creation = none) :
    (log ++ [entry]).filterMap Performed.creation = log.filterMap Performed.creation := by
  simp [hcreation]

/-- A new payment keeps it. -/
theorem after_created {payment : Payment} {key : Option String} (h : Kept log entry.before)
    (hcreation : entry.creation = some (payment, key))
    (hid : entry.before.payments.lookup payment.id = none)
    (hreference : ∀ existing ∈ entry.before.payments.values,
      existing.reference ≠ payment.reference)
    (hpayments : entry.after.payments = entry.before.payments.insert payment.id payment)
    (hkeys : ∀ name, entry.after.idempotencyKeys.lookup name =
      if key = some name then some payment.id else entry.before.idempotencyKeys.lookup name) :
    Kept (log ++ [entry]) entry.after := by
  have hlookup : ∀ id, entry.after.payments.lookup id =
      if id = payment.id then some payment else entry.before.payments.lookup id := by
    intro id
    rw [hpayments]
    exact HashMap.lookup_insert_eq _ _ _ _
  have hcreations : (log ++ [entry]).filterMap Performed.creation =
      log.filterMap Performed.creation ++ [(payment, key)] := by
    simp [hcreation]
  refine ⟨references_insert h.references hlookup fun other hother hsame =>
    absurd hsame (hreference other hother), h.grows_append (is_some_insert hlookup), ?_, ?_⟩
  · intro created name hmem
    rw [hcreations] at hmem
    rw [hkeys]
    split
    · rfl
    · rename_i hother
      rcases List.mem_append.mp hmem with hmem | hmem
      · exact h.linked created name hmem
      · cases List.mem_singleton.mp hmem
        exact absurd rfl hother
  · rw [hcreations, hpayments, HashMap.length_values_insert_new hid, h.counted,
      List.length_append]
    rfl

/-- A changed payment keeps it. -/
theorem after_moved {payment : Payment} {next : PaymentStatus} {hash : Option String}
    {now : DateTime} (h : Kept log entry.before) (hcreation : entry.creation = none)
    (hstored : entry.before.payments.lookup payment.id = some payment)
    (hafter : entry.after = entry.before.insert (payment.moved next hash now)) :
    Kept (log ++ [entry]) entry.after := by
  have hlookup : ∀ id, entry.after.payments.lookup id =
      if id = (payment.moved next hash now).id then some (payment.moved next hash now)
      else entry.before.payments.lookup id := by
    intro id
    rw [hafter]
    exact insert_lookup _ _ id
  have hpayment : payment ∈ entry.before.payments.values := mem_values_iff.mpr hstored
  refine ⟨references_insert h.references hlookup fun other hother hsame =>
    h.references other hother payment hpayment hsame, h.grows_append (is_some_insert hlookup),
    ?_, ?_⟩
  · rw [creations_append_none hcreation, hafter]
    exact h.linked
  · rw [creations_append_none hcreation, hafter, ← h.counted]
    exact HashMap.length_values_insert_old hstored

/-- Every call keeps it. -/
theorem step (h : Kept log entry.before) (hfresh : entry.Fresh) :
    Kept (log ++ [entry]) entry.after := by
  cases entry.effect hfresh with
  | nothing hafter hcreation =>
      refine ⟨hafter ▸ h.references, h.grows_append (hafter ▸ fun _ hid => hid), ?_, ?_⟩
      · rw [creations_append_none hcreation, hafter]
        exact h.linked
      · rw [creations_append_none hcreation, hafter]
        exact h.counted
  | created payment key hcreation _ hid hreference hpayments hkeys =>
      exact h.after_created hcreation hid hreference hpayments hkeys
  | moved payment next hash now hcreation _ hstored hafter =>
      exact h.after_moved hcreation hstored hafter

end Kept

/-- Every payment that was created had a new id. -/
theorem fresh_of_history {log : List Performed} {state : InMemoryState} (h : History log state) :
    ∀ entry ∈ log, entry.Fresh := by
  induction h with
  | new => simp
  | step hbefore call scan now hfresh ih =>
      intro entry hentry
      rcases List.mem_append.mp hentry with hlog | hlast
      · exact ih entry hlog
      · exact List.mem_singleton.mp hlast ▸ hfresh

/-- It holds of every run. -/
theorem kept_of_history {log : List Performed} {state : InMemoryState} (h : History log state) :
    Kept log state := by
  induction h with
  | new => exact ⟨by simp [InMemoryState.new, HashMap.values], by simp, by simp, rfl⟩
  | step hbefore call scan now hfresh ih => exact ih.step hfresh

/-- The statuses of `ALL_STATUSES` share the payments among themselves. -/
theorem sum_matching_statuses (payments : List Payment) :
    (allStatuses.map fun status => (matching (some status) payments).length).sum =
      payments.length := by
  induction payments with
  | nil => rfl
  | cons payment rest ih =>
      simp only [allStatuses, matching, List.map_cons, List.map_nil, List.sum_cons, List.sum_nil,
        List.filter_cons, List.length_cons] at ih ⊢
      cases payment.status <;> simp only [beq_iff_eq, reduceCtorEq, if_true, if_false,
        List.length_cons] <;> omega

/-- What holds of the maps in a state of a run, and what follows for its lookups and counts. -/
structure Represents (log : List Performed) (state : InMemoryState) : Prop where
  /-- Every payment is stored under its own id. -/
  keyed : ∀ id payment, state.payments.lookup id = some payment → payment.id = id
  /-- The references are distinct. -/
  references : (state.payments.values.map Payment.reference).Nodup
  /-- Every key is linked to a payment that is stored. -/
  keys : ∀ key id, state.idempotencyKeys.lookup key = some id →
    (state.payments.lookup id).isSome = true
  /-- The payments that were stored before any call of the run are stored. -/
  grows : ∀ entry ∈ log, ∀ id, (entry.before.payments.lookup id).isSome = true →
    (state.payments.lookup id).isSome = true
  /-- A lookup by reference has one answer, in whatever order the map is iterated. -/
  findByReference : ∀ scan other reference,
    state.findByReference scan reference = state.findByReference other reference
  /-- A lookup by the key of a creation finds a payment that is stored. -/
  findByIdempotencyKey : ∀ payment key,
    (payment, some key) ∈ log.filterMap Performed.creation →
    ∃ found, state.findByIdempotencyKey key = .ok (some found) ∧
      state.payments.lookup found.id = some found
  /-- A call that reported an error changed nothing. -/
  unchanged : ∀ entry ∈ log, ∀ error, entry.call.failure entry.result = some error →
    entry.after = entry.before
  /-- The counts of the five statuses add up to the count of all payments, which is the number of
  creations that went through. -/
  counts : ∃ counts : PaymentStatus → Nat,
    (∀ status, state.count (some status) = .ok (counts status)) ∧
    state.count none = .ok ((allStatuses.map counts).sum : Nat) ∧
    (allStatuses.map counts).sum = (log.filterMap Performed.creation).length

/-- Where only one element passes a test, a search finds the same in any order. -/
theorem find_eq_of_perm {α : Type} {test : α → Bool} {first second : List α}
    (hperm : first.Perm second)
    (hone : ∀ a ∈ first, ∀ b ∈ first, test a = true → test b = true → a = b) :
    first.find? test = second.find? test := by
  cases hfirst : first.find? test with
  | none =>
      rw [List.find?_eq_none] at hfirst
      refine (List.find?_eq_none.mpr fun element helement => ?_).symm
      exact hfirst element (hperm.mem_iff.mpr helement)
  | some found =>
      have hmem := List.mem_of_find?_eq_some hfirst
      have htest := List.find?_some hfirst
      cases hsecond : second.find? test with
      | none =>
          rw [List.find?_eq_none] at hsecond
          exact absurd htest (hsecond found (hperm.mem_iff.mp hmem))
      | some other =>
          have hother := hperm.mem_iff.mpr (List.mem_of_find?_eq_some hsecond)
          rw [hone found hmem other hother htest (List.find?_some hsecond)]

/-- In every run of the repository in memory from the empty state, whatever is created under new
ids, updated or read. -/
theorem represents_of_history {log : List Performed} {state : InMemoryState}
    (h : History log state) : Represents log state := by
  have hkept := kept_of_history h
  have hnodup : (state.payments.values.map Payment.id).Nodup := HashMap.values_nodup state.keyed
  have hone : ∀ first ∈ state.payments.values, ∀ second ∈ state.payments.values,
      first.reference = second.reference → first = second := by
    intro first hfirst second hsecond hsame
    have hlookup := mem_values_iff.mp hfirst
    rw [hkept.references first hfirst second hsecond hsame] at hlookup
    exact Option.some.inj (hlookup.symm.trans (mem_values_iff.mp hsecond))
  refine ⟨state.keyed, ?_, state.keyReferences, hkept.grows, fun scan other reference => ?_,
    fun payment key hcreated => ?_, fun entry hentry error herror => ?_, ?_⟩
  · exact (hnodup.of_map _).map_on hone
  · have hsame : (scan.order state.payments.values).Perm (other.order state.payments.values) :=
      (scan.order_perm _).trans (other.order_perm _).symm
    refine congrArg Except.ok (find_eq_of_perm hsame fun first hfirst second hsecond h h' => ?_)
    refine hone first (Scan.mem_order.mp hfirst) second (Scan.mem_order.mp hsecond) ?_
    exact (beq_iff_eq.mp h).trans (beq_iff_eq.mp h').symm
  · obtain ⟨id, hid⟩ := Option.isSome_iff_exists.mp (hkept.linked payment key hcreated)
    obtain ⟨found, hfound⟩ := Option.isSome_iff_exists.mp (state.keyReferences key id hid)
    refine ⟨found, ?_, ?_⟩
    · simp only [InMemoryState.findByIdempotencyKey, hid, hfound]
    · rw [state.keyed id found hfound]
      exact hfound
  · exact Performed.after_of_failure (fresh_of_history h entry hentry) herror
  · refine ⟨fun status => (matching (some status) state.payments.values).length,
      fun status => rfl, ?_, ?_⟩
    · rw [sum_matching_statuses]
      simp [InMemoryState.count, matching]
    · rw [sum_matching_statuses]
      exact hkept.counted

/-- A reference and a key that are used twice, and updates of a payment that is there and of one
that is not. -/
theorem represents_of_history_reused : ∃ (log : List Performed) (state : InMemoryState),
    History log state ∧
    (log.map fun entry => (entry.call.failure entry.result).isSome) =
      [false, true, false, false, true] ∧
    Represents log state := by
  have hfirst := History.new.step
    (.createWithIdempotencyKey (Plain.pending 7 "10" "order-1" 5000) (some "k")) Plain.scan 5000
    fun _ hid => by cases hid; rfl
  have hsecond := hfirst.step
    (.createWithIdempotencyKey (Plain.pending 8 "20" "order-1" 6000) (some "k")) Plain.scan 6000
    fun _ hid => by cases hid; rfl
  have hthird := hsecond.step
    (.createWithIdempotencyKey (Plain.pending 8 "20" "order-2" 6000) (some "k")) Plain.scan 6000
    fun _ hid => by cases hid; rfl
  have hfourth := hthird.step (.updateStatus 7 .expired none) Plain.scan 7000
    fun _ hid => nomatch hid
  have hfifth := hfourth.step (.updateStatus 9 .expired none) Plain.scan 7000
    fun _ hid => nomatch hid
  exact ⟨_, _, hfifth, rfl, represents_of_history hfifth⟩

end StellarPay
