import StellarPay.Runs.Idempotency
import StellarPay.Runtime.Plain

/-!
# Races for an idempotency key

What the two repositories make of creations that race: on Postgres the keys keep all they promise
in every run, in memory only in the runs where no creation finds its key already linked. On either
a loser of a race for its own key is told that its reference is taken.
-/

namespace StellarPay

open Interleaving

section Postgres

variable [Platform]

/-- What is created on Postgres is new. -/
theorem postgres_new (request : Request) (world : World Database EventTable) :
    CreatesNew request world := by
  cases request with
  | createWithIdempotencyKey payment key => exact fun _ _ h => create_new h
  | _ => trivial

/-- On Postgres the keys keep what they promise in every run, whatever is called and however it is
interleaved, and whatever fails. -/
theorem postgres_idempotent {world : World Database EventTable}
    {state : State (machine Database EventTable)} (hreach : Reachable .any world state) :
    Idempotent world state :=
  idempotent_of_reachable (fun _ _ request world _ => postgres_new request world) hreach

end Postgres

section PostgresRun

attribute [local instance] Plain.platform

open Plain

/-- Two calls with one key both find it free. The first creates, the second is refused, and a third
that comes later is given the payment of the first. -/
def keyRace : List (Choice (machine Database EventTable)) :=
  [.start (create "10" "order-1" (some "k")), .act 0 (env 5000 7), .act 0 (env 5000 7),
    .act 0 (env 5000 7), .start (create "10" "order-1" (some "k")), .act 1 (env 5000 8),
    .act 1 (env 5000 8), .act 1 (env 5000 8), .act 0 (env 5000 7), .act 1 (env 5000 8),
    .start (create "25" "order-2" (some "k")), .act 2 (env 9000 9), .act 2 (env 9000 9),
    .act 2 (env 9000 9)]

/-- The keys keep what they promise in the race. -/
theorem postgres_idempotent_race : ∃ state : State (machine Database EventTable),
    CreateReturned state 2 "25" "order-2" (some "k") (.ok (pending 7 "10" "order-1" 5000)) ∧
    Idempotent ⟨Database.new, EventTable.new⟩ state := by
  obtain ⟨state, hreach, htest⟩ := exists_reachable .any keyRace ⟨Database.new, EventTable.new⟩
    (fun state => createResult state 2 ==
      some ("25", "order-2", some "k", .ok (pending 7 "10" "order-1" 5000))) (by decide)
  exact ⟨state, by simpa [CreateReturned] using htest, postgres_idempotent hreach⟩

end PostgresRun

section InMemory

variable [Platform]

/-- No payment under this key is created a second time: the key is not linked, or the reference is
in use, so that the creation fails anyway. -/
def KeyUnused : Request → World InMemoryState InMemoryEvents → Prop
  | .createWithIdempotencyKey payment (some key), world =>
      linked world.payments key = none ∨
        ∃ existing ∈ world.payments.payments.values, existing.reference = payment.reference
  | _, _ => True

instance (request : Request) (world : World InMemoryState InMemoryEvents) :
    Decidable (KeyUnused request world) := by
  unfold KeyUnused
  split <;> infer_instance

/-- Every call, with fresh identifiers, as long as no creation finds its key linked. -/
def unusedKeyRules : Rules (machine InMemoryState InMemoryEvents) :=
  ⟨fun _ => True, fun _ _ request world => FreshId request world ∧ KeyUnused request world⟩

/-- Where no creation finds its key linked, what is created is new. -/
theorem unused_key_new {env : Env} {span : Option Uuid} {request : Request}
    {world : World InMemoryState InMemoryEvents}
    (h : unusedKeyRules.permits env span request world) : CreatesNew request world := by
  cases request with
  | createWithIdempotencyKey payment key =>
      intro created after hcreate
      refine ⟨h.1, fun name hname => ?_⟩
      subst hname
      refine h.2.resolve_right fun hused => ?_
      rcases InMemoryState.create_cases payment (some name) world.payments with
        ⟨_, _, hrefused⟩ | ⟨hfree, _⟩
      · simp only [PaymentRepository.createWithIdempotencyKey, hrefused] at hcreate
        cases hcreate
      · obtain ⟨existing, hmem, hreference⟩ := hused
        exact hfree existing hmem hreference
  | _ => trivial

/-- In memory the keys keep what they promise in every run in which no creation finds its key
linked when it takes place. -/
theorem in_memory_idempotent {world : World InMemoryState InMemoryEvents}
    {state : State (machine InMemoryState InMemoryEvents)}
    (hreach : Reachable unusedKeyRules world state) : Idempotent world state :=
  idempotent_of_reachable (fun _ _ _ _ h => unused_key_new h) hreach

instance : DecidablePred unusedKeyRules.admits :=
  fun _ => inferInstanceAs (Decidable True)

instance (env : Env) (span : Option Uuid) (request : Request)
    (world : World InMemoryState InMemoryEvents) :
    Decidable (unusedKeyRules.permits env span request world) :=
  inferInstanceAs (Decidable (_ ∧ _))

end InMemory

section InMemoryRun

attribute [local instance] Plain.platform

open Plain

/-- Two calls with one key and different references both find the key free, and both create. -/
def doubleCreation : List (Choice (machine InMemoryState InMemoryEvents)) :=
  [.start (create "10" "order-1" (some "k")), .act 0 (env 5000 7), .act 0 (env 5000 7),
    .act 0 (env 5000 7), .start (create "10" "order-2" (some "k")), .act 1 (env 5000 8),
    .act 1 (env 5000 8), .act 1 (env 5000 8), .act 0 (env 5000 7), .act 1 (env 5000 8)]

/-- Two payments are created under one key, both calls succeed, and the link moves. -/
theorem in_memory_double_creation : ∃ state : State (machine InMemoryState InMemoryEvents),
    Reachable (freshRules InMemoryState InMemoryEvents)
      ⟨InMemoryState.new, InMemoryEvents.new⟩ state ∧
    CreateReturned state 0 "10" "order-1" (some "k") (.ok (pending 7 "10" "order-1" 5000)) ∧
    CreateReturned state 1 "10" "order-2" (some "k") (.ok (pending 8 "10" "order-2" 5000)) ∧
    linked state.config.world.payments "k" = some 8 := by
  obtain ⟨state, hreach, htest⟩ := exists_reachable (freshRules InMemoryState InMemoryEvents)
    doubleCreation ⟨InMemoryState.new, InMemoryEvents.new⟩
    (fun state =>
      createResult state 0 ==
        some ("10", "order-1", some "k", .ok (pending 7 "10" "order-1" 5000)) &&
      createResult state 1 ==
        some ("10", "order-2", some "k", .ok (pending 8 "10" "order-2" 5000)) &&
      linked state.config.world.payments "k" == some 8) (by decide)
  simp only [Bool.and_eq_true, beq_iff_eq] at htest
  exact ⟨state, hreach, htest.1.1, htest.1.2, htest.2⟩

/-- One call creates and a later one with the same key is given its payment. -/
def replay : List (Choice (machine InMemoryState InMemoryEvents)) :=
  [.start (create "10" "order-1" (some "k")), .act 0 (env 5000 7), .act 0 (env 5000 7),
    .act 0 (env 5000 7), .act 0 (env 5000 7), .start (create "10" "order-2" (some "k")),
    .act 1 (env 5000 8), .act 1 (env 5000 8), .act 1 (env 5000 8)]

/-- The keys keep what they promise in the replay. -/
theorem in_memory_idempotent_replay : ∃ state : State (machine InMemoryState InMemoryEvents),
    CreateReturned state 1 "10" "order-2" (some "k") (.ok (pending 7 "10" "order-1" 5000)) ∧
    Idempotent ⟨InMemoryState.new, InMemoryEvents.new⟩ state := by
  obtain ⟨state, hreach, htest⟩ := exists_reachable unusedKeyRules replay
    ⟨InMemoryState.new, InMemoryEvents.new⟩
    (fun state => createResult state 1 ==
      some ("10", "order-2", some "k", .ok (pending 7 "10" "order-1" 5000))) (by decide)
  exact ⟨state, by simpa [CreateReturned] using htest, in_memory_idempotent hreach⟩

end InMemoryRun

section References

variable [Platform]

/-- The creation does not meet its own key: the key is not linked. A payment that cannot be stored
at all meets nothing. -/
def MeetsOthersOnly : Request → World Database EventTable → Prop
  | .createWithIdempotencyKey payment (some key), world =>
      payment.storable = false ∨ linked world.payments key = none
  | _, _ => True

instance (request : Request) (world : World Database EventTable) :
    Decidable (MeetsOthersOnly request world) := by
  unfold MeetsOthersOnly
  split <;> infer_instance

/-- With a fresh identifier, a creation conflicts only with a payment that has its reference, and
not with its own key, exactly when it does not meet its own key. -/
theorem conflict_truthful_iff {payment : Payment} {key : Option String}
    {world : World Database EventTable} (hhash : payment.stellarTxHash = none)
    (hfresh : stored world.payments payment.id = none) :
    ((∃ message, (world.payments.createWithIdempotencyKey payment key).1 =
        .error (.conflict message)) →
      (∃ other ∈ world.payments.payments.values, other.reference = payment.reference) ∧
        ∀ name, key = some name → linked world.payments name = none) ↔
    MeetsOthersOnly (.createWithIdempotencyKey payment key) world := by
  rw [create_conflict_iff hhash]
  cases key with
  | none =>
      refine iff_of_true ?_ trivial
      rintro ⟨_, hused | hother | ⟨name, hname, _⟩⟩
      · exact absurd hfresh hused
      · exact ⟨hother, by simp⟩
      · cases hname
  | some key =>
      constructor
      · intro h
        by_cases hstorable : payment.storable = true
        · by_cases hlinked : linked world.payments key = none
          · exact .inr hlinked
          · exact .inr ((h ⟨hstorable, .inr (.inr ⟨key, rfl, hlinked⟩)⟩).2 key rfl)
        · exact .inl (by simpa using hstorable)
      · rintro (hstorable | hfree) ⟨hstored, hused⟩
        · rw [hstorable] at hstored
          cases hstored
        · refine ⟨?_, by simpa using hfree⟩
          rcases hused with hused | hother | ⟨name, hname, hlinked⟩
          · exact absurd hfresh hused
          · exact hother
          · cases hname
            exact absurd hfree hlinked

/-- Every call, with fresh identifiers, as long as no creation meets its own key. -/
def othersOnlyRules : Rules (machine Database EventTable) :=
  ⟨fun _ => True, fun _ _ request world => FreshId request world ∧ MeetsOthersOnly request world⟩

instance : DecidablePred othersOnlyRules.admits :=
  fun _ => inferInstanceAs (Decidable True)

instance (env : Env) (span : Option Uuid) (request : Request)
    (world : World Database EventTable) :
    Decidable (othersOnlyRules.permits env span request world) :=
  inferInstanceAs (Decidable (_ ∧ _))

/-- A conflict that a request reports is one the database reports. -/
theorem answer_conflict {env : Env} {payment : Payment} {key : Option String} {message : String}
    {world : World Database EventTable}
    (h : (answer env (.createWithIdempotencyKey payment key) world).1 =
      .error (.conflict message)) :
    (world.payments.createWithIdempotencyKey payment key).1 = .error (.conflict message) := by
  simp only [answer, onPayments, attempt] at h
  cases hfault : env.paymentsFault with
  | some message => simp [hfault] at h
  | none =>
      rw [hfault] at h
      exact h

/-- What a call with the key `name` returns although another thread has created `winner` under the
key, in the request `creation`. -/
inductive AnsweredWith (state : State (machine Database EventTable)) (thread : Nat)
    (amount reference name : String) (creation : Act (machine Database EventTable))
    (winner : Payment) : Except PaymentError Payment → Prop where
  /-- That payment. -/
  | winner (returned : Payment) (hterms : winner.SameTerms returned) :
      AnsweredWith state thread amount reference name creation winner (.ok returned)
  /-- That its own amount is invalid. -/
  | invalid (error : PaymentError) (hinvalid : validateAmount amount = .error error) :
      AnsweredWith state thread amount reference name creation winner (.error error)
  /-- That the database refused its lookup or its insert, and not for a conflict. -/
  | failed (act : Act (machine Database EventTable)) (error : RepositoryError)
      (hact : .act act ∈ state.config.trace) (hthread : act.thread = thread)
      (hgot : act.Got (.findByIdempotencyKey name) (.error error) ∨
        ∃ payment, act.Got (.createWithIdempotencyKey payment (some name)) (.error error) ∧
          ∀ message, error ≠ .conflict message) :
      AnsweredWith state thread amount reference name creation winner (.error (.repository error))
  /-- That its reference is taken. It had been told so before `winner` was created. -/
  | before (earlier later : List (Event (machine Database EventTable)))
      (act : Act (machine Database EventTable)) (payment : Payment) (error : RepositoryError)
      (htrace : state.config.trace = earlier ++ .act creation :: later)
      (hact : .act act ∈ earlier) (hthread : act.thread = thread)
      (hgot : act.Got (.createWithIdempotencyKey payment (some name)) (.error error)) :
      AnsweredWith state thread amount reference name creation winner
        (.error (.duplicateReference reference))

section Truthful

variable {state : State (machine Database EventTable)}
  (hreach : Reachable othersOnlyRules ⟨Database.new, EventTable.new⟩ state)

include hreach

/-- A creation of such a run that conflicts has found its key free, and a payment with its
reference. -/
theorem conflict_truthful {act : Act (machine Database EventTable)} {payment : Payment}
    {key : Option String} {message : String} (hact : .act act ∈ state.config.trace)
    (hhash : payment.stellarTxHash = none)
    (hgot : act.Got (.createWithIdempotencyKey payment key) (.error (.conflict message))) :
    (∃ other ∈ act.before.payments.payments.values, other.reference = payment.reference) ∧
      ∀ name, key = some name → linked act.before.payments name = none := by
  have hpermits := hreach.permitted hact
  rw [hgot.1] at hpermits
  exact (conflict_truthful_iff hhash hpermits.1).mpr hpermits.2 ⟨message, answer_conflict hgot.2⟩

/-- A refusal that comes before a creation is one the trace splits at. -/
theorem refused_before {act creation : Act (machine Database EventTable)} {name : String}
    {payment winner : Payment} (hact : .act act ∈ state.config.trace)
    (hcreation : .act creation ∈ state.config.trace) (hthread : creation.thread ≠ act.thread)
    (hgot : creation.Got (.createWithIdempotencyKey payment (some name)) (.ok winner))
    (hfree : linked act.before.payments name = none) :
    ∃ earlier later, state.config.trace = earlier ++ .act creation :: later ∧
      .act act ∈ earlier := by
  obtain ⟨earlier, later, htrace⟩ := List.append_of_mem hcreation
  refine ⟨earlier, later, htrace, ?_⟩
  rw [htrace, List.mem_append, List.mem_cons] at hact
  rcases hact with hact | hact | hact
  · exact hact
  · exact absurd (congrArg Act.thread (Event.act.inj hact)).symm hthread
  · -- Whatever comes after the creation meets the key linked.
    have hcommitted := committed_pairwise (fun _ _ request world _ => postgres_new request world)
      hreach
    rw [htrace, List.pairwise_append, List.pairwise_cons] at hcommitted
    have hlinked := hcommitted.2.1.1 _ hact name winner ⟨creation, payment, rfl, hgot⟩
    cases hfree.symm.trans hlinked

/-- A payment that a request of such a run meets was created before, and not under a key that the
request finds free. -/
theorem holder_created {earlier later : List (Event (machine Database EventTable))}
    {act : Act (machine Database EventTable)} {holder : Payment} {key : Option String}
    (htrace : state.config.trace = earlier ++ .act act :: later)
    (hholder : stored act.before.payments holder.id = some holder)
    (hfree : ∀ name, key = some name → linked act.before.payments name = none) :
    ∃ creation payment used created, .act creation ∈ earlier ∧
      creation.Got (.createWithIdempotencyKey payment used) (.ok created) ∧
      created.id = holder.id ∧ (used = none ∨ used ≠ key) := by
  obtain ⟨past, _, hpast, _, hconfig, _⟩ := hreach.at_event htrace
  have hpresent : stored past.config.world.payments holder.id = some holder := by
    rw [hconfig]
    exact hholder
  obtain ⟨creation, made, used, created, hcreation, hcreated, hid, _, hlinks⟩ :=
    stored_created (fun _ _ request world _ => postgres_new request world) (fun _ => rfl) hpast
      hpresent
  rw [hconfig] at hcreation hlinks
  refine ⟨creation, made, used, created, hcreation, hcreated, hid, ?_⟩
  cases used with
  | none => exact .inl rfl
  | some name =>
      refine .inr fun hkey => ?_
      have hlinked := hlinks name rfl
      cases (hfree name hkey.symm).symm.trans hlinked

/-- A payment that is stored at the end, and that the key of a creation is linked to, is the created
one. -/
theorem winner_returned {creation : Act (machine Database EventTable)} {name : String}
    {payment winner returned : Payment} (hcreation : .act creation ∈ state.config.trace)
    (hgot : creation.Got (.createWithIdempotencyKey payment (some name)) (.ok winner))
    (hlinked : linked state.config.world.payments name = some returned.id)
    (hstored : ∃ later, stored state.config.world.payments returned.id = some later ∧
      returned.SameTerms later) : winner.SameTerms returned := by
  have hnew : ∀ env span request world, othersOnlyRules.permits env span request world →
      CreatesNew request world := fun _ _ request world _ => postgres_new request world
  obtain ⟨-, hlink, hpresent⟩ := event_creates hnew hreach hcreation ⟨creation, payment, rfl, hgot⟩
  have hgrows := event_grows_last hnew hreach hcreation
  have hid : winner.id = returned.id :=
    Option.some.inj ((hgrows.links _ _ hlink).symm.trans hlinked)
  obtain ⟨later, hlater, hterms⟩ := hgrows.terms _ _ hpresent
  obtain ⟨last, hlast, hterms'⟩ := hstored
  rw [← hid, hlater] at hlast
  cases hlast
  exact hterms.trans hterms'.symm

/-- In a run in which no creation meets its own key, a call is told that its reference is taken
only if the store then holds a payment with the reference that was created under another key or
under none. And a call whose key another thread has created a payment under returns that payment,
unless its own amount is invalid, the database fails it, or it was refused before. -/
theorem duplicate_reference_truthful {thread : Nat} {amount reference : String}
    {key : Option String} {result : Except PaymentError Payment}
    (h : CreateReturned state thread amount reference key result) :
    (∀ taken, result = .error (.duplicateReference taken) →
      taken = reference ∧ ∃ earlier act later, state.config.trace = earlier ++ .act act :: later ∧
        act.thread = thread ∧
        (∃ payment error, act.Got (.createWithIdempotencyKey payment key) (.error error)) ∧
        ∃ holder, stored act.before.payments holder.id = some holder ∧ holder.reference = taken ∧
          ∃ creation payment used created, .act creation ∈ earlier ∧
            creation.Got (.createWithIdempotencyKey payment used) (.ok created) ∧
            created.id = holder.id ∧ (used = none ∨ used ≠ key)) ∧
    ∀ name creation payment winner, key = some name → .act creation ∈ state.config.trace →
      creation.thread ≠ thread →
      creation.Got (.createWithIdempotencyKey payment (some name)) (.ok winner) →
      AnsweredWith state thread amount reference name creation winner result := by
  have hnew : ∀ env span request world, othersOnlyRules.permits env span request world →
      CreatesNew request world := fun _ _ request world _ => postgres_new request world
  obtain ⟨call, hreturn⟩ := create_return hnew hreach h
  constructor
  · rintro taken rfl
    generalize hfailed : PaymentError.duplicateReference taken = failed at hreturn
    cases hreturn with
    | invalid before error hbegun hinvalid => cases hfailed.trans (validate_amount_error hinvalid)
    | unread => cases hfailed
    | refused before payment error failure hbegun hfree hreference hhash hact hfailure =>
        obtain ⟨act, hact, hthread, hgot⟩ := hact
        obtain ⟨message, rfl, rfl⟩ : ∃ message, error = .conflict message ∧ taken = reference := by
          rw [← hfailed] at hfailure
          cases error <;> cases hfailure
          exact ⟨_, rfl, rfl⟩
        obtain ⟨earlier, later, htrace⟩ := List.append_of_mem hact
        obtain ⟨⟨holder, hmem, hholder⟩, hunlinked⟩ := conflict_truthful hreach hact hhash hgot
        have hstored : stored act.before.payments holder.view.id = some holder.view := by
          simp [Database.stored_eq, Database.mem_values_iff.mp hmem]
        exact ⟨rfl, earlier, act, later, htrace, hthread, ⟨payment, _, hgot⟩, holder.view, hstored,
          by simp [hholder, hreference], holder_created hreach htrace hstored hunlinked⟩
  · rintro name creation made winner rfl hcreation hother hcreated
    cases hreturn with
    | created returned hlinked hstored =>
        exact .winner returned
          (winner_returned hreach hcreation hcreated (hlinked name rfl) hstored)
    | invalid before error hbegun hinvalid => exact .invalid error hinvalid
    | unread before used error hbegun hkey hact =>
        cases hkey
        obtain ⟨act, hact, hthread, hgot⟩ := hact
        exact .failed act error hact hthread (.inl hgot)
    | refused before payment error failure hbegun hfree hreference hhash hact hfailure =>
        obtain ⟨act, hact, rfl, hgot⟩ := hact
        cases error with
        | conflict message =>
            cases hfailure
            obtain ⟨_, hunlinked⟩ := conflict_truthful hreach hact hhash hgot
            obtain ⟨earlier, later, htrace, hearlier⟩ :=
              refused_before hreach hact hcreation hother hcreated (hunlinked name rfl)
            exact .before earlier later act payment _ htrace hearlier rfl hgot
        | _ =>
            cases hfailure
            exact .failed act _ hact rfl (.inr ⟨payment, hgot, by simp⟩)

end Truthful

end References

section ReferencesRun

attribute [local instance] Plain.platform

open Plain

/-- The creations of a run all carry this key. -/
def allCreatedWith (key : String) (state : State (machine Database EventTable)) : Bool :=
  state.config.trace.all fun event =>
    match event with
    | .act ⟨_, _, .createWithIdempotencyKey _ used, _, _⟩ => used == some key
    | _ => true

/-- The loser of a race for its own key is told that its reference is taken, although the only
payment there is was created under its own key. -/
theorem lost_race_reports_duplicate : ∃ state : State (machine Database EventTable),
    Reachable (freshRules Database EventTable) ⟨Database.new, EventTable.new⟩ state ∧
    CreateReturned state 1 "10" "order-1" (some "k") (.error (.duplicateReference "order-1")) ∧
    ∀ act payment used created, .act act ∈ state.config.trace →
      act.Got (.createWithIdempotencyKey payment used) (.ok created) → used = some "k" := by
  obtain ⟨state, hreach, htest⟩ := exists_reachable (freshRules Database EventTable) keyRace
    ⟨Database.new, EventTable.new⟩
    (fun state =>
      createResult state 1 ==
        some ("10", "order-1", some "k", .error (.duplicateReference "order-1")) &&
      allCreatedWith "k" state) (by decide)
  simp only [Bool.and_eq_true, beq_iff_eq] at htest
  refine ⟨state, hreach, htest.1, fun act payment used created hact hgot => ?_⟩
  have hall := List.all_eq_true.mp htest.2 _ hact
  obtain ⟨thread, span, request, env, before⟩ := act
  obtain rfl : request = _ := hgot.1
  simpa using hall

/-- Two calls with different keys ask for one reference, and a third that began with the first comes
to its lookup when the first has created. -/
def sharedReference : List (Choice (machine Database EventTable)) :=
  [.start (create "10" "order-1" (some "k")), .start (create "25" "order-2" (some "k")),
    .act 0 (env 5000 7), .act 0 (env 5000 7), .act 1 (env 5000 9), .act 1 (env 5000 9),
    .act 0 (env 5000 7), .act 0 (env 5000 7), .act 1 (env 5000 9),
    .start (create "25" "order-1" (some "l")), .act 2 (env 6000 8), .act 2 (env 6000 8),
    .act 2 (env 6000 8), .act 2 (env 6000 8)]

/-- The thread has created `created` under the key. -/
def hasCreated (thread : Nat) (key : String) (created : Payment)
    (state : State (machine Database EventTable)) : Bool :=
  state.config.trace.any fun event =>
    match event with
    | .act ⟨maker, _, .createWithIdempotencyKey payment used, env, before⟩ =>
        maker == thread && used == some key &&
          (answer env (.createWithIdempotencyKey payment used) before).1 == .ok created
    | _ => false

/-- The call with the other key is told the truth, and the one with the same key is given the
payment of the first. -/
theorem duplicate_reference_truthful_shared : ∃ state : State (machine Database EventTable),
    (∃ earlier act later, state.config.trace = earlier ++ .act act :: later ∧ act.thread = 2 ∧
      (∃ payment error, act.Got (.createWithIdempotencyKey payment (some "l")) (.error error)) ∧
      ∃ holder, stored act.before.payments holder.id = some holder ∧
        holder.reference = "order-1" ∧
        ∃ creation payment used created, .act creation ∈ earlier ∧
          creation.Got (.createWithIdempotencyKey payment used) (.ok created) ∧
          created.id = holder.id ∧ (used = none ∨ used ≠ some "l")) ∧
    ∃ creation, .act creation ∈ state.config.trace ∧ creation.thread = 0 ∧
      AnsweredWith state 1 "25" "order-2" "k" creation (pending 7 "10" "order-1" 5000)
        (.ok (pending 7 "10" "order-1" 5000)) := by
  obtain ⟨state, hreach, htest⟩ := exists_reachable othersOnlyRules sharedReference
    ⟨Database.new, EventTable.new⟩
    (fun state =>
      createResult state 2 ==
        some ("25", "order-1", some "l", .error (.duplicateReference "order-1")) &&
      createResult state 1 ==
        some ("25", "order-2", some "k", .ok (pending 7 "10" "order-1" 5000)) &&
      hasCreated 0 "k" (pending 7 "10" "order-1" 5000) state) (by decide)
  simp only [Bool.and_eq_true, beq_iff_eq, hasCreated, List.any_eq_true] at htest
  obtain ⟨⟨hrefused, hreplayed⟩, event, hevent, hcreated⟩ := htest
  refine ⟨state, ((duplicate_reference_truthful hreach hrefused).1 _ rfl).2, ?_⟩
  split at hcreated
  · simp only [Bool.and_eq_true, beq_iff_eq] at hcreated
    obtain ⟨⟨rfl, rfl⟩, hreply⟩ := hcreated
    exact ⟨_, hevent, rfl, (duplicate_reference_truthful hreach hreplayed).2 "k" _ _ _ rfl hevent
      (by simp) ⟨rfl, hreply⟩⟩
  · cases hcreated

end ReferencesRun

end StellarPay
