import StellarPay.Payments.Lifecycle
import StellarPay.Runtime.Frames
import StellarPay.Runtime.Requests

/-!
# Idempotent creation over whole runs

`create_payment` looks its key up in one step and creates in another. As long as a creation only
succeeds for a new payment and an unlinked key (`CreatesNew`), links and terms stay whatever they
are (`Grows`), and every call that returns has done so in one of the ways of `CreateReturn`. On
Postgres the constraints of the tables see to `CreatesNew`; in memory nothing does.
-/

namespace StellarPay

open Interleaving

section Growth

variable {σ : Type} [PaymentRepository σ]

/-- A key stays linked to its payment, and a payment stays stored with its terms. -/
structure Grows (before after : σ) : Prop where
  links : ∀ key id, linked before key = some id → linked after key = some id
  terms : ∀ id payment, stored before id = some payment →
    ∃ later, stored after id = some later ∧ payment.SameTerms later

theorem Grows.refl (state : σ) : Grows state state :=
  ⟨fun _ _ h => h, fun _ payment h => ⟨payment, h, .refl payment⟩⟩

theorem Grows.trans {first second third : σ} (h : Grows first second) (h' : Grows second third) :
    Grows first third := by
  refine ⟨fun key id hkey => h'.links key id (h.links key id hkey), fun id payment hpayment => ?_⟩
  obtain ⟨later, hlater, hterms⟩ := h.terms id payment hpayment
  obtain ⟨last, hlast, hterms'⟩ := h'.terms id later hlater
  exact ⟨last, hlast, hterms.trans hterms'⟩

variable {ε : Type} [WebhookEventRepository ε]

/-- A creation that succeeds stores a new payment under a key that was not linked. -/
def CreatesNew : Request → World σ ε → Prop
  | .createWithIdempotencyKey payment key, world => ∀ created after,
      PaymentRepository.createWithIdempotencyKey payment key world.payments =
        (.ok created, after) →
      stored world.payments payment.id = none ∧
        ∀ name, key = some name → linked world.payments name = none
  | _, _ => True

variable [RepositoryLaws σ] [KeyLaws σ]

/-- No request unlinks a key or changes the terms of a payment. -/
theorem answer_grows {env : Env} {request : Request} {world : World σ ε}
    (hnew : CreatesNew request world) :
    Grows world.payments (answer env request world).2.payments := by
  refine ⟨fun name id hname => ?_, fun id existing hexisting => ?_⟩
  · cases hwrites : request.writesPayments with
    | false => rwa [answer_payments hwrites]
    | true =>
        cases request with
        | createWithIdempotencyKey payment key =>
            rcases answer_create env payment key world with
              ⟨error, hanswer⟩ | ⟨created, after, hanswer, hcreate⟩
            · rwa [hanswer]
            · have hother : key ≠ some name := fun heq => by
                simp [(hnew created after hcreate).2 name heq] at hname
              rw [hanswer, KeyLaws.create_links hcreate, if_neg hother, hname]
        | guardedUpdate => simpa using hname
        | _ => cases hwrites
  · rcases answer_cases env request world id with
      hsame | ⟨payment, key, created, rfl, rfl, -, -, -, hanswer⟩ |
      ⟨source, next, hash, time, rfl, hsource, -, hmoved, -⟩
    · exact ⟨existing, hsame.trans hexisting, .refl existing⟩
    · cases (hnew _ _ (create_of_answer hanswer)).1.symm.trans hexisting
    · cases hsource.symm.trans hexisting
      exact ⟨_, hmoved, Payment.moved_same_terms existing next hash time⟩

/-- A payment that a request makes appear is one it creates, under the key it links. -/
theorem answer_appears {env : Env} {request : Request} {world : World σ ε} {id : Uuid}
    {found : Payment} (hbefore : stored world.payments id = none)
    (hafter : stored (answer env request world).2.payments id = some found) :
    ∃ payment key, request = .createWithIdempotencyKey payment key ∧
      (answer env (.createWithIdempotencyKey payment key) world).1 = .ok found ∧ found.id = id ∧
      ∀ name, key = some name →
        linked (answer env request world).2.payments name = some id := by
  rcases answer_cases env request world id with
    hsame | ⟨payment, key, created, rfl, rfl, -, -, hcreated, hanswer⟩ |
    ⟨source, next, hash, time, -, hsource, -⟩
  · rw [hsame, hbefore] at hafter
    cases hafter
  · cases hcreated.symm.trans hafter
    have hcreate := create_of_answer hanswer
    refine ⟨payment, key, rfl, hanswer, (RepositoryLaws.create_ok hcreate).1.id, ?_⟩
    intro name hname
    rw [KeyLaws.create_links hcreate, if_pos hname]
  · cases hbefore.symm.trans hsource

end Growth

section Calls

variable {σ ε : Type} [PaymentRepository σ] [WebhookEventRepository ε] [Platform]

/-- The call of a thread began in the world `before`, and the thread has changed nothing since. -/
structure Begun (thread : Nat) (call : Call) (before : World σ ε)
    (config : Config (machine σ ε)) : Prop where
  start : .start thread call before ∈ config.trace
  grows : Grows before.payments config.world.payments
  unchanged : ∀ act, .act act ∈ config.trace → act.thread = thread → act.after = act.before

/-- The ways in which `create_payment` returns. Only in the first may it have changed anything. -/
inductive CreateReturn (thread : Nat) (call : Call) (amount reference : String)
    (key : Option String) (config : Config (machine σ ε)) : Except PaymentError Payment → Prop where
  /-- With a payment that is stored, and linked to the key if there is one. -/
  | created (payment : Payment)
      (hlinked : ∀ name, key = some name → linked config.world.payments name = some payment.id)
      (hstored : ∃ later, stored config.world.payments payment.id = some later ∧
        payment.SameTerms later) :
      CreateReturn thread call amount reference key config (.ok payment)
  /-- Because of the amount. -/
  | invalid (before : World σ ε) (error : PaymentError)
      (hbegun : Begun thread call before config) (hinvalid : validateAmount amount = .error error) :
      CreateReturn thread call amount reference key config (.error error)
  /-- Because the lookup of the key failed. -/
  | unread (before : World σ ε) (name : String) (error : RepositoryError)
      (hbegun : Begun thread call before config) (hkey : key = some name)
      (hact : ∃ act, .act act ∈ config.trace ∧ act.thread = thread ∧
        act.Got (.findByIdempotencyKey name) (.error error)) :
      CreateReturn thread call amount reference key config (.error (.repository error))
  /-- Because the creation was refused, after the lookup had found nothing. -/
  | refused (before : World σ ε) (payment : Payment) (error : RepositoryError)
      (failure : PaymentError) (hbegun : Begun thread call before config)
      (hfree : ∀ name, key = some name → linked before.payments name = none)
      (hreference : payment.reference = reference) (hhash : payment.stellarTxHash = none)
      (hact : ∃ act, .act act ∈ config.trace ∧ act.thread = thread ∧
        act.Got (.createWithIdempotencyKey payment key) (.error error))
      (hfailure : createOutcome reference (.error error) = .error failure) :
      CreateReturn thread call amount reference key config (.error failure)

/-- What a finished call has guaranteed. -/
def createPost : (call : Call) → Nat → call.Result → Config (machine σ ε) → Prop
  | .createPayment service amount reference destination memo key, thread, result, config =>
      CreateReturn thread (.createPayment service amount reference destination memo key) amount
        reference key config result
  | _, _, _, _ => True

/-- The growth of the payments, as a discipline without an invariant. -/
def growth (rules : Rules (machine σ ε)) : Discipline (machine σ ε) rules where
  Inv _ := True
  Evolves before after := Grows before.world.payments after.world.payments
  refl _ := .refl _
  trans := .trans

variable {rules : Rules (machine σ ε)} {thread : Nat} {call : Call} {before : World σ ε}
  {config current : Config (machine σ ε)}

/-- The others do not change what the thread has done. -/
theorem Begun.rely (h : Begun thread call before config)
    (hrely : (growth rules).Rely thread config current) : Begun thread call before current := by
  refine ⟨hrely.grows.subset h.start, h.grows.trans hrely.evolves, fun act hact hthread => ?_⟩
  have hown : .act act ∈ current.own thread := Config.mem_own.mpr ⟨hact, hthread⟩
  rw [hrely.own] at hown
  exact h.unchanged act (Config.mem_own.mp hown).1 hthread

/-- A request that changes nothing is one more that the thread has made. -/
theorem Begun.act (h : Begun thread call before config) (span : Option Uuid) {request : Request}
    {env : Env} (hquiet : (answer env request config.world).2 = config.world) :
    Begun thread call before (config.act thread span request env) := by
  refine ⟨List.mem_append_left _ h.start, ?_, fun act hact hthread => ?_⟩
  · rw [Config.act_world, show (machine σ ε).answer env request config.world =
      answer env request config.world from rfl, hquiet]
    exact h.grows
  · rcases List.mem_append.mp hact with hact | hact
    · exact h.unchanged act hact hthread
    · obtain rfl := Event.act.inj (List.mem_singleton.mp hact)
      exact hquiet

/-- A return is a return whatever the others do. -/
theorem CreateReturn.rely {amount reference : String} {key : Option String}
    {result : Except PaymentError Payment}
    (h : CreateReturn thread call amount reference key config result)
    (hrely : (growth rules).Rely thread config current) :
    CreateReturn thread call amount reference key current result := by
  cases h with
  | created payment hlinked hstored =>
      obtain ⟨later, hlater, hterms⟩ := hstored
      obtain ⟨last, hlast, hterms'⟩ := hrely.evolves.terms _ later hlater
      exact .created payment (fun name hname => hrely.evolves.links _ _ (hlinked name hname))
        ⟨last, hlast, hterms.trans hterms'⟩
  | invalid before error hbegun hinvalid => exact .invalid before error (hbegun.rely hrely) hinvalid
  | unread before name error hbegun hkey hact =>
      obtain ⟨act, hact, hgot⟩ := hact
      exact .unread before name error (hbegun.rely hrely) hkey
        ⟨act, hrely.grows.subset hact, hgot⟩
  | refused before payment error failure hbegun hfree hreference hhash hact hfailure =>
      obtain ⟨act, hact, hgot⟩ := hact
      exact .refused before payment error failure (hbegun.rely hrely) hfree hreference hhash
        ⟨act, hrely.grows.subset hact, hgot⟩ hfailure

/-- A request that changes nothing may be made at any time before the creation. -/
theorem safe_quiet {α : Type} {outer : Option Uuid} {request : Request}
    {next : Answer request → Prog α} {post : α → Config (machine σ ε) → Prop}
    (hbegun : Begun thread call before config)
    (hquiet : ∀ env (world : World σ ε), (answer env request world).2 = world)
    (hnext : ∀ current env, (growth rules).Rely thread config current →
      Begun thread call before (current.act thread outer request env) →
      (growth rules).Safe thread outer (next (answer env request current.world).1) post
        (current.act thread outer request env)) :
    (growth rules).Safe thread outer (ask request >>= next) post config := by
  rw [Discipline.safe_bind, Discipline.safe_request]
  intro current hrely _ env _
  have hcurrent := hbegun.rely hrely
  refine ⟨trivial, ?_, hnext current env hrely (hcurrent.act outer (hquiet env current.world))⟩
  change Grows current.world.payments (answer env request current.world).2.payments
  rw [hquiet]
  exact .refl _

variable [RepositoryLaws σ] [KeyLaws σ]

section Bodies

variable {amount reference : String} {key : Option String} {payment : Payment}
  (hnew : ∀ env span request world, rules.permits env span request world →
    CreatesNew request world)

include hnew

/-- The creation step, once the lookup has found nothing. -/
theorem create_step_safe (hbegun : Begun thread call before config)
    (hfree : ∀ name, key = some name → linked before.payments name = none)
    (hreference : payment.reference = reference) (hhash : payment.stellarTxHash = none) :
    (growth rules).Safe thread none
      (ask (.createWithIdempotencyKey payment key) >>= fun result =>
        pure (createOutcome payment.reference result))
      (fun result config => CreateReturn thread call amount reference key config result)
      config := by
  rw [Discipline.safe_bind, Discipline.safe_request]
  intro current hrely _ env hpermits
  refine ⟨trivial, answer_grows (hnew _ _ _ _ hpermits), ?_⟩
  have hact := current.act_mem thread none (.createWithIdempotencyKey payment key) env
  rcases answer_create env payment key current.world with
    ⟨error, hanswer⟩ | ⟨created, after, hanswer, hcreate⟩
  · have hcurrent := (hbegun.rely hrely).act none (congrArg Prod.snd hanswer)
    have hreply := congrArg Prod.fst hanswer
    obtain ⟨failure, hfailure⟩ : ∃ failure,
        createOutcome reference (.error error) = .error failure := by
      cases error <;> exact ⟨_, rfl⟩
    rw [show ((machine σ ε).answer env _ current.world).1 = _ from hreply, hreference, hfailure]
    exact .refused before payment error failure hcurrent hfree hreference hhash
      ⟨_, hact, rfl, rfl, hreply⟩ hfailure
  · obtain ⟨hsame, _, _, hstored⟩ := RepositoryLaws.create_ok hcreate
    have hreply := congrArg Prod.fst hanswer
    have hworld := congrArg Prod.snd hanswer
    rw [show ((machine σ ε).answer env _ current.world).1 = _ from hreply]
    refine .created created (fun name hname => ?_) ⟨created, ?_, .refl created⟩
    · rw [Config.act_world, show ((machine σ ε).answer env _ current.world).2 = _ from hworld]
      rw [KeyLaws.create_links hcreate, if_pos hname, hsame.id]
    · rw [Config.act_world, show ((machine σ ε).answer env _ current.world).2 = _ from hworld]
      rw [hstored, if_pos hsame.id]

/-- `create_with_idempotency` returns in one of the ways of `CreateReturn`. -/
theorem create_with_idempotency_safe (hbegun : Begun thread call before config)
    (hreference : payment.reference = reference) (hhash : payment.stellarTxHash = none) :
    (growth rules).Safe thread none (createWithIdempotency payment key)
      (fun result config => CreateReturn thread call amount reference key config result)
      config := by
  unfold createWithIdempotency
  cases key with
  | none => exact create_step_safe hnew hbegun (by simp) hreference hhash
  | some name =>
      refine safe_quiet hbegun (fun env world => on_payments_reading env _ world) ?_
      intro current env hrely hcurrent
      have hact := current.act_mem thread none (.findByIdempotencyKey name) env
      have hworld : (current.act thread none (.findByIdempotencyKey name) env).world =
          current.world := on_payments_reading env _ current.world
      rcases answer_find_key env name current.world with
        ⟨error, hreply, _⟩ | ⟨found, hreply, hlinked, hstored⟩
      · rw [hreply]
        exact .unread before name error hcurrent rfl ⟨_, hact, rfl, rfl, hreply⟩
      · rw [hreply]
        cases found with
        | none =>
            -- Links are never undone: a key that is free now was free when the call began.
            refine create_step_safe hnew hcurrent ?_ hreference hhash
            rintro _ ⟨⟩
            refine Option.eq_none_iff_forall_ne_some.mpr fun id hid => ?_
            have hlater := (hbegun.rely hrely).grows.links name id hid
            simp [hlinked] at hlater
        | some existing =>
            refine .created existing ?_ ⟨existing, ?_, .refl existing⟩
            · rintro _ ⟨⟩
              rw [hworld]
              exact hlinked
            · rw [hworld]
              exact hstored existing rfl

/-- `create_payment` returns in one of the ways of `CreateReturn`. -/
theorem create_payment_safe {service : PaymentService} {destination memo : Option String}
    (hbegun : Begun thread call before config) :
    (growth rules).Safe thread none
      (service.createPayment amount reference destination memo key)
      (fun result config => CreateReturn thread call amount reference key config result)
      config := by
  unfold PaymentService.createPayment
  split
  · rename_i error hinvalid
    exact .invalid before error hbegun hinvalid
  · have hrest : ∀ memo config, Begun thread call before config →
        (growth rules).Safe thread none
          (Payment.new amount reference (destination.getD service.defaultDestination)
            (some memo) >>= fun payment => createWithIdempotency payment key)
          (fun result config => CreateReturn thread call amount reference key config result)
          config := by
      intro memo config hbegun
      refine safe_quiet hbegun (fun _ _ => rfl) fun current env hrely hcurrent => ?_
      refine safe_quiet hcurrent (fun _ _ => rfl) fun current env hrely hcurrent => ?_
      exact create_with_idempotency_safe hnew hcurrent rfl rfl
    cases memo with
    | some memo => exact hrest memo config hbegun
    | none =>
        refine safe_quiet hbegun (fun _ _ => rfl) fun current env hrely hcurrent => ?_
        exact hrest _ _ hcurrent

/-- Every call of the system keeps the growth, and `create_payment` returns as described. -/
theorem growth_certified : (growth rules).Certified createPost := by
  refine ⟨fun call thread config _ _ hown => ⟨trivial, .refl _, ?_⟩, fun call thread => ?_⟩
  · have hany : (growth rules).Safe thread none call.body (fun _ _ => True)
        (config.start thread call) :=
      Discipline.safe_of_makes (fun _ => True)
        (fun request _ current _ env span hpermits =>
          ⟨trivial, answer_grows (hnew _ _ _ _ hpermits)⟩)
        (.of_forall fun _ => trivial)
    cases call with
    | createPayment service amount reference destination memo key =>
        have hbegun : Begun thread
            (.createPayment service amount reference destination memo key) config.world
            (config.start thread
              (.createPayment service amount reference destination memo key)) := by
          refine ⟨List.mem_append_right _ (List.mem_singleton.mpr rfl), .refl _, ?_⟩
          intro act hact hthread
          rcases List.mem_append.mp hact with hact | hact
          · have hmem : .act act ∈ config.own thread := Config.mem_own.mpr ⟨hact, hthread⟩
            simp [hown] at hmem
          · simp at hact
        exact create_payment_safe hnew hbegun
    | _ => exact hany
  · cases call with
    | createPayment => exact fun result before after hrely _ h => h.rely hrely
    | _ => exact fun _ _ _ _ _ _ => trivial

end Bodies

section Runs

variable {world : World σ ε} {state : State (machine σ ε)}

/-- The event created `payment` under `key`. -/
def Creates (event : Event (machine σ ε)) (key : String) (created : Payment) : Prop :=
  ∃ act payment, event = .act act ∧
    act.Got (.createWithIdempotencyKey payment (some key)) (.ok created)

/-- A creation under a key links it, and it was free before. -/
theorem creates_links {event : Event (machine σ ε)} {key : String} {created : Payment}
    (hnew : ∀ act, event = .act act → CreatesNew act.request act.before)
    (h : Creates event key created) :
    linked event.before.payments key = none ∧
      linked event.after.payments key = some created.id ∧
      stored event.after.payments created.id = some created := by
  obtain ⟨⟨thread, span, request, env, before⟩, payment, rfl, hrequest, hreply⟩ := h
  dsimp only at hrequest
  subst hrequest
  have hnew := hnew _ rfl
  rcases answer_create env payment (some key) before with
    ⟨error, hanswer⟩ | ⟨other, after, hanswer, hcreate⟩
  · have hrefused := (congrArg Prod.fst hanswer).symm.trans hreply
    cases hrefused
  · have hsame := (congrArg Prod.fst hanswer).symm.trans hreply
    obtain rfl := Except.ok.inj hsame
    obtain ⟨hid, _, _, hstored⟩ := RepositoryLaws.create_ok hcreate
    have hworld : (Event.act ⟨thread, span, .createWithIdempotencyKey payment (some key), env,
        before⟩ : Event (machine σ ε)).after = { before with payments := after } :=
      congrArg Prod.snd hanswer
    refine ⟨(hnew _ _ hcreate).2 key rfl, ?_, ?_⟩
    · rw [hworld, KeyLaws.create_links hcreate, if_pos rfl, hid.id]
    · rw [hworld, hstored, if_pos hid.id]

/-- The thread began `create_payment` with this key in the world `before`. -/
def CreateStarted (state : State (machine σ ε)) (thread : Nat) (key : Option String)
    (before : World σ ε) : Prop :=
  ∃ service amount reference destination memo,
    .start thread (.createPayment service amount reference destination memo key) before ∈
      state.config.trace

/-- The amount, the reference, the key and the result of a thread that ran `create_payment`. -/
def createResult (state : State (machine σ ε)) (thread : Nat) :
    Option (String × String × Option String × Except PaymentError Payment) :=
  match state.threads[thread]? with
  | some ⟨.createPayment _ amount reference _ _ key, .done result⟩ =>
      some (amount, reference, key, result)
  | _ => none

/-- The thread ran `create_payment` with these arguments, and it returned `result`. -/
def CreateReturned (state : State (machine σ ε)) (thread : Nat) (amount reference : String)
    (key : Option String) (result : Except PaymentError Payment) : Prop :=
  createResult state thread = some (amount, reference, key, result)

/-- The requests of the thread have changed nothing. -/
def ChangedNothing (state : State (machine σ ε)) (thread : Nat) : Prop :=
  ∀ act, .act act ∈ state.config.trace → act.thread = thread → act.after = act.before

/-- What idempotency keys guarantee in a state of a run that began in `world`. -/
structure Idempotent (world : World σ ε) (state : State (machine σ ε)) : Prop where
  /-- A key is linked to an existing payment. -/
  exists_linked : ∀ key id, linked state.config.world.payments key = some id →
    ∃ payment, stored state.config.world.payments id = some payment
  /-- A link never changes. -/
  forever : (worlds (M := machine σ ε) world state.config.trace).Pairwise fun earlier later =>
    ∀ key id, linked earlier.payments key = some id → linked later.payments key = some id
  /-- From the creation on, a key is linked to the payment created under it. -/
  links : ∀ event ∈ state.config.trace, ∀ key created, Creates event key created →
    linked state.config.world.payments key = some created.id
  /-- Whatever happens later meets the key linked. -/
  committed : state.config.trace.Pairwise fun earlier later => ∀ key created,
    Creates earlier key created → linked later.before.payments key = some created.id
  /-- No two payments are created under one key. -/
  once : state.config.trace.Pairwise fun earlier later =>
    ∀ key first second, ¬ (Creates earlier key first ∧ Creates later key second)
  /-- All calls with one key that succeed return the same payment. -/
  agree : ∀ first second amount reference amount' reference' key payment other,
    CreateReturned state first amount reference (some key) (.ok payment) →
    CreateReturned state second amount' reference' (some key) (.ok other) →
    payment.SameTerms other
  /-- A call that starts when its key is linked changes nothing, and returns the linked payment
  unless its amount is invalid or the store fails its lookup. -/
  late : ∀ thread key before id, CreateStarted state thread (some key) before →
    linked before.payments key = some id →
    ChangedNothing state thread ∧
    ∀ amount reference result, CreateReturned state thread amount reference (some key) result →
      (∃ error, validateAmount amount = .error error ∧ result = .error error) ∨
      (∃ payment, result = .ok payment ∧ payment.id = id) ∨
      ∃ act message, .act act ∈ state.config.trace ∧ act.thread = thread ∧
        act.request = .findByIdempotencyKey key ∧ act.env.paymentsFault = some message ∧
        result = .error (.repository (.database message))
  /-- A call that fails has changed nothing. -/
  failed : ∀ thread amount reference key error,
    CreateReturned state thread amount reference key (.error error) → ChangedNothing state thread

variable (hnew : ∀ env span request world, rules.permits env span request world →
    CreatesNew request world)

include hnew

/-- Every event of a run keeps links and terms. -/
theorem event_grows (hreach : Reachable rules world state) :
    ∀ event ∈ state.config.trace, Grows event.before.payments event.after.payments := by
  intro event hevent
  cases event with
  | start => exact .refl _
  | act act => exact answer_grows (hnew _ _ _ _ (hreach.permitted hevent))

/-- What an event has left, later events keep. -/
theorem event_grows_last (hreach : Reachable rules world state) {event : Event (machine σ ε)}
    (hevent : event ∈ state.config.trace) :
    Grows event.after.payments state.config.world.payments :=
  hreach.linked.relates_last (fun first second => Grows first.payments second.payments)
    (fun _ => .refl _) .trans (event_grows hnew hreach) hevent

/-- A finished creation returned in one of the ways of `CreateReturn`. -/
theorem create_return (hreach : Reachable rules world state) {thread : Nat}
    {amount reference : String} {key : Option String} {result : Except PaymentError Payment}
    (h : CreateReturned state thread amount reference key result) :
    ∃ call, CreateReturn thread call amount reference key state.config result := by
  unfold CreateReturned createResult at h
  split at h
  · rename_i hthread
    cases h
    exact ⟨_, ((growth_certified hnew).sound trivial hreach).finished hthread⟩
  · cases h

/-- What an event of a run creates was new, and is linked and stored. -/
theorem event_creates (hreach : Reachable rules world state) {event : Event (machine σ ε)}
    (hevent : event ∈ state.config.trace) {key : String} {created : Payment}
    (h : Creates event key created) :
    linked event.before.payments key = none ∧
      linked event.after.payments key = some created.id ∧
      stored event.after.payments created.id = some created := by
  refine creates_links ?_ h
  rintro act rfl
  exact hnew _ _ _ _ (hreach.permitted hevent)

/-- A thread that started with a linked key creates nothing. -/
theorem late_changes_nothing (hreach : Reachable rules world state) {thread : Nat} {key : String}
    {before : World σ ε} {id : Uuid} (hstart : CreateStarted state thread (some key) before)
    (hlinked : linked before.payments key = some id) : ChangedNothing state thread := by
  rintro act hact rfl
  obtain ⟨service, amount, reference, destination, memo, hstart⟩ := hstart
  obtain ⟨t, ht, _, hallowed, hpermits⟩ := act_allowed hreach hact
  rw [← (hreach.start_unique ht hstart hstart).1] at hallowed
  have hgrows := hreach.start_relates (fun first second => Grows first.payments second.payments)
    (fun _ => .refl _) .trans (event_grows hnew hreach) hstart hact rfl
  obtain ⟨thread, span, request, env, world⟩ := act
  cases request with
  | utcNow => rfl
  | newV4 => rfl
  | findByIdempotencyKey name => exact on_payments_reading env _ world
  | createWithIdempotencyKey payment used =>
      obtain rfl : used = some key := hallowed.1
      rcases answer_create env payment (some key) world with
        ⟨error, hanswer⟩ | ⟨created, after, hanswer, hcreate⟩
      · exact congrArg Prod.snd hanswer
      · -- The key has stayed linked since the start, and a creation needs it free.
        have hfree := (hnew _ _ _ _ hpermits _ _ hcreate).2 key rfl
        rw [hgrows.links key id hlinked] at hfree
        cases hfree
  | _ => exact hallowed.elim

/-- A thread that returned an error has changed nothing. -/
theorem failed_changes_nothing (hreach : Reachable rules world state) {thread : Nat}
    {amount reference : String} {key : Option String} {error : PaymentError}
    (h : CreateReturned state thread amount reference key (.error error)) :
    ChangedNothing state thread := by
  obtain ⟨call, hreturn⟩ := create_return hnew hreach h
  cases hreturn with
  | invalid before error hbegun => exact hbegun.unchanged
  | unread before name error hbegun => exact hbegun.unchanged
  | refused before payment error failure hbegun => exact hbegun.unchanged

/-- A thread that started with a linked key returns the linked payment, or did not get to see it. -/
theorem late_returns_linked (hreach : Reachable rules world state) {thread : Nat}
    {amount reference key : String} {before : World σ ε} {id : Uuid}
    {result : Except PaymentError Payment}
    (hstart : CreateStarted state thread (some key) before)
    (hlinked : linked before.payments key = some id)
    (h : CreateReturned state thread amount reference (some key) result) :
    (∃ error, validateAmount amount = .error error ∧ result = .error error) ∨
      (∃ payment, result = .ok payment ∧ payment.id = id) ∨
      ∃ act message, .act act ∈ state.config.trace ∧ act.thread = thread ∧
        act.request = .findByIdempotencyKey key ∧ act.env.paymentsFault = some message ∧
        result = .error (.repository (.database message)) := by
  obtain ⟨service, _, _, destination, memo, hstart⟩ := hstart
  obtain ⟨t, ht⟩ := hreach.thread_of_event hstart
  obtain ⟨call, hreturn⟩ := create_return hnew hreach h
  cases hreturn with
  | created payment hkey =>
      have hlater := (event_grows_last hnew hreach hstart).links key id hlinked
      rw [hkey key rfl] at hlater
      exact .inr (.inl ⟨payment, rfl, Option.some.inj hlater⟩)
  | invalid before error hbegun hinvalid => exact .inl ⟨error, hinvalid, rfl⟩
  | unread other name error hbegun hkey hact =>
      cases hkey
      obtain ⟨act, hact, hthread, hrequest, hreply⟩ := hact
      have hlater := (hreach.start_relates
        (fun first second => Grows first.payments second.payments) (fun _ => .refl _) .trans
        (event_grows hnew hreach) hstart hact hthread).links key id hlinked
      rcases answer_find_key act.env key act.before with
        ⟨failure, hfailure, hfault⟩ | ⟨found, hfound, _⟩
      · obtain ⟨message, hmessage, rfl⟩ := hfault (by simp [hlater])
        obtain rfl := Except.error.inj (hfailure.symm.trans hreply)
        exact .inr (.inr ⟨act, message, hact, hthread, hrequest, hmessage, rfl⟩)
      · cases hfound.symm.trans hreply
  | refused other payment error failure hbegun hfree =>
      -- Its lookup had found nothing, although the key was linked from the start.
      obtain ⟨_, rfl⟩ := hreach.start_unique ht hstart hbegun.start
      rw [hfree key rfl] at hlinked
      cases hlinked

/-- Whatever happens after a creation meets its key linked. -/
theorem committed_pairwise (hreach : Reachable rules world state) :
    state.config.trace.Pairwise fun earlier later => ∀ key created,
      Creates earlier key created → linked later.before.payments key = some created.id := by
  refine (hreach.linked.pairwise_events (fun first second => Grows first.payments second.payments)
    (fun _ => .refl _) .trans (event_grows hnew hreach)).imp_of_mem ?_
  intro earlier later hearlier _ hgrows key created h
  exact hgrows.links _ _ (event_creates hnew hreach hearlier h).2.1

/-- In a run whose creations only store new payments under unlinked keys, the keys keep all that
they promise. -/
theorem idempotent_of_reachable (hreach : Reachable rules world state) :
    Idempotent world state where
  exists_linked key id hlinked := by
    obtain ⟨payment, hpayment⟩ := KeyLaws.find_linked hlinked
    obtain ⟨hid, hstored⟩ := KeyLaws.find_key hpayment
    rw [hlinked] at hid
    obtain rfl := Option.some.inj hid
    exact ⟨payment, hstored payment rfl⟩
  forever := by
    refine (hreach.linked.pairwise_worlds (fun first second => Grows first.payments second.payments)
      .trans (event_grows hnew hreach)).imp fun h => h.links
  links event hevent key created h :=
    (event_grows_last hnew hreach hevent).links _ _ (event_creates hnew hreach hevent h).2.1
  committed := committed_pairwise hnew hreach
  once := by
    refine (committed_pairwise hnew hreach).imp_of_mem ?_
    rintro earlier later _ hlater hcommitted key first second ⟨hfirst, hsecond⟩
    have hlinked := hcommitted key first hfirst
    rw [(event_creates hnew hreach hlater hsecond).1] at hlinked
    cases hlinked
  agree first second amount reference amount' reference' key payment other hfirst hsecond := by
    obtain ⟨_, hfirst⟩ := create_return hnew hreach hfirst
    obtain ⟨_, hsecond⟩ := create_return hnew hreach hsecond
    cases hfirst with
    | created _ hkey hstored =>
        cases hsecond with
        | created _ hkey' hstored' =>
            obtain ⟨later, hlater, hterms⟩ := hstored
            obtain ⟨later', hlater', hterms'⟩ := hstored'
            have hid := Option.some.inj ((hkey key rfl).symm.trans (hkey' key rfl))
            rw [← hid, hlater] at hlater'
            cases hlater'
            exact hterms.trans hterms'.symm
  late thread key before id hstart hlinked :=
    ⟨late_changes_nothing hnew hreach hstart hlinked, fun _ _ _ h =>
      late_returns_linked hnew hreach hstart hlinked h⟩
  failed thread amount reference key error h := failed_changes_nothing hnew hreach h

/-- In a run from an empty store, every stored payment was created, and it is what the key of its
creation is linked to. -/
theorem stored_created (hempty : ∀ id, stored world.payments id = none)
    (hreach : Reachable rules world state) {id : Uuid} {found : Payment}
    (hfound : stored state.config.world.payments id = some found) :
    ∃ act payment key created, .act act ∈ state.config.trace ∧
      act.Got (.createWithIdempotencyKey payment key) (.ok created) ∧ created.id = id ∧
      created.SameTerms found ∧
      ∀ name, key = some name → linked state.config.world.payments name = some id := by
  induction hreach generalizing id found with
  | init => simp [State.init, hempty] at hfound
  | @step state next hbefore hstep ih =>
      cases hstep with
      | start call hadmits =>
          obtain ⟨act, payment, key, created, hact, hcreated⟩ := ih hfound
          exact ⟨act, payment, key, created, List.mem_append_left _ hact, hcreated⟩
      | act thread call span request rest env hthread hpermits =>
          cases hold : stored state.config.world.payments id with
          | none =>
              -- The payment appears in this step, so this is its creation.
              obtain ⟨payment, key, rfl, hreply, hid, hlinks⟩ := answer_appears hold hfound
              exact ⟨_, payment, key, found, state.config.act_mem thread span _ env, ⟨rfl, hreply⟩,
                hid, .refl found, hlinks⟩
          | some old =>
              obtain ⟨act, payment, key, created, hact, hgot, hid, hterms, hlinks⟩ := ih hold
              have hgrows : Grows state.config.world.payments
                  (answer env request state.config.world).2.payments :=
                answer_grows (hnew _ _ _ _ hpermits)
              obtain ⟨later, hlater, hterms'⟩ := hgrows.terms id old hold
              obtain rfl := Option.some.inj (hlater.symm.trans hfound)
              exact ⟨act, payment, key, created, List.mem_append_left _ hact, hgot, hid,
                hterms.trans hterms', fun name hname => hgrows.links _ _ (hlinks name hname)⟩

end Runs

end Calls

end StellarPay
