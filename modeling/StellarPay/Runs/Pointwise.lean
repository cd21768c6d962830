import StellarPay.Runs.Turns
import StellarPay.Runtime.Plain

/-!
# A pass without faults, payment by payment

What the turns of a pass amount to: each payment becomes what it would become alone, with one event
for a changed payment and none for the others, whatever the order of the list and whatever the
recorder answers. Only the clock can tell two orders apart, if a payment reaches its expiry while
the pass is at work.
-/

namespace StellarPay

open Interleaving

section Payments

variable {σ ε : Type} [PaymentRepository σ] [WebhookEventRepository ε] [Platform]
  {window : TimeDelta} {answers : Answers} {world after : World σ ε} {order : List Payment}
  {acts : List (Act (passMachine σ ε))} {result : Except WorkerError Unit}

/-- The list has every pending and detected payment once, as it is stored. -/
structure Lists (state : σ) (order : List Payment) : Prop where
  nodup : (order.map Payment.id).Nodup
  mem_iff : ∀ payment, payment ∈ order ↔ stored state payment.id = some payment ∧
    (payment.status = .pending ∨ payment.status = .detected)

/-- What the clock showed when it was first read for this payment. Only the age of a pending payment
is ever read. -/
def ageReading (id : Uuid) (acts : List (Act (passMachine σ ε))) : DateTime :=
  (readingFor id acts).getD 0

/-- A reading is what the clock showed to some request. -/
theorem reading_shown {id : Uuid} {now : DateTime} (h : readingFor id acts = some now) :
    ∃ act ∈ acts, act.env.env.now = now := by
  obtain ⟨act, hact, hclock⟩ := List.exists_of_findSome?_eq_some h
  refine ⟨act, hact, ?_⟩
  unfold clockFor at hclock
  split at hclock
  · simp only [Option.ite_none_right_eq_some, Option.some.injEq] at hclock
    exact hclock.2
  · cases hclock

/-- A pass with these requests has done to each payment what it does to it alone. -/
structure Pointwise (window : TimeDelta) (answers : Answers) (before : σ)
    (acts : List (Act (passMachine σ ε))) (after : σ) : Prop where
  /-- The age of every pending payment was read. -/
  read : ∀ id payment, stored before id = some payment → payment.status = .pending →
    ∃ now, readingFor id acts = some now
  /-- What becomes of a payment is what the pass has written, and nothing else of it. -/
  moved : ∀ id payment next hash, stored before id = some payment →
    Becomes window answers (ageReading id acts) payment next hash →
      ∃ time, stored after id = some (payment.moved next hash time)
  /-- A payment of which nothing becomes is as it was. -/
  untouched : ∀ id payment, stored before id = some payment →
    (∀ next hash, ¬ Becomes window answers (ageReading id acts) payment next hash) →
      stored after id = some payment
  /-- No payment appears. -/
  absent : ∀ id, stored before id = none → stored after id = none
  /-- A changed payment has made one transition, and an unchanged one none. -/
  once : ∀ id, (acts.filterMap movedBy).countP (·.1 == id) =
    if stored after id = stored before id then 0 else 1
  /-- For a changed payment one event was stored, and for an unchanged one none. -/
  notified : ∀ id, (acts.filterMap notifiedBy).countP (·.1 == id) =
    if stored after id = stored before id then 0 else 1
  /-- The event is the one of its new status. -/
  told : ∀ id eventType, (id, eventType) ∈ acts.filterMap notifiedBy →
    ∃ payment, stored after id = some payment ∧ eventType = payment.status.eventType

omit [Platform] in
/-- The log of a list of plans has a payment as often as the list has it with something planned. -/
theorem count_log {α : Type} {plan : Payment → Option (PaymentStatus × Option String)}
    (label : PaymentStatus × Option String → α) (id : Uuid) :
    (order.filterMap fun listed => (plan listed).map fun change => (listed.id, label change)).countP
      (·.1 == id) = order.countP fun listed => listed.id == id && (plan listed).isSome := by
  induction order with
  | nil => rfl
  | cons payment rest ih =>
      rw [List.filterMap_cons, List.countP_cons, ← ih]
      cases plan payment with
      | none => simp
      | some change => exact List.countP_cons.trans (by simp)

omit [Platform] in
/-- A list that has every payment once has it once with something planned, or never. -/
theorem count_planned {plan : Payment → Option (PaymentStatus × Option String)} {payment : Payment}
    (hnodup : (order.map Payment.id).Nodup) (hpayment : payment ∈ order) :
    (order.countP fun listed => listed.id == payment.id && (plan listed).isSome) =
      if (plan payment).isSome then 1 else 0 := by
  have hsame : ∀ listed ∈ order, (listed.id == payment.id && (plan listed).isSome) =
      (listed.id == payment.id && (plan payment).isSome) := by
    intro listed hlisted
    by_cases hid : listed.id = payment.id
    · rw [List.inj_on_of_nodup_map hnodup hlisted hpayment hid]
    · rw [beq_false_of_ne hid, Bool.false_and, Bool.false_and]
  have hcount : (order.countP fun listed => listed.id == payment.id) = 1 := by
    have hone := List.count_eq_one_of_mem hnodup (List.mem_map_of_mem hpayment)
    rwa [List.count, List.countP_map] at hone
  rw [List.countP_congr fun listed hlisted => by rw [hsame listed hlisted]]
  cases (plan payment).isSome with
  | true => simpa using hcount
  | false => simp

/-- What the loop over a listing does with one id: it moves the payment as planned, or leaves what
is stored as it was. -/
theorem LoopDone.cases (hloop : LoopDone window answers order world acts result after)
    (hlists : Lists world.payments order) (id : Uuid) :
    (∃ payment ∈ order, payment.id = id ∧ ∃ next hash time,
      plannedIn window answers acts payment = some (next, hash) ∧
      stored after.payments id = some (payment.moved next hash time) ∧
      stored after.payments id ≠ stored world.payments id) ∨
    (∀ payment ∈ order, payment.id = id → plannedIn window answers acts payment = none) ∧
      stored after.payments id = stored world.payments id := by
  by_cases hany : ∃ payment ∈ order, payment.id = id ∧
      plannedIn window answers acts payment ≠ none
  · obtain ⟨payment, hpayment, rfl, hplan⟩ := hany
    obtain ⟨⟨next, hash⟩, hplan⟩ := Option.ne_none_iff_exists'.mp hplan
    obtain ⟨time, hmoved⟩ := hloop.moved payment hpayment next hash hplan
    refine .inl ⟨payment, hpayment, rfl, next, hash, time, hplan, hmoved, fun hsame => ?_⟩
    -- The status has moved along the state machine, so it is another one.
    rw [hmoved, ((hlists.mem_iff payment).mp hpayment).1] at hsame
    have hstatus : next = payment.status := congrArg Payment.status (Option.some.inj hsame)
    have hrank := PaymentStatus.rank_lt_of_canTransitionTo (planned_iff.mp hplan).transition
    rw [hstatus] at hrank
    exact Nat.lt_irrefl _ hrank
  · have hnone : ∀ payment ∈ order, payment.id = id →
        plannedIn window answers acts payment = none := by
      intro payment hpayment hid
      by_contra hplan
      exact hany ⟨payment, hpayment, hid, hplan⟩
    exact .inr ⟨hnone, hloop.kept id hnone⟩

/-- The loop over a listing writes a payment once if it changes it, and never otherwise. -/
theorem LoopDone.count (hloop : LoopDone window answers order world acts result after)
    (hlists : Lists world.payments order) (id : Uuid) :
    (order.countP fun listed => listed.id == id &&
      (plannedIn window answers acts listed).isSome) =
        if stored after.payments id = stored world.payments id then 0 else 1 := by
  rcases hloop.cases hlists id with
    ⟨payment, hpayment, rfl, next, hash, time, hplan, -, hchanged⟩ | ⟨hnone, hsame⟩
  · rw [if_neg hchanged, count_planned hlists.nodup hpayment, hplan]
    rfl
  · rw [if_pos hsame, List.countP_eq_zero]
    intro listed hlisted hcounted
    simp only [Bool.and_eq_true, beq_iff_eq] at hcounted
    simp [hnone listed hlisted hcounted.1] at hcounted

/-- Something becomes of pending and detected payments only. -/
theorem Becomes.listed {now : DateTime} {payment : Payment} {next : PaymentStatus}
    {hash : Option String} (h : Becomes window answers now payment next hash) :
    payment.status = .pending ∨ payment.status = .detected := by
  cases h with
  | expired hstatus | detected _ _ hstatus => exact .inl hstatus
  | confirmed _ hstatus | failed _ hstatus => exact .inr hstatus

variable [RepositoryLaws σ]

/-- The loop over a listing does to each payment what it does to it alone. -/
theorem LoopDone.pointwise (hloop : LoopDone window answers order world acts result after)
    (hlists : Lists world.payments order) :
    Pointwise window answers world.payments acts after.payments := by
  have hmem : ∀ {id payment}, stored world.payments id = some payment →
      (payment.status = .pending ∨ payment.status = .detected) → payment ∈ order ∧
        payment.id = id := by
    intro id payment hstored hstatus
    have hid := RepositoryLaws.stored_id hstored
    exact ⟨(hlists.mem_iff payment).mpr ⟨hid ▸ hstored, hstatus⟩, hid⟩
  refine ⟨fun id payment hstored hstatus => ?_, fun id payment next hash hstored hbecomes => ?_,
    fun id payment hstored hnothing => ?_, fun id hnone => ?_, fun id => ?_, fun id => ?_,
    fun id eventType htold => ?_⟩
  · obtain ⟨hpayment, rfl⟩ := hmem hstored (.inl hstatus)
    exact hloop.read payment hpayment hstatus
  · obtain ⟨hpayment, rfl⟩ := hmem hstored hbecomes.listed
    exact hloop.moved payment hpayment next hash (planned_iff.mpr hbecomes)
  · rcases hloop.cases hlists id with
      ⟨other, hother, rfl, next, hash, time, hplan, -, -⟩ | ⟨-, hsame⟩
    · cases ((hlists.mem_iff other).mp hother).1.symm.trans hstored
      exact absurd (planned_iff.mp hplan) (hnothing next hash)
    · exact hsame.trans hstored
  · rcases hloop.cases hlists id with ⟨other, hother, rfl, -⟩ | ⟨-, hsame⟩
    · cases ((hlists.mem_iff other).mp hother).1.symm.trans hnone
    · exact hsame.trans hnone
  · rw [hloop.moves, count_log Prod.fst]
    exact hloop.count hlists id
  · rw [hloop.notes, count_log fun change => change.1.eventType]
    exact hloop.count hlists id
  · rw [hloop.notes] at htold
    obtain ⟨payment, hpayment, hnote⟩ := List.mem_filterMap.mp htold
    obtain ⟨⟨next, hash⟩, hplan, heq⟩ := Option.map_eq_some_iff.mp hnote
    cases heq
    obtain ⟨time, hmoved⟩ := hloop.moved payment hpayment next hash hplan
    exact ⟨_, hmoved, rfl⟩

omit [RepositoryLaws σ] in
/-- A request before the others that reads no clock, moves nothing and stores no event. -/
theorem Pointwise.look {before later : σ} {act : Act (passMachine σ ε)}
    (h : Pointwise window answers before acts later) (hclock : ∀ id, clockFor id act = none)
    (hmoved : movedBy act = none) (hnotified : notifiedBy act = none) :
    Pointwise window answers before (act :: acts) later := by
  have hreading : ∀ id, readingFor id (act :: acts) = readingFor id acts := by
    intro id
    rw [readingFor, List.findSome?_cons, hclock, readingFor]
  have hmoves := List.filterMap_cons_none (l := acts) hmoved
  have hnotes := List.filterMap_cons_none (l := acts) hnotified
  refine ⟨?_, ?_, ?_, h.absent, ?_, ?_, ?_⟩
  · simpa only [hreading] using h.read
  · simpa only [ageReading, hreading] using h.moved
  · simpa only [ageReading, hreading] using h.untouched
  · simpa only [hmoves] using h.once
  · simpa only [hnotes] using h.notified
  · simpa only [hnotes] using h.told

variable (haccepts : ∀ (state : σ) (id : Uuid) (hash : Option String),
    RepositoryLaws.accepts state id hash)

include haccepts

/-- A pass does to each payment what it does to it alone. -/
theorem run_once_alone (worker : ReconciliationWorker) (world : World σ ε) :
    Alone (faultFree answers) none worker.runOnce
      (fun acts result after => result = .ok () ∧
        Pointwise worker.expiry answers world.payments acts after.payments) world := by
  refine alone_request_bind fun moment hpermits => ?_
  obtain ⟨listed, hlisted, -⟩ :=
    @RepositoryLaws.mem_pending σ _ _ moment.env.scan world.payments
  have hanswer : answer moment.env .listPendingForReconciliation world = (.ok listed, world) := by
    simp [answer, onPayments, attempt, reading, hpermits.1, hlisted]
  obtain ⟨hnodup, -, hmem⟩ := answer_listing (congrArg Prod.fst hanswer)
  rw [show (passMachine σ ε).answer moment .listPendingForReconciliation world = _ from hanswer]
  have hloop : Alone (faultFree answers) none (worker.processAll listed) _ world :=
    process_all_alone haccepts worker hnodup fun payment hpayment => (hmem payment).mp hpayment
  refine hloop.mono fun acts result after hdone => ⟨hdone.ok, ?_⟩
  exact (hdone.pointwise ⟨hnodup, hmem⟩).look (fun _ => rfl) rfl rfl

end Payments

section InMemory

variable {ε : Type} [WebhookEventRepository ε] [Platform] {worker : ReconciliationWorker}
  {window : TimeDelta} {answers : Answers} {world : World InMemoryState ε}

/-- A pass has come to its end, or its loop over the listed payments in some order, and nothing else
was ever at work. -/
structure FinishedPass (worker : ReconciliationWorker) (answers : Answers)
    (world : World InMemoryState ε) (state : State (passMachine InMemoryState ε))
    (result : Except WorkerError Unit) : Prop where
  reach : Reachable (faultFree answers) world state
  call : state.threads = [⟨.runOnce worker, .done result⟩] ∨
    ∃ order, Lists world.payments order ∧
      state.threads = [⟨.processAll worker order, .done result⟩]

/-- Both passes found the age of each pending payment on the same side of the window. -/
def SameSide (window : TimeDelta) (before : InMemoryState)
    (first second : List (Act (passMachine InMemoryState ε))) : Prop :=
  ∀ id payment, stored before id = some payment → payment.status = .pending →
    (window ≤ ageReading id first - payment.createdAt ↔
      window ≤ ageReading id second - payment.createdAt)

/-- The readings of the clock matter on account of the window only. -/
theorem Becomes.same_side {now now' : DateTime} {payment : Payment} {next : PaymentStatus}
    {hash : Option String} (h : Becomes window answers now payment next hash)
    (hside : payment.status = .pending →
      (window ≤ now - payment.createdAt ↔ window ≤ now' - payment.createdAt)) :
    Becomes window answers now' payment next hash := by
  cases h with
  | expired hstatus hage => exact .expired hstatus ((hside hstatus).mp hage)
  | detected memo found hstatus hage hmemo hfound hamount =>
      have hyoung : now' - payment.createdAt < window :=
        not_le.mp fun hold => not_le.mpr hage ((hside hstatus).mpr hold)
      exact .detected memo found hstatus hyoung hmemo hfound hamount
  | confirmed hash hstatus hhash hsuccessful => exact .confirmed hash hstatus hhash hsuccessful
  | failed hash hstatus hhash hsuccessful => exact .failed hash hstatus hhash hsuccessful

/-- A finished pass has no error, and has done to each payment what it does to it alone. -/
theorem FinishedPass.pointwise {state : State (passMachine InMemoryState ε)}
    {result : Except WorkerError Unit} (h : FinishedPass worker answers world state result) :
    result = .ok () ∧ Pointwise worker.expiry answers world.payments state.config.acts
      state.config.world.payments := by
  have haccepts : ∀ (state : InMemoryState) (id : Uuid) (hash : Option String),
      RepositoryLaws.accepts state id hash := fun _ _ _ => trivial
  rcases h.call with hcall | ⟨order, hlists, hcall⟩
  · exact finishes_alone (run_once_alone haccepts worker world) h.reach hcall
  · have hloop : LoopDone worker.expiry answers order world state.config.acts result
        state.config.world :=
      finishes_alone (process_all_alone haccepts worker hlists.nodup fun payment hpayment =>
        (hlists.mem_iff payment).mp hpayment) h.reach hcall
    exact ⟨hloop.ok, hloop.pointwise hlists⟩

/-- Passes in the course of which the clock stands still find the ages on the same side. -/
theorem FinishedPass.same_side {first second : State (passMachine InMemoryState ε)}
    {result result' : Except WorkerError Unit} {now : DateTime}
    (h : FinishedPass worker answers world first result)
    (h' : FinishedPass worker answers world second result')
    (hstands : ∀ act ∈ first.config.acts, act.env.env.now = now)
    (hstands' : ∀ act ∈ second.config.acts, act.env.env.now = now) :
    SameSide window world.payments first.config.acts second.config.acts := by
  intro id payment hstored hstatus
  obtain ⟨read, hread⟩ := h.pointwise.2.read id payment hstored hstatus
  obtain ⟨read', hread'⟩ := h'.pointwise.2.read id payment hstored hstatus
  rw [ageReading, ageReading, hread, hread', Option.getD_some, Option.getD_some]
  obtain ⟨act, hact, rfl⟩ := reading_shown hread
  obtain ⟨act', hact', rfl⟩ := reading_shown hread'
  rw [hstands act hact, hstands' act' hact']

/-- Two passes that do to each payment what they do to it alone leave the same statuses and hashes,
if they find the ages on the same side of the window. -/
theorem Pointwise.same_outcome {before first second : InMemoryState}
    {acts acts' : List (Act (passMachine InMemoryState ε))}
    (h : Pointwise window answers before acts first)
    (h' : Pointwise window answers before acts' second) (hside : SameSide window before acts acts')
    (id : Uuid) :
    (stored first id).map (fun payment => (payment.status, payment.stellarTxHash)) =
      (stored second id).map fun payment => (payment.status, payment.stellarTxHash) := by
  cases hstored : stored before id with
  | none => rw [h.absent id hstored, h'.absent id hstored]
  | some payment =>
      by_cases hany : ∃ next hash, Becomes window answers (ageReading id acts) payment next hash
      · obtain ⟨next, hash, hbecomes⟩ := hany
        have hbecomes' := hbecomes.same_side (hside id payment hstored)
        obtain ⟨time, hmoved⟩ := h.moved id payment next hash hstored hbecomes
        obtain ⟨time', hmoved'⟩ := h'.moved id payment next hash hstored hbecomes'
        rw [hmoved, hmoved']
        rfl
      · rw [h.untouched id payment hstored fun next hash hbecomes => hany ⟨next, hash, hbecomes⟩,
          h'.untouched id payment hstored fun next hash hbecomes => hany ⟨next, hash,
            hbecomes.same_side fun hpending => (hside id payment hstored hpending).symm⟩]

/-- From any state of the in-memory repository and with any answers of the client, a pass without
faults does to each payment what it does to it alone, and the statuses and hashes depend on the
order of the list only through the clock. -/
theorem pass_pointwise (hwindow : TimeDelta.fromStd worker.expiryWindow = some window) :
    (∀ (state : State (passMachine InMemoryState ε)) (result : Except WorkerError Unit),
      FinishedPass worker answers world state result →
      result = .ok () ∧ Pointwise window answers world.payments state.config.acts
        state.config.world.payments) ∧
    ∀ (first second : State (passMachine InMemoryState ε))
      (result result' : Except WorkerError Unit),
      FinishedPass worker answers world first result →
      FinishedPass worker answers world second result' →
      SameSide window world.payments first.config.acts second.config.acts → ∀ id,
        (stored first.config.world.payments id).map
            (fun payment => (payment.status, payment.stellarTxHash)) =
          (stored second.config.world.payments id).map
            fun payment => (payment.status, payment.stellarTxHash) := by
  have hexpiry : worker.expiry = window := by
    rw [ReconciliationWorker.expiry, hwindow, Option.getD_some]
  rw [← hexpiry]
  exact ⟨fun _ _ hfinished => hfinished.pointwise, fun _ _ _ _ hfirst hsecond hside id =>
    hfirst.pointwise.2.same_outcome hsecond.pointwise.2 hside id⟩

end InMemory

section Run

attribute [local instance] Plain.platform

open Plain

/-- Three payments are made at one time, and one of them is said to be detected, without a hash. -/
def waiting : List (Choice (machine InMemoryState InMemoryEvents)) :=
  [.start (create "10" "order-1" none), .act 0 (env 5000 7), .act 0 (env 5000 7),
    .act 0 (env 5000 7), .start (create "10" "order-2" none), .act 1 (env 5000 8),
    .act 1 (env 5000 8), .act 1 (env 5000 8), .start (create "10" "order-3" none),
    .act 2 (env 5000 9), .act 2 (env 5000 9), .act 2 (env 5000 9),
    .start (.updateStatus 9 .detected none), .act 3 (env 5000 9)]

/-- When the payments of `waiting` reach the end of their window. -/
def windowEnd : DateTime :=
  5000 + 3600 * 10 ^ 9

/-- A transfer that pays ten units. -/
def transfer : StellarPayment where
  transactionHash := "tx"
  sender := "GSENDER"
  recipient := "GDEST"
  amount := "10.0"
  asset := "native"
  memo := some "m"
  createdAt := 5500

/-- A client that finds this for the payment 7 and nothing for the others. -/
def answersWith (found : Option StellarPayment) : Answers where
  found id := if id = 7 then found else none
  transaction _ := ⟨"tx", true, 1, 0⟩

/-- A moment of a pass that scans in this order. -/
def momentAt (now : DateTime) (order : Scan) (found : Option StellarPayment) : Moment :=
  ⟨{ env now 70 with scan := order }, found, ⟨"tx", true, 1, 0⟩⟩

/-- A pass that reads the age of one payment just before the end of the window, and the age of the
next one at the end. -/
def lapsingPass (order : Scan) : List (Choice (passMachine InMemoryState InMemoryEvents)) :=
  .start (.runOnce worker) ::
    ([windowEnd - 1, windowEnd - 1, windowEnd - 1, windowEnd, windowEnd, windowEnd, windowEnd,
      windowEnd, windowEnd].map fun now => .act 0 (momentAt now order none))

/-- The readings of the clock in the course of a pass. -/
def readings (state : State (passMachine InMemoryState InMemoryEvents)) : List DateTime :=
  state.config.acts.map fun act => act.env.env.now

/-- The status of a payment after a pass. -/
def statusAfter (state : State (passMachine InMemoryState InMemoryEvents)) (id : Uuid) :
    Option PaymentStatus :=
  (stored state.config.world.payments id).map Payment.status

/-- The pass of `worker` was all that was started, and has ended without an error. -/
def endedWell (state : State (passMachine InMemoryState InMemoryEvents)) : Bool :=
  match state.threads with
  | [⟨.runOnce ran, .done (.ok ())⟩] => ran.expiryWindow == worker.expiryWindow
  | _ => false

/-- A pass that has ended well is finished. -/
theorem finished_of_ended_well {answers : Answers} {world : World InMemoryState InMemoryEvents}
    {state : State (passMachine InMemoryState InMemoryEvents)}
    (hreach : Reachable (faultFree answers) world state) (h : endedWell state = true) :
    FinishedPass worker answers world state (.ok ()) := by
  refine ⟨hreach, .inl ?_⟩
  unfold endedWell at h
  split at h
  · rename_i ran hthreads
    rw [hthreads, show ran = worker from congrArg ReconciliationWorker.mk (beq_iff_eq.mp h)]
  · cases h

/-- Two passes over the same payments, with the same answers and the same readings of the clock,
scan the payments in opposite orders. Each finds another payment too old, and neither asks about
the detected payment that has no hash. -/
theorem clock_tells_orders_apart : ∃ (before : State (machine InMemoryState InMemoryEvents))
    (first second : State (passMachine InMemoryState InMemoryEvents)),
    Reachable (M := machine InMemoryState InMemoryEvents) .any
      ⟨InMemoryState.new, InMemoryEvents.new⟩ before ∧
    FinishedPass worker (answersWith none) before.config.world first (.ok ()) ∧
    FinishedPass worker (answersWith none) before.config.world second (.ok ()) ∧
    (readings first).Pairwise (· ≤ ·) ∧ readings second = readings first ∧
    statusAfter first 7 = some .expired ∧ statusAfter second 7 = some .pending ∧
    statusAfter first 8 = some .pending ∧ statusAfter second 8 = some .expired ∧
    (stored before.config.world.payments 9).map Payment.status = some .detected ∧
    ((answersWith none).transaction 9).successful = true ∧
    statusAfter first 9 = some .detected ∧ statusAfter second 9 = some .detected := by
  have hrun : (schedule .any waiting (.init ⟨InMemoryState.new, InMemoryEvents.new⟩)).any
      (fun before => (stored before.config.world.payments 9).map Payment.status == some .detected &&
        (schedule (faultFree (answersWith none)) (lapsingPass scan) (.init before.config.world)).any
          fun first => (schedule (faultFree (answersWith none)) (lapsingPass fun _ => Fin.revPerm)
              (.init before.config.world)).any
            fun second => endedWell first && endedWell second &&
              decide ((readings first).Pairwise (· ≤ ·)) && readings second == readings first &&
              [7, 8, 9].map (statusAfter first) == [some .expired, some .pending, some .detected] &&
              [7, 8, 9].map (statusAfter second) ==
                [some .pending, some .expired, some .detected]) = true := by
    decide
  obtain ⟨before, hbefore, htest⟩ := Option.any_eq_true _ _ |>.mp hrun
  obtain ⟨hdetected, htest⟩ := Bool.and_eq_true_iff.mp htest
  obtain ⟨first, hfirst, htest⟩ := Option.any_eq_true _ _ |>.mp htest
  obtain ⟨second, hsecond, htest⟩ := Option.any_eq_true _ _ |>.mp htest
  simp only [Bool.and_eq_true, beq_iff_eq, decide_eq_true_eq, List.map_cons, List.map_nil,
    List.cons.injEq, and_true] at htest
  obtain ⟨⟨⟨⟨⟨hended, hended'⟩, hascends⟩, hreadings⟩, h7, h8, h9⟩, h7', h8', h9'⟩ := htest
  exact ⟨before, first, second, schedule_reachable .any .init hbefore,
    finished_of_ended_well (schedule_reachable _ .init hfirst) hended,
    finished_of_ended_well (schedule_reachable _ .init hsecond) hended', hascends, hreadings,
    h7, h7', h8, h8', beq_iff_eq.mp hdetected, rfl, h9, h9'⟩

/-- A pass in which the transfer is found for the payment 7, at one time. The payment 8 has its turn
before it or after it. -/
def detectingPass (order : Scan) (found : List (Option StellarPayment)) :
    List (Choice (passMachine InMemoryState InMemoryEvents)) :=
  .start (.runOnce worker) :: found.map fun found => .act 0 (momentAt 5600 order found)

/-- The payment 7 is detected by either pass, and both leave the same. -/
theorem pass_pointwise_detection : ∃ (before : World InMemoryState InMemoryEvents)
    (first second : State (passMachine InMemoryState InMemoryEvents)),
    statusAfter first 7 = some .detected ∧
    Pointwise (3600 * 10 ^ 9) (answersWith (some transfer)) before.payments first.config.acts
      first.config.world.payments ∧
    ∀ id, (stored first.config.world.payments id).map
          (fun payment => (payment.status, payment.stellarTxHash)) =
        (stored second.config.world.payments id).map
          fun payment => (payment.status, payment.stellarTxHash) := by
  have hrun : (schedule .any waiting (.init ⟨InMemoryState.new, InMemoryEvents.new⟩)).any
      (fun before => (schedule (faultFree (answersWith (some transfer)))
          (detectingPass scan ([none, none, none] ++ List.replicate 7 (some transfer)))
          (.init before.config.world)).any
        fun first => (schedule (faultFree (answersWith (some transfer)))
            (detectingPass (fun _ => Fin.revPerm)
              (none :: List.replicate 7 (some transfer) ++ [none, none]))
            (.init before.config.world)).any
          fun second => endedWell first && endedWell second &&
            (readings first).all (· == 5600) && (readings second).all (· == 5600) &&
            statusAfter first 7 == some .detected) = true := by
    decide
  obtain ⟨before, hbefore, htest⟩ := Option.any_eq_true _ _ |>.mp hrun
  obtain ⟨first, hfirst, htest⟩ := Option.any_eq_true _ _ |>.mp htest
  obtain ⟨second, hsecond, htest⟩ := Option.any_eq_true _ _ |>.mp htest
  simp only [Bool.and_eq_true, beq_iff_eq, readings, List.all_map, List.all_eq_true,
    Function.comp_apply] at htest
  obtain ⟨⟨⟨⟨hended, hended'⟩, hstands⟩, hstands'⟩, hdetected⟩ := htest
  have hdone := finished_of_ended_well (schedule_reachable _ .init hfirst) hended
  have hdone' := finished_of_ended_well (schedule_reachable _ .init hsecond) hended'
  have hwindow : TimeDelta.fromStd worker.expiryWindow = some (3600 * 10 ^ 9) := rfl
  exact ⟨before.config.world, first, second, hdetected,
    ((pass_pointwise hwindow).1 first _ hdone).2,
    (pass_pointwise hwindow).2 first second _ _ hdone hdone'
      (hdone.same_side hdone' hstands hstands')⟩

end Run

end StellarPay
