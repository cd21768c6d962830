import StellarPay.Runtime.Plain
import StellarPay.Runtime.Server
import StellarPay.Webhooks.Service

/-!
# What a delivery loop does to an event

One loop delivers all events, pass after pass. What it asked for on behalf of one event is its
`course`: posts, each followed by the recording of its outcome, which may fail. Nothing else changes
the record of the event, so the record is what the course says. That the attempts stay within the
schedule follows from there; no store checks it.
-/

namespace StellarPay

open Interleaving

open EventLaws (found)

namespace WebhookEventRecord

/-- What every record of a run satisfies. -/
structure Sound (record : WebhookEventRecord) : Prop where
  next_iff : record.nextAttemptAt.isSome = true ↔ record.status = .pending
  delivered_iff : record.deliveredAt.isSome = true ↔ record.status = .delivered
  attempts_le : record.status ≠ .failed → 0 ≤ record.attempts.toInt ∧ record.attempts.toInt ≤ 5
  attempts_failed : record.status = .failed → record.attempts.toInt = 6

/-- The attempts made with the coming one, as `deliver_one` counts them. -/
def attemptsMade (record : WebhookEventRecord) : UInt32 :=
  (record.attempts + 1).toUInt32

/-- The counter stays far from its ends. -/
theorem Sound.bounds {record : WebhookEventRecord} (h : record.Sound) :
    0 ≤ record.attempts.toInt ∧ record.attempts.toInt ≤ 6 := by
  by_cases hstatus : record.status = .failed
  · have hattempts := h.attempts_failed hstatus
    omega
  · have hattempts := h.attempts_le hstatus
    omega

/-- So it can count on. -/
theorem Sound.room {record : WebhookEventRecord} (h : record.Sound) :
    record.attempts ≠ Int32.maxValue := by
  intro hend
  have hbounds := h.bounds
  rw [hend, Int32.toInt_maxValue] at hbounds
  omega

/-- The count neither overflows nor wraps. -/
theorem attempts_made_eq {record : WebhookEventRecord} (hroom : record.attempts ≠ Int32.maxValue)
    (hnonneg : 0 ≤ record.attempts.toInt) :
    (record.attemptsMade.toNat : Int) = record.attempts.toInt + 1 := by
  have hsucc := to_int_succ hroom
  have hle : (0 : Int32) ≤ record.attempts + 1 := by
    rw [Int32.le_iff_toInt_le, hsucc, Int32.toInt_zero]
    omega
  rw [attemptsMade, Int32.toNat_toUInt32_of_le hle, Int32.toNatClampNeg, hsucc]
  omega

/-- A new event. -/
theorem Sound.of_enqueued (id paymentId : Uuid) (eventType : String) (payload : Value)
    (now : DateTime) : (enqueued id paymentId eventType payload now).Sound := by
  refine ⟨?_, ?_, ?_, ?_⟩ <;> simp [enqueued]

/-- A delivery of a pending event. -/
theorem Sound.delivered {record : WebhookEventRecord} (h : record.Sound)
    (hpending : record.status = .pending) (now : DateTime) : (record.delivered now).Sound := by
  have hattempts := h.attempts_le (by simp [hpending])
  refine ⟨?_, ?_, fun _ => hattempts, ?_⟩ <;> simp [WebhookEventRecord.delivered]

/-- The schedule has an entry for each of the first five failures. -/
theorem next_backoff_eq {record : WebhookEventRecord} (h : record.Sound)
    (hpending : record.status = .pending) :
    nextBackoff record.attemptsMade = backoffSchedule[record.attempts.toInt.toNat]? := by
  have hmade := attempts_made_eq h.room h.bounds.1
  have hattempts := h.attempts_le (by simp [hpending])
  have hne : record.attemptsMade ≠ 0 := by
    intro hzero
    rw [hzero] at hmade
    simp at hmade
    omega
  have hle : (1 : UInt32) ≤ record.attemptsMade := by
    rw [UInt32.le_iff_toNat_le]
    show 1 ≤ _
    omega
  have hindex : (record.attemptsMade - 1).toNat = record.attempts.toInt.toNat := by
    rw [UInt32.toNat_sub_of_le _ _ hle]
    show record.attemptsMade.toNat - 1 = _
    omega
  rw [nextBackoff, if_neg hne, hindex]

/-- A failure that leaves another attempt. -/
theorem Sound.retried {record : WebhookEventRecord} (h : record.Sound)
    (hpending : record.status = .pending) {delay : Duration}
    (hbackoff : nextBackoff record.attemptsMade = some delay) (next now : DateTime) :
    (record.failed (some next) now).Sound := by
  have hattempts := h.attempts_le (by simp [hpending])
  rw [next_backoff_eq h hpending] at hbackoff
  have hlt : record.attempts.toInt.toNat < 5 := (List.getElem?_eq_some_iff.mp hbackoff).1
  have hdelivered := h.delivered_iff
  rw [hpending] at hdelivered
  refine ⟨by simp [failed], by simpa [failed] using hdelivered, fun _ => ?_, by simp [failed]⟩
  show 0 ≤ (record.attempts + 1).toInt ∧ (record.attempts + 1).toInt ≤ 5
  rw [to_int_succ h.room]
  omega

/-- The failure that exhausts the schedule. -/
theorem Sound.exhausted {record : WebhookEventRecord} (h : record.Sound)
    (hpending : record.status = .pending) (hbackoff : nextBackoff record.attemptsMade = none)
    (now : DateTime) : (record.failed none now).Sound := by
  have hattempts := h.attempts_le (by simp [hpending])
  rw [next_backoff_eq h hpending] at hbackoff
  have hge : 5 ≤ record.attempts.toInt.toNat := List.getElem?_eq_none_iff.mp hbackoff
  have hdelivered := h.delivered_iff
  rw [hpending] at hdelivered
  refine ⟨by simp [failed], by simpa [failed] using hdelivered, by simp [failed], fun _ => ?_⟩
  show (record.attempts + 1).toInt = 6
  rw [to_int_succ h.room]
  omega

end WebhookEventRecord

section Courses

variable {σ ε : Type} [PaymentRepository σ] [WebhookEventRepository ε] [Platform]

/-- The requests the loop has made on behalf of one event. -/
def course (loop : Nat) (id : Uuid) (config : Config (server σ ε)) : List (Act (server σ ε)) :=
  (config.own loop).filterMap fun
    | .act act => if act.span = some id then some act else none
    | .start _ _ _ => none

section Frames

variable {loop thread : Nat} {id : Uuid} (config : Config (server σ ε)) {span : Option Uuid}
  (request : Request) (env : Env)

/-- A request of the loop in the span of the event. -/
theorem course_act_self : course loop id (config.act loop (some id) request env) =
    course loop id config ++ [⟨loop, some id, request, env, config.world⟩] := by
  simp [course]

/-- A request of another thread, or outside the span. -/
theorem course_act_other (h : thread ≠ loop ∨ span ≠ some id) :
    course loop id (config.act thread span request env) = course loop id config := by
  by_cases hthread : thread = loop
  · have hspan := h.resolve_left (not_not.mpr hthread)
    simp [course, hthread, hspan]
  · rw [course, Config.own_act_other _ hthread]
    rfl

/-- A call that starts. -/
theorem course_start (call : ServerCall) :
    course loop id (config.start thread call) = course loop id config := by
  by_cases hthread : thread = loop
  · simp [course, hthread]
  · rw [course, Config.own_start_other _ hthread]
    rfl

end Frames

/-- How far the loop has come with an event. -/
inductive Phase (σ ε : Type) [PaymentRepository σ] [WebhookEventRepository ε] [Platform] where
  /-- The outcome of the last post has been marked, or the store has refused to. -/
  | resting
  | posted (post : Act (server σ ε))
  /-- It has looked at the clock after the post. -/
  | timed (post clock : Act (server σ ε))

variable [EventLaws ε] [DeliveryLaws ε]

/-- A change of the record, made unless the store fails. -/
def marked (env : Env) (record changed : WebhookEventRecord) : WebhookEventRecord :=
  if env.eventsFault = none then changed else record

/-- One request of the loop on behalf of an event, and what becomes of its record. -/
inductive Attempt (webhooks : WebhookService) (history : List (Event (server σ ε))) :
    WebhookEventRecord → Phase σ ε → Act (server σ ε) → WebhookEventRecord → Phase σ ε → Prop where
  /-- The event is sent. It is pending, and an earlier look at the clock found it due. -/
  | post {record : WebhookEventRecord} {act reading : Act (server σ ε)} {next : DateTime}
      (hpending : record.status = .pending) (hnext : record.nextAttemptAt = some next)
      (hreading : [.act reading, .act act].Sublist history)
      (hdue : next ≤ DeliveryLaws.time ε reading.env.now)
      (hrequest : act.request = webhooks.postOf record) :
      Attempt webhooks history record .resting act record (.posted act)
  | clock {record : WebhookEventRecord} {post act : Act (server σ ε)}
      (hrequest : act.request = .utcNow) :
      Attempt webhooks history record (.posted post) act record (.timed post act)
  | delivered {record : WebhookEventRecord} {post clock act : Act (server σ ε)}
      (hsuccess : WebhookService.isSuccess post.env.endpoint = true)
      (hrequest : act.request = .markDelivered record.id clock.env.now) :
      Attempt webhooks history record (.timed post clock) act
        (marked act.env record (record.delivered (DeliveryLaws.time ε clock.env.now))) .resting
  | retried {record : WebhookEventRecord} {post clock act : Act (server σ ε)} {delay : Duration}
      (hfailure : WebhookService.isSuccess post.env.endpoint = false)
      (hbackoff : nextBackoff record.attemptsMade = some delay)
      (hrequest : act.request =
        .markFailed record.id (some (clock.env.now + toChronoDuration delay))) :
      Attempt webhooks history record (.timed post clock) act
        (marked act.env record (record.failed
          (some (DeliveryLaws.time ε (clock.env.now + toChronoDuration delay)))
          (DeliveryLaws.time ε act.env.now))) .resting
  | exhausted {record : WebhookEventRecord} {post act : Act (server σ ε)}
      (hfailure : WebhookService.isSuccess post.env.endpoint = false)
      (hbackoff : nextBackoff record.attemptsMade = none)
      (hrequest : act.request = .markFailed record.id none) :
      Attempt webhooks history record (.posted post) act
        (marked act.env record (record.failed none (DeliveryLaws.time ε act.env.now))) .resting

/-- The requests of the loop on behalf of an event, from the record it began with to the present
one. -/
inductive Follows (webhooks : WebhookService) (history : List (Event (server σ ε)))
    (start : WebhookEventRecord) :
    List (Act (server σ ε)) → Phase σ ε → WebhookEventRecord → Prop where
  | nil : Follows webhooks history start [] .resting start
  | snoc {acts : List (Act (server σ ε))} {act : Act (server σ ε)} {phase next : Phase σ ε}
      {record after : WebhookEventRecord} (h : Follows webhooks history start acts phase record)
      (hattempt : Attempt webhooks history record phase act after next) :
      Follows webhooks history start (acts ++ [act]) next after

variable {webhooks : WebhookService} {history later : List (Event (server σ ε))}
  {start record after : WebhookEventRecord} {acts : List (Act (server σ ε))}
  {phase next : Phase σ ε} {act : Act (server σ ε)}

/-- An attempt is one in a longer history, too. -/
theorem Attempt.mono (h : Attempt webhooks history record phase act after next)
    (hgrows : history <+: later) : Attempt webhooks later record phase act after next := by
  cases h with
  | post hpending hnext hreading hdue hrequest =>
      exact .post hpending hnext (hreading.trans hgrows.sublist) hdue hrequest
  | clock hrequest => exact .clock hrequest
  | delivered hsuccess hrequest => exact .delivered hsuccess hrequest
  | retried hfailure hbackoff hrequest => exact .retried hfailure hbackoff hrequest
  | exhausted hfailure hbackoff hrequest => exact .exhausted hfailure hbackoff hrequest

/-- A course is one in a longer history, too. -/
theorem Follows.mono (h : Follows webhooks history start acts phase record)
    (hgrows : history <+: later) : Follows webhooks later start acts phase record := by
  induction h with
  | nil => exact .nil
  | snoc _ hattempt ih => exact ih.snoc (hattempt.mono hgrows)

/-- Nothing was asked for yet. -/
theorem Follows.of_nil (h : Follows webhooks history start [] phase record) :
    phase = .resting ∧ record = start := by
  generalize hacts : ([] : List (Act (server σ ε))) = acts at h
  cases h with
  | nil => exact ⟨rfl, rfl⟩
  | snoc => simp at hacts

/-- An attempt keeps the record sound, and while the loop is at it the event is pending. -/
theorem Attempt.sound (h : Attempt webhooks history record phase act after next)
    (hsound : record.Sound) (hpending : phase ≠ .resting → record.status = .pending) :
    after.Sound ∧ (next ≠ .resting → after.status = .pending) := by
  cases h with
  | post hstatus => exact ⟨hsound, fun _ => hstatus⟩
  | clock => exact ⟨hsound, fun _ => hpending (by simp)⟩
  | delivered =>
      refine ⟨?_, fun hne => absurd rfl hne⟩
      rw [marked]
      split
      · exact hsound.delivered (hpending (by simp)) _
      · exact hsound
  | retried hfailure hbackoff =>
      refine ⟨?_, fun hne => absurd rfl hne⟩
      rw [marked]
      split
      · exact hsound.retried (hpending (by simp)) hbackoff _ _
      · exact hsound
  | exhausted hfailure hbackoff =>
      refine ⟨?_, fun hne => absurd rfl hne⟩
      rw [marked]
      split
      · exact hsound.exhausted (hpending (by simp)) hbackoff _
      · exact hsound

/-- A course that began with a sound record has kept it sound. -/
theorem Follows.sound (h : Follows webhooks history start acts phase record)
    (hstart : start.Sound) :
    record.Sound ∧ (phase ≠ .resting → record.status = .pending) := by
  induction h with
  | nil => exact ⟨hstart, fun hne => absurd rfl hne⟩
  | snoc _ hattempt ih => exact hattempt.sound ih.1 ih.2

/-- An attempt leaves the event what it is. -/
theorem Attempt.same (h : Attempt webhooks history record phase act after next) :
    record.SameEvent after := by
  cases h with
  | post | clock => exact .refl record
  | delivered | retried | exhausted =>
      rw [marked]
      split <;> exact ⟨rfl, rfl, rfl, rfl⟩

/-- A course leaves the event what it was. -/
theorem Follows.same (h : Follows webhooks history start acts phase record) :
    start.SameEvent record := by
  induction h with
  | nil => exact .refl start
  | snoc _ hattempt ih => exact ih.trans hattempt.same

end Courses

section Discipline

variable {σ ε : Type} [PaymentRepository σ] [WebhookEventRepository ε] [Platform] [EventLaws ε]
  [DeliveryLaws ε]

/-- The request stored this event. -/
def Stores (act : Act (server σ ε)) (record : WebhookEventRecord) : Prop :=
  ∃ now, act.Got (.enqueue now record.paymentId record.eventType record.payload) (.ok record)

/-- A new event is sound. -/
theorem Stores.sound {act : Act (server σ ε)} {record : WebhookEventRecord}
    (h : Stores act record) : record.Sound := by
  obtain ⟨_, hgot⟩ := h
  rw [answer_enqueue_record hgot.2]
  exact .of_enqueued _ _ _ _ _

/-- The record of an event is what the course of the loop says. -/
inductive Tracked (webhooks : WebhookService) (loop : Nat) (config : Config (server σ ε))
    (id : Uuid) : Phase σ ε → Prop where
  | absent (hfound : found config.world.events id = none)
      (hcourse : course loop id config = []) : Tracked webhooks loop config id .resting
  | stored {phase : Phase σ ε} {act : Act (server σ ε)} {start record : WebhookEventRecord}
      (hact : .act act ∈ config.trace) (hstores : Stores act start) (hid : start.id = id)
      (hfollows : Follows webhooks config.trace start (course loop id config) phase record)
      (hfound : found config.world.events id = some record) :
      Tracked webhooks loop config id phase

variable {webhooks : WebhookService} {loop : Nat} {config after : Config (server σ ε)} {id : Uuid}
  {phase : Phase σ ε}

/-- What changes neither the record nor the course changes nothing. -/
theorem Tracked.frame (h : Tracked webhooks loop config id phase)
    (hgrows : config.trace <+: after.trace)
    (hfound : found after.world.events id = found config.world.events id)
    (hcourse : course loop id after = course loop id config) :
    Tracked webhooks loop after id phase := by
  cases h with
  | absent hnone hnil => exact .absent (hfound.trans hnone) (hcourse.trans hnil)
  | stored hact hstores hid hfollows hsome =>
      refine .stored (hgrows.subset hact) hstores hid ?_ (hfound.trans hsome)
      rw [hcourse]
      exact hfollows.mono hgrows

/-- An event that is not stored rests. -/
theorem Tracked.of_nil (h : Tracked webhooks loop config id phase)
    (hcourse : course loop id config = []) : phase = .resting := by
  cases h with
  | absent => rfl
  | stored _ _ _ hfollows =>
      rw [hcourse] at hfollows
      exact hfollows.of_nil.1

variable (σ ε webhooks loop) in
/-- Every event is tracked, and only the loop changes a record that is stored. -/
def deliveries : Discipline (server σ ε) (serverRules σ ε) where
  Inv config := ∀ id, ∃ phase, Tracked webhooks loop config id phase
  Evolves before after := before.trace <+: after.trace ∧
    (after.own loop = before.own loop → ∀ id record,
      found before.world.events id = some record → found after.world.events id = some record)
  refl _ := ⟨List.prefix_refl _, fun _ _ _ hfound => hfound⟩
  trans {first second third} h h' := by
    refine ⟨h.1.trans h'.1, fun hown id record hfound => ?_⟩
    have hfirst : first.own loop <+: second.own loop := Config.own_mono h.1 loop
    have hlast : second.own loop <+: third.own loop := Config.own_mono h'.1 loop
    have hsame : second.own loop = first.own loop :=
      (hfirst.sublist.eq_of_length_le (hown ▸ hlast.length_le)).symm
    exact h'.2 (hown.trans hsame.symm) id record (h.2 hsame id record hfound)

/-- What the loop knows of an event stays as it is while the others are at work. -/
theorem Tracked.stable (h : Tracked webhooks loop config id phase)
    (hrely : (deliveries σ ε webhooks loop).Rely loop config after)
    (hinv : (deliveries σ ε webhooks loop).Inv after) :
    Tracked webhooks loop after id phase := by
  have hcourse : course loop id after = course loop id config := by
    rw [course, hrely.own]
    rfl
  cases h with
  | absent hnone hnil =>
      obtain ⟨phase, htracked⟩ := hinv id
      rw [← htracked.of_nil (hcourse.trans hnil)]
      exact htracked
  | stored hact hstores hid hfollows hsome =>
      exact (Tracked.stored hact hstores hid hfollows hsome).frame hrely.grows
        ((hrely.evolves.2 hrely.own id _ hsome).trans hsome.symm) hcourse

/-- A request that delivers nothing keeps all records, and stores one event at most. -/
theorem step_of_not_delivers {thread : Nat} {span : Option Uuid} {request : Request} {env : Env}
    (hdelivers : request.delivers = false) (hspan : thread ≠ loop ∨ span = none)
    (hinv : (deliveries σ ε webhooks loop).Inv config)
    (hfresh : FreshEvent env request config.world) :
    (deliveries σ ε webhooks loop).Inv (config.act thread span request env) ∧
    (deliveries σ ε webhooks loop).Evolves config (config.act thread span request env) := by
  have hgrows : config.trace <+: (config.act thread span request env).trace :=
    List.prefix_append _ _
  have hcourse : ∀ id, course loop id (config.act thread span request env) =
      course loop id config := by
    intro id
    refine course_act_other config request env (hspan.imp_right fun hnone => ?_)
    simp [hnone]
  have hfound : ∀ id, found (config.act thread span request env).world.events id =
        found config.world.events id ∨
      found config.world.events id = none ∧ ∃ record,
        Stores (⟨thread, span, request, env, config.world⟩ : Act (server σ ε)) record ∧
        record.id = id ∧
        found (config.act thread span request env).world.events id = some record := by
    intro id
    rcases answer_found_cases env request config.world id with
      hsame | ⟨now, paymentId, eventType, payload, rfl, rfl, hanswer, hstored⟩ |
      ⟨deliveredAt, rfl, -⟩ | ⟨next, rfl, -⟩
    · exact .inl hsame
    · exact .inr ⟨hfresh, _, ⟨now, rfl, hanswer⟩, rfl, hstored⟩
    · cases hdelivers
    · cases hdelivers
  refine ⟨fun id => ?_, hgrows, fun _ id record hrecord => ?_⟩
  · obtain ⟨phase, htracked⟩ := hinv id
    rcases hfound id with hsame | ⟨hnone, record, hstores, hid, hsome⟩
    · exact ⟨phase, htracked.frame hgrows hsame (hcourse id)⟩
    · cases htracked with
      | absent _ hnil =>
          refine ⟨.resting, .stored (config.act_mem thread span request env) hstores hid ?_ hsome⟩
          rw [hcourse, hnil]
          exact .nil
      | stored _ _ _ _ hstored => cases hnone.symm.trans hstored
  · rcases hfound id with hsame | ⟨hnone, -⟩
    · exact hsame.trans hrecord
    · cases hnone.symm.trans hrecord

/-- What the loop knows of an event it is still to send: it is as it was fetched, and due by a
reading of the clock. -/
structure Ready (config : Config (server σ ε)) (record : WebhookEventRecord) : Prop where
  stored : found config.world.events record.id = some record
  pending : record.status = .pending
  due : ∃ next reading, record.nextAttemptAt = some next ∧ .act reading ∈ config.trace ∧
    next ≤ DeliveryLaws.time ε reading.env.now

/-- What the loop knows while it is at one event, with others still to send. -/
structure Working (webhooks : WebhookService) (loop : Nat) (rest : List WebhookEventRecord)
    (record : WebhookEventRecord) (phase : Phase σ ε) (config : Config (server σ ε)) : Prop where
  tracked : Tracked webhooks loop config record.id phase
  others : ∀ id, id ≠ record.id → Tracked webhooks loop config id .resting
  stored : found config.world.events record.id = some record
  waiting : ∀ other ∈ rest, Ready config other

/-- What the loop knows between two events. -/
structure Resting (webhooks : WebhookService) (loop : Nat) (rest : List WebhookEventRecord)
    (config : Config (server σ ε)) : Prop where
  tracked : ∀ id, Tracked webhooks loop config id .resting
  waiting : ∀ other ∈ rest, Ready config other

variable {rest : List WebhookEventRecord} {record : WebhookEventRecord}

/-- An event stays ready while the others are at work. -/
theorem Ready.stable (h : Ready config record)
    (hrely : (deliveries σ ε webhooks loop).Rely loop config after) : Ready after record := by
  obtain ⟨next, reading, hnext, hreading, hdue⟩ := h.due
  exact ⟨hrely.evolves.2 hrely.own _ _ h.stored, h.pending,
    next, reading, hnext, hrely.grows.subset hreading, hdue⟩

theorem Working.stable (h : Working webhooks loop rest record phase config)
    (hrely : (deliveries σ ε webhooks loop).Rely loop config after)
    (hinv : (deliveries σ ε webhooks loop).Inv after) :
    Working webhooks loop rest record phase after where
  tracked := h.tracked.stable hrely hinv
  others id hne := (h.others id hne).stable hrely hinv
  stored := hrely.evolves.2 hrely.own _ _ h.stored
  waiting other hother := (h.waiting other hother).stable hrely

theorem Resting.stable (h : Resting webhooks loop rest config)
    (hrely : (deliveries σ ε webhooks loop).Rely loop config after)
    (hinv : (deliveries σ ε webhooks loop).Inv after) : Resting webhooks loop rest after where
  tracked id := (h.tracked id).stable hrely hinv
  waiting other hother := (h.waiting other hother).stable hrely

/-- An event stays ready when something else is done. -/
theorem Ready.frame (h : Ready config record) (hgrows : config.trace <+: after.trace)
    (hfound : found after.world.events record.id = found config.world.events record.id) :
    Ready after record := by
  obtain ⟨next, reading, hnext, hreading, hdue⟩ := h.due
  exact ⟨hfound.trans h.stored, h.pending, next, reading, hnext, hgrows.subset hreading, hdue⟩

/-- One more request of the loop on behalf of an event. -/
theorem Working.step {next : Phase σ ε} {changed : WebhookEventRecord} {request : Request}
    {env : Env} (h : Working webhooks loop rest record phase config)
    (hdistinct : ∀ other ∈ rest, other.id ≠ record.id)
    (hattempt : Attempt webhooks (config.act loop (some record.id) request env).trace record phase
      ⟨loop, some record.id, request, env, config.world⟩ changed next)
    (hfound : found (config.act loop (some record.id) request env).world.events record.id =
      some changed)
    (hframe : ∀ id, id ≠ record.id →
      found (config.act loop (some record.id) request env).world.events id =
        found config.world.events id) :
    (deliveries σ ε webhooks loop).Inv (config.act loop (some record.id) request env) ∧
    (deliveries σ ε webhooks loop).Evolves config
      (config.act loop (some record.id) request env) ∧
    Working webhooks loop rest changed next (config.act loop (some record.id) request env) := by
  have hgrows : config.trace <+: (config.act loop (some record.id) request env).trace :=
    List.prefix_append _ _
  have hid : changed.id = record.id := hattempt.same.id
  have htracked : Tracked webhooks loop (config.act loop (some record.id) request env) record.id
      next := by
    cases h.tracked with
    | absent hnone => cases hnone.symm.trans h.stored
    | stored hact hstores hstart hfollows hsome =>
        cases hsome.symm.trans h.stored
        refine .stored (hgrows.subset hact) hstores hstart ?_ hfound
        rw [course_act_self]
        exact (hfollows.mono hgrows).snoc hattempt
  have hothers : ∀ id, id ≠ record.id →
      Tracked webhooks loop (config.act loop (some record.id) request env) id .resting := by
    intro id hne
    refine (h.others id hne).frame hgrows (hframe id hne) (course_act_other config request env ?_)
    exact .inr fun heq => hne (Option.some.inj heq).symm
  refine ⟨fun id => ?_, ⟨hgrows, fun hown => ?_⟩, ?_⟩
  · by_cases hne : id = record.id
    · exact ⟨next, hne ▸ htracked⟩
    · exact ⟨.resting, hothers id hne⟩
  · rw [Config.own_act_self] at hown
    simp at hown
  · refine ⟨hid ▸ htracked, fun id hne => hothers id (hid ▸ hne), hid ▸ hfound, ?_⟩
    intro other hother
    exact (h.waiting other hother).frame hgrows (hframe other.id (hdistinct other hother))

/-- The loop is done with one event. -/
theorem Working.done (h : Working webhooks loop rest record .resting config) :
    Resting webhooks loop rest config where
  tracked id := by
    by_cases hne : id = record.id
    · exact hne ▸ h.tracked
    · exact h.others id hne
  waiting := h.waiting

/-- A request on behalf of an event that does not write to the store of events. -/
theorem Working.look {next : Phase σ ε} {request : Request} {env : Env}
    (h : Working webhooks loop rest record phase config)
    (hdistinct : ∀ other ∈ rest, other.id ≠ record.id)
    (hattempt : Attempt webhooks (config.act loop (some record.id) request env).trace record phase
      ⟨loop, some record.id, request, env, config.world⟩ record next)
    (hwrites : request.writesEvents = false) :
    (deliveries σ ε webhooks loop).Inv (config.act loop (some record.id) request env) ∧
    (deliveries σ ε webhooks loop).Evolves config
      (config.act loop (some record.id) request env) ∧
    Working webhooks loop rest record next (config.act loop (some record.id) request env) := by
  have hevents : (config.act loop (some record.id) request env).world.events =
      config.world.events := answer_events hwrites
  exact h.step hdistinct hattempt (by rw [hevents, h.stored]) fun id _ => by rw [hevents]

/-- The record of the event is sound. -/
theorem Working.sound (h : Working webhooks loop rest record phase config) : record.Sound := by
  cases h.tracked with
  | absent hnone => cases hnone.symm.trans h.stored
  | stored _ hstores _ hfollows hsome =>
      cases hsome.symm.trans h.stored
      exact (hfollows.sound hstores.sound).1

/-- A recorded delivery. -/
theorem Working.mark_delivered {post clock : Act (server σ ε)} {env : Env}
    (h : Working webhooks loop rest record (.timed post clock) config)
    (hdistinct : ∀ other ∈ rest, other.id ≠ record.id)
    (hsuccess : WebhookService.isSuccess post.env.endpoint = true) :
    (deliveries σ ε webhooks loop).Inv (config.act loop (some record.id)
        (.markDelivered record.id clock.env.now) env) ∧
    (deliveries σ ε webhooks loop).Evolves config (config.act loop (some record.id)
        (.markDelivered record.id clock.env.now) env) ∧
    Resting webhooks loop rest (config.act loop (some record.id)
        (.markDelivered record.id clock.env.now) env) := by
  have hafter := answer_mark_delivered env record.id clock.env.now config.world
  have hfound : found (answer env (.markDelivered record.id clock.env.now) config.world).2.events
      record.id = some (marked env record
        (record.delivered (DeliveryLaws.time ε clock.env.now))) := by
    rw [hafter, h.stored, marked]
    by_cases hworks : env.eventsFault = none <;> simp [hworks]
  obtain ⟨hinv, hevolves, hworking⟩ := h.step hdistinct (.delivered hsuccess rfl) hfound
    fun id hne => (hafter id).trans (if_neg fun hmarked => hne hmarked.2)
  exact ⟨hinv, hevolves, hworking.done⟩

/-- A recorded failure, with the attempt that it was. -/
theorem Working.mark_failed {due : Option DateTime} {changed : WebhookEventRecord} {env : Env}
    (h : Working webhooks loop rest record phase config)
    (hdistinct : ∀ other ∈ rest, other.id ≠ record.id)
    (hattempt : Attempt webhooks
      (config.act loop (some record.id) (.markFailed record.id due) env).trace record phase
      ⟨loop, some record.id, .markFailed record.id due, env, config.world⟩ changed .resting)
    (hchanged : changed = marked env record (record.failed (due.map (DeliveryLaws.time ε))
      (DeliveryLaws.time ε env.now))) :
    (deliveries σ ε webhooks loop).Inv (config.act loop (some record.id)
        (.markFailed record.id due) env) ∧
    (deliveries σ ε webhooks loop).Evolves config (config.act loop (some record.id)
        (.markFailed record.id due) env) ∧
    Resting webhooks loop rest (config.act loop (some record.id)
        (.markFailed record.id due) env) := by
  have hafter := answer_mark_failed env record.id due config.world
  have hroom := h.sound.room
  have hfound : found (answer env (.markFailed record.id due) config.world).2.events record.id =
      some changed := by
    rw [hafter, h.stored, hchanged, marked]
    by_cases hworks : env.eventsFault = none <;>
      simp [hworks, WebhookEventRecord.after_failure_eq hroom]
  obtain ⟨hinv, hevolves, hworking⟩ := h.step hdistinct hattempt hfound
    fun id hne => (hafter id).trans (if_neg fun hmarked => hne hmarked.2)
  exact ⟨hinv, hevolves, hworking.done⟩

/-- `deliver_one` posts an event that is ready and records the outcome. -/
theorem deliver_one_safe (hresting : Resting webhooks loop (record :: rest) config)
    (hdistinct : ∀ other ∈ rest, other.id ≠ record.id) :
    (deliveries σ ε webhooks loop).SafeAssuming (loopAt σ ε loop webhooks) loop (some record.id)
      (webhooks.deliverOne record) (fun _ after => Resting webhooks loop rest after) config := by
  refine Discipline.safe_assuming_request_bind fun current hrely hinv env _ _ => ?_
  have hcurrent := hresting.stable hrely hinv
  have hready := hcurrent.waiting record List.mem_cons_self
  obtain ⟨next, reading, hnext, hreading, hdue⟩ := hready.due
  have hworking : Working webhooks loop rest record .resting current :=
    ⟨hcurrent.tracked record.id, fun id _ => hcurrent.tracked id, hready.stored,
      fun other hother => hcurrent.waiting other (List.mem_cons_of_mem _ hother)⟩
  -- The reading that made the event due is in the history, so it comes before the post.
  have hbefore : [.act reading, .act ⟨loop, some record.id, webhooks.postOf record, env,
      current.world⟩].Sublist
        (current.act loop (some record.id) (webhooks.postOf record) env).trace :=
    (List.singleton_sublist.mpr hreading).append (List.Sublist.refl [_])
  obtain ⟨hinv', hevolves, hposted⟩ := hworking.look hdistinct
    (.post hready.pending hnext hbefore hdue rfl) rfl
  refine ⟨hinv', hevolves, ?_⟩
  dsimp only
  split
  · -- The endpoint has taken the event: the delivery is recorded with the time.
    rename_i hsuccess
    refine Discipline.safe_assuming_request_bind fun current hrely hinv env _ _ => ?_
    obtain ⟨hinv', hevolves, htimed⟩ :=
      (hposted.stable hrely hinv).look hdistinct (.clock rfl) rfl
    refine ⟨hinv', hevolves, ?_⟩
    refine Discipline.safe_assuming_request_bind fun current hrely hinv env _ _ => ?_
    obtain ⟨hinv', hevolves, hdone⟩ :=
      (htimed.stable hrely hinv).mark_delivered hdistinct hsuccess
    exact ⟨hinv', hevolves, Discipline.safe_assuming_pure hdone⟩
  · rename_i hfailure
    have hfailed : WebhookService.isSuccess env.endpoint = false := Bool.eq_false_iff.mpr hfailure
    split
    · -- The schedule is at its end, and the clock is not read.
      rename_i hbackoff
      refine Discipline.safe_assuming_request_bind fun current hrely hinv env _ _ => ?_
      obtain ⟨hinv', hevolves, hdone⟩ := (hposted.stable hrely hinv).mark_failed hdistinct
        (.exhausted hfailed hbackoff rfl) rfl
      exact ⟨hinv', hevolves, Discipline.safe_assuming_pure hdone⟩
    · rename_i delay hbackoff
      refine Discipline.safe_assuming_request_bind fun current hrely hinv env _ _ => ?_
      obtain ⟨hinv', hevolves, htimed⟩ :=
        (hposted.stable hrely hinv).look hdistinct (.clock rfl) rfl
      refine ⟨hinv', hevolves, ?_⟩
      refine Discipline.safe_assuming_request_bind fun current hrely hinv env _ _ => ?_
      obtain ⟨hinv', hevolves, hdone⟩ := (htimed.stable hrely hinv).mark_failed hdistinct
        (.retried hfailed hbackoff rfl) rfl
      exact ⟨hinv', hevolves, Discipline.safe_assuming_pure hdone⟩

/-- The loop of `deliver_due` posts its events one by one. -/
theorem deliver_all_safe {records : List WebhookEventRecord}
    (hresting : Resting webhooks loop records config)
    (hdistinct : (records.map WebhookEventRecord.id).Nodup) :
    (deliveries σ ε webhooks loop).SafeAssuming (loopAt σ ε loop webhooks) loop none
      (webhooks.deliverAll records) (fun _ after => Resting webhooks loop [] after) config := by
  induction records generalizing config with
  | nil => exact Discipline.safe_assuming_pure hresting
  | cons record rest ih =>
      obtain ⟨hnotin, hrest⟩ := List.nodup_cons.mp hdistinct
      refine Discipline.safe_assuming_bind (Discipline.safe_assuming_within ?_)
      refine (deliver_one_safe hresting fun other hother heq => ?_).mono fun _ after hafter =>
        ih hafter hrest
      exact hnotin (heq ▸ List.mem_map_of_mem hother)

/-- A request outside all spans that does not write to the store of events. -/
theorem Resting.look (h : Resting webhooks loop rest config)
    (hinv : (deliveries σ ε webhooks loop).Inv config) (request : Request) {env : Env}
    (hpermits : (serverRules σ ε).permits env none request config.world)
    (hwrites : request.writesEvents = false) (hdelivers : request.delivers = false) :
    (deliveries σ ε webhooks loop).Inv (config.act loop none request env) ∧
    (deliveries σ ε webhooks loop).Evolves config (config.act loop none request env) ∧
    Resting webhooks loop rest (config.act loop none request env) := by
  have hgrows : config.trace <+: (config.act loop none request env).trace :=
    List.prefix_append _ _
  have hevents : (config.act loop none request env).world.events = config.world.events :=
    answer_events hwrites
  obtain ⟨hinv', hevolves⟩ := step_of_not_delivers hdelivers (.inr rfl) hinv hpermits
  refine ⟨hinv', hevolves, fun id => ?_, fun other hother => ?_⟩
  · exact (h.tracked id).frame hgrows (by rw [hevents])
      (course_act_other config request env (.inr (by simp)))
  · exact (h.waiting other hother).frame hgrows (by rw [hevents])

/-- One pass. -/
theorem deliver_due_safe (hresting : Resting webhooks loop [] config) :
    (deliveries σ ε webhooks loop).SafeAssuming (loopAt σ ε loop webhooks) loop none
      webhooks.deliverDue (fun _ after => Resting webhooks loop [] after) config := by
  refine Discipline.safe_assuming_request_bind fun current hrely hinv env hpermits _ => ?_
  obtain ⟨hinv', hevolves, hlooked⟩ :=
    (hresting.stable hrely hinv).look hinv .utcNow hpermits rfl rfl
  refine ⟨hinv', hevolves, ?_⟩
  have hreading := current.act_mem loop none .utcNow env
  refine Discipline.safe_assuming_request_bind fun later hrely hinv env' hpermits _ => ?_
  obtain ⟨hinv', hevolves, hfetched⟩ :=
    (hlooked.stable hrely hinv).look hinv (.fetchDue env.now fetchBatchSize) hpermits rfl rfl
  refine ⟨hinv', hevolves, ?_⟩
  cases hanswer : ((server σ ε).answer env' (.fetchDue ((server σ ε).answer env .utcNow
    current.world).1 fetchBatchSize) later.world).1 with
  | error error => exact Discipline.safe_assuming_pure hfetched
  | ok due =>
      obtain ⟨hdistinct, hdue⟩ := answer_fetch_due hanswer
      have hevents : (later.act loop none (.fetchDue env.now fetchBatchSize) env').world.events =
          later.world.events := answer_events rfl
      have hgrows : later.trace <+:
          (later.act loop none (.fetchDue env.now fetchBatchSize) env').trace :=
        List.prefix_append _ _
      have hready : Resting webhooks loop due
          (later.act loop none (.fetchDue env.now fetchBatchSize) env') := by
        refine ⟨hfetched.tracked, fun record hrecord => ?_⟩
        obtain ⟨hstored, hpending, next, hnext, hle⟩ := hdue record hrecord
        exact ⟨(congrArg (found · record.id) hevents).trans hstored, hpending, next, _, hnext,
          hgrows.subset (hrely.grows.subset hreading), hle⟩
      exact Discipline.safe_assuming_bind ((deliver_all_safe hready hdistinct).mono
        fun _ after hafter => Discipline.safe_assuming_pure hafter)

/-- Pass after pass. -/
theorem run_delivery_loop_safe (passes : Nat) (hresting : Resting webhooks loop [] config) :
    (deliveries σ ε webhooks loop).SafeAssuming (loopAt σ ε loop webhooks) loop none
      (webhooks.runDeliveryLoop passes) (fun _ _ => True) config := by
  induction passes generalizing config with
  | zero => exact Discipline.safe_assuming_pure trivial
  | succ passes ih =>
      exact Discipline.safe_assuming_bind ((deliver_due_safe hresting).mono fun _ _ => ih)

/-- In every run over an empty event store with one loop at most, every event is tracked. -/
theorem deliveries_tracked {world : World σ ε} {state : State (server σ ε)}
    (hreach : Reachable (serverRules σ ε) world state)
    (hempty : ∀ id, found world.events id = none)
    (hloop : (loopAt σ ε loop webhooks).Holds state.config.trace) (id : Uuid) :
    ∃ phase, Tracked webhooks loop state.config id phase := by
  refine (deliveries σ ε webhooks loop).inv_assuming ?_ (fun id => ?_) hreach hloop id
  · intro call thread config hpass hinv hown hholds
    have hgrows : config.trace <+: (config.start thread call).trace := List.prefix_append _ _
    have htracked : ∀ id phase, Tracked webhooks loop config id phase →
        Tracked webhooks loop (config.start thread call) id phase :=
      fun id phase h => h.frame hgrows rfl (course_start config call)
    refine ⟨fun id => (hinv id).imp (htracked id), ⟨hgrows, fun _ _ _ hfound => hfound⟩, ?_⟩
    have hservice := hholds thread call config.world
      (List.mem_append_right _ (List.mem_singleton.mpr rfl))
    by_cases hthread : thread = loop
    · -- The loop starts with an empty history of its own, so no event is in the middle of a round.
      subst hthread
      rw [if_pos rfl] at hservice
      cases call with
      | service | enqueueEvent => cases hservice
      | deliveryLoop own passes =>
          cases hservice
          refine run_delivery_loop_safe passes ⟨fun id => ?_, by simp⟩
          obtain ⟨phase, h⟩ := hinv id
          have hnil : course thread id config = [] := by rw [course, hown]; rfl
          cases h.of_nil hnil
          exact htracked id _ h
    · rw [if_neg hthread] at hservice
      refine Discipline.safe_assuming_of_makes (fun request => request.delivers = false) ?_
        (other_makes hpass hservice)
      intro request hdelivers current hinv env span hpermits
      exact step_of_not_delivers hdelivers (.inl hthread) hinv hpermits
  · exact ⟨.resting, .absent (hempty id) rfl⟩

/-- What holds of the records of a server, and of those its loop has fetched. -/
structure RecordsKept (state : State (server σ ε)) : Prop where
  sound : ∀ id record, found state.config.world.events id = some record → record.Sound
  /-- A record tells of the event that was enqueued. -/
  same : ∀ id record, found state.config.world.events id = some record →
    ∃ act start, .act act ∈ state.config.trace ∧ Stores act start ∧ start.SameEvent record
  /-- The attempts were counted without overflow in every delivery. -/
  counted : ∀ act now limit records, .act act ∈ state.config.trace →
    act.Got (.fetchDue now limit) (.ok records) → ∀ record ∈ records,
      (record.attemptsMade.toNat : Int) = record.attempts.toInt + 1

/-- The records of a run over an empty event store with one loop at most. -/
theorem records_kept {world : World σ ε} {state : State (server σ ε)}
    (hreach : Reachable (serverRules σ ε) world state)
    (hempty : ∀ id, found world.events id = none) (hone : OneLoop state) : RecordsKept state := by
  obtain ⟨loop, webhooks, hloop⟩ := loop_at_of_one hreach hone
  have hfollowed : ∀ {seen : State (server σ ε)} {id : Uuid} {record : WebhookEventRecord},
      Reachable (serverRules σ ε) world seen → (loopAt σ ε loop webhooks).Holds seen.config.trace →
      found seen.config.world.events id = some record → record.Sound ∧
        ∃ act start, .act act ∈ seen.config.trace ∧ Stores act start ∧ start.SameEvent record := by
    intro seen id record hreach hloop hfound
    obtain ⟨phase, htracked⟩ := deliveries_tracked hreach hempty hloop id
    cases htracked with
    | absent hnone => cases hnone.symm.trans hfound
    | stored hact hstores _ hfollows hstored =>
        cases hstored.symm.trans hfound
        exact ⟨(hfollows.sound hstores.sound).1, _, _, hact, hstores, hfollows.same⟩
  refine ⟨fun id record hfound => (hfollowed hreach hloop hfound).1,
    fun id record hfound => (hfollowed hreach hloop hfound).2, ?_⟩
  intro act now limit records hact hgot record hrecord
  -- The record was fetched in an earlier state, and it is there that it was sound.
  obtain ⟨before, after, htrace⟩ := List.append_of_mem hact
  obtain ⟨seen, next, hseen, -, hconfig, -⟩ := hreach.at_event htrace
  have hstored := ((answer_fetch_due hgot.2).2 record hrecord).1
  have hbefore : (loopAt σ ε loop webhooks).Holds seen.config.trace := by
    rw [hconfig]
    exact (loopAt σ ε loop webhooks).shorter (htrace ▸ List.prefix_append _ _) hloop
  have hfound : found seen.config.world.events record.id = some record := by
    rw [hconfig]
    exact hstored
  have hsound := (hfollowed hseen hbefore hfound).1
  exact WebhookEventRecord.attempts_made_eq hsound.room hsound.bounds.1

end Discipline

section Backends

variable [Platform]

/-- On either backend, in every run over an empty event store with one delivery loop at most,
whatever the endpoint answers and the stores fail: the records are sound, tell of the events that
were enqueued, and are counted without overflow. -/
theorem webhook_records_kept (backend : Backend) {payments : backend.Payments}
    {state : State backend.server}
    (hreach : Reachable (serverRules backend.Payments backend.Events)
      ⟨payments, backend.noEvents⟩ state) (hone : OneLoop state) : RecordsKept state :=
  records_kept hreach (fun id => backend.found_empty id) hone

end Backends

section Run

attribute [local instance] Plain.platform

open Plain

/-- A moment at which the endpoint answers with an error. -/
def endpointDown (now : DateTime) (uuid : Uuid) : Env :=
  { env now uuid with endpoint := .ok 500 }

/-- The stores with one payment. -/
def oneInvoice : World Backend.postgres.Payments Backend.postgres.Events :=
  holding [pending 7 "10" "order-1" 5000]

/-- An event of that payment is enqueued, and a pass of the loop fails to deliver it. -/
def failedDelivery : List (Choice Backend.postgres.server) :=
  [.start (.enqueueEvent (.paymentDetected (pending 7 "10" "order-1" 5000))),
    .act 0 (env 6000 8), .act 0 (env 6000 9), .act 0 (env 6000 9), .act 0 (env 6000 9),
    .start (.deliveryLoop ⟨"https://shop.example/hook", "secret"⟩ 2),
    .act 1 (env 7000 10), .act 1 (env 7000 10), .act 1 (endpointDown 7000 10),
    .act 1 (env 8000 10), .act 1 (env 8000 10)]

/-- The failed delivery is counted. -/
theorem webhook_records_kept_failed : ∃ state : State Backend.postgres.server,
    (found state.config.world.events 9).map WebhookEventRecord.attempts = some 1 ∧
    RecordsKept state := by
  obtain ⟨state, hreach, htest⟩ := exists_reachable
    (serverRules Backend.postgres.Payments Backend.postgres.Events) failedDelivery
    ⟨oneInvoice.payments, EventTable.new⟩ (fun state =>
      (found state.config.world.events 9).map WebhookEventRecord.attempts == some 1 &&
        decide (OneLoop state)) (by decide)
  simp only [Bool.and_eq_true, beq_iff_eq, decide_eq_true_eq] at htest
  exact ⟨state, htest.1, webhook_records_kept .postgres hreach htest.2⟩

end Run

end StellarPay
