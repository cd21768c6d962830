import StellarPay.Runs.Sending

/-!
# What the record of a delivery is backed by

Any number of passes and loops may deliver at once, and each records its outcomes over those of the
others. What a record says has happened all the same: an event that is delivered has been posted and
accepted, an event that has failed was refused six times at least, and no attempt is counted that
was not a post that failed.
-/

namespace StellarPay

open Interleaving EventLaws

section Rules

variable (σ ε : Type) [PaymentRepository σ] [WebhookEventRepository ε] [Platform] [EventLaws ε]

/-- Every call of a server, any number of loops and passes included. No event comes to the end of
its counter of attempts. -/
def sharedRules : Rules (server σ ε) :=
  ⟨fun _ => True, fun env _ request world => FreshEvent env request world ∧
    CanCount request world⟩

instance : DecidablePred (sharedRules σ ε).admits :=
  fun _ => inferInstanceAs (Decidable True)

instance (env : Env) (span : Option Uuid) (request : Request) (world : World σ ε) :
    Decidable ((sharedRules σ ε).permits env span request world) :=
  inferInstanceAs (Decidable (FreshEvent env request world ∧ CanCount request world))

end Rules

/-- The schedule is at its end after the sixth failure. -/
theorem attempts_of_exhausted {record : WebhookEventRecord} (hnonneg : 0 ≤ record.attempts.toInt)
    (h : nextBackoff record.attemptsMade = none) : 5 ≤ record.attempts.toInt := by
  by_contra hless
  have hcases : record.attempts.toInt = 0 ∨ record.attempts.toInt = 1 ∨
      record.attempts.toInt = 2 ∨ record.attempts.toInt = 3 ∨ record.attempts.toInt = 4 := by
    omega
  have hmem : record.attempts ∈ [0, 1, 2, 3, 4] := by
    rw [← Int32.ofInt_toInt record.attempts]
    rcases hcases with hcount | hcount | hcount | hcount | hcount <;> rw [hcount] <;> decide
  -- The schedule has an entry for each of these counts.
  have hall : [0, 1, 2, 3, 4].all
      fun attempts : Int32 => (nextBackoff (attempts + 1).toUInt32).isSome := by decide
  have hsome := List.all_eq_true.mp hall record.attempts hmem
  rw [show nextBackoff (record.attempts + 1).toUInt32 = none from h] at hsome
  cases hsome

section Counting

variable {σ ε : Type} [PaymentRepository σ] [WebhookEventRepository ε] [Platform]

/-- A post of the event that failed. -/
def postFailed (id : Uuid) : Event (server σ ε) → Bool
  | .act act => act.span == some id && act.request.isPost &&
      !WebhookService.isSuccess act.env.endpoint
  | .start _ _ _ => false

/-- The record of a failure of the event. -/
def failureMarked (id : Uuid) : Event (server σ ε) → Bool
  | .act act =>
      match act.request with
      | .markFailed target _ => target == id
      | _ => false
  | .start _ _ _ => false

/-- The post at hand failed, and this is still to be recorded. -/
def SendStage.owes (id : Uuid) (stage : SendStage σ ε) : Bool :=
  stage.current.any fun hand =>
    hand.2.id == id && !WebhookService.isSuccess hand.1.env.endpoint

variable {webhooks : WebhookService} {acts : List (Act (server σ ε))} {act : Act (server σ ε)}
  {stage next last : SendStage σ ε} {record : WebhookEventRecord}

/-- A request that records a failure settles what the post at hand owed, and only a post that fails
owes something. -/
theorem Advance.balance (h : Advance webhooks stage act next) (id : Uuid) :
    (failureMarked id (.act act)).toNat + (next.owes id).toNat ≤
      (stage.owes id).toNat + (postFailed id (.act act)).toNat := by
  cases h with
  | looked hrequest | timed hrequest =>
      simp [failureMarked, hrequest, SendStage.owes, SendStage.current]
  | fetched hgot | unfetched hgot =>
      simp [failureMarked, hgot.1, SendStage.owes, SendStage.current]
  | posted hposts =>
      obtain ⟨hspan, hrequest⟩ := hposts
      simp [failureMarked, postFailed, hspan, hrequest, WebhookService.postOf, Request.isPost,
        SendStage.owes, SendStage.current]
  | delivered hsuccess hrequest =>
      simp [failureMarked, hrequest, SendStage.owes, SendStage.current]
  | retried hfailure _ hrequest | exhausted hfailure _ hrequest =>
      simp [failureMarked, hrequest, hfailure, SendStage.owes, SendStage.current]

/-- A delivery records no more failures of an event than its posts had. -/
theorem marked_le_failed (h : Trail (Advance webhooks) (.sending []) acts last) (id : Uuid) :
    (acts.map Event.act).countP (failureMarked id) + (last.owes id).toNat ≤
      (acts.map Event.act).countP (postFailed id) := by
  induction h with
  | nil => exact Nat.le_refl 0
  | @snoc acts act stage next h hadvance ih =>
      have hbalance := hadvance.balance id
      have hsingle : ∀ test : Event (server σ ε) → Bool,
          ([Event.act act]).countP test = (test (.act act)).toNat := by
        intro test
        cases htest : test (.act act) <;> simp [htest]
      rw [List.map_append, List.countP_append, List.countP_append, List.map_singleton, hsingle,
        hsingle]
      omega

/-- The event whose outcome is to be recorded is one of those that have none yet. -/
theorem SendStage.current_unmarked {post : Act (server σ ε)}
    (h : stage.current = some (post, record)) : record ∈ stage.unmarked := by
  cases stage with
  | posted | timed =>
      cases h
      exact List.mem_cons_self
  | sending | looked => cases h

/-- A delivery is recorded of a post that was accepted. -/
theorem Advance.of_delivered (h : Advance webhooks stage act next) {id : Uuid} {time : DateTime}
    (hrequest : act.request = .markDelivered id time) {post : Act (server σ ε)}
    (hcurrent : stage.current = some (post, record)) :
    WebhookService.isSuccess post.env.endpoint = true := by
  cases h with
  | delivered hsuccess =>
      cases hcurrent
      exact hsuccess
  | fetched hgot | unfetched hgot => cases hgot.1.symm.trans hrequest
  | posted hposts => cases hposts.2.symm.trans hrequest
  | looked hother | timed hother | retried _ _ hother | exhausted _ _ hother =>
      cases hother.symm.trans hrequest

/-- A failure is recorded as the last one when the schedule is at its end. -/
theorem Advance.of_exhausted (h : Advance webhooks stage act next) {id : Uuid}
    (hrequest : act.request = .markFailed id none) {post : Act (server σ ε)}
    (hcurrent : stage.current = some (post, record)) :
    nextBackoff record.attemptsMade = none := by
  cases h with
  | exhausted _ hbackoff =>
      cases hcurrent
      exact hbackoff
  | fetched hgot | unfetched hgot => cases hgot.1.symm.trans hrequest
  | posted hposts => cases hposts.2.symm.trans hrequest
  | looked hother | timed hother | delivered _ hother | retried _ _ hother =>
      cases hother.symm.trans hrequest

/-- The events of a delivery were fetched by it. -/
theorem fetched_of_trail (h : Trail (Advance webhooks) (.sending []) acts last)
    (hrecord : record ∈ last.unmarked) : ∃ fetch ∈ acts, ∃ now batch,
      fetch.Got (.fetchDue now fetchBatchSize) (.ok batch) ∧ record ∈ batch := by
  induction h with
  | nil => cases hrecord
  | @snoc acts act stage next h hadvance ih =>
      have hmore : record ∈ stage.unmarked → ∃ fetch ∈ acts ++ [act], ∃ now batch,
          fetch.Got (.fetchDue now fetchBatchSize) (.ok batch) ∧ record ∈ batch := by
        intro hbefore
        obtain ⟨fetch, hfetch, hfetched⟩ := ih hbefore
        exact ⟨fetch, List.mem_append_left _ hfetch, hfetched⟩
      cases hadvance with
      | fetched hgot =>
          exact ⟨act, List.mem_append_right _ (List.mem_singleton.mpr rfl), _, _, hgot, hrecord⟩
      | looked | unfetched => cases hrecord
      | posted | timed => exact hmore hrecord
      | delivered | retried | exhausted => exact hmore (List.mem_cons_of_mem _ hrecord)

end Counting

section Worlds

variable {σ ε : Type} [PaymentRepository σ] [WebhookEventRepository ε] [EventLaws ε]

/-- From one world to another every event stays what it is, and no attempt of it is forgotten. -/
def AttemptsGrow (before after : World σ ε) : Prop :=
  ∀ id record, found before.events id = some record →
    ∃ later, found after.events id = some later ∧ record.SameEvent later ∧
      record.attempts.toInt ≤ later.attempts.toInt

omit [PaymentRepository σ] in
theorem AttemptsGrow.refl (world : World σ ε) : AttemptsGrow world world :=
  fun _ record hfound => ⟨record, hfound, .refl record, Int.le_refl _⟩

omit [PaymentRepository σ] in
theorem AttemptsGrow.trans {first second third : World σ ε} (h : AttemptsGrow first second)
    (h' : AttemptsGrow second third) : AttemptsGrow first third := by
  intro id record hfound
  obtain ⟨later, hlater, hsame, hle⟩ := h id record hfound
  obtain ⟨last, hlast, hsame', hle'⟩ := h' id later hlater
  exact ⟨last, hlast, hsame.trans hsame', Int.le_trans hle hle'⟩

/-- No request that can count forgets an attempt. -/
theorem answer_attempts_grow [DeliveryLaws ε] {env : Env} {request : Request} {world : World σ ε}
    (hfresh : FreshEvent env request world) (hcount : CanCount request world) :
    AttemptsGrow world (answer env request world).2 := by
  intro id record hfound
  rcases answer_found_cases env request world id with
    hsame | ⟨_, _, _, _, rfl, rfl, -, -⟩ | ⟨_, -, -, hafter⟩ | ⟨_, rfl, -, hafter⟩
  · exact ⟨record, hsame.trans hfound, .refl record, Int.le_refl _⟩
  · cases hfound.symm.trans hfresh
  · rw [hfound] at hafter
    exact ⟨_, hafter, ⟨rfl, rfl, rfl, rfl⟩, Int.le_refl _⟩
  · rw [hfound] at hafter
    refine ⟨_, hafter, ⟨rfl, rfl, rfl, rfl⟩, ?_⟩
    have hsucc := to_int_succ (hcount record hfound)
    show record.attempts.toInt ≤ (record.attempts + 1).toInt
    omega

end Worlds

section Runs

variable {σ ε : Type} [PaymentRepository σ] [WebhookEventRepository ε] [Platform] [EventLaws ε]
  [DeliveryLaws ε] {world : World σ ε} {state : State (server σ ε)}

/-- What a record owes to the requests that were made. -/
structure Recorded (history : List (Event (server σ ε))) (id : Uuid)
    (record : WebhookEventRecord) : Prop where
  nonneg : 0 ≤ record.attempts.toInt
  attempts : record.attempts.toInt ≤ history.countP (failureMarked id)
  delivered : record.status = .delivered →
    ∃ mark time, .act mark ∈ history ∧ mark.request = .markDelivered id time
  failed : record.status = .failed → ∃ mark, .act mark ∈ history ∧
    mark.request = .markFailed id none ∧ mark.env.eventsFault = none

omit [DeliveryLaws ε] [EventLaws ε] in
/-- One more event that leaves the record alone. -/
theorem Recorded.snoc {history : List (Event (server σ ε))} {id : Uuid}
    {record : WebhookEventRecord} (h : Recorded history id record)
    (event : Event (server σ ε)) : Recorded (history ++ [event]) id record := by
  have hcount : history.countP (failureMarked id) ≤
      (history ++ [event]).countP (failureMarked id) := by simp
  refine ⟨h.nonneg, h.attempts.trans (by exact_mod_cast hcount), fun hdelivered => ?_,
    fun hfailed => ?_⟩
  · obtain ⟨mark, time, hmark, hrequest⟩ := h.delivered hdelivered
    exact ⟨mark, time, List.mem_append_left _ hmark, hrequest⟩
  · obtain ⟨mark, hmark, hfacts⟩ := h.failed hfailed
    exact ⟨mark, List.mem_append_left _ hmark, hfacts⟩

/-- In every run over an empty event store the records owe what they say to requests. -/
theorem recorded_of_reachable (hreach : Reachable (sharedRules σ ε) world state)
    (hempty : ∀ id, found world.events id = none) :
    ∀ id record, found state.config.world.events id = some record →
      Recorded state.config.trace id record := by
  induction hreach with
  | init =>
      intro id record hfound
      cases (hempty id).symm.trans hfound
  | @step state _ hbefore hstep ih =>
      cases hstep with
      | start call hadmits => exact fun id record hfound => (ih id record hfound).snoc _
      | act thread call span request next env hthread hpermits =>
          intro id record hfound
          have hlast : .act ⟨thread, span, request, env, state.config.world⟩ ∈
              (state.config.act thread span request env).trace := state.config.act_mem ..
          rcases answer_found_cases env request state.config.world id with
            hsame | ⟨_, _, _, _, -, -, -, hnew⟩ | ⟨time, hrequest, -, hafter⟩ |
              ⟨retry, hrequest, hworks, hafter⟩
          · exact (ih id record (hsame.symm.trans hfound)).snoc _
          · cases hnew.symm.trans hfound
            refine ⟨Int.le_refl 0, Int.natCast_nonneg _, fun hdelivered => ?_, fun hfailed => ?_⟩
            · cases hdelivered
            · cases hfailed
          · obtain ⟨old, hold, rfl⟩ := Option.map_eq_some_iff.mp (hafter.symm.trans hfound)
            have holds := (ih id old hold).snoc
              (.act ⟨thread, span, request, env, state.config.world⟩)
            refine ⟨holds.nonneg, holds.attempts, fun _ => ?_, fun hfailed => ?_⟩
            · exact ⟨_, time, hlast, hrequest⟩
            · cases hfailed
          · obtain ⟨old, hold, rfl⟩ := Option.map_eq_some_iff.mp (hafter.symm.trans hfound)
            have holds := ih id old hold
            subst hrequest
            have hsucc := to_int_succ (hpermits.2 old hold)
            have hcount : (state.config.act thread span (.markFailed id retry) env).trace.countP
                (failureMarked id) = state.config.trace.countP (failureMarked id) + 1 := by
              simp [failureMarked]
            refine ⟨?_, ?_, fun hdelivered => ?_, fun hfailed => ?_⟩
            · show 0 ≤ (old.attempts + 1).toInt
              have hnonneg := holds.nonneg
              omega
            · show (old.attempts + 1).toInt ≤ _
              have hattempts := holds.attempts
              rw [hcount]
              omega
            · exact absurd hdelivered (old.failed_status_ne _ _)
            · cases retry with
              | none => exact ⟨_, hlast, rfl, hworks⟩
              | some instant => cases hfailed

omit [DeliveryLaws ε] in
/-- What is asked for on behalf of a delivery is asked for by one. -/
theorem delivery_of_act (hreach : Reachable (sharedRules σ ε) world state) {act : Act (server σ ε)}
    (hact : .act act ∈ state.config.trace) (hdelivers : act.request.delivers = true) :
    ∃ webhooks call before acts stage, call.sender = some webhooks ∧
      state.config.own act.thread = .start act.thread call before :: acts.map .act ∧
      act ∈ acts ∧ Trail (Advance webhooks) (.sending []) acts stage := by
  have hmakes : ∀ call : ServerCall, (sharedRules σ ε).admits call →
      call.body.Makes fun request => request.delivers = true → call.sender ≠ none := by
    intro call _
    cases hsender : call.sender with
    | some webhooks => exact .of_forall fun request _ => by simp
    | none =>
        refine (other_makes ?_ ?_).mono fun request hnot hmade => ?_
        · cases call with
          | service call => cases call <;> first | rfl | cases hsender
          | _ => rfl
        · cases call with
          | deliveryLoop => cases hsender
          | _ => rfl
        · rw [hnot] at hmade
          cases hmade
  obtain ⟨t, ht, -, hallowed, -⟩ := hreach.acts_make _ hmakes act hact
  obtain ⟨before, acts, hown⟩ := hreach.own_eq ht
  obtain ⟨webhooks, hsender⟩ := Option.ne_none_iff_exists'.mp (hallowed hdelivers)
  obtain ⟨stage, htrail⟩ := sends_on hreach act.thread _ _ _ _ _ hown hsender
  have hmem : .act act ∈ state.config.own act.thread := Config.mem_own.mpr ⟨hact, rfl⟩
  rw [hown] at hmem
  refine ⟨webhooks, t.call, before, acts, stage, hsender, hown, ?_, htrail⟩
  simpa using hmem

omit [DeliveryLaws ε] in
/-- In every run no more failures of an event are recorded than its posts had. -/
theorem marks_le_posts (hreach : Reachable (sharedRules σ ε) world state) (id : Uuid) :
    state.config.trace.countP (failureMarked id) ≤
      state.config.trace.countP (postFailed id) := by
  refine count_le_of_own _ hreach.known fun thread => ?_
  by_cases hnone : (state.config.own thread).countP (failureMarked id) = 0
  · omega
  · obtain ⟨event, hevent, hmarked⟩ := List.countP_pos_iff.mp (Nat.pos_of_ne_zero hnone)
    obtain ⟨hmem, rfl⟩ := Config.mem_own.mp hevent
    cases event with
    | start => cases hmarked
    | act act =>
        have hdelivers : act.request.delivers = true := by
          revert hmarked
          rw [failureMarked]
          cases act.request <;> simp [Request.delivers]
        obtain ⟨webhooks, call, before, acts, stage, -, hown, -, htrail⟩ :=
          delivery_of_act hreach hmem hdelivers
        have hbalance := marked_le_failed htrail id
        change (state.config.own act.thread).countP _ ≤ (state.config.own act.thread).countP _
        rw [hown, List.countP_cons_of_neg (by simp [failureMarked]),
          List.countP_cons_of_neg (by simp [postFailed])]
        omega

/-- From every world of a run to every later one the attempts grow. -/
theorem event_attempts_grow (hreach : Reachable (sharedRules σ ε) world state) :
    ∀ event ∈ state.config.trace, AttemptsGrow event.before event.after := by
  intro event hevent
  cases event with
  | start => exact .refl _
  | act act =>
      exact answer_attempts_grow (hreach.permitted hevent).1 (hreach.permitted hevent).2

/-- What was at hand when an outcome was recorded: a post of the event as it had been fetched. -/
theorem at_outcome (hreach : Reachable (sharedRules σ ε) world state)
    (hempty : ∀ id, found world.events id = none) {mark : Act (server σ ε)}
    (hmark : .act mark ∈ state.config.trace) {id : Uuid}
    (houtcome : mark.request.outcomeOf = some id) :
    ∃ webhooks stage next post fetched, Advance webhooks stage mark next ∧
      stage.current = some (post, fetched) ∧ fetched.id = id ∧ .act post ∈ state.config.trace ∧
      Posts webhooks post fetched ∧ 0 ≤ fetched.attempts.toInt ∧
      (∃ met, found mark.before.events id = some met ∧
        fetched.attempts.toInt ≤ met.attempts.toInt) ∧
      ∃ last, found state.config.world.events id = some last ∧ fetched.SameEvent last := by
  obtain ⟨webhooks, call, before, acts, stage, -, hown, hmem, htrail⟩ :=
    delivery_of_act hreach hmark (delivers_of_outcome houtcome)
  obtain ⟨earlier, later, rfl⟩ := List.append_of_mem hmem
  obtain ⟨stage, next, htrail, hadvance, -⟩ := htrail.at_act rfl
  obtain ⟨post, fetched, hcurrent, rfl⟩ := hadvance.of_outcome houtcome
  obtain ⟨hpost, hposts⟩ := current_of_trail htrail rfl hcurrent
  obtain ⟨fetch, hfetch, now, batch, hgot, hbatch⟩ :=
    fetched_of_trail htrail (stage.current_unmarked hcurrent)
  have hown' : ∀ act ∈ earlier, .act act ∈ state.config.trace := by
    intro act hact
    have hmem : .act act ∈ state.config.own mark.thread := by
      rw [hown]
      simp [hact]
    exact Config.mem_of_own hmem
  -- The event was in the store when it was fetched, and it has been from then on.
  have hstored := ((answer_fetch_due hgot.2).2 fetched hbatch).1
  obtain ⟨prior, rest, htrace⟩ := List.append_of_mem (hown' fetch hfetch)
  obtain ⟨seen, _, hseen, -, hconfig, -⟩ := hreach.at_event htrace
  have hnonneg : 0 ≤ fetched.attempts.toInt := by
    refine (recorded_of_reachable hseen hempty fetched.id fetched ?_).nonneg
    rw [hconfig]
    exact hstored
  have hgrow := event_attempts_grow hreach
  obtain ⟨after, hafter, hsame, hle⟩ := hgrow _ (hown' fetch hfetch) _ _ hstored
  have hmet : AttemptsGrow fetch.after mark.before := by
    rw [List.map_append, List.map_cons, ← List.cons_append] at hown
    exact hreach.own_relates AttemptsGrow .refl .trans hgrow hown
      (List.mem_cons_of_mem _ (List.mem_map_of_mem hfetch)) List.mem_cons_self
  have hlast : AttemptsGrow fetch.after state.config.world :=
    hreach.linked.relates_last AttemptsGrow .refl .trans hgrow (hown' fetch hfetch)
  obtain ⟨met, hfound, -, hle'⟩ := hmet _ _ hafter
  obtain ⟨last, hfound', hsame', -⟩ := hlast _ _ hafter
  exact ⟨webhooks, stage, next, post, fetched, hadvance, hcurrent, rfl, hown' post hpost, hposts,
    hnonneg, ⟨met, hfound, Int.le_trans hle hle'⟩, last, hfound', hsame.trans hsame'⟩

/-- What is true of an event whose record says so. -/
structure Backed (history : List (Event (server σ ε))) (record : WebhookEventRecord) : Prop where
  /-- A post of the event was answered with a 2xx. -/
  delivered : record.status = .delivered → ∃ webhooks post, .act post ∈ history ∧
    Posts webhooks post record ∧ WebhookService.isSuccess post.env.endpoint = true
  /-- Every attempt that is counted was a post of the event that failed. -/
  attempts : record.attempts.toInt ≤ history.countP (postFailed record.id)
  failed : record.status = .failed → 6 ≤ record.attempts.toInt

/-- In every run over an empty event store, whoever delivers, the records are backed. -/
theorem record_backed (hreach : Reachable (sharedRules σ ε) world state)
    (hempty : ∀ id, found world.events id = none) {id : Uuid} {record : WebhookEventRecord}
    (hfound : found state.config.world.events id = some record) :
    Backed state.config.trace record := by
  obtain rfl := DeliveryLaws.found_id hfound
  have hrecorded := recorded_of_reachable hreach hempty _ _ hfound
  refine ⟨fun hdelivered => ?_, ?_, fun hfailed => ?_⟩
  · obtain ⟨mark, time, hmark, hrequest⟩ := hrecorded.delivered hdelivered
    have houtcome : mark.request.outcomeOf = some record.id := by
      rw [hrequest]
      rfl
    obtain ⟨webhooks, stage, next, post, fetched, hadvance, hcurrent, hid, hpost, hposts, -, -,
      last, hlast, hsame⟩ := at_outcome hreach hempty hmark houtcome
    cases hlast.symm.trans hfound
    refine ⟨webhooks, post, hpost, ⟨hid ▸ hposts.1, ?_⟩, ?_⟩
    · rw [hposts.2, WebhookService.postOf, WebhookService.postOf, hsame.payload]
    · exact hadvance.of_delivered hrequest hcurrent
  · have hmarks := marks_le_posts hreach record.id
    exact hrecorded.attempts.trans (by exact_mod_cast hmarks)
  · obtain ⟨mark, hmark, hrequest, hworks⟩ := hrecorded.failed hfailed
    have houtcome : mark.request.outcomeOf = some record.id := by
      rw [hrequest]
      rfl
    obtain ⟨webhooks, stage, next, post, fetched, hadvance, hcurrent, hid, -, -, hnonneg,
      ⟨met, hmet, hle⟩, -⟩ := at_outcome hreach hempty hmark houtcome
    have hfive := attempts_of_exhausted hnonneg (hadvance.of_exhausted hrequest hcurrent)
    -- The failure is the sixth one at least, and no attempt is forgotten after it.
    have hroom : met.attempts ≠ Int32.maxValue := by
      have hcount := (hreach.permitted hmark).2
      rw [hrequest] at hcount
      exact hcount met hmet
    have hafter := answer_mark_failed mark.env record.id none mark.before record.id
    rw [if_pos ⟨hworks, rfl⟩, hmet, Option.map_some,
      WebhookEventRecord.after_failure_eq hroom] at hafter
    have hlast : AttemptsGrow mark.after state.config.world :=
      hreach.linked.relates_last AttemptsGrow .refl .trans (event_attempts_grow hreach) hmark
    have hmarked : mark.after = (answer mark.env (.markFailed record.id none) mark.before).2 := by
      rw [← hrequest]
      rfl
    rw [← hmarked] at hafter
    obtain ⟨last, hlast, -, hgrown⟩ := hlast _ _ hafter
    cases hlast.symm.trans hfound
    have hsix : (met.attempts + 1).toInt ≤ record.attempts.toInt := hgrown
    rw [to_int_succ hroom] at hsix
    omega

end Runs

section Backends

variable [Platform]

/-- On either backend, in every run over an empty event store, with any number of loops and passes
delivering at once, whatever the endpoint answers and the stores fail, as long as the attempts of no
event come to the end of an `i32`: the records are backed. -/
theorem records_backed (backend : Backend) {payments : backend.Payments}
    {state : State backend.server}
    (hreach : Reachable (sharedRules backend.Payments backend.Events)
      ⟨payments, backend.noEvents⟩ state) :
    ∀ id record, found state.config.world.events id = some record →
      Backed state.config.trace record :=
  fun _ _ hfound => record_backed hreach (fun id => backend.found_empty id) hfound

end Backends

section Run

attribute [local instance] Plain.platform

open Plain

/-- An event is enqueued, and two passes fetch it. The post of the first one is refused, that of the
second one accepted, and both outcomes are recorded. -/
def sharedDelivery : List (Choice Backend.postgres.server) :=
  [.start (.enqueueEvent (.paymentDetected (pending 7 "10" "order-1" 5000))),
    .act 0 (env 6000 8), .act 0 (env 6000 9), .act 0 (env 6000 9), .act 0 (env 6000 9),
    .start (.service (.deliverDue ⟨"https://shop.example/hook", "secret"⟩)),
    .start (.deliveryLoop ⟨"https://shop.example/hook", "secret"⟩ 1),
    .act 1 (env 7000 10), .act 1 (env 7000 10), .act 2 (env 7000 10), .act 2 (env 7000 10),
    .act 1 (endpointDown 7000 10), .act 2 (env 8000 10), .act 1 (env 8000 10),
    .act 1 (env 8000 10), .act 2 (env 9000 10), .act 2 (env 9000 10)]

/-- The event of `sharedDelivery` is delivered with one attempt that failed. -/
theorem records_backed_shared : ∃ (state : State Backend.postgres.server)
    (record : WebhookEventRecord), found state.config.world.events 9 = some record ∧
    record.status = .delivered ∧ record.attempts = 1 ∧ Backed state.config.trace record := by
  obtain ⟨state, hreach, htest⟩ := exists_reachable
    (sharedRules Backend.postgres.Payments Backend.postgres.Events) sharedDelivery
    ⟨oneInvoice.payments, EventTable.new⟩ (fun state =>
      (found state.config.world.events 9).any fun record =>
        record.status == .delivered && record.attempts == 1) (by decide +kernel)
  obtain ⟨record, hfound, htest⟩ := (Option.any_eq_true _ _).mp htest
  simp only [Bool.and_eq_true, beq_iff_eq] at htest
  exact ⟨state, record, hfound, htest.1, htest.2, records_backed .postgres hreach 9 record hfound⟩

end Run

end StellarPay
