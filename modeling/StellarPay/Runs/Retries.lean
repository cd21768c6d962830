import StellarPay.Runs.Deliveries

/-!
# The retry schedule

While the outcomes of all deliveries are marked, the course of an event is a sequence of rounds: a
post that fails, a look at the clock, and the recording of the failure, with the next attempt as far
away as the schedule says. The first post that succeeds ends it, and so does the sixth failure.
-/

namespace StellarPay

open Interleaving

open EventLaws (found)

/-- Where an element of a filtered list stands in the list. -/
theorem filter_at {α : Type} {test : α → Bool} {list : List α} {position : Nat} {element : α}
    (h : (list.filter test)[position]? = some element) :
    ∃ before after, list = before ++ element :: after ∧
      (before.filter test).length = position ∧ test element = true := by
  induction list generalizing position with
  | nil => simp at h
  | cons head rest ih =>
      cases htest : test head with
      | false =>
          rw [List.filter_cons_of_neg (by simp [htest])] at h
          obtain ⟨before, after, rfl, hlength, helement⟩ := ih h
          exact ⟨head :: before, after, rfl, by simp [htest, hlength], helement⟩
      | true =>
          rw [List.filter_cons_of_pos htest] at h
          cases position with
          | zero =>
              obtain rfl : head = element := by simpa using h
              exact ⟨[], rest, rfl, rfl, htest⟩
          | succ position =>
              obtain ⟨before, after, rfl, hlength, helement⟩ := ih h
              exact ⟨head :: before, after, rfl, by simp [htest, hlength], helement⟩

/-- Every entry of the schedule is a length of time that is in range. -/
theorem to_chrono_of_schedule {position : Nat} {delay : Duration}
    (h : backoffSchedule[position]? = some delay) : toChronoDuration delay = delay := by
  have hall : ∀ delay ∈ backoffSchedule, toChronoDuration delay = delay := by decide
  exact hall delay (List.mem_of_getElem? h)

section Courses

variable {σ ε : Type} [PaymentRepository σ] [WebhookEventRepository ε] [Platform] [EventLaws ε]
  [DeliveryLaws ε]

/-- The posts among some requests. -/
def postsOf (acts : List (Act (server σ ε))) : List (Act (server σ ε)) :=
  acts.filter fun act => act.request.isPost

/-- The recorded failures among some requests. -/
def failuresOf (acts : List (Act (server σ ε))) : List (Act (server σ ε)) :=
  acts.filter fun act => act.request.isFailure

omit [EventLaws ε] [DeliveryLaws ε] in
/-- One more request, which is a post or not. -/
theorem length_posts_snoc (acts : List (Act (server σ ε))) (act : Act (server σ ε)) :
    (postsOf (acts ++ [act])).length = (postsOf acts).length + act.request.isPost.toNat := by
  cases hpost : act.request.isPost <;> simp [postsOf, hpost]

omit [EventLaws ε] [DeliveryLaws ε] in
/-- One more request, which is a recorded failure or not. -/
theorem length_failures_snoc (acts : List (Act (server σ ε))) (act : Act (server σ ε)) :
    (failuresOf (acts ++ [act])).length =
      (failuresOf acts).length + act.request.isFailure.toNat := by
  cases hfailure : act.request.isFailure <;> simp [failuresOf, hfailure]

omit [EventLaws ε] [DeliveryLaws ε] in
/-- A round of a post, a reading of the clock and a recorded failure has one post. -/
theorem posts_of_round (earlier : List (Act (server σ ε))) {post clock mark : Act (server σ ε)}
    {id : Uuid} {retry : Option DateTime} (hpost : post.request.isPost = true)
    (hclock : clock.request = .utcNow) (hmark : mark.request = .markFailed id retry)
    (more : List (Act (server σ ε))) :
    postsOf (earlier ++ [post, clock, mark] ++ more) =
      postsOf earlier ++ post :: postsOf more := by
  have hreads : clock.request.isPost = false := hclock ▸ rfl
  have hmarks : mark.request.isPost = false := hmark ▸ rfl
  simp [postsOf, hpost, hreads, hmarks]

omit [EventLaws ε] [DeliveryLaws ε] in
/-- Such a round has one failure. -/
theorem failures_of_round (earlier : List (Act (server σ ε))) {post clock mark : Act (server σ ε)}
    {id : Uuid} {retry : Option DateTime} (hpost : post.request.isPost = true)
    (hclock : clock.request = .utcNow) (hmark : mark.request = .markFailed id retry)
    (more : List (Act (server σ ε))) :
    failuresOf (earlier ++ [post, clock, mark] ++ more) =
      failuresOf earlier ++ mark :: failuresOf more := by
  have hsends : post.request.isFailure = false := by
    cases hrequest : post.request <;> simp_all [Request.isPost, Request.isFailure]
  have hreads : clock.request.isFailure = false := hclock ▸ rfl
  have hmarks : mark.request.isFailure = true := hmark ▸ rfl
  simp [failuresOf, hsends, hreads, hmarks]

/-- Every outcome among these was recorded. -/
def AllRecorded (acts : List (Act (server σ ε))) : Prop :=
  ∀ act ∈ acts, act.request.marks = true → act.env.eventsFault = none

variable {webhooks : WebhookService} {history : List (Event (server σ ε))}
  {start record after : WebhookEventRecord} {acts : List (Act (server σ ε))}
  {phase next : Phase σ ε} {act : Act (server σ ε)}

/-- Every request of a course was the next one of a shorter course. -/
theorem Follows.at_act {before rest : List (Act (server σ ε))}
    (h : Follows webhooks history start acts phase record) (hacts : acts = before ++ act :: rest) :
    ∃ earlier prior later next, Follows webhooks history start before earlier prior ∧
      Attempt webhooks history prior earlier act later next ∧
      Follows webhooks history start (before ++ [act]) next later := by
  induction h generalizing rest with
  | nil => simp at hacts
  | @snoc acts last phase next record after h hattempt ih =>
      rcases List.eq_nil_or_concat' rest with rfl | ⟨rest, other, rfl⟩
      · obtain ⟨rfl, hlast⟩ := List.append_inj' hacts rfl
        cases hlast
        exact ⟨_, _, _, _, h, hattempt, h.snoc hattempt⟩
      · rw [← List.cons_append, ← List.append_assoc] at hacts
        exact ih (List.append_inj' hacts rfl).1

/-- The beginning of a course is a course. -/
theorem Follows.of_append {before rest : List (Act (server σ ε))}
    (h : Follows webhooks history start (before ++ rest) phase record) :
    ∃ earlier prior, Follows webhooks history start before earlier prior := by
  cases rest with
  | nil =>
      rw [List.append_nil] at h
      exact ⟨phase, record, h⟩
  | cons act rest =>
      obtain ⟨earlier, prior, _, _, hbefore, -⟩ := h.at_act rfl
      exact ⟨earlier, prior, hbefore⟩

/-- A post is made of a pending event at rest, found due before. -/
theorem Attempt.of_post (h : Attempt webhooks history record phase act after next)
    (hpost : act.request.isPost = true) :
    phase = .resting ∧ record.status = .pending ∧ act.request = webhooks.postOf record ∧
    ∃ due reading, record.nextAttemptAt = some due ∧
      [.act reading, .act act].Sublist history ∧ due ≤ DeliveryLaws.time ε reading.env.now := by
  cases h with
  | post hpending hnext hreading hdue hrequest =>
      exact ⟨rfl, hpending, hrequest, _, _, hnext, hreading, hdue⟩
  | clock hrequest | delivered _ hrequest | retried _ _ hrequest | exhausted _ _ hrequest =>
      rw [hrequest] at hpost
      cases hpost

/-- The posts whose failure is not recorded: the one the loop is at, or the delivery. -/
def Phase.open (record : WebhookEventRecord) : Phase σ ε → Nat
  | .resting => if record.status = .delivered then 1 else 0
  | .posted _ | .timed _ _ => 1

omit [DeliveryLaws ε] [EventLaws ε] in
theorem AllRecorded.of_append {before rest : List (Act (server σ ε))}
    (h : AllRecorded (before ++ rest)) : AllRecorded before :=
  fun other hother => h other (List.mem_append_left _ hother)

omit [DeliveryLaws ε] [EventLaws ε] in
theorem AllRecorded.last (h : AllRecorded (acts ++ [act])) (hmarks : act.request.marks = true) :
    act.env.eventsFault = none :=
  h act (List.mem_append_right _ (List.mem_singleton.mpr rfl)) hmarks

/-- A new event, as it was stored. -/
structure WebhookEventRecord.New (record : WebhookEventRecord) : Prop where
  attempts : record.attempts = 0
  status : record.status = .pending
  sound : record.Sound

/-- The record counts the failures, and every post is one of them but for an open one. -/
theorem Follows.counts (h : Follows webhooks history start acts phase record)
    (hall : AllRecorded acts) (hnew : start.New) :
    ((failuresOf acts).length : Int) = record.attempts.toInt ∧
      (postsOf acts).length = (failuresOf acts).length + phase.open record := by
  induction h with
  | nil => simp [failuresOf, postsOf, Phase.open, hnew.attempts, hnew.status]
  | @snoc acts act phase next record after h hattempt ih =>
      obtain ⟨hfailures, hposts⟩ := ih hall.of_append
      have hcounted := to_int_succ (h.sound hnew.sound).1.room
      rw [length_failures_snoc, length_posts_snoc, hposts]
      cases hattempt with
      | post hstatus _ _ _ hrequest =>
          rw [hrequest]
          simp [WebhookService.postOf, Request.isPost, Request.isFailure, Phase.open, hfailures,
            hstatus]
      | clock hrequest =>
          simp [hrequest, Request.isPost, Request.isFailure, Phase.open, hfailures]
      | delivered _ hrequest =>
          have hworks := hall.last (by rw [hrequest]; rfl)
          simp [hrequest, Request.isPost, Request.isFailure, Phase.open, hfailures, marked, hworks,
            WebhookEventRecord.delivered]
      | retried _ _ hrequest | exhausted _ _ hrequest =>
          have hworks := hall.last (by rw [hrequest]; rfl)
          simp [hrequest, Request.isPost, Request.isFailure, Phase.open, hfailures, marked, hworks,
            WebhookEventRecord.failed, hcounted]

/-- A post that succeeded is the one the loop is at, or the event is delivered. -/
theorem Follows.succeeded (h : Follows webhooks history start acts phase record)
    (hall : AllRecorded acts) (hstart : start.Sound) {post : Act (server σ ε)}
    (hpost : post ∈ postsOf acts) (hsuccess : WebhookService.isSuccess post.env.endpoint = true) :
    phase = .posted post ∨ (∃ clock, phase = .timed post clock) ∨ record.status = .delivered := by
  induction h with
  | nil => simp [postsOf] at hpost
  | @snoc acts act phase next record after h hattempt ih =>
      have hstill := (h.sound hstart).2
      rw [postsOf, List.filter_append, List.mem_append] at hpost
      cases hattempt with
      | post hstatus _ _ _ hrequest =>
          rcases hpost with hpost | hpost
          · -- A delivered event is not posted again.
            rcases ih hall.of_append hpost with hphase | ⟨clock, hphase⟩ | hdelivered
            · cases hphase
            · cases hphase
            · rw [hstatus] at hdelivered
              cases hdelivered
          · obtain rfl := List.mem_singleton.mp (List.mem_filter.mp hpost).1
            exact .inl rfl
      | clock hrequest =>
          rcases hpost with hpost | hpost
          · rcases ih hall.of_append hpost with hphase | ⟨clock, hphase⟩ | hdelivered
            · cases hphase
              exact .inr (.inl ⟨_, rfl⟩)
            · cases hphase
            · exact .inr (.inr hdelivered)
          · simp [hrequest, Request.isPost] at hpost
      | delivered _ hrequest =>
          have hworks := hall.last (by rw [hrequest]; rfl)
          refine .inr (.inr ?_)
          rw [marked, if_pos hworks]
          rfl
      | retried hfailure _ hrequest | exhausted hfailure _ hrequest =>
          rcases hpost with hpost | hpost
          · -- What is recorded as a failure is the post the loop is at, and it did not succeed.
            rcases ih hall.of_append hpost with hphase | ⟨clock, hphase⟩ | hdelivered
            · cases hphase <;> simp [hsuccess] at hfailure
            · cases hphase <;> simp [hsuccess] at hfailure
            · rw [hstill (by simp)] at hdelivered
              cases hdelivered
          · simp [hrequest, Request.isPost] at hpost

/-- An event that is pending and at rest was never posted, or its last post failed: the loop then
read the clock and recorded when the next attempt is due. -/
theorem Follows.last_round (h : Follows webhooks history start acts .resting record)
    (hall : AllRecorded acts) (hpending : record.status = .pending) :
    acts = [] ∨ ∃ earlier post clock mark delay prior,
      acts = earlier ++ [post, clock, mark] ∧
      Follows webhooks history start earlier .resting prior ∧ prior.status = .pending ∧
      post.request.isPost = true ∧ clock.request = .utcNow ∧
      nextBackoff prior.attemptsMade = some delay ∧
      mark.request = .markFailed prior.id (some (clock.env.now + toChronoDuration delay)) ∧
      record.nextAttemptAt =
        some (DeliveryLaws.time ε (clock.env.now + toChronoDuration delay)) := by
  generalize hphase : (.resting : Phase σ ε) = phase at h
  cases h with
  | nil => exact .inl rfl
  | @snoc _ mark _ _ prior _ h hattempt =>
      cases hattempt with
      | post | clock => cases hphase
      | delivered _ hrequest =>
          have hworks := hall.last (by rw [hrequest]; rfl)
          rw [marked, if_pos hworks] at hpending
          cases hpending
      | exhausted _ _ hrequest =>
          have hworks := hall.last (by rw [hrequest]; rfl)
          rw [marked, if_pos hworks] at hpending
          cases hpending
      | @retried post clock _ delay _ hbackoff hrequest =>
          have hworks := hall.last (by rw [hrequest]; rfl)
          rw [marked, if_pos hworks]
          -- The phases lead back from the recording to the clock, and from the clock to the post.
          cases h with
          | snoc h hattempt =>
              cases hattempt with
              | clock hclock =>
                  cases h with
                  | @snoc earlier _ _ _ _ _ h hattempt =>
                      cases hattempt with
                      | post hstatus _ _ _ hpost =>
                          refine .inr ⟨earlier, post, clock, mark, delay, prior, by simp, h,
                            hstatus, ?_, hclock, hbackoff, hrequest, rfl⟩
                          rw [hpost]
                          rfl

/-- The posts of a course all send the event that was enqueued. -/
theorem Follows.posts_same (h : Follows webhooks history start acts phase record)
    {post : Act (server σ ε)} (hpost : post ∈ postsOf acts) :
    post.request = webhooks.postOf start := by
  obtain ⟨hmem, htest⟩ := List.mem_filter.mp hpost
  obtain ⟨before, rest, rfl⟩ := List.append_of_mem hmem
  obtain ⟨earlier, prior, later, next, hbefore, hattempt, -⟩ := h.at_act rfl
  obtain ⟨-, -, hrequest, -⟩ := hattempt.of_post htest
  rw [hrequest, WebhookService.postOf, WebhookService.postOf, hbefore.same.payload]

/-- No course has more than six posts. -/
theorem Follows.posts_le (h : Follows webhooks history start acts phase record)
    (hall : AllRecorded acts) (hnew : start.New) : (postsOf acts).length ≤ 6 := by
  obtain ⟨hfailures, hposts⟩ := h.counts hall hnew
  obtain ⟨hsound, hpending⟩ := h.sound hnew.sound
  by_cases hfailed : record.status = .failed
  · have hattempts := hsound.attempts_failed hfailed
    have hopen : phase.open record = 0 := by
      cases phase with
      | resting => simp [Phase.open, hfailed]
      | posted | timed =>
          rw [hpending (by simp)] at hfailed
          cases hfailed
    omega
  · have hattempts := hsound.attempts_le hfailed
    have hopen : phase.open record ≤ 1 := by
      cases phase with
      | resting =>
          rw [Phase.open]
          split <;> omega
      | posted | timed => exact Nat.le_refl 1
    omega

/-- Before a post all posts have failed. -/
theorem Follows.failed_before {before rest : List (Act (server σ ε))}
    (h : Follows webhooks history start (before ++ act :: rest) phase record)
    (hall : AllRecorded (before ++ act :: rest)) (hnew : start.New)
    (hact : act.request.isPost = true) :
    ∀ post ∈ postsOf before, WebhookService.isSuccess post.env.endpoint = false := by
  obtain ⟨earlier, prior, later, next, hbefore, hattempt, -⟩ := h.at_act rfl
  obtain ⟨rfl, hpending, -⟩ := hattempt.of_post hact
  intro post hpost
  by_contra hsuccess
  rcases hbefore.succeeded hall.of_append hnew.sound hpost (by simpa using hsuccess) with
    hphase | ⟨clock, hphase⟩ | hdelivered
  · cases hphase
  · cases hphase
  · rw [hpending] at hdelivered
    cases hdelivered

/-- No post follows one that succeeded. -/
theorem Follows.none_after_success (h : Follows webhooks history start acts phase record)
    (hall : AllRecorded acts) (hnew : start.New) :
    (postsOf acts).Pairwise fun first _ =>
      WebhookService.isSuccess first.env.endpoint = false := by
  induction h with
  | nil => exact .nil
  | @snoc acts act phase next record after h hattempt ih =>
      rw [postsOf, List.filter_append]
      refine List.pairwise_append.mpr ⟨ih hall.of_append, ?_, fun post hearlier other hother => ?_⟩
      · exact (List.pairwise_singleton _ act).sublist List.filter_sublist
      · obtain ⟨hother, hpost⟩ := List.mem_filter.mp hother
        obtain rfl := List.mem_singleton.mp hother
        exact (h.snoc hattempt).failed_before hall hnew hpost post hearlier

/-- Between two posts the first one is recorded as failed, and the second one is made at the end of
the delay that the schedule says. -/
theorem Follows.spaced (h : Follows webhooks history start acts phase record)
    (hall : AllRecorded acts) (hnew : start.New) {position : Nat} {first second : Act (server σ ε)}
    (hfirst : (postsOf acts)[position]? = some first)
    (hsecond : (postsOf acts)[position + 1]? = some second) :
    ∃ clock mark delay reading, backoffSchedule[position]? = some delay ∧
      (failuresOf acts)[position]? = some mark ∧ clock.request = .utcNow ∧
      mark.request = .markFailed start.id (some (clock.env.now + delay)) ∧
      [first, clock, mark, second].Sublist acts ∧ [.act reading, .act second].Sublist history ∧
      DeliveryLaws.time ε (clock.env.now + delay) ≤ DeliveryLaws.time ε reading.env.now := by
  obtain ⟨before, rest, rfl, hlength, hpost⟩ := filter_at hsecond
  obtain ⟨earlier, now, later, next, hbefore, hattempt, -⟩ := h.at_act rfl
  obtain ⟨rfl, hpending, -, due, reading, hdue, hreading, hle⟩ := hattempt.of_post hpost
  rcases hbefore.last_round hall.of_append hpending with
    rfl | ⟨earlier, post, clock, mark, delay, prior, rfl, hprior, hstatus, hispost, hclock,
      hbackoff, hmark, hnext⟩
  · simp at hlength
  · have hposts := posts_of_round earlier hispost hclock hmark
    have hfailures := failures_of_round earlier hispost hclock hmark
    have hearlier : (postsOf earlier).length = position := by
      change (postsOf (earlier ++ [post, clock, mark])).length = position + 1 at hlength
      rw [← List.append_nil (earlier ++ [post, clock, mark]), hposts] at hlength
      simpa [postsOf] using hlength
    have hcounts := hprior.counts (fun act hact => hall act (by simp [hact])) hnew
    simp only [Phase.open, hstatus, reduceCtorEq, if_false, Nat.add_zero] at hcounts
    -- As many failures were recorded before this round as there were posts before the first one.
    have hentry : backoffSchedule[position]? = some delay := by
      rw [WebhookEventRecord.next_backoff_eq (hprior.sound hnew.sound).1 hstatus] at hbackoff
      rwa [show prior.attempts.toInt.toNat = position by omega] at hbackoff
    rw [to_chrono_of_schedule hentry] at hmark hnext
    cases hnext.symm.trans hdue
    rw [hposts, List.getElem?_append_right (Nat.le_of_eq hearlier), hearlier, Nat.sub_self,
      List.getElem?_cons_zero] at hfirst
    cases hfirst
    refine ⟨clock, mark, delay, reading, hentry, ?_, hclock, ?_, ?_, hreading, hle⟩
    · rw [hfailures, List.getElem?_append_right (by omega),
        show position - (failuresOf earlier).length = 0 by omega, List.getElem?_cons_zero]
    · rw [hmark, hprior.same.id]
    · rw [List.append_assoc]
      refine List.sublist_append_of_sublist_right ?_
      exact (List.Sublist.refl [first, clock, mark]).append
        (List.singleton_sublist.mpr List.mem_cons_self)

/-- After the sixth recorded failure nothing is posted. -/
theorem Follows.final {before rest : List (Act (server σ ε))}
    (h : Follows webhooks history start (before ++ rest) phase record)
    (hall : AllRecorded (before ++ rest)) (hnew : start.New)
    (hfailures : (failuresOf before).length = 6) : postsOf rest = [] := by
  obtain ⟨earlier, prior, hbefore⟩ := h.of_append
  have hcounts := hbefore.counts hall.of_append hnew
  have hle := h.posts_le hall hnew
  rw [postsOf, List.filter_append, List.length_append, ← postsOf, ← postsOf] at hle
  exact List.eq_nil_of_length_eq_zero (by omega)

end Courses

section Histories

variable {σ ε : Type} [PaymentRepository σ] [WebhookEventRepository ε] [Platform]

/-- The requests of one kind in the delivery of an event. -/
def requests (kind : Request → Bool) (id : Uuid) (history : List (Event (server σ ε))) :
    List (Act (server σ ε)) :=
  history.filterMap fun
    | .act act => if act.span = some id ∧ kind act.request = true then some act else none
    | .start _ _ _ => none

/-- The posts of an event. -/
def posts (id : Uuid) (history : List (Event (server σ ε))) : List (Act (server σ ε)) :=
  requests Request.isPost id history

/-- The recorded failures of an event. -/
def failures (id : Uuid) (history : List (Event (server σ ε))) : List (Act (server σ ε)) :=
  requests Request.isFailure id history

/-- What the deliveries of one event keep to, in a history that led to `world`. -/
structure RetriesKept [EventLaws ε] [DeliveryLaws ε] (id : Uuid)
    (history : List (Event (server σ ε))) (world : World σ ε) : Prop where
  at_most_six : (posts id history).length ≤ 6
  /-- Every post but the last one failed. -/
  none_after_success : (posts id history).Pairwise fun first _ =>
    WebhookService.isSuccess first.env.endpoint = false
  /-- Between two posts the loop read the clock and recorded the failure of the first one, and the
  second one was not made before the end of the delay, counted from that reading, up to what the
  store keeps of an instant. -/
  spaced : ∀ (position : Nat) (first second : Act (server σ ε)),
    (posts id history)[position]? = some first →
    (posts id history)[position + 1]? = some second →
      ∃ clock mark delay, backoffSchedule[position]? = some delay ∧
        (failures id history)[position]? = some mark ∧ clock.request = .utcNow ∧
        mark.request = .markFailed id (some (clock.env.now + delay)) ∧
        [.act first, .act clock, .act mark, .act second].Sublist history ∧
        DeliveryLaws.time ε (clock.env.now + delay) ≤ DeliveryLaws.time ε second.env.now
  failed : (failures id history).length = 6 →
    ∃ record, found world.events id = some record ∧ record.status = .failed
  /-- Nothing is posted after the sixth failure. -/
  final : ∀ before after, history = before ++ after → (failures id before).length = 6 →
    posts id after = []
  /-- All posts have the same headers and body. -/
  same : ∀ first ∈ posts id history, ∀ second ∈ posts id history, first.request = second.request

variable {kind : Request → Bool} {loop : Nat} {id : Uuid}

/-- If only the loop makes requests of a kind, its course has them all. -/
theorem requests_eq {config : Config (server σ ε)}
    (honly : ∀ act, .act act ∈ config.trace → kind act.request = true → act.thread = loop) :
    requests kind id config.trace = (course loop id config).filter fun act => kind act.request := by
  obtain ⟨world, history⟩ := config
  induction history with
  | nil => rfl
  | cons event rest ih =>
      have hrest := ih fun act hact => honly act (List.mem_cons_of_mem _ hact)
      simp only [requests, course, Config.own] at hrest ⊢
      cases event with
      | start thread call before =>
          rw [List.filterMap_cons_none rfl, hrest, List.filter_cons]
          split
          · rw [List.filterMap_cons_none rfl]
          · rfl
      | act act =>
          have hact := honly act List.mem_cons_self
          by_cases hthread : act.thread = loop
          · by_cases hspan : act.span = some id
            · by_cases hkind : kind act.request = true <;>
                simp [Event.thread, hthread, hspan, hkind, hrest]
            · simp [Event.thread, hthread, hspan, hrest]
          · have hkind : ¬ kind act.request = true := fun hkind => hthread (hact hkind)
            simp [Event.thread, hthread, hkind, hrest]

/-- A course is part of the history. -/
theorem course_sublist (config : Config (server σ ε)) :
    ((course loop id config).map Event.act).Sublist config.trace := by
  obtain ⟨world, history⟩ := config
  induction history with
  | nil => exact List.Sublist.slnil
  | cons event rest ih =>
      simp only [course, Config.own] at ih ⊢
      rw [List.filter_cons]
      split
      · cases event with
        | start => exact ih.cons _
        | act act =>
            by_cases hspan : act.span = some id
            · rw [List.filterMap_cons_some (b := act) (by simp [hspan])]
              exact ih.cons_cons _
            · rw [List.filterMap_cons_none (by simp [hspan])]
              exact ih.cons _
      · exact ih.cons _

/-- A history is cut, and a course with it. -/
theorem course_append (world : World σ ε) (before after : List (Event (server σ ε))) :
    course loop id ⟨world, before ++ after⟩ =
      course loop id ⟨world, before⟩ ++ course loop id ⟨world, after⟩ := by
  simp [course, Config.own]

/-- Only the loop posts and records outcomes. -/
theorem delivers_at_loop {rules : Rules (server σ ε)} {world : World σ ε}
    {state : State (server σ ε)} {webhooks : WebhookService}
    (hadmits : ∀ call, rules.admits call → call.isPass = false)
    (hreach : Reachable rules world state)
    (hloop : (loopAt σ ε loop webhooks).Holds state.config.trace) {act : Act (server σ ε)}
    (hact : .act act ∈ state.config.trace) (hdelivers : act.request.delivers = true) :
    act.thread = loop := by
  have hmakes : ∀ call, rules.admits call → call.body.Makes fun request =>
      request.delivers = true → call.loopService ≠ none := by
    intro call hcall
    by_cases hservice : call.loopService = none
    · refine (other_makes (hadmits call hcall) hservice).mono fun request hnot hdelivers => ?_
      rw [hnot] at hdelivers
      cases hdelivers
    · exact .of_forall fun request _ => hservice
  obtain ⟨t, ht, -, hallowed, -⟩ := hreach.acts_make _ hmakes act hact
  obtain ⟨before, acts, hown⟩ := hreach.own_eq ht
  have hstart : .start act.thread t.call before ∈ state.config.trace :=
    Config.mem_of_own (hown ▸ List.mem_cons_self)
  have hservice := hloop _ _ _ hstart
  by_contra hne
  rw [if_neg hne] at hservice
  exact hallowed hdelivers hservice

end Histories

section Runs

variable {σ ε : Type} [PaymentRepository σ] [WebhookEventRepository ε] [Platform] [EventLaws ε]

variable (σ ε) in
/-- A server in which the outcomes of deliveries can be recorded. -/
def steadyRules : Rules (server σ ε) :=
  ⟨fun call => call.isPass = false, fun env _ request world =>
    FreshEvent env request world ∧ (request.marks = true → env.eventsFault = none)⟩

instance : DecidablePred (steadyRules σ ε).admits :=
  fun call => inferInstanceAs (Decidable (call.isPass = false))

instance (env : Env) (span : Option Uuid) (request : Request) (world : World σ ε) :
    Decidable ((steadyRules σ ε).permits env span request world) :=
  inferInstanceAs (Decidable (_ ∧ (_ → env.eventsFault = none)))

variable {world : World σ ε} {state : State (server σ ε)} {loop : Nat} {webhooks : WebhookService}

/-- It is a server. -/
theorem server_of_steady (hreach : Reachable (steadyRules σ ε) world state) :
    Reachable (serverRules σ ε) world state := by
  have hadmits : ∀ call, (steadyRules σ ε).admits call → (serverRules σ ε).admits call :=
    fun _ h => h
  have hpermits : ∀ env span request world, (steadyRules σ ε).permits env span request world →
      (serverRules σ ε).permits env span request world := fun _ _ _ _ h => h.1
  exact hreach.mono hadmits hpermits

/-- The requests of a kind that only deliveries make are all in the course of the loop. -/
theorem requests_at_loop (hreach : Reachable (steadyRules σ ε) world state)
    (hloop : (loopAt σ ε loop webhooks).Holds state.config.trace) {kind : Request → Bool}
    (hkind : ∀ {request : Request}, kind request = true → request.delivers = true)
    {history : List (Event (server σ ε))} (hsubset : history ⊆ state.config.trace)
    (world : World σ ε) (id : Uuid) :
    requests kind id history =
      (course loop id ⟨world, history⟩).filter fun act => kind act.request :=
  @requests_eq _ _ _ _ _ kind loop id ⟨world, history⟩ fun _ hact hdone =>
    delivers_at_loop (fun _ h => h) hreach hloop (hsubset hact) (hkind hdone)

/-- Every outcome of a delivery has been recorded. -/
theorem all_recorded (hreach : Reachable (steadyRules σ ε) world state) (loop : Nat) (id : Uuid) :
    AllRecorded (course loop id state.config) := by
  intro act hact hmarks
  have hmem := (course_sublist state.config).subset (List.mem_map_of_mem hact)
  exact (hreach.permitted hmem).2 hmarks

variable [DeliveryLaws ε]

/-- A stored event is a new one. -/
theorem Stores.new {act : Act (server σ ε)} {record : WebhookEventRecord}
    (h : Stores act record) : record.New := by
  obtain ⟨_, hgot⟩ := h
  rw [answer_enqueue_record hgot.2]
  exact ⟨rfl, rfl, .of_enqueued _ _ _ _ _⟩

/-- Every event has the course of a new one that was never sent, or of one that was enqueued. -/
theorem course_follows (hreach : Reachable (steadyRules σ ε) world state)
    (hempty : ∀ id, found world.events id = none)
    (hloop : (loopAt σ ε loop webhooks).Holds state.config.trace) (id : Uuid) :
    ∃ start record phase, start.New ∧ start.id = id ∧
      Follows webhooks state.config.trace start (course loop id state.config) phase record ∧
      (course loop id state.config ≠ [] → found state.config.world.events id = some record) := by
  obtain ⟨phase, htracked⟩ := deliveries_tracked (server_of_steady hreach) hempty hloop id
  cases htracked with
  | absent _ hnil =>
      rw [hnil]
      exact ⟨.enqueued id 0 "" .null 0, _, _, ⟨rfl, rfl, .of_enqueued _ _ _ _ _⟩, rfl, .nil,
        fun hne => absurd rfl hne⟩
  | stored _ hstores hid hfollows hsome =>
      exact ⟨_, _, _, hstores.new, hid, hfollows, fun _ => hsome⟩

/-- The deliveries of an event in a run over an empty event store, with one loop at most, under a
clock that does not go back. -/
theorem retries_kept (hreach : Reachable (steadyRules σ ε) world state)
    (hempty : ∀ id, found world.events id = none)
    (htime : ∀ first second, first ≤ second →
      DeliveryLaws.time ε first ≤ DeliveryLaws.time ε second)
    (hone : OneLoop state)
    (hclock : Ascending (M := server σ ε) Request.datedByStore Env.now state.config.trace)
    (id : Uuid) : RetriesKept id state.config.trace state.config.world := by
  obtain ⟨loop, webhooks, hloop⟩ := loop_at_of_one hreach hone
  have hposts : posts id state.config.trace = postsOf (course loop id state.config) :=
    requests_at_loop hreach hloop Request.delivers_of_is_post (List.Subset.refl _) _ id
  have hfailures : failures id state.config.trace = failuresOf (course loop id state.config) :=
    requests_at_loop hreach hloop Request.delivers_of_is_failure (List.Subset.refl _) _ id
  have hall := all_recorded hreach loop id
  obtain ⟨start, record, phase, hnew, hid, hfollows, hfound⟩ :=
    course_follows hreach hempty hloop id
  refine ⟨hposts ▸ hfollows.posts_le hall hnew, ?_, ?_, ?_, ?_, ?_⟩
  · rw [hposts]
    exact hfollows.none_after_success hall hnew
  · intro position first second hfirst hsecond
    rw [hposts] at hfirst hsecond
    obtain ⟨clock, mark, delay, reading, hentry, hmark, hread, hrequest, horder, hreading, hle⟩ :=
      hfollows.spaced hall hnew hfirst hsecond
    refine ⟨clock, mark, delay, hentry, hfailures ▸ hmark, hread, hid ▸ hrequest, ?_, ?_⟩
    · exact (horder.map Event.act).trans (course_sublist state.config)
    · have hprompt : second.request.datedByStore = false := by
        rw [hfollows.posts_same (List.mem_of_getElem? hsecond)]
        rfl
      exact Int.le_trans hle (htime _ _ (hclock.le hreading hprompt))
  · intro hsix
    rw [hfailures] at hsix
    obtain ⟨hcount, -⟩ := hfollows.counts hall hnew
    refine ⟨record, hfound ?_, ?_⟩
    · rintro hnil
      rw [hnil] at hsix
      simp [failuresOf] at hsix
    · by_contra hstatus
      have hattempts := (hfollows.sound hnew.sound).1.attempts_le hstatus
      omega
  · intro before after htrace hsix
    have hcut : course loop id state.config =
        course loop id ⟨state.config.world, before⟩ ++
          course loop id ⟨state.config.world, after⟩ := by
      rw [← course_append, ← htrace]
    rw [hcut] at hfollows hall
    have hbefore : failures id before =
        failuresOf (course loop id ⟨state.config.world, before⟩) :=
      requests_at_loop hreach hloop Request.delivers_of_is_failure
        (htrace ▸ List.subset_append_left _ _) _ id
    have hafter : posts id after = postsOf (course loop id ⟨state.config.world, after⟩) :=
      requests_at_loop hreach hloop Request.delivers_of_is_post
        (htrace ▸ List.subset_append_right _ _) _ id
    rw [hafter]
    exact hfollows.final hall hnew (hbefore ▸ hsix)
  · intro first hfirst second hsecond
    rw [hposts] at hfirst hsecond
    rw [hfollows.posts_same hfirst, hfollows.posts_same hsecond]

end Runs

section Backends

variable [Platform]

/-- On either backend, in every run over an empty event store with one delivery loop at most, in
which the outcomes of deliveries can be recorded and the clock does not go back: the deliveries of
every event keep to the schedule. -/
theorem webhook_retries_kept (backend : Backend)
    (hmono : ∀ first second, first ≤ second →
      Platform.timestamptz first ≤ Platform.timestamptz second)
    {payments : backend.Payments} {state : State backend.server}
    (hreach : Reachable (steadyRules backend.Payments backend.Events)
      ⟨payments, backend.noEvents⟩ state) (hone : OneLoop state)
    (hclock : Ascending (M := backend.server) Request.datedByStore Env.now state.config.trace)
    (id : Uuid) :
    RetriesKept id state.config.trace state.config.world :=
  retries_kept hreach (fun id => backend.found_empty id) (backend.time_mono hmono) hone hclock id

end Backends

section Run

attribute [local instance] Plain.platform

open Plain

/-- An event is enqueued, and two passes of the loop fail to deliver it, a minute apart. -/
def secondAttempt : List (Choice Backend.postgres.server) :=
  [.start (.enqueueEvent (.paymentDetected (pending 7 "10" "order-1" 5000))),
    .act 0 (env 6000 8), .act 0 (env 6000 9), .act 0 (env 6000 9), .act 0 (env 6000 9),
    .start (.deliveryLoop ⟨"https://shop.example/hook", "secret"⟩ 2),
    .act 1 (env 7000000 10), .act 1 (env 7000000 10), .act 1 (endpointDown 7000000 10),
    .act 1 (env 7000900 10), .act 1 (env 7000950 10),
    .act 1 (env 60007000200 10), .act 1 (env 60007000200 10),
    .act 1 (endpointDown 60007000200 10)]

/-- When the posts of the event were made, and when their failures were recorded. -/
def attemptTimes (state : State Backend.postgres.server) : List DateTime × List DateTime :=
  ((posts 9 state.config.trace).map (·.env.now), (failures 9 state.config.trace).map (·.env.now))

/-- The time of the next attempt that is to be recorded. -/
def retryAt (act : Act Backend.postgres.server) : Option DateTime :=
  match act.request with
  | .markFailed _ due => due
  | _ => none

/-- The two attempts of `secondAttempt` keep to the schedule. -/
theorem webhook_retries_kept_twice : ∃ state : State Backend.postgres.server,
    (posts 9 state.config.trace).length = 2 ∧
    RetriesKept 9 state.config.trace state.config.world := by
  obtain ⟨state, hreach, htest⟩ := exists_reachable
    (steadyRules Backend.postgres.Payments Backend.postgres.Events) secondAttempt
    ⟨oneInvoice.payments, EventTable.new⟩ (fun state =>
      decide ((posts 9 state.config.trace).length = 2) && decide (OneLoop state) &&
        decide (Ascending (M := Backend.postgres.server) Request.datedByStore Env.now
          state.config.trace)) (by decide)
  simp only [Bool.and_eq_true, decide_eq_true_eq] at htest
  exact ⟨state, htest.1.1,
    webhook_retries_kept .postgres timestamptz_mono hreach htest.1.2 htest.2 9⟩

/-- In `secondAttempt` the second post is made earlier than a minute after the failure of the first
one was recorded. It is even earlier than the time asked for, which the column rounds down. -/
theorem second_post_early : ∃ state : State Backend.postgres.server,
    Reachable (steadyRules Backend.postgres.Payments Backend.postgres.Events)
      ⟨oneInvoice.payments, EventTable.new⟩ state ∧ OneLoop state ∧
    Ascending (M := Backend.postgres.server) Request.datedByStore Env.now state.config.trace ∧
    attemptTimes state = ([7000000, 60007000200], [7000950]) ∧
    (failures 9 state.config.trace).map retryAt = [some 60007000900] ∧
    ∃ delay : Duration, backoffSchedule[0]? = some delay ∧
      (60007000200 : DateTime) < 7000950 + delay := by
  obtain ⟨state, hreach, htest⟩ := exists_reachable
    (steadyRules Backend.postgres.Payments Backend.postgres.Events) secondAttempt
    ⟨oneInvoice.payments, EventTable.new⟩ (fun state => decide (OneLoop state) &&
      decide (Ascending (M := Backend.postgres.server) Request.datedByStore Env.now
        state.config.trace) &&
      attemptTimes state == ([7000000, 60007000200], [7000950]) &&
      (failures 9 state.config.trace).map retryAt == [some 60007000900]) (by decide)
  simp only [Bool.and_eq_true, decide_eq_true_eq, beq_iff_eq] at htest
  obtain ⟨⟨⟨hone, hclock⟩, htimes⟩, hretry⟩ := htest
  exact ⟨state, hreach, hone, hclock, htimes, hretry, _, rfl, by decide⟩

end Run

end StellarPay
