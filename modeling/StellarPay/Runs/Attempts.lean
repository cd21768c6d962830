import StellarPay.Interleaving.Automata
import StellarPay.Runs.Retries

/-!
# What the attempts of an event count

`mark_failed` counts an attempt and `mark_delivered` does not. Between two passes every post is
followed by the recording of its outcome, so the attempts of an event are the posts of it that
failed. They are all its posts until one succeeds.
-/

namespace StellarPay

open Interleaving

open EventLaws (found)

section Programs

/-- The last request made for an event. -/
def lastFor (id : Uuid) (last : Option Request) (span : Option Uuid) (request : Request) :
    Option Request :=
  if span = some id then some request else last

/-- The last request made for an event recorded an outcome, if there was one. -/
def Settled (last : Option Request) : Prop :=
  ∀ request ∈ last, request.marks = true

variable [Platform] (webhooks : WebhookService) (id : Uuid) {last : Option Request}

/-- A delivery ends with the recording of its outcome. -/
theorem deliver_one_brings (record : WebhookEventRecord) (hlast : Settled last) :
    ((webhooks.deliverOne record).within record.id).Brings (lastFor id) Settled last := by
  rw [Program.brings_within]
  by_cases hid : record.id = id
  · have hmarks : ∀ {state : Option Request} (request : Request), request.marks = true →
        Settled (lastFor id state (some record.id) request) := by
      intro state request hmarks
      simpa [lastFor, hid, Settled] using hmarks
    refine (Program.brings_request_bind _ _).mpr fun reply => ?_
    dsimp only
    split
    · exact fun now marked => hmarks (.markDelivered record.id now) rfl
    · split
      · exact fun marked => hmarks (.markFailed record.id none) rfl
      · exact fun now marked => hmarks (.markFailed record.id (some _)) rfl
  · have hother : (fun last _ => lastFor id last (some record.id)) =
        fun (last : Option Request) (_ : Option Uuid) (_ : Request) => last := by
      funext last span request
      simp [lastFor, hid]
    rw [hother]
    exact Program.brings_of_const hlast

/-- So does every delivery of a batch. -/
theorem deliver_all_brings (records : List WebhookEventRecord) (hlast : Settled last) :
    (webhooks.deliverAll records).Brings (lastFor id) Settled last := by
  induction records generalizing last with
  | nil => exact hlast
  | cons record rest ih =>
      exact Program.brings_bind (deliver_one_brings webhooks id record hlast)
        fun _ hsettled _ => ih hsettled

/-- A pass begins and ends with all outcomes recorded. -/
theorem deliver_due_brings (hlast : Settled last) :
    webhooks.deliverDue.Brings (lastFor id) Settled last := by
  refine (Program.brings_request_bind _ _).mpr fun now => ?_
  refine (Program.brings_request_bind _ _).mpr fun reply => ?_
  cases reply with
  | error error => exact hlast
  | ok due =>
      exact Program.brings_bind (deliver_all_brings webhooks id due hlast)
        fun _ hsettled _ => hsettled

/-- All passes do. -/
theorem run_delivery_loop_brings (passes : Nat) (hlast : Settled last) :
    (webhooks.runDeliveryLoop passes).Brings (lastFor id) Settled last := by
  induction passes generalizing last with
  | zero => exact hlast
  | succ passes ih =>
      exact Program.brings_bind (deliver_due_brings webhooks id hlast) fun _ hsettled _ =>
        ih hsettled

/-- A loop that ends with all outcomes recorded has begun so: its passes may deliver nothing. -/
theorem settled_of_brings {passes : Nat}
    (h : (webhooks.runDeliveryLoop passes).Brings (lastFor id) Settled last) : Settled last := by
  induction passes with
  | zero => exact h
  | succ passes ih => exact ih (h (0 : DateTime) (.error .notFound))

end Programs

section Courses

variable {σ ε : Type} [PaymentRepository σ] [WebhookEventRepository ε] [Platform]

/-- The loop's last request for an event is the last one of its course. -/
theorem last_for_eq (loop : Nat) (id : Uuid) (config : Config (server σ ε)) :
    (config.own loop).foldl (Event.watched (lastFor id)) none =
      (course loop id config).getLast?.map Act.request := by
  rw [course]
  generalize config.own loop = events
  induction events using List.reverseRecOn with
  | nil => rfl
  | append_singleton events event ih =>
      rw [List.foldl_append, List.filterMap_append, ih]
      cases event with
      | start => simp [Event.watched]
      | act act =>
          by_cases hspan : act.span = some id
          · simp [Event.watched, lastFor, hspan]
          · simp [Event.watched, lastFor, hspan]

variable [EventLaws ε] [DeliveryLaws ε] {webhooks : WebhookService}
  {history : List (Event (server σ ε))} {start record : WebhookEventRecord}
  {acts : List (Act (server σ ε))} {phase : Phase σ ε}

/-- A course that ends with the recording of an outcome is at rest. -/
theorem Follows.resting (h : Follows webhooks history start acts phase record)
    (hlast : Settled (acts.getLast?.map Act.request)) : phase = .resting := by
  cases h with
  | nil => rfl
  | @snoc acts act _ _ _ _ h hattempt =>
      have hmarks : act.request.marks = true := by simpa [Settled] using hlast
      cases hattempt with
      | post _ _ _ _ hrequest | clock hrequest =>
          rw [hrequest] at hmarks
          cases hmarks
      | delivered | retried | exhausted => rfl

/-- The post a course has come to is one of its posts. -/
theorem Follows.at_post (h : Follows webhooks history start acts phase record)
    {post : Act (server σ ε)}
    (hphase : phase = .posted post ∨ ∃ clock, phase = .timed post clock) : post ∈ postsOf acts := by
  induction h with
  | nil => simp at hphase
  | @snoc acts act phase next record after h hattempt ih =>
      rw [postsOf, List.filter_append]
      cases hattempt with
      | post _ _ _ _ hrequest =>
          obtain rfl : act = post := by simpa using hphase
          refine List.mem_append_right _ (List.mem_filter.mpr ⟨List.mem_singleton.mpr rfl, ?_⟩)
          rw [hrequest]
          rfl
      | clock =>
          obtain ⟨_, hclock⟩ := hphase.resolve_left (by simp)
          cases hclock
          exact List.mem_append_left _ (ih (.inl rfl))
      | delivered | retried | exhausted => simp at hphase

/-- An event that is delivered had a post that succeeded. -/
theorem Follows.of_delivered (h : Follows webhooks history start acts phase record)
    (hstart : start.status = .pending) (hdelivered : record.status = .delivered) :
    ∃ post ∈ postsOf acts, WebhookService.isSuccess post.env.endpoint = true := by
  induction h with
  | nil => cases hstart.symm.trans hdelivered
  | @snoc acts act phase next record after h hattempt ih =>
      have hmore : ∀ post ∈ postsOf acts, post ∈ postsOf (acts ++ [act]) := by
        intro post hpost
        rw [postsOf, List.filter_append]
        exact List.mem_append_left _ hpost
      by_cases hbefore : record.status = .delivered
      · obtain ⟨post, hpost, hsuccess⟩ := ih hbefore
        exact ⟨post, hmore post hpost, hsuccess⟩
      · cases hattempt with
        | post | clock => exact absurd hdelivered hbefore
        | delivered hsuccess => exact ⟨_, hmore _ (h.at_post (.inr ⟨_, rfl⟩)), hsuccess⟩
        | retried | exhausted =>
            rw [marked] at hdelivered
            split at hdelivered
            · simp [WebhookEventRecord.failed] at hdelivered
            · exact absurd hdelivered hbefore

end Courses

section Runs

variable {σ ε : Type} [PaymentRepository σ] [WebhookEventRepository ε] [Platform]

/-- No loop of the pool is in the middle of a pass. -/
def BetweenPasses (state : State (server σ ε)) : Prop :=
  ∀ (thread : Nat) (webhooks : WebhookService) (passes : Nat) (program : Prog Unit),
    state.threads[thread]? = some ⟨.deliveryLoop webhooks passes, program⟩ →
      ∃ left, program = webhooks.runDeliveryLoop left

/-- What a loop has still to do ends with all outcomes recorded. -/
theorem loop_brings {rules : Rules (server σ ε)} {world : World σ ε} {state : State (server σ ε)}
    (hreach : Reachable rules world state) {loop : Nat} {t : Thread (server σ ε)}
    (ht : state.threads[loop]? = some t) (hservice : t.call.loopService.isSome = true) (id : Uuid) :
    t.program.Brings (lastFor id) Settled
      ((course loop id state.config).getLast?.map Act.request) := by
  rw [← last_for_eq]
  refine hreach.brings (lastFor id) (fun call : ServerCall => call.loopService.isSome = true) ?_ ht
    hservice
  intro call _ hloop
  cases call with
  | service | enqueueEvent => cases hloop
  | deliveryLoop webhooks passes =>
      exact run_delivery_loop_brings webhooks id passes (by simp [Settled])

/-- Between passes the last request made for an event recorded an outcome. -/
theorem settled_between {rules : Rules (server σ ε)} {world : World σ ε}
    {state : State (server σ ε)} {loop : Nat} {webhooks : WebhookService}
    (hreach : Reachable rules world state)
    (hloop : (loopAt σ ε loop webhooks).Holds state.config.trace) (hbetween : BetweenPasses state)
    (id : Uuid) : Settled ((course loop id state.config).getLast?.map Act.request) := by
  cases ht : state.threads[loop]? with
  | none =>
      have hown : state.config.own loop = [] := by
        refine List.filter_eq_nil_iff.mpr fun event hevent => ?_
        have hknown := hreach.known event hevent
        have hlength := List.getElem?_eq_none_iff.mp ht
        simp only [decide_eq_true_eq]
        omega
      simp [course, hown, Settled]
  | some t =>
      obtain ⟨before, acts, hown⟩ := hreach.own_eq ht
      have hservice := hloop loop t.call before (Config.mem_of_own (hown ▸ List.mem_cons_self))
      rw [if_pos rfl] at hservice
      obtain ⟨call, program⟩ := t
      cases call with
      | service | enqueueEvent => cases hservice
      | deliveryLoop own passes =>
          obtain ⟨left, rfl⟩ := hbetween loop own passes program ht
          exact settled_of_brings own id (loop_brings hreach ht rfl id)

variable [EventLaws ε]

/-- The attempts of an event are its posts. -/
def CountsPosts (id : Uuid) (state : State (server σ ε)) : Prop :=
  ∀ record, found state.config.world.events id = some record →
    record.attempts.toInt = (posts id state.config.trace).length

/-- None of its posts has succeeded. -/
def AllFailed (id : Uuid) (state : State (server σ ε)) : Prop :=
  ∀ post ∈ posts id state.config.trace, WebhookService.isSuccess post.env.endpoint = false

variable [DeliveryLaws ε] {world : World σ ε} {state : State (server σ ε)}

/-- Between passes the attempts of an event are its posts if and only if all of them failed. -/
theorem counts_posts_iff (hreach : Reachable (steadyRules σ ε) world state)
    (hempty : ∀ id, found world.events id = none) (hone : OneLoop state)
    (hbetween : BetweenPasses state) (id : Uuid) : CountsPosts id state ↔ AllFailed id state := by
  obtain ⟨loop, webhooks, hloop⟩ := loop_at_of_one hreach hone
  have hposts : posts id state.config.trace = postsOf (course loop id state.config) :=
    requests_at_loop hreach hloop Request.delivers_of_is_post (List.Subset.refl _) _ id
  have hsettled := settled_between hreach hloop hbetween id
  have hall := all_recorded hreach loop id
  obtain ⟨phase, htracked⟩ := deliveries_tracked (server_of_steady hreach) hempty hloop id
  rw [AllFailed, CountsPosts, hposts]
  cases htracked with
  | absent hnone hnil => simp [hnone, hnil, postsOf]
  | @stored _ act start record hact hstores hid hfollows hsome =>
      obtain rfl := hfollows.resting hsettled
      have hnew := hstores.new
      obtain ⟨hfailures, hcount⟩ := hfollows.counts hall hnew
      -- At rest every failure has been counted, so only a success can be missing.
      have hattempts : record.attempts.toInt = (postsOf (course loop id state.config)).length ↔
          record.status ≠ .delivered := by
        rw [hcount, ← hfailures, Phase.open]
        split <;> simp_all
      simp only [hsome, Option.some.injEq, forall_eq', hattempts]
      constructor
      · intro hstatus post hpost
        by_contra hsuccess
        rcases hfollows.succeeded hall hnew.sound hpost (by simpa using hsuccess) with
          hphase | ⟨clock, hphase⟩ | hdelivered
        · cases hphase
        · cases hphase
        · exact hstatus hdelivered
      · intro hfailed hdelivered
        obtain ⟨post, hpost, hsuccess⟩ := hfollows.of_delivered hnew.status hdelivered
        rw [hfailed post hpost] at hsuccess
        cases hsuccess

end Runs

section Backends

variable [Platform]

/-- On either backend, in every run over an empty event store with one delivery loop at most, in
which the outcomes of deliveries can be recorded: between passes the attempts of an event are its
posts if and only if all of them failed. -/
theorem attempts_count_posts_iff (backend : Backend) {payments : backend.Payments}
    {state : State backend.server}
    (hreach : Reachable (steadyRules backend.Payments backend.Events)
      ⟨payments, backend.noEvents⟩ state) (hone : OneLoop state)
    (hbetween : BetweenPasses state) (id : Uuid) : CountsPosts id state ↔ AllFailed id state :=
  counts_posts_iff hreach (fun id => backend.found_empty id) hone hbetween id

/-- All loops of the pool have returned. -/
def loopsEnded {backend : Backend} (state : State backend.server) : Bool :=
  state.threads.all fun
    | ⟨.deliveryLoop _ _, .call _ _ _⟩ => false
    | _ => true

/-- A loop that has returned is between two passes. -/
theorem between_of_ended {backend : Backend} {state : State backend.server}
    (h : loopsEnded state = true) : BetweenPasses state := by
  intro thread webhooks passes program ht
  have hended := List.all_eq_true.mp h _ (List.mem_of_getElem? ht)
  cases program with
  | done => exact ⟨0, rfl⟩
  | call => cases hended

end Backends

section Run

attribute [local instance] Plain.platform

open Plain

/-- An event is enqueued, and one pass of the loop sends it to an endpoint that answers so. -/
def onePass (endpoint : Except String Nat) : List (Choice Backend.postgres.server) :=
  [.start (.enqueueEvent (.paymentDetected (pending 7 "10" "order-1" 5000))),
    .act 0 (env 6000 8), .act 0 (env 6000 9), .act 0 (env 6000 9), .act 0 (env 6000 9),
    .start (.deliveryLoop ⟨"https://shop.example/hook", "secret"⟩ 1),
    .act 1 (env 7000 10), .act 1 (env 7000 10), .act 1 { env 7000 10 with endpoint },
    .act 1 (env 8000 10), .act 1 (env 8000 10)]

/-- After a pass that failed the attempts of the event are its posts. -/
theorem attempts_count_posts_failed : ∃ state : State Backend.postgres.server,
    (posts 9 state.config.trace).length = 1 ∧ (CountsPosts 9 state ↔ AllFailed 9 state) := by
  obtain ⟨state, hreach, htest⟩ := exists_reachable
    (steadyRules Backend.postgres.Payments Backend.postgres.Events) (onePass (.ok 500))
    ⟨oneInvoice.payments, EventTable.new⟩ (fun state =>
      decide ((posts 9 state.config.trace).length = 1) && decide (OneLoop state) &&
        loopsEnded state) (by decide)
  simp only [Bool.and_eq_true, decide_eq_true_eq] at htest
  exact ⟨state, htest.1.1,
    attempts_count_posts_iff .postgres hreach htest.1.2 (between_of_ended htest.2) 9⟩

/-- An event delivered at the first attempt was posted once, and its record says that no attempt was
made. -/
theorem delivered_without_attempt : ∃ state : State Backend.postgres.server,
    Reachable (steadyRules Backend.postgres.Payments Backend.postgres.Events)
      ⟨oneInvoice.payments, EventTable.new⟩ state ∧ OneLoop state ∧ BetweenPasses state ∧
    (posts 9 state.config.trace).length = 1 ∧ ∃ record,
      found state.config.world.events 9 = some record ∧ record.status = .delivered ∧
      record.attempts = 0 ∧ ¬ CountsPosts 9 state := by
  obtain ⟨state, hreach, htest⟩ := exists_reachable
    (steadyRules Backend.postgres.Payments Backend.postgres.Events) (onePass (.ok 200))
    ⟨oneInvoice.payments, EventTable.new⟩ (fun state =>
      decide (OneLoop state) && loopsEnded state &&
      decide ((posts 9 state.config.trace).length = 1) &&
      (found state.config.world.events 9).any fun record =>
        record.status == .delivered && record.attempts == 0) (by decide)
  simp only [Bool.and_eq_true, decide_eq_true_eq, Option.any_eq_true, beq_iff_eq] at htest
  obtain ⟨⟨⟨hone, hended⟩, hposts⟩, record, hfound, hstatus, hattempts⟩ := htest
  refine ⟨state, hreach, hone, between_of_ended hended, hposts, record, hfound, hstatus, hattempts,
    fun hcounts => ?_⟩
  have hcount := hcounts record hfound
  rw [hposts, hattempts] at hcount
  cases hcount

end Run

end StellarPay
