import StellarPay.Runs.Lifecycle
import StellarPay.Runs.Pass
import StellarPay.Runtime.EventFrames

/-!
# What becomes of the notification of a transition

The commit of a transition and the storing of its notification are two requests. A pass makes the
second one once, right after the first, and ignores its failure: a notification that could not be
stored is lost, and so is one that the pass was stopped before. Every other one is in the event
store from then on.
-/

namespace StellarPay

open Interleaving

section Fates

variable {σ ε : Type} [PaymentRepository σ] [WebhookEventRepository ε] [Platform]
  {worker : ReconciliationWorker} {history : List (Event (machine σ ε))}

/-- A committed transition was announced, or the pass has only looked at the clock, drawn
identifiers and recorded the payment since. -/
theorem Tells.commit_fate {stage : Stage} {commit : Event (machine σ ε)} {updated : Payment}
    (h : Tells worker history stage) (hcommit : commit ∈ history)
    (hcommitted : committed commit = some updated) :
    (∃ announcement ∈ history, Announces announcement updated) ∨
    ∃ told before after, stage = .owing updated told ∧ history = before ++ commit :: after ∧
      ∀ event ∈ after, Idle event ∨ recorded event = some updated := by
  induction h with
  | nil => simp at hcommit
  | @snoc history event stage next h hmove ih =>
      rcases List.mem_append.mp hcommit with hcommit | hcommit
      · rcases ih hcommit with ⟨announcement, hmem, hannounces⟩ |
          ⟨told, before, after, rfl, rfl, hafter⟩
        · exact .inl ⟨announcement, List.mem_append_left _ hmem, hannounces⟩
        · -- The commit is the last thing that was done, so the next move is limited.
          cases hmove with
          | idle hidle =>
              refine .inr ⟨told, before, after ++ [event], rfl, by simp, fun other hother => ?_⟩
              rcases List.mem_append.mp hother with hother | hother
              · exact hafter other hother
              · exact .inl (List.mem_singleton.mp hother ▸ hidle)
          | record hconfirmed hrecorded =>
              refine .inr ⟨true, before, after ++ [event], rfl, by simp, fun other hother => ?_⟩
              rcases List.mem_append.mp hother with hother | hother
              · exact hafter other hother
              · exact .inr (List.mem_singleton.mp hother ▸ hrecorded)
          | announce hannounces =>
              exact .inl ⟨event, List.mem_append_right _ List.mem_cons_self, hannounces⟩
      · obtain rfl := List.mem_singleton.mp hcommit
        obtain ⟨rfl, rfl, -⟩ := hmove.of_committed hcommitted
        exact .inr ⟨false, history, [], rfl, rfl, by simp⟩

variable [EventLaws ε]

/-- The event store holds the notification of the transition that produced `updated`. -/
def Notified (world : World σ ε) (updated : Payment) : Prop :=
  ∃ record ∈ recordsFor world.events updated.id,
    record.eventType = (eventFor updated).eventType ∧
    (record.payload.field "data").bind (Value.field "payment") = some updated.toJson

omit [PaymentRepository σ] [Platform] in
/-- The records that a reader of the store sees are those found under their id. -/
theorem mem_records_for {events : ε} {paymentId : Uuid} {record : WebhookEventRecord} :
    record ∈ recordsFor events paymentId ↔
      EventLaws.found events record.id = some record ∧ record.paymentId = paymentId := by
  obtain ⟨records, hlist, hmem⟩ : ∃ records,
      WebhookEventRepository.listForPayment (fun _ => Equiv.refl _) paymentId events =
        .ok records ∧ _ := EventLaws.mem_list
  rw [recordsFor, hlist]
  exact hmem record

omit [PaymentRepository σ] in
/-- A stored notification stays. -/
theorem Notified.mono {before after : World σ ε} {updated : Payment} (h : Notified before updated)
    (hkeeps : KeepsEvents before after) : Notified after updated := by
  obtain ⟨record, hrecord, htype, hpayload⟩ := h
  obtain ⟨hfound, hpayment⟩ := mem_records_for.mp hrecord
  obtain ⟨later, hlater, hsame⟩ := hkeeps _ _ hfound
  refine ⟨later, mem_records_for.mpr ⟨?_, hsame.paymentId.trans hpayment⟩,
    hsame.eventType.trans htype, hsame.payload ▸ hpayload⟩
  rw [hsame.id]
  exact hlater

/-- What has become of the notification of a transition that a pass committed. -/
inductive Fate (state : State (machine σ ε)) (t : Thread (machine σ ε))
    (commit : Event (machine σ ε)) (updated : Payment) : Prop where
  /-- It is in the event store. -/
  | stored (h : Notified state.config.world updated)
  /-- The pass tried to store it, and the store returned an error. -/
  | refused (act : Act (machine σ ε)) (now : DateTime) (id : Uuid) (eventType : String)
      (payload : Value) (error : RepositoryError) (hact : .act act ∈ state.config.own commit.thread)
      (hannounces : Announces (.act act) updated)
      (hgot : act.Got (.enqueue now id eventType payload) (.error error))
  /-- The pass has not returned, and has not come to store it: since the commit it has only looked
  at the clock, drawn identifiers and recorded the payment. -/
  | stopped (before after : List (Event (machine σ ε)))
      (hrunning : ∀ result, t.program ≠ .done result)
      (hown : state.config.own commit.thread = before ++ commit :: after)
      (hafter : ∀ event ∈ after, Idle event ∨ recorded event = some updated)

end Fates

section Runs

variable {σ ε : Type} [PaymentRepository σ] [WebhookEventRepository ε] [Platform] [EventLaws ε]

variable (σ ε) in
/-- Every call, with the identifiers of new events fresh. -/
def enqueueRules : Rules (machine σ ε) :=
  ⟨fun _ => True, fun env _ request world => FreshEvent env request world⟩

instance : DecidablePred (enqueueRules σ ε).admits :=
  fun _ => inferInstanceAs (Decidable True)

instance (env : Env) (span : Option Uuid) (request : Request) (world : World σ ε) :
    Decidable ((enqueueRules σ ε).permits env span request world) :=
  inferInstanceAs (Decidable (FreshEvent env request world))

variable {world : World σ ε} {state : State (machine σ ε)}

/-- No event of such a run loses or changes a stored notification. -/
theorem event_keeps_events (hreach : Reachable (enqueueRules σ ε) world state) :
    ∀ event ∈ state.config.trace, KeepsEvents event.before event.after := by
  intro event hevent
  cases event with
  | start => exact .refl _
  | act act => exact answer_keeps_events (hreach.permitted hevent)

/-- An announcement that was not refused is in the store. -/
theorem announced_fate (hreach : Reachable (enqueueRules σ ε) world state)
    {announcement : Event (machine σ ε)} {updated : Payment}
    (hmem : announcement ∈ state.config.trace) (hannounces : Announces announcement updated) :
    Notified state.config.world updated ∨
      ∃ act now id eventType payload error, announcement = .act act ∧
        act.Got (.enqueue now id eventType payload) (.error error) := by
  obtain ⟨payload, hattempted, hpayload⟩ := hannounces
  obtain ⟨act, now, rfl, hrequest⟩ := attempted_eq_some hattempted
  rcases answer_enqueue act.env now updated.id (eventFor updated).eventType payload act.before with
    ⟨error, hanswer⟩ | ⟨record, after, hanswer, hid, hpayment, htype, htext, hafter⟩
  · exact .inr ⟨act, _, _, _, _, error, rfl, hrequest, congrArg Prod.fst hanswer⟩
  · have hstored : Notified (Event.act act).after updated := by
      refine ⟨record, mem_records_for.mpr ⟨?_, hpayment⟩, htype, htext ▸ hpayload⟩
      have hworld : (Event.act act).after = { act.before with events := after } := by
        obtain ⟨thread, span, request, env, before⟩ := act
        obtain rfl := hrequest
        exact congrArg Prod.snd hanswer
      rw [hworld, hid]
      exact (hafter _).trans (if_pos rfl)
    exact .inl (hstored.mono
      (hreach.linked.relates_last KeepsEvents .refl .trans (event_keeps_events hreach) hmem))

variable [RepositoryLaws σ]

/-- Every transition that a pass committed meets one of the three fates. -/
theorem fate_of_commit (hreach : Reachable (enqueueRules σ ε) world state)
    {commit : Event (machine σ ε)} (hcommit : commit ∈ state.config.trace) {updated : Payment}
    (hcommitted : committed commit = some updated) {t : Thread (machine σ ε)}
    {worker : ReconciliationWorker} (hthread : state.threads[commit.thread]? = some t)
    (hcall : t.call = .runOnce worker) : Fate state t commit updated := by
  obtain ⟨first, history, stage, hown, htells, hreturned⟩ := pass_stage hreach hthread hcall
  have hmem : commit ∈ history := by
    have hmem : commit ∈ state.config.own commit.thread := Config.mem_own.mpr ⟨hcommit, rfl⟩
    rw [hown] at hmem
    refine (List.mem_cons.mp hmem).resolve_left fun heq => ?_
    rw [heq] at hcommitted
    cases hcommitted
  rcases htells.commit_fate hmem hcommitted with
    ⟨announcement, hannouncement, hannounces⟩ | ⟨told, before, after, rfl, rfl, hafter⟩
  · have hpast : announcement ∈ state.config.own commit.thread :=
      hown ▸ List.mem_cons_of_mem _ hannouncement
    rcases announced_fate hreach (Config.mem_of_own hpast) hannounces with
      hstored | ⟨act, now, id, eventType, payload, error, rfl, hgot⟩
    · exact .stored hstored
    · exact .refused act now id eventType payload error hpast hannounces hgot
  · refine .stopped (.start _ _ first :: before) after (fun result hdone => ?_) hown hafter
    cases hreturned result hdone

end Runs

section Backends

variable [Platform]

/-- On either backend, from any stores and whatever else is called and fails: the notification of a
transition that a pass has committed is in the event store, unless the store refused it or the pass
was stopped before it. -/
theorem transition_notified (backend : Backend) {world : World backend.Payments backend.Events}
    {state : State backend.machine}
    (hreach : Reachable (enqueueRules backend.Payments backend.Events) world state)
    {commit : Event backend.machine} (hcommit : commit ∈ state.config.trace) {updated : Payment}
    (hcommitted : committed commit = some updated) {t : Thread backend.machine}
    {worker : ReconciliationWorker} (hthread : state.threads[commit.thread]? = some t)
    (hcall : t.call = .runOnce worker) : Fate state t commit updated :=
  fate_of_commit hreach hcommit hcommitted hthread hcall

end Backends

section Run

attribute [local instance] Plain.platform

open Plain

/-- The pass of `detectionRun` goes on to store its notification. -/
def notifiedRun : List (Choice Backend.postgres.machine) :=
  detectionRun ++ [.act 1 (env 6000 9), .act 1 (env 6000 9), .act 1 (env 6000 9),
    .act 1 (env 6000 9)]

/-- The thread runs a pass. -/
def inPass : Thread Backend.postgres.machine → Bool
  | ⟨.runOnce _, _⟩ => true
  | _ => false

/-- The notification of `notifiedRun` is in the store. -/
theorem transition_notified_detection : ∃ (state : State Backend.postgres.machine)
    (commit : Event Backend.postgres.machine) (updated : Payment)
    (t : Thread Backend.postgres.machine),
    (recordsFor state.config.world.events 7).length = 1 ∧ commit ∈ state.config.trace ∧
      committed commit = some updated ∧ Fate state t commit updated := by
  obtain ⟨state, hreach, htest⟩ := exists_reachable
    (enqueueRules Backend.postgres.Payments Backend.postgres.Events) notifiedRun
    Backend.postgres.empty (fun state =>
      (recordsFor state.config.world.events 7).length == 1 &&
        state.config.trace.any fun event =>
          (committed event).isSome && (state.threads[event.thread]?).any inPass) (by decide +kernel)
  simp only [Bool.and_eq_true, beq_iff_eq, List.any_eq_true] at htest
  obtain ⟨hone, commit, hcommit, hcommitted, hpass⟩ := htest
  obtain ⟨updated, hcommitted⟩ := Option.isSome_iff_exists.mp hcommitted
  obtain ⟨⟨call, program⟩, hthread, hcall⟩ := Option.any_eq_true _ _ |>.mp hpass
  cases call with
  | runOnce worker =>
      exact ⟨state, commit, updated, _, hone, hcommit, hcommitted,
        transition_notified .postgres hreach hcommit hcommitted hthread rfl⟩
  | _ => cases hcall

/-- The first pass expires a payment and cannot store the notification; the second one runs to its
end without any fault. -/
def refusedRun : List (Choice Backend.postgres.machine) :=
  let later : DateTime := 7200 * 10 ^ 9
  [.start (create "10" "order-1" none), .act 0 (env 5000 7), .act 0 (env 5000 7),
    .act 0 (env 5000 7), .start (.runOnce worker), .act 1 (env later 8), .act 1 (env later 8),
    .act 1 (env later 8), .act 1 (env later 8), .act 1 (env later 8), .act 1 (env later 8),
    .act 1 { env later 8 with eventsFault := some "down" }, .start (.runOnce worker),
    .act 2 (env later 9)]

/-- The thread has run a pass to its end without an error. -/
def passed : Thread Backend.postgres.machine → Bool
  | ⟨.runOnce _, .done (.ok ())⟩ => true
  | _ => false

/-- Both stores work at this event. -/
def faultless : Event Backend.postgres.machine → Bool
  | .act act => act.env.paymentsFault.isNone && act.env.eventsFault.isNone
  | .start _ _ _ => true

/-- The notification of an expiry is lost when the store refuses it, and a later pass without any
fault does not bring it back. -/
theorem refused_notification_lost : ∃ state : State Backend.postgres.machine,
    Reachable (enqueueRules Backend.postgres.Payments Backend.postgres.Events)
      Backend.postgres.empty state ∧
    (stored state.config.world.payments 7).map Payment.status = some .expired ∧
    (state.threads[2]?).any passed = true ∧ (state.config.own 2).all faultless = true ∧
    recordsFor state.config.world.events 7 = [] := by
  obtain ⟨state, hreach, htest⟩ := exists_reachable
    (enqueueRules Backend.postgres.Payments Backend.postgres.Events) refusedRun
    Backend.postgres.empty (fun state =>
      (stored state.config.world.payments 7).map Payment.status == some .expired &&
        (state.threads[2]?).any passed && (state.config.own 2).all faultless &&
        (recordsFor state.config.world.events 7).isEmpty) (by decide)
  simp only [Bool.and_eq_true, beq_iff_eq, List.isEmpty_iff] at htest
  obtain ⟨⟨⟨hexpired, hpassed⟩, hfaultless⟩, hempty⟩ := htest
  exact ⟨state, hreach, hexpired, hpassed, hfaultless, hempty⟩

end Run

end StellarPay
