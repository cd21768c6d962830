import StellarPay.Runtime.Instants
import StellarPay.Runs.Ordering
import StellarPay.Runs.Redelivery

/-!
# Instants in order

Payments and events carry the instants of what has happened to them, read off the clock by several
tasks at several moments. If the clock does not go back, no instant contradicts the order of what
it stands for: a transition is not older than its payment, an event is not older than its
transition, a delivery is not older than its event, and nothing is dated in the future.
-/

namespace StellarPay

open Interleaving EventLaws

section Rules

variable (σ ε : Type) [PaymentRepository σ] [WebhookEventRepository ε] [Platform] [EventLaws ε]

/-- The services, with the identifiers of new payments and of new events fresh. -/
def datedRules : Rules (machine σ ε) :=
  ⟨fun call => call.direct = false, fun env _ request world =>
    FreshId request world ∧ FreshEvent env request world⟩

instance : DecidablePred (datedRules σ ε).admits :=
  fun call => inferInstanceAs (Decidable (call.direct = false))

instance (env : Env) (span : Option Uuid) (request : Request) (world : World σ ε) :
    Decidable ((datedRules σ ε).permits env span request world) :=
  inferInstanceAs (Decidable (FreshId request world ∧ FreshEvent env request world))

end Rules

section Creation

variable {σ ε : Type} [PaymentRepository σ] [WebhookEventRepository ε] [EventLaws ε]

/-- From one world to another every payment and every event keeps the time of its creation. -/
structure KeepsCreation (before after : World σ ε) : Prop where
  payments : ∀ id payment, stored before.payments id = some payment →
    ∃ later, stored after.payments id = some later ∧ later.createdAt = payment.createdAt
  events : ∀ id record, found before.events id = some record →
    ∃ later, found after.events id = some later ∧ later.createdAt = record.createdAt

theorem KeepsCreation.refl (world : World σ ε) : KeepsCreation world world :=
  ⟨fun _ payment h => ⟨payment, h, rfl⟩, fun _ record h => ⟨record, h, rfl⟩⟩

theorem KeepsCreation.trans {first second third : World σ ε} (h : KeepsCreation first second)
    (h' : KeepsCreation second third) : KeepsCreation first third := by
  refine ⟨fun id payment hstored => ?_, fun id record hfound => ?_⟩
  · obtain ⟨later, hlater, hcreated⟩ := h.payments id payment hstored
    obtain ⟨last, hlast, hcreated'⟩ := h'.payments id later hlater
    exact ⟨last, hlast, hcreated'.trans hcreated⟩
  · obtain ⟨later, hlater, hcreated⟩ := h.events id record hfound
    obtain ⟨last, hlast, hcreated'⟩ := h'.events id later hlater
    exact ⟨last, hlast, hcreated'.trans hcreated⟩

variable [RepositoryLaws σ] [DeliveryLaws ε]

/-- So it is with every request. -/
theorem answer_keeps_creation {env : Env} {request : Request} {world : World σ ε}
    (hfresh : FreshId request world) (hevent : FreshEvent env request world) :
    KeepsCreation world (answer env request world).2 := by
  refine ⟨fun id payment hstored => ?_, fun id record hfound => ?_⟩
  · rcases answer_cases env request world id with
      hsame | ⟨_, _, _, rfl, rfl, -, -, -, -⟩ | ⟨source, _, _, _, -, hsource, -, hafter, -⟩
    · exact ⟨payment, hsame.trans hstored, rfl⟩
    · cases hstored.symm.trans hfresh
    · cases hstored.symm.trans hsource
      exact ⟨_, hafter, rfl⟩
  · rcases answer_found_cases env request world id with
      hsame | ⟨_, _, _, _, rfl, rfl, -, -⟩ | ⟨_, -, -, hafter⟩ | ⟨_, -, -, hafter⟩
    · exact ⟨record, hsame.trans hfound, rfl⟩
    · cases hfound.symm.trans hevent
    all_goals
      rw [hfound] at hafter
      exact ⟨_, hafter, rfl⟩

variable [Platform] {world : World σ ε} {state : State (machine σ ε)}

/-- And from what one request of a run meets to what a later one meets. -/
theorem creation_kept (hreach : Reachable (datedRules σ ε) world state)
    {first second : Act (machine σ ε)}
    (hsublist : [.act first, .act second].Sublist state.config.trace) :
    KeepsCreation first.before second.before := by
  have hevents : ∀ event ∈ state.config.trace, KeepsCreation event.before event.after := by
    intro event hevent
    cases event with
    | start => exact .refl _
    | act act =>
        obtain ⟨hfresh, hnew⟩ := hreach.permitted hevent
        exact answer_keeps_creation hfresh hnew
  have hpairs := hreach.linked.pairwise_events KeepsCreation .refl .trans hevents
  exact (hevents _ (hsublist.subset List.mem_cons_self)).trans (hpairs.forall_sublist hsublist)

end Creation

section Readings

variable {σ ε : Type} [PaymentRepository σ] [WebhookEventRepository ε] [Platform]

/-- The instant was read off the clock during the history, as a store keeps it. -/
def ReadOff (keep : DateTime → DateTime) (history : List (Event (machine σ ε)))
    (instant : DateTime) : Prop :=
  ∃ look : Act (machine σ ε), .act look ∈ history ∧ instant = keep look.env.now

/-- What a thread has done before a request comes before it in the history. -/
theorem before_of_own {state : State (machine σ ε)} {act other : Act (machine σ ε)}
    {earlier later : List (Event (machine σ ε))}
    (hown : state.config.own act.thread = earlier ++ .act act :: later)
    (hother : .act other ∈ earlier) :
    [.act other, .act act].Sublist state.config.trace ∧ other.thread = act.thread := by
  have hall : (state.config.own act.thread).Sublist state.config.trace := List.filter_sublist
  refine ⟨List.Sublist.trans ?_ hall, ?_⟩
  · rw [hown]
    exact (List.singleton_sublist.mpr hother).append
      (List.singleton_sublist.mpr List.mem_cons_self)
  · exact (Config.mem_own.mp (hown ▸ List.mem_append_left _ hother)).2

end Readings

/-- The instants of what has happened to a payment. -/
def Payment.instants (payment : Payment) : List DateTime :=
  [payment.createdAt, payment.updatedAt]

/-- The instants of what has happened to an event: the next attempt is still to come. -/
def WebhookEventRecord.instants (record : WebhookEventRecord) : List DateTime :=
  record.createdAt :: record.updatedAt :: record.deliveredAt.toList

theorem Payment.created_mem (payment : Payment) : payment.createdAt ∈ payment.instants :=
  List.mem_cons_self

theorem WebhookEventRecord.created_mem (record : WebhookEventRecord) :
    record.createdAt ∈ record.instants :=
  List.mem_cons_self

section Payments

variable {σ ε : Type} [PaymentRepository σ] [WebhookEventRepository ε] [Platform]
  [RepositoryLaws σ] [InstantLaws σ] [EventLaws ε] [DeliveryLaws ε] {rules : Rules (machine σ ε)}
  {world : World σ ε} {state : State (machine σ ε)}

omit [EventLaws ε] [DeliveryLaws ε] in
/-- The instants of a stored payment were read off the clock. -/
theorem payment_read_off (hreach : Reachable rules world state)
    (hempty : ∀ id, stored world.payments id = none) {id : Uuid} {payment : Payment}
    (hstored : stored state.config.world.payments id = some payment) :
    ∀ instant ∈ payment.instants, ReadOff (InstantLaws.time σ) state.config.trace instant := by
  refine hreach.linked.keeps (fun seen : World σ ε => ∀ payment,
    stored seen.payments id = some payment → ∀ instant ∈ payment.instants,
      ReadOff (InstantLaws.time σ) state.config.trace instant) ?_ ?_ payment hstored
  · intro event hevent hbefore payment hafter
    cases event with
    | start => exact hbefore payment hafter
    | act act =>
        rcases answer_cases act.env act.request act.before id with
          hsame | ⟨new, key, created, hrequest, -, -, -, hcreated, hanswer⟩ |
          ⟨source, next, hash, time, hrequest, hsource, -, hmoved, hanswer⟩
        · exact hbefore payment (hsame.symm.trans hafter)
        · cases hcreated.symm.trans hafter
          obtain ⟨hfirst, hlast⟩ := answer_create_times hanswer
          obtain ⟨earlier, later, hown, hstamped⟩ := stamped_of_mem hreach hevent
          rw [hrequest] at hstamped
          obtain ⟨hequal, look, hlook, hnow⟩ := hstamped
          have hmem : .act look ∈ state.config.trace :=
            Config.mem_of_own (hown ▸ List.mem_append_left _ hlook)
          have hread : ReadOff (InstantLaws.time σ) state.config.trace payment.createdAt :=
            ⟨look, hmem, hfirst.trans (congrArg _ (now_of_reading hnow).symm)⟩
          have hupdated : payment.updatedAt = payment.createdAt := by rw [hlast, hfirst, hequal]
          simpa [Payment.instants, hupdated] using hread
        · cases hmoved.symm.trans hafter
          have hread : ReadOff (InstantLaws.time σ) state.config.trace
              (source.moved next hash time).updatedAt := ⟨act, hevent, answer_update_time hanswer⟩
          have hcreated := hbefore source hsource _ source.created_mem
          intro instant hinstant
          rcases List.mem_pair.mp hinstant with rfl | rfl
          · exact hcreated
          · exact hread
  · intro payment hstored
    cases (hempty id).symm.trans hstored

variable (hmono : ∀ first second, first ≤ second →
  InstantLaws.time σ first ≤ InstantLaws.time σ second)

omit [EventLaws ε] [DeliveryLaws ε] in
include hmono in
/-- A request that the store does not date meets no payment of a later time. -/
theorem payment_not_later (hreach : Reachable rules world state)
    (hempty : ∀ id, stored world.payments id = none) (hclock : ClockOrdered state.config.trace)
    {act : Act (machine σ ε)} (hact : .act act ∈ state.config.trace)
    (hdated : act.request.datedByStore = false) {id : Uuid} {payment : Payment}
    (hstored : stored act.before.payments id = some payment) :
    ∀ instant ∈ payment.instants, instant ≤ InstantLaws.time σ act.env.now := by
  intro instant hinstant
  obtain ⟨seen, hseen, hworld, hbefore⟩ := hreach.met_by_act hact
  obtain ⟨look, hlook, rfl⟩ := payment_read_off hseen hempty (hworld ▸ hstored) instant hinstant
  exact hmono _ _ (Ascending.le hclock (hbefore look hlook) hdated)

omit [InstantLaws σ] [DeliveryLaws ε] in
/-- A service has met the payment that it moves. -/
theorem met_before_update (hreach : Reachable (datedRules σ ε) world state)
    {act : Act (machine σ ε)} (hact : .act act ∈ state.config.trace) {id : Uuid}
    {next : PaymentStatus} {hash : Option String}
    (hrequest : act.request = .guardedUpdate id next hash) :
    ∃ look, [.act look, .act act].Sublist state.config.trace ∧ look.thread = act.thread ∧
      look.request.datedByStore = false ∧
      ∃ payment, stored look.before.payments id = some payment := by
  obtain ⟨earlier, later, hown, hstamped⟩ := stamped_of_mem hreach hact
  rw [hrequest] at hstamped
  rcases hstamped with ⟨look, hlook, hdated, hmet⟩ | ⟨thread, before, hstart⟩
  · obtain ⟨hsublist, hthread⟩ := before_of_own hown hlook
    exact ⟨look, hsublist, hthread, hdated, hmet⟩
  · -- The update is not one that was called itself.
    obtain ⟨hmem, rfl⟩ := Config.mem_own.mp (hown ▸ List.mem_append_left _ hstart)
    obtain ⟨t, ht, hadmits, -⟩ := act_allowed hreach hact
    have hdirect : t.call.direct = false := hadmits
    rw [← (hreach.start_unique ht hmem hmem).1] at hdirect
    cases hdirect

include hmono in
/-- A payment is moved after its creation, at the time of the request. -/
theorem moved_in_order (hreach : Reachable (datedRules σ ε) world state)
    (hempty : ∀ id, stored world.payments id = none) (hclock : ClockOrdered state.config.trace)
    {act : Act (machine σ ε)} (hact : .act act ∈ state.config.trace) {id : Uuid}
    {next : PaymentStatus} {hash : Option String} {updated : Payment}
    (hgot : act.Got (.guardedUpdate id next hash) (.ok (some updated))) :
    updated.createdAt ≤ updated.updatedAt ∧
      updated.updatedAt = InstantLaws.time σ act.env.now := by
  have htime := answer_update_time hgot.2
  refine ⟨?_, htime⟩
  rcases answer_update act.env id next hash act.before with
    ⟨source, time, after, hanswer, hsource, -, -⟩ | ⟨hanswer, hnone⟩
  · have hmoved := (congrArg Prod.fst hanswer).symm.trans hgot.2
    cases hmoved
    obtain ⟨look, hsublist, hthread, hdated, payment, hmet⟩ :=
      met_before_update hreach hact hgot.1
    have hlook : .act look ∈ state.config.trace := hsublist.subset (by simp)
    have hcreated :=
      payment_not_later hmono hreach hempty hclock hlook hdated hmet _ payment.created_mem
    obtain ⟨last, hlast, hkept⟩ := (creation_kept hreach hsublist).payments id payment hmet
    cases hlast.symm.trans hsource
    exact (hkept ▸ hcreated).trans
      ((hmono _ _ (hclock.le_own hsublist hthread)).trans htime.ge)
  · exact absurd hgot.2 (hnone updated)

include hmono in
/-- A payment was not updated before it was created. -/
theorem payment_ordered (hreach : Reachable (datedRules σ ε) world state)
    (hempty : ∀ id, stored world.payments id = none) (hclock : ClockOrdered state.config.trace)
    {id : Uuid} {payment : Payment}
    (hstored : stored state.config.world.payments id = some payment) :
    payment.createdAt ≤ payment.updatedAt := by
  refine hreach.linked.keeps (fun seen : World σ ε => ∀ payment,
    stored seen.payments id = some payment → payment.createdAt ≤ payment.updatedAt)
    ?_ ?_ payment hstored
  · intro event hevent hbefore payment hafter
    cases event with
    | start => exact hbefore payment hafter
    | act act =>
        rcases answer_cases act.env act.request act.before id with
          hsame | ⟨new, key, created, hrequest, -, -, -, hcreated, hanswer⟩ |
          ⟨source, next, hash, time, hrequest, hsource, -, hmoved, hanswer⟩
        · exact hbefore payment (hsame.symm.trans hafter)
        · cases hcreated.symm.trans hafter
          obtain ⟨hfirst, hlast⟩ := answer_create_times hanswer
          obtain ⟨_, _, _, hstamped⟩ := stamped_of_mem hreach hevent
          rw [hrequest] at hstamped
          rw [hfirst, hlast, hstamped.1]
        · cases hmoved.symm.trans hafter
          exact (moved_in_order hmono hreach hempty hclock hevent ⟨hrequest, hanswer⟩).1
  · intro payment hstored
    cases (hempty id).symm.trans hstored

end Payments

section Events

variable {σ ε : Type} [PaymentRepository σ] [WebhookEventRepository ε] [Platform] [EventLaws ε]
  [DeliveryLaws ε] [RepositoryLaws σ] {rules : Rules (machine σ ε)} {world : World σ ε}
  {state : State (machine σ ε)}

/-- The instants of a stored event were read off the clock. -/
theorem event_read_off (hreach : Reachable rules world state)
    (hempty : ∀ id, found world.events id = none) {id : Uuid} {record : WebhookEventRecord}
    (hfound : found state.config.world.events id = some record) :
    ∀ instant ∈ record.instants, ReadOff (DeliveryLaws.time ε) state.config.trace instant := by
  refine hreach.linked.keeps (fun seen : World σ ε => ∀ record,
    found seen.events id = some record → ∀ instant ∈ record.instants,
      ReadOff (DeliveryLaws.time ε) state.config.trace instant) ?_ ?_ record hfound
  · intro event hevent hbefore record hafter
    cases event with
    | start => exact hbefore record hafter
    | act act =>
        have hnow : ReadOff (DeliveryLaws.time ε) state.config.trace
            (DeliveryLaws.time ε act.env.now) := ⟨act, hevent, rfl⟩
        rcases answer_found_cases act.env act.request act.before id with
          hsame | ⟨now, _, _, _, hrequest, -, -, hstored⟩ | ⟨deliveredAt, hrequest, -, hmarked⟩ |
          ⟨next, -, -, hmarked⟩
        · exact hbefore record (hsame.symm.trans hafter)
        · cases hstored.symm.trans hafter
          obtain ⟨earlier, _, hown, hstamped⟩ := stamped_of_mem hreach hevent
          rw [hrequest] at hstamped
          obtain ⟨past, look, rfl, hread⟩ := hstamped
          have hlook : .act look ∈ state.config.trace :=
            Config.mem_of_own (hown ▸ List.mem_append_left _ List.mem_concat_self)
          have hread : ReadOff (DeliveryLaws.time ε) state.config.trace
              (DeliveryLaws.time ε now) := ⟨look, hlook, by rw [now_of_reading hread]⟩
          simpa [WebhookEventRecord.instants, WebhookEventRecord.enqueued] using hread
        · obtain ⟨earlier, hearlier, rfl⟩ := Option.map_eq_some_iff.mp (hmarked.symm.trans hafter)
          obtain ⟨_, _, hown, hstamped⟩ := stamped_of_mem hreach hevent
          rw [hrequest] at hstamped
          obtain ⟨look, ⟨-, fetch, hsublist, -⟩, rfl⟩ := hstamped
          have hlook : .act look ∈ state.config.trace :=
            Config.mem_of_own (hown ▸ List.mem_append_left _ (hsublist.subset (by simp)))
          have hread : ReadOff (DeliveryLaws.time ε) state.config.trace
              (DeliveryLaws.time ε look.env.now) := ⟨look, hlook, rfl⟩
          have hcreated := hbefore earlier hearlier _ earlier.created_mem
          simpa [WebhookEventRecord.instants, WebhookEventRecord.delivered] using
            ⟨hcreated, hread⟩
        · obtain ⟨earlier, hearlier, rfl⟩ := Option.map_eq_some_iff.mp (hmarked.symm.trans hafter)
          have hold := hbefore earlier hearlier
          simp only [WebhookEventRecord.instants, List.forall_mem_cons] at hold
          simpa [WebhookEventRecord.instants, WebhookEventRecord.failed] using
            ⟨hold.1, hnow, by simpa using hold.2.2⟩
  · intro record hfound
    cases (hempty id).symm.trans hfound

variable (hmono : ∀ first second, first ≤ second →
  DeliveryLaws.time ε first ≤ DeliveryLaws.time ε second)

include hmono in
/-- A request that the store does not date meets no event of a later time. -/
theorem event_not_later (hreach : Reachable rules world state)
    (hempty : ∀ id, found world.events id = none) (hclock : ClockOrdered state.config.trace)
    {act : Act (machine σ ε)} (hact : .act act ∈ state.config.trace)
    (hdated : act.request.datedByStore = false) {id : Uuid} {record : WebhookEventRecord}
    (hfound : found act.before.events id = some record) :
    ∀ instant ∈ record.instants, instant ≤ DeliveryLaws.time ε act.env.now := by
  intro instant hinstant
  obtain ⟨seen, hseen, hworld, hbefore⟩ := hreach.met_by_act hact
  obtain ⟨look, hlook, rfl⟩ := event_read_off hseen hempty (hworld ▸ hfound) instant hinstant
  exact hmono _ _ (Ascending.le hclock (hbefore look hlook) hdated)

include hmono in
/-- An event that a thread has fetched was created no later than that. -/
theorem created_le_fetch (hreach : Reachable (datedRules σ ε) world state)
    (hempty : ∀ id, found world.events id = none) (hclock : ClockOrdered state.config.trace)
    {act fetch : Act (machine σ ε)} {earlier later : List (Event (machine σ ε))}
    (hown : state.config.own act.thread = earlier ++ .act act :: later) {id : Uuid}
    (hfetched : Fetched earlier id fetch) {record : WebhookEventRecord}
    (hfound : found act.before.events id = some record) :
    record.createdAt ≤ DeliveryLaws.time ε fetch.env.now := by
  obtain ⟨hfetch, now, batch, hgot, fetched, hbatch, rfl⟩ := hfetched
  obtain ⟨hsublist, -⟩ := before_of_own hown hfetch
  have hmem : .act fetch ∈ state.config.trace := hsublist.subset List.mem_cons_self
  have hmet := ((answer_fetch_due hgot.2).2 fetched hbatch).1
  -- The event that is marked is the one that was fetched, and it has kept its time since.
  obtain ⟨last, hlast, hcreated⟩ := (creation_kept hreach hsublist).events fetched.id fetched hmet
  cases hlast.symm.trans hfound
  rw [hcreated]
  exact event_not_later hmono hreach hempty hclock hmem (by rw [hgot.1]; rfl) hmet _
    fetched.created_mem

include hmono in
/-- The reading that stamps an outcome is not earlier than the event. -/
theorem created_le_outcome (hreach : Reachable (datedRules σ ε) world state)
    (hempty : ∀ id, found world.events id = none) (hclock : ClockOrdered state.config.trace)
    {act look : Act (machine σ ε)} {earlier later : List (Event (machine σ ε))}
    (hown : state.config.own act.thread = earlier ++ .act act :: later) {id : Uuid}
    (hread : ReadAfterFetch earlier id look) {record : WebhookEventRecord}
    (hfound : found act.before.events id = some record) :
    record.createdAt ≤ DeliveryLaws.time ε look.env.now := by
  obtain ⟨hrequest, fetch, hsublist, hfetched⟩ := hread
  have hprefix : earlier.Sublist (state.config.own act.thread) :=
    hown ▸ List.sublist_append_left _ _
  have hevery : (state.config.own act.thread).Sublist state.config.trace := List.filter_sublist
  have horder := (hsublist.trans hprefix).trans hevery
  have hnotLater := created_le_fetch hmono hreach hempty hclock hown hfetched hfound
  exact hnotLater.trans (hmono _ _ (Ascending.le hclock horder (by rw [hrequest]; rfl)))

/-- The instants of an event are in order. -/
structure WebhookEventRecord.InOrder (record : WebhookEventRecord) : Prop where
  updated : record.createdAt ≤ record.updatedAt
  delivered : ∀ deliveredAt ∈ record.deliveredAt, record.createdAt ≤ deliveredAt
  next : ∀ next ∈ record.nextAttemptAt, record.createdAt ≤ next

include hmono in
/-- The instants of every stored event are. -/
theorem event_in_order (hreach : Reachable (datedRules σ ε) world state)
    (hempty : ∀ id, found world.events id = none) (hclock : ClockOrdered state.config.trace)
    {id : Uuid} {record : WebhookEventRecord}
    (hfound : found state.config.world.events id = some record) : record.InOrder := by
  refine hreach.linked.keeps (fun seen : World σ ε => ∀ record,
    found seen.events id = some record → record.InOrder) ?_ ?_ record hfound
  · intro event hevent hbefore record hafter
    cases event with
    | start => exact hbefore record hafter
    | act act =>
        obtain ⟨_, _, hown, hstamped⟩ := stamped_of_mem hreach hevent
        rcases answer_found_cases act.env act.request act.before id with
          hsame | ⟨_, _, _, _, -, -, -, hstored⟩ | ⟨deliveredAt, hrequest, -, hmarked⟩ |
          ⟨next, hrequest, -, hmarked⟩
        · exact hbefore record (hsame.symm.trans hafter)
        · cases hstored.symm.trans hafter
          refine ⟨le_rfl, fun _ hnone => (nomatch hnone), fun next hnext => ?_⟩
          exact (Option.mem_some.mp hnext).le
        · obtain ⟨earlier, hearlier, rfl⟩ := Option.map_eq_some_iff.mp (hmarked.symm.trans hafter)
          rw [hrequest] at hstamped
          obtain ⟨look, hread, rfl⟩ := hstamped
          have hle := created_le_outcome hmono hreach hempty hclock hown hread hearlier
          refine ⟨hle, fun _ hdelivered => ?_, fun _ hnone => (nomatch hnone)⟩
          obtain rfl := Option.mem_some.mp hdelivered
          exact hle
        · obtain ⟨earlier, hearlier, rfl⟩ := Option.map_eq_some_iff.mp (hmarked.symm.trans hafter)
          -- The store dates the failure after the fetch. A delivery by another loop is kept.
          obtain ⟨fetch, hfetched⟩ := fetched_of_failure (hrequest ▸ hstamped)
          obtain ⟨hsublist, hthread⟩ := before_of_own hown hfetched.1
          have hcreated := created_le_fetch hmono hreach hempty hclock hown hfetched hearlier
          refine ⟨hcreated.trans (hmono _ _ (hclock.le_own hsublist hthread)),
            (hbefore earlier hearlier).delivered, fun due hdue => ?_⟩
          obtain ⟨next, rfl, rfl⟩ := Option.map_eq_some_iff.mp (Option.mem_def.mp hdue)
          rw [hrequest] at hstamped
          obtain ⟨look, hread, hnext⟩ := hstamped
          exact (created_le_outcome hmono hreach hempty hclock hown hread hearlier).trans
            (hmono _ _ hnext)
  · intro record hfound
    cases (hempty id).symm.trans hfound

end Events

section Told

variable {σ ε : Type} [PaymentRepository σ] [WebhookEventRepository ε] [Platform]
  [RepositoryLaws σ] [InstantLaws σ] [EventLaws ε] [DeliveryLaws ε] {world : World σ ε}
  {state : State (machine σ ε)}
  (hmono : ∀ first second, first ≤ second →
    DeliveryLaws.time ε first ≤ DeliveryLaws.time ε second)
  (hsame : ∀ instant, InstantLaws.time σ instant = DeliveryLaws.time ε instant)

include hmono hsame in
/-- An event is not older than the transition it tells of, nor this than the payment. -/
theorem told_in_order (hreach : Reachable (datedRules σ ε) world state)
    (hpayments : ∀ id, stored world.payments id = none)
    (hempty : ∀ id, found world.events id = none) (hclock : ClockOrdered state.config.trace)
    {id : Uuid} {record : WebhookEventRecord}
    (hfound : found state.config.world.events id = some record) :
    ∃ told : Payment, told.id = record.paymentId ∧
      (record.payload.field "data").bind (Value.field "payment") = some told.toJson ∧
      told.createdAt ≤ told.updatedAt ∧ told.updatedAt ≤ record.createdAt := by
  obtain ⟨position, hstored⟩ := stored_of_found hreach hempty hfound
  obtain ⟨reading, -, hread⟩ := hstored.read hreach
  obtain ⟨earlier, hlt, commit, told, hposition, hcommitted, hid, -, hpayload⟩ :=
    hread.committed hreach
  obtain ⟨look, hlook, hrequest, hcreated⟩ := hread.created
  obtain ⟨move, target, next, hash, rfl, hgot⟩ := committed_eq_some hcommitted
  have htimes : ∀ first second, first ≤ second →
      InstantLaws.time σ first ≤ InstantLaws.time σ second := by
    simpa only [hsame] using hmono
  obtain ⟨horder, htime⟩ := moved_in_order htimes hreach hpayments hclock
    (List.mem_of_getElem? hposition) hgot
  refine ⟨told, hid, hpayload, horder, ?_⟩
  rw [htime, hcreated, hsame]
  exact hmono _ _ (hclock.le hposition hlook hlt (by rw [hrequest]; rfl))

/-- No instant contradicts the order of what it stands for, and nothing is dated in the future. -/
structure InstantsInOrder (now : DateTime) (world : World σ ε) : Prop where
  /-- No payment was updated before it was created. -/
  payments : ∀ id payment, stored world.payments id = some payment →
    payment.createdAt ≤ payment.updatedAt ∧ payment.updatedAt ≤ now
  /-- No event was delivered, is to be sent or was updated before it was created. -/
  events : ∀ id record, found world.events id = some record →
    record.InOrder ∧ record.updatedAt ≤ now
  /-- No event was created before the transition that it tells of. -/
  told : ∀ id record, found world.events id = some record → ∃ told : Payment,
    told.id = record.paymentId ∧
    (record.payload.field "data").bind (Value.field "payment") = some told.toJson ∧
    told.createdAt ≤ told.updatedAt ∧ told.updatedAt ≤ record.createdAt

include hmono hsame in
/-- In a run over empty stores whose clock does not go back this is so. -/
theorem in_order_of_clock (hreach : Reachable (datedRules σ ε) world state)
    (hpayments : ∀ id, stored world.payments id = none)
    (hempty : ∀ id, found world.events id = none) (hclock : ClockOrdered state.config.trace)
    {now : DateTime} (hnow : ∀ act, .act act ∈ state.config.trace → act.env.now ≤ now) :
    InstantsInOrder (DeliveryLaws.time ε now) state.config.world := by
  have htimes : ∀ first second, first ≤ second →
      InstantLaws.time σ first ≤ InstantLaws.time σ second := by
    simpa only [hsame] using hmono
  refine ⟨fun id payment hstored => ?_, fun id record hfound => ?_, fun id record hfound => ?_⟩
  · refine ⟨payment_ordered htimes hreach hpayments hclock hstored, ?_⟩
    obtain ⟨look, hlook, heq⟩ := payment_read_off hreach hpayments hstored payment.updatedAt
      (by simp [Payment.instants])
    rw [heq, hsame]
    exact hmono _ _ (hnow look hlook)
  · refine ⟨event_in_order hmono hreach hempty hclock hfound, ?_⟩
    obtain ⟨look, hlook, heq⟩ := event_read_off hreach hempty hfound record.updatedAt
      (by simp [WebhookEventRecord.instants])
    rw [heq]
    exact hmono _ _ (hnow look hlook)
  · exact told_in_order hmono hsame hreach hpayments hempty hclock hfound

end Told

section Backends

variable [Platform]

/-- On either backend, in every run from empty stores whose clock does not go back, whatever is
called, interleaved and fails: the instants in the stores are in the order of what they stand for,
and none is later than the clock. -/
theorem instants_in_order (backend : Backend)
    (hmono : ∀ first second, first ≤ second →
      Platform.timestamptz first ≤ Platform.timestamptz second) {state : State backend.machine}
    (hreach : Reachable (datedRules backend.Payments backend.Events) backend.empty state)
    (hclock : ClockOrdered state.config.trace) {now : DateTime}
    (hnow : ∀ act, .act act ∈ state.config.trace → act.env.now ≤ now) :
    InstantsInOrder (DeliveryLaws.time backend.Events now) state.config.world :=
  in_order_of_clock (backend.time_mono hmono) backend.same_time hreach backend.stored_empty
    backend.found_empty hclock hnow

end Backends

section Run

attribute [local instance] Plain.platform

open Plain

/-- The event was not made after this time. -/
def madeBy (now : DateTime) : Event Backend.postgres.machine → Bool
  | .act act => act.env.now ≤ now
  | .start _ _ _ => true

/-- At the end of `doubleDelivery` the event has been delivered, and is to be sent again. -/
theorem instants_in_order_double : ∃ state : State Backend.postgres.machine,
    (found state.config.world.events 9).map (fun record =>
      (record.createdAt, record.deliveredAt, record.updatedAt, record.nextAttemptAt)) =
        some (6000, some 8000, 9000, some 60000009000) ∧
    InstantsInOrder (DeliveryLaws.time Backend.postgres.Events 9000) state.config.world := by
  obtain ⟨state, hreach, htest⟩ := exists_reachable
    (datedRules Backend.postgres.Payments Backend.postgres.Events) doubleDelivery
    Backend.postgres.empty (fun state => decide (ClockOrdered state.config.trace) &&
      state.config.trace.all (madeBy 9000) &&
      (found state.config.world.events 9).map (fun record =>
        (record.createdAt, record.deliveredAt, record.updatedAt, record.nextAttemptAt)) ==
          some (6000, some 8000, 9000, some 60000009000)) (by decide +kernel)
  simp only [Bool.and_eq_true, beq_iff_eq, decide_eq_true_eq, List.all_eq_true] at htest
  obtain ⟨⟨hclock, hmade⟩, hrecord⟩ := htest
  have hnow : ∀ act, .act act ∈ state.config.trace → act.env.now ≤ 9000 :=
    fun act hact => of_decide_eq_true (hmade _ hact)
  exact ⟨state, hrecord, instants_in_order .postgres timestamptz_mono hreach hclock hnow⟩

end Run

end StellarPay
