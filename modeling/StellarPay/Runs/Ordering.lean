import StellarPay.Runs.Notifications
import StellarPay.Runs.Readings
import StellarPay.Runtime.EventFrames

/-!
# The order of notifications

A listing has the events of a payment in the order in which the clock was read for them, which is
the order of the commits only if no other pass comes between a commit and the reading for its event.
Positions in the history stand for points in time.
-/

namespace StellarPay

open Interleaving

section Lists

variable {α : Type}

/-- Of two different elements of a list one comes before the other. -/
theorem sublist_or_sublist {list : List α} {a b : α} (ha : a ∈ list) (hb : b ∈ list)
    (hne : a ≠ b) : [a, b].Sublist list ∨ [b, a].Sublist list := by
  obtain ⟨before, after, rfl⟩ := List.append_of_mem ha
  rcases List.mem_append.mp hb with hb | hb
  · refine .inr ((List.singleton_sublist.mpr hb).append ?_)
    exact List.singleton_sublist.mpr List.mem_cons_self
  · have hafter := (List.mem_cons.mp hb).resolve_left hne.symm
    refine .inl (List.sublist_append_of_sublist_right ?_)
    exact (List.singleton_sublist.mpr hafter).cons_cons a

/-- The last element that a filter leaves, and the elements after it that it drops. -/
theorem filter_concat {property : α → Bool} {list past : List α} {last : α}
    (h : list.filter property = past ++ [last]) :
    ∃ first rest, list = first ++ last :: rest ∧ first.filter property = past ∧
      property last = true ∧ ∀ a ∈ rest, property a = false := by
  obtain ⟨first, tail, rfl, hfirst, htail⟩ := List.filter_eq_append_iff.mp h
  obtain ⟨dropped, rest, rfl, hdropped, hlast, hrest⟩ := List.filter_eq_cons_iff.mp htail
  refine ⟨first ++ dropped, rest, by simp, ?_, hlast, ?_⟩
  · rw [List.filter_append, hfirst, List.filter_eq_nil_iff.mpr hdropped, List.append_nil]
  · simpa using List.filter_eq_nil_iff.mp hrest

end Lists

section Positions

variable {σ ε : Type} [PaymentRepository σ] [WebhookEventRepository ε] [Platform]

/-- The clock at two positions, of which the second is not one of a write that the store dates. -/
theorem ClockOrdered.le {history : List (Event (machine σ ε))} (h : ClockOrdered history)
    {first second : Nat} {act act' : Act (machine σ ε)} (hfirst : history[first]? = some (.act act))
    (hsecond : history[second]? = some (.act act')) (hlt : first < second)
    (hdated : act'.request.datedByStore = false) : act.env.now ≤ act'.env.now :=
  pairwise_at (List.pairwise_filterMap.mp h) hfirst hsecond hlt _ rfl _ rfl
    fun hlate => absurd hlate (by simp [hdated])

/-- The request stored the event of this record, dated like this. -/
def StoresDated (act : Act (machine σ ε)) (record : WebhookEventRecord) (now : DateTime) : Prop :=
  ∃ stored, act.Got (.enqueue now record.paymentId record.eventType record.payload) (.ok stored) ∧
    stored.id = record.id ∧ stored.createdAt = record.createdAt

/-- The event of this record was stored at this position. -/
def StoredAt (history : List (Event (machine σ ε))) (record : WebhookEventRecord)
    (position : Nat) : Prop :=
  ∃ act now, history[position]? = some (.act act) ∧ StoresDated act record now

/-- The clock was read for this record at this position: what its thread did next was to store the
event, dated by the reading. -/
def ReadAt (history : List (Event (machine σ ε))) (record : WebhookEventRecord)
    (position : Nat) : Prop :=
  ∃ look store now, history[position]? = some (.act look) ∧ look.Got .utcNow now ∧
    (history.drop (position + 1)).find? (fun event => event.thread = look.thread) =
      some (.act store) ∧ StoresDated store record now

/-- The transition that this record tells of was committed at this position. -/
def CommittedAt (history : List (Event (machine σ ε))) (record : WebhookEventRecord)
    (position : Nat) : Prop :=
  ∃ event updated, history[position]? = some event ∧ committed event = some updated ∧
    updated.id = record.paymentId ∧ (eventFor updated).eventType = record.eventType ∧
    (record.payload.field "data").bind (Value.field "payment") = some updated.toJson

/-- What the order of a listing says about a history. -/
structure ListedAsRead (history : List (Event (machine σ ε)))
    (records : List WebhookEventRecord) : Prop where
  /-- The event of every record that is listed was stored at some point. -/
  stored : ∀ record ∈ records, ∃ position, StoredAt history record position
  /-- The clock was read for it before that. -/
  read : ∀ record position, StoredAt history record position →
    ∃ earlier < position, ReadAt history record earlier
  /-- Its transition was committed before the clock was read. -/
  committed : ∀ record position, ReadAt history record position →
    ∃ earlier < position, CommittedAt history record earlier
  /-- The records are listed in the order in which the clock was read for them. -/
  order : ∀ first ∈ records, ∀ second ∈ records, first ≠ second → ∀ position later,
    ReadAt history first position → ReadAt history second later →
      ([first, second].Sublist records ↔ position < later)
  /-- If the clock was read for a record before a later transition was committed, it is listed
  before the record of that transition. -/
  in_time : ∀ first ∈ records, ∀ second ∈ records, ∀ position later,
    ReadAt history first position → CommittedAt history second later → position < later →
      [first, second].Sublist records

variable [EventLaws ε] [DeliveryLaws ε] {rules : Rules (machine σ ε)} {world : World σ ε}
  {state : State (machine σ ε)}

/-- Every record of a store that was empty at first was stored during the run. -/
theorem stored_of_found (hreach : Reachable rules world state)
    (hempty : ∀ id, EventLaws.found world.events id = none) {id : Uuid}
    {record : WebhookEventRecord}
    (hfound : EventLaws.found state.config.world.events id = some record) :
    ∃ position, StoredAt state.config.trace record position := by
  refine hreach.linked.keeps (fun seen : World σ ε => ∀ id record,
    EventLaws.found seen.events id = some record →
      ∃ position, StoredAt state.config.trace record position) ?_ ?_ id record hfound
  · intro event hevent hbefore id record hafter
    cases event with
    | start => exact hbefore id record hafter
    | act act =>
        rcases answer_found_cases act.env act.request act.before id with
          hsame | ⟨now, paymentId, eventType, payload, hrequest, -, hanswer, hstored⟩ |
          ⟨deliveredAt, -, -, hmarked⟩ | ⟨next, -, -, hmarked⟩
        · exact hbefore id record (hsame.symm.trans hafter)
        · cases hstored.symm.trans hafter
          obtain ⟨position, hposition⟩ := List.getElem?_of_mem hevent
          exact ⟨position, act, now, hposition, _, ⟨hrequest, hanswer⟩, rfl, rfl⟩
        · obtain ⟨earlier, hearlier, rfl⟩ := Option.map_eq_some_iff.mp (hmarked.symm.trans hafter)
          obtain ⟨position, hposition⟩ := hbefore id earlier hearlier
          exact ⟨position, hposition⟩
        · obtain ⟨earlier, hearlier, rfl⟩ := Option.map_eq_some_iff.mp (hmarked.symm.trans hafter)
          obtain ⟨position, hposition⟩ := hbefore id earlier hearlier
          exact ⟨position, hposition⟩
  · intro id record hfound
    cases (hempty id).symm.trans hfound

/-- The store keeps the time that was read off the clock for an event. -/
theorem ReadAt.created {history : List (Event (machine σ ε))} {record : WebhookEventRecord}
    {position : Nat} (h : ReadAt history record position) :
    ∃ look, history[position]? = some (.act look) ∧ look.request = .utcNow ∧
      record.createdAt = DeliveryLaws.time ε look.env.now := by
  obtain ⟨look, store, now, hposition, hlook, -, stored, hgot, -, hcreated⟩ := h
  have hrecord := answer_enqueue_record hgot.2
  refine ⟨look, hposition, hlook.1, ?_⟩
  rw [← hcreated, hrecord, now_of_reading hlook]
  rfl

/-- The times of two records follow the positions at which the clock was read for them. -/
theorem ReadAt.created_le {first second : WebhookEventRecord} {position later : Nat}
    (htime : ∀ first second, first ≤ second →
      DeliveryLaws.time ε first ≤ DeliveryLaws.time ε second)
    (hclock : ClockOrdered state.config.trace)
    (hfirst : ReadAt state.config.trace first position)
    (hsecond : ReadAt state.config.trace second later) (hlt : position < later) :
    first.createdAt ≤ second.createdAt := by
  obtain ⟨look, hlook, -, hcreated⟩ := hfirst.created
  obtain ⟨look', hlook', hrequest, hcreated'⟩ := hsecond.created
  rw [hcreated, hcreated']
  exact htime _ _ (hclock.le hlook hlook' hlt (by rw [hrequest]; rfl))

/-- Records that one reading was made for have one time. -/
theorem ReadAt.created_eq {first second : WebhookEventRecord} {position : Nat}
    (hfirst : ReadAt state.config.trace first position)
    (hsecond : ReadAt state.config.trace second position) :
    first.createdAt = second.createdAt := by
  obtain ⟨look, hlook, -, hcreated⟩ := hfirst.created
  obtain ⟨look', hlook', -, hcreated'⟩ := hsecond.created
  cases hlook.symm.trans hlook'
  rw [hcreated, hcreated']

/-- A list in the order of its times is in the order in which the clock was read for the records. -/
theorem sublist_iff_read_before {records : List WebhookEventRecord}
    (htime : ∀ first second, first ≤ second →
      DeliveryLaws.time ε first ≤ DeliveryLaws.time ε second)
    (hclock : ClockOrdered state.config.trace)
    (hsorted : records.Pairwise fun first second => first.createdAt < second.createdAt)
    {first second : WebhookEventRecord} (hfirst : first ∈ records) (hsecond : second ∈ records)
    (hne : first ≠ second) {position later : Nat}
    (hread : ReadAt state.config.trace first position)
    (hread' : ReadAt state.config.trace second later) :
    [first, second].Sublist records ↔ position < later := by
  constructor
  · intro hsublist
    have hlt := hsorted.forall_sublist hsublist
    by_contra hnot
    rcases Nat.lt_or_eq_of_le (Nat.not_lt.mp hnot) with hgt | rfl
    · exact absurd (hread'.created_le htime hclock hread hgt) (not_le.mpr hlt)
    · exact absurd hlt (hread.created_eq hread' ▸ lt_irrefl _)
  · intro hlt
    have hle := hread.created_le htime hclock hread' hlt
    refine (sublist_or_sublist hfirst hsecond hne).resolve_right fun hsublist => ?_
    exact absurd (hsorted.forall_sublist hsublist) (not_lt.mpr hle)

variable [RepositoryLaws σ]

omit [EventLaws ε] [DeliveryLaws ε] in
/-- The clock was read for a record before its event was stored, and after its transition had been
committed. -/
theorem StoredAt.read (hreach : Reachable rules world state) {record : WebhookEventRecord}
    {position : Nat} (h : StoredAt state.config.trace record position) :
    ∃ earlier < position, ReadAt state.config.trace record earlier := by
  obtain ⟨store, now, hposition, hstores⟩ := h
  obtain ⟨before, after, htrace, rfl⟩ := split_at_position hposition
  obtain ⟨stored, hgot, -⟩ := id hstores
  have hstamped := clocked hreach store.thread _ store _ (Config.own_split htrace)
  rw [hgot.1] at hstamped
  obtain ⟨past, look, hpast, hlook⟩ := hstamped
  obtain ⟨first, rest, rfl, -, hthread, hrest⟩ := filter_concat hpast
  refine ⟨first.length, by simp, look, store, now, ?_, hlook, ?_, hstores⟩
  · simp [htrace]
  · have hsame : look.thread = store.thread := of_decide_eq_true hthread
    have hnone : rest.find? (fun event => event.thread = look.thread) = none := by
      rw [List.find?_eq_none, hsame]
      exact fun event hevent hother => of_decide_eq_false (hrest event hevent)
        (of_decide_eq_true hother)
    rw [htrace, List.append_assoc, List.cons_append, List.drop_length_add_append, List.drop_one,
      List.tail_cons, List.find?_append, hnone, Option.none_or, List.find?_cons_of_pos]
    exact decide_eq_true hsame.symm

omit [EventLaws ε] [DeliveryLaws ε] in
/-- The transition of a record was committed before the clock was read for it. -/
theorem ReadAt.committed (hreach : Reachable rules world state) {record : WebhookEventRecord}
    {position : Nat} (h : ReadAt state.config.trace record position) :
    ∃ earlier < position, CommittedAt state.config.trace record earlier := by
  obtain ⟨look, store, now, hposition, hlook, hfind, stored, hgot, -⟩ := h
  obtain ⟨before, after, htrace, rfl⟩ := split_at_position hposition
  rw [htrace, List.drop_length_add_append, List.drop_one, List.tail_cons] at hfind
  obtain ⟨hthread, middle, rest, rfl, hmiddle⟩ := List.find?_eq_some_iff_append.mp hfind
  have hsplit : state.config.trace = (before ++ .act look :: middle) ++ .act store :: rest := by
    simp [htrace]
  have hattempted : attempted (.act store) =
      some (record.paymentId, record.eventType, record.payload) := by
    obtain ⟨thread, span, request, env, world⟩ := store
    obtain rfl := hgot.1
    rfl
  obtain ⟨commit, hcommit, hown, updated, hcommitted, hid, htype, hpayload⟩ :=
    announced_by_thread hreach hsplit hattempted
  -- The reading is the last that the thread did before it stored the event, and it is no commit.
  have hbefore : commit ∈ before := by
    rcases List.mem_append.mp hcommit with hbefore | hafter
    · exact hbefore
    · rcases List.mem_cons.mp hafter with rfl | hafter
      · obtain ⟨_, _, _, _, hact, hupdate⟩ := committed_eq_some hcommitted
        cases hact
        cases hlook.1.symm.trans hupdate.1
      · have hother := hmiddle commit hafter
        simp [hown, of_decide_eq_true hthread] at hother
  obtain ⟨earlier, hearlier⟩ := List.getElem?_of_mem hbefore
  have hlt : earlier < before.length := (List.getElem?_eq_some_iff.mp hearlier).1
  refine ⟨earlier, hlt, commit, updated, ?_, hcommitted, hid, htype, hpayload⟩
  rw [htrace, List.getElem?_append_left hlt, hearlier]

omit [EventLaws ε] [DeliveryLaws ε] in
/-- A transition is committed at one position only. -/
theorem CommittedAt.unique (hreach : Reachable (freshRules σ ε) world state)
    {record : WebhookEventRecord} {first second : Nat}
    (hfirst : CommittedAt state.config.trace record first)
    (hsecond : CommittedAt state.config.trace record second) : first = second := by
  have hcommits : ∀ {position}, CommittedAt state.config.trace record position →
      ∃ event, state.config.trace[position]? = some event ∧
        commits record.paymentId record.eventType event = true := by
    rintro position ⟨event, updated, hposition, hcommitted, hid, htype, -⟩
    exact ⟨event, hposition, by simp [commits, hcommitted, hid, htype]⟩
  obtain ⟨event, hevent, hcommit⟩ := hcommits hfirst
  obtain ⟨event', hevent', hcommit'⟩ := hcommits hsecond
  have honce := commits_once hreach record.paymentId record.eventType
  rcases Nat.lt_trichotomy first second with hlt | heq | hgt
  · exact absurd (pairwise_at honce hevent hevent' hlt hcommit) (by simp [hcommit'])
  · exact heq
  · exact absurd (pairwise_at honce hevent' hevent hgt hcommit') (by simp [hcommit])

/-- A listing of a store that was empty at first, with distinct times, under a clock that does not
go back. -/
theorem listed_as_read (hreach : Reachable (freshRules σ ε) world state)
    (hempty : ∀ id, EventLaws.found world.events id = none)
    (htime : ∀ first second, first ≤ second →
      DeliveryLaws.time ε first ≤ DeliveryLaws.time ε second)
    (hclock : ClockOrdered state.config.trace)
    {scan : Scan} {paymentId : Uuid} {records : List WebhookEventRecord}
    (hlist : WebhookEventRepository.listForPayment scan paymentId state.config.world.events =
      .ok records)
    (hdistinct : records.Pairwise fun first second => first.createdAt ≠ second.createdAt) :
    ListedAsRead state.config.trace records := by
  have hsorted : records.Pairwise fun first second => first.createdAt < second.createdAt :=
    ((DeliveryLaws.list_ordered hlist).2.and hdistinct).imp fun h => lt_of_le_of_ne h.1 h.2
  have hstored : ∀ record ∈ records, ∃ position, StoredAt state.config.trace record position := by
    intro record hrecord
    obtain ⟨others, hothers, hmem⟩ :=
      @EventLaws.mem_list ε _ _ scan paymentId state.config.world.events
    cases hlist.symm.trans hothers
    exact stored_of_found hreach hempty ((hmem record).mp hrecord).1
  refine ⟨hstored, fun _ _ h => h.read hreach, fun _ _ h => h.committed hreach,
    fun _ hfirst _ hsecond hne _ _ =>
      sublist_iff_read_before htime hclock hsorted hfirst hsecond hne, ?_⟩
  intro first hfirst second hsecond position later hread hcommitted hlt
  obtain ⟨_, hposition⟩ := hstored second hsecond
  obtain ⟨position', -, hread'⟩ := hposition.read hreach
  obtain ⟨earlier, hearlier, hcommitted'⟩ := hread'.committed hreach
  have hsame := hcommitted.unique hreach hcommitted'
  -- The transition of the first record was committed before the clock was read for it, not after.
  have hne : first ≠ second := by
    rintro rfl
    obtain ⟨before, hbefore, hown⟩ := hread.committed hreach
    have hsame := hcommitted.unique hreach hown
    omega
  have hlt' : position < position' := by omega
  exact (sublist_iff_read_before htime hclock hsorted hfirst hsecond hne hread hread').mpr hlt'

end Positions

section Backends

variable [Platform]

/-- On either backend, in every run over an empty event store under a clock that does not go back:
a listing with distinct times has its records in the order in which the clock was read for them. -/
theorem events_listed_as_read (backend : Backend)
    (hmono : ∀ first second, first ≤ second →
      Platform.timestamptz first ≤ Platform.timestamptz second)
    {payments : backend.Payments} {state : State backend.machine}
    (hreach : Reachable (freshRules backend.Payments backend.Events)
      ⟨payments, backend.noEvents⟩ state)
    (hclock : ClockOrdered state.config.trace) {scan : Scan} {paymentId : Uuid}
    {records : List WebhookEventRecord}
    (hlist : WebhookEventRepository.listForPayment scan paymentId state.config.world.events =
      .ok records)
    (hdistinct : records.Pairwise fun first second => first.createdAt ≠ second.createdAt) :
    ListedAsRead state.config.trace records :=
  listed_as_read hreach (fun id => backend.found_empty id) (backend.time_mono hmono) hclock hlist
    hdistinct

end Backends

section Run

attribute [local instance] Plain.platform

open Plain

/-- A pass has detected the payment of `detectionRun` and is held up before it stores the event; a
second pass confirms the payment and stores its event; then the first one goes on. -/
def overtaken : List (Choice Backend.postgres.machine) :=
  detectionRun ++ [.start (.runOnce worker), .act 2 (env 7000 8),
    .act 2 (envWith 7000 8 [] "m"), .act 2 (env 7000 8), .act 2 (env 7000 8), .act 2 (env 7000 9),
    .act 2 (env 7000 9), .act 2 (env 7000 9), .act 2 (env 7000 9), .act 1 (env 8000 10),
    .act 1 (env 8000 10), .act 1 (env 8000 10), .act 1 (env 8000 10)]

/-- The events of payment 7 as a reader lists them: their types and their times. -/
def listed (state : State Backend.postgres.machine) : List (String × DateTime) :=
  (recordsFor state.config.world.events 7).map fun record => (record.eventType, record.createdAt)

/-- The listing at the end of `overtaken` is in the order in which the clock was read. -/
theorem events_listed_as_read_overtaken : ∃ state : State Backend.postgres.machine,
    (recordsFor state.config.world.events 7).length = 2 ∧
    ListedAsRead state.config.trace (recordsFor state.config.world.events 7) := by
  obtain ⟨state, hreach, htest⟩ := exists_reachable
    (freshRules Backend.postgres.Payments Backend.postgres.Events) overtaken
    Backend.postgres.empty (fun state => decide (ClockOrdered state.config.trace) &&
      (listed state).map Prod.snd == [7000, 8000]) (by decide +kernel)
  simp only [Bool.and_eq_true, decide_eq_true_eq, beq_iff_eq, listed, List.map_map] at htest
  have hdistinct : ((recordsFor state.config.world.events 7).map
      WebhookEventRecord.createdAt).Pairwise (· ≠ ·) := by
    rw [show WebhookEventRecord.createdAt = Prod.snd ∘ fun record : WebhookEventRecord =>
      (record.eventType, record.createdAt) from rfl, htest.2]
    decide
  obtain ⟨records, hlist, -⟩ := @EventLaws.mem_list Backend.postgres.Events _ _
    (fun _ => Equiv.refl _) 7 state.config.world.events
  have hrecords : recordsFor state.config.world.events 7 = records := by
    simp only [recordsFor, hlist]
  refine ⟨state, by simpa using congrArg List.length htest.2, ?_⟩
  rw [hrecords] at hdistinct ⊢
  exact events_listed_as_read .postgres timestamptz_mono hreach htest.1 hlist
    (List.pairwise_map.mp hdistinct)

/-- In `overtaken` the confirmation is listed before the detection. -/
theorem confirmed_before_detected : ∃ state : State Backend.postgres.machine,
    Reachable (freshRules Backend.postgres.Payments Backend.postgres.Events)
      Backend.postgres.empty state ∧ ClockOrdered state.config.trace ∧
    listed state = [("payment.confirmed", 7000), ("payment.detected", 8000)] := by
  obtain ⟨state, hreach, htest⟩ := exists_reachable
    (freshRules Backend.postgres.Payments Backend.postgres.Events) overtaken
    Backend.postgres.empty (fun state => decide (ClockOrdered state.config.trace) &&
      listed state == [("payment.confirmed", 7000), ("payment.detected", 8000)]) (by decide +kernel)
  simp only [Bool.and_eq_true, decide_eq_true_eq, beq_iff_eq] at htest
  exact ⟨state, hreach, htest.1, htest.2⟩

end Run

end StellarPay
