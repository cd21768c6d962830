import StellarPay.Runs.Creation
import StellarPay.Runs.Lifecycle
import StellarPay.Runs.Linearization
import StellarPay.Payments.Pagination
import Mathlib.Logic.Relation

/-!
# What the service shows of payments

Every payment that a call of the service returns was stored as it is shown while the call was at
work. Of two calls, one after the other, the second shows a payment as the first did or further on
in its life, and a payment that was shown is never missing again.
-/

namespace StellarPay

open Interleaving

/-- A status may become another one in any number of transitions. -/
def PaymentStatus.Reaches : PaymentStatus → PaymentStatus → Prop :=
  Relation.ReflTransGen fun first second => first.canTransitionTo second = true

/-- Along the state machine the rank grows, unless there is no transition at all. -/
theorem PaymentStatus.Reaches.eq_or_rank {first second : PaymentStatus} (h : first.Reaches second) :
    second = first ∨ first.rank < second.rank := by
  induction h with
  | refl => exact .inl rfl
  | tail _ hstep ih =>
      have hlt := rank_lt_of_canTransitionTo hstep
      rcases ih with rfl | hrank
      · exact .inr hlt
      · exact .inr (hrank.trans hlt)

namespace Payment

/-- A record of a payment and one of the same payment later on: the terms are the same, a hash
stays, the status is one that can be reached, and while it is the same so is the whole record. -/
structure LeadsTo (first second : Payment) : Prop where
  terms : first.SameTerms second
  hash : ∀ hash, first.stellarTxHash = some hash → second.stellarTxHash = some hash
  status : first.status.Reaches second.status
  same : second.status = first.status → second = first

variable {first second third : Payment}

theorem LeadsTo.refl (payment : Payment) : payment.LeadsTo payment :=
  ⟨.refl payment, fun _ hhash => hhash, .refl, fun _ => rfl⟩

theorem LeadsTo.trans (h : first.LeadsTo second) (h' : second.LeadsTo third) :
    first.LeadsTo third := by
  refine ⟨h.terms.trans h'.terms, fun hash hhash => h'.hash hash (h.hash hash hhash),
    h.status.trans h'.status, fun hsame => ?_⟩
  -- A status that comes back has never been left.
  have hmiddle : second.status = first.status := by
    refine h.status.eq_or_rank.resolve_right fun hlt => ?_
    rcases h'.status.eq_or_rank with heq | hlt'
    · rw [← heq, hsame] at hlt
      omega
    · rw [hsame] at hlt'
      omega
  rw [h'.same (hsame.trans hmiddle.symm), h.same hmiddle]

end Payment

/-- One write leads from what was stored to what is. -/
theorem PaymentStep.leads {payment : Payment} {after : Option Payment}
    (h : PaymentStep (some payment) after) (hcoupled : payment.Coupled) :
    ∃ later, after = some later ∧ later.Coupled ∧ payment.LeadsTo later := by
  cases h with
  | stay => exact ⟨payment, rfl, hcoupled, .refl payment⟩
  | moved _ next hash time htransition hhash =>
      obtain ⟨hmoved, hadvances⟩ := Payment.moved_coupled time hcoupled htransition hhash
      refine ⟨_, rfl, hmoved, hadvances.terms, hadvances.hash, .single htransition, fun hsame => ?_⟩
      have hlt := PaymentStatus.rank_lt_of_canTransitionTo htransition
      have heq : next = payment.status := hsame
      rw [heq] at hlt
      omega

section Worlds

variable {σ ε : Type} [PaymentRepository σ]

/-- From one world to another every payment stays, and its record leads to the new one. -/
def Leads (before after : World σ ε) : Prop :=
  ∀ id payment, stored before.payments id = some payment → payment.Coupled →
    ∃ later, stored after.payments id = some later ∧ later.Coupled ∧ payment.LeadsTo later

theorem Leads.refl (world : World σ ε) : Leads world world :=
  fun _ payment hstored hcoupled => ⟨payment, hstored, hcoupled, .refl payment⟩

theorem Leads.trans {first second third : World σ ε} (h : Leads first second)
    (h' : Leads second third) : Leads first third := by
  intro id payment hstored hcoupled
  obtain ⟨later, hlater, hcoupled', hleads⟩ := h id payment hstored hcoupled
  obtain ⟨last, hlast, hcoupled'', hleads'⟩ := h' id later hlater hcoupled'
  exact ⟨last, hlast, hcoupled'', hleads.trans hleads'⟩

variable [WebhookEventRepository ε] [RepositoryLaws σ] [Platform]

/-- Every event of a run of the services leads on. -/
theorem event_leads {world : World σ ε} {state : State (machine σ ε)}
    (hreach : Reachable (serviceRules σ ε) world state) :
    ∀ event ∈ state.config.trace, Leads event.before event.after := by
  intro event hevent id payment hstored hcoupled
  have hstep := event_step hreach id event hevent
  rw [hstored] at hstep
  exact hstep.leads hcoupled

end Worlds

section Shown

variable {σ ε : Type} [PaymentRepository σ] [WebhookEventRepository ε] [Platform]

/-- The payments that a call returns. -/
def Call.shown : (call : Call) → call.Result → List Payment
  | .createPayment _ _ _ _ _ _, .ok payment | .markDetected _ _, .ok payment
  | .confirmPayment _, .ok payment | .failPayment _, .ok payment | .expirePayment _, .ok payment
  | .getPayment _, .ok payment | .updateStatus _ _ _, .ok payment => [payment]
  | .listPayments _ _ _, .ok (payments, _) => payments
  | _, _ => []

/-- One of these requests has met the payment, or has left it, stored as it is. -/
def Met (history : List (Event (machine σ ε))) (payment : Payment) : Prop :=
  ∃ act, .act act ∈ history ∧ stored act.after.payments payment.id = some payment

/-- How `get_payment` returns, read off the thread's own history. -/
inductive ReadTrace (id : Uuid) (history : List (Event (machine σ ε))) :
    Except PaymentError Payment → Prop where
  | failed (error : RepositoryError) (act : Act (machine σ ε)) (hact : .act act ∈ history)
      (hgot : act.Got (.findById id) (.error error)) :
      ReadTrace id history (.error (.repository error))
  | missing (act : Act (machine σ ε)) (hact : .act act ∈ history)
      (hgot : act.Got (.findById id) (.ok none)) :
      ReadTrace id history (.error (.notFound id.hyphenated))
  | found (act : Act (machine σ ε)) (payment : Payment) (hact : .act act ∈ history)
      (hgot : act.Got (.findById id) (.ok (some payment))) : ReadTrace id history (.ok payment)

/-- How `list_payments` returns: it reads a page, and then a count. -/
inductive ListTrace (filter : Option PaymentStatus) (page perPage : UInt32)
    (history : List (Event (machine σ ε))) :
    Except PaymentError (List Payment × Int) → Prop where
  | failed (error : RepositoryError) :
      ListTrace filter page perPage history (.error (.repository error))
  | listed (before : List (Event (machine σ ε))) (list count : Act (machine σ ε))
      (payments : List Payment) (total : Int)
      (hhistory : history = before ++ [.act list] ++ [.act count])
      (hlist : list.Got (.listPaginated filter page perPage) (.ok payments))
      (hcount : count.Got (.count filter) (.ok total)) :
      ListTrace filter page perPage history (.ok (payments, total))

/-- What a finished call that reads has done. -/
def ReadDone : (call : Call) → call.Result → List (Event (machine σ ε)) → Prop
  | .getPayment id, result, history => ReadTrace id history result
  | .listPayments filter page perPage, result, history =>
      ListTrace filter page perPage history result
  | _, _, _ => True

variable {rules : Rules (machine σ ε)} {thread : Nat} {history : List (Event (machine σ ε))}

/-- What `get_payment` does. -/
theorem get_payment_trace (id : Uuid) :
    Local rules (fun _ => True) thread none (PaymentService.getPayment id)
      (fun result history => ReadTrace id history result) history := by
  refine local_request_bind fun env world _ => ⟨trivial, ?_⟩
  have hmem : ∀ act : Act (machine σ ε), Event.act act ∈ history ++ [Event.act act] :=
    fun act => List.mem_append_right _ (List.mem_singleton.mpr rfl)
  rcases hreply : (answer env (.findById id) world).1 with error | _ | payment
  · exact local_pure (.failed error _ (hmem _) ⟨rfl, hreply⟩)
  · exact local_pure (.missing _ (hmem _) ⟨rfl, hreply⟩)
  · exact local_pure (.found _ payment (hmem _) ⟨rfl, hreply⟩)

/-- What `list_payments` does. -/
theorem list_payments_trace (filter : Option PaymentStatus) (page perPage : UInt32) :
    Local rules (fun _ => True) thread none (PaymentService.listPayments filter page perPage)
      (fun result history => ListTrace filter page perPage history result) history := by
  refine local_request_bind fun env world _ => ⟨trivial, ?_⟩
  cases hlist : (answer env (.listPaginated filter page perPage) world).1 with
  | error error => exact local_pure (.failed error)
  | ok payments =>
      refine local_request_bind fun env' world' _ => ⟨trivial, ?_⟩
      cases hcount : (answer env' (.count filter) world').1 with
      | error error => exact local_pure (.failed error)
      | ok total => exact local_pure (.listed _ _ _ payments total rfl ⟨rfl, hlist⟩ ⟨rfl, hcount⟩)

/-- Every call that reads and has returned has done so in one of these ways. -/
theorem read_returned {world : World σ ε} {state : State (machine σ ε)}
    (hreach : Reachable rules world state) {call : Call} {result : call.Result}
    (hthread : state.threads[thread]? = some ⟨call, .done result⟩) :
    ReadDone call result (state.config.own thread) := by
  have hcalls : ∀ call thread before, rules.admits call → True ∧
      Local rules (fun _ => True) thread none call.body (ReadDone call)
        [.start thread call before] := by
    intro call thread before _
    refine ⟨trivial, ?_⟩
    cases call with
    | getPayment id => exact get_payment_trace id
    | listPayments filter page perPage => exact list_payments_trace filter page perPage
    | _ => exact (local_any fun _ => trivial).mono fun _ _ _ => trivial
  have hholds := @Reachable.own_holds (machine σ ε) rules (fun _ => True) ReadDone trivial hcalls
    world state hreach
  exact hholds.2 thread call result hthread

variable [RepositoryLaws σ]

omit [Platform] in
/-- A read by id that fails was failed by the database. -/
theorem find_failed {env : Env} {id : Uuid} {before : World σ ε} {error : RepositoryError}
    (h : (answer env (.findById id) before).1 = .error error) :
    ∃ message, error = .database message := by
  simp only [answer, onPayments, attempt, reading, RepositoryLaws.findById_eq] at h
  cases hfault : env.paymentsFault with
  | none => simp [hfault] at h
  | some message =>
      rw [hfault] at h
      cases h
      exact ⟨message, rfl⟩

/-- A read by id that finds a payment has found it stored. -/
theorem found_stored {act : Act (machine σ ε)} {id : Uuid} {found : Option Payment}
    (hgot : act.Got (.findById id) (.ok found)) :
    act.after = act.before ∧ stored act.before.payments id = found := by
  obtain ⟨hrequest, hreply⟩ := hgot
  refine ⟨?_, ?_⟩
  · rw [Act.after, hrequest]
    exact on_payments_reading act.env _ act.before
  · rcases answer_find act.env id act.before with ⟨-, error, hfailed⟩ | hfound
    · cases hfailed.symm.trans hreply
    · exact Except.ok.inj (hfound.symm.trans hreply)

omit [RepositoryLaws σ] in
/-- A page that is answered is one of a listing of the store. -/
theorem listed_page [ListingLaws σ] {act : Act (machine σ ε)} {filter : Option PaymentStatus}
    {page perPage : UInt32} {payments : List Payment}
    (hgot : act.Got (.listPaginated filter page perPage) (.ok payments)) :
    act.after = act.before ∧ ∃ all, payments = pageOf page perPage all ∧
      Listing act.before.payments (selects filter) newest all := by
  obtain ⟨hrequest, hreply⟩ := hgot
  refine ⟨?_, ?_⟩
  · rw [Act.after, hrequest]
    exact on_payments_reading act.env _ act.before
  · obtain ⟨all, hpage, hlisting⟩ :=
      ListingLaws.page act.env.scan filter page perPage act.before.payments
    refine ⟨all, ?_, hlisting⟩
    simp only [answer, onPayments, attempt, reading] at hreply
    cases hfault : act.env.paymentsFault with
    | some message => simp [hfault] at hreply
    | none =>
        rw [hfault] at hreply
        exact Except.ok.inj (hreply.symm.trans hpage)

omit [RepositoryLaws σ] in
/-- A count that is answered is the length of a listing of the store. -/
theorem counted_listing [ListingLaws σ] {act : Act (machine σ ε)} {filter : Option PaymentStatus}
    {total : Int} (hgot : act.Got (.count filter) (.ok total)) :
    ∃ all, total = all.length ∧
      Listing act.before.payments (selects filter) (fun _ _ => True) all := by
  obtain ⟨-, hreply⟩ := hgot
  obtain ⟨all, hcount, hlisting⟩ := ListingLaws.count filter act.before.payments
  refine ⟨all, ?_, hlisting⟩
  simp only [answer, onPayments, attempt, reading] at hreply
  cases hfault : act.env.paymentsFault with
  | some message => simp [hfault] at hreply
  | none =>
      rw [hfault] at hreply
      exact Except.ok.inj (hreply.symm.trans hcount)

variable [KeyLaws σ] [ListingLaws σ]

omit [ListingLaws σ] in
/-- A creation shows a payment that it has found or stored. -/
theorem created_met {service : PaymentService} {amount reference : String}
    {destination memo key : Option String} {payment : Payment}
    (h : CreateTrace service amount reference destination memo key history (.ok payment)) :
    Met history payment := by
  generalize hresult : (.ok payment : Except PaymentError Payment) = result at h
  cases h with
  | invalid | unread => cases hresult
  | existing act name found hact _ hgot =>
      cases hresult
      obtain ⟨hrequest, hreply⟩ := hgot
      refine ⟨act, hact, ?_⟩
      have hquiet : act.after = act.before := by
        rw [Act.after, hrequest]
        exact on_payments_reading act.env _ act.before
      rw [hquiet]
      rcases answer_find_key act.env name act.before with
        ⟨error, hfailed, -⟩ | ⟨answered, hfound, -, hstored⟩
      · cases hfailed.symm.trans hreply
      · cases hfound.symm.trans hreply
        exact hstored _ rfl
  | answered act sent reply hact _ _ hgot =>
      rw [create_outcome_ok hresult.symm] at hgot
      obtain ⟨hrequest, hreply⟩ := hgot
      obtain ⟨hsame, -, -, hstored⟩ := RepositoryLaws.create_ok (create_of_answer hreply)
      refine ⟨act, hact, ?_⟩
      rw [Act.after, hrequest]
      exact (hstored payment.id).trans (if_pos hsame.id)

omit [KeyLaws σ] [ListingLaws σ] in
/-- A change of status shows the payment as it has moved it. -/
theorem changed_met {id : Uuid} {next : PaymentStatus} {hash : Option String} {payment : Payment}
    (h : Linearized id next hash history (some payment)) : Met history payment := by
  generalize hresult : some payment = result at h
  cases h with
  | refused => cases hresult
  | succeeded earlier act updated hhistory _ hmoves =>
      cases hresult
      have hstored := (hmoves.after id).trans (if_pos rfl)
      refine ⟨act, ?_, ?_⟩
      · rw [hhistory]
        exact List.mem_append_right _ (List.mem_singleton.mpr rfl)
      · rwa [RepositoryLaws.stored_id hstored]

/-- Every payment that a call has returned was stored as it is shown. -/
theorem shown_met {world : World σ ε} {state : State (machine σ ε)}
    (hreach : Reachable rules world state) {call : Call} {result : call.Result}
    (hthread : state.threads[thread]? = some ⟨call, .done result⟩) {payment : Payment}
    (hshown : payment ∈ call.shown result) : Met (state.config.own thread) payment := by
  have hchanged := change_returned hreach hthread
  have hread := read_returned hreach hthread
  have hchange : ∀ {id next hash}, call.change = some (id, next, hash) →
      call.succeeded result = some payment → Met (state.config.own thread) payment := by
    intro id next hash hcall hsucceeded
    have hlinearized := hchanged id next hash hcall
    rw [hsucceeded] at hlinearized
    exact changed_met hlinearized
  cases call with
  | createPayment =>
      rcases result with error | created
      · cases hshown
      · obtain rfl := List.mem_singleton.mp hshown
        exact created_met (create_returned hreach hthread)
  | markDetected | confirmPayment | failPayment | expirePayment | updateStatus =>
      rcases result with error | updated
      · cases hshown
      · obtain rfl := List.mem_singleton.mp hshown
        exact hchange rfl rfl
  | getPayment =>
      rcases result with error | found
      · cases hshown
      · obtain rfl := List.mem_singleton.mp hshown
        cases hread with
        | found act _ hact hgot =>
            obtain ⟨hquiet, hstored⟩ := found_stored hgot
            refine ⟨act, hact, ?_⟩
            rw [hquiet, RepositoryLaws.stored_id hstored]
            exact hstored
  | listPayments =>
      rcases result with error | ⟨payments, total⟩
      · cases hshown
      · cases hread with
        | listed before list count _ _ hhistory hlist _ =>
            obtain ⟨hquiet, all, rfl, hlisting⟩ := listed_page hlist
            refine ⟨list, ?_, ?_⟩
            · rw [hhistory]
              exact List.mem_append_left _ (List.mem_append_right _ (List.mem_singleton.mpr rfl))
            · rw [hquiet]
              exact ((hlisting.mem payment).mp (mem_of_mem_page hshown)).1
  | runOnce | deliverDue => cases hshown

end Shown

section Sessions

variable {σ ε : Type} [PaymentRepository σ] [WebhookEventRepository ε] [Platform]
  [RepositoryLaws σ] {world : World σ ε} {state : State (machine σ ε)}

/-- If all payments are coupled at first, they are in every world that an event left. -/
theorem coupled_after (hreach : Reachable (serviceRules σ ε) world state)
    (hworld : ∀ id, ∀ payment ∈ stored world.payments id, payment.Coupled)
    {event : Event (machine σ ε)} (hevent : event ∈ state.config.trace) (id : Uuid) :
    ∀ payment ∈ stored event.after.payments id, payment.Coupled :=
  (event_step hreach id event hevent).coupled (coupled_before hreach hworld event hevent id)

/-- Of a payment that an event left stored, every later event meets a record that it leads to. -/
theorem follows_leads (hreach : Reachable (serviceRules σ ε) world state)
    (hworld : ∀ id, ∀ payment ∈ stored world.payments id, payment.Coupled)
    {earlier later : Event (machine σ ε)} (hfollows : Follows state earlier.thread later.thread)
    (hearlier : earlier ∈ state.config.trace) (hlater : later ∈ state.config.trace)
    {id : Uuid} {payment : Payment} (hstored : stored earlier.after.payments id = some payment) :
    ∃ next, stored later.before.payments id = some next ∧ next.Coupled ∧ payment.LeadsTo next :=
  hreach.follows_relates Leads Leads.refl Leads.trans (event_leads hreach) hfollows hearlier hlater
    id payment hstored (coupled_after hreach hworld hearlier id payment hstored)

variable [KeyLaws σ] [ListingLaws σ]

/-- What a call shows of a payment leads to what every later call shows of it. -/
theorem shown_leads (hreach : Reachable (serviceRules σ ε) world state)
    (hworld : ∀ id, ∀ payment ∈ stored world.payments id, payment.Coupled)
    {first second : Nat} (hfollows : Follows state first second) {call call' : Call}
    {result : call.Result} {result' : call'.Result}
    (hfirst : state.threads[first]? = some ⟨call, .done result⟩)
    (hsecond : state.threads[second]? = some ⟨call', .done result'⟩) {shown shown' : Payment}
    (hshown : shown ∈ call.shown result) (hshown' : shown' ∈ call'.shown result')
    (hid : shown'.id = shown.id) : shown.LeadsTo shown' := by
  obtain ⟨act, hact, hstored⟩ := shown_met hreach hfirst hshown
  obtain ⟨act', hact', hstored'⟩ := shown_met hreach hsecond hshown'
  obtain ⟨hmem, rfl⟩ := Config.mem_own.mp hact
  obtain ⟨hmem', rfl⟩ := Config.mem_own.mp hact'
  obtain ⟨next, hnext, hcoupled, hleads⟩ :=
    follows_leads hreach hworld hfollows hmem hmem' hstored
  obtain ⟨last, hlast, -, hleads'⟩ := event_leads hreach _ hmem' shown.id next hnext hcoupled
  have hsame : last = shown' := by
    rw [hid] at hstored'
    exact Option.some.inj (hlast.symm.trans hstored')
  exact hsame ▸ hleads.trans hleads'

omit [KeyLaws σ] [ListingLaws σ] in
/-- A payment that was asked for by its id has that id. -/
theorem get_payment_id {rules : Rules (machine σ ε)} (hreach : Reachable rules world state)
    {thread : Nat} {id : Uuid} {payment : Payment}
    (hthread : state.threads[thread]? = some ⟨.getPayment id, .done (.ok payment)⟩) :
    payment.id = id := by
  have hread : ReadTrace id (state.config.own thread) (.ok payment) := read_returned hreach hthread
  cases hread with
  | found act _ hact hgot => exact RepositoryLaws.stored_id (found_stored hgot).2

/-- A payment that a call has shown is not missing for a later one. -/
theorem shown_stays (hreach : Reachable (serviceRules σ ε) world state)
    (hworld : ∀ id, ∀ payment ∈ stored world.payments id, payment.Coupled)
    {first second : Nat} (hfollows : Follows state first second) {call : Call}
    {result : call.Result} {shown : Payment} {result' : Except PaymentError Payment}
    (hfirst : state.threads[first]? = some ⟨call, .done result⟩)
    (hsecond : state.threads[second]? = some ⟨.getPayment shown.id, .done result'⟩)
    (hshown : shown ∈ call.shown result) {error : PaymentError} (herror : result' = .error error) :
    ∃ message, error = .repository (.database message) := by
  obtain ⟨act, hact, hstored⟩ := shown_met hreach hfirst hshown
  obtain ⟨hmem, rfl⟩ := Config.mem_own.mp hact
  have hread : ReadTrace shown.id (state.config.own second) result' := read_returned hreach hsecond
  cases hread with
  | found => cases herror
  | missing act' hact' hgot =>
      obtain ⟨hmem', rfl⟩ := Config.mem_own.mp hact'
      obtain ⟨next, hnext, -, -⟩ := follows_leads hreach hworld hfollows hmem hmem' hstored
      cases hnext.symm.trans (found_stored hgot).2
  | failed failure act' hact' hgot =>
      cases herror
      obtain ⟨message, rfl⟩ := find_failed hgot.2
      exact ⟨message, rfl⟩

end Sessions

end StellarPay
