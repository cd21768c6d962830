import StellarPay.Core.Growing
import StellarPay.Runs.Sessions

/-!
# Following the pages

A client requests the pages of `list_payments` one after the other while payments are created and
moved. The list is ordered by a time that never changes, newest first, and what passes the filter
goes on passing it if the filter is none or a final status, so what was there at first only moves
towards the later pages.
-/

namespace StellarPay

open Interleaving Paging

/-- What passes the filter goes on passing it. -/
def Lasting (filter : Option PaymentStatus) : Prop :=
  ∀ status, filter = some status → status = .confirmed ∨ status = .failed ∨ status = .expired

instance (filter : Option PaymentStatus) : Decidable (Lasting filter) :=
  match filter with
  | none => .isTrue fun _ h => by cases h
  | some status => decidable_of_iff
      (status = .confirmed ∨ status = .failed ∨ status = .expired) (by simp [Lasting])

/-- A payment that passes a lasting filter passes it later on. -/
theorem Lasting.selects {filter : Option PaymentStatus} (h : Lasting filter)
    {first second : PaymentStatus} (hreaches : first.Reaches second)
    (hselects : selects filter first = true) : selects filter second = true := by
  cases filter with
  | none => rfl
  | some status =>
      have hfirst : first = status := by simpa [StellarPay.selects] using hselects
      subst hfirst
      have hsecond : second = first := by
        refine hreaches.eq_or_rank.resolve_right fun hlt => ?_
        have hbound : second.rank ≤ 2 := by cases second <;> decide
        have htop : first.rank = 2 := by
          rcases h first rfl with rfl | rfl | rfl <;> rfl
        omega
      rw [hsecond]
      exact hselects

section Worlds

variable {σ ε : Type} [PaymentRepository σ]

/-- The payment is stored, and passes the filter. -/
def Matches (filter : Option PaymentStatus) (world : World σ ε) (payment : Payment) : Prop :=
  stored world.payments payment.id = some payment ∧ selects filter payment.status = true

/-- All stored payments are coupled. -/
def AllCoupled (world : World σ ε) : Prop :=
  ∀ id, ∀ payment ∈ stored world.payments id, payment.Coupled

/-- No two payments were created at one instant. -/
def DistinctTimes (world : World σ ε) : Prop :=
  ∀ id id' payment payment', stored world.payments id = some payment →
    stored world.payments id' = some payment' → payment.createdAt = payment'.createdAt → id = id'

variable [RepositoryLaws σ] {filter : Option PaymentStatus} {first second : World σ ε}

omit [RepositoryLaws σ] in
/-- Instants that are distinct later on are so before. -/
theorem DistinctTimes.of_leads (h : DistinctTimes second) (hleads : Leads first second)
    (hcoupled : AllCoupled first) : DistinctTimes first := by
  intro id id' payment payment' hstored hstored' heq
  obtain ⟨later, hlater, -, hkept⟩ := hleads id payment hstored (hcoupled id payment hstored)
  obtain ⟨later', hlater', -, hkept'⟩ :=
    hleads id' payment' hstored' (hcoupled id' payment' hstored')
  exact h id id' later later' hlater hlater'
    (hkept.terms.createdAt.trans (heq.trans hkept'.terms.createdAt.symm))

/-- What matches a lasting filter goes on matching it. -/
theorem Matches.of_leads {payment : Payment} (h : Matches filter first payment)
    (hlasting : Lasting filter) (hleads : Leads first second) (hcoupled : AllCoupled first) :
    ∃ later, Matches filter second later ∧ payment.LeadsTo later := by
  obtain ⟨hstored, hselects⟩ := h
  obtain ⟨later, hlater, -, hkept⟩ := hleads payment.id payment hstored (hcoupled _ _ hstored)
  refine ⟨later, ⟨?_, hlasting.selects hkept.status hselects⟩, hkept⟩
  rw [RepositoryLaws.stored_id hlater]
  exact hlater

variable {all later : List Payment}

omit [RepositoryLaws σ] in
/-- A listing is of the payments that match. -/
theorem mem_listing {ordered : DateTime → DateTime → Prop} {payment : Payment}
    (h : Listing first.payments (selects filter) ordered all) :
    payment ∈ all ↔ Matches filter first payment :=
  h.mem payment

omit [RepositoryLaws σ] in
/-- A listing of payments of distinct instants decreases. -/
theorem listing_decreasing (h : Listing first.payments (selects filter) newest all)
    (hdistinct : DistinctTimes first) : Decreasing Payment.createdAt all := by
  refine Descending.decreasing h.sorted ?_
  have hids := List.pairwise_map.mp h.nodup
  refine List.pairwise_map.mpr (hids.imp_of_mem fun {payment other} hpayment hother hne heq => ?_)
  exact hne (hdistinct _ _ _ _ ((mem_listing h).mp hpayment).1 ((mem_listing h).mp hother).1 heq)

/-- The instants of a listing are among those of every later one. -/
theorem listing_grows {ordered ordered' : DateTime → DateTime → Prop}
    (h : Listing first.payments (selects filter) ordered all)
    (hlater : Listing second.payments (selects filter) ordered' later) (hlasting : Lasting filter)
    (hleads : Leads first second) (hcoupled : AllCoupled first) :
    all.map Payment.createdAt ⊆ later.map Payment.createdAt := by
  intro instant hinstant
  obtain ⟨payment, hpayment, rfl⟩ := List.mem_map.mp hinstant
  obtain ⟨next, hnext, hkept⟩ :=
    ((mem_listing h).mp hpayment).of_leads hlasting hleads hcoupled
  exact List.mem_map.mpr ⟨next, (mem_listing hlater).mpr hnext, hkept.terms.createdAt⟩

/-- No listing is shorter than an earlier one. -/
theorem listing_length_le {ordered ordered' : DateTime → DateTime → Prop}
    (h : Listing first.payments (selects filter) ordered all)
    (hlater : Listing second.payments (selects filter) ordered' later) (hlasting : Lasting filter)
    (hleads : Leads first second) (hcoupled : AllCoupled first) : all.length ≤ later.length := by
  have hids : all.map Payment.id ⊆ later.map Payment.id := by
    intro id hid
    obtain ⟨payment, hpayment, rfl⟩ := List.mem_map.mp hid
    obtain ⟨next, hnext, hkept⟩ :=
      ((mem_listing h).mp hpayment).of_leads hlasting hleads hcoupled
    exact List.mem_map.mpr ⟨next, (mem_listing hlater).mpr hnext, hkept.terms.id⟩
  have hlength := (List.subperm_of_subset h.nodup hids).length_le
  rwa [List.length_map, List.length_map] at hlength

end Worlds

/-- A thread has begun in this world. -/
def Began {M : Machine} (state : State M) (thread : Nat) (before : M.World) : Prop :=
  ∃ call, .start thread call before ∈ state.config.trace

/-- What pages show: everything that matched when the first of them was requested, and a payment
twice only if a newer one has come to match since the earlier request. -/
structure PagesComplete {σ ε : Type} [PaymentRepository σ] (began : Nat → World σ ε → Prop)
    (final : World σ ε) (filter : Option PaymentStatus) (last : Nat)
    (pages : Nat → List Payment) : Prop where
  complete : ∀ before, began 0 before → ∀ payment, Matches filter before payment →
    ∃ index ≤ last, ∃ shown ∈ pages index, shown.id = payment.id
  repeated : ∀ index later, index < later → later ≤ last → ∀ shown ∈ pages index,
    ∀ shown' ∈ pages later, shown'.id = shown.id →
      ∃ newer, Matches filter final newer ∧ shown.createdAt < newer.createdAt ∧
        ∀ before, began index before → ∀ old, Matches filter before old → old.id ≠ newer.id

section Service

variable {σ ε : Type} [PaymentRepository σ] [WebhookEventRepository ε] [Platform]
  [RepositoryLaws σ] {world : World σ ε} {state : State (machine σ ε)}
  {filter : Option PaymentStatus} {perPage : UInt32}

/-- Where all payments are coupled at first, they are in the world that any event met. -/
theorem all_coupled_before (hreach : Reachable (serviceRules σ ε) world state)
    (hworld : AllCoupled world) {event : Event (machine σ ε)}
    (hevent : event ∈ state.config.trace) : AllCoupled event.before :=
  coupled_before hreach hworld event hevent

/-- What an event met leads to what there is in the end. -/
theorem leads_last (hreach : Reachable (serviceRules σ ε) world state)
    {event : Event (machine σ ε)} (hevent : event ∈ state.config.trace) :
    Leads event.before state.config.world :=
  (event_leads hreach event hevent).trans
    (hreach.linked.relates_last Leads Leads.refl Leads.trans (event_leads hreach) hevent)

variable [ListingLaws σ]

/-- A page and the total that comes with it: there are at least as many payments as the page shows
and those before it. -/
theorem page_within_total (hreach : Reachable (serviceRules σ ε) world state)
    (hworld : AllCoupled world) (hlasting : Lasting filter) {thread : Nat} {page : UInt32}
    {payments : List Payment} {total : Int}
    (ht : state.threads[thread]? =
      some ⟨.listPayments filter page perPage, .done (.ok (payments, total))⟩)
    (hsome : payments ≠ []) :
    ((pageOffset page perPage).toNat : Int) + payments.length ≤ total := by
  have hread : ListTrace filter page perPage (state.config.own thread) (.ok (payments, total)) :=
    read_returned hreach ht
  cases hread with
  | listed before list count _ _ hown hlist hcount =>
      obtain ⟨hquiet, all, rfl, hlisting⟩ := listed_page hlist
      obtain ⟨counted, rfl, hcounted⟩ := counted_listing hcount
      have hlisted : Event.act list ∈ before ++ [Event.act list] :=
        List.mem_append_right _ (List.mem_singleton.mpr rfl)
      have hmem : Event.act list ∈ state.config.trace :=
        Config.mem_of_own (hown ▸ List.mem_append_left _ hlisted)
      have hleads : Leads list.after count.before :=
        hreach.own_relates Leads Leads.refl Leads.trans (event_leads hreach) hown hlisted
          (List.mem_singleton.mpr rfl)
      rw [hquiet] at hleads
      have hle := listing_length_le hlisting hcounted hlasting hleads
        (all_coupled_before hreach hworld hmem)
      have hpage : 0 < (pageOf page perPage all).length := List.length_pos_iff.mpr hsome
      rw [pageOf, List.length_take, List.length_drop] at hpage ⊢
      omega

/-- The pages from the first to the one numbered `last`, each requested after the answer to the one
before it. They end below `2 ^ 32`, so that the offset of none of them, a `u32`, wraps around. -/
structure PagesRead (state : State (machine σ ε)) (filter : Option PaymentStatus)
    (perPage : UInt32) (last : Nat) (threads : Nat → Nat) (pages : Nat → List Payment) : Prop where
  answered : ∀ index ≤ last, ∃ total, state.threads[threads index]? = some
    ⟨.listPayments filter (UInt32.ofNat (index + 1)) perPage, .done (.ok (pages index, total))⟩
  ordered : ∀ index later, index < later → later ≤ last →
    Follows state (threads index) (threads later)
  /-- The last page is not full. -/
  short : (pages last).length < perPage.toNat
  fits : (last + 1) * perPage.toNat < 2 ^ 32

/-- The request of a thread that read this page of this listing. -/
structure PageAct (state : State (machine σ ε)) (filter : Option PaymentStatus) (thread : Nat)
    (act : Act (machine σ ε)) (all : List Payment) : Prop where
  mem : .act act ∈ state.config.trace
  thread : act.thread = thread
  quiet : act.after = act.before
  listing : Listing act.before.payments (selects filter) newest all

variable {last : Nat} {threads : Nat → Nat} {pages : Nat → List Payment}

omit [ListingLaws σ] in
/-- The listings that the pages are taken of only grow. -/
theorem page_acts_reads (hreach : Reachable (serviceRules σ ε) world state)
    (hworld : AllCoupled world) (hlasting : Lasting filter)
    (hdistinct : DistinctTimes state.config.world) {orders : Nat → List Payment}
    (hordered : ∀ index later, index < later → later ≤ last →
      Follows state (threads index) (threads later))
    (hacts : ∀ index ≤ last, ∃ act, PageAct state filter (threads index) act (orders index)) :
    Reads Payment.createdAt last orders := by
  refine ⟨fun index hindex => ?_, fun index later hle hlater => ?_⟩
  · obtain ⟨act, hact⟩ := hacts index hindex
    exact listing_decreasing hact.listing
      (hdistinct.of_leads (leads_last hreach hact.mem) (all_coupled_before hreach hworld hact.mem))
  · rcases Nat.lt_or_eq_of_le hle with hlt | rfl
    · obtain ⟨act, hact⟩ := hacts index (by omega)
      obtain ⟨act', hact'⟩ := hacts later hlater
      have hfollows : Follows state act.thread act'.thread := by
        rw [hact.thread, hact'.thread]
        exact hordered index later hlt hlater
      have hleads : Leads act.after act'.before :=
        @Reachable.follows_relates _ _ world state hreach Leads Leads.refl Leads.trans
          (event_leads hreach) (.act act) (.act act') hfollows hact.mem hact'.mem
      rw [hact.quiet] at hleads
      exact listing_grows hact.listing hact'.listing hlasting hleads
        (all_coupled_before hreach hworld hact.mem)
    · exact List.Subset.refl _

omit [RepositoryLaws σ] in
/-- Each page is taken of a listing of the store at its request. -/
theorem PagesRead.exists_orders (h : PagesRead state filter perPage last threads pages)
    {rules : Rules (machine σ ε)} (hreach : Reachable rules world state) :
    ∃ orders : Nat → List Payment, ∀ index ≤ last,
      pages index = page perPage.toNat index (orders index) ∧
      ∃ act, PageAct state filter (threads index) act (orders index) := by
  have hfacts : ∀ index, ∃ all : List Payment, index ≤ last →
      pages index = page perPage.toNat index all ∧
      ∃ act, PageAct state filter (threads index) act all := by
    intro index
    by_cases hindex : index ≤ last
    · obtain ⟨total, ht⟩ := h.answered index hindex
      have hread : ListTrace filter (UInt32.ofNat (index + 1)) perPage
        (state.config.own (threads index)) (.ok (pages index, total)) := read_returned hreach ht
      cases hread with
      | listed before list count _ _ hown hlist hcount =>
          obtain ⟨hquiet, all, hpage, hlisting⟩ := listed_page hlist
          obtain ⟨hmem, hthread⟩ := Config.mem_own.mp (hown ▸ List.mem_append_left _
            (List.mem_append_right _ (List.mem_singleton.mpr rfl)) :
              Event.act list ∈ state.config.own (threads index))
          refine ⟨all, fun _ => ⟨?_, list, hmem, hthread, hquiet, hlisting⟩⟩
          have hbound := h.fits
          have hshort := h.short
          have hproduct : (index + 1) * 1 ≤ (last + 1) * perPage.toNat :=
            Nat.mul_le_mul (by omega) (by omega)
          have hoffset : index * perPage.toNat ≤ (last + 1) * perPage.toNat :=
            Nat.mul_le_mul_right _ (by omega)
          have hnumber : (UInt32.ofNat (index + 1)).toNat = index + 1 :=
            UInt32.toNat_ofNat_of_lt' (show index + 1 < 2 ^ 32 by omega)
          rw [hpage, page_of_eq, hnumber, Nat.add_sub_cancel]
          rw [hnumber, Nat.add_sub_cancel]
          omega
    · exact ⟨[], fun hle => absurd hle hindex⟩
  choose orders horders using hfacts
  exact ⟨orders, horders⟩

omit [ListingLaws σ] in
/-- What matched when a page was requested is in the listing that the page is taken of. -/
theorem PageAct.covers {thread : Nat} {act : Act (machine σ ε)} {all : List Payment}
    (h : PageAct state filter thread act all)
    (hreach : Reachable (serviceRules σ ε) world state) (hworld : AllCoupled world)
    (hlasting : Lasting filter) {before : World σ ε} (hbegan : Began state thread before)
    {payment : Payment} (hmatches : Matches filter before payment) :
    ∃ listed ∈ all, payment.LeadsTo listed := by
  obtain ⟨call, hstart⟩ := hbegan
  have hleads : Leads before act.before :=
    hreach.start_relates Leads Leads.refl Leads.trans (event_leads hreach) hstart h.mem h.thread
  obtain ⟨listed, hlisted, hkept⟩ := hmatches.of_leads hlasting hleads
    (all_coupled_before hreach hworld hstart)
  exact ⟨listed, (mem_listing h.listing).mpr hlisted, hkept⟩

omit [ListingLaws σ] in
/-- Two listed payments with one id have one instant of creation, and the other way round. -/
theorem PageAct.same_payment {thread thread' : Nat} {act act' : Act (machine σ ε)}
    {all all' : List Payment} (h : PageAct state filter thread act all)
    (h' : PageAct state filter thread' act' all')
    (hreach : Reachable (serviceRules σ ε) world state) (hworld : AllCoupled world)
    (hdistinct : DistinctTimes state.config.world) {payment payment' : Payment}
    (hpayment : payment ∈ all) (hpayment' : payment' ∈ all') :
    payment.createdAt = payment'.createdAt ↔ payment.id = payment'.id := by
  have hlast : ∀ {thread act all payment}, PageAct state filter thread act all → payment ∈ all →
      ∃ last, stored state.config.world.payments payment.id = some last ∧
        last.createdAt = payment.createdAt := by
    intro thread act all payment h hpayment
    obtain ⟨hstored, -⟩ := (mem_listing h.listing).mp hpayment
    obtain ⟨last, hlast, -, hkept⟩ := leads_last hreach h.mem payment.id payment hstored
      (all_coupled_before hreach hworld h.mem _ _ hstored)
    exact ⟨last, hlast, hkept.terms.createdAt⟩
  obtain ⟨last, hstored, htime⟩ := hlast h hpayment
  obtain ⟨last', hstored', htime'⟩ := hlast h' hpayment'
  constructor
  · intro heq
    exact hdistinct _ _ _ _ hstored hstored' (htime.trans (heq.trans htime'.symm))
  · intro heq
    rw [heq, hstored'] at hstored
    cases hstored
    exact htime.symm.trans htime'

/-- Pages of a lasting filter that are read up to one that is not full are complete. -/
theorem PagesRead.complete (h : PagesRead state filter perPage last threads pages)
    (hreach : Reachable (serviceRules σ ε) world state) (hworld : AllCoupled world)
    (hlasting : Lasting filter) (hdistinct : DistinctTimes state.config.world) :
    PagesComplete (fun index => Began state (threads index)) state.config.world filter last
      pages := by
  obtain ⟨orders, horders⟩ := h.exists_orders hreach
  have hreads : Reads Payment.createdAt last orders :=
    page_acts_reads hreach hworld hlasting hdistinct h.ordered fun index hindex =>
      (horders index hindex).2
  have hlisted : ∀ {index shown}, index ≤ last → shown ∈ pages index → shown ∈ orders index := by
    intro index shown hindex hshown
    rw [(horders index hindex).1] at hshown
    exact List.mem_of_mem_drop (List.mem_of_mem_take hshown)
  refine ⟨fun before hbegan payment hmatches => ?_,
    fun index later hlt hlater shown hshown shown' hshown' hid => ?_⟩
  · obtain ⟨hpage, act, hact⟩ := horders 0 (Nat.zero_le _)
    obtain ⟨listed, hmem, hkept⟩ := hact.covers hreach hworld hlasting hbegan hmatches
    have hend : (orders last).length ≤ (last + 1) * perPage.toNat := by
      refine end_of_short ?_
      rw [← (horders last (Nat.le_refl _)).1]
      exact h.short
    obtain ⟨index, hindex, hmet⟩ := hreads.met hend (List.mem_map_of_mem hmem)
    obtain ⟨hpage', act', hact'⟩ := horders index hindex
    rw [← hpage'] at hmet
    obtain ⟨shown, hshown, htime⟩ := List.mem_map.mp hmet
    have hsame := (hact'.same_payment hact hreach hworld hdistinct (hlisted hindex hshown)
      hmem).mp htime
    exact ⟨index, hindex, shown, hshown, hsame.trans hkept.terms.id⟩
  · obtain ⟨hpage, act, hact⟩ := horders index (by omega)
    obtain ⟨hpage', act', hact'⟩ := horders later hlater
    have htime : shown'.createdAt = shown.createdAt :=
      (hact'.same_payment hact hreach hworld hdistinct (hlisted hlater hshown')
        (hlisted (by omega) hshown)).mpr hid
    rw [hpage] at hshown
    rw [hpage'] at hshown'
    obtain ⟨newer, hnewer, hgreater, hnew⟩ := hreads.added_of_met_twice hlt hlater
      (List.mem_map_of_mem hshown) (htime ▸ List.mem_map_of_mem hshown')
    obtain ⟨final, hfinal, hkept⟩ := ((mem_listing hact'.listing).mp hnewer).of_leads hlasting
      (leads_last hreach hact'.mem) (all_coupled_before hreach hworld hact'.mem)
    refine ⟨final, hfinal, hkept.terms.createdAt ▸ hgreater, fun before hbegan old hold heq => ?_⟩
    -- What matched before would have been listed with the earlier page.
    obtain ⟨listed, hmem, hkept'⟩ := hact.covers hreach hworld hlasting hbegan hold
    refine hnew (List.mem_map.mpr ⟨listed, hmem, ?_⟩)
    refine (hact.same_payment hact' hreach hworld hdistinct hmem hnewer).mpr ?_
    rw [hkept'.terms.id, heq, hkept.terms.id]

end Service

section Api

variable {σ ε : Type} [PaymentRepository σ] [WebhookEventRepository ε] [Platform] {app : AppState}

/-- The query for a page, counted from zero. -/
def pageQuery (status : Option PaymentStatus) (perPage : Option UInt32) (index : Nat) :
    ListPaymentsQuery :=
  ⟨some (UInt32.ofNat (index + 1)), perPage, status⟩

omit [Platform] in
/-- A page has from one to a hundred payments. -/
theorem per_page_bounds (query : ListPaymentsQuery) :
    1 ≤ query.perPagePassed.toNat ∧ query.perPagePassed.toNat ≤ 100 := by
  have hmax : ∀ bound : UInt32, bound.toNat ≤ 100 →
      1 ≤ (max 1 bound).toNat ∧ (max 1 bound).toNat ≤ 100 := by
    intro bound hbound
    change 1 ≤ (if 1 ≤ bound then bound else 1).toNat ∧
      (if 1 ≤ bound then bound else 1).toNat ≤ 100
    split
    · rename_i hle
      exact ⟨UInt32.le_iff_toNat_le.mp hle, hbound⟩
    · exact ⟨by decide, by decide⟩
  refine hmax _ ?_
  change (if query.perPage.getD defaultPerPage ≤ maxPerPage then query.perPage.getD defaultPerPage
    else maxPerPage).toNat ≤ 100
  split
  · rename_i hle
    exact UInt32.le_iff_toNat_le.mp hle
  · decide

omit [Platform] in
/-- The number of a page is passed on as it is. -/
theorem page_passed_eq (status : Option PaymentStatus) (perPage : Option UInt32) {index : Nat}
    (hindex : index + 1 < 2 ^ 32) :
    (pageQuery status perPage index).pagePassed = UInt32.ofNat (index + 1) := by
  have hnumber : (UInt32.ofNat (index + 1)).toNat = index + 1 := UInt32.toNat_ofNat_of_lt' hindex
  change (if UInt32.ofNat (index + 1) ≤ 1 then 1 else UInt32.ofNat (index + 1)) = _
  split
  · rename_i hle
    rw [UInt32.le_iff_toNat_le, hnumber] at hle
    change index + 1 ≤ 1 at hle
    obtain rfl : index = 0 := by omega
    rfl
  · rfl

/-- A client follows the pages, each requested after the answer to the one before it, up to one
that is not full. With that many pages of that size the listing ends below `2 ^ 32`: the offset of
no page, which the store computes as a `u32`, wraps around. -/
structure FollowsPages (state : State (api σ ε app)) (status : Option PaymentStatus)
    (perPage : Option UInt32) (last : Nat) (threads : Nat → Nat)
    (pages : Nat → PaymentListResponse) : Prop where
  answered : ∀ index ≤ last, state.threads[threads index]? =
    some ⟨.listPayments (pageQuery status perPage index), .done (.ok (pages index))⟩
  ordered : ∀ index later, index < later → later ≤ last →
    Follows state (threads index) (threads later)
  short : (pages last).data.length < (pages last).perPage.toNat
  fits : (last + 1) * (pages last).perPage.toNat < 2 ^ 32

/-- The payments that a response lists. -/
def PaymentListResponse.payments (response : PaymentListResponse) : List Payment :=
  response.data.map PaymentResponse.payment

omit [Platform] in
/-- What is listed is what the service returned. -/
theorem listed_by {query : ListPaymentsQuery} {response : PaymentListResponse}
    {result : Except PaymentError (List Payment × Int)}
    (h : respondWith query.response result = .done (.ok response)) :
    ∃ total, result = .ok (response.payments, total) ∧ response = query.response
      (response.payments, total) := by
  cases result with
  | error error => cases h
  | ok listed =>
      obtain ⟨payments, total⟩ := listed
      cases h
      have hround : PaymentResponse.payment ∘ PaymentResponse.ofPayment = id := rfl
      have hpayments : (query.response (payments, total)).payments = payments := by
        simp [ListPaymentsQuery.response, PaymentListResponse.payments, hround]
      exact ⟨total, by rw [hpayments], by rw [hpayments]⟩

/-- Behind a page that was answered, the service has returned its payments and the total. -/
theorem listed_behind {outer : State (api σ ε app)} {inner : State (machine σ ε)}
    (hshows : FrontEnd.Shows (F := frontEnd σ ε app) outer inner) {thread : Nat}
    {query : ListPaymentsQuery} {response : PaymentListResponse}
    (ht : outer.threads[thread]? = some ⟨.listPayments query, .done (.ok response)⟩) :
    ∃ total, inner.threads[thread]? =
        some ⟨.listPayments query.status query.pagePassed query.perPagePassed,
          .done (.ok (response.payments, total))⟩ ∧
      response = query.response (response.payments, total) := by
  obtain ⟨result, hinner, hresponse⟩ := hshows.returned ht (respond_with_done query.response)
  obtain ⟨total, rfl, heq⟩ := listed_by hresponse
  exact ⟨total, hinner, heq⟩

/-- Behind pages that are followed, the service has read them. -/
theorem FollowsPages.behind {outer : State (api σ ε app)} {inner : State (machine σ ε)}
    (hshows : FrontEnd.Shows (F := frontEnd σ ε app) outer inner) {status : Option PaymentStatus}
    {perPage : Option UInt32} {last : Nat} {threads : Nat → Nat}
    {pages : Nat → PaymentListResponse}
    (h : FollowsPages outer status perPage last threads pages) :
    PagesRead inner status (pageQuery status perPage 0).perPagePassed last threads
      fun index => (pages index).payments := by
  have hanswered : ∀ index ≤ last, ∃ total, inner.threads[threads index]? =
      some ⟨.listPayments status (pageQuery status perPage index).pagePassed
        (pageQuery status perPage 0).perPagePassed, .done (.ok ((pages index).payments, total))⟩ ∧
      (pages index).perPage = (pageQuery status perPage 0).perPagePassed := by
    intro index hindex
    obtain ⟨total, ht, heq⟩ := listed_behind hshows (h.answered index hindex)
    exact ⟨total, ht, congrArg PaymentListResponse.perPage heq⟩
  obtain ⟨-, -, hsize⟩ := hanswered last (Nat.le_refl _)
  have hbounds := (per_page_bounds (pageQuery status perPage 0)).1
  have hfits := h.fits
  have hshort := h.short
  rw [hsize] at hfits hshort
  have hnumber : (last + 1) * 1 ≤
      (last + 1) * (pageQuery status perPage 0).perPagePassed.toNat :=
    Nat.mul_le_mul_left _ hbounds
  refine ⟨fun index hindex => ?_, fun index later hlt hlater => ?_, ?_, hfits⟩
  · obtain ⟨total, ht, -⟩ := hanswered index hindex
    rw [page_passed_eq status perPage (by omega)] at ht
    exact ⟨total, ht⟩
  · exact hshows.follows (h.ordered index later hlt hlater)
  · rw [PaymentListResponse.payments, List.length_map]
    exact hshort

/-- A request begins in the world in which the call behind it does. -/
theorem began_behind {outer : State (api σ ε app)} {inner : State (machine σ ε)}
    (hshows : FrontEnd.Shows (F := frontEnd σ ε app) outer inner) {thread : Nat}
    {before : World σ ε} (h : Began outer thread before) : Began inner thread before := by
  obtain ⟨call, hstart⟩ := h
  rcases hshows.kept _ hstart with hkept | ⟨act, hact, -⟩
  · exact ⟨call.behind app, hkept⟩
  · cases hact

end Api

section Backends

variable [Platform]

/-- On either backend, a client that follows the pages of all payments, or of those of a final
status, up to one that is not full misses none that was there when it began, however many are
created and moved meanwhile, and meets one twice only if a newer one has come to match. The pages
have room for fewer than `2 ^ 32` payments. -/
theorem pages_complete {backend : Backend} {app : AppState}
    {state : State (api backend.Payments backend.Events app)}
    (hreach : Reachable ((frontEnd backend.Payments backend.Events app).rules
      (serviceRules backend.Payments backend.Events)) backend.empty state)
    {status : Option PaymentStatus} {perPage : Option UInt32} {last : Nat} {threads : Nat → Nat}
    {pages : Nat → PaymentListResponse} (hlasting : Lasting status)
    (hdistinct : DistinctTimes state.config.world)
    (hfollows : FollowsPages state status perPage last threads pages) :
    PagesComplete (fun index => Began state (threads index)) state.config.world status last
      fun index => (pages index).payments := by
  obtain ⟨inner, hinner, hshows⟩ := FrontEnd.exists_behind hreach
  have hworld : AllCoupled backend.empty := by simp [AllCoupled]
  rw [← hshows.world] at hdistinct ⊢
  obtain ⟨hcomplete, hrepeated⟩ :=
    (hfollows.behind hshows).complete hinner hworld hlasting hdistinct
  refine ⟨fun before hbegan => hcomplete before (began_behind hshows hbegan),
    fun index later hlt hlater shown hshown shown' hshown' hid => ?_⟩
  obtain ⟨newer, hnewer, hgreater, hnew⟩ :=
    hrepeated index later hlt hlater shown hshown shown' hshown' hid
  exact ⟨newer, hnewer, hgreater, fun before hbegan => hnew before (began_behind hshows hbegan)⟩

/-- On either backend, the total that comes with a page of a lasting filter counts at least the
payments of the page and those on the pages before it. -/
theorem total_covers_page {backend : Backend} {app : AppState}
    {state : State (api backend.Payments backend.Events app)}
    (hreach : Reachable ((frontEnd backend.Payments backend.Events app).rules
      (serviceRules backend.Payments backend.Events)) backend.empty state) {thread : Nat}
    {query : ListPaymentsQuery} {response : PaymentListResponse} (hlasting : Lasting query.status)
    (ht : state.threads[thread]? = some ⟨.listPayments query, .done (.ok response)⟩)
    (hsome : response.data ≠ []) :
    ((pageOffset query.pagePassed query.perPagePassed).toNat : Int) + response.data.length ≤
      response.total := by
  obtain ⟨inner, hinner, hshows⟩ := FrontEnd.exists_behind hreach
  obtain ⟨total, hinnerThread, heq⟩ := listed_behind hshows ht
  have hworld : AllCoupled backend.empty := by simp [AllCoupled]
  have hpayments : response.payments ≠ [] := by
    simpa [PaymentListResponse.payments] using hsome
  have hwithin := page_within_total hinner hworld hlasting hinnerThread hpayments
  rw [PaymentListResponse.payments, List.length_map] at hwithin
  rwa [show response.total = total from congrArg PaymentListResponse.total heq]

end Backends

/-- Where a first page that is not full shows distinct instants, all instants are distinct. -/
theorem distinct_times_of_page {σ ε : Type} [PaymentRepository σ] [RepositoryLaws σ]
    [ListingLaws σ] {world : World σ ε} {scan : Scan} {perPage : UInt32} {payments : List Payment}
    (hpage : PaymentRepository.listPaginated scan none 1 perPage world.payments = .ok payments)
    (hshort : payments.length < perPage.toNat) (hnodup : (payments.map Payment.createdAt).Nodup) :
    DistinctTimes world := by
  obtain ⟨all, hshown, hlisting⟩ := ListingLaws.page scan none 1 perPage world.payments
  have hall : payments = all := by
    have hfirst : payments = page perPage.toNat 0 all := by
      have heq := Except.ok.inj (hpage.symm.trans hshown)
      rwa [page_of_eq (by simp)] at heq
    rw [page, Nat.zero_mul, List.drop_zero] at hfirst
    rw [hfirst, List.length_take] at hshort
    rw [hfirst, List.take_of_length_le (by omega)]
  subst hall
  intro id id' payment payment' hstored hstored' heq
  have hmem : ∀ {id payment}, stored world.payments id = some payment → payment ∈ payments := by
    intro id payment hstored
    refine (hlisting.mem payment).mpr ⟨?_, rfl⟩
    rw [RepositoryLaws.stored_id hstored]
    exact hstored
  have hsame := List.inj_on_of_nodup_map hnodup (hmem hstored) (hmem hstored') heq
  rw [← RepositoryLaws.stored_id hstored, ← RepositoryLaws.stored_id hstored', hsame]

deriving instance DecidableEq for ListPaymentsQuery, PaymentListResponse

section Run

attribute [local instance] Plain.platform

open Plain

/-- The requests of a creation at a moment. -/
def creating (thread : Nat) (reference : String) (now : DateTime) (id : Uuid) :
    List (Choice (api Database EventTable plainApp)) :=
  .start (.createPayment ⟨[]⟩ (requestOf "10" reference)) ::
    List.replicate 3 (.act thread (env now id))

/-- The requests for a page of one payment. -/
def paging (thread index : Nat) : List (Choice (api Database EventTable plainApp)) :=
  .start (.listPayments (pageQuery none (some 1) index)) ::
    List.replicate 2 (.act thread (env 9000 99))

/-- A client follows pages of one payment, and a third one is created after the first page. -/
def followed : List (Choice (api Database EventTable plainApp)) :=
  creating 0 "order-1" 5000 7 ++ creating 1 "order-2" 6000 8 ++ paging 2 0 ++
    creating 3 "order-3" 7000 9 ++ paging 4 1 ++ paging 5 2 ++ paging 6 3

/-- The threads that read the pages. -/
def pageThreads (index : Nat) : Nat :=
  if index = 0 then 2 else index + 3

/-- The pages that are read. The second shows again what the first one has shown. -/
def pagesSeen (index : Nat) : PaymentListResponse :=
  let listed : List Payment := match index with
    | 0 | 1 => [pending 8 "10" "order-2" 6000]
    | 2 => [pending 7 "10" "order-1" 5000]
    | _ => []
  (pageQuery none (some 1) index).response (listed, if index = 0 then 2 else 3)

/-- What a thread has answered to `list_payments`. -/
def listResponse (state : State (api Database EventTable plainApp)) (thread : Nat) :
    Option (ListPaymentsQuery × Except ApiError PaymentListResponse) :=
  match state.threads[thread]? with
  | some ⟨.listPayments query, .done response⟩ => some (query, response)
  | _ => none

/-- The thread has given that answer. -/
theorem list_response_eq {state : State (api Database EventTable plainApp)} {thread : Nat}
    {query : ListPaymentsQuery} {response : Except ApiError PaymentListResponse}
    (h : listResponse state thread = some (query, response)) :
    state.threads[thread]? = some ⟨.listPayments query, .done response⟩ := by
  unfold listResponse at h
  split at h
  · rename_i hthread
    cases h
    exact hthread
  · cases h

/-- The instants of the payments that are stored. -/
def storedTimes (state : State (api Database EventTable plainApp)) : List DateTime :=
  match PaymentRepository.listPaginated scan none 1 100 state.config.world.payments with
  | .ok payments => payments.map Payment.createdAt
  | .error _ => []

/-- What is tested of the run. -/
def followedTest (state : State (api Database EventTable plainApp)) : Bool :=
  ((List.range 4).all fun later => (List.range later).all fun index =>
      decide (Follows state (pageThreads index) (pageThreads later))) &&
    ((List.range 4).all fun index => decide (listResponse state (pageThreads index) =
      some (pageQuery none (some 1) index, .ok (pagesSeen index)))) &&
    storedTimes state == [7000, 6000, 5000]

/-- The run exists. -/
theorem exists_followed : ∃ state, Reachable ((frontEnd Database EventTable plainApp).rules
    (serviceRules Database EventTable)) Backend.postgres.empty state ∧ followedTest state = true :=
  exists_reachable _ followed Backend.postgres.empty followedTest (by decide)

/-- What the test says of the answers. -/
theorem followed_answers {state : State (api Database EventTable plainApp)}
    (htest : followedTest state = true) {index : Nat} (hindex : index ≤ 3) :
    state.threads[pageThreads index]? =
      some ⟨.listPayments (pageQuery none (some 1) index), .done (.ok (pagesSeen index))⟩ := by
  simp only [followedTest, Bool.and_eq_true, List.all_eq_true, List.mem_range,
    decide_eq_true_eq] at htest
  exact list_response_eq (htest.1.2 index (by omega))

/-- The client of the run follows the pages, and all instants are distinct. -/
theorem followed_pages {state : State (api Database EventTable plainApp)}
    (htest : followedTest state = true) :
    FollowsPages state none (some 1) 3 pageThreads pagesSeen ∧
      DistinctTimes state.config.world := by
  have hanswers := fun index => @followed_answers state htest index
  simp only [followedTest, Bool.and_eq_true, List.all_eq_true, List.mem_range, decide_eq_true_eq,
    beq_iff_eq] at htest
  obtain ⟨⟨hordered, -⟩, htimes⟩ := htest
  refine ⟨⟨hanswers, fun index later hlt hlater => ?_, by decide, by decide⟩, ?_⟩
  · exact hordered later (by omega) index hlt
  · unfold storedTimes at htimes
    split at htimes
    · rename_i payments hpage
      have hlength := congrArg List.length htimes
      rw [List.length_map] at hlength
      refine distinct_times_of_page hpage ?_ ?_
      · show payments.length < 100
        rw [hlength]
        decide
      · rw [htimes]
        decide
    · cases htimes

/-- The pages of the run are complete, though one payment is shown twice. -/
theorem pages_complete_followed : ∃ state : State (api Database EventTable plainApp),
    (pagesSeen 0).payments = (pagesSeen 1).payments ∧
    PagesComplete (fun index => Began state (pageThreads index)) state.config.world none 3
      fun index => (pagesSeen index).payments := by
  obtain ⟨state, hreach, htest⟩ := exists_followed
  obtain ⟨hfollows, hdistinct⟩ := followed_pages htest
  exact ⟨state, rfl, @pages_complete platform .postgres plainApp state hreach none (some 1) 3
    pageThreads pagesSeen (by decide) hdistinct hfollows⟩

/-- The total that comes with the second page counts the payments of the first two. -/
theorem total_covers_page_followed :
    ((pageOffset (pageQuery none (some 1) 1).pagePassed
        (pageQuery none (some 1) 1).perPagePassed).toNat : Int) + (pagesSeen 1).data.length ≤
      (pagesSeen 1).total := by
  obtain ⟨state, hreach, htest⟩ := exists_followed
  have hanswer := followed_answers htest (show 1 ≤ 3 by decide)
  exact @total_covers_page platform .postgres plainApp state hreach (pageThreads 1)
    (pageQuery none (some 1) 1) (pagesSeen 1) (by decide) hanswer (by decide)

end Run

end StellarPay
