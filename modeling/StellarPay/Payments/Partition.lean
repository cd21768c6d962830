import StellarPay.Payments.Pagination
import Mathlib.Data.List.NodupEquivFin

/-!
# Page after page

Each page is a query of its own, which orders the payments by `created_at` and nothing else. The
pages of separate calls partition the payments if no boundary between two pages separates payments
created at one instant. Otherwise some answers of the database show a payment twice.
-/

namespace StellarPay

open Interleaving Paging

section Scans

variable {α : Type}

/-- Any order of some elements is that of a scan. -/
theorem Scan.exists_order [DecidableEq α] {elements target : List α} (hnodup : elements.Nodup)
    (h : target.Perm elements) : ∃ scan : Scan, scan.order elements = target := by
  have htarget : target.Nodup := h.nodup_iff.mpr hnodup
  let positions : Fin elements.length ≃ Fin elements.length :=
    (finCongr h.length_eq.symm).trans ((List.Nodup.getEquiv target htarget).trans
      ((Equiv.subtypeEquivRight fun _ => h.mem_iff).trans
        (List.Nodup.getEquiv elements hnodup).symm))
  have hget : ∀ position, elements.get (positions position) =
      target.get (finCongr h.length_eq.symm position) := by
    intro position
    exact congrArg Subtype.val ((List.Nodup.getEquiv elements hnodup).apply_symm_apply _)
  refine ⟨fun length => if heq : length = elements.length then heq ▸ positions else .refl _, ?_⟩
  rw [order, dif_pos rfl]
  refine List.ext_getElem (by simp [h.length_eq]) fun position hfirst hsecond => ?_
  rw [List.getElem_ofFn]
  exact hget _

/-- What is sorted stays as it is. -/
theorem sort_by_key_eq {key : α → DateTime} {elements : List α}
    (h : elements.Pairwise fun first second => key first ≤ key second) :
    sortByKey key elements = elements :=
  h.insertionSort_eq

/-- A rearranged image is the image of a rearrangement. -/
theorem perm_of_map {β : Type} {value : α → β} {elements : List α} {images : List β}
    (h : images.Perm (elements.map value)) :
    ∃ rearranged : List α, rearranged.Perm elements ∧ rearranged.map value = images := by
  have hvalues : List.Forall₂ (fun image element => image = value element) (elements.map value)
      elements :=
    List.forall₂_map_left_iff.mpr (List.forall₂_same.mpr fun _ _ => rfl)
  obtain ⟨rearranged, himages, hperm⟩ := List.perm_comp_forall₂ h hvalues
  refine ⟨rearranged, hperm, ?_⟩
  rw [← List.forall₂_eq_eq_eq, List.forall₂_map_left_iff]
  exact himages.flip.imp fun _ _ => Eq.symm

end Scans

section Queries

variable [Platform]

/-- The database may answer a page from any listing of its payments. -/
theorem Database.exists_scan {db : Database} {filter : Option PaymentStatus}
    {payments : List Payment} (h : Listing db (selects filter) newest payments) :
    ∃ scan, ∀ page perPage, PaymentRepository.listPaginated scan filter page perPage db =
      .ok (pageOf page perPage payments) := by
  obtain ⟨hnodup, hmem⟩ := selected (matching_text_eq filter)
    (List.Perm.refl (matching filter db.payments.values))
  have hlisting : Listing db (selects filter) (fun _ _ => True)
      ((matching filter db.payments.values).map PaymentRow.view) :=
    ⟨hnodup, hmem, List.pairwise_of_forall fun _ _ => trivial⟩
  obtain ⟨rows, hperm, rfl⟩ := perm_of_map (h.perm hlisting)
  have hrows : ∀ row ∈ rows, row ∈ matching filter db.payments.values :=
    fun row hrow => hperm.mem_iff.mp hrow
  have hvalues : db.payments.values.Nodup := (HashMap.values_nodup db.keyed).of_map
  -- The scan meets the matching rows in the wanted order, and then all others.
  obtain ⟨scan, hscan⟩ := Scan.exists_order hvalues
    ((hperm.append_right _).trans (List.filter_append_perm _ db.payments.values))
  have hmatching : matching filter (scan.order db.payments.values) = rows := by
    rw [hscan, matching, List.filter_append, List.filter_eq_self.mpr, List.filter_filter,
      List.filter_eq_nil_iff.mpr, List.append_nil]
    · simp
    · exact fun row hrow => (List.mem_filter.mp (hrows row hrow)).2
  have hsorted : sortByKey (fun row => -row.createdAt) rows = rows := by
    refine sort_by_key_eq ?_
    have hnewest := List.pairwise_map.mp h.sorted
    simpa using hnewest
  refine ⟨scan, fun page perPage => ?_⟩
  show listPaginated scan filter page perPage db = _
  rw [listPaginated, hmatching, hsorted, ← map_page]
  exact collect_eq db fun row hrow => List.mem_of_mem_filter (hrows row (mem_of_mem_page hrow))

variable {ε : Type} [WebhookEventRepository ε]

/-- What `list_payments` returns and leaves behind when nobody else acts. -/
def pageResult (env : Env) (filter : Option PaymentStatus) (page perPage : UInt32)
    (world : World Database ε) :
    Except PaymentError (List Payment × Int) × World Database ε :=
  (PaymentService.listPayments filter page perPage).run answer (fun _ => env) world

/-- The number of payments that a filter lets through. -/
def matchingCount (db : Database) (filter : Option PaymentStatus) : Nat :=
  (Database.matching filter db.payments.values).length

/-- The number of pages. -/
def pageCount (total : Nat) (perPage : UInt32) : Nat :=
  (total + perPage.toNat - 1) / perPage.toNat

/-- All pages, one after the other. -/
def allPages (world : World Database ε) (filter : Option PaymentStatus) (perPage : UInt32)
    (pages : Nat → List Payment) : List Payment :=
  (List.range (pageCount (matchingCount world.payments filter) perPage)).flatMap pages

/-- The pages that separate calls return, each in an environment of its own, partition the payments,
and every call tells how many these are. -/
def PagesPartition (world : World Database ε) (filter : Option PaymentStatus) (perPage : UInt32)
    (envs : Nat → Env) : Prop :=
  ∃ pages : Nat → List Payment,
    (∀ index < pageCount (matchingCount world.payments filter) perPage,
      pageResult (envs index) filter (UInt32.ofNat (index + 1)) perPage world =
        (.ok (pages index, (allPages world filter perPage pages).length), world)) ∧
    Listing world.payments (selects filter) newest (allPages world filter perPage pages)

/-- No boundary between two pages separates payments created at one instant. -/
def BoundariesClear (db : Database) (filter : Option PaymentStatus) (perPage : UInt32) : Prop :=
  ∀ payments, Listing db (selects filter) newest payments →
    Clear Payment.createdAt perPage.toNat payments

variable {world : World Database ε} {filter : Option PaymentStatus} {perPage : UInt32}

/-- A call returns the page that the store answers, and the number of payments. -/
theorem page_result_eq {env : Env} (hworks : env.paymentsFault = none) {page : UInt32}
    {payments : List Payment}
    (hpage : PaymentRepository.listPaginated env.scan filter page perPage world.payments =
      .ok payments) :
    pageResult env filter page perPage world =
      (.ok (payments, (matchingCount world.payments filter : Int)), world) := by
  have hcount : PaymentRepository.count filter world.payments =
      .ok (matchingCount world.payments filter : Int) := rfl
  simp [pageResult, PaymentService.listPayments, ask, answer, onPayments, attempt, hworks, reading,
    hpage, hcount]

/-- A listing has as many payments as match. -/
theorem listing_length {db : Database} {ordered : DateTime → DateTime → Prop}
    {payments : List Payment} (h : Listing db (selects filter) ordered payments) :
    payments.length = matchingCount db filter := by
  obtain ⟨counted, hcount, hlisting⟩ := ListingLaws.count filter db
  have heq : (matchingCount db filter : Int) = counted.length := Except.ok.inj hcount
  rw [(h.perm hlisting).length_eq]
  omega

omit [Platform] in
/-- The pages have room for all payments. -/
theorem le_page_count (total : Nat) (hsize : 0 < perPage.toNat) :
    total ≤ pageCount total perPage * perPage.toNat := by
  have hdivision := Nat.div_add_mod (total + perPage.toNat - 1) perPage.toNat
  have hrest := Nat.mod_lt (total + perPage.toNat - 1) hsize
  rw [pageCount, Nat.mul_comm]
  omega

omit [Platform] in
/-- A page that begins before the end is one of the pages. -/
theorem lt_page_count {total index : Nat} (hsize : 0 < perPage.toNat)
    (hindex : index * perPage.toNat < total) : index < pageCount total perPage :=
  Nat.lt_of_mul_lt_mul_right (Nat.lt_of_lt_of_le hindex (le_page_count total hsize))

/-- The numbers of all pages and their offsets fit 32 bits. -/
structure PagesFit (db : Database) (filter : Option PaymentStatus) (perPage : UInt32) : Prop where
  number : pageCount (matchingCount db filter) perPage < 2 ^ 32
  offset : (pageCount (matchingCount db filter) perPage - 1) * perPage.toNat < 2 ^ 32

omit [Platform] in
/-- Every page is then what it should be. -/
theorem PagesFit.page_of {db : Database} (h : PagesFit db filter perPage) {index : Nat}
    (hindex : index < pageCount (matchingCount db filter) perPage) (payments : List Payment) :
    pageOf (UInt32.ofNat (index + 1)) perPage payments =
      Paging.page perPage.toNat index payments := by
  have hnumber : (UInt32.ofNat (index + 1)).toNat = index + 1 := by
    have hfits := h.number
    exact UInt32.toNat_ofNat_of_lt' (show index + 1 < 2 ^ 32 by omega)
  have hoffset : index * perPage.toNat < 2 ^ 32 :=
    Nat.lt_of_le_of_lt (Nat.mul_le_mul_right _ (by omega)) h.offset
  rw [page_of_eq, hnumber, Nat.add_sub_cancel]
  rwa [hnumber, Nat.add_sub_cancel]

/-- If no boundary separates payments created at one instant, the pages partition the payments. -/
theorem pages_partition_of_clear (hsize : 0 < perPage.toNat)
    (hfit : PagesFit world.payments filter perPage)
    (hclear : BoundariesClear world.payments filter perPage) {envs : Nat → Env}
    (hworks : ∀ index, (envs index).paymentsFault = none) :
    PagesPartition world filter perPage envs := by
  have hpages := fun index => ListingLaws.page (envs index).scan filter
    (UInt32.ofNat (index + 1)) perPage world.payments
  choose orders hpage hlisting using hpages
  have hroom : (orders 0).length ≤
      pageCount (matchingCount world.payments filter) perPage * perPage.toNat := by
    rw [listing_length (hlisting 0)]
    exact le_page_count _ hsize
  obtain ⟨hperm, hsorted⟩ := pages_partition (hlisting 0).sorted (hclear _ (hlisting 0))
    (fun index => (hlisting 0).perm (hlisting index)) (fun index => (hlisting index).sorted) hroom
  have hall : Listing world.payments (selects filter) newest
      (allPages world filter perPage fun index =>
        Paging.page perPage.toNat index (orders index)) :=
    (hlisting 0).of_perm hperm hsorted
  refine ⟨fun index => Paging.page perPage.toNat index (orders index), fun index hindex => ?_, hall⟩
  rw [page_result_eq (hworks index) (hpage index), hfit.page_of hindex, listing_length hall]

/-- Environments in which the page after the given one is read in an order of its own. -/
def switching (before after : Scan) (index page : Nat) : Env where
  now := 0
  uuid := 0
  scan := if page ≤ index then before else after
  horizon := ⟨fun _ => .ok [], fun _ => .ok none, fun _ => .error .notFound⟩
  recorder := .ok ()
  endpoint := .ok 200
  paymentsFault := none
  eventsFault := none

/-- If the pages partition the payments whatever orders they are read in, then no boundary separates
payments created at one instant. -/
theorem clear_of_pages_partition (hsize : 0 < perPage.toNat)
    (hfit : PagesFit world.payments filter perPage)
    (h : ∀ envs : Nat → Env, (∀ index, (envs index).paymentsFault = none) →
      PagesPartition world filter perPage envs) :
    BoundariesClear world.payments filter perPage := by
  intro payments hlisting
  by_contra hclear
  obtain ⟨other, index, payment, hperm, hsorted, hend, hbefore, hafter⟩ :=
    exists_repeated hsize hlisting.sorted hclear
  rw [listing_length hlisting] at hend
  obtain ⟨scan, hscan⟩ := Database.exists_scan hlisting
  obtain ⟨scan', hscan'⟩ := Database.exists_scan (hlisting.of_perm hperm hsorted)
  obtain ⟨pages, hpages, hall⟩ := h (switching scan scan' index) fun _ => rfl
  have hnext : index + 1 < pageCount (matchingCount world.payments filter) perPage :=
    lt_page_count hsize hend
  have hshown : ∀ {page : Nat} {listed : List Payment},
      page < pageCount (matchingCount world.payments filter) perPage →
      (∀ number perPage, PaymentRepository.listPaginated (switching scan scan' index page).scan
        filter number perPage world.payments = .ok (pageOf number perPage listed)) →
      pages page = Paging.page perPage.toNat page listed := by
    intro page listed hpage hlisted
    have hresult := hpages page hpage
    rw [page_result_eq rfl (hlisted _ _), hfit.page_of hpage] at hresult
    exact (Prod.mk.inj (Except.ok.inj (Prod.mk.inj hresult).1)).1.symm
  have hfirst : pages index = Paging.page perPage.toNat index payments := by
    refine hshown (by omega) fun number perPage => ?_
    rw [switching, if_pos (Nat.le_refl _)]
    exact hscan number perPage
  have hsecond : pages (index + 1) = Paging.page perPage.toNat (index + 1) other := by
    refine hshown hnext fun number perPage => ?_
    rw [switching, if_neg (Nat.not_succ_le_self _)]
    exact hscan' number perPage
  -- The payment is on both pages, so it is twice among all.
  obtain ⟨-, hdisjoint⟩ := List.nodup_flatMap.mp hall.nodup.of_map
  have hapart : (pages index).Disjoint (pages (index + 1)) :=
    pairwise_at hdisjoint (List.getElem?_range (Nat.lt_of_succ_lt hnext))
      (List.getElem?_range hnext) (Nat.lt_succ_self index)
  rw [hfirst, hsecond] at hapart
  exact hapart hbefore hafter

/-- On Postgres, with the offsets of all pages within 32 bits: the pages that separate calls return
partition the payments, whatever order the database reads each of them in, if and only if no
boundary between two pages separates payments created at one instant. -/
theorem pages_partition_iff (hsize : 0 < perPage.toNat)
    (hfit : PagesFit world.payments filter perPage) :
    (∀ envs : Nat → Env, (∀ index, (envs index).paymentsFault = none) →
      PagesPartition world filter perPage envs) ↔
    BoundariesClear world.payments filter perPage :=
  ⟨clear_of_pages_partition hsize hfit, fun hclear _ hworks =>
    pages_partition_of_clear hsize hfit hclear hworks⟩

end Queries

section Run

attribute [local instance] Plain.platform

open Plain

/-- Two payments, created one after the other. -/
def siblings : World Database EventTable :=
  holding [pending 7 "10" "order-1" 5000, pending 8 "20" "order-2" 6000]

/-- Two payments created at one instant. -/
def twins : World Database EventTable :=
  holding [pending 7 "10" "order-1" 5000, pending 8 "20" "order-2" 5000]

/-- The pages of `siblings`, with one payment each. -/
theorem pages_partition_siblings :
    pageCount (matchingCount siblings.payments none) 1 = 2 ∧
    ((∀ envs : Nat → Env, (∀ index, (envs index).paymentsFault = none) →
      PagesPartition siblings none 1 envs) ↔ BoundariesClear siblings.payments none 1) :=
  ⟨by decide, pages_partition_iff (by decide) ⟨by decide, by decide⟩⟩

/-- The first page is read in the order of the table, and the second one in the other order. -/
def turning (page : Nat) : Env :=
  { env 0 0 with scan := if page = 0 then scan else fun _ => Fin.revPerm }

/-- The ids on a page. -/
def shownIds (result : Except PaymentError (List Payment × Int)) : List Uuid :=
  match result with
  | .ok (payments, _) => payments.map Payment.id
  | .error _ => []

/-- Both pages of `twins` may show the same payment. -/
theorem twin_on_both_pages : (∀ page, (turning page).paymentsFault = none) ∧
    PagesFit twins.payments none 1 ∧
    shownIds (pageResult (turning 0) none 1 1 twins).1 = [8] ∧
    shownIds (pageResult (turning 1) none 2 1 twins).1 = [8] ∧
    ¬ PagesPartition twins none 1 turning := by
  have hfirst : shownIds (pageResult (turning 0) none 1 1 twins).1 = [8] := by decide
  have hsecond : shownIds (pageResult (turning 1) none 2 1 twins).1 = [8] := by decide
  refine ⟨fun _ => rfl, ⟨by decide, by decide⟩, hfirst, hsecond, fun ⟨pages, hpages, hall⟩ => ?_⟩
  have hcount : pageCount (matchingCount twins.payments none) 1 = 2 := by decide
  rw [hcount] at hpages
  have hids : (allPages twins none 1 pages).map Payment.id = [8, 8] := by
    have hpage := congrArg (shownIds ·.1) (hpages 0 (by omega))
    have hpage' := congrArg (shownIds ·.1) (hpages 1 (by omega))
    rw [allPages, hcount, List.map_flatMap]
    exact congrArg₂ (· ++ ·) (hpage.symm.trans hfirst)
      (congrArg (· ++ []) (hpage'.symm.trans hsecond))
  have hnodup := hall.nodup
  rw [hids] at hnodup
  exact absurd hnodup (by decide)

end Run

end StellarPay
