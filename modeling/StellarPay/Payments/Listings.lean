import StellarPay.Payments.InMemory
import StellarPay.Payments.PostgresLaws

/-!
# What a store lists

A `Listing` names every stored payment of some statuses once, in the order of their creation. Both
implementations answer `list_pending_for_reconciliation`, `list_paginated` and `count` from one.
-/

namespace StellarPay

/-- The statuses that a filter lets through. -/
def selects (filter : Option PaymentStatus) (status : PaymentStatus) : Bool :=
  match filter with
  | some wanted => status == wanted
  | none => true

/-- The statuses that a pass looks at. -/
def unsettled (status : PaymentStatus) : Bool :=
  status == .pending || status == .detected

/-- The part of a list that a page shows. -/
def pageOf {α : Type} (page perPage : UInt32) (elements : List α) : List α :=
  (elements.drop (pageOffset page perPage).toNat).take perPage.toNat

/-- A page shows elements of the list. -/
theorem mem_of_mem_page {α : Type} {page perPage : UInt32} {elements : List α} {element : α}
    (h : element ∈ pageOf page perPage elements) : element ∈ elements :=
  List.mem_of_mem_drop (List.mem_of_mem_take h)

/-- Pages are taken of the elements, whatever is made of each. -/
theorem map_page {α β : Type} (page perPage : UInt32) (value : α → β) (elements : List α) :
    (pageOf page perPage elements).map value = pageOf page perPage (elements.map value) := by
  rw [pageOf, pageOf, List.map_take, List.map_drop]

/-- The stored payments of the wanted statuses, each once, ordered by their creation. -/
structure Listing {σ : Type} [PaymentRepository σ] (state : σ) (wanted : PaymentStatus → Bool)
    (ordered : DateTime → DateTime → Prop) (payments : List Payment) : Prop where
  nodup : (payments.map Payment.id).Nodup
  mem : ∀ payment, payment ∈ payments ↔
    stored state payment.id = some payment ∧ wanted payment.status = true
  sorted : payments.Pairwise fun first second => ordered first.createdAt second.createdAt

/-- A pass is given a listing of the payments it looks at. -/
theorem pending_listing {σ : Type} [PaymentRepository σ] [RepositoryLaws σ] (scan : Scan)
    (state : σ) :
    ∃ payments, PaymentRepository.listPendingForReconciliation scan state = .ok payments ∧
      Listing state unsettled (fun first second => first ≤ second) payments := by
  obtain ⟨payments, hpayments, hnodup, hsorted, hmem⟩ :=
    @RepositoryLaws.mem_pending σ _ _ scan state
  refine ⟨payments, hpayments, hnodup, fun payment => (hmem payment).trans ?_, hsorted⟩
  simp [unsettled]

/-- What the pages and the counts of the two implementations have in common. -/
class ListingLaws (σ : Type) [PaymentRepository σ] where
  page (scan : Scan) (filter : Option PaymentStatus) (page perPage : UInt32) (state : σ) :
    ∃ payments, PaymentRepository.listPaginated scan filter page perPage state =
        .ok (pageOf page perPage payments) ∧
      Listing state (selects filter) (fun first second => second ≤ first) payments
  count (filter : Option PaymentStatus) (state : σ) :
    ∃ payments, PaymentRepository.count filter state = .ok payments.length ∧
      Listing state (selects filter) (fun _ _ => True) payments

/-- What is sorted by the negated instant is sorted newest first. -/
theorem newest_first {α : Type} (key : α → DateTime) (elements : List α) :
    (sortByKey (fun element => -key element) elements).Pairwise fun first second =>
      key second ≤ key first :=
  (sort_by_key_sorted (fun element => -key element) elements).imp fun hle =>
    Int.neg_le_neg_iff.mp hle

open InMemoryState in
instance : ListingLaws InMemoryState where
  page scan filter page perPage state := by
    have hperm := (sort_by_key_perm (fun payment : Payment => -payment.createdAt) _).trans
      ((scan.order_perm state.payments.values).filter fun payment =>
        selects filter payment.status)
    obtain ⟨hnodup, hmem⟩ := selected hperm
    exact ⟨_, rfl, hnodup, hmem, newest_first _ _⟩
  count filter state := by
    obtain ⟨hnodup, hmem⟩ := selected (List.Perm.refl
      (state.payments.values.filter fun payment => selects filter payment.status))
    exact ⟨_, rfl, hnodup, hmem, List.pairwise_of_forall fun _ _ => trivial⟩

section Postgres

variable [Platform]

open Database

/-- The text filter of the listing selects by the status. -/
theorem matching_text_eq {db : Database} (filter : Option PaymentStatus) (row : PaymentRow)
    (hrow : row ∈ db.payments.values) :
    (match filter with
      | some status => row.status == statusToDb status
      | none => true) = selects filter row.view.status := by
  obtain ⟨status, hstatus⟩ := db.statusWritten row hrow
  cases filter with
  | none => rfl
  | some wanted =>
      rw [selects, PaymentRow.view_status hstatus, hstatus, Bool.eq_iff_iff, beq_iff_eq, beq_iff_eq]
      exact status_to_db_injective.eq_iff

instance : ListingLaws Database where
  page scan filter page perPage db := by
    have hperm := (sort_by_key_perm (fun row : PaymentRow => -row.createdAt) _).trans
      ((scan.order_perm db.payments.values).filter fun row =>
        match filter with
        | some status => row.status == statusToDb status
        | none => true)
    obtain ⟨hnodup, hmem⟩ := selected (matching_text_eq filter) hperm
    refine ⟨_, ?_, hnodup, hmem, ?_⟩
    · rw [← map_page]
      refine collect_eq db fun row hrow => ?_
      exact List.mem_of_mem_filter (hperm.mem_iff.mp (mem_of_mem_page hrow))
    · rw [List.pairwise_map]
      simpa using newest_first PaymentRow.createdAt _
  count filter db := by
    obtain ⟨hnodup, hmem⟩ := selected (matching_text_eq filter) (List.Perm.refl _)
    refine ⟨_, ?_, hnodup, hmem, List.pairwise_of_forall fun _ _ => trivial⟩
    rw [List.length_map]
    rfl

end Postgres

end StellarPay
