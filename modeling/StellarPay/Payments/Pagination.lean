import StellarPay.Core.Paging
import StellarPay.Payments.Listings
import StellarPay.Runtime.Plain
import StellarPay.Runtime.System

/-!
# The offset of a page

`list_paginated` computes `(page.max(1) - 1) * per_page` in `u32`, and widens the product only then.
A page whose offset does not fit is read from an earlier place in the list.
-/

namespace StellarPay

open Paging

/-- The payment created last comes first. -/
abbrev newest (first second : DateTime) : Prop :=
  second ≤ first

section Offsets

/-- The number of pages before a page. -/
theorem pages_before (page : UInt32) : (max page 1 - 1).toNat = page.toNat - 1 := by
  change ((if page ≤ 1 then 1 else page) - 1 : UInt32).toNat = page.toNat - 1
  split
  · rename_i hle
    rw [UInt32.le_iff_toNat_le] at hle
    change page.toNat ≤ 1 at hle
    show 0 = page.toNat - 1
    omega
  · rename_i hlt
    rw [UInt32.le_iff_toNat_le] at hlt
    change ¬ page.toNat ≤ 1 at hlt
    rw [UInt32.toNat_sub_of_le]
    · rfl
    · rw [UInt32.le_iff_toNat_le]
      show 1 ≤ page.toNat
      omega

/-- The offset is the product in 32 bits. -/
theorem page_offset_toNat (page perPage : UInt32) :
    (pageOffset page perPage).toNat = (page.toNat - 1) * perPage.toNat % 2 ^ 32 := by
  rw [pageOffset, UInt32.toNat_mul, pages_before]

/-- Where the offset fits, a page is what it should be. -/
theorem page_of_eq {α : Type} {page perPage : UInt32} {elements : List α}
    (h : (page.toNat - 1) * perPage.toNat < 2 ^ 32) :
    pageOf page perPage elements = Paging.page perPage.toNat (page.toNat - 1) elements := by
  rw [pageOf, page_offset_toNat, Nat.mod_eq_of_lt h, Paging.page]

end Offsets

/-- The payment with a number, which its id and its reference tell. -/
def numbered (number : Nat) : Payment where
  id := BitVec.ofNat 128 number
  reference := String.ofList (List.replicate number 'x')
  amount := ""
  asset := .xlm
  destination := ""
  memo := none
  status := .pending
  stellarTxHash := none
  createdAt := 0
  updatedAt := 0

/-- Its id is its number, as long as that is small. -/
theorem numbered_id {number : Nat} (h : number < 2 ^ 32) : (numbered number).id.toNat = number := by
  rw [numbered, BitVec.toNat_ofNat, Nat.mod_eq_of_lt (by omega)]

/-- Its reference is as long as its number. -/
theorem numbered_reference (number : Nat) : (numbered number).reference.length = number := by
  simp [numbered]

/-- A store in memory may hold any number of payments. -/
theorem InMemoryState.exists_values {number : Nat} (h : number ≤ 2 ^ 32) :
    ∃ state : InMemoryState, state.payments.values.length = number ∧
      ∀ payment ∈ state.payments.values, payment.id.toNat < number := by
  induction number with
  | zero => exact ⟨new, rfl, by simp [new, HashMap.mem_values]⟩
  | succ number ih =>
      obtain ⟨state, hlength, hids⟩ := ih (by omega)
      have hid := numbered_id (show number < 2 ^ 32 by omega)
      have hfree : state.payments.lookup (numbered number).id = none := by
        by_contra hsome
        obtain ⟨payment, hpayment⟩ := Option.ne_none_iff_exists'.mp hsome
        have hlt := hids payment (HashMap.mem_values.mpr ⟨_, hpayment⟩)
        rw [state.keyed _ _ hpayment, hid] at hlt
        omega
      refine ⟨state.insert (numbered number), ?_, fun payment hpayment => ?_⟩
      · exact (HashMap.length_values_insert_new hfree).trans (congrArg (· + 1) hlength)
      · rw [mem_values_iff, insert_lookup] at hpayment
        split at hpayment
        · cases hpayment
          omega
        · have hlt := hids payment (mem_values_iff.mpr hpayment)
          omega

/-- A row that clashes with no other is written. -/
theorem Database.write_free {row : PaymentRow} {hstatus : ∃ status, row.status = statusToDb status}
    {db : Database} (hasset : row.asset = "XLM") (hreference : db.ReferenceFree row)
    (hhash : db.HashFree row) :
    ∃ after, db.write row hstatus = .ok after ∧
      after.payments = db.payments.insert row.id row := by
  rw [write, dif_pos hasset, dif_pos hreference, dif_pos hhash]
  exact ⟨_, rfl, rfl⟩

section Postgres

variable [Platform]

/-- The tables may hold any number of payments. -/
theorem Database.exists_values {number : Nat} (h : number ≤ 2 ^ 32) :
    ∃ db : Database, db.payments.values.length = number ∧
      ∀ row ∈ db.payments.values, row.id.toNat < number ∧ row.reference.length < number := by
  induction number with
  | zero => exact ⟨new, rfl, by simp [new, HashMap.mem_values]⟩
  | succ number ih =>
      obtain ⟨db, hlength, hrows⟩ := ih (by omega)
      have hid := numbered_id (show number < 2 ^ 32 by omega)
      have hreference : db.ReferenceFree ((numbered number).toRow .zero) := by
        intro other hother heq
        have hlt := (hrows other hother).2
        rw [← heq] at hlt
        exact absurd (numbered_reference number) (Nat.ne_of_lt hlt)
      obtain ⟨after, -, hafter⟩ := @write_free ((numbered number).toRow .zero) ⟨.pending, rfl⟩ db
        rfl hreference fun other _ hhash => absurd rfl hhash.1
      have hfree : db.payments.lookup (numbered number).id = none := by
        by_contra hsome
        obtain ⟨row, hrow⟩ := Option.ne_none_iff_exists'.mp hsome
        have hlt := (hrows row (HashMap.mem_values.mpr ⟨_, hrow⟩)).1
        rw [db.keyed _ _ hrow, hid] at hlt
        omega
      refine ⟨after, ?_, fun row hrow => ?_⟩
      · rw [hafter]
        exact (HashMap.length_values_insert_new hfree).trans (congrArg (· + 1) hlength)
      · rw [hafter] at hrow
        rcases mem_insert_values.mp hrow with rfl | ⟨-, hrow⟩
        · refine ⟨?_, ?_⟩
          · show (numbered number).id.toNat < _
            omega
          · show (numbered number).reference.length < _
            rw [numbered_reference]
            omega
        · have hlt := hrows row hrow
          omega

end Postgres

section Queries

variable {σ : Type} [PaymentRepository σ]

/-- A listing has every payment that another one has. -/
theorem Listing.perm {state : σ} {wanted : PaymentStatus → Bool}
    {ordered ordered' : DateTime → DateTime → Prop} {first second : List Payment}
    (hfirst : Listing state wanted ordered first) (hsecond : Listing state wanted ordered' second) :
    first.Perm second :=
  (List.perm_ext_iff_of_nodup hfirst.nodup.of_map hsecond.nodup.of_map).mpr fun payment =>
    (hfirst.mem payment).trans (hsecond.mem payment).symm

/-- So is every other order of its payments, if it is ordered as well. -/
theorem Listing.of_perm {state : σ} {wanted : PaymentStatus → Bool}
    {ordered ordered' : DateTime → DateTime → Prop} {first second : List Payment}
    (h : Listing state wanted ordered first) (hperm : first.Perm second)
    (hsorted : second.Pairwise fun first second => ordered' first.createdAt second.createdAt) :
    Listing state wanted ordered' second :=
  ⟨(hperm.map _).nodup_iff.mp h.nodup,
    fun payment => hperm.mem_iff.symm.trans (h.mem payment), hsorted⟩

/-- A query answers with the part of a listing that a page stands for, by its positions counted
without a bound. -/
def ShowsPage (state : σ) (scan : Scan) (filter : Option PaymentStatus) (page perPage : UInt32) :
    Prop :=
  ∃ payments, Listing state (selects filter) newest payments ∧
    PaymentRepository.listPaginated scan filter page perPage state =
      .ok (Paging.page perPage.toNat (page.toNat - 1) payments)

/-- Where the offset fits, every query shows its page. -/
theorem shows_page [ListingLaws σ] {page perPage : UInt32}
    (h : (page.toNat - 1) * perPage.toNat < 2 ^ 32) (state : σ) (scan : Scan)
    (filter : Option PaymentStatus) : ShowsPage state scan filter page perPage := by
  obtain ⟨payments, hpage, hlisting⟩ := ListingLaws.page scan filter page perPage state
  rw [page_of_eq h] at hpage
  exact ⟨payments, hlisting, hpage⟩

end Queries

section Backends

variable [Platform]

instance (backend : Backend) : ListingLaws backend.Payments :=
  match backend with
  | .inMemory => inferInstanceAs (ListingLaws InMemoryState)
  | .postgres => inferInstanceAs (ListingLaws Database)

/-- A store may count any number of payments. -/
theorem Backend.exists_count (backend : Backend) {number : Nat} (h : number ≤ 2 ^ 32) :
    ∃ state : backend.Payments, PaymentRepository.count none state = .ok (number : Int) := by
  cases backend with
  | inMemory =>
      obtain ⟨state, hlength, -⟩ := InMemoryState.exists_values h
      refine ⟨state, ?_⟩
      show InMemoryState.count none state = _
      rw [InMemoryState.count, InMemoryState.matching, List.filter_true, hlength]
  | postgres =>
      obtain ⟨db, hlength, -⟩ := Database.exists_values h
      refine ⟨db, ?_⟩
      show Database.count none db = _
      rw [Database.count, Database.matching, List.filter_true, hlength]

/-- The offset of a page is right, and so is what any store answers. -/
structure NeverWraps (backend : Backend) (page perPage : UInt32) : Prop where
  offset : (pageOffset page perPage).toNat = (page.toNat - 1) * perPage.toNat
  shows : ∀ (state : backend.Payments) (scan : Scan) (filter : Option PaymentStatus),
    ShowsPage state scan filter page perPage

/-- Where it does not fit, some store shows payments on a page past the end. -/
theorem page_past_end (backend : Backend) {page perPage : UInt32}
    (h : 2 ^ 32 ≤ (page.toNat - 1) * perPage.toNat) (scan : Scan) :
    ∃ state : backend.Payments, ¬ ShowsPage state scan none page perPage := by
  have hwrap := page_offset_toNat page perPage
  have hoffset : (pageOffset page perPage).toNat < 2 ^ 32 := hwrap ▸ Nat.mod_lt _ (by omega)
  obtain ⟨state, hcount⟩ := backend.exists_count
    (show (pageOffset page perPage).toNat + 1 ≤ 2 ^ 32 by omega)
  refine ⟨state, fun ⟨payments, hlisting, hshown⟩ => ?_⟩
  obtain ⟨counted, hcounted, hall⟩ := ListingLaws.count none state
  obtain ⟨sorted, hpage, hsorted⟩ := ListingLaws.page scan none page perPage state
  have hlength : counted.length = (pageOffset page perPage).toNat + 1 := by
    have heq := Except.ok.inj (hcounted.symm.trans hcount)
    omega
  have hpast : Paging.page perPage.toNat (page.toNat - 1) payments = [] := by
    rw [Paging.page, List.drop_of_length_le, List.take_nil]
    rw [(hlisting.perm hall).length_eq, hlength]
    omega
  have hshows : pageOf page perPage sorted = [] := by
    rw [← hpast]
    exact Except.ok.inj (hpage.symm.trans hshown)
  have hpositive : 0 < perPage.toNat := by
    refine Nat.pos_of_ne_zero fun hzero => ?_
    rw [hzero] at h
    omega
  have hsize := congrArg List.length hshows
  rw [pageOf, List.length_take, List.length_drop, (hsorted.perm hall).length_eq, hlength] at hsize
  simp only [List.length_nil] at hsize
  omega

/-- In either implementation pagination never wraps on a page if and only if the offset of the page
fits 32 bits. -/
theorem never_wraps_iff (backend : Backend) (page perPage : UInt32) :
    NeverWraps backend page perPage ↔ (page.toNat - 1) * perPage.toNat < 2 ^ 32 := by
  constructor
  · intro hnever
    by_contra hwraps
    obtain ⟨state, hnot⟩ := page_past_end backend (Nat.le_of_not_lt hwraps)
      fun _ => Equiv.refl _
    exact hnot (hnever.shows state _ none)
  · intro hfits
    exact ⟨(page_offset_toNat page perPage).trans (Nat.mod_eq_of_lt hfits), shows_page hfits⟩

end Backends

section Failing

attribute [local instance] Plain.platform

/-- One hundred payments a page, on page 42949674 the offset is 4 and not 4294967300. -/
theorem offset_wraps : pageOffset 42949674 100 = 4 ∧
    ¬ NeverWraps .postgres 42949674 100 ∧ ¬ NeverWraps .inMemory 42949674 100 := by
  refine ⟨rfl, fun h => ?_, fun h => ?_⟩
  · exact absurd h.offset (by decide)
  · exact absurd h.offset (by decide)

end Failing

end StellarPay
