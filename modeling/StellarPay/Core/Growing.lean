import StellarPay.Core.Paging
import Mathlib.Data.List.Nodup
import Mathlib.Data.List.Perm.Subperm

/-!
# Pages of a list that grows

A list sorted by distinct keys, greatest first, is read page by page, and between two reads elements
may be added anywhere. What was there at first only moves towards the end of the list, so the pages
meet it before they reach that end. They meet it twice only if something was added before it.
-/

namespace StellarPay.Paging

variable {α κ : Type} [LinearOrder κ] {key : α → κ} {bound : κ} {size : Nat}

/-- The keys are distinct, and the greatest comes first. -/
def Decreasing (key : α → κ) (elements : List α) : Prop :=
  elements.Pairwise fun first second => key second < key first

/-- The number of elements that come before the one with this key. -/
def rank (key : α → κ) (bound : κ) (elements : List α) : Nat :=
  elements.countP fun element => decide (bound < key element)

/-- Sorted keys of which no two are equal decrease. -/
theorem Descending.decreasing {elements : List α} (h : Descending key elements)
    (hdistinct : (elements.map key).Nodup) : Decreasing key elements := by
  have hne := List.pairwise_map.mp hdistinct
  exact (List.Pairwise.and h hne).imp fun {first second} hpair =>
    lt_of_le_of_ne hpair.1 hpair.2.symm

/-- Decreasing keys are distinct. -/
theorem Decreasing.keys_nodup {elements : List α} (h : Decreasing key elements) :
    (elements.map key).Nodup :=
  List.pairwise_map.mpr (h.imp fun hlt => (ne_of_lt hlt).symm)

/-- The elements before the one with a key are those with greater keys. -/
theorem Decreasing.at_rank {elements : List α} {element : α} (h : Decreasing key elements)
    (hmem : element ∈ elements) :
    elements[rank key (key element) elements]? = some element := by
  induction elements with
  | nil => cases hmem
  | cons head rest ih =>
      obtain ⟨hhead, hrest⟩ := List.pairwise_cons.mp h
      cases hmem with
      | head =>
          have hnone : rest.countP (fun other => decide (key element < key other)) = 0 := by
            refine List.countP_eq_zero.mpr fun other hother hlt => ?_
            exact lt_asymm (of_decide_eq_true hlt) (hhead other hother)
          rw [rank, List.countP_cons_of_neg (by simp), hnone]
          rfl
      | tail _ hmem =>
          have hlt := hhead element hmem
          rw [rank, List.countP_cons_of_pos (by simpa using hlt), List.getElem?_cons_succ]
          exact ih hrest hmem

/-- An element is before the end. -/
theorem Decreasing.rank_lt {elements : List α} {element : α} (h : Decreasing key elements)
    (hmem : element ∈ elements) : rank key (key element) elements < elements.length :=
  (List.getElem?_eq_some_iff.mp (h.at_rank hmem)).1

/-- An element is on the page of its rank. -/
theorem Decreasing.mem_page {elements : List α} {element : α} {index : Nat}
    (h : Decreasing key elements) (hmem : element ∈ elements)
    (hfrom : index * size ≤ rank key (key element) elements)
    (hto : rank key (key element) elements < (index + 1) * size) :
    element ∈ page size index elements :=
  Paging.mem_page (h.at_rank hmem) hfrom hto

/-- An element of a page has its rank there. -/
theorem Decreasing.rank_of_mem_page {elements : List α} {element : α} {index : Nat}
    (h : Decreasing key elements) (hmem : element ∈ page size index elements) :
    index * size ≤ rank key (key element) elements ∧
      rank key (key element) elements < (index + 1) * size := by
  obtain ⟨position, hposition⟩ := List.mem_iff_getElem?.mp hmem
  have hlt : position < size := by
    have hbound := (List.getElem?_eq_some_iff.mp hposition).1
    rw [page, List.length_take] at hbound
    omega
  rw [page, List.getElem?_take_of_lt hlt, List.getElem?_drop] at hposition
  have hat := h.at_rank (List.mem_of_getElem? hposition)
  have hsame : index * size + position = rank key (key element) elements :=
    (List.getElem?_inj (List.getElem?_eq_some_iff.mp hposition).1 h.keys_nodup.of_map).mp
      (hposition.trans hat.symm)
  rw [Nat.succ_mul]
  omega

variable {first second : List α}

/-- Where keys are added, ranks grow. -/
theorem rank_mono (hfirst : (first.map key).Nodup) (hkeys : first.map key ⊆ second.map key) :
    rank key bound first ≤ rank key bound second := by
  have hcount := (List.subperm_of_subset hfirst hkeys).countP_le fun other => decide (bound < other)
  rwa [List.countP_map, List.countP_map] at hcount

/-- A rank grows only where a greater key is added. -/
theorem exists_added (hsecond : (second.map key).Nodup)
    (hlt : rank key bound first < rank key bound second) :
    ∃ element ∈ second, bound < key element ∧ key element ∉ first.map key := by
  by_contra hnone
  push Not at hnone
  refine absurd hlt (Nat.not_lt.mpr ?_)
  have hsub : (second.map key).filter (fun other => decide (bound < other)) ⊆
      (first.map key).filter fun other => decide (bound < other) := by
    intro other hother
    obtain ⟨hmem, hgreater⟩ := List.mem_filter.mp hother
    obtain ⟨element, helement, rfl⟩ := List.mem_map.mp hmem
    exact List.mem_filter.mpr ⟨hnone element helement (of_decide_eq_true hgreater), hgreater⟩
  have hlength := (List.subperm_of_subset (hsecond.filter _) hsub).length_le
  rwa [← List.countP_eq_length_filter, ← List.countP_eq_length_filter, List.countP_map,
    List.countP_map] at hlength

/-- The page with this number is taken of the list of this number, and the lists only grow. -/
structure Reads (key : α → κ) (last : Nat) (orders : Nat → List α) : Prop where
  decreasing : ∀ index ≤ last, Decreasing key (orders index)
  grows : ∀ index later, index ≤ later → later ≤ last →
    (orders index).map key ⊆ (orders later).map key

namespace Reads

variable {last : Nat} {orders : Nat → List α}

/-- Ranks grow from one list to a later one. -/
theorem rank_le (h : Reads key last orders) {index later : Nat} (hle : index ≤ later)
    (hlast : later ≤ last) : rank key bound (orders index) ≤ rank key bound (orders later) :=
  rank_mono (h.decreasing index (hle.trans hlast)).keys_nodup (h.grows index later hle hlast)

/-- What has not been met yet is behind the pages that have been read. -/
theorem met_or_behind (h : Reads key last orders) (hbound : bound ∈ (orders 0).map key)
    {index : Nat} (hindex : index ≤ last) :
    (∃ earlier ≤ index, bound ∈ (page size earlier (orders earlier)).map key) ∨
      (index + 1) * size ≤ rank key bound (orders index) := by
  -- On the present page, or behind it, if it is not before.
  have hstep : ∀ now ≤ last, now * size ≤ rank key bound (orders now) →
      bound ∈ (page size now (orders now)).map key ∨
        (now + 1) * size ≤ rank key bound (orders now) := by
    intro now hnow hfrom
    obtain ⟨element, helement, rfl⟩ := List.mem_map.mp (h.grows 0 now (Nat.zero_le _) hnow hbound)
    rcases Nat.lt_or_ge (rank key (key element) (orders now)) ((now + 1) * size) with hlt | hge
    · exact .inl (List.mem_map_of_mem ((h.decreasing now hnow).mem_page helement hfrom hlt))
    · exact .inr hge
  induction index with
  | zero =>
      refine (hstep 0 hindex (by omega)).imp_left fun hmet => ?_
      exact ⟨0, Nat.le_refl 0, hmet⟩
  | succ index ih =>
      rcases ih (by omega) with ⟨earlier, hearlier, hmet⟩ | hbehind
      · exact .inl ⟨earlier, by omega, hmet⟩
      · have hmoved := hbehind.trans (h.rank_le (Nat.le_succ index) hindex)
        refine (hstep (index + 1) hindex hmoved).imp_left fun hmet => ?_
        exact ⟨index + 1, Nat.le_refl _, hmet⟩

/-- Pages that reach the end have met everything that was there at first. -/
theorem met (h : Reads key last orders) (hend : (orders last).length ≤ (last + 1) * size)
    (hbound : bound ∈ (orders 0).map key) :
    ∃ index ≤ last, bound ∈ (page size index (orders index)).map key := by
  refine (h.met_or_behind hbound (Nat.le_refl last)).resolve_right fun hbehind => ?_
  obtain ⟨element, helement, rfl⟩ := List.mem_map.mp
    (h.grows 0 last (Nat.zero_le _) (Nat.le_refl _) hbound)
  have hlt := (h.decreasing last (Nat.le_refl _)).rank_lt helement
  omega

/-- What is met twice has had something added before it. -/
theorem added_of_met_twice (h : Reads key last orders) {index later : Nat} (hlt : index < later)
    (hlast : later ≤ last) (hfirst : bound ∈ (page size index (orders index)).map key)
    (hsecond : bound ∈ (page size later (orders later)).map key) :
    ∃ element ∈ orders later, bound < key element ∧ key element ∉ (orders index).map key := by
  obtain ⟨element, helement, rfl⟩ := List.mem_map.mp hfirst
  obtain ⟨other, hother, hkey⟩ := List.mem_map.mp hsecond
  have hbefore := ((h.decreasing index (by omega)).rank_of_mem_page helement).2
  have hafter := ((h.decreasing later hlast).rank_of_mem_page hother).1
  rw [hkey] at hafter
  refine exists_added (h.decreasing later hlast).keys_nodup ?_
  exact Nat.lt_of_lt_of_le hbefore (Nat.le_trans (Nat.mul_le_mul_right size hlt) hafter)

end Reads

/-- A page that is not full reaches the end. -/
theorem end_of_short {index : Nat} {elements : List α}
    (h : (page size index elements).length < size) : elements.length ≤ (index + 1) * size := by
  rw [page, List.length_take, List.length_drop] at h
  rw [Nat.succ_mul]
  omega

end StellarPay.Paging
