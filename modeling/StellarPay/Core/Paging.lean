import Mathlib.Data.List.Perm.Basic
import Mathlib.Order.Lattice

/-!
# Pages of a sorted list

A list sorted by a key, greatest first, is read page by page. Elements with equal keys may stand in
any order, and each page may be read of the list in another order. The pages of different orders
partition the elements if no boundary between two pages separates elements with equal keys, and they
need not otherwise.
-/

namespace StellarPay.Paging

variable {α κ : Type}

/-- One page of a list, counted from zero. -/
def page (size index : Nat) (elements : List α) : List α :=
  (elements.drop (index * size)).take size

/-- Pages one after the other are a part of the list. -/
theorem take_page (size index : Nat) (elements : List α) :
    elements.take ((index + 1) * size) =
      elements.take (index * size) ++ page size index elements := by
  rw [Nat.succ_mul, List.take_add, page]

/-- All pages together are the list. -/
theorem flat_map_page (size count : Nat) (elements : List α) :
    ((List.range count).flatMap fun index => page size index elements) =
      elements.take (count * size) := by
  induction count with
  | zero => simp
  | succ count ih =>
      rw [List.range_succ, List.flatMap_append, ih, take_page, List.flatMap_singleton]

/-- The element at a position is on the page of the position. -/
theorem mem_page {size index position : Nat} {elements : List α} {element : α}
    (h : elements[position]? = some element) (hfrom : index * size ≤ position)
    (hto : position < (index + 1) * size) : element ∈ page size index elements := by
  rw [Nat.succ_mul] at hto
  refine @List.mem_of_getElem? _ _ (position - index * size) _ ?_
  rw [page, List.getElem?_take_of_lt (by omega), List.getElem?_drop]
  rwa [Nat.add_sub_cancel' hfrom]

variable [LinearOrder κ] {key : α → κ}

/-- The greatest key comes first. -/
def Descending (key : α → κ) (elements : List α) : Prop :=
  elements.Pairwise fun first second => key second ≤ key first

/-- Only the keys count. -/
theorem descending_iff {elements : List α} :
    Descending key elements ↔ (elements.map key).Pairwise fun first second => second ≤ first := by
  rw [List.pairwise_map, Descending]

/-- The keys before and after a position differ. -/
def ClearAfter (key : α → κ) (position : Nat) (elements : List α) : Prop :=
  ∀ first second, elements[position]? = some first → elements[position + 1]? = some second →
    key first ≠ key second

/-- No boundary between two pages separates elements with equal keys. -/
def Clear (key : α → κ) (size : Nat) (elements : List α) : Prop :=
  ∀ position, size ∣ position + 1 → ClearAfter key position elements

/-- The elements with great keys come first. -/
theorem Descending.filter_eq {elements : List α} (h : Descending key elements) (bound : κ) :
    elements.filter (fun element => bound ≤ key element) =
      elements.take (elements.filter fun element => bound ≤ key element).length := by
  induction elements with
  | nil => rfl
  | cons head rest ih =>
      obtain ⟨hhead, hrest⟩ := List.pairwise_cons.mp h
      by_cases hbound : bound ≤ key head
      · rw [List.filter_cons_of_pos (by simpa using hbound), List.length_cons, List.take_succ_cons,
          ← ih hrest]
      · have hnone : rest.filter (fun element => bound ≤ key element) = [] := by
          refine List.filter_eq_nil_iff.mpr fun element helement hle => hbound ?_
          exact le_trans (of_decide_eq_true hle) (hhead element helement)
        rw [List.filter_cons_of_neg (by simpa using hbound), hnone]
        rfl

/-- A list is cut at an element. -/
theorem cut_at {elements : List α} {position : Nat} {element : α}
    (h : elements[position]? = some element) :
    ∃ before rest, elements = before ++ element :: rest ∧ before.length = position := by
  obtain ⟨hlt, rfl⟩ := List.getElem?_eq_some_iff.mp h
  refine ⟨elements.take position, elements.drop (position + 1), ?_, ?_⟩
  · rw [← List.drop_eq_getElem_cons hlt, List.take_append_drop]
  · rw [List.length_take]
    omega

/-- The elements before a clear position are those whose keys are not less. -/
theorem take_eq_filter {elements : List α} {position : Nat} {element : α}
    (h : Descending key elements) (hclear : ClearAfter key position elements)
    (helement : elements[position]? = some element) :
    elements.take (position + 1) = elements.filter fun other => key element ≤ key other := by
  obtain ⟨before, rest, rfl, hlength⟩ := cut_at helement
  obtain ⟨-, hrest, hbefore⟩ := List.pairwise_append.mp h
  have hgreat : ∀ other ∈ before ++ [element], key element ≤ key other := by
    intro other hother
    rcases List.mem_append.mp hother with hother | hother
    · exact hbefore other hother element List.mem_cons_self
    · rw [List.mem_singleton.mp hother]
  have hsmall : ∀ other ∈ rest, ¬ key element ≤ key other := by
    intro other hother hle
    cases rest with
    | nil => cases hother
    | cons next rest =>
        obtain ⟨helement, htail⟩ := List.pairwise_cons.mp hrest
        have hne : key element ≠ key next := by
          refine hclear element next ?_ ?_
          · simp [← hlength]
          · simp [← hlength]
        have hnext : key other ≤ key next := by
          rcases List.mem_cons.mp hother with rfl | hother
          · exact le_refl _
          · exact (List.pairwise_cons.mp htail).1 other hother
        exact hne (le_antisymm (le_trans hle hnext) (helement next List.mem_cons_self))
  rw [List.append_cons, List.filter_append, List.filter_eq_self.mpr (by simpa using hgreat),
    List.filter_eq_nil_iff.mpr (by simpa using hsmall), List.append_nil]
  exact List.take_left' (by simp [hlength])

variable {first second : List α}

/-- Up to a clear position all orders have the same elements. -/
theorem take_perm {position : Nat} (hperm : first.Perm second) (hfirst : Descending key first)
    (hsecond : Descending key second) (hclear : ClearAfter key position first) :
    (first.take (position + 1)).Perm (second.take (position + 1)) := by
  cases helement : first[position]? with
  | none =>
      have hlength := List.getElem?_eq_none_iff.mp helement
      have hlength' := hperm.length_eq
      rw [List.take_of_length_le (by omega), List.take_of_length_le (by omega)]
      exact hperm
  | some element =>
      have htake := take_eq_filter hfirst hclear helement
      have hfilter := hperm.filter fun other => decide (key element ≤ key other)
      have hlength : (second.filter fun other => key element ≤ key other).length =
          position + 1 := by
        have hlt := (List.getElem?_eq_some_iff.mp helement).1
        rw [← hfilter.length_eq, ← htake, List.length_take]
        omega
      have hprefix := hsecond.filter_eq (key element)
      rw [hlength] at hprefix
      rw [htake, ← hprefix]
      exact hfilter

/-- Up to a clear boundary all orders have the same elements. -/
theorem take_pages_perm {size : Nat} (hperm : first.Perm second) (hfirst : Descending key first)
    (hsecond : Descending key second) (hclear : Clear key size first) (index : Nat) :
    (first.take (index * size)).Perm (second.take (index * size)) := by
  cases hposition : index * size with
  | zero => simp
  | succ position =>
      refine take_perm hperm hfirst hsecond (hclear position ?_)
      exact hposition ▸ Nat.dvd_mul_left size index

/-- Between two clear boundaries all orders have the same elements. -/
theorem page_perm {size : Nat} (hperm : first.Perm second) (hfirst : Descending key first)
    (hsecond : Descending key second) (hclear : Clear key size first) (index : Nat) :
    (page size index first).Perm (page size index second) := by
  have hfrom := take_pages_perm hperm hfirst hsecond hclear index
  have hto := take_pages_perm hperm hfirst hsecond hclear (index + 1)
  rw [take_page, take_page] at hto
  exact (List.perm_append_left_iff _).mp (hto.trans (hfrom.symm.append_right _))

/-- The elements of a page, whichever order it is read of, are followed by those of later pages. -/
theorem pages_descending {size count : Nat} {elements : List α} {orders : Nat → List α}
    (helements : Descending key elements)
    (horders : ∀ index, Descending key (orders index))
    (hpages : ∀ index, (page size index elements).Perm (page size index (orders index))) :
    Descending key ((List.range count).flatMap fun index => page size index (orders index)) := by
  have hall : Descending key
      ((List.range count).flatMap fun index => page size index elements) := by
    rw [flat_map_page]
    exact helements.sublist (List.take_sublist _ _)
  rw [Descending, List.pairwise_flatMap] at hall ⊢
  refine ⟨fun index _ => ?_, hall.2.imp fun {index later} h first hfirst second hsecond => ?_⟩
  · exact (horders index).sublist ((List.take_sublist _ _).trans (List.drop_sublist _ _))
  · exact h first ((hpages index).mem_iff.mpr hfirst) second ((hpages later).mem_iff.mpr hsecond)

/-- If no boundary separates equal keys, pages of different orders partition the elements. -/
theorem pages_partition {size count : Nat} {elements : List α} {orders : Nat → List α}
    (helements : Descending key elements) (hclear : Clear key size elements)
    (hperm : ∀ index, elements.Perm (orders index))
    (horders : ∀ index, Descending key (orders index)) (hall : elements.length ≤ count * size) :
    elements.Perm ((List.range count).flatMap fun index => page size index (orders index)) ∧
    Descending key ((List.range count).flatMap fun index => page size index (orders index)) := by
  have hpages : ∀ index, (page size index elements).Perm (page size index (orders index)) :=
    fun index => page_perm (hperm index) helements (horders index) hclear index
  refine ⟨?_, pages_descending helements horders hpages⟩
  have hsame := List.Perm.flatMap_left (List.range count) fun index _ => hpages index
  rwa [flat_map_page, List.take_of_length_le hall] at hsame

/-- A boundary that separates equal keys may be passed by an element between two pages. -/
theorem exists_repeated {size : Nat} {elements : List α} (hsize : 0 < size)
    (helements : Descending key elements) (hclear : ¬ Clear key size elements) :
    ∃ other index element, elements.Perm other ∧ Descending key other ∧
      (index + 1) * size < elements.length ∧ element ∈ page size index elements ∧
      element ∈ page size (index + 1) other := by
  simp only [Clear, ClearAfter, not_forall, not_not] at hclear
  obtain ⟨position, ⟨pages, hpages⟩, first, second, hfirst, hsecond, hkeys⟩ := hclear
  obtain ⟨index, rfl⟩ : ∃ index, pages = index + 1 := by
    refine Nat.exists_eq_succ_of_ne_zero fun hzero => ?_
    simp [hzero] at hpages
  rw [Nat.mul_comm, Nat.succ_mul] at hpages
  obtain ⟨before, rest, rfl, hlength⟩ := cut_at hfirst
  rw [List.getElem?_append_right (by omega), hlength, Nat.add_sub_cancel_left,
    List.getElem?_cons_succ] at hsecond
  obtain ⟨rest, rfl⟩ : ∃ after, rest = second :: after := by
    cases rest with
    | nil => simp at hsecond
    | cons head after => exact ⟨after, by simpa using hsecond⟩
  -- The other order has the two elements at the boundary the other way round.
  refine ⟨before ++ second :: first :: rest, index, first, ?_, ?_, ?_, ?_, ?_⟩
  · exact (List.Perm.swap second first rest).append_left before
  · have hsame : (before ++ second :: first :: rest).map key =
        (before ++ first :: second :: rest).map key := by
      simp [hkeys]
    rw [descending_iff, hsame]
    exact descending_iff.mp helements
  · rw [Nat.succ_mul, ← hpages, List.length_append, List.length_cons, List.length_cons]
    omega
  · exact mem_page hfirst (by omega) (by rw [Nat.succ_mul]; omega)
  · have hmoved : (before ++ second :: first :: rest)[position + 1]? = some first := by
      simp [← hlength]
    refine mem_page hmoved ?_ ?_
    · rw [Nat.succ_mul]
      omega
    · rw [Nat.succ_mul, Nat.succ_mul]
      omega

end StellarPay.Paging
