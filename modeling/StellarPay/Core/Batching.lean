import Mathlib.Data.List.Sort
import Mathlib.Order.Lattice

/-!
# The first elements of a queue

A batch takes as many elements of a queue as its limit allows, those with the least keys, in
ascending order. Elements with equal keys may stand in any order, and if the limit cuts between them
any of them may be left behind, but the keys of the batch are determined.
-/

namespace StellarPay.Batching

variable {α κ : Type} [LinearOrder κ] {key : α → κ} {limit : Nat} {candidates batch : List α}

/-- The least key comes first. -/
def Ascending (key : α → κ) (elements : List α) : Prop :=
  elements.Pairwise fun first second => key first ≤ key second

/-- Only the keys count. -/
theorem ascending_iff {elements : List α} :
    Ascending key elements ↔ (elements.map key).Pairwise fun first second => first ≤ second := by
  rw [List.pairwise_map, Ascending]

/-- The batch takes `limit` of the candidates, or all if there are fewer, and no candidate that is
left behind has a smaller key than one that is taken. -/
structure Foremost (key : α → κ) (limit : Nat) (candidates batch : List α) : Prop where
  length : batch.length = min limit candidates.length
  ascending : Ascending key batch
  foremost : ∃ rest, (batch ++ rest).Perm candidates ∧
    ∀ taken ∈ batch, ∀ left ∈ rest, key taken ≤ key left

/-- The beginning of the sorted candidates is such a batch. -/
theorem foremost_take {elements : List α} (hperm : elements.Perm candidates)
    (hsorted : Ascending key elements) :
    Foremost key limit candidates (elements.take limit) := by
  refine ⟨by rw [List.length_take, hperm.length_eq], hsorted.sublist (List.take_sublist _ _),
    elements.drop limit, ?_, ?_⟩
  · rw [List.take_append_drop]
    exact hperm
  · rw [Ascending, ← List.take_append_drop limit elements, List.pairwise_append] at hsorted
    exact hsorted.2.2

namespace Foremost

/-- Only candidates are taken. -/
theorem subset (h : Foremost key limit candidates batch) : batch ⊆ candidates := by
  obtain ⟨rest, hperm, -⟩ := h.foremost
  exact fun element helement => hperm.subset (List.mem_append_left _ helement)

/-- A candidate that is not in the batch has been left behind. -/
theorem le_of_notMem (h : Foremost key limit candidates batch) {taken left : α}
    (htaken : taken ∈ batch) (hleft : left ∈ candidates) (hnot : left ∉ batch) :
    key taken ≤ key left := by
  obtain ⟨rest, hperm, hle⟩ := h.foremost
  have hmem := hperm.mem_iff.mpr hleft
  exact hle taken htaken left ((List.mem_append.mp hmem).resolve_left hnot)

/-- Sorting the elements that are left behind continues the batch. -/
theorem continues (h : Foremost key limit candidates batch) :
    ∃ elements, elements.Perm candidates ∧ Ascending key elements ∧
      elements.take limit = batch := by
  obtain ⟨rest, hperm, hle⟩ := h.foremost
  let sorted := rest.insertionSort fun first second => key first ≤ key second
  have hsorted : sorted.Perm rest := List.perm_insertionSort _ _
  have htotal : Std.Total fun first second : α => key first ≤ key second :=
    ⟨fun first second => le_total (key first) (key second)⟩
  have htrans : IsTrans α fun first second => key first ≤ key second :=
    ⟨fun _ _ _ => le_trans⟩
  refine ⟨batch ++ sorted, (hsorted.append_left batch).trans hperm, ?_, ?_⟩
  · refine List.pairwise_append.mpr ⟨h.ascending, List.pairwise_insertionSort _ _, ?_⟩
    exact fun taken htaken left hleft => hle taken htaken left (hsorted.mem_iff.mp hleft)
  · -- Something is left behind only if the limit is reached.
    have hlength := h.length
    have hcount := hperm.length_eq
    rw [List.length_append] at hcount
    rcases Nat.lt_or_ge limit candidates.length with hlt | hge
    · have hlimit : batch.length = limit := by omega
      rw [← hlimit]
      exact List.take_left
    · have hnone : rest = [] := List.eq_nil_of_length_eq_zero (by omega)
      have hsortedNone : sorted = [] := by
        rw [hnone] at hsorted
        exact hsorted.eq_nil
      rw [hsortedNone, List.append_nil, List.take_of_length_le (by omega)]

/-- The order of the candidates does not count. -/
theorem of_perm {others : List α} (h : Foremost key limit candidates batch)
    (hperm : candidates.Perm others) : Foremost key limit others batch := by
  obtain ⟨rest, hall, hle⟩ := h.foremost
  exact ⟨hperm.length_eq ▸ h.length, h.ascending, rest, hall.trans hperm, hle⟩

/-- A map that keeps the order of the keys takes a batch to a batch. -/
theorem map {β κ' : Type} [LinearOrder κ'] {key' : β → κ'} (image : α → β)
    (hmono : ∀ first ∈ candidates, ∀ second ∈ candidates, key first ≤ key second →
      key' (image first) ≤ key' (image second)) (h : Foremost key limit candidates batch) :
    Foremost key' limit (candidates.map image) (batch.map image) := by
  have hsubset := h.subset
  obtain ⟨rest, hperm, hle⟩ := h.foremost
  have hrest : rest ⊆ candidates := fun left hleft =>
    hperm.subset (List.mem_append_right _ hleft)
  refine ⟨by simpa using h.length, ?_, rest.map image, ?_, ?_⟩
  · rw [Ascending, List.pairwise_map]
    refine h.ascending.imp_of_mem fun hfirst hsecond hkeys => ?_
    exact hmono _ (hsubset hfirst) _ (hsubset hsecond) hkeys
  · rw [← List.map_append]
    exact hperm.map image
  · intro taken htaken left hleft
    obtain ⟨first, hfirst, rfl⟩ := List.mem_map.mp htaken
    obtain ⟨second, hsecond, rfl⟩ := List.mem_map.mp hleft
    exact hmono _ (hsubset hfirst) _ (hrest hsecond) (hle first hfirst second hsecond)

/-- If the candidates with keys below a bound fill the batch, all of it is below the bound. -/
theorem keys_lt {bound : κ} (h : Foremost key limit candidates batch)
    (hfull : limit ≤ (candidates.filter fun element => key element < bound).length) :
    ∀ taken ∈ batch, key taken < bound := by
  obtain ⟨rest, hperm, hle⟩ := h.foremost
  have hlength := h.length
  -- One element of the batch above the bound would leave too few below it.
  by_contra hsome
  push Not at hsome
  obtain ⟨taken, htaken, hbound⟩ := hsome
  have hrest : rest.filter (fun element => key element < bound) = [] :=
    List.filter_eq_nil_iff.mpr fun left hleft hlt =>
      absurd (of_decide_eq_true hlt) (not_lt.mpr (hbound.trans (hle taken htaken left hleft)))
  have hcount := (hperm.filter fun element => decide (key element < bound)).length_eq
  rw [List.filter_append, hrest, List.append_nil] at hcount
  have hless : (batch.filter fun element => key element < bound).length < batch.length :=
    List.length_filter_lt_length_iff_exists.mpr ⟨taken, htaken, by simpa using hbound⟩
  omega

/-- Then the candidates above the bound do not count. -/
theorem below_iff {bound : κ}
    (hfull : limit ≤ (candidates.filter fun element => key element < bound).length) :
    Foremost key limit (candidates.filter fun element => key element < bound) batch ↔
      Foremost key limit candidates batch := by
  have hfewer := List.length_filter_le (fun element => decide (key element < bound)) candidates
  constructor
  · intro h
    obtain ⟨rest, hperm, hle⟩ := h.foremost
    have hlength := h.length
    have hsplit := List.filter_append_perm (fun element => decide (key element < bound)) candidates
    refine ⟨by omega, h.ascending, rest ++ candidates.filter fun element =>
      !decide (key element < bound), ?_, fun taken htaken left hleft => ?_⟩
    · rw [← List.append_assoc]
      exact (hperm.append_right _).trans hsplit
    · rcases List.mem_append.mp hleft with hleft | hleft
      · exact hle taken htaken left hleft
      · have hbelow : key taken < bound :=
          of_decide_eq_true (List.mem_filter.mp (h.subset htaken)).2
        have hbound : bound ≤ key left := by simpa using (List.mem_filter.mp hleft).2
        exact hbelow.le.trans hbound
  · intro h
    have hbelow := h.keys_lt hfull
    obtain ⟨rest, hperm, hle⟩ := h.foremost
    have hlength := h.length
    have hkept : batch.filter (fun element => key element < bound) = batch :=
      List.filter_eq_self.mpr fun taken htaken => decide_eq_true (hbelow taken htaken)
    refine ⟨by omega, h.ascending, rest.filter fun element => key element < bound, ?_, ?_⟩
    · have hfiltered := hperm.filter fun element => decide (key element < bound)
      rwa [List.filter_append, hkept] at hfiltered
    · exact fun taken htaken left hleft => hle taken htaken left (List.mem_of_mem_filter hleft)

/-- The keys of a batch depend on the keys of the candidates only. -/
theorem keys_eq {others batch' : List α} {key' : α → κ} (h : Foremost key limit candidates batch)
    (h' : Foremost key' limit others batch')
    (hkeys : (candidates.map key).Perm (others.map key')) : batch.map key = batch'.map key' := by
  obtain ⟨elements, hperm, hsorted, rfl⟩ := h.continues
  obtain ⟨elements', hperm', hsorted', rfl⟩ := h'.continues
  have hsame : elements.map key = elements'.map key' := by
    refine List.Perm.eq_of_pairwise ?_ (ascending_iff.mp hsorted) (ascending_iff.mp hsorted') ?_
    · exact fun _ _ _ _ hle hge => le_antisymm hle hge
    · exact ((hperm.map key).trans hkeys).trans (hperm'.map key').symm
  rw [List.map_take, List.map_take, hsame]

end Foremost

/-- A candidate is in some batch if fewer candidates than the limit have smaller keys. -/
theorem exists_foremost_mem {element : α} (hmem : element ∈ candidates)
    (hlimit : (candidates.filter fun other => key other < key element).length < limit) :
    ∃ batch, Foremost key limit candidates batch ∧ element ∈ batch := by
  obtain ⟨before, after, rfl⟩ := List.append_of_mem hmem
  let sorted (elements : List α) :=
    elements.insertionSort fun first second => key first ≤ key second
  have hsorted : ∀ elements, (sorted elements).Perm elements := List.perm_insertionSort _
  have htotal : Std.Total fun first second : α => key first ≤ key second :=
    ⟨fun first second => le_total (key first) (key second)⟩
  have htrans : IsTrans α fun first second => key first ≤ key second :=
    ⟨fun _ _ _ => le_trans⟩
  let lower := (before ++ after).filter fun other => key other < key element
  let upper := (before ++ after).filter fun other => !decide (key other < key element)
  have hlower : ∀ other ∈ sorted lower, key other < key element := fun other hother =>
    of_decide_eq_true (List.mem_filter.mp ((hsorted lower).mem_iff.mp hother)).2
  have hupper : ∀ other ∈ sorted upper, key element ≤ key other := by
    intro other hother
    simpa using (List.mem_filter.mp ((hsorted upper).mem_iff.mp hother)).2
  refine ⟨(sorted lower ++ element :: sorted upper).take limit, foremost_take ?_ ?_, ?_⟩
  · refine List.perm_middle.trans (List.Perm.trans ?_ List.perm_middle.symm)
    refine List.Perm.cons _ (((hsorted lower).append (hsorted upper)).trans ?_)
    exact List.filter_append_perm _ _
  · refine List.pairwise_append.mpr ⟨List.pairwise_insertionSort _ _,
      List.pairwise_cons.mpr ⟨hupper, List.pairwise_insertionSort _ _⟩, ?_⟩
    intro first hfirst second hsecond
    rcases List.mem_cons.mp hsecond with rfl | hsecond
    · exact (hlower first hfirst).le
    · exact (hlower first hfirst).le.trans (hupper second hsecond)
  · -- The element comes right after the smaller ones.
    have hcount : (sorted lower).length < limit := by
      rw [(hsorted lower).length_eq]
      simpa [lower] using hlimit
    obtain ⟨extra, rfl⟩ := Nat.exists_eq_add_of_lt hcount
    rw [Nat.add_assoc, List.take_length_add_append]
    exact List.mem_append_right _ List.mem_cons_self

end StellarPay.Batching
