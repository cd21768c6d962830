import Mathlib.Data.List.Forall2
import StellarPay.Payments.Columns
import StellarPay.Payments.Listings

/-!
# The store in memory and the tables

When the two stores hold the same payments under the same identifiers and keys (`Related`), and
when two results are the same. Clock readings, the texts of the messages and the text of an amount
may differ, and payments whose instants of creation the tables do not tell apart may be listed in
any order.
-/

namespace StellarPay

/-- Two errors are of one variant. -/
def RepositoryError.SameVariant : RepositoryError → RepositoryError → Prop
  | .database _, .database _ | .notFound, .notFound | .conflict _, .conflict _ => True
  | _, _ => False

/-- Two results are values that are the same, or errors of one variant. -/
def SameResult {α β : Type} (same : α → β → Prop) :
    Except RepositoryError α → Except RepositoryError β → Prop
  | .ok first, .ok second => same first second
  | .error first, .error second => first.SameVariant second
  | _, _ => False

/-- A value is answered alike by a value that is the same. -/
theorem same_result_ok_iff {α β : Type} {same : α → β → Prop} {first : α}
    {result : Except RepositoryError β} :
    SameResult same (.ok first) result ↔ ∃ second, result = .ok second ∧ same first second := by
  cases result <;> simp [SameResult]

/-- A conflict is answered alike by a conflict. -/
theorem same_result_conflict_iff {α β : Type} {same : α → β → Prop} {message : String}
    {result : Except RepositoryError β} :
    SameResult same (.error (.conflict message)) result ↔
      ∃ other, result = .error (.conflict other) := by
  rcases result with (other | _ | other) | second <;>
    simp [SameResult, RepositoryError.SameVariant]

section Lists

variable {α β : Type} {relation : α → β → Prop}

/-- What is found for each element of a list. -/
theorem forall₂_filter_map {find : β → Option α} {elements : List β}
    (h : ∀ element ∈ elements, ∃ found, find element = some found ∧ relation found element) :
    List.Forall₂ relation (elements.filterMap find) elements := by
  induction elements with
  | nil => exact .nil
  | cons head rest ih =>
      obtain ⟨found, hfound, hrelated⟩ := h head List.mem_cons_self
      rw [List.filterMap_cons_some hfound]
      exact .cons hrelated (ih fun element helement => h element (List.mem_cons_of_mem _ helement))

/-- Related elements that agree in something agree in it position by position. -/
theorem map_eq_of_forall₂ {γ : Type} {left : α → γ} {right : β → γ} {firsts : List α}
    {seconds : List β} (hrelated : List.Forall₂ relation firsts seconds)
    (hsame : ∀ first second, relation first second → left first = right second) :
    firsts.map left = seconds.map right := by
  have hboth := hrelated.imp hsame
  rwa [← List.forall₂_map_right_iff (f := right) (R := fun first value => left first = value),
    ← List.forall₂_map_left_iff (f := left) (R := Eq), List.forall₂_eq_eq_eq] at hboth

end Lists

variable [Platform]

/-- One payment in memory and in the tables. The tables keep of the instant of creation what a
`TIMESTAMPTZ` keeps. -/
structure Payment.SameAs (first second : Payment) : Prop where
  id : first.id = second.id
  reference : first.reference = second.reference
  amount : NumericallyEqual first.amount second.amount
  asset : first.asset = second.asset
  destination : first.destination = second.destination
  memo : first.memo = second.memo
  status : first.status = second.status
  stellarTxHash : first.stellarTxHash = second.stellarTxHash
  createdAt : Platform.timestamptz first.createdAt = second.createdAt

/-- The same payments, position by position created at the same instant. -/
structure SameListing (firsts seconds : List Payment) : Prop where
  times : firsts.map (fun first => Platform.timestamptz first.createdAt) =
    seconds.map Payment.createdAt
  payments : ∃ permuted, firsts.Perm permuted ∧ List.Forall₂ Payment.SameAs permuted seconds

/-- The same write changes the same payment in the same way. -/
theorem Payment.SameAs.moved {first second : Payment} (h : first.SameAs second)
    (next : PaymentStatus) (hash : Option String) (now later : DateTime) :
    (first.moved next hash now).SameAs (second.moved next hash later) where
  id := h.id
  reference := h.reference
  amount := h.amount
  asset := h.asset
  destination := h.destination
  memo := h.memo
  status := rfl
  stellarTxHash := congrArg hash.or h.stellarTxHash
  createdAt := h.createdAt

/-- The row of a payment with a valid amount reads back as the same payment. -/
theorem Payment.same_as_view [DecimalLaws] {payment : Payment} {decimal kept : Decimal}
    (hvalid : validateAmount payment.amount = .ok decimal)
    (hkept : Platform.numeric decimal = .ok kept) :
    payment.SameAs (payment.toRow kept).view := by
  obtain ⟨hparsed, hpositive, hscale⟩ := validate_amount_ok hvalid
  have hvalue : (Platform.normalize kept).value = decimal.value :=
    (DecimalLaws.normalize_value kept).trans (Decimal.numeric_value hscale hkept)
  obtain ⟨parsed, hread, hparsedValue⟩ :=
    Decimal.parse_to_string (hvalue.symm ▸ hpositive.le : 0 ≤ (Platform.normalize kept).value)
  have hview : (payment.toRow kept).view = (payment.toRow kept).payment payment.status := by
    simp [PaymentRow.view, toRow]
  rw [hview]
  refine ⟨rfl, rfl, ?_, ?_, rfl, rfl, rfl, rfl, rfl⟩
  · exact ⟨decimal, parsed, hparsed, hread, (hparsedValue.trans hvalue).symm⟩
  · cases payment.asset
    rfl

/-- Both stores hold the same payments under the same identifiers and keys. -/
structure Related (memory : InMemoryState) (db : Database) : Prop where
  payments : ∀ id, Option.Rel Payment.SameAs (stored memory id) (stored db id)
  keys : ∀ key, linked memory key = linked db key

/-- Empty stores hold the same payments. -/
theorem related_empty : Related InMemoryState.new Database.new where
  payments _ := .none
  keys key := by
    rw [InMemoryState.linked_eq, Database.linked_eq]
    simp [InMemoryState.new, Database.new]

namespace Related

variable {memory : InMemoryState} {db : Database}

/-- A payment in memory is in the tables. -/
theorem in_tables (h : Related memory db) {id : Uuid} {payment : Payment}
    (hstored : stored memory id = some payment) :
    ∃ kept, stored db id = some kept ∧ payment.SameAs kept := by
  have hrel := h.payments id
  rw [hstored] at hrel
  generalize stored db id = found at hrel
  cases hrel with
  | some hsame => exact ⟨_, rfl, hsame⟩

/-- A payment in the tables is in memory. -/
theorem in_memory (h : Related memory db) {id : Uuid} {kept : Payment}
    (hstored : stored db id = some kept) :
    ∃ payment, stored memory id = some payment ∧ payment.SameAs kept := by
  have hrel := h.payments id
  rw [hstored] at hrel
  generalize stored memory id = found at hrel
  cases hrel with
  | some hsame => exact ⟨_, rfl, hsame⟩

/-- An unused identifier is unused in both. -/
theorem stored_none_iff (h : Related memory db) (id : Uuid) :
    stored memory id = none ↔ stored db id = none := by
  have hrel := h.payments id
  generalize stored memory id = first at *
  generalize stored db id = second at *
  cases hrel <;> simp

/-- Listings of the same statuses hold the same payments. -/
theorem same_payments (h : Related memory db) {wanted : PaymentStatus → Bool}
    {ordered : DateTime → DateTime → Prop} {firsts seconds : List Payment}
    (hfirsts : Listing memory wanted ordered firsts)
    (hseconds : Listing db wanted ordered seconds) :
    ∃ permuted, firsts.Perm permuted ∧ List.Forall₂ Payment.SameAs permuted seconds := by
  have hrelated : List.Forall₂ Payment.SameAs
      (seconds.filterMap fun kept => stored memory kept.id) seconds := by
    refine forall₂_filter_map fun kept hkept => ?_
    exact h.in_memory ((hseconds.mem kept).mp hkept).1
  refine ⟨_, ?_, hrelated⟩
  have hids := map_eq_of_forall₂ hrelated fun first second hsame => hsame.id
  rw [List.perm_ext_iff_of_nodup hfirsts.nodup.of_map (hids ▸ hseconds.nodup).of_map]
  intro payment
  rw [hfirsts.mem, List.mem_filterMap]
  constructor
  · intro hpayment
    obtain ⟨hstored, hwanted⟩ := hpayment
    obtain ⟨kept, hkept, hsame⟩ := h.in_tables hstored
    refine ⟨kept, (hseconds.mem kept).mpr ⟨hsame.id ▸ hkept, hsame.status ▸ hwanted⟩, ?_⟩
    rw [← hsame.id, hstored]
  · intro hfound
    obtain ⟨kept, hkept, hstored⟩ := hfound
    obtain ⟨hkeptStored, hwanted⟩ := (hseconds.mem kept).mp hkept
    obtain ⟨other, hother, hsame⟩ := h.in_memory hkeptStored
    cases hstored.symm.trans hother
    exact ⟨hsame.id ▸ hstored, hsame.status ▸ hwanted⟩

/-- Ordered listings of the same statuses are the same if a `TIMESTAMPTZ` keeps the order. -/
theorem same_listing (h : Related memory db) {wanted : PaymentStatus → Bool}
    {ordered : DateTime → DateTime → Prop} {firsts seconds : List Payment}
    (hkeeps : ∀ first second, ordered first second →
      ordered (Platform.timestamptz first) (Platform.timestamptz second))
    (hantisymm : ∀ first second, ordered first second → ordered second first → first = second)
    (hfirsts : Listing memory wanted ordered firsts)
    (hseconds : Listing db wanted ordered seconds) : SameListing firsts seconds := by
  obtain ⟨permuted, hperm, hrelated⟩ := h.same_payments hfirsts hseconds
  refine ⟨?_, permuted, hperm, hrelated⟩
  have htimes := map_eq_of_forall₂ hrelated fun first second hsame => hsame.createdAt
  have hsorted : (firsts.map fun first => Platform.timestamptz first.createdAt).Pairwise ordered :=
    List.pairwise_map.mpr (hfirsts.sorted.imp fun hle => hkeeps _ _ hle)
  have hsorted' : (seconds.map Payment.createdAt).Pairwise ordered :=
    List.pairwise_map.mpr hseconds.sorted
  have hpermTimes : (firsts.map fun first => Platform.timestamptz first.createdAt).Perm
      (seconds.map Payment.createdAt) := htimes ▸ hperm.map _
  exact hpermTimes.eq_of_pairwise (fun first second _ _ => hantisymm first second) hsorted hsorted'

end Related

end StellarPay
