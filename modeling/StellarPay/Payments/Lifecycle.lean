import StellarPay.Payments.Repository
import Mathlib.Data.List.Chain

/-!
# The life of one payment

What one write may do to one payment, `PaymentStep`, and what follows for all the records that a
payment has one after the other, `Lifecycle`. Nothing here knows about the stores or the services.
-/

namespace StellarPay

/-- Two records of one payment agree on everything that is fixed at creation. -/
structure Payment.SameTerms (first second : Payment) : Prop where
  id : second.id = first.id
  reference : second.reference = first.reference
  amount : second.amount = first.amount
  asset : second.asset = first.asset
  destination : second.destination = first.destination
  memo : second.memo = first.memo
  createdAt : second.createdAt = first.createdAt

/-- A payment holds a hash exactly when its status says that a transfer was seen. -/
def Payment.Coupled (payment : Payment) : Prop :=
  payment.stellarTxHash.isSome = payment.status.settled

/-- A later record of a payment: the terms are the same, a hash stays, and the status is the same
or further along. -/
structure Payment.Advances (first second : Payment) : Prop where
  terms : first.SameTerms second
  hash : ∀ hash, first.stellarTxHash = some hash → second.stellarTxHash = some hash
  status : second.status = first.status ∨ first.status.rank < second.status.rank

namespace Payment

variable {first second third : Payment}

theorem SameTerms.refl (payment : Payment) : payment.SameTerms payment :=
  ⟨rfl, rfl, rfl, rfl, rfl, rfl, rfl⟩

theorem SameTerms.symm (h : first.SameTerms second) : second.SameTerms first :=
  ⟨h.id.symm, h.reference.symm, h.amount.symm, h.asset.symm, h.destination.symm, h.memo.symm,
    h.createdAt.symm⟩

theorem SameTerms.trans (h : first.SameTerms second) (h' : second.SameTerms third) :
    first.SameTerms third :=
  ⟨h'.id.trans h.id, h'.reference.trans h.reference, h'.amount.trans h.amount,
    h'.asset.trans h.asset, h'.destination.trans h.destination, h'.memo.trans h.memo,
    h'.createdAt.trans h.createdAt⟩

theorem Advances.refl (payment : Payment) : payment.Advances payment :=
  ⟨.refl payment, fun _ hhash => hhash, .inl rfl⟩

theorem Advances.trans (h : first.Advances second) (h' : second.Advances third) :
    first.Advances third := by
  refine ⟨h.terms.trans h'.terms, fun hash hhash => h'.hash hash (h.hash hash hhash), ?_⟩
  rcases h.status with heq | hlt <;> rcases h'.status with heq' | hlt'
  · exact .inl (heq'.trans heq)
  · exact .inr (heq ▸ hlt')
  · exact .inr (heq' ▸ hlt)
  · exact .inr (hlt.trans hlt')

/-- A status of the highest rank is never left. -/
theorem Advances.status_eq (h : first.Advances second) (hfinal : first.status.rank = 2) :
    second.status = first.status := by
  refine h.status.resolve_right fun hlt => ?_
  have hbound : second.status.rank ≤ 2 := by cases second.status <;> decide
  omega

/-- A move keeps the terms. -/
theorem moved_same_terms (payment : Payment) (next : PaymentStatus) (hash : Option String)
    (now : DateTime) : payment.SameTerms (payment.moved next hash now) :=
  ⟨rfl, rfl, rfl, rfl, rfl, rfl, rfl⟩

/-- A move along the state machine that brings a hash exactly with detection. -/
theorem moved_coupled {payment : Payment} {next : PaymentStatus} {hash : Option String}
    (now : DateTime) (hcoupled : payment.Coupled)
    (htransition : payment.status.canTransitionTo next = true)
    (hhash : hash.isSome = true ↔ next = .detected) :
    (payment.moved next hash now).Coupled ∧ payment.Advances (payment.moved next hash now) := by
  -- Only a detection brings a hash, and it finds the payment pending and so without one.
  have hnone : hash.isSome = true → payment.stellarTxHash = none := by
    intro hsome
    rw [hhash.mp hsome] at htransition
    have hpending : payment.status = .pending := by
      cases hstatus : payment.status <;> rw [hstatus] at htransition <;> trivial
    simpa [Coupled, hpending, PaymentStatus.settled] using hcoupled
  refine ⟨?_, moved_same_terms payment next hash now, ?_, .inr ?_⟩
  · cases hash with
    | some text =>
        obtain rfl := hhash.mp rfl
        rfl
    | none =>
        have hne : next ≠ .detected := fun heq => by simpa using hhash.mpr heq
        rw [Coupled] at hcoupled
        simp only [Coupled, moved, Option.none_or, hcoupled]
        cases hstatus : payment.status <;> rw [hstatus] at htransition <;> cases next <;>
          first | (cases htransition; done) | rfl | exact absurd rfl hne
  · intro text htext
    cases hash with
    | none => exact htext
    | some other => simp [hnone rfl] at htext
  · exact PaymentStatus.rank_lt_of_canTransitionTo htransition

end Payment

/-- What one write does to what is found under an id: nothing, a new pending payment, or a move
along the state machine that brings a hash exactly with detection. -/
inductive PaymentStep : Option Payment → Option Payment → Prop where
  | stay (found : Option Payment) : PaymentStep found found
  | created (payment : Payment) (hstatus : payment.status = .pending)
      (hhash : payment.stellarTxHash = none) : PaymentStep none (some payment)
  | moved (payment : Payment) (next : PaymentStatus) (hash : Option String) (time : DateTime)
      (htransition : payment.status.canTransitionTo next = true)
      (hhash : hash.isSome = true ↔ next = .detected) :
      PaymentStep (some payment) (some (payment.moved next hash time))

/-- Nothing that a write leaves behind breaks the coupling of status and hash. -/
theorem PaymentStep.coupled {before after : Option Payment} (h : PaymentStep before after)
    (hbefore : ∀ payment ∈ before, payment.Coupled) : ∀ payment ∈ after, payment.Coupled := by
  cases h with
  | stay => exact hbefore
  | created payment hstatus hhash =>
      rintro _ ⟨⟩
      simp [Payment.Coupled, hstatus, hhash, PaymentStatus.settled]
  | moved payment next hash time htransition hhash =>
      rintro _ ⟨⟩
      exact (Payment.moved_coupled time (hbefore payment rfl) htransition hhash).1

/-- A payment that exists stays, and only advances. -/
theorem PaymentStep.advances {payment : Payment} {after : Option Payment}
    (h : PaymentStep (some payment) after) (hcoupled : payment.Coupled) :
    ∃ later, after = some later ∧ payment.Advances later := by
  cases h with
  | stay => exact ⟨payment, rfl, .refl payment⟩
  | moved _ next hash time htransition hhash =>
      exact ⟨_, rfl, (Payment.moved_coupled time hcoupled htransition hhash).2⟩

/-- Everything that is promised about the records of one payment, oldest first. -/
structure Lifecycle (records : List Payment) : Prop where
  /-- The first status is `Pending`. -/
  starts : ∀ payment ∈ records.head?, payment.status = .pending
  /-- The statuses form a path of the state machine. -/
  path : records.IsChain fun first second =>
    second.status = first.status ∨ first.status.canTransitionTo second.status = true
  /-- `Confirmed`, `Failed` and `Expired` are never left. -/
  final : records.Pairwise fun first second =>
    first.status = .confirmed ∨ first.status = .failed ∨ first.status = .expired →
      second.status = first.status
  /-- There is a hash exactly in the states `Detected`, `Confirmed` and `Failed`. -/
  coupled : ∀ payment ∈ records, payment.stellarTxHash.isSome = true ↔
    payment.status = .detected ∨ payment.status = .confirmed ∨ payment.status = .failed
  /-- A hash that is set is never changed. -/
  hash : records.Pairwise fun first second =>
    ∀ hash, first.stellarTxHash = some hash → second.stellarTxHash = some hash
  /-- What is fixed at creation is never changed. -/
  terms : records.Pairwise Payment.SameTerms

/-- In a chain of writes to a coupled payment the payment never disappears. -/
theorem PaymentStep.chain_some {payment : Payment} {found : List (Option Payment)}
    (h : (some payment :: found).IsChain PaymentStep) (hcoupled : payment.Coupled) :
    ∃ records, found = records.map some ∧ (∀ record ∈ records, record.Coupled) ∧
      (payment :: records).IsChain fun first second =>
        first.Advances second ∧ PaymentStep (some first) (some second) := by
  induction found generalizing payment with
  | nil => exact ⟨[], rfl, by simp, .singleton _⟩
  | cons next rest ih =>
      obtain ⟨hstep, hrest⟩ := List.isChain_cons_cons.mp h
      obtain ⟨later, rfl, hadvances⟩ := hstep.advances hcoupled
      have hlater : later.Coupled := hstep.coupled (by simpa using hcoupled) later rfl
      obtain ⟨records, rfl, hrecords, hchain⟩ := ih hrest hlater
      refine ⟨later :: records, rfl, by simpa using ⟨hlater, hrecords⟩, ?_⟩
      exact List.isChain_cons_cons.mpr ⟨⟨hadvances, hstep⟩, hchain⟩

/-- A chain of advancing records is ordered as a whole. -/
theorem advances_pairwise {records : List Payment}
    (h : records.IsChain Payment.Advances) : records.Pairwise Payment.Advances := by
  have htrans : IsTrans Payment Payment.Advances := ⟨fun _ _ _ => Payment.Advances.trans⟩
  exact h.pairwise

/-- The records that a chain of writes creates and moves live as promised. -/
theorem lifecycle_of_chain {payment : Payment} {records : List Payment}
    (hpending : payment.status = .pending)
    (hcoupled : ∀ record ∈ payment :: records, record.Coupled)
    (hchain : (payment :: records).IsChain fun first second =>
      first.Advances second ∧ PaymentStep (some first) (some second)) :
    Lifecycle (payment :: records) := by
  have hadvances := advances_pairwise (hchain.imp fun _ _ h => h.1)
  refine ⟨by simpa using hpending, hchain.imp fun first second h => ?_,
    hadvances.imp ?_, fun record hrecord => ?_, hadvances.imp fun h => h.hash,
    hadvances.imp fun h => h.terms⟩
  · cases h.2 with
    | stay => exact .inl rfl
    | moved _ next hash time htransition hhash => exact .inr htransition
  · rintro first second h hfinal
    refine h.status_eq ?_
    rcases hfinal with h | h | h <;> rw [h] <;> rfl
  · rw [hcoupled record hrecord]
    cases record.status <;> decide

/-- What is found under an id in a chain of writes that begins without the payment: nothing at
first, and from its creation on a payment that lives as promised. -/
theorem PaymentStep.chain_none {found : List (Option Payment)}
    (h : (none :: found).IsChain PaymentStep) :
    ∃ count records, none :: found = List.replicate count none ++ records.map some ∧
      Lifecycle records := by
  induction found with
  | nil => exact ⟨1, [], rfl, by constructor <;> simp⟩
  | cons next rest ih =>
      obtain ⟨hstep, hrest⟩ := List.isChain_cons_cons.mp h
      cases hstep with
      | stay =>
          obtain ⟨count, records, heq, hlife⟩ := ih hrest
          exact ⟨count + 1, records, by rw [heq]; rfl, hlife⟩
      | created payment hstatus hhash =>
          have hcoupled : payment.Coupled := by
            simp [Payment.Coupled, hstatus, hhash, PaymentStatus.settled]
          obtain ⟨records, rfl, hrecords, hchain⟩ := chain_some hrest hcoupled
          refine ⟨1, payment :: records, rfl, lifecycle_of_chain hstatus ?_ hchain⟩
          simpa using ⟨hcoupled, hrecords⟩

end StellarPay
