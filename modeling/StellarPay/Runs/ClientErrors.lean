import StellarPay.Payments.Columns
import StellarPay.Runs.Creation
import StellarPay.Runs.Idempotency
import StellarPay.Runtime.Exact
import Mathlib.Tactic.NormNum.Ineq

/-!
# Input that the tables cannot hold

On Postgres a creation whose payment the columns cannot hold is refused with a database error,
which clients see as an error of the server. `validate_amount` knows the seven decimals of the
column and not its thirteen digits before the point, and nothing looks for NUL in the texts.
-/

namespace StellarPay

open Interleaving

/-- A result that is not an error of the server. -/
def ClientResult : Except PaymentError Payment → Prop
  | .ok _ | .error (.invalidAmount _) | .error (.duplicateReference _) => True
  | .error _ => False

section Storable

variable [Platform]

/-- The columns can hold what the client sent. -/
structure StorableRequest (service : PaymentService) (amount reference : String)
    (destination memo : Option String) : Prop where
  amount : ∀ decimal, Platform.decimalFromStr amount = .ok decimal → decimal.value < 10 ^ 13
  reference : hasNul reference = false
  destination : hasNul (destination.getD service.defaultDestination) = false
  memo : ∀ text, memo = some text → hasNul text = false

variable [DecimalLaws] {service : PaymentService} {amount reference : String}
  {destination memo : Option String} {payment : Payment}

/-- The columns can hold a new payment exactly when they can hold what the client sent. -/
theorem NewPayment.storable_iff (h : NewPayment service amount reference destination memo payment) :
    payment.storable = true ↔ StorableRequest service amount reference destination memo := by
  obtain ⟨decimal, hvalid⟩ := h.valid
  obtain ⟨text, htext, hsource⟩ := h.memo
  have hmemo : hasNul text = false ↔ ∀ given, memo = some given → hasNul given = false := by
    rcases hsource with hsame | ⟨hnone, id, rfl⟩
    · simp [hsame]
    · simp [hnone, memo_of_id_nul]
  rw [payment.storable_iff (h.amount.symm ▸ hvalid) h.hash]
  constructor
  · intro hfits
    refine ⟨?_, h.reference ▸ hfits.reference, h.destination ▸ hfits.destination, ?_⟩
    · exact h.amount ▸ hfits.amount
    · exact hmemo.mp (hfits.memo text htext)
  · intro hsent
    refine ⟨?_, h.reference ▸ hsent.reference, h.destination ▸ hsent.destination, ?_⟩
    · exact h.amount ▸ hsent.amount
    · intro other hother
      cases htext.symm.trans hother
      exact hmemo.mpr hsent.memo

end Storable

section Postgres

variable [Platform]

/-- Every call, on a payment store that works. -/
def workingRules : Rules (machine Database EventTable) :=
  ⟨fun _ => True, fun env _ _ _ => env.paymentsFault = none⟩

instance : DecidablePred workingRules.admits :=
  fun _ => inferInstanceAs (Decidable True)

instance (env : Env) (span : Option Uuid) (request : Request)
    (world : World Database EventTable) :
    Decidable (workingRules.permits env span request world) :=
  inferInstanceAs (Decidable (_ = _))

/-- The thread has looked up the key when it was linked. -/
def MetLinked (state : State (machine Database EventTable)) (thread : Nat) : Prop :=
  ∃ act name id, .act act ∈ state.config.trace ∧ act.thread = thread ∧
    act.request = .findByIdempotencyKey name ∧ linked act.before.payments name = some id

variable {world : World Database EventTable} {state : State (machine Database EventTable)}
  {service : PaymentService} {amount reference : String} {destination memo key : Option String}

/-- A working store carries out the lookup of a key. -/
theorem got_lookup {act : Act (machine Database EventTable)} {name : String}
    {reply : Except RepositoryError (Option Payment)} (hworking : act.env.paymentsFault = none)
    (hgot : act.Got (.findByIdempotencyKey name) reply) :
    PaymentRepository.findByIdempotencyKey name act.before.payments = reply := by
  have hanswer := hgot.2
  simpa only [answer, onPayments, attempt, hworking, reading] using hanswer

/-- A working store carries out a creation. -/
theorem got_creation {act : Act (machine Database EventTable)} {payment : Payment}
    {key : Option String} {reply : Except RepositoryError Payment}
    (hworking : act.env.paymentsFault = none)
    (hgot : act.Got (.createWithIdempotencyKey payment key) reply) :
    (act.before.payments.createWithIdempotencyKey payment key).1 = reply := by
  have hanswer := hgot.2
  simpa only [answer, onPayments, attempt, hworking, PaymentRepository.createWithIdempotencyKey]
    using hanswer

variable [DecimalLaws]

/-- On a working Postgres store, whatever it holds and whoever else uses it: a call with a key that
is valid text returns without an error of the server exactly when its amount is refused, or its
lookup finds the key linked, or the columns can hold what the client sent. -/
theorem client_result_iff (hreach : Reachable workingRules world state) {thread : Nat}
    {result : Except PaymentError Payment}
    (hthread : state.threads[thread]? =
      some ⟨.createPayment service amount reference destination memo key, .done result⟩)
    (hkey : ∀ name, key = some name → hasNul name = false) :
    ClientResult result ↔ (∃ error, validateAmount amount = .error error) ∨
      MetLinked state thread ∨ StorableRequest service amount reference destination memo := by
  have hworking : ∀ act, .act act ∈ state.config.own thread → act.env.paymentsFault = none :=
    fun act hact => hreach.permitted (Config.mem_of_own hact)
  cases create_returned hreach hthread with
  | invalid error hinvalid =>
      rw [validate_amount_error hinvalid]
      exact iff_of_true trivial (.inl ⟨error, hinvalid⟩)
  | unread act name error hact hname hgot =>
      obtain ⟨found, hfound⟩ := Database.find_key_answers (hkey name hname) act.before.payments
      cases (got_lookup (hworking act hact) hgot).symm.trans hfound
  | existing act name payment hact hname hgot =>
      have hlinked := (KeyLaws.find_key (got_lookup (hworking act hact) hgot)).1
      obtain ⟨hmem, hown⟩ := Config.mem_own.mp hact
      exact iff_of_true trivial (.inr (.inl ⟨act, name, payment.id, hmem, hown, hgot.1, hlinked⟩))
  | answered act payment reply hact hnew hfree hgot =>
      have hvalid : ¬ ∃ error, validateAmount amount = .error error := by
        intro hrejected
        obtain ⟨error, hinvalid⟩ := hrejected
        obtain ⟨decimal, hdecimal⟩ := hnew.valid
        cases hinvalid.symm.trans hdecimal
      have hunlinked : ¬ MetLinked state thread := by
        intro hreplayed
        obtain ⟨lookup, name, id, hlookup, hown, hrequest, hlinked⟩ := hreplayed
        have hmem := Config.mem_own.mpr ⟨hlookup, hown⟩
        obtain ⟨found, hfound⟩ := KeyLaws.find_linked hlinked
        refine hfree lookup name found hmem ⟨hrequest, ?_⟩
        simp only [answer, onPayments, attempt, hworking lookup hmem, reading]
        exact hfound
      have hreply := got_creation (hworking act hact) hgot
      have hstorable := create_storable_iff act.before.payments hnew.hash hkey
      rw [hreply, hnew.storable_iff] at hstorable
      simp only [hvalid, hunlinked, false_or, ← hstorable]
      rcases reply with (message | message | _) | created <;> simp [createOutcome, ClientResult]

end Postgres

section Run

attribute [local instance] Exact.platform

open Plain

/-- One call of `create_payment` on empty tables. -/
def oneCall (amount : String) : List (Choice (machine Database EventTable)) :=
  [.start (create amount "order-1" (some "k")), .act 0 (env 5000 7), .act 0 (env 5000 7),
    .act 0 (env 5000 7), .act 0 (env 5000 7)]

/-- The result of a thread that was called with the amount `10` and texts that have no NUL. -/
def resultOfTen (state : State (machine Database EventTable)) (thread : Nat) :
    Option (Except PaymentError Payment) :=
  match state.threads[thread]? with
  | some ⟨.createPayment service amount reference destination memo key, .done result⟩ =>
      if amount = "10" ∧ hasNul reference = false ∧
          hasNul (destination.getD service.defaultDestination) = false ∧
          memo.any hasNul = false ∧ key.any hasNul = false then some result
      else none
  | _ => none

/-- A call with an amount that the column can hold returns without an error of the server. -/
theorem client_result_iff_ten : ∃ (state : State (machine Database EventTable))
    (result : Except PaymentError Payment), resultOfTen state 0 = some result ∧
      ClientResult result := by
  obtain ⟨state, hreach, htest⟩ := exists_reachable workingRules (oneCall "10")
    ⟨Database.new, EventTable.new⟩ (fun state => (resultOfTen state 0).isSome) (by decide)
  obtain ⟨result, hresult⟩ := Option.isSome_iff_exists.mp htest
  refine ⟨state, result, hresult, ?_⟩
  unfold resultOfTen at hresult
  split at hresult
  · rename_i service amount reference destination memo key returned hthread
    simp only [Option.ite_none_right_eq_some, Option.some.injEq] at hresult
    obtain ⟨⟨rfl, hreference, hdestination, hmemo, hkey⟩, rfl⟩ := hresult
    refine (client_result_iff hreach hthread ?_).mpr
      (.inr (.inr ⟨?_, hreference, hdestination, ?_⟩))
    · rintro name rfl
      exact hkey
    · intro decimal hparsed
      have hten : Platform.decimalFromStr "10" = .ok ⟨10, 0, by decide, by decide⟩ := rfl
      cases hparsed.symm.trans hten
      norm_num [Decimal.value]
    · rintro text rfl
      exact hmemo
  · cases hresult

/-- An amount of ten trillion units passes validation, and the database refuses it. -/
theorem amount_overflows_column : ∃ state : State (machine Database EventTable),
    Reachable workingRules ⟨Database.new, EventTable.new⟩ state ∧
    CreateReturned state 0 "10000000000000" "order-1" (some "k")
      (.error (.repository (.database "numeric field overflow"))) := by
  obtain ⟨state, hreach, htest⟩ := exists_reachable workingRules (oneCall "10000000000000")
    ⟨Database.new, EventTable.new⟩ (fun state => createResult state 0 ==
      some ("10000000000000", "order-1", some "k",
        .error (.repository (.database "numeric field overflow")))) (by decide)
  exact ⟨state, hreach, by simpa [CreateReturned] using htest⟩

end Run

end StellarPay
