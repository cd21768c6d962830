import StellarPay.Reconciliation.Payable
import StellarPay.Runs.Creation
import StellarPay.Runs.Idempotency
import StellarPay.Runtime.Exact
import Mathlib.Tactic.NormNum.Ineq

/-!
# Which payments can be paid

`create_payment` accepts every positive amount with at most seven decimals, and every memo. The
ledger has a largest amount, and a text memo there has at most 28 bytes. A generated memo keeps to
that limit; nothing checks the amount and the memo of the client.
-/

namespace StellarPay

open Interleaving

section Amounts

variable [Platform] [DecimalLaws]

/-- The amount of a payment on either backend is, after its creation, the number that was sent. -/
theorem Backend.created_amount (backend : Backend) {payment created : Payment}
    {key : Option String} {payments after : backend.Payments} {decimal : Decimal}
    (h : PaymentRepository.createWithIdempotencyKey payment key payments = (.ok created, after))
    (hparsed : Platform.decimalFromStr payment.amount = .ok decimal) (hscale : decimal.scale ≤ 7)
    (hpositive : 0 < decimal.value) :
    ∃ parsed, Platform.decimalFromStr created.amount = .ok parsed ∧
      parsed.value = decimal.value := by
  cases backend with
  | inMemory =>
      rcases InMemoryState.create_cases payment key payments with
        ⟨-, _, hcreate⟩ | ⟨-, _, hcreate, -⟩
      · cases hcreate.symm.trans h
      · cases hcreate.symm.trans h
        exact ⟨decimal, hparsed, rfl⟩
  | postgres =>
      rcases Database.create_cases payment key payments with
        ⟨_, hcreate⟩ | ⟨kept, _, hcreate, -, -, -, -, -, asked, hasked, hkept⟩
      · cases hcreate.symm.trans h
      · cases hparsed.symm.trans hasked
        cases hcreate.symm.trans h
        have hvalue := Decimal.numeric_value hscale hkept
        have hnormal := DecimalLaws.normalize_value kept
        have hnonneg : 0 ≤ (Platform.normalize kept).value := by
          rw [hnormal, hvalue]
          exact hpositive.le
        obtain ⟨parsed, hread, hsame⟩ := Decimal.parse_to_string hnonneg
        refine ⟨parsed, ?_, hsame.trans (hnormal.trans hvalue)⟩
        rw [PaymentRow.view_amount]
        exact hread

/-- On either backend, in every run from any stores: a payment that `create_payment` creates can be
paid exactly when its amount is not above the largest one of the ledger and a memo that the client
sent has at most 28 bytes. -/
theorem can_be_paid_iff (backend : Backend) {world : World backend.Payments backend.Events}
    {state : State backend.machine} (hreach : Reachable .any world state)
    {act : Act backend.machine} (hact : .act act ∈ state.config.trace)
    {t : Thread backend.machine} (hthread : state.threads[act.thread]? = some t)
    {service : PaymentService} {amount reference : String}
    {destination memo key used : Option String} {payment created : Payment}
    (hcall : t.call = .createPayment service amount reference destination memo key)
    (hgot : act.Got (.createWithIdempotencyKey payment used) (.ok created)) :
    CanBePaid created ↔
      (∀ decimal, Platform.decimalFromStr amount = .ok decimal →
        decimal.value ≤ maxStroops / 10 ^ 7) ∧
      ∀ text, memo = some text → text.utf8ByteSize ≤ 28 := by
  obtain ⟨-, hnew⟩ := created_from_sent hreach hact hthread hcall hgot.1
  obtain ⟨decimal, hvalid⟩ := hnew.valid
  obtain ⟨hparsed, hpositive, hscale⟩ := validate_amount_ok hvalid
  have hcreate := create_of_answer hgot.2
  obtain ⟨parsed, hread, hvalue⟩ := backend.created_amount hcreate
    (by rw [hnew.amount]; exact hparsed) hscale hpositive
  have hmemo := (RepositoryLaws.create_ok hcreate).1.memo
  obtain ⟨text, htext, hsource⟩ := hnew.memo
  have hamount := payable_amount_iff hread (hvalue ▸ exists_stroops hpositive hscale)
  rw [hvalue] at hamount
  constructor
  · intro hpayable
    obtain ⟨hcount, sent, hsent, hbytes⟩ := hpayable
    refine ⟨fun other hother => ?_, fun given hgiven => ?_⟩
    · cases hparsed.symm.trans hother
      exact hamount.mp hcount
    · rcases hsource with hsame | ⟨hnone, -⟩
      · cases hsame.symm.trans hgiven
        cases (hsent.symm.trans hmemo).trans htext
        exact hbytes
      · cases hnone.symm.trans hgiven
  · intro hfits
    obtain ⟨hmax, hbytes⟩ := hfits
    refine ⟨hamount.mpr (hmax decimal hparsed), text, hmemo.trans htext, ?_⟩
    rcases hsource with hsame | ⟨-, id, rfl⟩
    · exact hbytes text hsame
    · rw [memo_of_id_bytes]
      decide

end Amounts

section Run

attribute [local instance] Exact.platform

open Plain

/-- The payment that an event created. -/
def creation : Event Backend.postgres.machine → Option Payment
  | .act ⟨_, _, .createWithIdempotencyKey payment key, env, before⟩ =>
      match (answer env (.createWithIdempotencyKey payment key) before).1 with
      | .ok created => some created
      | .error _ => none
  | _ => none

/-- A creation is a request of the repository that returned the payment. -/
theorem creation_eq_some {event : Event Backend.postgres.machine} {created : Payment}
    (h : creation event = some created) : ∃ act payment key, event = .act act ∧
      act.Got (.createWithIdempotencyKey payment key) (.ok created) := by
  unfold creation at h
  split at h
  · rename_i thread span payment key env before
    split at h
    · rename_i stored hanswer
      cases h
      exact ⟨_, payment, key, rfl, rfl, hanswer⟩
    · cases h
  · cases h

/-- The amount and the memo that a thread was called with. -/
def sentBy (state : State Backend.postgres.machine) (thread : Nat) :
    Option (String × Option String) :=
  match state.threads[thread]? with
  | some ⟨.createPayment _ amount _ _ memo _, _⟩ => some (amount, memo)
  | _ => none

/-- Only a call of `create_payment` is given an amount. -/
theorem sent_by_eq_some {state : State Backend.postgres.machine} {thread : Nat} {amount : String}
    {memo : Option String} (h : sentBy state thread = some (amount, memo)) :
    ∃ t service reference destination key, state.threads[thread]? = some t ∧
      t.call = .createPayment service amount reference destination memo key := by
  unfold sentBy at h
  split at h
  · rename_i hthread
    cases h
    exact ⟨_, _, _, _, _, hthread, rfl⟩
  · cases h

/-- One call that creates a payment of this amount. -/
def oneCreation (amount : String) : List (Choice Backend.postgres.machine) :=
  [.start (create amount "order-1" none), .act 0 (env 5000 7), .act 0 (env 5000 7),
    .act 0 (env 5000 7)]

/-- A payment of ten units with a short memo can be paid. -/
theorem can_be_paid_iff_ten : ∃ (state : State Backend.postgres.machine) (created : Payment),
    (∃ event ∈ state.config.trace, creation event = some created) ∧ CanBePaid created := by
  obtain ⟨state, hreach, htest⟩ := exists_reachable .any (oneCreation "10") Backend.postgres.empty
    (fun state => state.config.trace.any fun event => (creation event).isSome &&
      sentBy state event.thread == some ("10", some "m")) (by decide)
  obtain ⟨event, hevent, htest⟩ := List.any_eq_true.mp htest
  simp only [Bool.and_eq_true, beq_iff_eq] at htest
  obtain ⟨created, hcreated⟩ := Option.isSome_iff_exists.mp htest.1
  obtain ⟨act, payment, key, rfl, hgot⟩ := creation_eq_some hcreated
  obtain ⟨t, service, reference, destination, key, hthread, hcall⟩ := sent_by_eq_some htest.2
  refine ⟨state, created, ⟨_, hevent, hcreated⟩, ?_⟩
  refine (can_be_paid_iff .postgres hreach hevent hthread hcall hgot).mpr ⟨?_, ?_⟩
  · intro decimal hparsed
    cases hparsed.symm.trans (show Platform.decimalFromStr "10" = .ok ⟨10, 0, by decide, by decide⟩
      from rfl)
    norm_num [Decimal.value, maxStroops]
  · intro text htext
    cases htext
    decide

/-- A payment of one stroop more than the ledger can carry is created, and cannot be paid. -/
theorem created_beyond_ledger : ∃ (state : State Backend.postgres.machine) (created : Payment),
    Reachable .any Backend.postgres.empty state ∧
    (∃ event ∈ state.config.trace, creation event = some created) ∧ ¬ CanBePaid created := by
  obtain ⟨state, hreach, htest⟩ := exists_reachable .any (oneCreation "922337203685.4775808")
    Backend.postgres.empty (fun state => state.config.trace.any fun event =>
      (creation event).any fun created => created.amount == "922337203685.4775808") (by decide)
  obtain ⟨event, hevent, htest⟩ := List.any_eq_true.mp htest
  obtain ⟨created, hcreated, hamount⟩ := Option.any_eq_true _ _ |>.mp htest
  rw [beq_iff_eq] at hamount
  refine ⟨state, created, hreach, ⟨event, hevent, hcreated⟩, fun hpaid => ?_⟩
  have hparsed : Platform.decimalFromStr created.amount =
      .ok ⟨9223372036854775808, 7, by decide, by decide⟩ := by
    rw [hamount]
    rfl
  have hvalue : (⟨9223372036854775808, 7, by decide, by decide⟩ : Decimal).value =
      (2 ^ 63 : Nat) / 10 ^ 7 := by
    norm_num [Decimal.value]
  have hmax := (payable_amount_iff hparsed ⟨2 ^ 63, by decide, hvalue⟩).mp hpaid.amount
  rw [hvalue] at hmax
  norm_num [maxStroops] at hmax

end Run

end StellarPay
