import StellarPay.Interleaving.Own
import StellarPay.Runtime.Frames
import StellarPay.Runtime.Requests

/-!
# What a creation stores and what it returns

The payment that `create_payment` makes from what a client sent (`NewPayment`), and the ways in
which the call returns (`CreateTrace`). The amount, the memo and the other texts pass through as
they are, so limits of the ledger and of the tables that `validate_amount` does not know are met or
missed by the client's input.
-/

namespace StellarPay

open Interleaving

section Texts

/-- A text of characters of one byte each. -/
theorem utf8_byte_size_of_single {chars : List Char} (h : ∀ char ∈ chars, char.utf8Size = 1) :
    (String.ofList chars).utf8ByteSize = chars.length := by
  induction chars with
  | nil => rfl
  | cons head rest ih =>
      have hcons : String.ofList (head :: rest) = String.singleton head ++ String.ofList rest := by
        rw [← String.toList_inj]
        simp
      rw [hcons, String.utf8ByteSize_append, String.utf8ByteSize_singleton,
        h head List.mem_cons_self, ih fun char hchar => h char (List.mem_cons_of_mem _ hchar),
        List.length_cons, Nat.add_comm]

/-- Hexadecimal digits have one byte and are not NUL. -/
theorem digit_char_plain : ∀ digit < 16,
    (Nat.digitChar digit).utf8Size = 1 ∧ Nat.digitChar digit ≠ Char.ofNat 0 := by
  decide

/-- What `generate_memo` makes of an identifier. -/
def memoOfId (id : Uuid) : String :=
  String.ofList (id.simple.toList.take 16)

/-- The digits of an identifier have one byte and are not NUL. -/
theorem mem_simple {id : Uuid} {char : Char} (h : char ∈ id.simple.toList) :
    char.utf8Size = 1 ∧ char ≠ Char.ofNat 0 := by
  rw [Uuid.simple, String.toList_ofList] at h
  obtain ⟨index, -, rfl⟩ := List.mem_map.mp h
  exact digit_char_plain _ (Nat.mod_lt _ (by decide))

/-- A generated memo has sixteen bytes. -/
theorem memo_of_id_bytes (id : Uuid) : (memoOfId id).utf8ByteSize = 16 := by
  rw [memoOfId,
    utf8_byte_size_of_single fun char hchar => (mem_simple (List.mem_of_mem_take hchar)).1,
    List.length_take, Uuid.simple, String.toList_ofList, List.length_map, List.length_range]
  rfl

/-- A generated memo has no NUL. -/
theorem memo_of_id_nul (id : Uuid) : hasNul (memoOfId id) = false := by
  rw [hasNul, memoOfId, String.toList_ofList, List.contains_eq_mem]
  exact decide_eq_false fun h => (mem_simple (List.mem_of_mem_take h)).2 rfl

end Texts

section Requests

variable [Platform]

/-- A payment as `create_payment` makes it from what the client sent. -/
structure NewPayment (service : PaymentService) (amount reference : String)
    (destination memo : Option String) (payment : Payment) : Prop where
  valid : ∃ decimal, validateAmount amount = .ok decimal
  amount : payment.amount = amount
  reference : payment.reference = reference
  destination : payment.destination = destination.getD service.defaultDestination
  /-- The memo is the one that was sent, or a generated one. -/
  memo : ∃ text, payment.memo = some text ∧
    (memo = some text ∨ memo = none ∧ ∃ id, text = memoOfId id)
  hash : payment.stellarTxHash = none

/-- The payment of every creation is made from what the client sent. -/
def Call.CreatesSent : Call → Request → Prop
  | .createPayment service amount reference destination memo key,
      .createWithIdempotencyKey payment used =>
        used = key ∧ NewPayment service amount reference destination memo payment
  | _, _ => True

omit [Platform] in
/-- A creation stores the payment it was given, under the key it was given. -/
theorem create_with_idempotency_makes {payment : Payment} {key : Option String}
    {allowed : Request → Prop} (hlookup : ∀ name, allowed (.findByIdempotencyKey name))
    (hcreate : allowed (.createWithIdempotencyKey payment key)) :
    (createWithIdempotency payment key).Makes allowed := by
  refine .bind (?_ : (findExisting key).Makes _) fun existing => ?_
  · cases key with
    | none => exact Program.makes_pure _
    | some name => exact (Program.makes_request _).mpr (hlookup name)
  · rcases existing with error | _ | existing
    · exact Program.makes_pure _
    · exact Program.makes_request_bind _ _ |>.mpr ⟨hcreate, fun _ => trivial⟩
    · exact Program.makes_pure _

/-- A creation makes the payment from what was sent. -/
theorem create_payment_creates_sent {service : PaymentService} {amount reference : String}
    {destination memo key : Option String} :
    (service.createPayment amount reference destination memo key).Makes
      (Call.CreatesSent (.createPayment service amount reference destination memo key)) := by
  unfold PaymentService.createPayment
  split
  · exact Program.makes_pure _
  · rename_i decimal hvalid
    have hnew : ∀ text, (memo = some text ∨ memo = none ∧ ∃ id, text = memoOfId id) →
        (Payment.new amount reference (destination.getD service.defaultDestination) (some text) >>=
          fun payment => createWithIdempotency payment key).Makes
            (Call.CreatesSent (.createPayment service amount reference destination memo key)) := by
      intro text hmemo
      refine ⟨trivial, fun now => ⟨trivial, fun id => ?_⟩⟩
      refine create_with_idempotency_makes (fun _ => trivial) ⟨rfl, ?_⟩
      exact ⟨⟨decimal, hvalid⟩, rfl, rfl, rfl, ⟨text, rfl, hmemo⟩, rfl⟩
    cases memo with
    | some text => exact hnew text (.inl rfl)
    | none => exact ⟨trivial, fun id => hnew (memoOfId id) (.inr ⟨rfl, id, rfl⟩)⟩

/-- Every call creates only what was sent. -/
theorem body_creates_sent (call : Call) : call.body.Makes call.CreatesSent := by
  cases call with
  | createPayment => exact create_payment_creates_sent
  | _ => exact .of_forall fun _ => trivial

/-- In every run, a payment that a call of `create_payment` creates is made from what was sent. -/
theorem created_from_sent {σ ε : Type} [PaymentRepository σ] [WebhookEventRepository ε]
    {rules : Rules (machine σ ε)} {world : World σ ε} {state : State (machine σ ε)}
    (hreach : Reachable rules world state) {act : Act (machine σ ε)}
    (hact : .act act ∈ state.config.trace) {t : Thread (machine σ ε)}
    (hthread : state.threads[act.thread]? = some t) {service : PaymentService}
    {amount reference : String} {destination memo key used : Option String} {payment : Payment}
    (hcall : t.call = .createPayment service amount reference destination memo key)
    (hrequest : act.request = .createWithIdempotencyKey payment used) :
    used = key ∧ NewPayment service amount reference destination memo payment := by
  obtain ⟨other, hother, -, hsent, -⟩ :=
    hreach.acts_make Call.CreatesSent (fun call _ => body_creates_sent call) act hact
  cases hthread.symm.trans hother
  rw [hcall, hrequest] at hsent
  exact hsent

section Trace

variable {σ ε : Type} [PaymentRepository σ] [WebhookEventRepository ε]

/-- No lookup of a key in this history has found a payment. -/
def FindsNothing (history : List (Event (machine σ ε))) : Prop :=
  ∀ act name found, .act act ∈ history → ¬ act.Got (.findByIdempotencyKey name) (.ok (some found))

/-- How `create_payment` returns, read off the thread's own history. -/
inductive CreateTrace (service : PaymentService) (amount reference : String)
    (destination memo key : Option String) (history : List (Event (machine σ ε))) :
    Except PaymentError Payment → Prop where
  /-- The amount is refused. -/
  | invalid (error : PaymentError) (hinvalid : validateAmount amount = .error error) :
      CreateTrace service amount reference destination memo key history (.error error)
  /-- The lookup of the key fails. -/
  | unread (act : Act (machine σ ε)) (name : String) (error : RepositoryError)
      (hact : .act act ∈ history) (hkey : key = some name)
      (hgot : act.Got (.findByIdempotencyKey name) (.error error)) :
      CreateTrace service amount reference destination memo key history (.error (.repository error))
  /-- The lookup of the key finds the payment of an earlier call. -/
  | existing (act : Act (machine σ ε)) (name : String) (payment : Payment)
      (hact : .act act ∈ history) (hkey : key = some name)
      (hgot : act.Got (.findByIdempotencyKey name) (.ok (some payment))) :
      CreateTrace service amount reference destination memo key history (.ok payment)
  /-- The lookup finds nothing, if there is one, and the new payment is sent to the repository. -/
  | answered (act : Act (machine σ ε)) (payment : Payment) (reply : Except RepositoryError Payment)
      (hact : .act act ∈ history)
      (hnew : NewPayment service amount reference destination memo payment)
      (hfree : FindsNothing history)
      (hgot : act.Got (.createWithIdempotencyKey payment key) reply) :
      CreateTrace service amount reference destination memo key history
        (createOutcome payment.reference reply)

variable {rules : Rules (machine σ ε)} {thread : Nat} {history : List (Event (machine σ ε))}
  {service : PaymentService} {amount reference : String} {destination memo key : Option String}

/-- One more request that is not a lookup that finds something. -/
theorem FindsNothing.snoc {act : Act (machine σ ε)} (hfree : FindsNothing history)
    (hact : ∀ name found, ¬ act.Got (.findByIdempotencyKey name) (.ok (some found))) :
    FindsNothing (history ++ [.act act]) := by
  intro lookup name found hlookup
  rcases List.mem_append.mp hlookup with hlookup | hlookup
  · exact hfree lookup name found hlookup
  · cases List.mem_singleton.mp hlookup
    exact hact name found

/-- What `create_with_idempotency` does with a new payment. -/
theorem create_with_idempotency_trace {payment : Payment}
    (hnew : NewPayment service amount reference destination memo payment)
    (hfree : FindsNothing history) :
    Local rules (fun _ => True) thread none (createWithIdempotency payment key)
      (fun result history =>
        CreateTrace service amount reference destination memo key history result) history := by
  have hcreate : ∀ history : List (Event (machine σ ε)),
      FindsNothing history →
      Local rules (fun _ => True) thread none
        (ask (.createWithIdempotencyKey payment key) >>= fun result =>
          pure (createOutcome payment.reference result))
        (fun result history =>
          CreateTrace service amount reference destination memo key history result) history := by
    intro history hfree
    refine local_request_bind fun env world _ => ⟨trivial, local_pure ?_⟩
    refine .answered _ payment _ (List.mem_append_right _ (List.mem_singleton.mpr rfl)) hnew
      (hfree.snoc fun name found hgot => by cases hgot.1) ⟨rfl, rfl⟩
  unfold createWithIdempotency
  cases key with
  | none => exact hcreate history hfree
  | some name =>
      refine local_request_bind fun env world _ => ⟨trivial, ?_⟩
      have hmem : ∀ act : Act (machine σ ε), Event.act act ∈ history ++ [Event.act act] :=
        fun act => List.mem_append_right _ (List.mem_singleton.mpr rfl)
      cases hreply : (answer env (.findByIdempotencyKey name) world).1 with
      | error error => exact local_pure (.unread _ name error (hmem _) rfl ⟨rfl, hreply⟩)
      | ok found =>
          cases found with
          | some existing => exact local_pure (.existing _ name existing (hmem _) rfl ⟨rfl, hreply⟩)
          | none =>
              refine hcreate _ (hfree.snoc fun other found hgot => ?_)
              obtain ⟨hrequest, hfound⟩ := hgot
              cases hrequest
              cases hreply.symm.trans hfound

/-- What `create_payment` does. -/
theorem create_payment_trace
    (hfree : FindsNothing history) :
    Local rules (fun _ => True) thread none
      (service.createPayment amount reference destination memo key)
      (fun result history =>
        CreateTrace service amount reference destination memo key history result) history := by
  unfold PaymentService.createPayment
  split
  · rename_i error hinvalid
    exact local_pure (.invalid error hinvalid)
  · rename_i decimal hvalid
    have hquiet : ∀ (act : Act (machine σ ε)) name found,
        act.request = .utcNow ∨ act.request = .newV4 →
        ¬ act.Got (.findByIdempotencyKey name) (.ok (some found)) := by
      rintro act name found (hrequest | hrequest) hgot
      · cases hrequest.symm.trans hgot.1
      · cases hrequest.symm.trans hgot.1
    have hmake : ∀ (history : List (Event (machine σ ε))) (text : String),
        (memo = some text ∨ memo = none ∧ ∃ id, text = memoOfId id) →
        FindsNothing history →
        Local rules (fun _ => True) thread none
          (Payment.new amount reference (destination.getD service.defaultDestination)
            (some text) >>= fun payment => createWithIdempotency payment key)
          (fun result history =>
            CreateTrace service amount reference destination memo key history result) history := by
      intro history text hmemo hfree
      refine local_request_bind fun clock world _ => ⟨trivial, ?_⟩
      refine local_request_bind fun source world _ => ⟨trivial, ?_⟩
      refine create_with_idempotency_trace ?_ ((hfree.snoc ?_).snoc ?_)
      · exact ⟨⟨decimal, hvalid⟩, rfl, rfl, rfl, ⟨text, rfl, hmemo⟩, rfl⟩
      · exact fun name found => hquiet _ name found (.inl rfl)
      · exact fun name found => hquiet _ name found (.inr rfl)
    cases memo with
    | some text => exact hmake history text (.inl rfl) hfree
    | none =>
        refine local_request_bind fun source world _ => ⟨trivial, ?_⟩
        refine hmake _ (memoOfId source.uuid) (.inr ⟨rfl, source.uuid, rfl⟩) (hfree.snoc ?_)
        exact fun name found => hquiet _ name found (.inr rfl)

/-- What a finished call has done. -/
def CreateDone : (call : Call) → call.Result → List (Event (machine σ ε)) → Prop
  | .createPayment service amount reference destination memo key, result, history =>
      CreateTrace service amount reference destination memo key history result
  | _, _, _ => True

/-- Every call of `create_payment` that has returned has done so in one of the ways of
`CreateTrace`. -/
theorem create_returned {world : World σ ε} {state : State (machine σ ε)}
    (hreach : Reachable rules world state) {result : Except PaymentError Payment}
    (hthread : state.threads[thread]? =
      some ⟨.createPayment service amount reference destination memo key, .done result⟩) :
    CreateTrace service amount reference destination memo key (state.config.own thread) result := by
  have hcalls : ∀ call thread before, rules.admits call → True ∧
      Local rules (fun _ => True) thread none call.body (CreateDone call)
        [.start thread call before] := by
    intro call thread before _
    refine ⟨trivial, ?_⟩
    cases call with
    | createPayment => exact create_payment_trace (by simp [FindsNothing])
    | _ => exact (local_any fun _ => trivial).mono fun _ _ _ => trivial
  have hholds := @Reachable.own_holds (machine σ ε) rules (fun _ => True) CreateDone trivial hcalls
    world state hreach
  exact hholds.2 thread (.createPayment service amount reference destination memo key) result
    hthread

end Trace

end Requests

end StellarPay
