import StellarPay.Core.Payment

/-!
# The Horizon client

`crates/stellar`. What Horizon answers is a record of functions, `Horizon`; the client is what
it makes of these answers. `search` is the loop of `find_payment` over one page: it passes over
some records, stops at the first payment that is too old, and returns the first payment to the
destination whose transaction carries the memo. The amount and the asset are not looked at.
-/

namespace StellarPay

/-- `StellarError`. -/
inductive StellarError where
  | request (message : String)
  | notFound
  | decode (message : String)
  deriving DecidableEq

/-- `StellarPayment`. -/
structure StellarPayment where
  transactionHash : String
  sender : String
  recipient : String
  amount : String
  asset : String
  memo : Option String
  createdAt : DateTime
  deriving DecidableEq

/-- `StellarTransaction`. -/
structure StellarTransaction where
  hash : String
  successful : Bool
  ledger : Nat
  createdAt : DateTime
  deriving DecidableEq

/-- `HorizonPaymentRecord`. The fields `from` and `to` are `sender` and `recipient`. -/
structure HorizonPaymentRecord where
  paymentType : String
  recipient : Option String
  sender : Option String
  amount : Option String
  assetType : Option String
  transactionHash : String
  createdAt : DateTime
  deriving DecidableEq

/-- What Horizon answers: the latest payments of an account, newest first, the memo of a
transaction, and a transaction. -/
structure Horizon where
  payments : String → Except StellarError (List HorizonPaymentRecord)
  memo : String → Except StellarError (Option String)
  transaction : String → Except StellarError StellarTransaction

namespace HorizonClient

/-- `HorizonClient::get_transaction`. -/
def getTransaction (horizon : Horizon) (hash : String) : Except StellarError StellarTransaction :=
  horizon.transaction hash

/-- `HorizonClient::get_transaction_memo`. -/
def getTransactionMemo (horizon : Horizon) (hash : String) :
    Except StellarError (Option String) :=
  horizon.memo hash

/-- The payment `find_payment` reports for a record. -/
def toStellarPayment (record : HorizonPaymentRecord) (memo : Option String) : StellarPayment where
  transactionHash := record.transactionHash
  sender := record.sender.getD ""
  recipient := record.recipient.getD ""
  amount := record.amount.getD ""
  asset := record.assetType.getD ""
  memo := memo
  createdAt := record.createdAt

/-- The loop of `HorizonClient::find_payment` over the records of a page. -/
def search (horizon : Horizon) (destination memo : String) (since : DateTime) :
    List HorizonPaymentRecord → Except StellarError (Option StellarPayment)
  | [] => .ok none
  | record :: rest =>
      if record.paymentType ≠ "payment" then search horizon destination memo since rest
      -- The page is in descending order, so the loop breaks here.
      else if record.createdAt < since then .ok none
      else if record.recipient ≠ some destination then search horizon destination memo since rest
      else
        match getTransactionMemo horizon record.transactionHash with
        | .error error => .error error
        | .ok txMemo =>
            if txMemo ≠ some memo then search horizon destination memo since rest
            else .ok (some (toStellarPayment record txMemo))

/-- `HorizonClient::find_payment`. -/
def findPayment (horizon : Horizon) (destination memo : String) (since : DateTime) :
    Except StellarError (Option StellarPayment) :=
  match horizon.payments destination with
  | .error error => .error error
  | .ok records => search horizon destination memo since records

end HorizonClient

/-- A payment to `destination`, not older than `since`, whose transaction carries `memo`. -/
structure Horizon.Candidate (horizon : Horizon) (destination memo : String) (since : DateTime)
    (record : HorizonPaymentRecord) : Prop where
  payment : record.paymentType = "payment"
  recent : since ≤ record.createdAt
  recipient : record.recipient = some destination
  memo : horizon.memo record.transactionHash = .ok (some memo)

/-- The loop goes on to the next record: this is no payment, or a recent one that is sent
elsewhere or whose transaction is known to carry another memo. -/
def Horizon.Skipped (horizon : Horizon) (destination memo : String) (since : DateTime)
    (record : HorizonPaymentRecord) : Prop :=
  record.paymentType ≠ "payment" ∨
    since ≤ record.createdAt ∧ (record.recipient ≠ some destination ∨
      ∃ other, horizon.memo record.transactionHash = .ok other ∧ other ≠ some memo)

/-- `record` is the one the search stops at: a candidate, with everything before it skipped. -/
def Horizon.FirstHit (horizon : Horizon) (destination memo : String) (since : DateTime)
    (records : List HorizonPaymentRecord) (record : HorizonPaymentRecord) : Prop :=
  ∃ before after, records = before ++ record :: after ∧
    (∀ earlier ∈ before, horizon.Skipped destination memo since earlier) ∧
    horizon.Candidate destination memo since record

/-- The record that the search stops at is on the page. -/
theorem Horizon.FirstHit.mem {horizon : Horizon} {destination memo : String} {since : DateTime}
    {records : List HorizonPaymentRecord} {record : HorizonPaymentRecord}
    (h : horizon.FirstHit destination memo since records record) : record ∈ records := by
  obtain ⟨before, after, rfl, -⟩ := h
  simp

namespace HorizonClient

variable {horizon : Horizon} {destination memo : String} {since : DateTime}

/-- A record that is skipped does not change the outcome. -/
theorem search_skipped {record : HorizonPaymentRecord} {rest : List HorizonPaymentRecord}
    (h : horizon.Skipped destination memo since record) :
    search horizon destination memo since (record :: rest) =
      search horizon destination memo since rest := by
  rcases h with hkind | ⟨hrecent, hother⟩
  · rw [search, if_pos hkind]
  · by_cases hkind : record.paymentType = "payment"
    · rcases hother with hrecipient | ⟨other, hmemo, hne⟩
      · simp [search, hkind, not_lt.mpr hrecent, hrecipient]
      · by_cases hrecipient : record.recipient = some destination
        · simp [search, hkind, not_lt.mpr hrecent, hrecipient, getTransactionMemo, hmemo, hne]
        · simp [search, hkind, not_lt.mpr hrecent, hrecipient]
    · rw [search, if_pos hkind]

/-- A candidate ends the search. -/
theorem search_candidate {record : HorizonPaymentRecord} {rest : List HorizonPaymentRecord}
    (h : horizon.Candidate destination memo since record) :
    search horizon destination memo since (record :: rest) =
      .ok (some (toStellarPayment record (some memo))) := by
  simp [search, h.payment, not_lt.mpr h.recent, h.recipient, getTransactionMemo, h.memo]

/-- Whether a record ends the search, with a candidate or without, or lets it go on. -/
theorem skipped_or_candidate (horizon : Horizon) (destination memo : String) (since : DateTime)
    (record : HorizonPaymentRecord) :
    horizon.Skipped destination memo since record ∨
      horizon.Candidate destination memo since record ∨
      ∀ rest found, search horizon destination memo since (record :: rest) ≠ .ok (some found) := by
  by_cases hkind : record.paymentType = "payment"
  · by_cases hrecent : since ≤ record.createdAt
    · by_cases hrecipient : record.recipient = some destination
      · cases hmemo : horizon.memo record.transactionHash with
        | error error =>
            refine .inr (.inr fun rest found => ?_)
            simp [search, hkind, not_lt.mpr hrecent, hrecipient, getTransactionMemo, hmemo]
        | ok other =>
            by_cases heq : other = some memo
            · exact .inr (.inl ⟨hkind, hrecent, hrecipient, heq ▸ hmemo⟩)
            · exact .inl (.inr ⟨hrecent, .inr ⟨other, hmemo, heq⟩⟩)
      · exact .inl (.inr ⟨hrecent, .inl hrecipient⟩)
    · refine .inr (.inr fun rest found => ?_)
      simp [search, hkind, not_le.mp hrecent]
  · exact .inl (.inl hkind)

/-- The search reports exactly the first hit. -/
theorem search_eq_some_iff {records : List HorizonPaymentRecord} {found : StellarPayment} :
    search horizon destination memo since records = .ok (some found) ↔
      ∃ record, horizon.FirstHit destination memo since records record ∧
        found = toStellarPayment record (some memo) := by
  induction records with
  | nil => simp [search, Horizon.FirstHit]
  | cons head rest ih =>
      constructor
      · intro h
        rcases skipped_or_candidate horizon destination memo since head with
          hskipped | hcandidate | hstop
        · rw [search_skipped hskipped] at h
          obtain ⟨record, ⟨before, after, rfl, hbefore, hhit⟩, rfl⟩ := ih.mp h
          exact ⟨record, ⟨head :: before, after, rfl, by simpa using ⟨hskipped, hbefore⟩, hhit⟩,
            rfl⟩
        · rw [search_candidate hcandidate] at h
          cases h
          exact ⟨head, ⟨[], rest, rfl, by simp, hcandidate⟩, rfl⟩
        · exact absurd h (hstop rest found)
      · intro hfirst
        obtain ⟨record, ⟨before, after, hrecords, hbefore, hhit⟩, rfl⟩ := hfirst
        -- The head of the page is the hit, or one of the records skipped before it.
        cases before with
        | nil =>
            cases hrecords
            exact search_candidate hhit
        | cons first before =>
            cases hrecords
            rw [search_skipped (hbefore _ List.mem_cons_self)]
            exact ih.mpr ⟨record, ⟨before, after, rfl, fun earlier hmem =>
              hbefore earlier (List.mem_cons_of_mem _ hmem), hhit⟩, rfl⟩

end HorizonClient

/-- `MockStellarClient`, the double of the tests. -/
structure MockStellarClient where
  transactions : HashMap String StellarTransaction
  payments : List StellarPayment

namespace MockStellarClient

/-- `MockStellarClient::new`. -/
def new : MockStellarClient :=
  ⟨∅, []⟩

/-- `MockStellarClient::with_transaction`. -/
def withTransaction (mock : MockStellarClient) (transaction : StellarTransaction) :
    MockStellarClient :=
  { mock with transactions := mock.transactions.insert transaction.hash transaction }

/-- `MockStellarClient::with_payment`. -/
def withPayment (mock : MockStellarClient) (payment : StellarPayment) : MockStellarClient :=
  { mock with payments := mock.payments ++ [payment] }

/-- `MockStellarClient::get_transaction`. -/
def getTransaction (mock : MockStellarClient) (hash : String) :
    Except StellarError StellarTransaction :=
  match mock.transactions.lookup hash with
  | some transaction => .ok transaction
  | none => .error .notFound

/-- `MockStellarClient::find_payment`. -/
def findPayment (mock : MockStellarClient) (destination memo : String) (since : DateTime) :
    Except StellarError (Option StellarPayment) :=
  .ok (mock.payments.find? fun payment =>
    payment.recipient == destination && payment.memo == some memo && since ≤ payment.createdAt)

end MockStellarClient

end StellarPay
