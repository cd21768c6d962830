import StellarPay.Stellar.Client

/-!
# The search, the full filter and the double

`HorizonClient::find_payment` stops at the first payment that is too old. On a page in descending
order nothing behind it is recent, so the search finds what a filter of the whole page finds, and
what the double of the tests finds when it is loaded with the page.
-/

namespace StellarPay

/-- What `find_payment` looks for: a payment to the destination, not older than `since`, whose
transaction carries the memo. -/
def HorizonPaymentRecord.wanted (memos : String → Option String) (destination memo : String)
    (since : DateTime) (record : HorizonPaymentRecord) : Bool :=
  record.paymentType = "payment" ∧ record.recipient = some destination ∧
    since ≤ record.createdAt ∧ memos record.transactionHash = some memo

/-- The payment a test would load for a record: of those of type `payment` that name a recipient,
with the memo of the transaction. -/
def HorizonPaymentRecord.loaded (memos : String → Option String) (record : HorizonPaymentRecord) :
    Option StellarPayment :=
  if record.paymentType = "payment" ∧ record.recipient.isSome then
    some (HorizonClient.toStellarPayment record (memos record.transactionHash))
  else none

/-- The double loaded with the payments of a page, in its order. -/
def MockStellarClient.loadedWith (memos : String → Option String)
    (records : List HorizonPaymentRecord) : MockStellarClient :=
  (records.filterMap (HorizonPaymentRecord.loaded memos)).foldl withPayment new

/-- Loading adds the payments at the end. -/
theorem MockStellarClient.loaded_payments (mock : MockStellarClient)
    (payments : List StellarPayment) :
    (payments.foldl withPayment mock).payments = mock.payments ++ payments := by
  induction payments generalizing mock with
  | nil => simp
  | cons payment rest ih => simp [ih, withPayment]

section Page

variable {horizon : Horizon} {memos : String → Option String} {destination memo : String}
  {since : DateTime}

open HorizonPaymentRecord

/-- On a page in descending order with known memos, the search finds the first wanted record. -/
theorem search_eq_find {records : List HorizonPaymentRecord}
    (hsorted : records.Pairwise fun newer older => older.createdAt ≤ newer.createdAt)
    (hmemos : ∀ record ∈ records,
      horizon.memo record.transactionHash = .ok (memos record.transactionHash)) :
    HorizonClient.search horizon destination memo since records =
      .ok ((records.find? (wanted memos destination memo since)).map
        fun record => HorizonClient.toStellarPayment record (some memo)) := by
  induction records with
  | nil => rfl
  | cons record rest ih =>
      obtain ⟨hnewest, hrest⟩ := List.pairwise_cons.mp hsorted
      have hknown := hmemos record List.mem_cons_self
      have hlater := ih hrest fun other hother => hmemos other (List.mem_cons_of_mem _ hother)
      rw [HorizonClient.search]
      by_cases hkind : record.paymentType = "payment"
      · by_cases hrecent : record.createdAt < since
        · -- The loop breaks, and nothing further down is recent either.
          have hnone : (record :: rest).find? (wanted memos destination memo since) = none := by
            rw [List.find?_eq_none]
            intro other hother hwanted
            have hsince : since ≤ other.createdAt := (of_decide_eq_true hwanted).2.2.1
            rcases List.mem_cons.mp hother with rfl | hbehind
            · exact absurd hrecent (not_lt.mpr hsince)
            · exact absurd hrecent (not_lt.mpr (hsince.trans (hnewest other hbehind)))
          rw [if_neg (not_not.mpr hkind), if_pos hrecent, hnone]
          rfl
        · by_cases hrecipient : record.recipient = some destination
          · by_cases hmemo : memos record.transactionHash = some memo
            · have hwanted : wanted memos destination memo since record = true :=
                decide_eq_true ⟨hkind, hrecipient, not_lt.mp hrecent, hmemo⟩
              rw [List.find?_cons_of_pos hwanted]
              simp [hkind, hrecent, hrecipient, HorizonClient.getTransactionMemo, hknown, hmemo]
            · rw [List.find?_cons_of_neg (by simp [wanted, hmemo]), ← hlater]
              simp [hkind, hrecent, hrecipient, HorizonClient.getTransactionMemo, hknown, hmemo]
          · rw [List.find?_cons_of_neg (by simp [wanted, hrecipient]), ← hlater]
            simp [hkind, hrecent, hrecipient]
      · rw [List.find?_cons_of_neg (by simp [wanted, hkind]), ← hlater, if_pos hkind]

/-- The double finds the first wanted record of the page it is loaded with. -/
theorem mock_eq_find (records : List HorizonPaymentRecord) :
    (MockStellarClient.loadedWith memos records).findPayment destination memo since =
      .ok ((records.find? (wanted memos destination memo since)).map
        fun record => HorizonClient.toStellarPayment record (some memo)) := by
  unfold MockStellarClient.findPayment MockStellarClient.loadedWith
  rw [MockStellarClient.loaded_payments]
  refine congrArg Except.ok ?_
  change (([] : List StellarPayment) ++ _).find? _ = _
  rw [List.nil_append]
  induction records with
  | nil => rfl
  | cons record rest ih =>
      by_cases hloaded : record.paymentType = "payment" ∧ record.recipient.isSome
      · obtain ⟨hkind, hnamed⟩ := hloaded
        obtain ⟨recipient, hrecipient⟩ := Option.isSome_iff_exists.mp hnamed
        have hpayment : record.loaded memos =
            some (HorizonClient.toStellarPayment record (memos record.transactionHash)) :=
          if_pos ⟨hkind, hnamed⟩
        rw [List.filterMap_cons_some hpayment]
        by_cases hwanted : wanted memos destination memo since record = true
        · obtain ⟨-, hto, hsince, hmemo⟩ := of_decide_eq_true hwanted
          rw [List.find?_cons_of_pos hwanted, List.find?_cons_of_pos]
          · simp [hmemo]
          · simp [HorizonClient.toStellarPayment, hto, hsince, hmemo]
        · rw [List.find?_cons_of_neg hwanted, List.find?_cons_of_neg, ih]
          intro hfound
          simp only [HorizonClient.toStellarPayment, hrecipient, Option.getD_some,
            Bool.and_eq_true, beq_iff_eq, decide_eq_true_eq] at hfound
          obtain ⟨⟨rfl, hmemo⟩, hsince⟩ := hfound
          exact hwanted (decide_eq_true ⟨hkind, hrecipient, hsince, hmemo⟩)
      · have hskipped : record.loaded memos = none := if_neg hloaded
        have hunwanted : ¬ wanted memos destination memo since record = true := by
          intro hwanted
          obtain ⟨hkind, hto, -⟩ := of_decide_eq_true hwanted
          exact hloaded ⟨hkind, by rw [hto]; rfl⟩
        rw [List.filterMap_cons_none hskipped, List.find?_cons_of_neg hunwanted, ih]

/-- On a page in descending order whose memo lookups succeed, `find_payment` returns the first
wanted record of the page, and so does the double that is loaded with the page. -/
theorem find_payment_first {records : List HorizonPaymentRecord}
    (hpage : horizon.payments destination = .ok records)
    (hsorted : records.Pairwise fun newer older => older.createdAt ≤ newer.createdAt)
    (hmemos : ∀ record ∈ records,
      horizon.memo record.transactionHash = .ok (memos record.transactionHash)) :
    HorizonClient.findPayment horizon destination memo since =
      .ok ((records.find? (wanted memos destination memo since)).map
        fun record => HorizonClient.toStellarPayment record (some memo)) ∧
    HorizonClient.findPayment horizon destination memo since =
      (MockStellarClient.loadedWith memos records).findPayment destination memo since := by
  have hfind : HorizonClient.findPayment horizon destination memo since =
      HorizonClient.search horizon destination memo since records := by
    simp only [HorizonClient.findPayment, hpage]
  have hsearch := @search_eq_find horizon memos destination memo since records hsorted hmemos
  exact ⟨hfind.trans hsearch, (hfind.trans hsearch).trans (mock_eq_find records).symm⟩

end Page

section Example

/-- A record of the page below. -/
def pageRecord (kind hash : String) (createdAt : DateTime) : HorizonPaymentRecord :=
  ⟨kind, some "GDEST", none, some "10.0000000", some "native", hash, createdAt⟩

/-- A page with a payment under another memo, an operation that is no payment, the payment that is
looked for, and one that is too old. -/
def mixedPage : List HorizonPaymentRecord :=
  [pageRecord "payment" "h1" 9, pageRecord "create_account" "h2" 8, pageRecord "payment" "h3" 7,
    pageRecord "payment" "h3" 2]

/-- The memos of the transactions on the page. -/
def mixedMemos (hash : String) : Option String :=
  if hash = "h3" then some "m" else none

/-- The search and the double find the payment on the mixed page. -/
theorem find_payment_first_mixed :
    HorizonClient.findPayment ⟨fun _ => .ok mixedPage, fun hash => .ok (mixedMemos hash),
        fun _ => .error .notFound⟩ "GDEST" "m" 5 =
      (MockStellarClient.loadedWith mixedMemos mixedPage).findPayment "GDEST" "m" 5 :=
  (find_payment_first rfl (by decide) fun _ _ => rfl).2

end Example

end StellarPay
