import StellarPay.Runs.Provenance

/-!
# Which transfers are credited

`process_pending` credits the first record of the page that the search of `find_payment` stops at.
The search looks at neither the asset nor the amount: a transfer of an issued asset is credited like
one of the native asset, and a record with another amount hides the correct ones behind it.
-/

namespace StellarPay

open Interleaving

section Steps

variable {σ ε : Type} [Platform] [PaymentRepository σ] [WebhookEventRepository ε]

/-- Processing the payment moves it from `Pending` to `Detected`, with this hash. -/
def Detects (worker : ReconciliationWorker) (env : Env) (payment : Payment) (world : World σ ε)
    (hash : String) : Prop :=
  (stored world.payments payment.id).map Payment.status = some .pending ∧
    ∃ updated, stored ((worker.processPending payment).run answer (fun _ => env) world).2.payments
      payment.id = some updated ∧ updated.status = .detected ∧ updated.stellarTxHash = some hash

variable [RepositoryLaws σ] {worker : ReconciliationWorker} {env : Env} {payment : Payment}
  {world : World σ ε} {hash : String}

/-- A pending payment is detected exactly when it is young, its search stops at a record with its
amount, and the store takes the hash of that record. -/
theorem detects_iff (hpending : payment.status = .pending) :
    Detects worker env payment world hash ↔
      (stored world.payments payment.id).map Payment.status = some .pending ∧
      env.paymentsFault = none ∧
      RepositoryLaws.accepts world.payments payment.id (some hash) ∧
      env.now - payment.createdAt < worker.expiry ∧
      ∃ record, Matched env payment record ∧ record.transactionHash = hash := by
  refine and_congr_right fun hstored => ?_
  obtain ⟨current, hcurrent, hstatus⟩ := Option.map_eq_some_iff.mp hstored
  have hplan : (env.now - payment.createdAt < worker.expiry ∧
      ∃ record, Matched env payment record ∧ record.transactionHash = hash) ↔
        worker.plan env payment = .ok (some (.detected, some hash)) := by
    rw [plan_detected_iff]
    simp [hpending]
  rw [hplan]
  rcases run_process_pending worker env hpending hcurrent hstatus with
    ⟨next, text, time, hwant, hworks, haccepts, hafter⟩ | ⟨hafter, hrefused⟩
  · -- The write went through, so the payment is detected exactly if that was the plan.
    rw [hafter, hwant]
    rcases plan_pending_cases hpending hwant with ⟨_, rfl, rfl⟩ | ⟨found, rfl, rfl⟩
    · simp [Payment.moved]
    · simp only [Payment.moved, Option.some.injEq, exists_eq_left', true_and, Option.some_or,
        Except.ok.injEq, Prod.mk.injEq]
      refine ⟨?_, fun h => h.2.2⟩
      rintro rfl
      exact ⟨hworks, haccepts, rfl⟩
  · -- Nothing was written: the payment is pending still, and a detection would have succeeded.
    rw [hafter]
    constructor
    · rintro ⟨updated, ⟨⟩, hdetected, _⟩
      cases hstatus.symm.trans hdetected
    · intro hgoes
      obtain ⟨hworks, haccepts, hwant⟩ := hgoes
      exact absurd ⟨hworks, haccepts⟩ (hrefused _ _ hwant)

/-- The page shows a native transfer with this hash. -/
def ShowsNative (records : List HorizonPaymentRecord) (hash : String) : Prop :=
  ∃ record ∈ records, record.transactionHash = hash ∧ record.assetType = some "native"

/-- Whatever hash the payment is detected with, the page shows a native transfer with it. -/
def CreditsNative (worker : ReconciliationWorker) (env : Env) (payment : Payment)
    (world : World σ ε) : Prop :=
  ∀ hash, Detects worker env payment world hash →
    ∃ records, env.horizon.payments payment.destination = .ok records ∧ ShowsNative records hash

/-- The store holds the payment as pending and works, the payment is young, and the search stops at
a record with its amount and with a hash that the store takes but no native transfer of the page
has. -/
structure ForeignMatch (worker : ReconciliationWorker) (env : Env) (payment : Payment)
    (world : World σ ε) (records : List HorizonPaymentRecord) (record : HorizonPaymentRecord) :
    Prop where
  pending : (stored world.payments payment.id).map Payment.status = some .pending
  working : env.paymentsFault = none
  young : env.now - payment.createdAt < worker.expiry
  page : env.horizon.payments payment.destination = .ok records
  matched : Matched env payment record
  accepted : RepositoryLaws.accepts world.payments payment.id (some record.transactionHash)
  foreign : ¬ ShowsNative records record.transactionHash

/-- Only native transfers are credited exactly when there is no foreign match. -/
theorem credits_native_iff (hpending : payment.status = .pending) :
    CreditsNative worker env payment world ↔
      ¬ ∃ records record, ForeignMatch worker env payment world records record := by
  constructor
  · rintro h ⟨records, record, hforeign⟩
    obtain ⟨page, hpage, hnative⟩ := h record.transactionHash ((detects_iff hpending).mpr
      ⟨hforeign.pending, hforeign.working, hforeign.accepted, hforeign.young, record,
        hforeign.matched, rfl⟩)
    cases hpage.symm.trans hforeign.page
    exact hforeign.foreign hnative
  · intro h hash hdetects
    obtain ⟨hstored, hfault, haccepts, hage, record, hmatched, rfl⟩ :=
      (detects_iff hpending).mp hdetects
    obtain ⟨memo, records, amount, hmemo, hpage, hrest⟩ := hmatched
    refine ⟨records, hpage, ?_⟩
    by_contra hforeign
    exact h ⟨records, record, hstored, hfault, hage, hpage,
      ⟨memo, records, amount, hmemo, hpage, hrest⟩, haccepts, hforeign⟩

/-- The search made for a stored payment stops at a record with its amount that is not a transfer of
the native asset. -/
def SearchesIssued (act : Act (machine σ ε)) : Prop :=
  ∃ payment memo records record, stored act.before.payments payment.id = some payment ∧
    act.span = some payment.id ∧
    act.request = .findPayment payment.destination memo payment.createdAt ∧
    act.env.horizon.payments payment.destination = .ok records ∧
    Matched act.env payment record ∧ record.assetType ≠ some "native"

/-- In a run without such a search, the transfer that settles a payment is native. -/
theorem native_of_reachable {state : State (machine σ ε)}
    (hreach : Reachable (reconciliationRules σ ε) world state)
    (hempty : ∀ id, stored world.payments id = none)
    (hnative : ∀ act, .act act ∈ state.config.trace → ¬ SearchesIssued act) {id : Uuid}
    (hstored : stored state.config.world.payments id = some payment)
    (hsettled : payment.status.settled = true) :
    ∃ sighting : Sighting state.config payment,
      payment.stellarTxHash = some sighting.record.transactionHash ∧
      sighting.record.assetType = some "native" := by
  obtain ⟨sighting, hhash, -⟩ := accounted_of_reachable hreach hempty hstored hsettled
  refine ⟨sighting, hhash, ?_⟩
  obtain ⟨current, hcurrent, hterms⟩ := sighting.present
  have hfind : .act sighting.find ∈ state.config.trace :=
    (Config.mem_own.mp (sighting.steps.subset (by simp))).1
  have hid : current.id = payment.id := hterms.id.symm
  have hmatched : Matched sighting.find.env current sighting.record := by
    refine ⟨sighting.memo, sighting.records, sighting.amount, ?_, ?_, ?_, sighting.amount_eq, ?_⟩
    · rw [← hterms.memo]
      exact sighting.memo_eq
    · rw [← hterms.destination]
      exact sighting.page
    · rw [← hterms.destination, ← hterms.createdAt]
      exact sighting.hit
    · rw [← hterms.amount]
      exact sighting.equal
  by_contra hissued
  refine hnative _ hfind ⟨current, sighting.memo, sighting.records, sighting.record, ?_, ?_, ?_, ?_,
    hmatched, hissued⟩
  · exact hid ▸ hcurrent
  · exact hid ▸ sighting.span.2
  · rw [← hterms.destination, ← hterms.createdAt]
    exact sighting.request
  · rw [← hterms.destination]
    exact sighting.page

end Steps

section Native

variable [Platform]

/-- On either backend: processing a pending payment credits only native transfers exactly when there
is no foreign match; and in every run of creations and passes from empty stores in which no search
stops at a transfer of another asset, every detected or confirmed payment was paid by the native
transfer that was sighted for it. -/
theorem native_credited (backend : Backend) :
    (∀ worker env payment (world : World backend.Payments backend.Events),
      payment.status = .pending →
        (CreditsNative worker env payment world ↔
          ¬ ∃ records record, ForeignMatch worker env payment world records record)) ∧
    ∀ state : State backend.machine,
      Reachable (reconciliationRules backend.Payments backend.Events) backend.empty state →
      (∀ act, .act act ∈ state.config.trace → ¬ SearchesIssued act) →
      ∀ id payment, stored state.config.world.payments id = some payment →
        payment.status = .detected ∨ payment.status = .confirmed →
        ∃ sighting : Sighting state.config payment,
          payment.stellarTxHash = some sighting.record.transactionHash ∧
          sighting.record.assetType = some "native" := by
  refine ⟨fun _ _ _ _ hpending => credits_native_iff hpending, ?_⟩
  intro state hreach hnative id payment hstored hstatus
  refine native_of_reachable hreach backend.stored_empty hnative hstored ?_
  rcases hstatus with h | h <;> rw [h] <;> rfl

end Native

section NativeRun

attribute [local instance] Plain.platform

open Plain

/-- The event does not search, or finds a page without other assets than the native one. -/
def onlyNative : Event Backend.postgres.machine → Bool
  | .act act =>
      match act.request with
      | .findPayment destination _ _ =>
          match act.env.horizon.payments destination with
          | .ok records => records.all fun record => record.assetType == some "native"
          | .error _ => true
      | _ => true
  | .start _ _ _ => true

/-- The payment of `confirmationRun` was paid by a native transfer. -/
theorem native_credited_confirmation : ∃ (state : State Backend.postgres.machine)
    (payment : Payment), stored state.config.world.payments 7 = some payment ∧
      payment.status = .confirmed ∧ ∃ sighting : Sighting state.config payment,
        payment.stellarTxHash = some sighting.record.transactionHash ∧
        sighting.record.assetType = some "native" := by
  obtain ⟨state, hreach, htest⟩ := exists_reachable
    (reconciliationRules Backend.postgres.Payments Backend.postgres.Events) confirmationRun
    Backend.postgres.empty (fun state =>
      (stored state.config.world.payments 7).any (fun payment => payment.status == .confirmed) &&
        state.config.trace.all onlyNative) (by decide)
  obtain ⟨hconfirmed, hnative⟩ := Bool.and_eq_true _ _ |>.mp htest
  obtain ⟨payment, hstored, hstatus⟩ := Option.any_eq_true _ _ |>.mp hconfirmed
  have hstatus : payment.status = .confirmed := by simpa using hstatus
  refine ⟨state, payment, hstored, hstatus, (native_credited .postgres).2 state hreach ?_ 7 payment
    hstored (.inr hstatus)⟩
  rintro act hact ⟨seen, memo, records, record, -, -, hrequest, hpage,
    ⟨_, _, _, _, hrecords, hhit, _⟩, hissued⟩
  cases hpage.symm.trans hrecords
  have honly := List.all_eq_true.mp hnative _ hact
  simp only [onlyNative, hrequest, hrecords] at honly
  have hasset := List.all_eq_true.mp honly record hhit.mem
  exact hissued (by simpa using hasset)

/-- A pending payment of ten units, and a page with one transfer of ten units of an issued asset to
its destination and with its memo: the payment is detected with that transfer. -/
theorem issued_asset_credited :
    ¬ CreditsNative worker (envWith 6000 8 [issued "tx" "GDEST" "10" 5500] "m")
      (pending 7 "10" "order-1" 5000) (holding [pending 7 "10" "order-1" 5000]) := by
  intro h
  obtain ⟨records, hrecords, record, hrecord, -, hnative⟩ := h "tx" (by
    refine ⟨by decide, _, rfl, by decide, by decide⟩)
  cases hrecords
  rw [List.mem_singleton.mp hrecord] at hnative
  exact absurd hnative (by decide)

end NativeRun

section Pages

/-- `record` is the first candidate of the page. -/
def Horizon.FirstCandidate (horizon : Horizon) (destination memo : String) (since : DateTime)
    (records : List HorizonPaymentRecord) (record : HorizonPaymentRecord) : Prop :=
  ∃ before after, records = before ++ record :: after ∧
    (∀ earlier ∈ before, ¬ horizon.Candidate destination memo since earlier) ∧
    horizon.Candidate destination memo since record

/-- On a page with the newest records first, whose memos can all be looked up, the search stops at
the first candidate. -/
theorem first_hit_iff_first_candidate {horizon : Horizon} {destination memo : String}
    {since : DateTime} {records : List HorizonPaymentRecord} {record : HorizonPaymentRecord}
    (hsorted : records.Pairwise fun newer older => older.createdAt ≤ newer.createdAt)
    (hlookups : ∀ record ∈ records, ∃ text, horizon.memo record.transactionHash = .ok text) :
    horizon.FirstHit destination memo since records record ↔
      horizon.FirstCandidate destination memo since records record := by
  constructor
  · intro hcut
    obtain ⟨before, after, hrecords, hskipped, hcandidate⟩ := hcut
    refine ⟨before, after, hrecords, fun earlier hearlier hother => ?_, hcandidate⟩
    rcases hskipped earlier hearlier with hkind | ⟨_, hrecipient | ⟨text, htext, hne⟩⟩
    · exact hkind hother.payment
    · exact hrecipient hother.recipient
    · rw [hother.memo] at htext
      exact hne (Except.ok.inj htext).symm
  · intro hcut
    obtain ⟨before, after, rfl, hnone, hcandidate⟩ := hcut
    refine ⟨before, after, rfl, fun earlier hearlier => ?_, hcandidate⟩
    -- Whatever comes before a candidate is no older, so it cannot end the search.
    have hrecent : since ≤ earlier.createdAt := hcandidate.recent.trans
      ((List.pairwise_append.mp hsorted).2.2 earlier hearlier record List.mem_cons_self)
    obtain ⟨text, htext⟩ := hlookups earlier (List.mem_append_left _ hearlier)
    by_cases hkind : earlier.paymentType = "payment"
    · by_cases hrecipient : earlier.recipient = some destination
      · refine .inr ⟨hrecent, .inr ⟨text, htext, ?_⟩⟩
        rintro rfl
        exact hnone earlier hearlier ⟨hkind, hrecent, hrecipient, htext⟩
      · exact .inr ⟨hrecent, .inl hrecipient⟩
    · exact .inl hkind

variable {σ ε : Type} [Platform] [PaymentRepository σ] [WebhookEventRepository ε]

/-- A transfer that pays for the payment as it should: native, to its destination, recent, with its
memo and its amount, and with a hash that no payment holds. -/
structure Qualifying (env : Env) (payment : Payment) (world : World σ ε) (memo : String)
    (record : HorizonPaymentRecord) : Prop where
  candidate : env.horizon.Candidate payment.destination memo payment.createdAt record
  native : record.assetType = some "native"
  amount : ∃ amount, record.amount = some amount ∧ NumericallyEqual payment.amount amount
  unused : ∀ id other, stored world.payments id = some other →
    other.stellarTxHash ≠ some record.transactionHash

/-- A young pending payment with a memo, and a page with the newest records first, whose memos can
all be looked up, with a qualifying transfer among them. -/
structure Payable (worker : ReconciliationWorker) (env : Env) (payment : Payment)
    (world : World σ ε) (memo : String) (records : List HorizonPaymentRecord) : Prop where
  present : stored world.payments payment.id = some payment
  pending : payment.status = .pending
  working : env.paymentsFault = none
  young : env.now - payment.createdAt < worker.expiry
  memo_eq : payment.memo = some memo
  page : env.horizon.payments payment.destination = .ok records
  sorted : records.Pairwise fun newer older => older.createdAt ≤ newer.createdAt
  lookups : ∀ record ∈ records, ∃ text, env.horizon.memo record.transactionHash = .ok text
  offered : ∃ record ∈ records, Qualifying env payment world memo record

end Pages

section PageBackends

variable [Platform]

/-- On either backend, a payable payment is detected by a qualifying transfer exactly when the first
candidate of the page has its amount, shares its hash with a qualifying transfer, and the store
takes that hash. -/
theorem correct_payment_found (backend : Backend) {worker : ReconciliationWorker} {env : Env}
    {payment : Payment} {world : World backend.Payments backend.Events} {memo : String}
    {records : List HorizonPaymentRecord} (h : Payable worker env payment world memo records) :
    (∃ record ∈ records, Qualifying env payment world memo record ∧
      Detects worker env payment world record.transactionHash) ↔
    ∃ first amount,
      env.horizon.FirstCandidate payment.destination memo payment.createdAt records first ∧
      first.amount = some amount ∧ NumericallyEqual payment.amount amount ∧
      (∃ record ∈ records, Qualifying env payment world memo record ∧
        record.transactionHash = first.transactionHash) ∧
      RepositoryLaws.accepts world.payments payment.id (some first.transactionHash) := by
  have hstored : (stored world.payments payment.id).map Payment.status = some .pending := by
    rw [h.present, Option.map_some, h.pending]
  constructor
  · intro hpaid
    obtain ⟨record, hrecord, hqualifying, hdetects⟩ := hpaid
    obtain ⟨-, -, haccepts, -, first, ⟨text, page, amount, htext, hpage, hhit, hamount, hequal⟩,
      hhash⟩ := (detects_iff h.pending).mp hdetects
    cases htext.symm.trans h.memo_eq
    cases hpage.symm.trans h.page
    exact ⟨first, amount, (first_hit_iff_first_candidate h.sorted h.lookups).mp hhit, hamount,
      hequal, ⟨record, hrecord, hqualifying, hhash.symm⟩, hhash ▸ haccepts⟩
  · intro hpaid
    obtain ⟨first, amount, hfirst, hamount, hequal, ⟨record, hrecord, hqualifying, hhash⟩,
      haccepts⟩ := hpaid
    refine ⟨record, hrecord, hqualifying, (detects_iff h.pending).mpr ⟨hstored, h.working,
      hhash ▸ haccepts, h.young, first, ?_, hhash.symm⟩⟩
    exact ⟨memo, records, amount, h.memo_eq, h.page,
      (first_hit_iff_first_candidate h.sorted h.lookups).mpr hfirst, hamount, hequal⟩

end PageBackends

section PageRun

attribute [local instance] Plain.platform

open Plain

/-- A pending payment of ten units. -/
def invoice : Payment :=
  pending 7 "10" "order-1" 5000

/-- A page with the transfer of ten units that pays for `invoice`, behind newer records and before
older ones. -/
def pageWith (newer older : List HorizonPaymentRecord) : List HorizonPaymentRecord :=
  newer ++ (native "tx" "GDEST" "10.0" 5500 :: older)

/-- A store with one payment holds no hash. -/
theorem holding_unused {id : Uuid} {other : Payment}
    (h : stored (holding [invoice]).payments id = some other) : other.stellarTxHash = none := by
  have hempty (id : Uuid) : @stored Database _ Backend.postgres.empty.payments id = none :=
    Backend.stored_empty .postgres id
  have hstep : PaymentStep (@stored Database _ Backend.postgres.empty.payments id)
      (stored (holding [invoice]).payments id) :=
    answer_step (show (Request.createWithIdempotencyKey invoice none).Disciplined from ⟨rfl, rfl⟩)
      (hempty invoice.id) id
  rw [hempty, h] at hstep
  cases hstep with
  | created _ _ hhash => exact hhash

/-- The invoice can be paid from its page, if the page is in order. -/
theorem invoice_payable (newer older : List HorizonPaymentRecord)
    (hsorted : (pageWith newer older).Pairwise fun newer older =>
      older.createdAt ≤ newer.createdAt) :
    Payable worker (envWith 6000 8 (pageWith newer older) "m") invoice (holding [invoice]) "m"
      (pageWith newer older) := by
  have hyoung : (6000 : DateTime) - 5000 < worker.expiry := by decide
  refine ⟨by decide, rfl, rfl, hyoung, rfl, rfl, hsorted, fun _ _ => ⟨_, rfl⟩, ?_⟩
  refine ⟨native "tx" "GDEST" "10.0" 5500, by simp [pageWith], ?_⟩
  refine ⟨⟨rfl, by decide, rfl, rfl⟩, rfl, ⟨"10.0", rfl, ?_⟩, fun id other h => ?_⟩
  · exact amounts_match_iff.mp (by decide)
  · simp [holding_unused h]

/-- A record with the memo of the invoice and another amount. -/
def dust (createdAt : DateTime) : HorizonPaymentRecord :=
  native "dust" "GDEST" "0.1" createdAt

/-- An older record with the memo of the invoice and another amount does not hide the transfer that
pays for it. -/
theorem correct_payment_found_first :
    ∃ record ∈ pageWith [] [dust 5400],
      Qualifying (envWith 6000 8 (pageWith [] [dust 5400]) "m") invoice (holding [invoice]) "m"
        record ∧
      Detects worker (envWith 6000 8 (pageWith [] [dust 5400]) "m") invoice (holding [invoice])
        record.transactionHash := by
  have hpayable := invoice_payable [] [dust 5400] (by decide)
  have hcandidate : (envWith 6000 8 (pageWith [] [dust 5400]) "m").horizon.Candidate
      invoice.destination "m" invoice.createdAt (native "tx" "GDEST" "10.0" 5500) :=
    ⟨rfl, by decide, rfl, rfl⟩
  have hunused : ∀ id other, stored (holding [invoice]).payments id = some other →
      other.stellarTxHash ≠ some "tx" := fun id other h => by simp [holding_unused h]
  have hten := amounts_match_iff.mp (show amountsMatch invoice.amount "10.0" = true by decide)
  refine (correct_payment_found .postgres hpayable).mpr
    ⟨native "tx" "GDEST" "10.0" 5500, "10.0", ⟨[], [dust 5400], rfl, by simp, hcandidate⟩, rfl,
      hten, ⟨_, List.mem_cons_self, ⟨hcandidate, rfl, ⟨"10.0", rfl, hten⟩, hunused⟩, rfl⟩, ?_⟩
  rintro text ⟨⟩
  exact ⟨by decide, fun id other hother _ => hunused id other hother⟩

/-- A newer record with the memo of the invoice and another amount hides the transfer that pays for
it. -/
theorem smaller_amount_hides_payment :
    ∃ (newer : List HorizonPaymentRecord),
      Payable worker (envWith 6000 8 (pageWith newer []) "m") invoice (holding [invoice]) "m"
        (pageWith newer []) ∧
      ¬ ∃ record ∈ pageWith newer [],
        Qualifying (envWith 6000 8 (pageWith newer []) "m") invoice (holding [invoice]) "m"
          record ∧
        Detects worker (envWith 6000 8 (pageWith newer []) "m") invoice (holding [invoice])
          record.transactionHash := by
  refine ⟨[dust 5600], invoice_payable _ _ (by decide), ?_⟩
  intro hdetection
  obtain ⟨record, -, -, -, updated, hupdated, hdetected, -⟩ := hdetection
  have hpending : (stored ((worker.processPending invoice).run answer
      (fun _ => envWith 6000 8 (pageWith [dust 5600] []) "m")
      (holding [invoice])).2.payments invoice.id).map Payment.status = some .pending := by
    decide
  rw [hupdated, Option.map_some, hdetected] at hpending
  cases hpending

end PageRun

end StellarPay
