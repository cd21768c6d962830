import StellarPay.Core.Decoding
import StellarPay.Interleaving.Program
import StellarPay.Stellar.Client

/-!
# The Horizon client over HTTP

`crates/stellar/src/client.rs` down to its requests: `HorizonClient` as programs that make HTTP
requests and read the JSON of the answers. Against a network that answers by URL they compute what
the client computes from a `Horizon`, so everything that is said of the client in these terms holds
of its requests. A network that says more, under names the client does not read, is none the
different for it.
-/

namespace StellarPay.Http

open Interleaving

/-- An HTTP `GET` with its query. -/
structure HttpRequest where
  url : String
  query : List (String × String)

/-- A response: its status, the JSON of its body if it is JSON, and the text of the error there is
when the body cannot be read as what is expected. -/
structure HttpResponse where
  status : Nat
  body : Option Value
  decodeError : String

/-- What a request is answered with: a response, or the text of the error of sending it. -/
abbrev HttpAnswer (_ : HttpRequest) : Type :=
  Except String HttpResponse

/-- A program that makes HTTP requests. -/
abbrev HttpProg (α : Type) : Type :=
  Program Unit HttpAnswer α

/-- How the texts of instants are read (`DateTime::<Utc>::deserialize`). -/
class WireFormat where
  dateTimeFromJson : String → Option DateTime

section Records

variable [WireFormat]

/-- An instant. -/
def asDateTime (value : Value) : Option DateTime :=
  value.asString.bind WireFormat.dateTimeFromJson

/-- `HorizonTransaction`. -/
structure HorizonTransaction where
  hash : String
  successful : Bool
  ledger : Nat
  createdAt : DateTime

/-- `HorizonTransactionDetail`. -/
structure HorizonTransactionDetail where
  memo : Option String

/-- `HorizonBalance`. -/
structure HorizonBalance where
  balance : String
  assetType : String

/-- `HorizonAccount`. -/
structure HorizonAccount where
  accountId : String
  sequence : String
  balances : List HorizonBalance

/-- `HorizonEmbedded`. -/
structure HorizonEmbedded where
  records : List HorizonPaymentRecord

/-- `HorizonPaymentsPage`. -/
structure HorizonPaymentsPage where
  embedded : HorizonEmbedded

/-- The derived `Deserialize` of `HorizonTransaction`. -/
def HorizonTransaction.deserialize (value : Value) : Option HorizonTransaction := do
  let source ← value.source 4
  let hash ← source.required 0 "hash" Value.asString
  let successful ← source.required 1 "successful" Value.asBool
  let ledger ← source.required 2 "ledger" (Value.asBelow (2 ^ 32))
  let createdAt ← source.required 3 "created_at" asDateTime
  pure { hash, successful, ledger, createdAt }

/-- The derived `Deserialize` of `HorizonTransactionDetail`. -/
def HorizonTransactionDetail.deserialize (value : Value) : Option HorizonTransactionDetail := do
  let source ← value.source 1
  let memo ← source.optional 0 "memo" Value.asString
  pure { memo }

/-- The derived `Deserialize` of `HorizonBalance`. -/
def HorizonBalance.deserialize (value : Value) : Option HorizonBalance := do
  let source ← value.source 2
  let balance ← source.required 0 "balance" Value.asString
  let assetType ← source.required 1 "asset_type" Value.asString
  pure { balance, assetType }

/-- The derived `Deserialize` of `HorizonAccount`. -/
def HorizonAccount.deserialize (value : Value) : Option HorizonAccount := do
  let source ← value.source 3
  let accountId ← source.required 0 "account_id" Value.asString
  let sequence ← source.required 1 "sequence" Value.asString
  let balances ← source.required 2 "balances" (Value.asList HorizonBalance.deserialize)
  pure { accountId, sequence, balances }

/-- The derived `Deserialize` of `HorizonPaymentRecord`. -/
def deserializeRecord (value : Value) : Option HorizonPaymentRecord := do
  let source ← value.source 7
  let paymentType ← source.required 0 "type" Value.asString
  let recipient ← source.optional 1 "to" Value.asString
  let sender ← source.optional 2 "from" Value.asString
  let amount ← source.optional 3 "amount" Value.asString
  let assetType ← source.optional 4 "asset_type" Value.asString
  let transactionHash ← source.required 5 "transaction_hash" Value.asString
  let createdAt ← source.required 6 "created_at" asDateTime
  pure { paymentType, recipient, sender, amount, assetType, transactionHash, createdAt }

/-- The derived `Deserialize` of `HorizonEmbedded`. -/
def HorizonEmbedded.deserialize (value : Value) : Option HorizonEmbedded := do
  let source ← value.source 1
  let records ← source.required 0 "records" (Value.asList deserializeRecord)
  pure { records }

/-- The derived `Deserialize` of `HorizonPaymentsPage`. -/
def HorizonPaymentsPage.deserialize (value : Value) : Option HorizonPaymentsPage := do
  let source ← value.source 1
  let embedded ← source.required 0 "_embedded" HorizonEmbedded.deserialize
  pure { embedded }

end Records

/-- `StellarBalance`. -/
structure StellarBalance where
  asset : String
  balance : String

/-- `StellarAccount`. -/
structure StellarAccount where
  accountId : String
  sequence : String
  balances : List StellarBalance

/-- `StatusCode::NOT_FOUND`. -/
def notFound : Nat :=
  404

/-- Send a request (`send`, with its error as the client reports it). -/
def send (request : HttpRequest) : HttpProg (Except StellarError HttpResponse) := do
  match ← Program.request request with
  | .error message => pure (.error (.request message))
  | .ok response => pure (.ok response)

/-- The body, read with this `Deserialize` (`json`, with its error as the client reports it). -/
def HttpResponse.json {α : Type} (response : HttpResponse) (deserialize : Value → Option α) :
    Except StellarError α :=
  match response.body.bind deserialize with
  | some value => .ok value
  | none => .error (.decode response.decodeError)

/-- What three of the functions have in common: a resource that may not be there. -/
def getResource {α : Type} (url : String) (deserialize : Value → Option α) :
    HttpProg (Except StellarError α) := do
  match ← send ⟨url, []⟩ with
  | .error error => pure (.error error)
  | .ok response =>
      if response.status = notFound then pure (.error .notFound)
      else pure (response.json deserialize)

/-- `HorizonClient`. -/
structure HorizonClient where
  baseUrl : String

namespace HorizonClient

variable [WireFormat]

/-- `HorizonClient::get_transaction_memo`. -/
def getTransactionMemo (client : HorizonClient) (hash : String) :
    HttpProg (Except StellarError (Option String)) := do
  match ← getResource (client.baseUrl ++ "/transactions/" ++ hash)
      HorizonTransactionDetail.deserialize with
  | .error error => pure (.error error)
  | .ok body => pure (.ok body.memo)

/-- `HorizonClient::get_transaction`. -/
def getTransaction (client : HorizonClient) (hash : String) :
    HttpProg (Except StellarError StellarTransaction) := do
  match ← getResource (client.baseUrl ++ "/transactions/" ++ hash)
      HorizonTransaction.deserialize with
  | .error error => pure (.error error)
  | .ok body => pure (.ok ⟨body.hash, body.successful, body.ledger, body.createdAt⟩)

/-- `HorizonClient::get_account`. -/
def getAccount (client : HorizonClient) (accountId : String) :
    HttpProg (Except StellarError StellarAccount) := do
  match ← getResource (client.baseUrl ++ "/accounts/" ++ accountId)
      HorizonAccount.deserialize with
  | .error error => pure (.error error)
  | .ok body =>
      let balances := body.balances.map fun balance =>
        { asset := balance.assetType, balance := balance.balance : StellarBalance }
      pure (.ok ⟨body.accountId, body.sequence, balances⟩)

/-- The request of `find_payment` for the latest payments of an account. -/
def pageRequest (client : HorizonClient) (destination : String) : HttpRequest :=
  ⟨client.baseUrl ++ "/accounts/" ++ destination ++ "/payments",
    [("order", "desc"), ("limit", "50")]⟩

/-- The first request of `find_payment`. Its status is not looked at, not even for a 404. -/
def getPage (client : HorizonClient) (destination : String) :
    HttpProg (Except StellarError (List HorizonPaymentRecord)) := do
  match ← send (client.pageRequest destination) with
  | .error error => pure (.error error)
  | .ok response =>
      match response.json HorizonPaymentsPage.deserialize with
      | .error error => pure (.error error)
      | .ok body => pure (.ok body.embedded.records)

/-- The loop of `HorizonClient::find_payment`. -/
def search (client : HorizonClient) (destination memo : String) (since : DateTime) :
    List HorizonPaymentRecord → HttpProg (Except StellarError (Option StellarPayment))
  | [] => pure (.ok none)
  | record :: rest =>
      if record.paymentType ≠ "payment" then client.search destination memo since rest
      else if record.createdAt < since then pure (.ok none)
      else if record.recipient ≠ some destination then client.search destination memo since rest
      else do
        match ← client.getTransactionMemo record.transactionHash with
        | .error error => pure (.error error)
        | .ok txMemo =>
            if txMemo ≠ some memo then client.search destination memo since rest
            else pure (.ok (some (StellarPay.HorizonClient.toStellarPayment record txMemo)))

/-- `HorizonClient::find_payment`. -/
def findPayment (client : HorizonClient) (destination memo : String) (since : DateTime) :
    HttpProg (Except StellarError (Option StellarPayment)) := do
  match ← client.getPage destination with
  | .error error => pure (.error error)
  | .ok records => client.search destination memo since records

end HorizonClient

/-- A network that answers each request in its own way, whenever it is made. -/
abbrev Network : Type :=
  HttpRequest → Except String HttpResponse

/-- The result of a program against a network. -/
def Network.run {α : Type} (network : Network) (program : HttpProg α) : α :=
  (program.run (fun network request world => (network request, world)) (fun _ => network) ()).1

section Network

variable {α β : Type} {network : Network}

@[simp]
theorem Network.run_pure (result : α) : network.run (pure result) = result :=
  rfl

@[simp]
theorem Network.run_request (request : HttpRequest) :
    network.run (Program.request request) = network request :=
  rfl

@[simp]
theorem Network.run_bind (program : HttpProg α) (next : α → HttpProg β) :
    network.run (program >>= next) = network.run (next (network.run program)) := by
  simp only [Network.run, Program.run_bind]

/-- What a resource is read as, given the answer to its request: an answer 404 says that it is not
there, and every other status is ignored. -/
theorem get_resource_run (url : String) (deserialize : Value → Option α) :
    network.run (getResource url deserialize) =
      match network ⟨url, []⟩ with
      | .error message => .error (.request message)
      | .ok response =>
          if response.status = notFound then .error .notFound else response.json deserialize := by
  simp only [getResource, send, Network.run_bind, Network.run_request]
  cases network ⟨url, []⟩ with
  | error message => rfl
  | ok response =>
      simp only [Network.run_pure]
      split <;> rfl

variable [WireFormat] (client : HorizonClient)

/-- What a page is read as, given the answer to its request: the status is ignored. -/
theorem get_page_run (destination : String) :
    network.run (client.getPage destination) =
      match network (client.pageRequest destination) with
      | .error message => .error (.request message)
      | .ok response =>
          (response.json HorizonPaymentsPage.deserialize).map
            fun page => page.embedded.records := by
  simp only [HorizonClient.getPage, send, Network.run_bind, Network.run_request]
  cases network (client.pageRequest destination) with
  | error message => rfl
  | ok response =>
      simp only [Network.run_pure]
      cases response.json HorizonPaymentsPage.deserialize <;> rfl

/-- The Horizon that a client meets on a network. -/
def HorizonClient.horizon (network : Network) : Horizon where
  payments destination := network.run (client.getPage destination)
  memo hash := network.run (client.getTransactionMemo hash)
  transaction hash := network.run (client.getTransaction hash)

/-- The loop over HTTP is the search of that Horizon. -/
theorem search_run (destination memo : String) (since : DateTime)
    (records : List HorizonPaymentRecord) :
    network.run (client.search destination memo since records) =
      StellarPay.HorizonClient.search (client.horizon network) destination memo since records := by
  induction records with
  | nil => rfl
  | cons record rest ih =>
      rw [HorizonClient.search, StellarPay.HorizonClient.search]
      split
      · exact ih
      · split
        · rfl
        · split
          · exact ih
          · have hmemo : network.run (client.getTransactionMemo record.transactionHash) =
                StellarPay.HorizonClient.getTransactionMemo (client.horizon network)
                  record.transactionHash := rfl
            rw [Network.run_bind, hmemo]
            cases StellarPay.HorizonClient.getTransactionMemo (client.horizon network)
                record.transactionHash with
            | error error => rfl
            | ok txMemo =>
                dsimp only
                split
                · exact ih
                · rfl

/-- The client over HTTP does what the client of that Horizon does. -/
theorem find_payment_run (destination memo : String) (since : DateTime) :
    network.run (client.findPayment destination memo since) =
      StellarPay.HorizonClient.findPayment (client.horizon network) destination memo since := by
  have hpage : network.run (client.getPage destination) =
      (client.horizon network).payments destination := rfl
  rw [HorizonClient.findPayment, StellarPay.HorizonClient.findPayment, Network.run_bind, hpage]
  cases (client.horizon network).payments destination with
  | error error => rfl
  | ok records => exact search_run client destination memo since records

omit [WireFormat] in
/-- A field that is missing cannot be read. -/
theorem required_missing {fields : List (String × Value)} {name : String}
    (h : ∀ field ∈ fields, field.1 ≠ name) (position : Nat) (read : Value → Option α) :
    (Source.named fields).required position name read = none := by
  have hvalues : valuesOf name fields = [] :=
    List.filterMap_eq_nil_iff.mpr fun field hfield => if_neg (h field hfield)
  simp only [Source.required, Source.field, hvalues]

/-- The network knows no such account: it answers the request for the payments with 404, and with a
document that is no page. -/
structure Network.LacksAccount (network : Network) (client : HorizonClient)
    (destination message : String) (fields : List (String × Value)) : Prop where
  answers : network (client.pageRequest destination) =
    .ok ⟨notFound, some (.object fields), message⟩
  lacks : ∀ field ∈ fields, field.1 ≠ "_embedded"

/-- Of an account that is not there, a page is read that is none: where the other requests report
`NotFound`, this one reports `Decode`. -/
theorem Network.LacksAccount.page {destination message : String} {fields : List (String × Value)}
    (h : network.LacksAccount client destination message fields) :
    network.run (client.getPage destination) = .error (.decode message) := by
  rw [get_page_run, h.answers]
  simp only [HttpResponse.json, Option.bind_some, HorizonPaymentsPage.deserialize, Value.source,
    required_missing h.lacks, Option.bind_eq_bind, Option.bind_none, Except.map]

end Network

section Extensions

/-- The names of the fields that the client reads. -/
def horizonNames : List String :=
  ["hash", "successful", "ledger", "created_at", "memo", "account_id", "sequence", "balances",
    "balance", "asset_type", "_embedded", "records", "type", "to", "from", "amount",
    "transaction_hash"]

/-- The client reads fields of this name. -/
def Known (name : String) : Prop :=
  name ∈ horizonNames

instance (name : String) : Decidable (Known name) :=
  inferInstanceAs (Decidable (name ∈ horizonNames))

/-- Two answers to a request, of which the second may say more in its body. -/
inductive SaysMore : Except String HttpResponse → Except String HttpResponse → Prop where
  | error (message : String) : SaysMore (.error message) (.error message)
  | unread (status : Nat) (decodeError : String) :
      SaysMore (.ok ⟨status, none, decodeError⟩) (.ok ⟨status, none, decodeError⟩)
  | read (status : Nat) (decodeError : String) {body body' : Value}
      (h : body.Extended Known body') :
      SaysMore (.ok ⟨status, some body, decodeError⟩) (.ok ⟨status, some body', decodeError⟩)

/-- None of the structs of the client sees what is added. -/
theorem respects_detail : Respects Known HorizonTransactionDetail.deserialize :=
  Respects.of_source fun source source' h => by
    rw [h.optional (by decide) respects_as_string]

theorem respects_balance : Respects Known HorizonBalance.deserialize :=
  Respects.of_source fun source source' h => by
    rw [h.required (by decide) respects_as_string, h.required (by decide) respects_as_string]

theorem respects_account : Respects Known HorizonAccount.deserialize :=
  Respects.of_source fun source source' h => by
    rw [h.required (by decide) respects_as_string, h.required (by decide) respects_as_string,
      h.required (by decide) respects_balance.as_list]

variable [WireFormat]

/-- Instants say nothing more. -/
theorem respects_as_date_time : Respects Known asDateTime := by
  intro value value' h
  cases h <;> rfl

theorem respects_transaction : Respects Known HorizonTransaction.deserialize :=
  Respects.of_source fun source source' h => by
    rw [h.required (by decide) respects_as_string, h.required (by decide) respects_as_bool,
      h.required (by decide) (respects_as_below _), h.required (by decide) respects_as_date_time]

theorem respects_record : Respects Known deserializeRecord :=
  Respects.of_source fun source source' h => by
    rw [h.required (by decide) respects_as_string, h.optional (by decide) respects_as_string,
      h.optional (by decide) respects_as_string, h.optional (by decide) respects_as_string,
      h.optional (by decide) respects_as_string, h.required (by decide) respects_as_string,
      h.required (by decide) respects_as_date_time]

theorem respects_page : Respects Known HorizonPaymentsPage.deserialize := by
  have hembedded : Respects Known HorizonEmbedded.deserialize :=
    Respects.of_source fun source source' h => by
      rw [h.required (by decide) respects_record.as_list]
  refine Respects.of_source fun source source' h => ?_
  rw [h.required (by decide) hembedded]

section Networks

variable {network network' : Network}

omit [WireFormat] in
/-- A resource is read alike where more is said. -/
theorem get_resource_eq {α : Type} {deserialize : Value → Option α} {url : String}
    (h : SaysMore (network ⟨url, []⟩) (network' ⟨url, []⟩)) (hread : Respects Known deserialize) :
    network.run (getResource url deserialize) = network'.run (getResource url deserialize) := by
  rw [get_resource_run, get_resource_run]
  generalize network ⟨url, []⟩ = answer at h
  generalize network' ⟨url, []⟩ = answer' at h
  cases h with
  | error message => rfl
  | unread status decodeError => rfl
  | read status decodeError hbody =>
      simp only [HttpResponse.json, Option.bind_some, hread _ _ hbody]

/-- A page is read alike where more is said. -/
theorem get_page_eq (client : HorizonClient) {destination : String}
    (h : SaysMore (network (client.pageRequest destination))
      (network' (client.pageRequest destination))) :
    network.run (client.getPage destination) = network'.run (client.getPage destination) := by
  rw [get_page_run, get_page_run]
  generalize network (client.pageRequest destination) = answer at h
  generalize network' (client.pageRequest destination) = answer' at h
  cases h with
  | error message => rfl
  | unread status decodeError => rfl
  | read status decodeError hbody =>
      simp only [HttpResponse.json, Option.bind_some, respects_page _ _ hbody]

/-- A client sees the same Horizon on a network that says more. -/
theorem horizon_eq (h : ∀ request, SaysMore (network request) (network' request))
    (client : HorizonClient) : client.horizon network = client.horizon network' := by
  have hpayments : ∀ destination, network.run (client.getPage destination) =
      network'.run (client.getPage destination) := fun destination => get_page_eq client (h _)
  have hmemo : ∀ hash, network.run (client.getTransactionMemo hash) =
      network'.run (client.getTransactionMemo hash) := by
    intro hash
    simp only [HorizonClient.getTransactionMemo, Network.run_bind,
      get_resource_eq (h _) respects_detail]
    cases network'.run (getResource (client.baseUrl ++ "/transactions/" ++ hash)
      HorizonTransactionDetail.deserialize) <;> rfl
  have htransaction : ∀ hash, network.run (client.getTransaction hash) =
      network'.run (client.getTransaction hash) := by
    intro hash
    simp only [HorizonClient.getTransaction, Network.run_bind,
      get_resource_eq (h _) respects_transaction]
    cases network'.run (getResource (client.baseUrl ++ "/transactions/" ++ hash)
      HorizonTransaction.deserialize) <;> rfl
  simp only [HorizonClient.horizon, funext hpayments, funext hmemo, funext htransaction]

/-- Whatever Horizon adds to its answers under names that the client does not read, and in whatever
order it sends its fields, the client reports the same. -/
theorem extended_answers_same (h : ∀ request, SaysMore (network request) (network' request))
    (client : HorizonClient) :
    (∀ destination memo since, network.run (client.findPayment destination memo since) =
        network'.run (client.findPayment destination memo since)) ∧
      (∀ hash, network.run (client.getTransaction hash) =
        network'.run (client.getTransaction hash)) ∧
      ∀ accountId, network.run (client.getAccount accountId) =
        network'.run (client.getAccount accountId) := by
  have hhorizon := horizon_eq h client
  refine ⟨fun destination memo since => ?_, fun hash => ?_, fun accountId => ?_⟩
  · rw [find_payment_run, find_payment_run, hhorizon]
  · exact congrFun (congrArg Horizon.transaction hhorizon) hash
  · simp only [HorizonClient.getAccount, Network.run_bind, get_resource_eq (h _) respects_account]
    cases network'.run (getResource (client.baseUrl ++ "/accounts/" ++ accountId)
      HorizonAccount.deserialize) <;> rfl

end Networks

end Extensions

section Example

/-- Instants as decimal numbers. -/
@[reducible]
def plainFormat : WireFormat where
  dateTimeFromJson text :=
    some (text.toList.foldl (fun value digit => 10 * value + (digit.toNat - '0'.toNat)) 0 : Nat)

attribute [local instance] plainFormat

/-- A network with one page and one transaction. -/
def answering (page detail : Value) : Network :=
  fun request => .ok ⟨200, some (if request.query = [] then detail else page), "cannot be read"⟩

/-- The fields of a record that the client reads. -/
def recordFields : List (String × Value) :=
  [("type", .string "payment"), ("to", .string "GDEST"), ("from", .string "GSENDER"),
    ("amount", .string "10.0000000"), ("asset_type", .string "native"),
    ("transaction_hash", .string "tx"), ("created_at", .string "7")]

/-- A page with a record of these fields, and with more fields around it. -/
def pageWith (record more : List (String × Value)) : Value :=
  .object (more ++ [("_embedded", .object (("records", .array [.object record]) :: more))])

/-- What Horizon adds. -/
def links : List (String × Value) :=
  [("_links", .object [("self", .null)]), ("paging_token", .string "12-1")]

/-- It has none of the names that the client reads. -/
theorem links_unknown : ∀ field ∈ links, ¬ Known field.1 := by
  decide

/-- A page with links on every level, and the fields of its record the other way round. -/
theorem page_extended :
    (pageWith recordFields []).Extended Known (pageWith (links ++ recordFields.reverse) links) := by
  have hrecord : (Value.object recordFields).Extended Known
      (.object (links ++ recordFields.reverse)) :=
    .object (.refl recordFields) links_unknown
      ((List.perm_append_comm).trans ((List.reverse_perm recordFields).append_right links))
  have hrecords : ExtendedFields Known [("records", .array [.object recordFields])]
      [("records", .array [.object (links ++ recordFields.reverse)])] :=
    .cons (.array (.cons hrecord .nil)) .nil
  have hembedded : ExtendedFields Known
      [("_embedded", .object [("records", .array [.object recordFields])])]
      [("_embedded", .object (("records", .array [.object (links ++ recordFields.reverse)]) ::
        links))] :=
    .cons (.object hrecords links_unknown (List.Perm.refl _)) .nil
  exact .object hembedded links_unknown List.perm_append_comm

/-- A payment is found on a page with links, because it is found on the page without them. -/
theorem extended_answers_same_links :
    (answering (pageWith (links ++ recordFields.reverse) links)
        (.object (("memo", .string "m") :: links))).run
      ((HorizonClient.mk "https://horizon.example").findPayment "GDEST" "m" 5) =
    .ok (some ⟨"tx", "GSENDER", "GDEST", "10.0000000", "native", some "m", 7⟩) := by
  have hdetail : (Value.object [("memo", .string "m")]).Extended Known
      (.object (("memo", .string "m") :: links)) :=
    .object (.refl _) links_unknown (List.Perm.refl _)
  have hmore : ∀ request, SaysMore (answering (pageWith recordFields [])
      (.object [("memo", .string "m")]) request)
      (answering (pageWith (links ++ recordFields.reverse) links)
        (.object (("memo", .string "m") :: links)) request) := by
    intro request
    unfold answering
    split
    · exact .read 200 "cannot be read" hdetail
    · exact .read 200 "cannot be read" page_extended
  rw [← (extended_answers_same hmore ⟨"https://horizon.example"⟩).1 "GDEST" "m" 5]
  decide

end Example

end StellarPay.Http
