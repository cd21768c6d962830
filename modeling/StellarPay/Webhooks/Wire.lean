import StellarPay.Core.Events
import StellarPay.Core.Identifiers
import StellarPay.Stellar.Http

/-!
# Reading the core types from JSON

`crates/core` derives `Deserialize` beside `Serialize`, so the types that a webhook is written with
can also be read from it. A payment and an envelope are read back as they were written, whatever
order the fields have come to be in and whatever is said under other names.
-/

namespace StellarPay

/-- A unit variant of an enum: its name, or an object with nothing but null under it. -/
def Value.asVariant : Value → Option String
  | .string name => some name
  | .object [(name, .null)] => some name
  | _ => none

/-- An identifier (`Uuid::deserialize`). -/
def asUuid (value : Value) : Option Uuid :=
  value.asString.bind Uuid.parseStr

/-- The derived `Deserialize` of `Asset`. -/
def Asset.deserialize (value : Value) : Option Asset :=
  value.asVariant.bind fun name => if name = "XLM" then some .xlm else none

/-- The derived `Deserialize` of `PaymentStatus`: the variant with this name. -/
def PaymentStatus.deserialize (value : Value) : Option PaymentStatus :=
  value.asVariant.bind fun name =>
    [.pending, .detected, .confirmed, .failed, .expired].find? fun status : PaymentStatus =>
      status.toJson == name

section Records

variable [Http.WireFormat]

/-- The derived `Deserialize` of `Payment`. -/
def Payment.deserialize (value : Value) : Option Payment := do
  let source ← value.source 10
  let id ← source.required 0 "id" asUuid
  let reference ← source.required 1 "reference" Value.asString
  let amount ← source.required 2 "amount" Value.asString
  let asset ← source.required 3 "asset" Asset.deserialize
  let destination ← source.required 4 "destination" Value.asString
  let memo ← source.optional 5 "memo" Value.asString
  let status ← source.required 6 "status" PaymentStatus.deserialize
  let stellarTxHash ← source.optional 7 "stellar_tx_hash" Value.asString
  let createdAt ← source.required 8 "created_at" Http.asDateTime
  let updatedAt ← source.required 9 "updated_at" Http.asDateTime
  pure
    { id, reference, amount, asset, destination, memo, status, stellarTxHash, createdAt,
      updatedAt }

/-- The derived `Deserialize` of `WebhookEnvelope`. Its data stay JSON. -/
def WebhookEnvelope.deserialize (value : Value) : Option WebhookEnvelope := do
  let source ← value.source 4
  let id ← source.required 0 "id" asUuid
  let eventType ← source.required 1 "type" Value.asString
  let createdAt ← source.required 2 "created_at" Http.asDateTime
  let data ← source.required 3 "data" some
  pure { id, eventType, createdAt, data }

end Records

/-- The names that the core types are written with. -/
def WireName (name : String) : Prop :=
  name ∈ ["id", "reference", "amount", "asset", "destination", "memo", "status", "stellar_tx_hash",
    "created_at", "updated_at", "type", "data", "payment"]

instance : DecidablePred WireName :=
  fun _ => inferInstanceAs (Decidable (_ ∈ _))

section Reading

variable {known : String → Prop}

/-- An identifier is read from its text. -/
theorem reads_uuid (id : Uuid) : ReadsFrom known asUuid (.string id.hyphenated) id := by
  refine .of_string ?_
  rw [asUuid, Value.asString, Option.bind_some, Uuid.parse_str_hyphenated]

/-- A text is read as it is. -/
theorem reads_text (text : String) : ReadsFrom known Value.asString (.string text) text :=
  .of_string rfl

/-- A status is read from its name. -/
theorem reads_status (status : PaymentStatus) :
    ReadsFrom known PaymentStatus.deserialize (.string status.toJson) status := by
  refine .of_string ?_
  cases status <;> simp [PaymentStatus.deserialize, Value.asVariant, PaymentStatus.toJson]

/-- The one asset is read from its name. -/
theorem reads_asset (asset : Asset) : ReadsFrom known Asset.deserialize (.string "XLM") asset := by
  cases asset
  exact .of_string rfl

/-- A text that may be missing is read from what it is written as. -/
theorem Source.Extended.reads_option {fields : List (String × Value)} {source' : Source}
    (h : (Source.named fields).Extended known source') {position : Nat} (name : String)
    (text : Option String) (hname : known name) (hvalue : valuesOf name fields = [.ofOption text]) :
    source'.optional position name Value.asString = some text := by
  refine h.reads name hname hvalue ?_
  cases text with
  | none =>
      intro value' hextended
      cases hextended
      rfl
  | some text => exact .of_string rfl

end Reading

/-- What `chrono` documents about the JSON texts of instants: they are read back. -/
class WireLaws [Platform] [Http.WireFormat] : Prop where
  date_time (time : DateTime) :
    Http.WireFormat.dateTimeFromJson (Platform.dateTimeToJson time) = some time

section RoundTrip

variable [Platform] [Http.WireFormat] [WireLaws]

/-- An instant is read from its text. -/
theorem reads_date_time {known : String → Prop} (time : DateTime) :
    ReadsFrom known Http.asDateTime (.string (Platform.dateTimeToJson time)) time :=
  .of_string (WireLaws.date_time time)

/-- A payment is read back. -/
theorem reads_payment (payment : Payment) :
    ReadsFrom WireName Payment.deserialize payment.toJson payment := by
  intro value' hextended
  rcases hextended.source 10 with ⟨hnone, -⟩ | ⟨_, source', ⟨⟩, hsource', h⟩
  · cases hnone
  rw [Payment.deserialize, hsource']
  simp only [Option.bind_eq_bind, Option.bind_some, Source.required,
    h.reads "id" (by decide) (by simp [valuesOf]) (reads_uuid payment.id),
    h.reads "reference" (by decide) (by simp [valuesOf]) (reads_text payment.reference),
    h.reads "amount" (by decide) (by simp [valuesOf]) (reads_text payment.amount),
    h.reads "asset" (by decide) (by simp [valuesOf]) (reads_asset payment.asset),
    h.reads "destination" (by decide) (by simp [valuesOf]) (reads_text payment.destination),
    h.reads_option "memo" payment.memo (by decide) (by simp [valuesOf]),
    h.reads "status" (by decide) (by simp [valuesOf]) (reads_status payment.status),
    h.reads_option "stellar_tx_hash" payment.stellarTxHash (by decide) (by simp [valuesOf]),
    h.reads "created_at" (by decide) (by simp [valuesOf]) (reads_date_time payment.createdAt),
    h.reads "updated_at" (by decide) (by simp [valuesOf]) (reads_date_time payment.updatedAt)]
  rfl

/-- An envelope is read back, except that its data may have been extended. -/
theorem reads_envelope (envelope : WebhookEnvelope) {value' : Value}
    (hextended : envelope.toJson.Extended WireName value') :
    ∃ data, envelope.data.Extended WireName data ∧
      WebhookEnvelope.deserialize value' = some { envelope with data } := by
  rcases hextended.source 4 with ⟨hnone, -⟩ | ⟨_, source', ⟨⟩, hsource', h⟩
  · cases hnone
  obtain ⟨fields', data, rfl, hdata, hmore⟩ := h.value_of "data" envelope.data
    (by decide) (by simp [valuesOf])
  refine ⟨data, hmore, ?_⟩
  have hfield : (Source.named fields').field 3 "data" some none = some data := by
    rw [Source.field, hdata]
  rw [WebhookEnvelope.deserialize, hsource']
  simp only [Option.bind_eq_bind, Option.bind_some, Source.required, hfield,
    h.reads "id" (by decide) (by simp [valuesOf]) (reads_uuid envelope.id),
    h.reads "type" (by decide) (by simp [valuesOf]) (reads_text envelope.eventType),
    h.reads "created_at" (by decide) (by simp [valuesOf]) (reads_date_time envelope.createdAt)]
  rfl

end RoundTrip

end StellarPay
