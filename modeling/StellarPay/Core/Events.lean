import StellarPay.Core.Payment

/-!
# Payment events

`crates/core/src/events.rs`: the events a payment goes through and the JSON envelope a webhook
delivers them in.
-/

namespace StellarPay

/-- `PaymentEvent`. -/
inductive PaymentEvent where
  | paymentCreated (payment : Payment)
  | paymentDetected (payment : Payment)
  | paymentConfirmed (payment : Payment)
  | paymentFailed (payment : Payment)
  | paymentExpired (payment : Payment)

namespace PaymentEvent

/-- `PaymentEvent::payment`. -/
def payment : PaymentEvent → Payment
  | paymentCreated payment | paymentDetected payment | paymentConfirmed payment
  | paymentFailed payment | paymentExpired payment => payment

/-- `PaymentEvent::event_type`. -/
def eventType : PaymentEvent → String
  | paymentCreated _ => "payment.created"
  | paymentDetected _ => "payment.detected"
  | paymentConfirmed _ => "payment.confirmed"
  | paymentFailed _ => "payment.failed"
  | paymentExpired _ => "payment.expired"

end PaymentEvent

/-- `WebhookEnvelope`. -/
structure WebhookEnvelope where
  id : Uuid
  eventType : String
  createdAt : DateTime
  data : Value

variable [Platform]

/-- An optional string, as JSON. -/
def Value.ofOption : Option String → Value
  | some text => .string text
  | none => .null

/-- The serialized form of a payment. -/
def Payment.toJson (payment : Payment) : Value :=
  .object
    [("id", .string payment.id.hyphenated), ("reference", .string payment.reference),
      ("amount", .string payment.amount), ("asset", .string "XLM"),
      ("destination", .string payment.destination), ("memo", .ofOption payment.memo),
      ("status", .string payment.status.toJson),
      ("stellar_tx_hash", .ofOption payment.stellarTxHash),
      ("created_at", .string (Platform.dateTimeToJson payment.createdAt)),
      ("updated_at", .string (Platform.dateTimeToJson payment.updatedAt))]

/-- The serialized form of an envelope. -/
def WebhookEnvelope.toJson (envelope : WebhookEnvelope) : Value :=
  .object
    [("id", .string envelope.id.hyphenated), ("type", .string envelope.eventType),
      ("created_at", .string (Platform.dateTimeToJson envelope.createdAt)),
      ("data", envelope.data)]

end StellarPay
