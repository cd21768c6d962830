import StellarPay.Interleaving.Program
import StellarPay.Interleaving.Machine
import StellarPay.Interleaving.History
import StellarPay.Interleaving.Safety
import StellarPay.Interleaving.Assumption
import StellarPay.Interleaving.Own
import StellarPay.Interleaving.Automata
import StellarPay.Interleaving.Lockstep
import StellarPay.Interleaving.FrontEnd
import StellarPay.Interleaving.Alone
import StellarPay.Core.Platform
import StellarPay.Core.Numerals
import StellarPay.Core.Parsing
import StellarPay.Core.Paging
import StellarPay.Core.Payment
import StellarPay.Core.Events
import StellarPay.Payments.Amount
import StellarPay.Payments.Repository
import StellarPay.Payments.Lifecycle
import StellarPay.Payments.InMemory
import StellarPay.Payments.Postgres
import StellarPay.Payments.PostgresLaws
import StellarPay.Payments.Columns
import StellarPay.Payments.Listings
import StellarPay.Payments.Agreement
import StellarPay.Payments.Simulation
import StellarPay.Stellar.Client
import StellarPay.Stellar.Search
import StellarPay.Webhooks.Repository
import StellarPay.Webhooks.Laws
import StellarPay.Webhooks.Delivery
import StellarPay.Runtime.Effects
import StellarPay.Payments.Service
import StellarPay.Webhooks.Service
import StellarPay.Reconciliation.Worker
import StellarPay.Reconciliation.Payable
import StellarPay.Runtime.System
import StellarPay.Runtime.EventFrames
import StellarPay.Runtime.Frames
import StellarPay.Reconciliation.Plan
import StellarPay.Runtime.Requests
import StellarPay.Runtime.Server
import StellarPay.Runtime.Plain
import StellarPay.Runtime.Exact
import StellarPay.Runtime.Documented
import StellarPay.Payments.Validation
import StellarPay.Reconciliation.Matching
import StellarPay.Payments.RoundTrip
import StellarPay.Payments.Pagination
import StellarPay.Payments.Partition
import StellarPay.Runtime.Passes
import StellarPay.Runs.Lifecycle
import StellarPay.Runs.Idempotency
import StellarPay.Runs.Races
import StellarPay.Runs.Creation
import StellarPay.Runs.Payability
import StellarPay.Runs.ClientErrors
import StellarPay.Runs.Pass
import StellarPay.Runs.Provenance
import StellarPay.Runs.Detection
import StellarPay.Runs.Expiry
import StellarPay.Runs.Hashes
import StellarPay.Runs.Isolation
import StellarPay.Runs.Notifications
import StellarPay.Runs.Linearization
import StellarPay.Runs.Ordering
import StellarPay.Runs.Enqueueing
import StellarPay.Runs.Redelivery
import StellarPay.Runs.Deliveries
import StellarPay.Runs.Retries
import StellarPay.Runs.Equivalence
import StellarPay.Api.Http
import StellarPay.Api.Handlers
import StellarPay.Runs.Amounts
import StellarPay.Runs.Attempts
import StellarPay.Runs.Keys
import StellarPay.Runs.Announcements
import StellarPay.Runs.Turns
import StellarPay.Runs.Pointwise
import StellarPay.Runs.Signatures
import StellarPay.Runs.Windows
import StellarPay.Runs.Representation
import StellarPay.Runs.Batches
import StellarPay.Runs.EventEquivalence
import StellarPay.Core.Growing
import StellarPay.Runs.Reads
import StellarPay.Runs.Sessions
import StellarPay.Runs.PageReads
import StellarPay.Interleaving.Trail
import StellarPay.Runs.Sending
import StellarPay.Runs.Fairness
import StellarPay.Runs.Evidence
import StellarPay.Runs.Progress
import StellarPay.Core.Decoding
import StellarPay.Stellar.Http
import StellarPay.Runs.Blocking
import StellarPay.Runs.Posted
import StellarPay.Interleaving.Scripts
import StellarPay.Api.Startup
import StellarPay.Runs.Loops
import StellarPay.Runs.Histories
import StellarPay.Core.Identifiers
import StellarPay.Core.Rfc3339
import StellarPay.Webhooks.Wire
import StellarPay.Runs.Received
import StellarPay.Runs.EventLog
import StellarPay.Runtime.Instants
import StellarPay.Runs.Instants
