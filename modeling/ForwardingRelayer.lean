import ForwardingRelayer.Address
import ForwardingRelayer.Auth
import ForwardingRelayer.Backend
import ForwardingRelayer.Chrono
import ForwardingRelayer.Client
import ForwardingRelayer.Config
import ForwardingRelayer.Database
import ForwardingRelayer.Deposits
import ForwardingRelayer.Dispatcher
import ForwardingRelayer.Failover
import ForwardingRelayer.Fee
import ForwardingRelayer.Forward
import ForwardingRelayer.Lib.Bech32
import ForwardingRelayer.Lib.Calendar
import ForwardingRelayer.Lib.Decimal
import ForwardingRelayer.Lib.Dedup
import ForwardingRelayer.Lib.Fallible
import ForwardingRelayer.Lib.Hex
import ForwardingRelayer.Lib.Instant
import ForwardingRelayer.Lib.Machine
import ForwardingRelayer.Lib.Mirror
import ForwardingRelayer.Lib.ReadRfc3339
import ForwardingRelayer.Lib.Rest
import ForwardingRelayer.Lib.Rfc3339
import ForwardingRelayer.Lib.Sha256
import ForwardingRelayer.Lib.Sort
import ForwardingRelayer.Lib.Table
import ForwardingRelayer.Lib.Tasks
import ForwardingRelayer.Lib.Text
import ForwardingRelayer.Maintenance
import ForwardingRelayer.Network
import ForwardingRelayer.Proofs.Accounting
import ForwardingRelayer.Proofs.Activity
import ForwardingRelayer.Proofs.Address
import ForwardingRelayer.Proofs.Attempts
import ForwardingRelayer.Proofs.Backend
import ForwardingRelayer.Proofs.Balances
import ForwardingRelayer.Proofs.Binding
import ForwardingRelayer.Proofs.Calls
import ForwardingRelayer.Proofs.Chrono
import ForwardingRelayer.Proofs.Coverage
import ForwardingRelayer.Proofs.Cursor
import ForwardingRelayer.Proofs.Database
import ForwardingRelayer.Proofs.Deposits
import ForwardingRelayer.Proofs.Dispatcher
import ForwardingRelayer.Proofs.Endpoints
import ForwardingRelayer.Proofs.Exhaustive
import ForwardingRelayer.Proofs.Failover
import ForwardingRelayer.Proofs.Fee
import ForwardingRelayer.Proofs.Gauges
import ForwardingRelayer.Proofs.Limits
import ForwardingRelayer.Proofs.Mirror
import ForwardingRelayer.Proofs.Network
import ForwardingRelayer.Proofs.Pacing
import ForwardingRelayer.Proofs.Permits
import ForwardingRelayer.Proofs.Provenance
import ForwardingRelayer.Proofs.Quote
import ForwardingRelayer.Proofs.Recovery
import ForwardingRelayer.Proofs.Redaction
import ForwardingRelayer.Proofs.Registry
import ForwardingRelayer.Proofs.Rest
import ForwardingRelayer.Proofs.Retirement
import ForwardingRelayer.Proofs.Retry
import ForwardingRelayer.Proofs.Rotation
import ForwardingRelayer.Proofs.Scanner
import ForwardingRelayer.Proofs.Server
import ForwardingRelayer.Proofs.Skipping
import ForwardingRelayer.Proofs.Spelling
import ForwardingRelayer.Proofs.Sweep
import ForwardingRelayer.Proofs.System
import ForwardingRelayer.Proofs.Tended
import ForwardingRelayer.Proofs.Timestamps
import ForwardingRelayer.Proofs.Unfunded
import ForwardingRelayer.Proofs.Verdict
import ForwardingRelayer.Proofs.Wire
import ForwardingRelayer.Relayer
import ForwardingRelayer.Request
import ForwardingRelayer.Scanner
import ForwardingRelayer.Server
import ForwardingRelayer.System
import ForwardingRelayer.Url
import ForwardingRelayer.Wire
