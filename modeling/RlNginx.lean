import RlNginx.Lib.Transition
import RlNginx.Lib.Tally
import RlNginx.Lib.Registry
import RlNginx.Lib.Word
import RlNginx.Lib.Fallible
import RlNginx.Lib.Numeral
import RlNginx.Lib.Settings
import RlNginx.Lib.Inherit
import RlNginx.Lib.Lines
import RlNginx.Lib.Scan
import RlNginx.Lib.Buffer
import RlNginx.Lib.Ledger
import RlNginx.Lib.Backoff
import RlNginx.Lib.Simulation
import RlNginx.Lib.Growth
import RlNginx.Bytes
import RlNginx.Numeric
import RlNginx.ResolvConf
import RlNginx.Nameserver
import RlNginx.Policy
import RlNginx.Conf
import RlNginx.Directives
import RlNginx.Preflight
import RlNginx.Closed
import RlNginx.Accepted
import RlNginx.Grammar
import RlNginx.NamedArgs
import RlNginx.Inheritance
import RlNginx.Checked
import RlNginx.Worker
import RlNginx.Request
import RlNginx.World
import RlNginx.InitRetry
import RlNginx.Expansion
import RlNginx.Validation
import RlNginx.Moves
import RlNginx.Endpoint
import RlNginx.Steering
import RlNginx.Outcome
import RlNginx.Ownership
import RlNginx.Lifecycle
import RlNginx.Interleaving
import RlNginx.Phases
import RlNginx.Timers
import RlNginx.Admission
import RlNginx.Reuse
import RlNginx.Decision
import RlNginx.LogPhase
import RlNginx.Reports
import RlNginx.Resolver
import RlNginx.SrvRecords
import RlNginx.AddrRecords
import RlNginx.Gate
import RlNginx.Provenance
import RlNginx.Sends
import RlNginx.Receive
import RlNginx.Reorder
import RlNginx.Waiting
import RlNginx.Credentials
import RlNginx.Nested
import RlNginx.Asked
