import Almanac.Broker.Client
import Almanac.Broker.Drain
import Almanac.Event.Notification
import Almanac.Logging
import Almanac.Main
import Almanac.Period
import Almanac.Proofs.Broker.InLine
import Almanac.Proofs.Broker.Prefetch
import Almanac.Proofs.Broker.Returning
import Almanac.Proofs.Broker.Topology
import Almanac.Proofs.Dispatch.Accounting
import Almanac.Proofs.Dispatch.Overlap
import Almanac.Proofs.Dispatch.Retention
import Almanac.Proofs.Dispatch.Settlement
import Almanac.Proofs.Event.Payload
import Almanac.Proofs.Event.Rearrangement
import Almanac.Proofs.Period.Ends
import Almanac.Proofs.Query.Rounding
import Almanac.Proofs.Query.Stability
import Almanac.Proofs.Relay.AtLeastOnce
import Almanac.Proofs.Relay.Discharge
import Almanac.Proofs.Relay.Staffing
import Almanac.Proofs.Settings
import Almanac.Proofs.Sql.Parameters
import Almanac.Proofs.Sql.Parity
import Almanac.Proofs.Sql.Words
import Almanac.Proofs.Store.Amendment
import Almanac.Proofs.Store.Deletion
import Almanac.Proofs.Store.DueList
import Almanac.Proofs.Store.Isolation
import Almanac.Proofs.Store.Ledger
import Almanac.Proofs.Store.MarkHistory
import Almanac.Proofs.Store.Marking
import Almanac.Proofs.Store.Owners
import Almanac.Proofs.Store.Precision
import Almanac.Proofs.Store.Publications
import Almanac.Proofs.Store.Refusal
import Almanac.Proofs.Store.Windows
import Almanac.Startup
import Almanac.Timeline
