import Rebalance.Settings
import Rebalance.Partition.Ranges
import Rebalance.Wire.Codec
import Rebalance.Promise.Script
import Rebalance.Exchange.Script
import Rebalance.Round.Script
import Rebalance.Throttle
import Rebalance.Bench
import Rebalance.Network.Exercise
import Rebalance.Cluster
import Rebalance.Proofs.Intake
import Rebalance.Proofs.Host
import Rebalance.Proofs.Settled
import Rebalance.Proofs.Isolation
import Rebalance.Proofs.Account
import Rebalance.Proofs.Transfer
import Rebalance.Proofs.Paging
import Rebalance.Proofs.Calm
import Rebalance.Proofs.StreamProgress
import Rebalance.Proofs.Routing
import Rebalance.Proofs.Demands
import Rebalance.Proofs.PlanFetch
import Rebalance.Proofs.Underway
import Rebalance.Proofs.Moves
import Rebalance.Proofs.Asking
import Rebalance.Proofs.Arrival
import Rebalance.Proofs.Launching
import Rebalance.Proofs.Delivery
import Rebalance.Proofs.Assembly
import Rebalance.Proofs.Reentry
import Rebalance.Proofs.History
import Rebalance.Proofs.Redrive
import Rebalance.Proofs.Reports
import Rebalance.Proofs.Meters
import Rebalance.Proofs.Opening
import Rebalance.Proofs.Turns
import Rebalance.Proofs.RoundGauge
import Rebalance.Proofs.Rounds
import Rebalance.Proofs.Timely
import Rebalance.Proofs.Staleness
import Rebalance.Proofs.Winner
import Rebalance.Proofs.Utf8
import Rebalance.Proofs.Accept
import Rebalance.Proofs.Grammar
import Rebalance.Proofs.RoundTrip
import Rebalance.Proofs.Sending
import Rebalance.Proofs.Completion
import Rebalance.Proofs.Continuing
import Rebalance.Proofs.Holding
import Rebalance.Proofs.Traffic
import Rebalance.Proofs.InFlight
import Rebalance.Proofs.Coverage
import Rebalance.Proofs.Members
import Rebalance.Proofs.FlowControl
import Rebalance.Proofs.Replies
import Rebalance.Proofs.OneMessage
import Rebalance.Proofs.Truncation
import Rebalance.Proofs.Unsent
import Rebalance.Proofs.Heedless
import Rebalance.Proofs.Listening
import Rebalance.Proofs.Stopped
import Rebalance.Proofs.Duplicate
import Rebalance.Proofs.Superseded
import Rebalance.Proofs.Handing
import Rebalance.Proofs.Departure
import Rebalance.Proofs.Interleaving
import Rebalance.Proofs.PartitionHold
import Rebalance.Proofs.Balance
import Rebalance.Proofs.Cut
import Rebalance.Proofs.Dependants
import Rebalance.Proofs.Ceiling
import Rebalance.Proofs.Ledger
import Rebalance.Proofs.Entitled
import Rebalance.Proofs.Evictions
import Rebalance.Proofs.Fulfilment
import Rebalance.Proofs.Clones
import Rebalance.Proofs.Serving
import Rebalance.Proofs.Assignments
import Rebalance.Proofs.Expiry
import Rebalance.Proofs.RangeText
import Rebalance.Proofs.Creation
import Rebalance.Demander.Gate
import Rebalance.Proofs.Gate
import Rebalance.Proofs.LatePages
