import OutboxFanout.Lib.Machine
import OutboxFanout.Lib.Run
import OutboxFanout.Lib.Path
import OutboxFanout.Lib.Amortized
import OutboxFanout.Lib.Simulation
import OutboxFanout.Lib.Rows
import OutboxFanout.Lib.Top
import OutboxFanout.Lib.Fanout
import OutboxFanout.Lib.Queue
import OutboxFanout.Lib.Script
import OutboxFanout.Lib.Firsts
import OutboxFanout.Lib.Hex
import OutboxFanout.Lib.Json
import OutboxFanout.Lib.JsonRoundTrip
import OutboxFanout.Python
import OutboxFanout.DecimalRoundTrip
import OutboxFanout.Shared.Db
import OutboxFanout.Shared.Aws
import OutboxFanout.Shared.Messages
import OutboxFanout.Shared.Consumer
import OutboxFanout.Shared.Settlement
import OutboxFanout.Shared.Loop
import OutboxFanout.Shared.Projection
import OutboxFanout.Shared.Uniqueness
import OutboxFanout.Shared.Ownership
import OutboxFanout.Shared.Provenance
import OutboxFanout.Order.Models
import OutboxFanout.Relay.Service
import OutboxFanout.Relay.Publisher
import OutboxFanout.Relay.Interleaving
import OutboxFanout.Relay.Locking
import OutboxFanout.Relay.Counting
import OutboxFanout.Relay.History
import OutboxFanout.Order.Atomic
import OutboxFanout.Order.Routes
import OutboxFanout.Relay.Batch
import OutboxFanout.Relay.Parking
import OutboxFanout.Relay.Bookkeeping
import OutboxFanout.Relay.Consistency
import OutboxFanout.Order.Reads
import OutboxFanout.Relay.Effect
import OutboxFanout.Relay.Progress
import OutboxFanout.Relay.Pending
import OutboxFanout.Relay.Shutdown
import OutboxFanout.Relay.Healthy
import OutboxFanout.Relay.Serial
import OutboxFanout.Relay.Bounds
import OutboxFanout.Billing.Service
import OutboxFanout.Shipping.Service
import OutboxFanout.Notifications.Service
import OutboxFanout.Notifications.Claims
import OutboxFanout.Shared.Polling
import OutboxFanout.Shared.Writes
import OutboxFanout.Notifications.Loss
import OutboxFanout.Notifications.Spacing
import OutboxFanout.Notifications.Release
import OutboxFanout.Notifications.Suppression
import OutboxFanout.System
import OutboxFanout.Delivery
import OutboxFanout.Projections
import OutboxFanout.Shared.Completion
import OutboxFanout.Isolation
import OutboxFanout.Attempts
import OutboxFanout.Outage
import OutboxFanout.Agreement
import OutboxFanout.Log
import OutboxFanout.InOrder
import OutboxFanout.Fulfilment
import OutboxFanout.Balance
import OutboxFanout.Readable
import OutboxFanout.Recovery
import OutboxFanout.Bootstrap.Main
import OutboxFanout.Bootstrap.Wired
import OutboxFanout.Bootstrap.Rerun
import OutboxFanout.Restart
import OutboxFanout.Stale
import OutboxFanout.Lib.Fair
import OutboxFanout.Relay.Eventually
import OutboxFanout.Shared.Eventually
import OutboxFanout.Notifications.Eventually
import OutboxFanout.Course
import OutboxFanout.Eventually
