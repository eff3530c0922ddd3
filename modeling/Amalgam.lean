import Amalgam.Cache.Circuit
import Amalgam.Cache.Continuity
import Amalgam.Cache.Fallback
import Amalgam.Cache.FenceSafety
import Amalgam.Cache.GetOrSet
import Amalgam.Cache.GetOrSetInvariant
import Amalgam.Cache.GetOrSetSafety
import Amalgam.Cache.Health
import Amalgam.Cache.Hybrid
import Amalgam.Cache.HybridLanes
import Amalgam.Cache.HybridMove
import Amalgam.Cache.HybridRun
import Amalgam.Cache.Invalidation
import Amalgam.Cache.InvalidationSafety
import Amalgam.Cache.MessageOrder
import Amalgam.Cache.PassiveRefresh
import Amalgam.Cache.Registry
import Amalgam.Cache.ReplaySafety
import Amalgam.Commit.Access
import Amalgam.Commit.Exclusion
import Amalgam.Commit.Lane
import Amalgam.Commit.Ordered
import Amalgam.Entry
import Amalgam.EntryBoundaries
import Amalgam.EntryLifetimes
import Amalgam.EntrySnapshots
import Amalgam.Execution.Counting
import Amalgam.Execution.Drain
import Amalgam.Execution.Reason
import Amalgam.Execution.Scope
import Amalgam.Execution.Shutdown
import Amalgam.Execution.ShutdownReport
import Amalgam.Execution.Tasks
import Amalgam.Execution.TasksSafety
import Amalgam.Execution.Tracking
import Amalgam.Execution.Wakeup
import Amalgam.Execution.Watched
import Amalgam.Flight.Delivery
import Amalgam.Flight.Move
import Amalgam.Flight.Registry
import Amalgam.Flight.RetainedOrigin
import Amalgam.Flight.Safety
import Amalgam.Flight.Table
import Amalgam.Keys.ByteMarkers
import Amalgam.Keys.Physical
import Amalgam.Keys.Scope
import Amalgam.Leases.Acquisition
import Amalgam.Leases.Authority
import Amalgam.Leases.Ownership
import Amalgam.Lib.Bits
import Amalgam.Lib.Cursor
import Amalgam.Lib.FiniteMap
import Amalgam.Lib.Hex
import Amalgam.Lib.History
import Amalgam.Lib.Json
import Amalgam.Lib.JsonText
import Amalgam.Lib.Lease
import Amalgam.Lib.LockLog
import Amalgam.Lib.PlainMap
import Amalgam.Lib.Redis
import Amalgam.Lib.Run
import Amalgam.Lib.StoreBuffer
import Amalgam.Lib.Text
import Amalgam.Lib.Traced
import Amalgam.Locking
import Amalgam.Markers.ColdRead
import Amalgam.Markers.Ledger
import Amalgam.Markers.Mutation
import Amalgam.Markers.Observations
import Amalgam.Markers.Snapshots
import Amalgam.Markers.State
import Amalgam.Memory.Accounting
import Amalgam.Memory.Contents
import Amalgam.Memory.Effect
import Amalgam.Memory.Eviction
import Amalgam.Memory.EvictionStream
import Amalgam.Memory.LocalReads
import Amalgam.Memory.Origin
import Amalgam.Memory.OriginSafety
import Amalgam.Memory.PlainWrite
import Amalgam.Memory.ReaderExclusion
import Amalgam.Memory.ReaderSlots
import Amalgam.Memory.Registry
import Amalgam.Memory.Retention
import Amalgam.Memory.Sharded
import Amalgam.Memory.Shards
import Amalgam.Memory.ShardsSafety
import Amalgam.Memory.Store
import Amalgam.Memory.Supplied
import Amalgam.Memory.SuppliedSafety
import Amalgam.Plugins.Admitted
import Amalgam.Plugins.Host
import Amalgam.Plugins.Published
import Amalgam.Plugins.Sessions
import Amalgam.Plugins.Teardown
import Amalgam.Recovery.Admission
import Amalgam.Recovery.Budget
import Amalgam.Recovery.MarkerTickets
import Amalgam.Recovery.Queue
import Amalgam.Recovery.QueueSafety
import Amalgam.Recovery.Service
import Amalgam.Redis.Journal
import Amalgam.Redis.Leases
import Amalgam.Redis.Lifetimes
import Amalgam.Redis.Names
import Amalgam.Redis.Snapshots
import Amalgam.Redis.Subscriber
import Amalgam.Redis.Versions
import Amalgam.Time
import Amalgam.TimeArithmetic
import Amalgam.Wire.Backplane
import Amalgam.Wire.Canonical
import Amalgam.Wire.Decimal
import Amalgam.Wire.Envelope
import Amalgam.Wire.RedisMessage
import Amalgam.Wire.Scanning
import Amalgam.Wire.Snapshot
