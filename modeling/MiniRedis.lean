import MiniRedis.HashTable.FiniteMap
import MiniRedis.Storage.InMemory
import MiniRedis.Storage.Cell
import MiniRedis.Storage.Eviction
import MiniRedis.Storage.Reference
import MiniRedis.Storage.Straddle
import MiniRedis.Foundation.Text
import MiniRedis.Core.Message
import MiniRedis.Protocol.Encoder
import MiniRedis.Protocol.Parser
import MiniRedis.Protocol.Stability
import MiniRedis.Foundation.Incremental
import MiniRedis.Server.Connection
import MiniRedis.Protocol.RoundTrip
import MiniRedis.Server.Pipelining
import MiniRedis.Persistence.Aof
import MiniRedis.Persistence.Manager
import MiniRedis.Cluster.Router
import MiniRedis.Server.Dispatcher
import MiniRedis.Server.Handlers
import MiniRedis.Cluster.Simulation
import MiniRedis.Foundation.Triple
import MiniRedis.Server.Concurrent
import MiniRedis.Storage.Soundness
import MiniRedis.Server.Replies
import MiniRedis.Persistence.Restore
import MiniRedis.Persistence.Replay
import MiniRedis.Server.Recovery
import MiniRedis.Persistence.JsonText
import MiniRedis.Persistence.TornLog
import MiniRedis.Persistence.Absorption
import MiniRedis.Persistence.Orphans
import MiniRedis.Persistence.PointInTime
import MiniRedis.Protocol.Exceptions
import MiniRedis.Protocol.Grammar
import MiniRedis.Server.FailedWrites
import MiniRedis.Protocol.Lenient
import MiniRedis.Protocol.Client
import MiniRedis.HashTable.Resize
import MiniRedis.Server.Continuity
import MiniRedis.Server.Lifetimes
import MiniRedis.Server.Benchmarks
import MiniRedis.HashTable.Cost
import MiniRedis.Persistence.EntryLog
import MiniRedis.Cluster.Lives
import MiniRedis.Cluster.Slots
import MiniRedis.Server.Countdown
import MiniRedis.Server.Healing
