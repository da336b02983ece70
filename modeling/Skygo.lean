import Skygo.Semantics.Machine
import Skygo.Semantics.Table
import Skygo.Semantics.Watermark
import Skygo.Semantics.Gauge
import Skygo.Actor.Base
import Skygo.Actor.Runtime
import Skygo.Actor.RuntimeInvariant
import Skygo.Actor.RuntimeSound
import Skygo.Actor.Scheduling
import Skygo.Actor.RuntimeHistory
import Skygo.Actor.Exclusion
import Skygo.Actor.Disposal
import Skygo.Actor.Notifications
import Skygo.Actor.Effects
import Skygo.Actor.System
import Skygo.Actor.SystemSound
import Skygo.Actor.Drain
import Skygo.Actor.Quiescence
import Skygo.Actor.Verdict
import Skygo.Actor.Sessions
import Skygo.Actor.Outcome
import Skygo.Actor.Growth
import Skygo.Actor.Handlers
import Skygo.Cluster.World
import Skygo.Cluster.Registry
import Skygo.Cluster.Operations
import Skygo.Cluster.Coherence
import Skygo.Cluster.CallCycle
import Skygo.Cluster.Lifecycle
import Skygo.Cluster.CycleSound
import Skygo.Cluster.References
import Skygo.Semantics.Heap
import Skygo.Semantics.Stream
import Skygo.Semantics.Order
import Skygo.Semantics.Program
import Skygo.Redis.SortedSet
import Skygo.Crypto.Sha256
import Skygo.Transport.Config
import Skygo.Transport.Handshake
import Skygo.Transport.Transcript
import Skygo.Transport.RegistrySnapshot
import Skygo.Transport.Peer
import Skygo.Transport.PeerSound
import Skygo.Transport.Admission
import Skygo.Transport.AdmissionSound
import Skygo.Transport.AdmissionOrder
import Skygo.Transport.Inbound
import Skygo.Transport.InboundCore
import Skygo.Transport.InboundSound
import Skygo.Transport.InboundRead
import Skygo.Transport.Network
import Skygo.Transport.NetworkSound
import Skygo.Timer.DelayQueue
import Skygo.Timer.Engine
import Skygo.Timer.Ledger
import Skygo.Timer.LedgerSound
import Skygo.Timer.Lease
import Skygo.Transport.Node
import Skygo.Transport.NodeSound
import Skygo.Transport.NodePeers
import Skygo.Transport.NodeAccounted
import Skygo.Transport.NodeInbound
import Skygo.Transport.PeerWritten
import Skygo.Transport.AdmissionOutcome
import Skygo.Transport.InboundOutcome
import Skygo.Transport.NodeUsed
import Skygo.Transport.Settled
import Skygo.Transport.Flush
import Skygo.Transport.FlushSound
import Skygo.Timer.DelayQueueSound
import Skygo.Timer.IDGenerator
import Skygo.Frame.Frame
import Skygo.Tcpsync.Pool
import Skygo.Tcpsync.PoolSound
import Skygo.Tcpsync.PoolBalanced
import Skygo.Timer.EngineCalls
import Skygo.Timer.EngineFires
import Skygo.Timer.Race
import Skygo.Tcppool.Pool
import Skygo.Tcppool.PoolSound
import Skygo.App.Runtime
import Skygo.App.RuntimeSound
import Skygo.Cluster.Stopping
import Skygo.Cluster.StoppingSound
import Skygo.Cluster.StoppingFinal
import Skygo.Gate.Server
import Skygo.Gate.ServerSound
import Skygo.Transport.InboundStages
import Skygo.Transport.InboundBounds
import Skygo.Transport.InboundResponse
import Skygo.Transport.Pending
import Skygo.Transport.PendingSound
import Skygo.Cluster.TrySend
import Skygo.Cluster.Transparency
import Skygo.Semantics.Queue
import Skygo.Actor.Interleaving
import Skygo.Actor.Order
import Skygo.Timer.EngineSchedule
import Skygo.Timer.Promotion
import Skygo.Timer.AddFailure
import Skygo.Timer.Reschedule
import Skygo.Semantics.Serial
import Skygo.Timer.Contention
import Skygo.Transport.NodeLanes
import Skygo.Transport.Barriers
import Skygo.Transport.Responding
import Skygo.Transport.Oversized
import Skygo.Observe.CallGraph
