import Mitiflow.Library.BigEndian
import Mitiflow.Library.BinarySearch
import Mitiflow.Library.BufferedPages
import Mitiflow.Library.Changes
import Mitiflow.Library.Chunks
import Mitiflow.Library.CursorFilter
import Mitiflow.Library.CursorOffer
import Mitiflow.Library.CursorPulls
import Mitiflow.Library.FencedRegisters
import Mitiflow.Library.FirstOfKey
import Mitiflow.Library.GroupLeaders
import Mitiflow.Library.GroupPlaces
import Mitiflow.Library.GuardedRun
import Mitiflow.Library.HandoverOrder
import Mitiflow.Library.LaneQueues
import Mitiflow.Library.LastMaximum
import Mitiflow.Library.LimitedScan
import Mitiflow.Library.ListedMap
import Mitiflow.Library.LogHandover
import Mitiflow.Library.OrderedMap
import Mitiflow.Library.RankedGroups
import Mitiflow.Library.ReadModifyWrite
import Mitiflow.Library.Reservations
import Mitiflow.Library.Schedules
import Mitiflow.Library.SequenceSet
import Mitiflow.Library.Text
import Mitiflow.Types
import Mitiflow.Attachment
import Mitiflow.StoreSequenceState
import Mitiflow.StoreBackend
import Mitiflow.StoreWatermark
import Mitiflow.StoreBatch
import Mitiflow.StoreReopen
import Mitiflow.StoreRetention
import Mitiflow.StoreWorkers
import Mitiflow.StoreShutdown
import Mitiflow.PublisherLifecycle
import Mitiflow.PublisherArchiving
import Mitiflow.Publisher
import Mitiflow.PublisherSequencing
import Mitiflow.StoreCompaction
import Mitiflow.KeyedCompaction
import Mitiflow.OffsetStore
import Mitiflow.OffsetRegisters
import Mitiflow.OffsetHistory
import Mitiflow.OffsetWorkers
import Mitiflow.StoreQuery
import Mitiflow.KeyExpressions
import Mitiflow.StoreQueryFilters
import Mitiflow.SelectorText
import Mitiflow.Replayer
import Mitiflow.ReplayLog
import Mitiflow.ReplayResume
import Mitiflow.ReplayIndex
import Mitiflow.QuerySemantics
import Mitiflow.PartitionStore
import Mitiflow.WorkerBatching
import Mitiflow.ReplayPaging
import Mitiflow.ReplicaRecovery
import Mitiflow.GapDetector
import Mitiflow.GapAccounting
import Mitiflow.CatchUpReader
import Mitiflow.CatchUpProgress
import Mitiflow.RemotePolls
import Mitiflow.WildcardPolls
import Mitiflow.ThenLive
import Mitiflow.ThenLiveOrder
import Mitiflow.Offload
import Mitiflow.OffloadDelivery
import Mitiflow.SampleCodec
import Mitiflow.Domains
import Mitiflow.GapRecovery
import Mitiflow.RecoverySoundness
import Mitiflow.RecoveryOutcome
import Mitiflow.Pipeline
import Mitiflow.PipelineLoss
import Mitiflow.EventIdDedup
import Mitiflow.MultiShard
import Mitiflow.HashRing
import Mitiflow.Placement
import Mitiflow.PlacementOrder
import Mitiflow.ReplicaSets
import Mitiflow.OverrideManager
import Mitiflow.OverrideEpochs
import Mitiflow.Reconciler
import Mitiflow.ReconcilerRuns
import Mitiflow.ReconcilerSettling
import Mitiflow.TopicWorker
import Mitiflow.WorkerConvergence
import Mitiflow.ClusterView
import Mitiflow.Drain
import Mitiflow.DrainPlacement
import Mitiflow.DrainHistory
import Mitiflow.ClusterLiveliness
import Mitiflow.TopicContracts
import Mitiflow.PartitionManager
import Mitiflow.MembershipAgreement
import Mitiflow.ConsumerGroup
import Mitiflow.GroupBookkeeping
import Mitiflow.ConsumerGroupDelivery
import Mitiflow.GroupGenerations
import Mitiflow.GroupFencing
import Mitiflow.LagMonitor
import Mitiflow.DeadLetter
