import Solweig.Lib.Dict
import Solweig.Lib.Fold
import Solweig.Lib.Table
import Solweig.Lib.Txn
import Solweig.Lib.Alike
import Solweig.Lib.Run
import Solweig.Lib.Threads
import Solweig.Lib.Intervals
import Solweig.Lib.Overlay
import Solweig.Lib.Closure
import Solweig.Lib.Tiling
import Solweig.Lib.Ordered
import Solweig.Lib.Chunks
import Solweig.Lib.Cut
import Solweig.Lib.Lru
import Solweig.Lib.Files
import Solweig.Json
import Solweig.Realtime.Types
import Solweig.Realtime.Payload
import Solweig.Realtime.Segments
import Solweig.Realtime.Reducer
import Solweig.Realtime.FoldState
import Solweig.Realtime.SharedField
import Solweig.Realtime.EpochBoundary
import Solweig.Realtime.FamilyView
import Solweig.Realtime.Presence
import Solweig.Realtime.Independence
import Solweig.Realtime.Interference
import Solweig.Realtime.Broadcast
import Solweig.Realtime.Roster
import Solweig.Realtime.LagNotices
import Solweig.Cuda.Residency
import Solweig.Cuda.Coherence
import Solweig.Cuda.Leases
import Solweig.Cuda.LeaseReads
import Solweig.Cuda.LeaseAtomicity
import Solweig.Bridge.Commands
import Solweig.Bridge.Landcover
import Solweig.Store.Tables
import Solweig.Store.Realtime
import Solweig.Store.OperationLog
import Solweig.Store.Commit
import Solweig.Store.LogRuns
import Solweig.Store.Scenarios
import Solweig.Store.Revisions
import Solweig.Epochs.Close
import Solweig.Epochs.Plane
import Solweig.Epochs.Assigned
import Solweig.Epochs.Interleaving
import Solweig.Epochs.Sound
import Solweig.Epochs.Chain
import Solweig.Epochs.Absorbing
import Solweig.Epochs.Order
import Solweig.Epochs.Refold
import Solweig.Jobs.Finalize
import Solweig.Jobs.Cancelled
import Solweig.Compose.SelectedTime
import Solweig.Compose.Composition
import Solweig.Compose.Layers
import Solweig.Compose.RequestCuts
import Solweig.Compose.StateCache
import Solweig.Planner.Windows
import Solweig.Planner.Deltas
import Solweig.Planner.Graph
import Solweig.Planner.Plan
import Solweig.Planner.Coverage
import Solweig.Incremental.Rectangles
import Solweig.Incremental.TemporalStore
import Solweig.Incremental.Provenance
import Solweig.Incremental.StoreRuns
import Solweig.Incremental.Indexed
import Solweig.Incremental.RestoreIndex
import Solweig.Incremental.Forcing
import Solweig.Incremental.LatestForcing
import Solweig.Checkpoints.ChunkCow
import Solweig.Checkpoints.CowSound
import Solweig.Lane.FastLane
import Solweig.Lane.Sound
import Solweig.Lane.FastExact
import Solweig.Lane.CanonicalFirst
import Solweig.Sparse.MarchInputs
import Solweig.Sparse.March
import Solweig.Sparse.SparseWork
import Solweig.Sparse.Soundness
import Solweig.Executor.Trees
import Solweig.Executor.TreeLog
import Solweig.Executor.Site
import Solweig.Executor.Worker
import Solweig.Executor.Execute
import Solweig.Executor.Atomicity
import Solweig.Executor.Supersession
import Solweig.Realtime.Admission
import Solweig.Lib.Decimal
import Solweig.Lib.Disk
import Solweig.Persist.RevisionNames
import Solweig.Persist.CheckpointStore
import Solweig.Persist.CheckpointFloor
import Solweig.Persist.OcclusionStore
import Solweig.Persist.OcclusionLoad
import Solweig.Persist.OcclusionRuns
import Solweig.Studio.RealtimeClient
import Solweig.Studio.Handover
import Solweig.Studio.CatchUp
import Solweig.Studio.NoLoss
import Solweig.Studio.SubmitAcks
import Solweig.Studio.AckFence
import Solweig.Lib.IntervalValues
import Solweig.Realtime.LastWriter
import Solweig.Realtime.RangeAudit
import Solweig.Realtime.Generations
import Solweig.Realtime.Totality
import Solweig.Realtime.Deltas
import Solweig.Bridge.UnfoldableFence
import Solweig.Realtime.AdmissionWindows
import Solweig.Lane.Reservations
import Solweig.Planner.SpatialPlan
import Solweig.Lib.KeyedWrites
import Solweig.Planner.NetEffect
import Solweig.Retention.Ledger
import Solweig.Retention.Replay
import Solweig.Runner.EditWindows
import Solweig.Runner.Debts
import Solweig.Runner.Retries
import Solweig.Bridge.Rebuild
import Solweig.Bridge.ReplayWindow
import Solweig.Bridge.StateFiles
import Solweig.Bridge.StateRuns
import Solweig.Lib.Clusters
import Solweig.Lib.Doubles
import Solweig.Jobs.ReadFraction
import Solweig.Executor.Coalescing
import Solweig.Sparse.Representations
import Solweig.Lib.Acyclic
import Solweig.Planner.Construction
import Solweig.Planner.SceneVersions
import Solweig.Sparse.WallHeight
import Solweig.Lib.Lanes
import Solweig.Bits.Windows
import Solweig.Bits.Codecs
import Solweig.Bits.Lanes
import Solweig.Bits.Simulation
import Solweig.Lib.Buckets
import Solweig.Lib.Rings
import Solweig.Spatial.Crowns
import Solweig.Executor.WindowPlanning
import Solweig.Executor.MassingFold
import Solweig.Executor.LogReplay
import Solweig.Executor.Restore
import Solweig.Executor.Pairing
import Solweig.Executor.Staging
import Solweig.Thermal.WarmAnchor
import Solweig.Sparse.SvfFold
import Solweig.Sparse.PatchExact
import Solweig.Spatial.Footprints
import Solweig.Spatial.Index
import Solweig.Patch.Codec
import Solweig.Patch.RoundTrip
import Solweig.Patch.Errors
import Solweig.Serve.Results
import Solweig.Serve.Payloads
import Solweig.Landcover.Coalescing
