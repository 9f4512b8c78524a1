import Determined.Schemes.Run
import Determined.Schemes.Drive
import Determined.Schemes.Loop
import Determined.Schemes.MaxMin
import Determined.Model.Length
import Determined.Model.Workload
import Determined.Searcher.Operations
import Determined.Searcher.ExperimentRuns
import Determined.Searcher.AsyncHalving
import Determined.Trial.Sequencer
import Determined.Trial.SequencerRuns
import Determined.Trial.SequencerProgress
import Determined.Coordinator.RWCoordinator
import Determined.Coordinator.Exclusion
import Determined.Scheduler.FairShare
import Determined.Scheduler.Limits
import Determined.Scheduler.ProgressiveFilling
import Determined.Searcher.AsyncHalvingRungs
import Determined.Searcher.SyncHalving
import Determined.Searcher.SyncHalvingRungs
import Determined.Searcher.SyncHalvingRuns
import Determined.Searcher.SyncHalvingCompletion
import Determined.Searcher.Tournament
import Determined.Searcher.Adaptive
import Determined.Searcher.AdaptiveBudget
import Determined.Schemes.Precedes
import Determined.Schemes.Actor
import Determined.Container.State
import Determined.Container.Reports
import Determined.Kubernetes.Pod
import Determined.Kubernetes.PodLife
import Determined.Agent.ContainerActor
import Determined.Agent.ContainerLife
import Determined.Kubernetes.RequestQueue
import Determined.Kubernetes.RequestDelivery
import Determined.Schemes.Greedy
import Determined.Pool.Task
import Determined.Pool.Agent
import Determined.Pool.Fitting
import Determined.Pool.Priority
import Determined.Pool.Placement
import Determined.Pool.PriorityOrder
import Determined.Pool.Preemption
import Determined.Pool.Schedulers
import Determined.Pool.ResourcePool
import Determined.Pool.Replay
import Determined.Pool.GroupCover
import Determined.Pool.AgentLoss
import Determined.Pool.KubernetesResourceManager
import Determined.Pool.KubernetesSlots
import Determined.Model.ExperimentState
import Determined.Experiment.ExperimentActor
import Determined.Experiment.Termination
import Determined.Schemes.Arena
import Determined.Actor.System
import Determined.Actor.Registry
import Determined.Schemes.Ranking
import Determined.Searcher.PromotionRules
import Determined.Scheduler.Termination
import Determined.Pool.Scaling
import Determined.Schemes.Fill
import Determined.Provisioner.ScaleDecider
import Determined.Provisioner.InstanceBounds
import Determined.Schemes.LexicalPath
import Determined.Model.StorageConfig
import Determined.Schemas.Subdir
import Determined.Model.SharedPaths
import Determined.Db.Checkpoints
import Determined.Db.CheckpointGC
import Determined.Schemes.Binary64
import Determined.Schemas.JSON
import Determined.Schemas.Extensions
import Determined.Schemas.Keywords
import Determined.Schemas.Validation
import Determined.Schemas.Agreement
import Determined.Model.Hyperparameters
import Determined.Searcher.Grid
import Determined.Searcher.GridSize
import Determined.Searcher.GridPoints
import Determined.Schemes.PositionSort
import Determined.Scheduler.DeadlockVictim
import Determined.Pool.FitSearch
import Determined.Trial.SequencerEffects
import Determined.Trial.SequencerBatches
import Determined.Trial.SequencerPeriods
import Determined.Trial.SequencerRollback
import Determined.Trial.SequencerStop
import Determined.Searcher.AsyncHalvingParallel
import Determined.Schemes.Generator
import Determined.Harness.Check
import Determined.Pytorch.Samplers
import Determined.Pytorch.LRScheduler
import Determined.Pytorch.GradientAggregation
import Determined.Pytorch.ValidationMetrics
import Determined.Keras.Sampler
import Determined.Keras.Enqueuer
import Determined.Keras.EnqueuerProgress
import Determined.Schemes.Ensures
import Determined.Searcher.Nprand
import Determined.Searcher.Exploration
import Determined.Keras.StatefulCallbacks
import Determined.Keras.CallbackResume
import Determined.Provisioner.SpotRequests
import Determined.Provisioner.SpotTracking
import Determined.Api.Pagination
import Determined.Command.Events
import Determined.Logger.LogBuffer
import Determined.Api.LogStore
import Determined.Lttb.Downsample
import Determined.Pool.IndexedTaskList
import Determined.Searcher.RungTables
import Determined.Actor.URL
import Determined.Actor.WrittenAddress
import Determined.Schemes.ShiftSequences
import Determined.Searcher.BoundedDraws
import Determined.Harness.Broadcast
import Determined.Harness.Lockstep
import Determined.Actor.Futures
import Determined.Actor.Listeners
import Determined.Actor.RegistryRuns
