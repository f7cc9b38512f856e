import Fairy.Lib.Table
import Fairy.Lib.Run
import Fairy.Lib.Kahn
import Fairy.Workflow.Moves
import Fairy.Workflow.Plans
import Fairy.Workflow.Selection
import Fairy.Workflow.Calls
import Fairy.Workflow.Claiming
import Fairy.Workflow.Refinement
import Fairy.Workflow.Concurrency
import Fairy.Workflow.Agreement
import Fairy.Workflow.Fencing
import Fairy.Workflow.Isolation
import Fairy.Workflow.Losses
import Fairy.Workflow.AttemptBudget
import Fairy.Workflow.Pausing
import Fairy.Workflow.Absorption
import Fairy.Workflow.Orderly
import Fairy.Workflow.Progress
import Fairy.Workflow.Stranding
import Fairy.Workflow.Scheduler
import Fairy.Workflow.Reservation
import Fairy.Workflow.Enforcement
import Fairy.Workflow.Budget
import Fairy.Lib.Json
import Fairy.Sync.InMemory
import Fairy.Sync.Atomicity
import Fairy.Sync.Postgres
import Fairy.Lib.Register
import Fairy.Sync.Decisions
import Fairy.Sync.Promotions
import Fairy.Sync.Agreement
import Fairy.Sync.Replays
import Fairy.Sync.Idempotency
import Fairy.Commanding.Ledger
import Fairy.Commanding.Machine
import Fairy.Commanding.Effects
import Fairy.Commanding.Lifecycle
import Fairy.Lib.Paging
import Fairy.Sync.Feed
import Fairy.Sync.Delivery
import Fairy.Assistant.ScheduleModels
import Fairy.Assistant.ScheduleRepository
import Fairy.Assistant.ScheduleTrigger
import Fairy.Assistant.ScheduleEffects
import Fairy.Assistant.ScheduleChanges
import Fairy.Assistant.ScheduleAccounting
import Fairy.Lib.Zone
import Fairy.Assistant.NextInstant
import Fairy.Assistant.Forward
import Fairy.Lib.FileTree
import Fairy.Lib.UndoJournal
import Fairy.Workspace.FileTransaction
import Fairy.Workspace.Changesets
import Fairy.Workspace.Crashes
import Fairy.Workspace.Recovery
import Fairy.Lib.Base64
import Fairy.Lib.JsonReading
import Fairy.Lib.JsonRoundTrip
import Fairy.Workspace.StoredMutations
import Fairy.Workspace.MutationRoundTrip
import Fairy.Lib.Dict
import Fairy.Workspace.Approvals
import Fairy.Workspace.Truthfulness
import Fairy.Workspace.Quota
import Fairy.Workspace.Purge
import Fairy.Workspace.Purging
import Fairy.History.Models
import Fairy.History.Application
import Fairy.History.Effects
import Fairy.History.Trash
import Fairy.History.Lifecycle
import Fairy.History.Restoration
import Fairy.Memory.Models
import Fairy.Memory.Repository
import Fairy.Memory.Operations
import Fairy.Memory.Retention
import Fairy.Memory.Effects
import Fairy.Memory.Chain
import Fairy.Memory.Forgetting
import Fairy.Memory.PurgeProgress
import Fairy.Memory.Projection
import Fairy.Memory.Derivation
import Fairy.Memory.ProjectionEffects
import Fairy.Memory.ProjectionWorld
import Fairy.Snapshot.Candidates
import Fairy.Snapshot.Selection
import Fairy.Snapshot.Builder
import Fairy.Snapshot.Canonical
import Fairy.Snapshot.Privacy
import Fairy.Execution.Repository
import Fairy.Execution.World
import Fairy.Execution.Settlement
import Fairy.Lib.Chronicle
import Fairy.Outbox.Worker
import Fairy.Outbox.Delivery
import Fairy.Planning.Application
import Fairy.Planning.Ordering
import Fairy.Planning.Licences
import Fairy.Planning.Interleaving
import Fairy.Preview.Sessions
import Fairy.Preview.Store
import Fairy.Preview.Effects
import Fairy.Preview.Phases
import Fairy.Preview.Stopping
import Fairy.Knowledge.SyncRuns
import Fairy.Knowledge.SyncLifecycle
import Fairy.Realtime.Models
import Fairy.Realtime.WorkerEvents
import Fairy.Realtime.Coordinator
import Fairy.Realtime.Transitions
import Fairy.Realtime.Gate
import Fairy.Realtime.Failures
import Fairy.Realtime.Rollback
import Fairy.Lib.Url
import Fairy.CloudRuntime.Models
import Fairy.CloudRuntime.Leases
import Fairy.CloudRuntime.Repository
import Fairy.CloudRuntime.World
import Fairy.CloudRuntime.Effects
import Fairy.CloudRuntime.Fencing
import Fairy.CloudRuntime.Stopping
import Fairy.Presentation.EditRecipes
import Fairy.Presentation.RecipeStore
import Fairy.Presentation.RecipeMoves
import Fairy.Lib.Lineage
import Fairy.Lib.Batch
import Fairy.Presentation.Applying
import Fairy.Presentation.AppliedOnce
import Fairy.Realtime.Identity
import Fairy.Realtime.Epochs
import Fairy.Lib.Derivation
import Fairy.Commanding.Registry
import Fairy.Assistant.ParallelTools
import Fairy.Snapshot.Budget
import Fairy.Memory.Creation
import Fairy.Realtime.MediaReplay
import Fairy.Realtime.Hysteresis
import Fairy.Realtime.AudioSafety
import Fairy.Assistant.ProviderCost
import Fairy.Companion.Digests
import Fairy.Memory.Proposals
import Fairy.Snapshot.Conflicts
import Fairy.Knowledge.Mirror
import Fairy.Knowledge.Mirrored
import Fairy.Knowledge.MirrorRuns
import Fairy.Lib.Effect
import Fairy.Lib.PosixPath
import Fairy.Presentation.Packs
import Fairy.Presentation.Confinement
import Fairy.Assistant.EvidenceFields
import Fairy.Lib.UrlAuthority
import Fairy.Assistant.UrlStability
import Fairy.Assistant.PathStability
import Fairy.Lib.Words
import Fairy.Workflow.Acceptance
import Fairy.Assistant.Evidence
import Fairy.Assistant.EvidenceSurvival
import Fairy.Assistant.EvidenceRecords
import Fairy.Snapshot.Completion
import Fairy.OmniModel.Idle
import Fairy.OmniRuntime.Runs
import Fairy.Storage.Collections
import Fairy.Planning.Spending
