import AI2Apps.Lib.TextOrder
import AI2Apps.Lib.Calendar
import AI2Apps.Lib.Json
import AI2Apps.Lib.ReplayCache
import AI2Apps.Core.Clock
import AI2Apps.Peer.Grants
import AI2Apps.Peer.Repository
import AI2Apps.Peer.SingleUse
import AI2Apps.Lib.Faults
import AI2Apps.Peer.Transports
import AI2Apps.Peer.Dispatch
import AI2Apps.ModelSharing.Manifests
import AI2Apps.ModelSharing.Jobs
import AI2Apps.ModelSharing.Provider
import AI2Apps.ModelSharing.Protocol
import AI2Apps.ModelSharing.Requester
import AI2Apps.ModelSharing.EventOrder
import AI2Apps.ModelSharing.DecoderSteps
import AI2Apps.ModelSharing.Receipts
import AI2Apps.ModelSharing.Framing
import AI2Apps.ModelSharing.Chunking
import AI2Apps.ModelSharing.Emission
import AI2Apps.ModelSharing.Acceptance
import AI2Apps.ModelSharing.Delivery
import AI2Apps.ModelSharing.ProviderJobs
import AI2Apps.ModelSharing.RequesterJobs
import AI2Apps.ModelSharing.JobClosure
import AI2Apps.Lib.Utf8
import AI2Apps.Lib.Base64Url
import AI2Apps.Lib.JsonRoundTrip
import AI2Apps.Lib.JsonText
import AI2Apps.Lib.JsonSchema
import AI2Apps.Lib.Tables
import AI2Apps.Lib.Glob
import AI2Apps.Lib.ChangeLog
import AI2Apps.Lib.Objects
import AI2Apps.Lib.Dict
import AI2Apps.Agents.Records
import AI2Apps.Agents.Repository
import AI2Apps.Agents.Interactions
import AI2Apps.Agents.TerminalRuns
import AI2Apps.Capabilities.Risk
import AI2Apps.Capabilities.Leases
import AI2Apps.Capabilities.Consent
import AI2Apps.Knowledge.Store
import AI2Apps.Knowledge.Indexer
import AI2Apps.Knowledge.Changes
import AI2Apps.Knowledge.VectorBatches
import AI2Apps.Knowledge.Convergence
import AI2Apps.Knowledge.ImportJobs
import AI2Apps.Knowledge.ImportRuns
import AI2Apps.Knowledge.ImportCounts
import AI2Apps.Knowledge.ImportInvariant
import AI2Apps.Knowledge.ImportSteps
import AI2Apps.Knowledge.ImportRecovery
import AI2Apps.AppUpdate.Transaction
import AI2Apps.AppUpdate.Operations
import AI2Apps.Lib.Programs
import AI2Apps.AppUpdate.CrashSafety
import AI2Apps.AppUpdate.Histories
import AI2Apps.LocalSupervisor.Sections
import AI2Apps.LocalSupervisor.Ownership
import AI2Apps.LocalSupervisor.Steps
import AI2Apps.LocalSupervisor.Lifecycle
import AI2Apps.Knowledge.Search
import AI2Apps.Knowledge.HybridSearch
import AI2Apps.Knowledge.SearchAuthority
import AI2Apps.Knowledge.SearchViews
import AI2Apps.Lib.TaskTable
import AI2Apps.Processes.Repository
import AI2Apps.Processes.Manager
import AI2Apps.Processes.Lifecycle
import AI2Apps.Processes.Steps
import AI2Apps.Processes.Waiting
import AI2Apps.Processes.Spawning
import AI2Apps.Processes.Settling
import AI2Apps.Agents.RunMoves
import AI2Apps.Agents.Walks
import AI2Apps.Agents.Trees
import AI2Apps.Agents.TreeCommands
import AI2Apps.Agents.PausedTrees
import AI2Apps.Agents.Deadlines
import AI2Apps.Agents.Creations
import AI2Apps.Agents.Retries
import AI2Apps.AgentBuilder.Expressions
import AI2Apps.AgentBuilder.Evaluation
import AI2Apps.AgentBuilder.LocalSteps
import AI2Apps.AgentBuilder.Health
import AI2Apps.AgentBuilder.HealthAccount
import AI2Apps.AgentBuilder.Compiler
import AI2Apps.AgentBuilder.CompiledAgents
import AI2Apps.AgentBuilder.Repairs
import AI2Apps.AgentBuilder.RepairAuthority
import AI2Apps.Omlx.Thinking
import AI2Apps.Lib.LinkedQueue
import AI2Apps.Omlx.PagedCache
import AI2Apps.Omlx.PagedCacheMoves
import AI2Apps.Omlx.PagedCacheRuns
import AI2Apps.Omlx.Capacity
import AI2Apps.Omlx.StaleHashes
import AI2Apps.Omlx.ExactPrefix
import AI2Apps.Omlx.ExactPrefixWalk
import AI2Apps.Lib.Streams
import AI2Apps.Peer.DirectRecords
import AI2Apps.Peer.DirectQuic
import AI2Apps.Peer.DirectBodies
import AI2Apps.Peer.DirectHellos
import AI2Apps.Peer.DirectRequests
import AI2Apps.Peer.DirectResponses
import AI2Apps.Peer.DirectRoundTrip
import AI2Apps.Packages.Archive
import AI2Apps.Packages.Installed
import AI2Apps.Packages.ArchiveIndex
import AI2Apps.Packages.Extraction
import AI2Apps.Packages.Coverage
import AI2Apps.Lib.StableSort
import AI2Apps.Lib.DepthFirst
import AI2Apps.Packages.Resolver
import AI2Apps.Packages.ResolverWalk
import AI2Apps.Packages.ResolverChoices
import AI2Apps.Packages.Resolution
import AI2Apps.Extensions.Patching
import AI2Apps.Extensions.Composition
import AI2Apps.Lib.Regions
import AI2Apps.Checkpoints.Manifests
import AI2Apps.Checkpoints.Pieces
import AI2Apps.Checkpoints.PieceFiles
import AI2Apps.Lib.Choices
import AI2Apps.Checkpoints.Downloads
import AI2Apps.Lib.Ledgers
import AI2Apps.AppDevelopment.Budget
import AI2Apps.Lib.TextReplace
import AI2Apps.AppDevelopment.Drafts
import AI2Apps.AppDevelopment.DraftWindows
import AI2Apps.Lib.Zones
import AI2Apps.Todo.Schedules
import AI2Apps.Todo.DueTimes
import AI2Apps.Lib.JsonDocs
import AI2Apps.Lib.JsonObjects
import AI2Apps.Omlx.ExtractThinking
import AI2Apps.Fusion.Decisions
import AI2Apps.Fusion.DecisionTexts
import AI2Apps.Fusion.Tooling
import AI2Apps.Fusion.Turns
import AI2Apps.Fusion.Courses
import AI2Apps.Omlx.ThinkingBudget
import AI2Apps.Omlx.BudgetLaw
import AI2Apps.Lib.Provenance
import AI2Apps.Secrets.Redaction
import AI2Apps.Secrets.RedactionLaw
import AI2Apps.Fusion.FailClosed
import AI2Apps.Sharing.Manager
import AI2Apps.Sharing.Calls
import AI2Apps.Sharing.Limits
import AI2Apps.Sharing.Exposure
import AI2Apps.Lib.Cursors
import AI2Apps.Events.Stream
import AI2Apps.Events.Delivery
import AI2Apps.Workers.Resources
import AI2Apps.Workers.Scheduler
import AI2Apps.Workers.Moves
import AI2Apps.Workers.Limits
import AI2Apps.Workers.Leases
import AI2Apps.Workers.Dispatch
import AI2Apps.Lib.MergeSlot
import AI2Apps.Omlx.OutputCollector
import AI2Apps.Omlx.OutputStream
import AI2Apps.Context.Canonical
import AI2Apps.Lib.Pending
import AI2Apps.Context.Engine
import AI2Apps.Context.Projections
import AI2Apps.Context.SessionMemory
import AI2Apps.Context.Pairing
import AI2Apps.Context.Replay
import AI2Apps.Context.Derived
import AI2Apps.Context.Selection
import AI2Apps.Context.Journal
import AI2Apps.Context.Surfaces
import AI2Apps.Context.Operations
import AI2Apps.Context.Memory
