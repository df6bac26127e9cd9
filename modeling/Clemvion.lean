import Clemvion.AgentMemory.ExtractionRuns
import Clemvion.AgentMemory.StripMemoryBlocks
import Clemvion.Assistant.LeakedPlans
import Clemvion.Assistant.ShadowAtomicity
import Clemvion.Assistant.ShadowConsistency
import Clemvion.Auth.FamilyRuns
import Clemvion.ChatChannel.ConversationMapping
import Clemvion.Conversation.MessageCompaction
import Clemvion.Conversation.ThreadRenderer
import Clemvion.Conversation.ThreadRestore
import Clemvion.Editor.ContainerSync
import Clemvion.Egress.CredentialMasking
import Clemvion.Egress.LlmCallsIndependence
import Clemvion.Egress.MaskedResubmission
import Clemvion.Egress.SsrfSafeUrl
import Clemvion.Egress.TruncateOutput
import Clemvion.Engine.ContainerExecutors
import Clemvion.Engine.DispatchTermination
import Clemvion.Engine.ParallelContract
import Clemvion.Engine.ReachabilitySoundness
import Clemvion.Engine.RestoreLoss
import Clemvion.Engine.Resume
import Clemvion.Execution.Admission
import Clemvion.Execution.ResumeClaim
import Clemvion.Execution.TerminalEvents
import Clemvion.Expression.Equality
import Clemvion.Expression.Escaping
import Clemvion.Expression.ExpressionContext
import Clemvion.Expression.OptionalChaining
import Clemvion.Expression.RoundTrip
import Clemvion.ExternalInteraction.IdempotencyContract
import Clemvion.ExternalInteraction.SseContinuity
import Clemvion.ExternalInteraction.SseDecoding
import Clemvion.Folders.FolderTree
import Clemvion.Graph.CycleDetector
import Clemvion.Graph.CycleWarnings
import Clemvion.Graph.ParallelBranchMembership
import Clemvion.KnowledgeBase.ChunkCoverage
import Clemvion.KnowledgeBase.CsvChunker
import Clemvion.Library.FixedWindow
import Clemvion.LiveExecution.NodeResultIndex
import Clemvion.LiveExecution.OrphanToolItems
import Clemvion.LiveExecution.SnapshotMonotonicity
import Clemvion.NodeSummary.EvaluateWhen
import Clemvion.Nodes.ButtonNamespace
import Clemvion.Nodes.TransformHandler
import Clemvion.Redis.Challenges
import Clemvion.Redis.Claims
import Clemvion.Redis.Clients
import Clemvion.Redis.Commands
import Clemvion.Redis.Counters
import Clemvion.Redis.Limits
import Clemvion.Redis.LockOuts
import Clemvion.Redis.Scripts
import Clemvion.Redis.Services
import Clemvion.Triggers.EiaRuns
import Clemvion.Triggers.RawConfig
import Clemvion.Workflows.CanvasOk
import Clemvion.Workflows.CanvasRuns
import Clemvion.Workflows.CanvasVersions
import Clemvion.Workflows.Copies
import Clemvion.Workspaces.InvitationProtocol
import Clemvion.Workspaces.OwnershipRuns
