import EvernightAI.Agent.Approvals
import EvernightAI.Agent.ApprovedRuns
import EvernightAI.Agent.AtMostOnce
import EvernightAI.Agent.AttemptHistory
import EvernightAI.Agent.Checkpoint
import EvernightAI.Agent.Execution
import EvernightAI.Agent.ExecutionSteps
import EvernightAI.Agent.Executor
import EvernightAI.Agent.ExecutorCleanup
import EvernightAI.Agent.ExecutorRelay
import EvernightAI.Agent.JournalReplay
import EvernightAI.Agent.JournalRun
import EvernightAI.Agent.Lease
import EvernightAI.Agent.Ledger
import EvernightAI.Agent.Lifecycle
import EvernightAI.Agent.OperatorResolution
import EvernightAI.Agent.Recovery
import EvernightAI.Agent.Replay
import EvernightAI.Agent.ResumeRejection
import EvernightAI.Agent.RoundBudget
import EvernightAI.Agent.RunPolicy
import EvernightAI.Agent.RunRecord
import EvernightAI.Agent.Schema
import EvernightAI.Chat.ContextBudget
import EvernightAI.Chat.ContextOrganizer
import EvernightAI.Chat.ContextStrategy
import EvernightAI.Chat.ContextStream
import EvernightAI.Chat.CurrentTurn
import EvernightAI.Chat.ToolProtocol
import EvernightAI.Frontend.ChatMachine
import EvernightAI.Frontend.CodeLines
import EvernightAI.Frontend.History
import EvernightAI.Frontend.HistoryPartition
import EvernightAI.Frontend.MarkdownBlocks
import EvernightAI.Frontend.Reconcile
import EvernightAI.Frontend.Requests
import EvernightAI.Frontend.Rounds
import EvernightAI.Frontend.RoundsShown
import EvernightAI.Frontend.Snapshot
import EvernightAI.Frontend.SocketClient
import EvernightAI.Frontend.SocketRuns
import EvernightAI.Frontend.Transcript
import EvernightAI.Http.AuthDevice
import EvernightAI.Http.Connection
import EvernightAI.Image.Archive
import EvernightAI.Image.Attachments
import EvernightAI.Image.Bitmap
import EvernightAI.Image.Jpeg
import EvernightAI.Image.Png
import EvernightAI.Image.Task
import EvernightAI.Image.TaskQueue
import EvernightAI.Image.TaskSqlite
import EvernightAI.Image.TaskStores
import EvernightAI.Image.ToolCall
import EvernightAI.Image.ToolRuns
import EvernightAI.Image.WebP
import EvernightAI.Lib.BudgetedPass
import EvernightAI.Lib.DirectoryTree
import EvernightAI.Lib.FencingToken
import EvernightAI.Lib.GetoptLong
import EvernightAI.Lib.HostTree
import EvernightAI.Lib.Journal
import EvernightAI.Lib.JsonString
import EvernightAI.Lib.JsonText
import EvernightAI.Lib.KeyedFold
import EvernightAI.Lib.LineDecoder
import EvernightAI.Lib.MemoTable
import EvernightAI.Lib.OwnedTable
import EvernightAI.Lib.Pagination
import EvernightAI.Lib.PosixPath
import EvernightAI.Lib.PyJson
import EvernightAI.Lib.Reassembly
import EvernightAI.Lib.RecordScan
import EvernightAI.Lib.Savepoints
import EvernightAI.Lib.SpanMarkup
import EvernightAI.Lib.SplitText
import EvernightAI.Lib.StatefulProgram
import EvernightAI.Lib.Table
import EvernightAI.Lib.TextLines
import EvernightAI.Lib.TextReplace
import EvernightAI.Lib.TransitionSystem
import EvernightAI.Lib.UnifiedDiff
import EvernightAI.Lib.UtcTime
import EvernightAI.Lib.Utf8Decoder
import EvernightAI.Provider.AnthropicMapper
import EvernightAI.Provider.AnthropicStream
import EvernightAI.Provider.ChatMapper
import EvernightAI.Provider.ChatStream
import EvernightAI.Provider.GeminiMapper
import EvernightAI.Provider.GeminiRequest
import EvernightAI.Provider.GeminiStream
import EvernightAI.Provider.Manager
import EvernightAI.Provider.NativeContent
import EvernightAI.Provider.ResponsesCalls
import EvernightAI.Provider.ResponsesMapper
import EvernightAI.Provider.ResponsesStream
import EvernightAI.Provider.ResponsesText
import EvernightAI.Provider.SlotSafety
import EvernightAI.Provider.SseJson
import EvernightAI.Sandbox.Bubblewrap
import EvernightAI.Sandbox.Output
import EvernightAI.Sandbox.ProjectEnvironment
import EvernightAI.Sandbox.RuntimePolicy
import EvernightAI.Schema.Auth
import EvernightAI.Schema.Base
import EvernightAI.Schema.Content
import EvernightAI.Schema.Resource
import EvernightAI.Schema.Tool
import EvernightAI.Skill.Consistency
import EvernightAI.Skill.Manager
import EvernightAI.Skill.Restart
import EvernightAI.Skill.RunRevisions
import EvernightAI.Skill.Schema
import EvernightAI.Skill.Template
import EvernightAI.Skill.TemplateHistory
import EvernightAI.Skill.TrackedRun
import EvernightAI.Store.Authorized
import EvernightAI.Store.ContextWriters
import EvernightAI.Store.Isolation
import EvernightAI.Store.MemoryGovernance
import EvernightAI.Store.MemoryListing
import EvernightAI.Store.MemoryPages
import EvernightAI.Store.MemorySelection
import EvernightAI.Store.MemoryStrategy
import EvernightAI.Store.Migration
import EvernightAI.Store.Register
import EvernightAI.Store.ScopedAccess
import EvernightAI.Store.TraceRegister
import EvernightAI.Store.Transaction
import EvernightAI.Stream.ServerSentEvents
import EvernightAI.Tool.Catalog
import EvernightAI.Tool.DataTenants
import EvernightAI.Tool.FindEffect
import EvernightAI.Tool.HeredocSoundness
import EvernightAI.Tool.Manager
import EvernightAI.Tool.McpRuns
import EvernightAI.Tool.McpSource
import EvernightAI.Tool.MoveCopy
import EvernightAI.Tool.OptionGrammar
import EvernightAI.Tool.PolicyMonotone
import EvernightAI.Tool.Register
import EvernightAI.Tool.RestrictedGit
import EvernightAI.Tool.RestrictedShell
import EvernightAI.Tool.RuntimeData
import EvernightAI.Tool.SessionSoundness
import EvernightAI.Tool.ShellApproval
import EvernightAI.Tool.ShellLexis
import EvernightAI.Tool.ShellOutput
import EvernightAI.Tool.ShellPolicy
import EvernightAI.Tool.ShellScanners
import EvernightAI.Tool.ShellSession
import EvernightAI.Tool.ShellSpecs
import EvernightAI.Tool.ShellSyntax
import EvernightAI.Tool.ShellText
import EvernightAI.Tool.TextPatch
