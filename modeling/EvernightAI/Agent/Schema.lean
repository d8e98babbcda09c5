import EvernightAI.Schema.Content

/-!
# Agent runs: requests, steps, trace events and snapshots

The records an agent run is made of. An `AgentRunState` is the snapshot of a run: it is kept in
memory while the run executes, and persisted as a whole. Trace events are identified by ids drawn
from one supply (`eventId`), and get their `sequence` when they are appended to the journal.
-/

namespace EvernightAI

inductive AgentStepType
  | start | chat | tool | toolError | memoryWrite | stop
  deriving DecidableEq, Repr

inductive AgentTraceEventType
  | runStarted | chatDelta | chatCompleted | toolApprovalRequested | toolApprovalDecided
  | toolStarted | toolCompleted | toolFailed | toolExecutionResolved | memoryWritten | runPaused
  | runStopped
  deriving DecidableEq, Repr

inductive AgentRunStatus
  | running | paused | canceled | finished | failed
  deriving DecidableEq, Repr

/-- The statuses a run is not meant to leave. -/
def AgentRunStatus.terminal : AgentRunStatus → Bool
  | .canceled | .finished | .failed => true
  | .running | .paused => false

inductive ToolExecutionStatus
  | scheduled | started | completed | failed | unknown
  deriving DecidableEq, Repr

inductive ToolExecutionResolution
  | confirmCompleted | retry | abandonAndRetryRun
  deriving DecidableEq, Repr

inductive AgentPauseCause
  | manual | timeout | shutdown | uncleanShutdown | leaseExpired
  deriving DecidableEq, Repr

/-- The name used in trace events, which record both shutdowns alike. -/
def AgentPauseCause.source : AgentPauseCause → String
  | .manual => "manual_pause"
  | .timeout => "timeout"
  | .shutdown | .uncleanShutdown => "shutdown"
  | .leaseExpired => "lease_expired"

inductive AgentStopReason
  | finished | toolRoundsExhausted | toolError
  deriving DecidableEq, Repr

def AgentStopReason.value : AgentStopReason → String
  | .finished => "finished"
  | .toolRoundsExhausted => "tool_rounds_exhausted"
  | .toolError => "tool_error"

def AgentTraceEventType.value : AgentTraceEventType → String
  | .runStarted => "run_started"
  | .chatDelta => "chat_delta"
  | .chatCompleted => "chat_completed"
  | .toolApprovalRequested => "tool_approval_requested"
  | .toolApprovalDecided => "tool_approval_decided"
  | .toolStarted => "tool_started"
  | .toolCompleted => "tool_completed"
  | .toolFailed => "tool_failed"
  | .toolExecutionResolved => "tool_execution_resolved"
  | .memoryWritten => "memory_written"
  | .runPaused => "run_paused"
  | .runStopped => "run_stopped"

/-- One attempt to execute a tool call, as the ledger stores it. -/
structure ToolExecutionAttempt where
  toolCallId : String
  attempt : Nat
  toolRound : Option Nat := none
  toolName : String
  status : ToolExecutionStatus
  replayPolicy : ToolReplayPolicy
  idempotencyKey : String
  toolCall : ToolCall
  result : Option ToolCallResult := none
  errorType : Option ErrorType := none
  errorMessage : Option String := none
  resolution : Option ToolExecutionResolution := none
  resolutionReason : Option String := none
  deriving DecidableEq, Repr

/-- A run stopped at a checkpoint: why, where, and whether it may continue. -/
structure AgentRunPause where
  cause : AgentPauseCause
  checkpoint : String
  resumable : Bool
  reason : Option String := none
  deriving DecidableEq, Repr

/-- A request for a running run to pause at its next checkpoint. -/
structure AgentPauseRequest where
  reason : Option String := none
  deriving DecidableEq, Repr

/-- The error that ended a run. -/
structure AgentRunFailure where
  errorType : ErrorType
  message : String
  deriving DecidableEq, Repr

/-- Where a run's messages sit in its context's history. -/
structure AgentRunHistory where
  startedAt : Option Int := none
  messageOffset : Option Nat := none
  messageIndices : Option (List Nat) := none
  deriving DecidableEq, Repr

structure AgentRunRequest where
  workingDirectory : Option String := none
  ownerId : Option String := none
  contextId : String
  modelId : String
  messages : List Content := []
  maxToolRounds : Nat := 1
  recoverToolErrors : Bool := true
  toolApprovals : List ToolApprovalDecision := []
  pauseOnApproval : Bool := false
  metadata : Dict := []
  deriving DecidableEq, Repr

structure AgentStep where
  stepType : AgentStepType
  traceEventId : Option Nat := none
  response : Option ChatResponse := none
  message : Option Content := none
  toolCall : Option ToolCall := none
  toolResult : Option ToolCallResult := none
  errorType : Option ErrorType := none
  errorMessage : Option String := none
  metadata : Dict := []
  deriving DecidableEq, Repr

structure AgentTraceEvent where
  eventType : AgentTraceEventType
  stepType : Option AgentStepType := none
  sequence : Option Nat := none
  eventId : Option Nat := none
  message : Option Content := none
  response : Option ChatResponse := none
  toolCall : Option ToolCall := none
  textDelta : Option String := none
  toolResult : Option ToolCallResult := none
  approvalRequest : Option ToolApprovalRequest := none
  approvalDecision : Option ToolApprovalDecision := none
  errorType : Option ErrorType := none
  errorMessage : Option String := none
  metadata : Dict := []
  deriving DecidableEq, Repr

/-- The snapshot of a run. -/
structure AgentRunState where
  runId : String
  ownerId : Option String := none
  request : AgentRunRequest
  status : AgentRunStatus := .running
  response : Option ChatResponse := none
  stopReason : Option AgentStopReason := none
  steps : List AgentStep := []
  trace : List AgentTraceEvent := []
  appliedTraceSequence : Option Nat := none
  remainingToolRounds : Nat := 0
  toolRoundsUsed : Int := 0
  pendingToolCalls : List ToolCall := []
  pendingApprovalRequests : List ToolApprovalRequest := []
  pause : Option AgentRunPause := none
  pauseRequest : Option AgentPauseRequest := none
  failure : Option AgentRunFailure := none
  cancelReason : Option String := none
  history : AgentRunHistory := {}
  deriving DecidableEq, Repr

/-- The tool calls of a message, `message.tool_calls or []`. -/
def Content.calls (message : Content) : List ToolCall := message.toolCalls.getD []

namespace AgentRunState

/-- `current_tool_round`: the 1-based model response whose tool calls the run is handling.

Providers may reuse tool_call_id values across responses, so tool executions, approvals and
completions are matched within one round. -/
def currentToolRound (state : AgentRunState) : Nat :=
  state.steps.countP (·.stepType = .chat)

/-- The steps after the last model response. -/
def currentRoundSteps (state : AgentRunState) : List AgentStep :=
  (state.steps.reverse.takeWhile (·.stepType ≠ .chat)).reverse

/-- `current_round_completed_tool_call_ids` -/
def currentRoundCompletedToolCallIds (state : AgentRunState) : List String :=
  state.currentRoundSteps.filterMap fun step =>
    if step.stepType = .tool ∨ step.stepType = .toolError then step.toolCall.map (·.toolCallId)
    else none

/-- `agent_run_can_resume` -/
def canResume (state : AgentRunState) : Bool :=
  match state.pause with
  | none => true
  | some pause => pause.resumable

end AgentRunState

inductive AgentResumeMode
  | approval | checkpoint
  deriving DecidableEq, Repr

/-- `agent_resume_mode`: a paused run continues from its checkpoint, or from its pending
approvals. -/
def agentResumeMode (state : AgentRunState) : AgentResumeMode :=
  match state.pause with
  | some pause => if pause.resumable then .checkpoint else .approval
  | none => .approval

end EvernightAI
