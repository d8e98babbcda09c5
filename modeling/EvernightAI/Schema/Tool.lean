import EvernightAI.Schema.Base

/-!
# Tool calls, approvals and results

The tool schemas shared by the providers' messages, the tool manager and the agent: what a model
may write into a call (`ToolCall`, with an `approval` and `metadata` of its own choosing), what a
tool declares about itself (`ToolDefinition`) and what a person decided (`ToolApprovalDecision`).
-/

namespace EvernightAI

inductive ToolPermission
  | read | write | process | network | filesystem | shell | database | externalApi | destructive
  deriving DecidableEq, Repr

inductive ToolSafetyLevel
  | safe | sensitive | restricted
  deriving DecidableEq, Repr

inductive ToolApprovalStatus
  | requested | approved | denied | expired
  deriving DecidableEq, Repr

inductive ToolApprovalMode
  | auto | required | never
  deriving DecidableEq, Repr

inductive ToolAccessMode
  | allow | ask | deny
  deriving DecidableEq, Repr

inductive ToolReplayPolicy
  | safe | idempotent | nonReplayable
  deriving DecidableEq, Repr

/-- A tool as it is registered. -/
structure ToolDefinition where
  name : String
  permissions : List ToolPermission := []
  safetyLevel : ToolSafetyLevel := .safe
  requiresApproval : Bool := false
  approvalMode : ToolApprovalMode := .auto
  replayPolicy : ToolReplayPolicy := .nonReplayable
  idempotencyKeyParameter : Option String := none
  metadata : Dict := []
  deriving DecidableEq, Repr

/-- A decision on one tool call. `toolRound = none` is a decision of the run request, made before
there were rounds. -/
structure ToolApprovalDecision where
  approvalId : String
  toolCallId : String
  status : ToolApprovalStatus
  toolRound : Option Nat := none
  reason : Option String := none
  metadata : Dict := []
  deriving DecidableEq, Repr

/-- A tool call as a provider response contains it: every field is the model's choice. -/
structure ToolCall where
  toolCallId : String
  toolCall : Dict
  approval : Option ToolApprovalDecision := none
  metadata : Dict := []
  deriving DecidableEq, Repr

structure ToolApprovalRequest where
  approvalId : String
  toolCallId : String
  toolName : String
  toolCall : Dict := []
  permissions : List ToolPermission := []
  safetyLevel : ToolSafetyLevel := .safe
  reason : Option String := none
  metadata : Dict := []
  deriving DecidableEq, Repr

structure ToolCallResult where
  toolCallId : String
  toolCallResult : Dict
  metadata : Dict := []
  deriving DecidableEq, Repr

/-- What the safety policy says about a call. -/
structure ToolSafetyDecision where
  allowed : Bool
  reason : Option String := none
  requiresApproval : Bool := false
  approvalRequest : Option ToolApprovalRequest := none
  metadata : Dict := []
  deriving DecidableEq, Repr

end EvernightAI
