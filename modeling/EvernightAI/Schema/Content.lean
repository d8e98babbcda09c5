import EvernightAI.Schema.Tool

/-!
# Messages and provider responses
-/

namespace EvernightAI

inductive MessageRole
  | user | assistant | tool | system
  deriving DecidableEq, Repr

inductive MessageStatus
  | active | rejected | error
  deriving DecidableEq, Repr

inductive ContentPartType
  | text | image | video | audio | file | embed | link | table | code | functionCall
  deriving DecidableEq, Repr

structure ContentPart where
  type : ContentPartType
  text : Option String := none
  url : Option String := none
  data : Option String := none
  artifactId : Option String := none
  mimeType : Option String := none
  detail : Option String := none
  metadata : Dict := []
  deriving DecidableEq, Repr

/-- A message of a chat. -/
structure Content where
  role : MessageRole
  content : Option (List ContentPart) := none
  status : Option MessageStatus := none
  name : Option String := none
  toolCallId : Option String := none
  toolCalls : Option (List ToolCall) := none
  metadata : Dict := []
  deriving DecidableEq, Repr

/-- A completed provider response. -/
structure ChatResponse where
  responseId : Option String := none
  modelId : String
  message : Content
  finishReason : Option String := none
  metadata : Dict := []
  deriving DecidableEq, Repr

end EvernightAI
