import EvernightAI.Lib.KeyedFold
import EvernightAI.Provider.ResponsesMapper

/-!
# The mapper of the OpenAI-compatible chat provider

A chat completion is mapped in one piece by `fromOpenaiChatCompletion`, or as a stream of chunks by
`OpenAIChatStreamNormalizer`, which collects the fragments of every tool call under the index of the
call and completes the calls when the choice finishes. Usage is told apart only by its presence.
-/

namespace EvernightAI

/-! ### A completion in one piece -/

/-- A tool call of a completion. -/
structure OpenAIToolCall where
  id : String
  type : String := "function"
  name : String
  arguments : String
  deriving DecidableEq, Repr

structure ChatCompletionMessage where
  content : Option String := none
  toolCalls : Option (List OpenAIToolCall) := none
  refusal : Option String := none
  deriving DecidableEq, Repr

structure ChatCompletionChoice where
  index : Int := 0
  message : ChatCompletionMessage
  finishReason : String
  deriving DecidableEq, Repr

structure ChatCompletion where
  id : String
  model : String
  created : Int
  systemFingerprint : Option String := none
  choices : List ChatCompletionChoice
  deriving DecidableEq, Repr

/-- `from_openai_tool_call` -/
def fromOpenaiToolCall (loads : String → Option Value) (toolCall : OpenAIToolCall) :
    Except Error ToolCall :=
  if toolCall.type ≠ "function" then
    .error {
      errorType := .other "ProviderResponseError"
      message := "Unsupported OpenAI tool call type: " ++ toolCall.type }
  else
    .ok {
      toolCallId := toolCall.id
      toolCall := [("name", .str toolCall.name),
        ("arguments", parseJsonArguments loads toolCall.arguments)] }

/-- `from_openai_chat_completion` -/
def fromOpenaiChatCompletion (loads : String → Option Value) (response : ChatCompletion) :
    Except Error ChatResponse :=
  match response.choices with
  | [] => .error {
      errorType := .other "ProviderResponseError"
      message := "OpenAI response did not include choices" }
  | choice :: _ => do
    let toolCalls ← (choice.message.toolCalls.getD []).mapM (fromOpenaiToolCall loads)
    .ok {
      responseId := some response.id
      modelId := response.model
      message := {
        role := .assistant
        content := if choice.message.content.getD "" ≠ "" then
            some [{ type := .text, text := choice.message.content }] else none
        toolCalls := if toolCalls ≠ [] then some toolCalls else none }
      finishReason := some choice.finishReason
      metadata := [("created", .int response.created), ("choice_index", .int choice.index)] ++
        (if response.systemFingerprint.getD "" ≠ "" then
          [("system_fingerprint", .ofText response.systemFingerprint)] else []) ++
        (if choice.message.refusal.getD "" ≠ "" then
          [("refusal", .ofText choice.message.refusal)] else []) }

/-! ### Chunks -/

/-- A fragment of a tool call. -/
structure ToolCallDelta where
  index : Option ℕ
  id : Option String := none
  name : Option String := none
  arguments : Option String := none
  deriving DecidableEq, Repr

/-- What a chunk has of a choice. -/
structure ChoiceDelta where
  role : Option String := none
  content : Option String := none
  toolCalls : List ToolCallDelta := []
  finishReason : Option String := none
  deriving DecidableEq, Repr

structure ChatCompletionChunk where
  id : String
  model : String
  choices : List ChoiceDelta := []
  usage : Bool := false
  deriving DecidableEq, Repr

/-! ### The normalizer -/

/-- What is known of a call. -/
structure ChatCallState where
  id : Option String := none
  name : Option String := none
  arguments : String := ""
  deriving DecidableEq, Repr

/-- What a fragment adds; an empty text adds nothing. -/
def ChatCallState.merge (call : ChatCallState) (delta : ToolCallDelta) : ChatCallState where
  id := if delta.id.getD "" ≠ "" then delta.id else call.id
  name := if delta.name.getD "" ≠ "" then delta.name else call.name
  arguments := call.arguments ++ delta.arguments.getD ""

structure OpenAIChatStreamNormalizer where
  toolCalls : List (ℕ × ChatCallState) := []
  isComplete : Bool := false
  deriving DecidableEq, Repr

/-- `_TRUNCATING_FINISH_REASONS` -/
def truncatingFinishReasons : List String := ["length", "content_filter"]

/-- `_tool_call_from_stream_state` -/
def toolCallFromStreamState (loads : String → Option Value) (call : ChatCallState) : Option ToolCall :=
  if call.id.getD "" = "" then none
  else if call.name.getD "" = "" then none
  else some {
    toolCallId := call.id.getD ""
    toolCall := [("name", .str (call.name.getD "")),
      ("arguments", parseJsonArguments loads call.arguments)] }

namespace OpenAIChatStreamNormalizer

variable (loads : String → Option Value) (normalizer : OpenAIChatStreamNormalizer)
  (chunk : ChatCompletionChunk)

/-- What all events of a chunk say. -/
def event (eventType : ChatStreamEventType) : ChatStreamEvent where
  eventType := eventType
  responseId := some chunk.id
  modelId := some chunk.model
  rawEvent := some "chat.completion.chunk"

/-- The index of a fragment; one without an index belongs to a new call. -/
def indexOf (delta : ToolCallDelta) : ℕ := delta.index.getD normalizer.toolCalls.length

/-- `_map_tool_call_delta` -/
def mapToolCallDelta (delta : ToolCallDelta) : List ChatStreamEvent × OpenAIChatStreamNormalizer :=
  let index := normalizer.indexOf delta
  let toolCalls := KeyedFold.modify {} index (·.merge delta) normalizer.toolCalls
  let callState := (toolCalls.lookup index).getD {}
  ((if delta.id.getD "" ≠ "" ∨ delta.name.getD "" ≠ "" then
      [{ event chunk .toolCallStart with toolCallId := callState.id, toolName := callState.name }]
    else []) ++
    (if delta.arguments.getD "" ≠ "" then
      [{ event chunk .toolCallDelta with
          toolCallId := callState.id, toolName := callState.name
          argumentsDelta := delta.arguments }]
    else []),
    { normalizer with toolCalls })

/-- The loop over the fragments of a choice. -/
def mapToolCallDeltas : OpenAIChatStreamNormalizer → List ToolCallDelta →
    List ChatStreamEvent × OpenAIChatStreamNormalizer
  | normalizer, [] => ([], normalizer)
  | normalizer, delta :: deltas =>
    let mapped := normalizer.mapToolCallDelta chunk delta
    let rest := mapToolCallDeltas mapped.2 deltas
    (mapped.1 ++ rest.1, rest.2)

/-- `_completed_tool_call_events` -/
def completedToolCallEvents (finishReason : String) : List ChatStreamEvent :=
  (KeyedFold.sortedItems normalizer.toolCalls).filterMap fun item =>
    (toolCallFromStreamState loads item.2).map fun toolCall =>
      { event chunk .toolCallCompleted with
        toolCallId := some toolCall.toolCallId
        toolName := item.2.name
        toolCall := some toolCall
        finishReason := some finishReason }

/-- The end of `_map_choice`: a choice that finishes. -/
def finish (finishReason : String) : List ChatStreamEvent × OpenAIChatStreamNormalizer :=
  let truncated := finishReason ∈ truncatingFinishReasons
  let toolCallEvents := if truncated then [] else normalizer.completedToolCallEvents loads chunk finishReason
  let toolCalls := if truncated then normalizer.toolCalls else []
  (if toolCallEvents ≠ [] ∨ finishReason = "tool_calls" then toolCallEvents
    else [{ event chunk .messageCompleted with finishReason := some finishReason }],
    { toolCalls, isComplete := true })

/-- `_map_choice` -/
def mapChoice (choice : ChoiceDelta) : List ChatStreamEvent × OpenAIChatStreamNormalizer :=
  let started := if choice.role = some "assistant" then [event chunk .messageStart] else []
  let text := if choice.content.getD "" ≠ "" then
    [{ event chunk .messageDelta with textDelta := choice.content }] else []
  let mapped := normalizer.mapToolCallDeltas chunk choice.toolCalls
  if choice.finishReason.getD "" = "" then (started ++ text ++ mapped.1, mapped.2)
  else
    let finished := mapped.2.finish loads chunk (choice.finishReason.getD "")
    (started ++ text ++ mapped.1 ++ finished.1, finished.2)

/-- The loop over the choices of a chunk. -/
def mapChoices : OpenAIChatStreamNormalizer → List ChoiceDelta →
    List ChatStreamEvent × OpenAIChatStreamNormalizer
  | normalizer, [] => ([], normalizer)
  | normalizer, choice :: choices =>
    let mapped := normalizer.mapChoice loads chunk choice
    let rest := mapChoices mapped.2 choices
    (mapped.1 ++ rest.1, rest.2)

/-- `map_chunk` -/
def mapChunk : List ChatStreamEvent × OpenAIChatStreamNormalizer :=
  let mapped := mapChoices loads chunk normalizer chunk.choices
  let events := (if chunk.usage then [event chunk .usage] else []) ++ mapped.1
  (if events = [] then [event chunk .raw] else events, mapped.2)

/-- All chunks of a stream. -/
def mapChunks : OpenAIChatStreamNormalizer → List ChatCompletionChunk →
    List ChatStreamEvent × OpenAIChatStreamNormalizer
  | normalizer, [] => ([], normalizer)
  | normalizer, chunk :: chunks =>
    let mapped := normalizer.mapChunk loads chunk
    let rest := mapChunks mapped.2 chunks
    (mapped.1 ++ rest.1, rest.2)

end OpenAIChatStreamNormalizer

end EvernightAI
