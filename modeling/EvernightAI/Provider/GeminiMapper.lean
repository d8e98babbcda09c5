import EvernightAI.Lib.KeyedFold
import EvernightAI.Provider.NativeContent

/-!
# The mapper of the Gemini provider

The content of a candidate is a list of parts. A response in one piece is mapped by
`fromGeminiResponse`. Of a stream, every chunk is mapped by `fromGeminiStreamChunk`, and
`GeminiStreamNormalizer` puts the parts of all chunks together, to map them once more when the stream
has ended. A message keeps its parts, which `messageParts` checks against its text and calls.

`hex` is the identifier drawn for a part whose response has none.
-/

namespace EvernightAI

/-! ### Parts -/

/-- `part.get("thought") is True` -/
def isThought (part : PyDict) : Bool :=
  match part.lookup "thought" with
  | some (.bool b) => b
  | _ => false

/-- The text of a part that is not a thought. -/
def partText (part : PyDict) : Option String := if isThought part then none else part.str? "text"

/-- `call.get("args", {})` -/
def functionArgs (functionCall : PyDict) : PyJson := (functionCall.lookup "args").getD (.dict [])

/-- The function call of a part, when it has a name. -/
def namedCall (part : PyDict) : Option PyDict :=
  (part.dict? "functionCall").bind fun functionCall =>
    if (functionCall.str? "name").getD "" = "" then none else some functionCall

/-- `_tool_call_from_gemini_part` -/
def toolCallFromGeminiPart (hex : ℕ → String) (part : PyDict) (responseId : Option String)
    (partIndex : ℕ) : Option NativeToolCall :=
  (namedCall part).map fun functionCall =>
    let callIdPrefix := if responseId.getD "" ≠ "" then responseId.getD "" else "gemini-" ++ hex partIndex
    let nativeId := (functionCall.str? "id").getD ""
    { toolCallId := if nativeId ≠ "" then nativeId
        else callIdPrefix ++ ":tool:0:" ++ toString partIndex
      name := (functionCall.str? "name").getD ""
      arguments := .dict ((functionArgs functionCall).dict?.getD []) }

/-- The text of some parts, from the objects among them. -/
def partsText (parts : List PyJson) : String :=
  String.join (parts.filterMap fun part => part.dict?.bind partText)

/-- The tool calls of some parts, from the objects among them. -/
def partsCalls (hex : ℕ → String) (responseId : Option String) : ℕ → List PyJson → List NativeToolCall
  | _, [] => []
  | index, part :: parts =>
    (part.dict?.bind (toolCallFromGeminiPart hex · responseId index)).toList ++
      partsCalls hex responseId (index + 1) parts

/-- The parts of a candidate. -/
def candidateParts (candidate : PyDict) : List PyJson :=
  ((candidate.dict? "content").bind (PyDict.list? · "parts")).getD []

/-! ### A response in one piece -/

/-- An error of `from_gemini_response`. -/
def geminiError {α : Type} (message : String) : Except Error α :=
  .error { errorType := .other "ProviderResponseError", message }

/-- `from_gemini_response` -/
def fromGeminiResponse (hex : ℕ → String) (response : PyDict) (modelId : String) :
    Except Error NativeResponse :=
  match (response.list? "candidates").getD [] with
  | [] => geminiError "Gemini response did not include candidates"
  | candidate :: _ =>
    match candidate.dict? with
    | none => geminiError "Gemini response candidate is invalid"
    | some candidate =>
      match PyDict.dict? candidate "content" with
      | none => geminiError "Gemini response candidate did not include content"
      | some content =>
        match ((List.lookup "parts" content).getD (.list [])).list? with
        | none => geminiError "Gemini response content parts are invalid"
        | some parts =>
          let toolCalls := partsCalls hex (response.str? "responseId") 0 parts
          if ¬(toolCalls.map (·.toolCallId)).Nodup then
            geminiError "Gemini returned a duplicate tool call id"
          else do
            let modelVersion := (response.lookup "modelVersion").getD .null
            let responseId ← optionalText (response.lookup "responseId")
            let version ← optionalText (if modelVersion.truthy then some modelVersion else none)
            let finishReason ← optionalText (candidate.lookup "finishReason")
            .ok {
              responseId, finishReason
              modelId := version.getD modelId
              message := .ofContent (partsText parts) toolCalls parts }

/-! ### A chunk of a stream -/

/-- What most events of a chunk say. -/
def chunkEvent (responseId modelId : Option String) (eventType : ChatStreamEventType) :
    NativeStreamEvent where
  eventType := eventType
  responseId := responseId
  modelId := modelId
  rawEvent := some "gemini.generate_content.chunk"

/-- `_gemini_tool_call_id` -/
def geminiToolCallId (py : PyJson.PythonText) (responseId : Option String) (candidateIndex : PyJson)
    (partIndex : ℕ) : String :=
  (if responseId.getD "" ≠ "" then responseId.getD "" else "gemini") ++ ":tool:" ++
    candidateIndex.toStr py ++ ":" ++ toString partIndex

/-- What is said of a part: the index of its candidate, and its own. -/
def partMetadata (candidateIndex : PyJson) (partIndex : ℕ) : PyDict :=
  [("candidate_index", candidateIndex), ("part_index", .int partIndex)]

section Chunk

variable (py : PyJson.PythonText) (responseId modelId : Option String) (candidateIndex : PyJson)

/-- `_gemini_function_call_event` -/
def geminiFunctionCallEvent (functionCall : PyDict) (partIndex : ℕ) : Option NativeStreamEvent :=
  let name := (functionCall.str? "name").getD ""
  if name = "" then none
  else (functionArgs functionCall).dict?.map fun args =>
    let nativeId := (functionCall.str? "id").getD ""
    let toolCallId := if nativeId ≠ "" then nativeId
      else geminiToolCallId py responseId candidateIndex partIndex
    { chunkEvent responseId modelId .toolCallCompleted with
      toolCallId := some toolCallId
      toolName := some name
      toolCall := some { toolCallId, name, arguments := .dict args }
      metadata := partMetadata candidateIndex partIndex }

/-- The events of a part. -/
def partEvents (partIndex : ℕ) (part : PyDict) : List NativeStreamEvent :=
  (if (partText part).getD "" ≠ "" then
    [{ chunkEvent responseId modelId .messageDelta with
        role := some .assistant
        textDelta := partText part
        metadata := partMetadata candidateIndex partIndex }]
  else []) ++
  ((part.dict? "functionCall").bind fun functionCall =>
    geminiFunctionCallEvent py responseId modelId candidateIndex functionCall partIndex).toList

/-- The loop over the parts of a candidate. -/
def partsEvents : ℕ → List PyJson → List NativeStreamEvent
  | _, [] => []
  | partIndex, part :: parts =>
    (part.dict?.map (partEvents py responseId modelId candidateIndex partIndex)).getD [] ++
      partsEvents (partIndex + 1) parts

/-- `_gemini_candidate_stream_events` -/
def geminiCandidateStreamEvents (candidate : PyDict) (partOffset : ℕ) : List NativeStreamEvent :=
  let candidateIndex := (candidate.lookup "index").getD (.int 0)
  let finishReason := (candidate.str? "finishReason").getD ""
  partsEvents py responseId modelId candidateIndex partOffset (candidateParts candidate) ++
    (if finishReason ≠ "" then
      [{ chunkEvent responseId modelId .messageCompleted with
          finishReason := some finishReason
          metadata := [("candidate_index", candidateIndex)] }]
    else [])

end Chunk

/-- The error of a chunk, or what blocked the prompt. -/
def chunkError (chunk : PyDict) : Option PyDict :=
  match chunk.dict? "error" with
  | some error => some error
  | none => (chunk.dict? "promptFeedback").bind fun feedback =>
      if ((feedback.lookup "blockReason").getD .null).truthy then some feedback else none

/-- `from_gemini_stream_chunk` -/
def fromGeminiStreamChunk (py : PyJson.PythonText) (chunk : PyDict) (partOffset : ℕ) :
    List NativeStreamEvent :=
  let responseId := chunk.str? "responseId"
  let modelId := chunk.str? "modelVersion"
  match chunkError chunk with
  | some error =>
    let value := fun key => (error.lookup key).getD .null
    [{ eventType := .error
       errorType := some (
         if (value "status").truthy then (value "status").toStr py
         else if (value "blockReason").truthy then (value "blockReason").toStr py
         else "gemini_error")
       errorMessage := some (
         if (value "message").truthy then (value "message").toStr py
         else "Gemini blocked the prompt") }]
  | none =>
    let usage := if (chunk.dict? "usageMetadata").isSome then [chunkEvent responseId modelId .usage] else []
    let events := usage ++ (((chunk.list? "candidates").getD []).filterMap PyJson.dict?).flatMap
      (geminiCandidateStreamEvents py responseId modelId · partOffset)
    if events.isEmpty then [chunkEvent responseId modelId .raw] else events

/-! ### The normalizer -/

structure GeminiStreamNormalizer where
  parts : List PyJson := []
  responseId : String
  modelId : Option String := none
  callIds : List String := []
  calls : List NativeToolCall := []
  finalCandidate : Option PyDict := none
  isComplete : Bool := false

namespace GeminiStreamNormalizer

variable (py : PyJson.PythonText) (normalizer : GeminiStreamNormalizer)

/-- The loop over the completed calls of a chunk. -/
def addCalls : GeminiStreamNormalizer → List NativeStreamEvent → Except Error GeminiStreamNormalizer
  | normalizer, [] => .ok normalizer
  | normalizer, event :: events =>
    if event.eventType = .toolCallCompleted then
      if event.toolCallId.any (· ∈ normalizer.callIds) then
        geminiError "Gemini returned a duplicate tool call id"
      else addCalls { normalizer with
        callIds := normalizer.callIds ++ event.toolCallId.toList
        calls := normalizer.calls ++ event.toolCall.toList } events
    else addCalls normalizer events

/-- The chunk that is mapped: it has the identifier of the response, and one candidate. -/
def normalized (chunk : PyDict) : PyDict :=
  let chunk' := KeyedFold.modify .null "responseId" (fun _ => .str normalizer.responseId) chunk
  match chunk.list? "candidates" with
  | some (candidate :: _) => KeyedFold.modify .null "candidates" (fun _ => .list [candidate]) chunk'
  | _ => chunk'

/-- The response and the model of a chunk. -/
def identified (chunk : PyDict) : GeminiStreamNormalizer :=
  { normalizer with
    responseId := (chunk.str? "responseId").getD normalizer.responseId
    modelId := (chunk.str? "modelVersion").or normalizer.modelId }

/-- The first candidate of a chunk. -/
def firstCandidate (chunk : PyDict) : Option PyDict :=
  ((chunk.list? "candidates").getD []).head?.bind PyJson.dict?

/-- The parts of a chunk, and whether it is the last one. -/
def addParts (chunk : PyDict) (events : List NativeStreamEvent) : GeminiStreamNormalizer :=
  match firstCandidate chunk with
  | none => normalizer
  | some candidate =>
    let completes := events.any (·.eventType = .messageCompleted)
    { normalizer with
      parts := normalizer.parts ++ candidateParts candidate
      finalCandidate := if completes then some candidate else normalizer.finalCandidate
      isComplete := completes || normalizer.isComplete }

/-- `map_chunk` -/
def mapChunk (chunk : PyDict) : Except Error (List NativeStreamEvent × GeminiStreamNormalizer) := do
  let normalizer := normalizer.identified chunk
  let events := fromGeminiStreamChunk py (normalizer.normalized chunk) normalizer.parts.length
  let normalizer ← normalizer.addCalls events
  .ok (events.filter (·.eventType ≠ .messageCompleted), normalizer.addParts chunk events)

/-- All chunks of a stream. -/
def mapChunks : GeminiStreamNormalizer → List PyDict →
    Except Error (List NativeStreamEvent × GeminiStreamNormalizer)
  | normalizer, [] => .ok ([], normalizer)
  | normalizer, chunk :: chunks => do
    let mapped ← normalizer.mapChunk py chunk
    let rest ← mapChunks mapped.2 chunks
    .ok (mapped.1 ++ rest.1, rest.2)

/-- `completed_event` -/
def completedEvent (hex : ℕ → String) : Except Error NativeStreamEvent :=
  match normalizer.finalCandidate with
  | none => geminiError "Gemini stream ended without finishReason"
  | some candidate => do
    let content := .dict [("parts", .list normalizer.parts)]
    let response ← fromGeminiResponse hex [
        ("responseId", .str normalizer.responseId),
        ("modelVersion", (normalizer.modelId.map .str).getD .null),
        ("candidates", .list [.dict (KeyedFold.modify .null "content" (fun _ => content) candidate)])]
      (if normalizer.modelId.getD "" ≠ "" then normalizer.modelId.getD "" else "gemini")
    .ok { chunkEvent (some normalizer.responseId) normalizer.modelId .messageCompleted with
      finishReason := response.finishReason
      message := some { response.message with
        toolCalls := if normalizer.calls.isEmpty then none else some normalizer.calls } }

end GeminiStreamNormalizer

/-! ### Sending a message back -/

/-- `native_ids_match`: an identifier of the provider is that of the call. -/
def nativeIdsMatch : List PyDict → List NativeToolCall → Bool
  | functionCall :: functionCalls, call :: calls =>
    let nativeId := (functionCall.str? "id").getD ""
    (nativeId = "" || nativeId = call.toolCallId) && nativeIdsMatch functionCalls calls
  | _, _ => true

/-- `{"name": …, "arguments": …}` of a call, with `==`. -/
structure FunctionCall where
  name : String
  arguments : PyJson

instance : BEq FunctionCall := ⟨fun a b => a.name == b.name && a.arguments == b.arguments⟩

/-- What a part calls. -/
def calledFunction (functionCall : PyDict) : FunctionCall where
  name := (functionCall.str? "name").getD ""
  arguments := .dict ((functionArgs functionCall).dict?.getD [])

/-- `call.tool_call` -/
def NativeToolCall.function (call : NativeToolCall) : FunctionCall := ⟨call.name, call.arguments⟩

/-- `_validate_preserved_parts` -/
def validatePreservedParts (message : NativeMessage) (parts : List PyJson) : Except Error Unit :=
  if parts.any (·.dict?.isNone) then
    .error {
      errorType := .other "ChatInputError"
      message := "Preserved Gemini content must contain objects" }
  else
    let functionCalls := parts.filterMap fun part => part.dict?.bind namedCall
    if partsText parts ≠ message.textContent ∨
        functionCalls.map calledFunction != message.calls.map (·.function) ∨
        ¬nativeIdsMatch functionCalls message.calls then
      .error {
        errorType := .other "ChatInputError"
        message := "Preserved Gemini content does not match the assistant message" }
    else .ok ()

/-- `_message_parts` of an assistant message that keeps its parts. -/
def messageParts (message : NativeMessage) : Except Error (List PyJson) := do
  validatePreservedParts message message.native
  .ok message.native

/-- `to_gemini_request` for assistant messages that keep their parts. -/
def toGeminiRequest (messages : List NativeMessage) : Except Error PyDict := do
  let contents ← messages.mapM fun message => do
    let parts ← messageParts message
    .ok (PyJson.dict [("role", .str "model"), ("parts", .list parts)])
  .ok [("contents", .list contents)]

end EvernightAI
