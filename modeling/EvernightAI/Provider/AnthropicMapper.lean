import EvernightAI.Lib.KeyedFold
import EvernightAI.Provider.NativeContent

/-!
# The mapper of the Anthropic provider

A message is a list of content blocks. In one piece it is mapped by `fromAnthropicResponse`; as a
stream, `AnthropicStreamNormalizer` opens, fills and closes the blocks by their index, and maps the
blocks it has built when the message stops. A message keeps its blocks, which `messageContent`
checks against its text and calls before they are sent back.

`loads` is `json.loads`, with `none` for a document it does not decode.
-/

namespace EvernightAI

/-! ### Content blocks -/

/-- The text of a block. -/
def blockText (block : PyDict) : Option String :=
  if block.str? "type" = some "text" then block.str? "text" else none

/-- `_tool_call_from_anthropic_content` -/
def toolCallFromAnthropicContent (part : PyDict) : Option NativeToolCall :=
  if part.str? "type" ≠ some "tool_use" then none
  else
    let toolCallId := (part.str? "id").getD ""
    let name := (part.str? "name").getD ""
    if toolCallId = "" then none
    else if name = "" then none
    else some { toolCallId, name, arguments := .dict ((part.dict? "input").getD []) }

/-- The text of some content, from its objects. -/
def contentText (content : List PyJson) : String :=
  String.join (content.filterMap fun part => part.dict?.bind blockText)

/-- The tool calls of some content. -/
def contentCalls (content : List PyJson) : List NativeToolCall :=
  content.filterMap fun part => part.dict?.bind toolCallFromAnthropicContent

/-- `from_anthropic_response` -/
def fromAnthropicResponse (response : PyDict) : Except Error NativeResponse :=
  match response.list? "content" with
  | none => .error {
      errorType := .other "ProviderResponseError"
      message := "Anthropic response did not include content" }
  | some content =>
    match response.str? "model" with
    | none => .error {
        errorType := .other "ProviderResponseError"
        message := "Anthropic response did not include model" }
    | some modelId => do
      let responseId ← optionalText (response.lookup "id")
      let finishReason ← optionalText (response.lookup "stop_reason")
      .ok {
        responseId, modelId, finishReason
        message := .ofContent (contentText content) (contentCalls content) content }

/-- `_validate_preserved_content` -/
def validatePreservedContent (message : NativeMessage) (content : List PyJson) :
    Except Error Unit :=
  if content.any (·.dict?.isNone) then
    .error {
      errorType := .other "ChatInputError"
      message := "Preserved Anthropic content must contain objects" }
  else if contentText content ≠ message.textContent ∨ contentCalls content != message.calls then
    .error {
      errorType := .other "ChatInputError"
      message := "Preserved Anthropic content does not match the assistant message" }
  else .ok ()

/-- `_message_content` of an assistant message that keeps its blocks. -/
def messageContent (message : NativeMessage) : Except Error (List PyJson) := do
  validatePreservedContent message message.native
  .ok message.native

/-! ### The normalizer -/

/-- What is known of a tool call whose block is open. -/
structure AnthropicCallState where
  id : String
  name : String
  arguments : String
  deriving DecidableEq, Repr

/-- `_tool_call_from_anthropic_state` -/
def toolCallFromAnthropicState (loads : String → Option PyJson) (callState : AnthropicCallState) :
    Option NativeToolCall :=
  if callState.id = "" then none
  else if callState.name = "" then none
  else
    let parsedArguments :=
      if callState.arguments = "" then some (.dict []) else loads callState.arguments
    (parsedArguments.bind PyJson.dict?).map fun arguments =>
      { toolCallId := callState.id, name := callState.name, arguments := .dict arguments }

structure AnthropicStreamNormalizer where
  responseId : Option String := none
  modelId : Option String := none
  toolCalls : List (Int × AnthropicCallState) := []
  blocks : List (Int × PyDict) := []
  openBlocks : List Int := []
  finishReason : Option String := none
  isComplete : Bool := false

/-- `event or data.get("type") or "anthropic.message.chunk"` -/
def AnthropicStreamNormalizer.rawEvent (event : Option String) (data : PyDict) : PyJson :=
  if event.getD "" ≠ "" then .str (event.getD "")
  else
    let type := (data.lookup "type").getD .null
    if type.truthy then type else .str "anthropic.message.chunk"

/-- `from_anthropic_stream_event` -/
def fromAnthropicStreamEvent (event : Option String) (data : PyDict) : NativeStreamEvent where
  eventType := .raw
  responseId := data.str? "id"
  rawEvent := (AnthropicStreamNormalizer.rawEvent event data).str?

/-- The field of a block that a delta adds to. -/
def deltaField (deltaType : Option String) : Option String :=
  if deltaType = some "text_delta" then some "text"
  else if deltaType = some "thinking_delta" then some "thinking"
  else if deltaType = some "signature_delta" then some "signature"
  else none

namespace AnthropicStreamNormalizer

/-- A result of `map_event`. -/
abbrev Mapped := Except Error (List NativeStreamEvent × AnthropicStreamNormalizer)

variable (loads : String → Option PyJson) (py : PyJson.PythonText)
  (normalizer : AnthropicStreamNormalizer) (raw : String) (data : PyDict)

/-- What most events of a stream say. -/
def event (eventType : ChatStreamEventType) : NativeStreamEvent where
  eventType := eventType
  responseId := normalizer.responseId
  modelId := normalizer.modelId
  rawEvent := some raw

/-- The usage of a message, when it has one. -/
def usageEvents (message : PyDict) : List NativeStreamEvent :=
  if (message.dict? "usage").isSome then [normalizer.event raw .usage] else []

/-- `_map_message_start` -/
def mapMessageStart : List NativeStreamEvent × AnthropicStreamNormalizer :=
  match data.dict? "message" with
  | none => ([fromAnthropicStreamEvent (some raw) data], normalizer)
  | some message =>
    let normalizer := { normalizer with
      responseId := message.str? "id", modelId := message.str? "model" }
    ({ normalizer.event raw .messageStart with role := some .assistant } ::
      normalizer.usageEvents raw message, normalizer)

/-- `_map_content_block_start` of a block under its index. -/
def openBlock (index : Int) (block : PyDict) : List NativeStreamEvent × AnthropicStreamNormalizer :=
  let normalizer := { normalizer with
    blocks := KeyedFold.modify [] index (fun _ => block) normalizer.blocks
    openBlocks := normalizer.openBlocks.insert index }
  if block.str? "type" ≠ some "tool_use" then
    let text := (blockText block).getD ""
    (if text ≠ "" then [{
        eventType := .messageDelta
        textDelta := some text
        responseId := normalizer.responseId
        modelId := normalizer.modelId }]
      else [], normalizer)
  else
    match block.str? "id", block.str? "name" with
    | some id, some name =>
      let initialInput := (block.dict? "input").getD []
      let arguments :=
        if initialInput.isEmpty then "" else PyJson.dumps py.reprFloat (.dict initialInput)
      ([{ normalizer.event raw .toolCallStart with
          toolCallId := some id
          toolName := some name
          metadata := [("content_block_index", .int index)] }],
        { normalizer with
          toolCalls := KeyedFold.modify ⟨"", "", ""⟩ index (fun _ => { id, name, arguments })
            normalizer.toolCalls })
    | _, _ => ([fromAnthropicStreamEvent (some raw) data], normalizer)

/-- `_map_content_block_start` -/
def mapContentBlockStart : List NativeStreamEvent × AnthropicStreamNormalizer :=
  match data.int? "index", data.dict? "content_block" with
  | some index, some block => normalizer.openBlock py raw data index block
  | _, _ => ([fromAnthropicStreamEvent (some raw) data], normalizer)

/-- `block[field] = str(block.get(field, "")) + value` -/
def addToField (field value : String) (block : PyDict) : PyDict :=
  KeyedFold.modify .null field
    (fun _ => .str (((block.lookup field).getD (.str "")).toStr py ++ value)) block

/-- The first half of `_map_content_block_delta`: a delta of a field of an opened block. -/
def fillBlock (delta : PyDict) : AnthropicStreamNormalizer :=
  match data.int? "index", deltaField (delta.str? "type") with
  | some index, some field =>
    match delta.str? field with
    | some value =>
      if (normalizer.blocks.lookup index).isSome then
        { normalizer with
          blocks := KeyedFold.modify [] index (addToField py field value) normalizer.blocks }
      else normalizer
    | none => normalizer
  | _, _ => normalizer

/-- The arguments of an opened tool call. -/
def addArguments (index : Int) (partialJson : String) :
    List NativeStreamEvent × AnthropicStreamNormalizer :=
  match normalizer.toolCalls.lookup index with
  | none => ([fromAnthropicStreamEvent (some raw) data], normalizer)
  | some callState =>
    let callState := { callState with arguments := callState.arguments ++ partialJson }
    ([{ normalizer.event raw .toolCallDelta with
        toolCallId := some callState.id
        toolName := some callState.name
        argumentsDelta := some partialJson
        metadata := [("content_block_index", .int index)] }],
      { normalizer with
        toolCalls := KeyedFold.modify callState index (fun _ => callState) normalizer.toolCalls })

/-- `_without_none({"content_block_index": index})` -/
def indexMetadata (data : PyDict) : PyDict :=
  match data.lookup "index" with
  | none | some .null => []
  | some index => [("content_block_index", index)]

/-- `_map_content_block_delta` -/
def mapContentBlockDelta : List NativeStreamEvent × AnthropicStreamNormalizer :=
  match data.dict? "delta" with
  | none => ([fromAnthropicStreamEvent (some raw) data], normalizer)
  | some delta =>
    let normalizer := normalizer.fillBlock py data delta
    if delta.str? "type" = some "text_delta" then
      let text := (delta.str? "text").getD ""
      (if text = "" then []
        else [{ normalizer.event raw .messageDelta with
            role := some .assistant, textDelta := some text, metadata := indexMetadata data }],
        normalizer)
    else if delta.str? "type" = some "input_json_delta" then
      match data.int? "index", delta.str? "partial_json" with
      | some index, some partialJson => normalizer.addArguments raw data index partialJson
      | _, _ => ([], normalizer)
    else ([fromAnthropicStreamEvent (some raw) data], normalizer)

/-- `_map_content_block_stop` -/
def mapContentBlockStop : Mapped :=
  match data.int? "index" with
  | none => .ok ([fromAnthropicStreamEvent (some raw) data], normalizer)
  | some index =>
    let callState := normalizer.toolCalls.lookup index
    let normalizer := { normalizer with
      openBlocks := normalizer.openBlocks.filter (· ≠ index)
      toolCalls := normalizer.toolCalls.filter (·.1 ≠ index) }
    match callState with
    | none => .ok ([], normalizer)
    | some callState =>
      match toolCallFromAnthropicState loads callState with
      | none => .error {
          errorType := .other "ProviderResponseError"
          message := "Anthropic tool call contains invalid arguments" }
      | some toolCall => .ok (
          [{ normalizer.event raw .toolCallCompleted with
            toolCallId := some toolCall.toolCallId
            toolName := some toolCall.name
            toolCall := some toolCall
            metadata := [("content_block_index", .int index)] }],
          { normalizer with
            blocks := KeyedFold.modify [] index
              (KeyedFold.modify .null "input" (fun _ => toolCall.arguments)) normalizer.blocks })

/-- `_map_message_delta` -/
def mapMessageDelta : List NativeStreamEvent × AnthropicStreamNormalizer :=
  let usage := normalizer.usageEvents raw data
  let finishReason := ((data.dict? "delta").bind (PyDict.str? · "stop_reason")).getD ""
  if finishReason ≠ "" then
    (usage ++ [{ normalizer.event raw .messageCompleted with finishReason := some finishReason }],
      { normalizer with finishReason := some finishReason })
  else (if usage.isEmpty then [fromAnthropicStreamEvent (some raw) data] else usage, normalizer)

/-- The branch of an error event. -/
def errorEvent : NativeStreamEvent :=
  let error := (data.dict? "error").getD []
  let text := fun (key default : String) =>
    let value := (error.lookup key).getD .null
    if value.truthy then value.toStr py else default
  { eventType := .error
    errorType := some (text "type" "anthropic_error")
    errorMessage := some (text "message" "Anthropic stream failed")
    rawEvent := some raw }

/-- The branch of `message_stop`. -/
def mapMessageStop : Mapped :=
  if normalizer.openBlocks ≠ [] ∨ normalizer.finishReason = none then
    .error {
      errorType := .other "ProviderResponseError"
      message := "Anthropic stream ended with incomplete content" }
  else do
    let response ← fromAnthropicResponse [
      ("id", (normalizer.responseId.map .str).getD .null),
      ("model", (normalizer.modelId.map .str).getD .null),
      ("content", .list (normalizer.blocks.map fun block => .dict block.2)),
      ("stop_reason", (normalizer.finishReason.map .str).getD .null)]
    .ok ([{ normalizer.event raw .messageCompleted with
        finishReason := normalizer.finishReason
        message := some response.message }],
      { normalizer with isComplete := true })

/-- `map_event` -/
def mapEvent (event : Option String) (data : PyDict) : Mapped :=
  match rawEvent event data with
  | .str raw =>
    if raw = "message_start" then .ok (normalizer.mapMessageStart raw data)
    else if raw = "content_block_start" then .ok (normalizer.mapContentBlockStart py raw data)
    else if raw = "content_block_delta" then .ok (normalizer.mapContentBlockDelta py raw data)
    else if raw = "content_block_stop" then normalizer.mapContentBlockStop loads raw data
    else if raw = "message_delta" then .ok (normalizer.mapMessageDelta raw data)
    else if raw = "error" ∨ data.str? "type" = some "error" then
      .ok ([errorEvent py raw data], normalizer)
    else if raw = "message_stop" then normalizer.mapMessageStop raw
    else .ok ([fromAnthropicStreamEvent event data], normalizer)
  | _ => .ok ([fromAnthropicStreamEvent event data], normalizer)

end AnthropicStreamNormalizer

end EvernightAI
