import EvernightAI.Schema.Content
import Mathlib.Logic.Function.Basic

/-!
# The mapper of the OpenAI Responses provider

A response is mapped in one piece by `fromOpenaiResponse`, or as a stream of events by
`OpenAIResponsesStreamNormalizer`, which keeps the calls it has seen the beginning of, the items
whose call it has completed, and the text it has emitted of every part.

The events and items are those of the typed client, so a field that is required there is not
optional here. `loads` is the JSON parser of the call arguments.
-/

namespace EvernightAI

/-- The two kinds of text a part of a message can be. -/
inductive TextKind
  | outputText | refusal
  deriving DecidableEq, Repr

inductive ResponseContentPart
  | outputText (text : String)
  | refusal (refusal : String)
  | other (type : String)
  deriving DecidableEq, Repr

/-- The text of a part, and its kind. -/
def ResponseContentPart.text? : ResponseContentPart → Option (TextKind × String)
  | .outputText text => some (.outputText, text)
  | .refusal text => some (.refusal, text)
  | .other _ => none

structure ResponseFunctionToolCall where
  id : Option String := none
  callId : String
  name : String
  arguments : String
  deriving DecidableEq, Repr

inductive ResponseOutputItem
  | message (content : List ResponseContentPart)
  | functionCall (call : ResponseFunctionToolCall)
  | other (type : String)
  deriving DecidableEq, Repr

structure ResponseError where
  code : String
  message : String
  deriving DecidableEq, Repr

/-- A response of the provider; `errorJson` is the serialised `error`. -/
structure Response where
  id : String
  model : String
  status : Option String := none
  createdAt : Value := .none
  error : Option ResponseError := none
  errorJson : String := "null"
  incompleteDetails : Value := .none
  output : List ResponseOutputItem := []
  deriving DecidableEq, Repr

/-! ### A response in one piece -/

/-- `_parse_json_arguments` -/
def parseJsonArguments (loads : String → Option Value) (arguments : String) : Value :=
  (loads arguments).getD (.str arguments)

/-- `_tool_call_from_response_item`, and `_tool_call_from_response_mapping` of the same item. -/
def ResponseFunctionToolCall.toolCall? (loads : String → Option Value)
    (call : ResponseFunctionToolCall) : Option ToolCall :=
  if call.callId = "" then none
  else if call.name = "" then none
  else some {
    toolCallId := call.callId
    toolCall := [("name", .str call.name), ("arguments", parseJsonArguments loads call.arguments)] }

/-- The texts of one kind in an item. -/
def ResponseOutputItem.texts (kind : TextKind) : ResponseOutputItem → List String
  | .message content => content.filterMap fun part =>
      part.text?.bind fun text => if text.1 = kind then some text.2 else none
  | _ => []

/-- `_output_text` -/
def outputText (output : List ResponseOutputItem) : String :=
  String.join (output.flatMap (·.texts .outputText))

/-- `_output_refusal` -/
def outputRefusal (output : List ResponseOutputItem) : String :=
  String.join (output.flatMap (·.texts .refusal))

/-- `_output_tool_calls` -/
def outputToolCalls (loads : String → Option Value) (output : List ResponseOutputItem) :
    List ToolCall :=
  output.filterMap fun
    | .functionCall call => call.toolCall? loads
    | _ => none

/-- `from_openai_response` -/
def fromOpenaiResponse (loads : String → Option Value) (response : Response) :
    Except Error ChatResponse :=
  let text := if outputText response.output ≠ "" then outputText response.output
    else outputRefusal response.output
  let toolCalls := outputToolCalls loads response.output
  if text = "" ∧ toolCalls = [] ∧ response.error.isSome then
    .error {
      errorType := .other "ProviderResponseError"
      message := "OpenAI response failed before producing output"
      detail := some response.errorJson }
  else
    .ok {
      responseId := some response.id
      modelId := response.model
      message := {
        role := .assistant
        content := if text ≠ "" then some [{ type := .text, text := some text }] else none
        toolCalls := if toolCalls ≠ [] then some toolCalls else none }
      finishReason := response.status
      metadata := [("created_at", response.createdAt), ("object", .str "response"),
        ("status", .ofText response.status),
        ("error", if response.error.isSome then .other response.errorJson else .none),
        ("incomplete_details", response.incompleteDetails)] }

/-! ### Stream events -/

/-- The events of a stream, as far as they are told apart. -/
inductive ResponseStreamEvent
  | outputItemAdded (outputIndex : Nat) (item : ResponseOutputItem)
  | outputTextDelta (itemId : String) (outputIndex contentIndex : Nat) (delta : String)
  | outputTextDone (itemId : String) (outputIndex contentIndex : Nat) (text : String)
  | refusalDelta (itemId : String) (outputIndex contentIndex : Nat) (delta : String)
  | refusalDone (itemId : String) (outputIndex contentIndex : Nat) (refusal : String)
  | contentPartDone (itemId : String) (outputIndex contentIndex : Nat) (part : ResponseContentPart)
  | functionCallArgumentsDelta (itemId : String) (outputIndex : Nat) (delta : String)
  | functionCallArgumentsDone (itemId : String) (outputIndex : Nat) (name : Option String)
      (arguments : String)
  | outputItemDone (outputIndex : Nat) (item : ResponseOutputItem)
  | completed (response : Response)
  | incomplete (response : Response)
  | failed (response : Response)
  | error (code : Option String) (message : String)
  | other (type : String) (response : Option Response)
  deriving DecidableEq, Repr

namespace ResponseStreamEvent

def type : ResponseStreamEvent → String
  | .outputItemAdded .. => "response.output_item.added"
  | .outputTextDelta .. => "response.output_text.delta"
  | .outputTextDone .. => "response.output_text.done"
  | .refusalDelta .. => "response.refusal.delta"
  | .refusalDone .. => "response.refusal.done"
  | .contentPartDone .. => "response.content_part.done"
  | .functionCallArgumentsDelta .. => "response.function_call_arguments.delta"
  | .functionCallArgumentsDone .. => "response.function_call_arguments.done"
  | .outputItemDone .. => "response.output_item.done"
  | .completed _ => "response.completed"
  | .incomplete _ => "response.incomplete"
  | .failed _ => "response.failed"
  | .error .. => "error"
  | .other type _ => type

def response? : ResponseStreamEvent → Option Response
  | .completed response | .incomplete response | .failed response => some response
  | .other _ response => response
  | _ => none

/-- The first check of `map_events`. -/
def isError : ResponseStreamEvent → Bool
  | .failed _ | .error .. => true
  | event => event.response?.any (·.error.isSome)

end ResponseStreamEvent

inductive ChatStreamEventType
  | raw | messageStart | messageDelta | messageCompleted | toolCallStart | toolCallDelta
  | toolCallCompleted | usage | done | error
  deriving DecidableEq, Repr

/-- An event of a chat stream. `itemId`, `outputIndex` and `contentIndex` are its metadata. -/
structure ChatStreamEvent where
  eventType : ChatStreamEventType
  responseId : Option String := none
  modelId : Option String := none
  textDelta : Option String := none
  toolCallId : Option String := none
  toolName : Option String := none
  argumentsDelta : Option String := none
  toolCall : Option ToolCall := none
  finishReason : Option String := none
  rawEvent : Option String := none
  errorType : Option String := none
  errorMessage : Option String := none
  itemId : Option String := none
  outputIndex : Option Nat := none
  contentIndex : Option Nat := none
  deriving DecidableEq, Repr

/-! ### The normalizer -/

/-- What is known of a call by its item id. -/
structure FunctionCallState where
  callId : Option String := none
  name : Option String := none
  arguments : String := ""
  deriving DecidableEq, Repr

structure OpenAIResponsesStreamNormalizer where
  functionCalls : String → Option FunctionCallState := fun _ => none
  completedItemIds : List String := []
  textParts : Nat × Nat × TextKind → String := fun _ => ""

/-- Where a text belongs, and what its event says besides. -/
structure TextPayload where
  type : Option String := none
  itemId : Option String := none
  outputIndex : Nat
  contentIndex : Nat := 0

namespace OpenAIResponsesStreamNormalizer

variable (normalizer : OpenAIResponsesStreamNormalizer) (loads : String → Option Value)

/-- The end of `_map_text`: an empty text has no event. -/
def textEvent (payload : TextPayload) (delta : String) : Option ChatStreamEvent :=
  if delta = "" then none
  else some {
    eventType := .messageDelta, textDelta := some delta, rawEvent := payload.type
    itemId := payload.itemId, outputIndex := some payload.outputIndex
    contentIndex := some payload.contentIndex }

/-- `_map_text` -/
def mapText (payload : TextPayload) (text : String) (kind : TextKind) (final : Bool) :
    Except Error (Option ChatStreamEvent × OpenAIResponsesStreamNormalizer) :=
  let key := (payload.outputIndex, payload.contentIndex, kind)
  let previous := normalizer.textParts key
  if final && !previous.toList.isPrefixOf text.toList then
    .error {
      errorType := .other "ProviderResponseError"
      message := "OpenAI Responses final text does not match streamed text" }
  else
    let delta := if final then String.ofList (text.toList.drop previous.toList.length) else text
    let seen := if final then text else previous ++ delta
    .ok (textEvent payload delta,
      { normalizer with textParts := Function.update normalizer.textParts key seen })

/-- The loop of `_final_item_text`, from the part at an index. -/
def finalPartsText (payload : TextPayload) : OpenAIResponsesStreamNormalizer → Nat →
    List ResponseContentPart → Except Error (List ChatStreamEvent × OpenAIResponsesStreamNormalizer)
  | normalizer, _, [] => .ok ([], normalizer)
  | normalizer, index, part :: rest =>
    match part.text? with
    | none => finalPartsText payload normalizer (index + 1) rest
    | some (kind, text) => do
      let (mapped, normalizer) ←
        normalizer.mapText { payload with contentIndex := index } text kind true
      let (events, normalizer) ← finalPartsText payload normalizer (index + 1) rest
      .ok (mapped.toList ++ events, normalizer)

/-- `_final_item_text` -/
def finalItemText (item : ResponseOutputItem) (payload : TextPayload) :
    Except Error (List ChatStreamEvent × OpenAIResponsesStreamNormalizer) :=
  match item with
  | .message content => finalPartsText payload normalizer 0 content
  | _ => .ok ([], normalizer)

/-- `_map_error` -/
def mapError (event : ResponseStreamEvent) : ChatStreamEvent :=
  let (code, message) : Option String × Option String :=
    match event.response?.bind (·.error), event with
    | some error, _ => (some error.code, some error.message)
    | none, .error code message => (code, some message)
    | none, _ => (none, none)
  { eventType := .error
    responseId := event.response?.map (·.id)
    errorType := code
    errorMessage := some (if message.getD "" = "" then "OpenAI Responses stream failed"
      else message.getD "")
    rawEvent := some event.type }

/-- `_map_output_item_added` -/
def mapOutputItemAdded (outputIndex : Nat) (item : ResponseOutputItem) :
    Option ChatStreamEvent × OpenAIResponsesStreamNormalizer :=
  match item with
  | .functionCall call =>
    let opened := match call.id with
      | none => normalizer
      | some itemId => { normalizer with
          functionCalls := Function.update normalizer.functionCalls itemId (some {
            callId := some call.callId, name := some call.name, arguments := call.arguments }) }
    (some {
      eventType := .toolCallStart, toolCallId := some call.callId, toolName := some call.name
      rawEvent := some "response.output_item.added", itemId := call.id
      outputIndex := some outputIndex }, opened)
  | _ => (none, normalizer)

/-- `_map_function_arguments_delta` -/
def mapFunctionArgumentsDelta (itemId : String) (outputIndex : Nat) (delta : String) :
    Option ChatStreamEvent × OpenAIResponsesStreamNormalizer :=
  if delta = "" then (none, normalizer)
  else
    let callState := (normalizer.functionCalls itemId).getD {}
    (some {
      eventType := .toolCallDelta, toolCallId := callState.callId, toolName := callState.name
      argumentsDelta := some delta, rawEvent := some "response.function_call_arguments.delta"
      itemId := some itemId, outputIndex := some outputIndex },
      { normalizer with
        functionCalls := Function.update normalizer.functionCalls itemId
          (some { callState with arguments := callState.arguments ++ delta }) })

/-- `_tool_call_from_state` -/
def toolCallFromState (itemId : String) (callState : FunctionCallState) : Option ToolCall :=
  callState.name.map fun name => {
    toolCallId := if callState.callId.getD "" = "" then itemId else callState.callId.getD ""
    toolCall := [("name", .str name), ("arguments", parseJsonArguments loads callState.arguments)] }

/-- The state of a call whose arguments are done. -/
def argumentsDoneState (itemId : String) (name : Option String) (arguments : String) :
    FunctionCallState :=
  let known := (normalizer.functionCalls itemId).getD {}
  { callId := known.callId
    name := name.or known.name
    arguments := if arguments = "" then known.arguments else arguments }

/-- `_map_function_arguments_done` -/
def mapFunctionArgumentsDone (itemId : String) (outputIndex : Nat) (name : Option String)
    (arguments : String) : Option ChatStreamEvent × OpenAIResponsesStreamNormalizer :=
  let callState := normalizer.argumentsDoneState itemId name arguments
  let normalizer := { normalizer with
    functionCalls := Function.update normalizer.functionCalls itemId (some callState) }
  match toolCallFromState loads itemId callState with
  | none => (none, normalizer)
  | some toolCall =>
    (some {
      eventType := .toolCallCompleted, toolCallId := some toolCall.toolCallId
      toolName := callState.name, toolCall := some toolCall
      rawEvent := some "response.function_call_arguments.done", itemId := some itemId
      outputIndex := some outputIndex },
      -- the item may have been completed already
      { normalizer with completedItemIds := normalizer.completedItemIds.insert itemId })

/-- The id under which `_map_output_item_done` completes a call. -/
def itemKey (call : ResponseFunctionToolCall) : String :=
  if call.id.getD "" = "" then call.callId else call.id.getD ""

/-- `_map_output_item_done` -/
def mapOutputItemDone (type : String) (outputIndex : Nat) (item : ResponseOutputItem) :
    Option ChatStreamEvent × OpenAIResponsesStreamNormalizer :=
  match item with
  | .functionCall call =>
    if itemKey call ∈ normalizer.completedItemIds then (none, normalizer)
    else
      match call.toolCall? loads with
      | none => (none, normalizer)
      | some toolCall =>
        (some {
          eventType := .toolCallCompleted, toolCallId := some toolCall.toolCallId
          toolName := some call.name, toolCall := some toolCall, rawEvent := some type
          itemId := some (itemKey call), outputIndex := some outputIndex },
          { normalizer with
            completedItemIds := normalizer.completedItemIds.insert (itemKey call) })
  | _ => (none, normalizer)

/-- `_map_response_completed`; the usage is left out. -/
def mapResponseCompleted (type : String) (response : Response) : ChatStreamEvent where
  eventType := .messageCompleted
  responseId := some response.id
  modelId := some response.model
  finishReason := response.status
  rawEvent := some type

/-- The last case of `_map_payload`. -/
def rawEvent (event : ResponseStreamEvent) : ChatStreamEvent where
  eventType := .raw
  rawEvent := some event.type

/-- `_map_payload` -/
def mapPayload (event : ResponseStreamEvent) :
    Except Error (ChatStreamEvent × OpenAIResponsesStreamNormalizer) :=
  let orRaw (mapped : Option ChatStreamEvent × OpenAIResponsesStreamNormalizer) :
      ChatStreamEvent × OpenAIResponsesStreamNormalizer := (mapped.1.getD (rawEvent event), mapped.2)
  let text (itemId : String) (outputIndex contentIndex : Nat) (text : String) (kind : TextKind)
      (final : Bool) : Except Error (ChatStreamEvent × OpenAIResponsesStreamNormalizer) :=
    (normalizer.mapText { type := some event.type, itemId := some itemId, outputIndex, contentIndex }
      text kind final).map orRaw
  match event with
  | .failed _ | .error .. => .ok (mapError event, normalizer)
  | .contentPartDone itemId outputIndex contentIndex part =>
    match part.text? with
    | none => .ok (rawEvent event, normalizer)
    | some (kind, final) => text itemId outputIndex contentIndex final kind true
  | .outputTextDone itemId outputIndex contentIndex final =>
    text itemId outputIndex contentIndex final .outputText true
  | .refusalDone itemId outputIndex contentIndex final =>
    text itemId outputIndex contentIndex final .refusal true
  | .outputTextDelta itemId outputIndex contentIndex delta =>
    if delta = "" then .ok (rawEvent event, normalizer)
    else text itemId outputIndex contentIndex delta .outputText false
  | .refusalDelta itemId outputIndex contentIndex delta =>
    if delta = "" then .ok (rawEvent event, normalizer)
    else text itemId outputIndex contentIndex delta .refusal false
  | .outputItemAdded outputIndex item => .ok (orRaw (normalizer.mapOutputItemAdded outputIndex item))
  | .functionCallArgumentsDelta itemId outputIndex delta =>
    .ok (orRaw (normalizer.mapFunctionArgumentsDelta itemId outputIndex delta))
  | .functionCallArgumentsDone itemId outputIndex name arguments =>
    .ok (orRaw (normalizer.mapFunctionArgumentsDone loads itemId outputIndex name arguments))
  | .outputItemDone outputIndex item =>
    .ok (orRaw (normalizer.mapOutputItemDone loads event.type outputIndex item))
  | .completed response | .incomplete response =>
    .ok (mapResponseCompleted event.type response, normalizer)
  | .other .. => .ok (rawEvent event, normalizer)

/-- The loop of `map_events` over the output of a final response, from the item at an index. -/
def finalItems (type : String) : OpenAIResponsesStreamNormalizer → Nat → List ResponseOutputItem →
    Except Error (List ChatStreamEvent × OpenAIResponsesStreamNormalizer)
  | normalizer, _, [] => .ok ([], normalizer)
  | normalizer, index, item :: rest => do
    let (texts, normalizer) ← normalizer.finalItemText item { outputIndex := index }
    let (mapped, normalizer) := normalizer.mapOutputItemDone loads type index item
    let (events, normalizer) ← finalItems type normalizer (index + 1) rest
    .ok (texts ++ mapped.toList ++ events, normalizer)

/-- What `map_events` emits before the event itself. -/
def finalEvents (event : ResponseStreamEvent) :
    Except Error (List ChatStreamEvent × OpenAIResponsesStreamNormalizer) :=
  match event with
  | .outputItemDone outputIndex item =>
    normalizer.finalItemText item { type := some event.type, outputIndex }
  | .completed response | .incomplete response =>
    finalItems loads event.type normalizer 0 response.output
  | _ => .ok ([], normalizer)

/-- `map_events` -/
def mapEvents (event : ResponseStreamEvent) :
    Except Error (List ChatStreamEvent × OpenAIResponsesStreamNormalizer) :=
  if event.isError then .ok ([mapError event], normalizer)
  else do
    let (events, normalizer) ← normalizer.finalEvents loads event
    let (mapped, normalizer) ← normalizer.mapPayload loads event
    .ok (events ++ [mapped], normalizer)

/-- The events of a stream, mapped one after the other. -/
def mapStream (loads : String → Option Value) :
    OpenAIResponsesStreamNormalizer → List ResponseStreamEvent →
      Except Error (List ChatStreamEvent × OpenAIResponsesStreamNormalizer)
  | normalizer, [] => .ok ([], normalizer)
  | normalizer, event :: rest => do
    let (events, normalizer) ← normalizer.mapEvents loads event
    let (later, normalizer) ← mapStream loads normalizer rest
    .ok (events ++ later, normalizer)

variable {normalizer loads}

theorem mapEvents_of_not_isError {event : ResponseStreamEvent} (herror : event.isError = false) :
    normalizer.mapEvents loads event = (normalizer.finalEvents loads event >>= fun r =>
      r.2.mapPayload loads event >>= fun mapped => .ok (r.1 ++ [mapped.1], mapped.2)) := by
  rw [mapEvents, herror]
  rfl

/-- What is left of `map_events` when nothing comes before the event itself. -/
theorem mapEvents_of_finalEvents_nil {event : ResponseStreamEvent} (herror : event.isError = false)
    (hfinal : ∀ n : OpenAIResponsesStreamNormalizer, n.finalEvents loads event = .ok ([], n)) :
    normalizer.mapEvents loads event =
      (normalizer.mapPayload loads event).map fun mapped => ([mapped.1], mapped.2) := by
  rw [mapEvents_of_not_isError herror, hfinal]
  cases h : normalizer.mapPayload loads event with
  | error err => simp [bind, Except.bind, h, Except.map]
  | ok r => simp [bind, Except.bind, h, Except.map]

end OpenAIResponsesStreamNormalizer

end EvernightAI
