import EvernightAI.Lib.PyJson
import EvernightAI.Provider.ResponsesMapper

/-!
# Messages that keep the content of their provider

The Anthropic and Gemini mappers keep the blocks or parts of a response, as the provider sent them,
in the metadata of the message, and send these back with the next request. The text and the tool
calls of the message are a second account of the same content.
-/

namespace EvernightAI

/-- A tool call of a message; `arguments` is any JSON value. -/
structure NativeToolCall where
  toolCallId : String
  name : String
  arguments : PyJson

/-- `==` of two calls -/
instance : BEq NativeToolCall :=
  ⟨fun a b => a.toolCallId == b.toolCallId && (a.name == b.name && a.arguments == b.arguments)⟩

instance : ReflBEq NativeToolCall where
  rfl := by
    intro call
    have harguments : (call.arguments == call.arguments) = true := PyJson.beq_iff.mpr rfl
    change (call.toolCallId == call.toolCallId &&
      (call.name == call.name && call.arguments == call.arguments)) = true
    rw [harguments, beq_self_eq_true, beq_self_eq_true]
    rfl

/-- An assistant message. `text` is the text of its only content part, `native` what it keeps of the
provider. -/
structure NativeMessage where
  text : Option String := none
  toolCalls : Option (List NativeToolCall) := none
  native : List PyJson

namespace NativeMessage

/-- The message a text and some calls are put in. -/
def ofContent (text : String) (toolCalls : List NativeToolCall) (native : List PyJson) :
    NativeMessage where
  text := if text ≠ "" then some text else none
  toolCalls := if toolCalls.isEmpty then none else some toolCalls
  native := native

/-- `_text_content` -/
def textContent (message : NativeMessage) : String := message.text.getD ""

/-- `message.tool_calls or []` -/
def calls (message : NativeMessage) : List NativeToolCall := message.toolCalls.getD []

variable {text : String} {toolCalls : List NativeToolCall} {native : List PyJson}

@[simp] theorem textContent_ofContent : (ofContent text toolCalls native).textContent = text := by
  by_cases h : text = ""
  · simp [ofContent, textContent, h]
  · simp [ofContent, textContent, h]

@[simp] theorem calls_ofContent : (ofContent text toolCalls native).calls = toolCalls := by
  cases toolCalls with
  | nil => rfl
  | cons call calls => rfl

@[simp] theorem native_ofContent : (ofContent text toolCalls native).native = native := rfl

end NativeMessage

/-- A response mapped to a message. -/
structure NativeResponse where
  responseId : Option String
  modelId : String
  message : NativeMessage
  finishReason : Option String

/-- A field of a response that is a text or missing. -/
def optionalText : Option PyJson → Except Error (Option String)
  | none | some .null => .ok none
  | some (.str s) => .ok (some s)
  | some _ => .error {
      errorType := .other "ValidationError"
      message := "Input should be a valid string" }

/-- An event of a stream. -/
structure NativeStreamEvent where
  eventType : ChatStreamEventType
  responseId : Option String := none
  modelId : Option String := none
  role : Option MessageRole := none
  textDelta : Option String := none
  toolCallId : Option String := none
  toolName : Option String := none
  argumentsDelta : Option String := none
  toolCall : Option NativeToolCall := none
  finishReason : Option String := none
  message : Option NativeMessage := none
  rawEvent : Option String := none
  errorType : Option String := none
  errorMessage : Option String := none
  metadata : PyDict := []

/-- The text that some events emit. -/
def deltaText (events : List NativeStreamEvent) : String :=
  String.join (events.map fun event => event.textDelta.getD "")

/-- The completed calls of some events. -/
def nativeCalls (events : List NativeStreamEvent) : List NativeToolCall :=
  events.filterMap fun event =>
    if event.eventType = .toolCallCompleted then event.toolCall else none

theorem deltaText_append (events more : List NativeStreamEvent) :
    deltaText (events ++ more) = deltaText events ++ deltaText more := by
  rw [deltaText, List.map_append, String.join_append]
  rfl

theorem nativeCalls_append (events more : List NativeStreamEvent) :
    nativeCalls (events ++ more) = nativeCalls events ++ nativeCalls more :=
  List.filterMap_append

end EvernightAI
