import EvernightAI.Provider.GeminiMapper

/-!
# The request of the Gemini provider

`toGeminiRequest` writes the messages of a chat as `contents`. A response to a function call carries
the name the call has in the preceding content, which a table of the calls seen so far finds by
identifier, and the responses to the calls of one message are put together in one content.

A `Protocol` history answers every call of an assistant message right after it, and only there.

* `Mapped` : what the contents of such a history are, call by call.
* `mapped_of_toGeminiRequest` : a request that is made has these contents.

`validBase64` is what `base64.b64decode` accepts.
-/

namespace EvernightAI.GeminiRequest

/-! ### Messages -/

structure ToolCall where
  toolCallId : String
  toolCall : PyDict

/-- A message, with its metadata as JSON. -/
structure Message where
  role : MessageRole
  content : Option (List ContentPart) := none
  name : Option String := none
  toolCallId : Option String := none
  toolCalls : Option (List ToolCall) := none
  metadata : PyDict := []

/-- `message.tool_calls or []` -/
def Message.calls (message : Message) : List ToolCall := message.toolCalls.getD []

/-- `str(role)` -/
def roleText : MessageRole → String
  | .user => "user"
  | .assistant => "assistant"
  | .tool => "tool"
  | .system => "system"

/-- `str(type)` -/
def typeText : ContentPartType → String
  | .text => "text"
  | .image => "image"
  | .video => "video"
  | .audio => "audio"
  | .file => "file"
  | .embed => "embed"
  | .link => "link"
  | .table => "table"
  | .code => "code"
  | .functionCall => "function_call"

def chatInputError {α : Type} (message : String) : Except Error α :=
  .error { errorType := .other "ChatInputError", message }

/-- The text of a part that must have one. -/
def requiredText (part : ContentPart) : Except Error String :=
  match part.text with
  | none => chatInputError "Text content part requires text"
  | some text => .ok text

/-- `_text_content` -/
def textContent (message : Message) : Except Error String :=
  let parts := message.content.getD []
  if parts.any (·.type ≠ .text) then
    chatInputError (roleText message.role ++ " message only supports text content")
  else (parts.mapM requiredText).map String.join

/-! ### Images -/

/-- A character of `[a-zA-Z0-9.+-]`. -/
def isSubtypeChar (c : Char) : Bool := c.isAlphanum || c = '.' || c = '+' || c = '-'

/-- The mime type and the data of a text that `_DATA_URI_PATTERN` matches. -/
def dataUri? (text : String) : Option (String × String) :=
  if "data:image/".toList.isPrefixOf text.toList then
    let rest := text.toList.drop "data:image/".length
    let subtype := rest.takeWhile isSubtypeChar
    let tail := rest.dropWhile isSubtypeChar
    let data := tail.drop ";base64,".length
    if subtype ≠ [] ∧ ";base64,".toList.isPrefixOf tail ∧ data ≠ [] then
      some ("image/" ++ String.ofList subtype, String.ofList data)
    else none
  else none

/-- `validate_image_source` -/
def validateImageSource (part : ContentPart) : Except Error Unit :=
  if part.url.getD "" ≠ "" ∧ part.data.getD "" ≠ "" then
    chatInputError "Image content part must use either url or data, not both"
  else if part.url.getD "" = "" ∧ part.data.getD "" = "" then
    chatInputError "Image content part requires url or data"
  else .ok ()

/-- `_validate_base64` -/
def validateBase64 (validBase64 : String → Bool) (data : String) : Except Error Unit :=
  if validBase64 data then .ok ()
  else chatInputError "Image content part data must be valid base64"

/-- `inline_image` -/
def inlineImage (validBase64 : String → Bool) (part : ContentPart) :
    Except Error (String × String) :=
  let data := part.data.getD ""
  let mimeType := part.mimeType.getD ""
  if data = "" then chatInputError "Image content part requires data"
  else match dataUri? data with
    | some (declared, payload) =>
      if mimeType ≠ "" ∧ mimeType ≠ declared then
        chatInputError "Image data URI mime type does not match mime_type"
      else (validateBase64 validBase64 payload).map fun _ => (declared, payload)
    | none =>
      if mimeType = "" then chatInputError "Base64 image content part requires mime_type"
      else if ¬mimeType.startsWith "image/" then
        chatInputError "Image content part mime_type must start with image/"
      else (validateBase64 validBase64 data).map fun _ => (mimeType, data)

/-! ### The parts of a message -/

/-- `_content_part` -/
def contentPart (validBase64 : String → Bool) (part : ContentPart) : Except Error PyDict :=
  match part.type with
  | .text => (requiredText part).map fun text => [("text", .str text)]
  | .image => do
    validateImageSource part
    if part.url.getD "" ≠ "" then
      chatInputError "Gemini image content requires inline data; remote URLs are not supported"
    else
      (inlineImage validBase64 part).map fun image =>
        [("inlineData", .dict [("mimeType", .str image.1), ("data", .str image.2)])]
  | type => chatInputError ("Unsupported Gemini content part type: " ++ typeText type)

/-- `_function_call_part` -/
def functionCallPart (toolCall : ToolCall) : Except Error PyDict :=
  let call := toolCall.toolCall
  let name := (call.str? "name").getD ""
  if name = "" then chatInputError "Tool call requires a function name"
  else .ok [("functionCall",
    .dict [("name", .str name), ("args", .dict ((call.dict? "arguments").getD []))])]

/-- `_function_response_part` -/
def functionResponsePart (py : PyJson.PythonText) (message : Message) : Except Error PyDict :=
  let name := message.name.getD ""
  (textContent message).map fun text =>
    [("functionResponse", .dict [
      ("name", .str (if name ≠ "" then name
        else ((message.metadata.lookup "tool_name").getD (.str "tool_result")).toStr py)),
      ("response", .dict [("content", .str text)])])]

/-- `{"name": …, "arguments": …} == tool_call`, of dictionaries whose keys are distinct. -/
def isCalled (function : FunctionCall) (toolCall : PyDict) : Bool :=
  toolCall.length = 2 && toolCall.lookup "name" == some (.str function.name) &&
    toolCall.lookup "arguments" == some function.arguments

/-- `calls == [call.tool_call for call in message.tool_calls or []]` -/
def callsMatch : List PyDict → List ToolCall → Bool
  | [], [] => true
  | functionCall :: functionCalls, call :: calls =>
    isCalled (calledFunction functionCall) call.toolCall && callsMatch functionCalls calls
  | _, _ => false

/-- The identifier the provider gave a call, or the empty text. -/
def nativeId (functionCall : PyDict) : String := (functionCall.str? "id").getD ""

/-- `native_ids_match` -/
def nativeIdsMatch (functionCalls : List PyDict) (calls : List ToolCall) : Bool :=
  (functionCalls.zip calls).all fun p => nativeId p.1 = "" || nativeId p.1 = p.2.toolCallId

/-- `_validate_preserved_parts`, and the parts as the objects they are. -/
def validatePreservedParts (message : Message) (parts : List PyJson) :
    Except Error (List PyDict) :=
  match parts.mapM PyJson.dict? with
  | none => chatInputError "Preserved Gemini content must contain objects"
  | some parts => do
    let functionCalls := parts.filterMap namedCall
    let text ← textContent message
    if String.join (parts.filterMap partText) ≠ text ∨ ¬callsMatch functionCalls message.calls ∨
        ¬nativeIdsMatch functionCalls message.calls then
      chatInputError "Preserved Gemini content does not match the assistant message"
    else .ok parts

/-- The parts of a message that keeps none. -/
def portableParts (validBase64 : String → Bool) (message : Message) :
    Except Error (List PyDict) := do
  let parts ← (message.content.getD []).mapM (contentPart validBase64)
  let calls ← message.calls.mapM functionCallPart
  .ok (if parts ++ calls = [] then [[("text", .str "")]] else parts ++ calls)

/-- `metadata["gemini_parts"]` of an assistant message, when it is a list. -/
def preservedParts (message : Message) : Option (List PyJson) :=
  if message.role = .assistant then message.metadata.list? "gemini_parts" else none

/-- `_message_parts` -/
def messageParts (py : PyJson.PythonText) (validBase64 : String → Bool) (message : Message) :
    Except Error (List PyDict) :=
  if message.role = .tool then (functionResponsePart py message).map fun part => [part]
  else match preservedParts message with
    | some parts => validatePreservedParts message parts
    | none => portableParts validBase64 message

/-! ### The request -/

/-- An entry of `contents`. -/
structure Turn where
  role : String
  parts : List PyDict

def Turn.json (turn : Turn) : PyJson :=
  .dict [("role", .str turn.role), ("parts", .list (turn.parts.map .dict))]

/-- `_gemini_role`; a system message has none. -/
def geminiRole : MessageRole → Except Error String
  | .user => .ok "user"
  | .assistant => .ok "model"
  | .tool => .ok "user"
  | .system => chatInputError "Unsupported Gemini message role: system"

/-- The variables of the loop. The latest entry of an identifier comes first in `callsById`. -/
structure Loop where
  contents : List Turn := []
  systemParts : List PyDict := []
  callsById : List (String × PyDict) := []
  previousWasTool : Bool := false

/-- The loop over the calls of a message and the function calls of its parts. -/
def register (callsById : List (String × PyDict)) (calls : List (ToolCall × PyDict)) :
    List (String × PyDict) :=
  calls.foldl (fun table p => (p.1.toolCallId, p.2) :: table) callsById

/-- `parts[0]["functionResponse"]` takes the name, and the identifier, of a call. -/
def nameResponse (call : PyDict) (parts : List PyDict) : List PyDict :=
  let set (key text : String) := KeyedFold.modify PyJson.null key fun _ => .str text
  let name (response : PyDict) :=
    let response := set "name" ((call.str? "name").getD "") response
    if nativeId call ≠ "" then set "id" (nativeId call) response else response
  match parts with
  | [] => []
  | part :: parts =>
    KeyedFold.modify .null "functionResponse"
      (fun response => .dict (name (response.dict?.getD []))) part :: parts

/-- `contents[-1]["parts"].extend(parts)` -/
def extendLast (parts : List PyDict) : List Turn → List Turn
  | [] => []
  | [turn] => [{ turn with parts := turn.parts ++ parts }]
  | turn :: next :: turns => turn :: extendLast parts (next :: turns)

section Request

variable (py : PyJson.PythonText) (validBase64 : String → Bool)

/-- The body of the loop. -/
def Loop.add (loop : Loop) (message : Message) : Except Error Loop := do
  let parts ← messageParts py validBase64 message
  if message.role = .system then
    .ok { loop with systemParts := loop.systemParts ++ parts, previousWasTool := false }
  else
    let callsById := if message.role = .assistant then
        register loop.callsById (message.calls.zip (parts.filterMap namedCall))
      else loop.callsById
    let answered :=
      if message.role = .tool then message.toolCallId.bind (callsById.lookup ·) else none
    let parts := answered.elim parts (nameResponse · parts)
    let contents ← if message.role = .tool ∧ loop.previousWasTool then
        .ok (extendLast parts loop.contents)
      else (geminiRole message.role).map fun role => loop.contents ++ [⟨role, parts⟩]
    .ok { loop with contents, callsById, previousWasTool := message.role = .tool }

def Loop.addAll (loop : Loop) : List Message → Except Error Loop
  | [] => .ok loop
  | message :: messages => do
    let next ← loop.add py validBase64 message
    next.addAll messages

/-- A tool that is offered. -/
structure ToolDefinition where
  name : String
  description : String
  parametersSchema : Option PyDict := none

/-- `to_gemini_tool` -/
def toGeminiTool (tool : ToolDefinition) : PyDict :=
  let schema := tool.parametersSchema.getD []
  [("name", .str tool.name), ("description", .str tool.description),
    ("parameters", .dict (if schema ≠ [] then schema
      else [("type", .str "object"), ("properties", .dict [])]))]

/-- `to_gemini_tools` -/
def toGeminiTools (tools : List ToolDefinition) : PyJson :=
  .list [.dict [("functionDeclarations", .list (tools.map fun tool => .dict (toGeminiTool tool)))]]

/-- **`to_gemini_request`** -/
def toGeminiRequest (messages : List Message) (tools : Option (List ToolDefinition)) :
    Except Error PyDict := do
  let loop ← Loop.addAll py validBase64 {} messages
  .ok ([("contents", .list (loop.contents.map Turn.json))] ++
    (if loop.systemParts ≠ [] then
      [("systemInstruction", .dict [("parts", .list (loop.systemParts.map .dict))])] else []) ++
    (if tools.getD [] ≠ [] then [("tools", toGeminiTools (tools.getD []))] else []))

end Request

/-! ### Histories and their contents -/

/-- **Calls are answered right after their message**, one TOOL message a call, in any order. -/
inductive Protocol : List Message → Prop
  | nil : Protocol []
  | other {message : Message} {rest : List Message} (hrole : message.role ≠ .tool)
      (hcalls : message.role = .assistant → message.calls = []) (hrest : Protocol rest) :
      Protocol (message :: rest)
  | answered {message : Message} {tools rest : List Message} (hrole : message.role = .assistant)
      (hcalls : message.calls ≠ []) (htools : ∀ tool ∈ tools, tool.role = .tool)
      (hperm : (tools.map (·.toolCallId)).Perm (message.calls.map fun call => some call.toolCallId))
      (hrest : Protocol rest) : Protocol (message :: (tools ++ rest))

/-- The response part with the name and the identifier of a call, and a text. -/
def response (functionCall : PyDict) (text : String) : PyDict :=
  [("functionResponse", .dict ([("name", .str ((functionCall.str? "name").getD "")),
    ("response", .dict [("content", .str text)])] ++
      if nativeId functionCall ≠ "" then [("id", .str (nativeId functionCall))] else []))]

/-- A function call is that of a tool call: it has its name, and no identifier but the one of the
call. -/
structure CallOf (call : ToolCall) (functionCall : PyDict) : Prop where
  name : functionCall.str? "name" = call.toolCall.str? "name"
  id : nativeId functionCall ≠ "" → nativeId functionCall = call.toolCallId

/-- A part carries the text of a TOOL message under the name of the last of some calls that has its
identifier. -/
def Responds (calls : List (ToolCall × PyDict)) (tool : Message) (part : PyDict) : Prop :=
  ∃ before call functionCall after text,
    calls = before ++ (call, functionCall) :: after ∧ tool.toolCallId = some call.toolCallId ∧
      (∀ later ∈ after, later.1.toolCallId ≠ call.toolCallId) ∧ textContent tool = .ok text ∧
        part = response functionCall text

section Mapped

variable (py : PyJson.PythonText) (validBase64 : String → Bool)

/-- **The contents of a history.** A system message has none. A message with calls has two: its own,
with one named function call a call, and that of the responses, one a TOOL message in their
order. -/
inductive Mapped : List Message → List Turn → Prop
  | nil : Mapped [] []
  | system {message : Message} {rest : List Message} {turns : List Turn}
      (hrole : message.role = .system) (hrest : Mapped rest turns) : Mapped (message :: rest) turns
  | other {message : Message} {rest : List Message} {turn : Turn} {turns : List Turn}
      (hrole : geminiRole message.role = .ok turn.role)
      (hparts : messageParts py validBase64 message = .ok turn.parts)
      (hcalls : turn.role = "model" → turn.parts.filterMap namedCall = [])
      (hrest : Mapped rest turns) : Mapped (message :: rest) (turn :: turns)
  | answered {message : Message} {tools rest : List Message} {parts responses : List PyDict}
      {turns : List Turn} (hrole : message.role = .assistant)
      (hparts : messageParts py validBase64 message = .ok parts)
      (hcalls : List.Forall₂ CallOf message.calls (parts.filterMap namedCall))
      (hlength : responses.length = (parts.filterMap namedCall).length)
      (hresponses :
        List.Forall₂ (Responds (message.calls.zip (parts.filterMap namedCall))) tools responses)
      (hrest : Mapped rest turns) :
      Mapped (message :: (tools ++ rest)) (⟨"model", parts⟩ :: ⟨"user", responses⟩ :: turns)

end Mapped

/-! ### The function calls of an assistant message -/

theorem str?_of_beq {d : PyDict} {key s : String}
    (h : (d.lookup key == some (.str s)) = true) : d.str? key = some s := by
  rw [PyDict.str?]
  cases hvalue : d.lookup key with
  | none =>
    rw [hvalue] at h
    exact absurd h Bool.false_ne_true
  | some value =>
    rw [hvalue] at h
    have htokens : value.tokens = [.str s] := PyJson.beq_iff.mp h
    refine PyJson.str?_eq_some.mpr ?_
    cases value <;> simp_all [PyJson.tokens]

theorem forall₂_callOf {calls : List ToolCall} {functionCalls : List PyDict}
    (hnamed : ∀ functionCall ∈ functionCalls, (functionCall.str? "name").getD "" ≠ "")
    (hmatch : callsMatch functionCalls calls) (hids : nativeIdsMatch functionCalls calls) :
    List.Forall₂ CallOf calls functionCalls := by
  induction functionCalls generalizing calls with
  | nil =>
    cases calls with
    | nil => exact .nil
    | cons call calls => exact absurd hmatch (by simp [callsMatch])
  | cons functionCall functionCalls ih =>
    cases calls with
    | nil => exact absurd hmatch (by simp [callsMatch])
    | cons call calls =>
      rw [callsMatch, isCalled, Bool.and_eq_true, Bool.and_eq_true, Bool.and_eq_true] at hmatch
      rw [nativeIdsMatch, List.zip_cons_cons, List.all_cons, Bool.and_eq_true] at hids
      refine .cons ⟨?_, fun hid => ?_⟩
        (ih (fun other hother => hnamed other (List.mem_cons_of_mem _ hother)) hmatch.2 hids.2)
      · have hname : call.toolCall.str? "name" = some ((functionCall.str? "name").getD "") :=
          str?_of_beq hmatch.1.1.2
        have hown := hnamed functionCall List.mem_cons_self
        rw [hname]
        cases hstr : functionCall.str? "name" with
        | none => exact absurd (by rw [hstr]; rfl) hown
        | some name => rfl
      · have hid' := hids.1
        simp only [Bool.or_eq_true, decide_eq_true_eq] at hid'
        exact hid'.resolve_left hid

theorem named_of_namedCall {part functionCall : PyDict} (h : namedCall part = some functionCall) :
    (functionCall.str? "name").getD "" ≠ "" := by
  obtain ⟨call, -, hcall⟩ := Option.bind_eq_some_iff.mp h
  split_ifs at hcall with hname
  obtain rfl := Option.some.inj hcall
  exact hname

theorem named_of_mem {parts : List PyDict} {functionCall : PyDict}
    (h : functionCall ∈ parts.filterMap namedCall) : (functionCall.str? "name").getD "" ≠ "" := by
  obtain ⟨part, -, hpart⟩ := List.mem_filterMap.mp h
  exact named_of_namedCall hpart

theorem namedCall_contentPart {validBase64 : String → Bool} {part : ContentPart} {d : PyDict}
    (h : contentPart validBase64 part = .ok d) : namedCall d = none := by
  unfold contentPart at h
  split at h
  · obtain ⟨text, -, rfl⟩ := exists_of_map_eq_ok h
    rfl
  · obtain ⟨-, -, h⟩ := exists_of_bind_eq_ok h
    split_ifs at h
    · exact absurd h (by simp [chatInputError])
    · obtain ⟨image, -, rfl⟩ := exists_of_map_eq_ok h
      rfl
  · exact absurd h (by simp [chatInputError])

theorem namedCall_functionCallPart {call : ToolCall} {d : PyDict}
    (h : functionCallPart call = .ok d) :
    ∃ functionCall, namedCall d = some functionCall ∧ CallOf call functionCall := by
  dsimp only [functionCallPart] at h
  split_ifs at h with hname
  · exact absurd h (by simp [chatInputError])
  · obtain rfl := Except.ok.inj h
    refine ⟨_, if_neg hname, ?_, fun hid => absurd rfl hid⟩
    cases hstr : call.toolCall.str? "name" with
    | none => exact absurd (by rw [hstr]; rfl) hname
    | some name => rfl

theorem filterMap_namedCall_contentParts {validBase64 : String → Bool} {content : List ContentPart}
    {parts : List PyDict} (h : content.mapM (contentPart validBase64) = .ok parts) :
    parts.filterMap namedCall = [] := by
  refine List.filterMap_eq_nil_iff.mpr fun d hd => ?_
  obtain ⟨part, -, hpart⟩ := exists_of_mem_mapM h hd
  exact namedCall_contentPart hpart

theorem forall₂_callOf_functionCallParts {calls : List ToolCall} {parts : List PyDict}
    (h : calls.mapM functionCallPart = .ok parts) :
    List.Forall₂ CallOf calls (parts.filterMap namedCall) := by
  have hparts := forall₂_of_mapM_ok h
  clear h
  induction hparts with
  | nil => exact .nil
  | cons hcall _ ih =>
    obtain ⟨functionCall, hnamed, hof⟩ := namedCall_functionCallPart hcall
    rw [List.filterMap_cons_some hnamed]
    exact .cons hof ih

section Run

variable {py : PyJson.PythonText} {validBase64 : String → Bool}

/-- **The named function calls of an assistant message are its tool calls**, preserved or not. -/
theorem forall₂_callOf_messageParts {message : Message} {parts : List PyDict}
    (hrole : message.role = .assistant) (h : messageParts py validBase64 message = .ok parts) :
    List.Forall₂ CallOf message.calls (parts.filterMap namedCall) := by
  have htool : message.role ≠ .tool := by
    rw [hrole]
    decide
  rw [messageParts, if_neg htool] at h
  cases hpreserved : preservedParts message with
  | some native =>
    rw [hpreserved] at h
    dsimp only [validatePreservedParts] at h
    split at h
    · exact absurd h (by simp [chatInputError])
    · obtain ⟨text, -, h⟩ := exists_of_bind_eq_ok h
      split_ifs at h with hdiffers
      · exact absurd h (by simp [chatInputError])
      · obtain rfl := Except.ok.inj h
        rw [not_or, not_or] at hdiffers
        exact forall₂_callOf (fun _ => named_of_mem) (not_not.mp hdiffers.2.1)
          (not_not.mp hdiffers.2.2)
  | none =>
    rw [hpreserved] at h
    obtain ⟨content, hcontent, h⟩ := exists_of_bind_eq_ok h
    obtain ⟨calls, hcalls, h⟩ := exists_of_bind_eq_ok h
    obtain rfl := Except.ok.inj h
    have hof := forall₂_callOf_functionCallParts hcalls
    split_ifs with hempty
    · rw [(List.append_eq_nil_iff.mp hempty).2] at hof
      exact hof
    · rw [List.filterMap_append, filterMap_namedCall_contentParts hcontent, List.nil_append]
      exact hof

/-! ### One message -/

theorem register_append (table : List (String × PyDict)) (calls more : List (ToolCall × PyDict)) :
    register table (calls ++ more) = register (register table calls) more :=
  List.foldl_append

/-- The table finds the last call with an identifier. -/
theorem exists_lookup_register {table : List (String × PyDict)} {calls : List (ToolCall × PyDict)}
    {id : String} (h : id ∈ calls.map (·.1.toolCallId)) :
    ∃ before call functionCall after, calls = before ++ (call, functionCall) :: after ∧
      call.toolCallId = id ∧ (∀ later ∈ after, later.1.toolCallId ≠ id) ∧
        (register table calls).lookup id = some functionCall := by
  induction calls using List.reverseRecOn with
  | nil => exact absurd h List.not_mem_nil
  | append_singleton calls last ih =>
    obtain ⟨call, functionCall⟩ := last
    rw [register_append, register, List.foldl_cons, List.foldl_nil]
    by_cases hlast : call.toolCallId = id
    · refine ⟨calls, call, functionCall, [], rfl, hlast, fun _ h => absurd h List.not_mem_nil, ?_⟩
      rw [hlast, List.lookup_cons_self]
    · rw [List.map_append, List.mem_append, List.map_singleton, List.mem_singleton] at h
      obtain ⟨before, found, functionCall', after, rfl, hid, hafter, hlookup⟩ :=
        ih (h.resolve_right fun heq => hlast heq.symm)
      refine ⟨before, found, functionCall', after ++ [(call, functionCall)], ?_, hid, ?_, ?_⟩
      · rw [List.append_assoc, List.cons_append]
      · intro later hlater
        rcases List.mem_append.mp hlater with hlater | hlater
        · exact hafter later hlater
        · rw [List.mem_singleton.mp hlater]
          exact hlast
      · rw [List.lookup_cons, beq_eq_false_iff_ne.mpr fun heq => hlast heq.symm]
        exact hlookup

/-- What a response part says once it has taken the name of a call. -/
theorem nameResponse_functionResponse (call : PyDict) (name : String) (text : String) :
    nameResponse call [[("functionResponse", .dict [("name", .str name),
      ("response", .dict [("content", .str text)])])]] = [response call text] := by
  by_cases hid : nativeId call = ""
  · simp [nameResponse, KeyedFold.modify, response, hid, PyJson.dict?]
  · simp [nameResponse, KeyedFold.modify, response, hid, PyJson.dict?]

variable {loop next : Loop} {message : Message}

theorem add_system (hrole : message.role = .system)
    (h : loop.add py validBase64 message = .ok next) :
    next.contents = loop.contents ∧ next.callsById = loop.callsById ∧
      next.previousWasTool = false := by
  obtain ⟨parts, -, h⟩ := exists_of_bind_eq_ok h
  rw [if_pos hrole] at h
  obtain rfl := Except.ok.inj h
  exact ⟨rfl, rfl, rfl⟩

/-- A message that is no response has one content. -/
theorem add_other (hsystem : message.role ≠ .system) (htool : message.role ≠ .tool)
    (h : loop.add py validBase64 message = .ok next) :
    ∃ role parts, geminiRole message.role = .ok role ∧
      messageParts py validBase64 message = .ok parts ∧
      next.contents = loop.contents ++ [⟨role, parts⟩] ∧ next.previousWasTool = false ∧
      (message.role = .assistant → next.callsById =
        register loop.callsById (message.calls.zip (parts.filterMap namedCall))) := by
  obtain ⟨parts, hparts, h⟩ := exists_of_bind_eq_ok h
  rw [if_neg hsystem] at h
  dsimp only at h
  rw [if_neg htool, if_neg fun hboth => htool hboth.1] at h
  obtain ⟨contents, hcontents, h⟩ := exists_of_bind_eq_ok h
  obtain ⟨role, hrole, rfl⟩ := exists_of_map_eq_ok hcontents
  obtain rfl := Except.ok.inj h
  exact ⟨role, parts, hrole, hparts, rfl, decide_eq_false htool,
    fun hassistant => if_pos hassistant⟩

/-- A response to a call of the table takes its name, and joins the responses before it. -/
theorem add_tool {id : String} {functionCall : PyDict} (hrole : message.role = .tool)
    (hid : message.toolCallId = some id) (hlookup : loop.callsById.lookup id = some functionCall)
    (h : loop.add py validBase64 message = .ok next) :
    ∃ text, textContent message = .ok text ∧ next.callsById = loop.callsById ∧
      next.previousWasTool = true ∧ next.contents =
        if loop.previousWasTool then extendLast [response functionCall text] loop.contents
        else loop.contents ++ [⟨"user", [response functionCall text]⟩] := by
  have hsystem : message.role ≠ .system := by
    rw [hrole]
    decide
  have hassistant : message.role ≠ .assistant := by
    rw [hrole]
    decide
  obtain ⟨parts, hparts, h⟩ := exists_of_bind_eq_ok h
  rw [messageParts, if_pos hrole] at hparts
  obtain ⟨part, hpart, rfl⟩ := exists_of_map_eq_ok hparts
  obtain ⟨text, htext, rfl⟩ := exists_of_map_eq_ok hpart
  rw [if_neg hsystem] at h
  dsimp only at h
  rw [if_neg hassistant, if_pos hrole, hid, Option.bind_some, hlookup, Option.elim_some,
    nameResponse_functionResponse] at h
  refine ⟨text, htext, ?_⟩
  by_cases hprevious : loop.previousWasTool = true
  · rw [if_pos ⟨hrole, hprevious⟩] at h
    obtain rfl := Except.ok.inj h
    exact ⟨rfl, decide_eq_true hrole, (if_pos hprevious).symm⟩
  · rw [if_neg fun hboth => hprevious hboth.2, hrole] at h
    obtain rfl := Except.ok.inj h
    exact ⟨rfl, rfl, (if_neg hprevious).symm⟩

/-! ### All messages -/

theorem exists_of_addAll_cons {messages : List Message}
    (h : loop.addAll py validBase64 (message :: messages) = .ok next) :
    ∃ middle, loop.add py validBase64 message = .ok middle ∧
      middle.addAll py validBase64 messages = .ok next :=
  exists_of_bind_eq_ok h

theorem exists_of_addAll_append {messages more : List Message}
    (h : loop.addAll py validBase64 (messages ++ more) = .ok next) :
    ∃ middle, loop.addAll py validBase64 messages = .ok middle ∧
      middle.addAll py validBase64 more = .ok next := by
  induction messages generalizing loop with
  | nil => exact ⟨loop, rfl, h⟩
  | cons message messages ih =>
    obtain ⟨first, hfirst, h⟩ := exists_of_addAll_cons h
    obtain ⟨middle, hmiddle, h⟩ := ih h
    refine ⟨middle, ?_, h⟩
    rw [Loop.addAll, hfirst]
    exact hmiddle

theorem extendLast_append_singleton (parts : List PyDict) (contents : List Turn) (turn : Turn) :
    extendLast parts (contents ++ [turn]) =
      contents ++ [{ turn with parts := turn.parts ++ parts }] := by
  induction contents with
  | nil => rfl
  | cons first contents ih =>
    cases contents with
    | nil => rfl
    | cons second contents => exact congrArg (first :: ·) ih

variable {tools : List Message} {calls : List (ToolCall × PyDict)} {table : List (String × PyDict)}

/-- A response to one of some calls, the latest in the table. -/
theorem add_response {tool : Message} (hrole : tool.role = .tool)
    (hid : tool.toolCallId ∈ calls.map fun p => some p.1.toolCallId)
    (htable : loop.callsById = register table calls)
    (h : loop.add py validBase64 tool = .ok next) :
    ∃ part, Responds calls tool part ∧ next.callsById = register table calls ∧
      next.previousWasTool = true ∧ next.contents =
        if loop.previousWasTool then extendLast [part] loop.contents
        else loop.contents ++ [⟨"user", [part]⟩] := by
  obtain ⟨p, hp, hid⟩ := List.mem_map.mp hid
  obtain ⟨before, call, functionCall, after, hcalls, hcall, hafter, hlookup⟩ :=
    @exists_lookup_register table calls _ (List.mem_map_of_mem (f := (·.1.toolCallId)) hp)
  rw [← htable] at hlookup
  obtain ⟨text, htext, hnext, hprevious, hcontents⟩ := add_tool hrole hid.symm hlookup h
  refine ⟨response functionCall text, ?_, hnext.trans htable, hprevious, hcontents⟩
  refine ⟨before, call, functionCall, after, text, hcalls, ?_, ?_, htext, rfl⟩
  · rw [← hid, hcall]
  · intro later hlater
    rw [hcall]
    exact hafter later hlater

/-- Responses that follow a response join its content. -/
theorem addAll_responses {contents : List Turn} {parts : List PyDict}
    (htools : ∀ tool ∈ tools, tool.role = .tool)
    (hids : ∀ tool ∈ tools, tool.toolCallId ∈ calls.map fun p => some p.1.toolCallId)
    (htable : loop.callsById = register table calls) (hprevious : loop.previousWasTool = true)
    (hcontents : loop.contents = contents ++ [⟨"user", parts⟩])
    (h : loop.addAll py validBase64 tools = .ok next) :
    ∃ responses, List.Forall₂ (Responds calls) tools responses ∧
      next.contents = contents ++ [⟨"user", parts ++ responses⟩] := by
  induction tools generalizing loop parts with
  | nil =>
    obtain rfl := Except.ok.inj h
    exact ⟨[], .nil, by rw [List.append_nil, hcontents]⟩
  | cons tool tools ih =>
    obtain ⟨middle, hmiddle, h⟩ := exists_of_addAll_cons h
    obtain ⟨part, hpart, htable', hprevious', hcontents'⟩ :=
      add_response (htools tool List.mem_cons_self) (hids tool List.mem_cons_self) htable hmiddle
    rw [if_pos hprevious, hcontents, extendLast_append_singleton] at hcontents'
    obtain ⟨responses, hresponses, hnext⟩ :=
      ih (fun other hother => htools other (List.mem_cons_of_mem _ hother))
        (fun other hother => hids other (List.mem_cons_of_mem _ hother)) htable' hprevious'
        hcontents' h
    refine ⟨part :: responses, .cons hpart hresponses, ?_⟩
    rw [hnext, List.append_assoc]
    rfl

/-- **The responses to the calls of a message make one content.** -/
theorem addAll_tools (hne : tools ≠ []) (htools : ∀ tool ∈ tools, tool.role = .tool)
    (hids : ∀ tool ∈ tools, tool.toolCallId ∈ calls.map fun p => some p.1.toolCallId)
    (htable : loop.callsById = register table calls) (hprevious : loop.previousWasTool = false)
    (h : loop.addAll py validBase64 tools = .ok next) :
    ∃ responses, List.Forall₂ (Responds calls) tools responses ∧
      next.contents = loop.contents ++ [⟨"user", responses⟩] := by
  obtain ⟨tool, tools, rfl⟩ := List.exists_cons_of_ne_nil hne
  obtain ⟨middle, hmiddle, h⟩ := exists_of_addAll_cons h
  obtain ⟨part, hpart, htable', hprevious', hcontents⟩ :=
    add_response (htools tool List.mem_cons_self) (hids tool List.mem_cons_self) htable hmiddle
  rw [if_neg (by rw [hprevious]; exact Bool.false_ne_true)] at hcontents
  obtain ⟨responses, hresponses, hnext⟩ :=
    addAll_responses (fun other hother => htools other (List.mem_cons_of_mem _ hother))
      (fun other hother => hids other (List.mem_cons_of_mem _ hother)) htable' hprevious'
      hcontents h
  exact ⟨part :: responses, .cons hpart hresponses, hnext⟩

/-- The loop adds the contents of a history. -/
theorem exists_mapped_of_addAll {messages : List Message} (hprotocol : Protocol messages)
    (h : loop.addAll py validBase64 messages = .ok next) :
    ∃ turns, Mapped py validBase64 messages turns ∧ next.contents = loop.contents ++ turns := by
  induction hprotocol generalizing loop with
  | nil =>
    obtain rfl := Except.ok.inj h
    exact ⟨[], .nil, (List.append_nil _).symm⟩
  | @other message rest hrole hcalls _ ih =>
    obtain ⟨middle, hmiddle, h⟩ := exists_of_addAll_cons h
    obtain ⟨turns, hturns, hnext⟩ := ih h
    by_cases hsystem : message.role = .system
    · refine ⟨turns, .system hsystem hturns, ?_⟩
      rw [hnext, (add_system hsystem hmiddle).1]
    · obtain ⟨role, parts, hturn, hparts, hcontents, -, -⟩ := add_other hsystem hrole hmiddle
      refine ⟨⟨role, parts⟩ :: turns, .other hturn hparts (fun hmodel => ?_) hturns, ?_⟩
      · have hassistant : message.role = .assistant := by
          cases hmessage : message.role <;> rw [hmessage] at hturn <;>
            simp_all [geminiRole]
        have hof := forall₂_callOf_messageParts hassistant hparts
        rw [hcalls hassistant] at hof
        exact List.forall₂_nil_left_iff.mp hof
      · rw [hnext, hcontents, List.append_assoc]
        rfl
  | @answered message tools rest hrole hcalls htools hperm _ ih =>
    obtain ⟨middle, hmiddle, h⟩ := exists_of_addAll_cons h
    obtain ⟨last, hlast, h⟩ := exists_of_addAll_append h
    obtain ⟨turns, hturns, hnext⟩ := ih h
    have hsystem : message.role ≠ .system := by
      rw [hrole]
      decide
    have htool : message.role ≠ .tool := by
      rw [hrole]
      decide
    obtain ⟨role, parts, hturn, hparts, hcontents, hprevious, htable⟩ :=
      add_other hsystem htool hmiddle
    rw [hrole] at hturn
    obtain rfl := Except.ok.inj hturn
    have hof := forall₂_callOf_messageParts hrole hparts
    have hne : tools ≠ [] := by
      rintro rfl
      exact hcalls (List.map_eq_nil_iff.mp (List.Perm.nil_eq hperm).symm)
    -- The identifiers of the responses are those of the calls, and these are all in the table.
    have hids : ∀ tool ∈ tools, tool.toolCallId ∈
        (message.calls.zip (parts.filterMap namedCall)).map fun p => some p.1.toolCallId := by
      intro tool hmem
      have hid := hperm.mem_iff.mp (List.mem_map_of_mem (f := (·.toolCallId)) hmem)
      have hzip : ((message.calls.zip (parts.filterMap namedCall)).map fun p =>
          some p.1.toolCallId) = message.calls.map fun call => some call.toolCallId := by
        have hfst := List.map_fst_zip (Nat.le_of_eq hof.length_eq)
        conv_rhs => rw [← hfst, List.map_map]
        rfl
      rw [hzip]
      exact hid
    obtain ⟨responses, hresponses, hlastContents⟩ :=
      addAll_tools hne htools hids (htable hrole) hprevious hlast
    have hlength : responses.length = (parts.filterMap namedCall).length := by
      have hcount := hperm.length_eq
      rw [List.length_map, List.length_map] at hcount
      rw [← hresponses.length_eq, hcount, hof.length_eq]
    refine ⟨_, .answered hrole hparts hof hlength hresponses hturns, ?_⟩
    rw [hnext, hlastContents, hcontents, List.append_assoc, List.append_assoc]
    rfl

end Run

/-- **The contents of a request answer call by call.** -/
theorem mapped_of_toGeminiRequest (py : PyJson.PythonText) (validBase64 : String → Bool)
    {messages : List Message} {tools : Option (List ToolDefinition)} {request : PyDict}
    (hprotocol : Protocol messages)
    (h : toGeminiRequest py validBase64 messages tools = .ok request) :
    ∃ turns, PyDict.list? request "contents" = some (turns.map Turn.json) ∧
      Mapped py validBase64 messages turns := by
  obtain ⟨loop, hloop, h⟩ := exists_of_bind_eq_ok h
  obtain rfl := Except.ok.inj h
  obtain ⟨turns, hturns, hcontents⟩ := exists_mapped_of_addAll hprotocol hloop
  rw [List.nil_append] at hcontents
  exact ⟨turns, by rw [← hcontents]; rfl, hturns⟩

private def brief (role : MessageRole) (text : String) (toolCallId : Option String) : Message where
  role := role
  content := some [{ type := .text, text := some text }]
  toolCallId := toolCallId

private def twoCalls (second : String) : Message where
  role := .assistant
  toolCalls := some [⟨"c", [("name", .str "read"), ("arguments", .dict [])]⟩,
    ⟨second, [("name", .str "write"), ("arguments", .dict [])]⟩]

/-- A read and a write, under the identifiers `"c"` and `second`, with a response to each. -/
private def readAndWrite (second : String) : List Message :=
  brief .system "Be brief." none :: twoCalls second ::
    ([brief .tool "text" (some "c"), brief .tool "done" (some second)] ++ [])

private theorem protocol_readAndWrite (second : String) : Protocol (readAndWrite second) := by
  refine .other nofun nofun (.answered rfl (List.cons_ne_nil _ _ :) ?_ (.refl _) .nil)
  intro tool htool
  rcases List.mem_pair.mp htool with rfl | rfl <;> rfl

private def unquoted : PyJson.PythonText := ⟨fun _ => "", id⟩

/-- A system message has no content, and of two calls of one message with the same identifier the
last names the responses to both. -/
theorem not_answered_call_by_call :
    Protocol (readAndWrite "c") ∧
      ∃ request, toGeminiRequest unquoted (fun _ => true) (readAndWrite "c") none = .ok request ∧
        PyDict.list? request "contents" = some [
          Turn.json ⟨"model", [
            [("functionCall", .dict [("name", .str "read"), ("args", .dict [])])],
            [("functionCall", .dict [("name", .str "write"), ("args", .dict [])])]]⟩,
          Turn.json ⟨"user", [
            [("functionResponse", .dict [("name", .str "write"),
              ("response", .dict [("content", .str "text")])])],
            [("functionResponse", .dict [("name", .str "write"),
              ("response", .dict [("content", .str "done")])])]]⟩] :=
  ⟨protocol_readAndWrite "c", _, rfl, rfl⟩

theorem mapped_readAndWrite :
    ∃ request, toGeminiRequest unquoted (fun _ => true) (readAndWrite "d") none = .ok request ∧
      ∃ turns, PyDict.list? request "contents" = some (turns.map Turn.json) ∧
        Mapped unquoted (fun _ => true) (readAndWrite "d") turns :=
  ⟨_, rfl, mapped_of_toGeminiRequest _ _ (protocol_readAndWrite "d") rfl⟩

end EvernightAI.GeminiRequest
