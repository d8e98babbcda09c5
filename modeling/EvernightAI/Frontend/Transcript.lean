import EvernightAI.Schema.Content

/-!
# The transcript of the chat page

The page shows a list of entries. `transcriptFromMessages` makes one from stored messages, and
`applyChatTrace` adds an event of a run to it; `reconcileRunTranscript` replaces the entries of a
run by what a snapshot of the run says.

Texts that JavaScript computes from open values (`JSON.stringify`, `localeCompare`) are taken from
a `Browser`. The entries of one run carry its id in `streamRunId`; every function here leaves the
other entries alone, which `Frontend.Reconcile` proves.
-/

namespace EvernightAI.Frontend

/-- What the language computes from open values. -/
structure Browser where
  /-- `JSON.stringify(value, null, 2)` -/
  stringify : Value → String
  stringifyRecord : Dict → String
  /-- `JSON.stringify` with the keys of records sorted -/
  sortedText : Value → String
  sortedRecordText : Dict → String
  /-- `===` -/
  strictEquals : Value → Value → Bool
  localeCompare : String → String → Int

/-- The truth value of a JSON value. -/
def truthy : Value → Bool
  | .none => false
  | .bool b => b
  | .int n => n ≠ 0
  | .str s => s ≠ ""
  | .other json => !(["0.0", "-0.0"].contains json)

/-- `typeof value === 'number'` -/
def isNumber : Value → Bool
  | .int _ => true
  | .other json => json.toList.head?.any fun c => c.isDigit || c = '-'
  | _ => false

/-- `value || undefined` for a text. -/
def nonEmpty (text : Option String) : Option String := text.filter (· ≠ "")

/-! ### Entries and runs -/

inductive ToolStatus
  | pending | approval | running | completed | failed | canceled
  deriving DecidableEq, Repr

structure ToolActivity where
  callId : String
  name : String
  status : ToolStatus
  startedAt : Option String := none
  finishedAt : Option String := none
  durationMs : Option Value := none
  argumentsText : String
  resultText : Option String := none
  errorType : Option String := none
  notice : Option String := none
  deriving DecidableEq, Repr

inductive RunNotice
  | canceled | failed
  deriving DecidableEq, Repr

/-- `ChatTranscriptEntry` -/
structure Entry where
  entryId : String
  role : MessageRole
  text : String
  content : Content
  modelId : Option String := none
  finishReason : Option String := none
  streamRunId : Option String := none
  streaming : Option Bool := none
  runNotice : Option RunNotice := none
  toolActivity : Option ToolActivity := none
  deriving DecidableEq, Repr

inductive TraceEventType
  | runStarted | chatDelta | chatCompleted | toolApprovalRequested | toolApprovalDecided
  | toolStarted | toolCompleted | toolFailed | toolExecutionResolved | memoryWritten
  | runPaused | runStopped
  deriving DecidableEq, Repr

/-- `ToolApprovalRequest`, as far as the page reads it. -/
structure ApprovalRequest where
  approvalId : String
  toolCallId : String
  toolName : String
  toolCall : Option Dict := none
  deriving DecidableEq, Repr

structure AgentTraceEvent where
  eventType : TraceEventType
  sequence : Option Int := none
  occurredAt : Option String := none
  message : Option Content := none
  response : Option ChatResponse := none
  textDelta : Option String := none
  toolCall : Option ToolCall := none
  toolResult : Option ToolCallResult := none
  approvalRequest : Option ApprovalRequest := none
  approvalDecision : Option ToolApprovalDecision := none
  errorType : Option String := none
  errorMessage : Option String := none
  payload : Dict := []
  metadata : Dict := []
  deriving DecidableEq, Repr

inductive StepType
  | start | chat | tool | toolError | memoryWrite | stop
  deriving DecidableEq, Repr

structure AgentStep where
  stepType : StepType
  response : Option ChatResponse := none
  message : Option Content := none
  toolCall : Option ToolCall := none
  toolResult : Option ToolCallResult := none
  errorType : Option String := none
  errorMessage : Option String := none
  metadata : Dict := []
  deriving DecidableEq, Repr

inductive RunStatus
  | running | paused | canceled | finished | failed
  deriving DecidableEq, Repr

structure RunRequest where
  contextId : String
  messages : List Content := []
  skillNames : List String := []
  metadata : Dict := []
  deriving DecidableEq, Repr

structure RunFailure where
  errorType : String
  message : String
  detail : Option String := none
  deriving DecidableEq, Repr

structure RunHistory where
  startedAt : Option String := none
  messageOffset : Option Int := none
  messageIndices : Option (List Int) := none
  generation : Value := .none
  deriving DecidableEq, Repr

/-- `AgentRunState` -/
structure Run where
  runId : String
  request : RunRequest
  status : Option RunStatus := none
  response : Option ChatResponse := none
  stopReason : Option String := none
  steps : List AgentStep := []
  trace : List AgentTraceEvent := []
  skillRevisions : Option (List (String × Option String)) := none
  pendingApprovalRequests : List ApprovalRequest := []
  /-- `pause.resumable`, when the run has a pause -/
  pauseResumable : Option Bool := none
  toolRoundsUsed : Option Nat := none
  failure : Option RunFailure := none
  history : Option RunHistory := none
  deriving DecidableEq, Repr

/-- `entry.streamRunId === runId` -/
def Entry.ofRun (runId : String) (entry : Entry) : Bool := entry.streamRunId = some runId

/-! ### Messages -/

/-- `visibleTextFromContent` -/
def visibleTextFromContent (message : Content) : String :=
  "\n".intercalate ((message.content.getD []).filterMap (·.text))

/-- `textFromContent` -/
def textFromContent (message : Content) : String :=
  if visibleTextFromContent message ≠ "" then visibleTextFromContent message else "[没有文本内容]"

def hasImage (content : Content) : Bool :=
  (content.content.getD []).any fun part =>
    part.type = .image && ((nonEmpty part.artifactId).isSome || (nonEmpty part.url).isSome)

/-- The last index that satisfies the condition. -/
def lastIndex {α : Type} (entries : List α) (condition : α → Nat → Bool) : Option Nat :=
  (entries.zipIdx.reverse.find? fun e => condition e.1 e.2).map (·.2)

/-- `assistantEntry` -/
def assistantEntry (response : ChatResponse) (index : Nat) : Entry where
  entryId := (nonEmpty response.responseId).getD ("assistant-" ++ toString index)
  role := response.message.role
  text := textFromContent response.message
  content := response.message
  modelId := some response.modelId
  finishReason := response.finishReason

/-- The optional parameters of `upsertTool`. -/
structure ToolUpdate where
  status : ToolStatus
  resultText : Option String := none
  preserveStatus : Bool := false
  errorType : Option String := none
  notice : Option String := none
  startedAt : Option String := none
  finishedAt : Option String := none
  durationMs : Option Value := none
  deriving DecidableEq, Repr

/-- `call.tool_call.name || call.tool_call.tool_name`, if it is a text. -/
def calledName (call : ToolCall) : Option String :=
  let name := match (call.toolCall.get "name").filter truthy with
    | some name => some name
    | none => call.toolCall.get "tool_name"
  match name with
  | some (.str name) => some name
  | _ => none

/-- `call.tool_call.arguments ?? call.tool_call.args` -/
def calledArguments (call : ToolCall) : Option Value :=
  match (call.toolCall.get "arguments").filter (· ≠ .none) with
  | some value => some value
  | none => call.toolCall.get "args"

section Functions

variable (b : Browser)

/-- The activity that `upsertTool` writes. -/
def updatedActivity (call : ToolCall) (update : ToolUpdate) (previous : Option ToolActivity) :
    ToolActivity where
  callId := call.toolCallId
  name := (calledName call).getD ((nonEmpty (previous.map (·.name))).getD "工具调用")
  status := update.status
  errorType := update.errorType
  notice := update.notice
  startedAt := update.startedAt <|> previous.bind (·.startedAt)
  finishedAt := if update.status = .running then none
    else update.finishedAt <|> previous.bind (·.finishedAt)
  durationMs := if update.status = .running then none
    else update.durationMs <|> previous.bind (·.durationMs)
  argumentsText := match calledArguments call with
    | none => (nonEmpty (previous.map (·.argumentsText))).getD "\x7b\x7d"
    | some value => b.stringify value
  resultText := update.resultText <|> previous.bind (·.resultText)

/-- Where the current turn has its entry for a call of the run. -/
def toolIndex (entries : List Entry) (callId runId : String) : Option Nat :=
  let turnStart := lastIndex entries fun entry _ => entry.role = .user
  lastIndex entries fun entry i => turnStart.all (· < i) &&
    entry.toolActivity.any (·.callId = callId) && entry.ofRun runId

/-- `upsertTool` -/
def upsertTool (entries : List Entry) (call : ToolCall) (runId : String) (update : ToolUpdate) :
    List Entry :=
  let index := toolIndex entries call.toolCallId runId
  let previous := index.bind fun i => entries[i]?
  let previousActivity := previous.bind (·.toolActivity)
  if previousActivity.isSome && update.preserveStatus then entries
  else
    let newId := "tool-" ++ runId ++ "-" ++ toString entries.length ++ "-" ++ call.toolCallId
    let entry : Entry :=
      { entryId := (nonEmpty (previous.map (·.entryId))).getD newId
        role := .tool
        text := ""
        content := { role := .tool, toolCallId := some call.toolCallId }
        streamRunId := some runId
        toolActivity := some (updatedActivity b call update previousActivity) }
    match index with
    | none => entries ++ [entry]
    | some i => entries.set i entry

/-- `messageEntryId` -/
def messageEntryId (content : Content) (index : Nat) : String :=
  let role := match content.role with
    | .user => "user"
    | .assistant => "assistant"
    | .tool => "tool"
    | .system => "system"
  match content.metadata.get "message_id" with
  | some (.str messageId) =>
    if messageId ≠ "" then messageId else role ++ "-" ++ toString (index + 1)
  | _ => role ++ "-" ++ toString (index + 1)

/-- One turn of the loop of `transcriptFromMessages`. -/
def showMessage (entries : List Entry) (content : Content) (index : Nat) : List Entry :=
  let text := visibleTextFromContent content
  let entries :=
    if (content.role = .user ∨ content.role = .assistant) ∧ (text ≠ "" ∨ hasImage content) then
      entries ++ [{
        entryId := messageEntryId content index
        role := content.role
        text := if text ≠ "" then text else "[图片]"
        content }]
    else entries
  let entries :=
    if content.role = .assistant then
      (content.toolCalls.getD []).foldl (fun entries call =>
        upsertTool b entries call "history"
          { status := .pending, notice := some "结果尚未确认" }) entries
    else entries
  match content.role, nonEmpty content.toolCallId with
  | .tool, some toolCallId =>
    upsertTool b entries
      { toolCallId
        toolCall := match nonEmpty content.name with
          | some name => [("name", .str name)]
          | none => [] }
      "history"
      { status := if (content.metadata.get "error").any truthy || content.status = some .error
          then .failed else .completed
        resultText := some text }
  | _, _ => entries

/-- `transcriptFromMessages` -/
def transcriptFromMessages (messages : List Content) : List Entry :=
  messages.zipIdx.foldl (fun entries m => showMessage b entries m.1 m.2) []

/-! ### Events -/

/-- `completeStreamedResponse` -/
def completeStreamedResponse (entries : List Entry) (response : ChatResponse) (runId : String) :
    List Entry :=
  let last? := lastIndex entries fun item _ => item.ofRun runId
  let trailing := last?.elim [] fun i => entries.drop (i + 1)
  let entries := last?.elim entries fun i => entries.take (i + 1)
  let last := (entries.filter (·.ofRun runId)).getLast?
  let text := visibleTextFromContent response.message
  let entry : Entry :=
    { assistantEntry response (entries.length + 1) with
      entryId := match nonEmpty response.responseId with
        | some responseId => runId ++ "-response-" ++ responseId
        | none => runId ++ "-assistant-" ++ toString (entries.length + 1)
      streamRunId := some runId
      streaming := some false }
  let previous := entries.reverse.find? fun item =>
    item.ofRun runId && item.toolActivity.isNone && item.runNotice.isNone
  let calls := response.message.toolCalls.getD []
  -- `last === previous`: the last entry of the run is neither a tool's nor a notice
  let lastIsPrevious := last.any fun item => item.toolActivity.isNone && item.runNotice.isNone
  let alreadyCompleted := previous.any fun item =>
    item.streaming ≠ some true &&
    (((nonEmpty response.responseId).isSome && item.entryId = entry.entryId) ||
      (item.text = text &&
        (lastIsPrevious ||
          (!calls.isEmpty && calls.all fun call => entries.any fun item =>
            item.ofRun runId && item.toolActivity.any (·.callId = call.toolCallId)))))
  let result :=
    match last.filter fun item => item.streaming = some true && item.toolActivity.isNone with
    | some item =>
      if text ≠ "" then entries.dropLast ++ [{ entry with entryId := item.entryId }]
      else entries.dropLast
    | none => if text ≠ "" && !alreadyCompleted then entries ++ [entry] else entries
  let result := calls.foldl (fun result call =>
    upsertTool b result call runId { status := .pending, preserveStatus := true }) result
  result ++ trailing

/-- The call an event is about. -/
def eventCall (event : AgentTraceEvent) : Option ToolCall :=
  match event.toolCall with
  | some call => some call
  | none => event.approvalRequest.map fun request =>
      { toolCallId := request.toolCallId
        toolCall := request.toolCall.getD [("name", .str request.toolName)] }

/-- The status a tool event gives its call. -/
def eventStatus (event : AgentTraceEvent) : Option ToolStatus :=
  match event.eventType with
  | .toolStarted => some .running
  | .toolCompleted => some .completed
  | .toolFailed => some .failed
  | .toolApprovalRequested => some .approval
  | .toolApprovalDecided =>
    if event.approvalDecision.any (·.status = .approved) ||
        event.metadata.get "allowed" = some (.bool true) then some .pending
    else some .failed
  | _ => none

/-- What a tool event tells about its call. -/
def eventUpdate (event : AgentTraceEvent) (status : ToolStatus) : ToolUpdate where
  status := status
  resultText :=
    match nonEmpty event.errorMessage, event.toolResult with
    | some message, _ => some message
    | none, some result => some (b.stringifyRecord result.toolCallResult)
    | none, none =>
      if status = .failed then
        some (if event.eventType = .toolFailed then "工具执行失败" else "调用未获批准")
      else none
  errorType := nonEmpty event.errorType
  startedAt := if event.eventType = .toolStarted then nonEmpty event.occurredAt else none
  finishedAt := if event.eventType = .toolCompleted ∨ event.eventType = .toolFailed then
    nonEmpty event.occurredAt else none
  durationMs := (event.metadata.get "duration_ms").filter isNumber

/-- A text delta of the run: it goes on with the entry being streamed, or begins one. -/
def applyDelta (entries : List Entry) (delta runId : String) : List Entry :=
  let continued := entries.getLast?.filter fun last =>
    last.ofRun runId && last.streaming = some true && last.toolActivity.isNone
  let text := (continued.elim "" (·.text)) ++ delta
  let entry : Entry :=
    { entryId := continued.elim ("stream-" ++ runId ++ "-" ++ toString entries.length) (·.entryId)
      role := .assistant
      text
      streamRunId := some runId
      streaming := some true
      content :=
        { role := .assistant, content := some [{ type := .text, text := some text }] } }
  match continued with
  | some _ => entries.dropLast ++ [entry]
  | none => entries ++ [entry]

/-- `applyChatTrace` -/
def applyChatTrace (entries : List Entry) (event : AgentTraceEvent) (runId : String) :
    List Entry :=
  match event.eventType, event.response with
  | .chatCompleted, some response => completeStreamedResponse b entries response runId
  | _, _ =>
    match eventCall event, eventStatus event with
    | some call, some status => upsertTool b entries call runId (eventUpdate b event status)
    | _, _ =>
      match event.eventType, nonEmpty event.textDelta with
      | .chatDelta, some delta => applyDelta entries delta runId
      | _, _ => entries

/-! ### Snapshots -/

/-- The events of a snapshot, made from its steps if it has no trace. -/
def Run.events (run : Run) : List AgentTraceEvent :=
  if !run.trace.isEmpty then run.trace
  else run.steps.filterMap fun step =>
    let event := fun eventType : TraceEventType =>
      { eventType
        response := step.response
        message := step.message
        toolCall := step.toolCall
        toolResult := step.toolResult
        errorType := step.errorType
        errorMessage := step.errorMessage
        metadata := step.metadata : AgentTraceEvent }
    match step.stepType with
    | .chat => if step.response.isSome then some (event .chatCompleted) else none
    | .tool => some (event .toolCompleted)
    | .toolError => some (event .toolFailed)
    | _ => none

/-- The events that are applied: of a sequence number only the first. -/
def unseenEvents (seen : List Int) : List AgentTraceEvent → List AgentTraceEvent
  | [] => []
  | event :: rest =>
    match event.sequence with
    | none => event :: unseenEvents seen rest
    | some sequence =>
      if sequence ∈ seen then unseenEvents seen rest
      else event :: unseenEvents (sequence :: seen) rest

/-- The loop over the events of a snapshot. -/
def replayEvents (entries : List Entry) (events : List AgentTraceEvent) (runId : String) :
    List Entry :=
  (unseenEvents [] events).foldl (fun entries event => applyChatTrace b entries event runId)
    entries

/-- A pending approval is shown unless the call has gone on without it. -/
def showApproval (run : Run) (entries : List Entry) (approval : ApprovalRequest) : List Entry :=
  let recorded := (entries.reverse.find? fun entry =>
    entry.ofRun run.runId && entry.toolActivity.any (·.callId = approval.toolCallId)).bind
      (·.toolActivity)
  let decided := run.events.any fun event =>
    event.eventType = .toolApprovalDecided &&
      ((nonEmpty (event.toolCall.map (·.toolCallId))) <|>
        event.approvalDecision.map (·.toolCallId)) = some approval.toolCallId
  if recorded.any (fun activity =>
      [ToolStatus.running, .completed, .failed, .canceled].contains activity.status) then entries
  else if recorded.any (·.status = .pending) && decided then entries
  else applyChatTrace b entries
    { eventType := .toolApprovalRequested, approvalRequest := some approval } run.runId

/-- The activity of a call when its run does not run any more. -/
def settleActivity (run : Run) (activity : ToolActivity) : ToolActivity :=
  if [ToolStatus.completed, .failed, .canceled].contains activity.status then activity
  else if activity.status = .approval && run.status = some .paused &&
      run.pendingApprovalRequests.any (·.toolCallId = activity.callId) then activity
  else
    let unapproved := run.status = some .canceled && activity.status = .approval
    { activity with
      status := if unapproved then .canceled else .pending
      notice := some (if run.status = some .paused then "运行已暂停，等待继续"
        else if unapproved then "审批已取消，工具未执行"
        else "运行已停止，结果尚未确认") }

def settleEntry (run : Run) (entry : Entry) : Entry :=
  if entry.ofRun run.runId then
    { entry with
      streaming := some false
      toolActivity := entry.toolActivity.map (settleActivity run) }
  else entry

/-- `run.status && run.status !== 'running'` -/
def Run.stopped (run : Run) : Bool := run.status.any (· ≠ .running)

/-- The error of `runFailureError`: its type, message and detail. -/
structure FailureError where
  errorType : String
  message : String
  detail : Value := .none
  deriving DecidableEq, Repr

/-- `runFailureError` -/
def runFailureError (run : Run) : Option FailureError :=
  let event := run.trace.reverse.find? fun event =>
    event.eventType = .runStopped && (nonEmpty event.errorType).isSome
  let errorType := (event.bind fun event => nonEmpty event.errorType) <|>
    run.failure.map (·.errorType)
  errorType.map fun errorType =>
    { errorType
      message := ((event.bind fun event => nonEmpty event.errorMessage) <|>
        nonEmpty (run.failure.map (·.message))).getD errorType
      detail := ((event.bind fun event => (event.payload.get "error_detail").filter truthy) <|>
        (run.failure.bind (·.detail)).map Value.str).getD .none }

/-- Why the run failed, as its notice says it. -/
def failureText (run : Run) : String :=
  let stopText := match run.stopReason with
    | some "tool_error" => some "工具调用失败"
    | some "tool_rounds_exhausted" => some "工具调用轮次已达上限"
    | _ => none
  let traced := (run.trace.reverse.find? fun event =>
    (nonEmpty event.errorMessage).isSome).bind (·.errorMessage)
  ((nonEmpty ((runFailureError run).map (·.message)) <|> traced) <|> stopText).getD "原因未知"

/-- The notice of a canceled or failed run. -/
def noticeEntry (run : Run) : Option Entry :=
  let entry := fun (text : String) (notice : RunNotice) =>
    { entryId := run.runId ++ "-status"
      role := .system
      text
      content := { role := .system, content := some [{ type := .text, text := some text }] }
      streamRunId := some run.runId
      runNotice := some notice : Entry }
  match run.status with
  | some .canceled => some (entry "请求已取消" .canceled)
  | some .failed => some (entry ("运行失败：" ++ failureText run) .failed)
  | _ => none

/-- What the snapshot is replayed over, and what comes behind it. -/
def splitTranscript (entries : List Entry) (run : Run) : List Entry × List Entry :=
  if run.events.isEmpty then
    match lastIndex entries fun entry _ => entry.ofRun run.runId with
    | none => (entries, [])
    | some last => (entries.take (last + 1), entries.drop (last + 1))
  else
    match entries.findIdx? (·.ofRun run.runId) with
    | none => (entries, [])
    | some first =>
      (entries.take first, (entries.drop first).filter fun entry => !entry.ofRun run.runId)

/-- `reconcileRunTranscript` -/
def reconcileRunTranscript (entries : List Entry) (run : Run) : List Entry :=
  let (result, trailing) := splitTranscript entries run
  let result := replayEvents b result run.events run.runId
  let result := run.pendingApprovalRequests.foldl (showApproval b run) result
  let result := if run.stopped then result.map (settleEntry run) else result
  let result := result.filter fun entry => !(entry.ofRun run.runId && entry.runNotice.isSome)
  result ++ (noticeEntry run).toList ++ trailing

end Functions

end EvernightAI.Frontend
