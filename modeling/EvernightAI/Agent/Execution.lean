import EvernightAI.Agent.Approvals
import EvernightAI.Agent.Recovery
import EvernightAI.Lib.TransitionSystem

/-!
# Executing a run

One run, its rows in the database and its context, executed by at most one process at a time, as a
transition system. A step ends at a persisted effect, at an answer from outside (a model, a tool), or
at a point where the run may be interrupted; a *crash* may follow any step.

* The generators of `AgentExecutionApplication` are cut at their `yield`s and `await`s: a `RunPoint`
  is where a generator stands, with the local variables it needs from there on.
* `_stream_and_store` drives the generator. A `RunStage` is where the two of them are: the generator
  is running (`at`), an event was yielded (`emit`), it is in the journal (`appended`), the snapshot
  is saved and the event is handed on (`handing`), or the session is ending.
* `RunLabel` is what is decided outside: the answers, the errors, timeouts and crashes, and the
  commands given to the run — pause, recovery, resume.

Every statement names this run, so the rows are one `RunRecord`. Its lease columns are written by the
executor while it runs; `RunLabel.lease` sets them to anything at any time. A fenced save therefore
stands here for one that finds its lease. Usage, skill revisions and event summaries are left out; a
skill that changed is a `raise`.
-/

namespace EvernightAI

/-- What the runtime supplies to an execution beside the registers: the tool manager, and the texts
results and errors are given to the model in. -/
structure AgentRuntime where
  tools : ToolManager
  resultText : ToolCallResult → String := fun _ => ""
  errorText : Error → String := fun e => e.message

/-! ### Trace events and messages -/

namespace AgentRunState

/-- The last step, when it is of the event's kind, is the one the event stands for. -/
def tagLastStep (event : AgentTraceEvent) (steps : List AgentStep) : List AgentStep :=
  match steps.getLast? with
  | some last =>
    if event.stepType = some last.stepType ∧ last.stepType ≠ .chat then
      steps.dropLast ++ [{ last with traceEventId := event.eventId }]
    else steps
  | none => steps

/-- The event `_add_trace` makes, with its id. -/
def tracedEvent (state : AgentRunState) (eventId : Nat) (event : AgentTraceEvent) :
    AgentTraceEvent :=
  { event with
    eventId := some eventId
    metadata :=
      if event.eventType = .chatCompleted then
        event.metadata.set "remaining_tool_rounds" (.int state.remainingToolRounds)
      else event.metadata }

/-- `_add_trace`: the snapshot with the event made from this one. -/
def addTrace (state : AgentRunState) (eventId : Nat) (event : AgentTraceEvent) : AgentRunState :=
  let event := state.tracedEvent eventId event
  { state with
    steps := tagLastStep event state.steps
    trace := state.trace ++ [event] }

/-- `event.sequence = sequence; state.applied_trace_sequence = sequence`, for an event of the
trace. -/
def applySequence (state : AgentRunState) (event : AgentTraceEvent) (sequence : Nat) :
    AgentRunState :=
  { state with
    trace := state.trace.map fun other =>
      if other.eventId = event.eventId then { other with sequence := some sequence } else other
    appliedTraceSequence := some sequence }

def addStep (state : AgentRunState) (step : AgentStep) : AgentRunState :=
  { state with steps := state.steps ++ [step] }

/-- `_run_transcript` -/
def runTranscript (state : AgentRunState) : List Content :=
  state.request.messages ++ state.steps.filterMap fun step =>
    if step.stepType.traced then step.message else none

/-- `_new_run_state` for a run that is stored, which pauses for approvals. -/
def newRunState (runId : String) (startedAt : Instant) (request : AgentRunRequest) :
    AgentRunState where
  runId
  ownerId := request.ownerId
  request := { request with pauseOnApproval := true }
  remainingToolRounds := request.maxToolRounds
  appliedTraceSequence := some 0
  history := { startedAt := some startedAt }

end AgentRunState

/-- `_tool_result_to_message` -/
def AgentRuntime.toolResultMessage (runtime : AgentRuntime) (result : ToolCallResult) : Content where
  role := .tool
  toolCallId := some result.toolCallId
  content := some [{ type := .text, text := some (runtime.resultText result) }]

/-- `_tool_error_to_message` -/
def AgentRuntime.toolErrorMessage (runtime : AgentRuntime) (call : ToolCall) (e : Error) :
    Content where
  role := .tool
  toolCallId := some call.toolCallId
  content := some [{ type := .text, text := some (runtime.errorText e) }]
  metadata := [("error", .bool true), ("error_type", .str e.errorType.className)]

/-- `_run_stopped_event` -/
def runStoppedEvent (stopReason : Option AgentStopReason) : AgentTraceEvent where
  eventType := .runStopped
  stepType := some .stop
  metadata := match stopReason with
    | some reason => [("reason", .str reason.value)]
    | none => []

/-! ### Where an execution stands -/

/-- A call in the loop over the calls of a response: prepared, with the calls after it and the ids
whose approval was requested before the loop was entered. -/
structure CallSite where
  call : ToolCall
  rest : List ToolCall
  requested : List String
  deriving DecidableEq

/-- Where the generator of a session stands. -/
inductive RunPoint
  /-- `_resume_agent_events`, with the approvals it was given -/
  | resuming (approvals : List ToolApprovalDecision)
  /-- `_run_agent_events`, before its context is read -/
  | openContext
  /-- `_chat_events`, waiting for the model: the first response, or the one after a tool round -/
  | model (afterRound : Bool)
  /-- `_continue_tool_loop`, about to be entered -/
  | toolLoop (calls : List ToolCall) (remainingRounds : Nat) (requested : List String)
  /-- the loop over the calls, with those still to be handled -/
  | nextCall (calls : List ToolCall) (requested : List String)
  /-- the call was authorized; approval events are still to be yielded -/
  | announce (events : List AgentTraceEvent) (site : CallSite)
      (decision : Option ToolSafetyDecision)
  /-- about to execute the call -/
  | execute (site : CallSite) (decision : Option ToolSafetyDecision)
  /-- `_execute_tool_call`: the attempt is stored, and about to be saved as STARTED -/
  | start (attempt : ToolExecutionAttempt) (site : CallSite)
  /-- `_execute_tool_call`: about to call the tool manager -/
  | invoke (attempt : Option ToolExecutionAttempt) (site : CallSite)
  /-- the executor of the tool is running -/
  | invoked (attempt : Option ToolExecutionAttempt) (site : CallSite)
  /-- a tool failed and errors are not recovered -/
  | toolErrorStop
  /-- `_commit_run_transcript`, with the messages left and the indices of those appended -/
  | commit (messages : List Content) (indices : List Nat)
  /-- `_write_memory_events` and the end of the run -/
  | memories
  /-- the generator has returned -/
  | stopped
  deriving DecidableEq

/-- Where a session stands: the generator and the loop of `_stream_and_store` around it. -/
inductive RunStage
  /-- the generator is running -/
  | at (point : RunPoint)
  /-- the generator yielded an event -/
  | emit (event : AgentTraceEvent) (point : RunPoint)
  /-- the event is in the journal, the snapshot is not saved -/
  | appended (event : AgentTraceEvent) (point : RunPoint)
  /-- the snapshot is saved, the event is handed to the consumer -/
  | handing (event : AgentTraceEvent) (point : RunPoint)
  /-- a pause event is in the journal, the paused snapshot is not saved -/
  | pausing
  /-- the generator raised at a point -/
  | raised (point : RunPoint) (error : Error)
  /-- the snapshot is saved; `_mark_failed` is next -/
  | marking (point : RunPoint) (error : Error)
  /-- the `finally` clause; a timeout is still to be recorded -/
  | closing (timedOut : Bool)
  /-- `_mark_interrupted` -/
  | interrupted
  /-- `_reconcile_tool_executions`: the attempts listed, and those still to be saved -/
  | reconciling (attempts : Option (List ToolExecutionAttempt)) (todo : List ToolExecutionAttempt)
  /-- the last save of the session -/
  | saving
  deriving DecidableEq

/-- An execution of the run, with its own copy of the snapshot. -/
structure RunSession where
  state : AgentRunState
  stage : RunStage
  deriving DecidableEq

/-- A tool call handed to its executor, or answered by it. -/
inductive ToolInvocation
  | invoked (toolRound : Nat) (call : ToolCall)
  | returned (toolRound : Nat) (toolCallId : String)
  deriving DecidableEq

/-- The run: what is stored, the session that executes it, and the history of three things the
stored rows forget — which positions of its transcript were appended to the context, which decisions
it was given and for which round, which calls reached an executor. -/
structure RunWorld where
  record : RunRecord
  context : List Content := []
  nextEventId : Nat := 0
  session : Option RunSession := none
  appended : List Nat := []
  supplied : List (Nat × ToolApprovalDecision) := []
  invocations : List ToolInvocation := []

/-- What is decided outside the code. -/
inductive RunLabel
  /-- the code goes on -/
  | go
  /-- the model answers -/
  | respond (response : ChatResponse)
  /-- the model's answer arrives in part -/
  | delta (text : String)
  /-- the executor of a tool ends -/
  | finish (outcome : Except Error Dict)
  /-- the memory strategy yields a memory, and it is written -/
  | remember (metadata : Dict)
  /-- something the generator awaits or checks raises -/
  | raise (error : Error)
  /-- the task is cancelled, by its timeout or otherwise -/
  | interrupt (timedOut : Bool)
  /-- the process dies -/
  | crash
  | lease (owner : Option String) (expiresAt : Option Instant)
  | pause (reason : Option String)
  | recover (now : Instant) (grace : Int)
  | resume (approvals : List ToolApprovalDecision)

/-- Something the generator does at this point may raise: it reads the context, checks the skills,
calls the model, or writes the context or a memory. -/
def RunPoint.mayRaise : RunPoint → Bool
  | .resuming _ | .openContext | .model _ | .nextCall _ _ | .execute _ _ | .commit _ _
  | .memories => true
  | _ => false

/-- The generator awaits something at this point. -/
def RunPoint.awaits : RunPoint → Bool
  | .openContext | .model _ | .invoked _ _ | .commit _ _ | .memories => true
  | _ => false

/-- The call as it is executed under an attempt. -/
def CallSite.persistedCall (site : CallSite) : Option ToolExecutionAttempt → ToolCall
  | some attempt => site.call.withIdempotencyKey attempt.idempotencyKey
  | none => site.call

/-- The events a pause may follow. -/
def AgentTraceEventType.checkpoint : AgentTraceEventType → Bool
  | .runStarted | .chatCompleted | .toolApprovalRequested | .toolApprovalDecided | .toolCompleted
  | .toolFailed => true
  | _ => false

namespace RunWorld

variable (runtime : AgentRuntime) (world : RunWorld)

/-! ### The generators -/

/-- The generator goes on from another point. -/
def goto (state : AgentRunState) (point : RunPoint) : RunWorld :=
  { world with session := some ⟨state, .at point⟩ }

/-- The generator yields an event. -/
def emit (state : AgentRunState) (event : AgentTraceEvent) (point : RunPoint) : RunWorld :=
  { world with
    nextEventId := world.nextEventId + 1
    session := some ⟨state.addTrace world.nextEventId event,
      .emit (state.tracedEvent world.nextEventId event) point⟩ }

def raiseAt (state : AgentRunState) (point : RunPoint) (error : Error) : RunWorld :=
  { world with session := some ⟨state, .raised point error⟩ }

/-- `_run_agent_events` up to its first event. -/
def runAgentEvents (state : AgentRunState) : RunWorld :=
  let metadata : Dict := [("context_id", .str state.request.contextId),
    ("model_id", .str state.request.modelId)]
  let state := { state with
    history := { state.history with
      messageOffset := some world.context.length, messageIndices := some [] } }
  world.emit (state.addStep { stepType := .start, metadata })
    { eventType := .runStarted, stepType := some .start, metadata } (.model false)

/-- A completed response: `_chat_events` yields it, `_record_chat_response` keeps it, and the tool
loop is entered with its calls. -/
def chatCompleted (state : AgentRunState) (afterRound : Bool) (response : ChatResponse) : RunWorld :=
  let event : AgentTraceEvent := {
    eventType := .chatCompleted, stepType := some .chat
    response := some response, message := some response.message }
  let traced := state.tracedEvent world.nextEventId event
  let state := state.addTrace world.nextEventId event
  { world with
    nextEventId := world.nextEventId + 1
    session := some ⟨
      { state.addStep {
          stepType := .chat, traceEventId := traced.eventId
          response := some response, message := some response.message } with
        response := some response },
      .emit traced (.toolLoop response.message.calls
        (if afterRound then state.remainingToolRounds else state.request.maxToolRounds) [])⟩ }

/-- A part of a streamed response. -/
def chatDelta (state : AgentRunState) (afterRound : Bool) (text : String) : RunWorld :=
  world.emit state { eventType := .chatDelta, stepType := some .chat, textDelta := some text }
    (.model afterRound)

/-- The end of a run: its STOP step is made before the transcript is appended. -/
def finishLoop (state : AgentRunState) (stopReason : AgentStopReason) : RunWorld :=
  let state := { state.addStep {
      stepType := .stop, metadata := [("reason", .str stopReason.value)] } with
    stopReason := some stopReason
    toolRoundsUsed := (state.request.maxToolRounds : Int) - state.remainingToolRounds }
  world.goto state (.commit state.runTranscript [])

/-- `_continue_tool_loop` up to its first call, or to the end of the run. The local
`remaining_rounds` is always what the snapshot has. -/
def continueToolLoop (state : AgentRunState) (calls : List ToolCall) (remainingRounds : Nat)
    (requested : List String) : RunWorld :=
  let state := { state with
    remainingToolRounds := remainingRounds, stopReason := some .finished }
  if calls ≠ [] ∧ 0 < remainingRounds then world.goto state (.nextCall calls requested)
  else
    world.finishLoop { state with pendingToolCalls := [], pendingApprovalRequests := [] }
      (if calls = [] then .finished else .toolRoundsExhausted)

/-- `_add_trace` for several events. -/
def addTraces : AgentRunState → Nat → List AgentTraceEvent → AgentRunState × List AgentTraceEvent
  | state, _, [] => (state, [])
  | state, eventId, event :: events =>
    let (state', traced) := addTraces (state.addTrace eventId event) (eventId + 1) events
    (state', state.tracedEvent eventId event :: traced)

/-- The loop body up to the decision on the next call; after the last call, the round is over and the
model is asked again (`_continue_after_completed_tool_round`). -/
def handleNextCall (state : AgentRunState) (calls : List ToolCall) (requested : List String) :
    RunWorld :=
  match calls with
  | [] =>
    world.goto { state with remainingToolRounds := state.remainingToolRounds - 1 } (.model true)
  | raw :: rest =>
    let call := state.preparedCall raw
    let decision := toolSafetyDecision runtime.tools call
    let events := toolApprovalEvents call decision (!requested.contains call.toolCallId)
    let (state, traced) := addTraces state world.nextEventId events
    { world with
      nextEventId := world.nextEventId + events.length
      session := some ⟨state, .at (.announce traced ⟨call, rest, requested⟩ decision)⟩ }

/-- `_run_paused_event` -/
def pauseForApproval (state : AgentRunState) (site : CallSite) (decision : ToolSafetyDecision) :
    RunWorld :=
  let used := (state.request.maxToolRounds : Int) - state.remainingToolRounds
  world.emit { state with
      status := .paused
      stopReason := none
      toolRoundsUsed := used
      pendingToolCalls := site.call :: site.rest
      pendingApprovalRequests := decision.approvalRequest.toList } {
    eventType := .runPaused
    toolCall := some site.call
    approvalRequest := decision.approvalRequest
    metadata := [("reason", .str "tool_approval_required"),
      ("remaining_tool_rounds", .int state.remainingToolRounds), ("tool_rounds_used", .int used)] }
    .stopped

/-- The loop body from the decision to the execution of the call. -/
def announceCall (state : AgentRunState) (events : List AgentTraceEvent) (site : CallSite)
    (decision : Option ToolSafetyDecision) : RunWorld :=
  match events with
  | event :: events =>
    { world with session := some ⟨state, .emit event (.announce events site decision)⟩ }
  | [] =>
    match decision with
    | none => world.emit state {
        eventType := .toolStarted, stepType := some .tool, toolCall := some site.call }
        (.execute site decision)
    | some granted =>
      if state.request.pauseOnApproval && shouldPauseForApproval site.call granted then
        world.pauseForApproval state site granted
      else if granted.allowed then world.emit state {
          eventType := .toolStarted, stepType := some .tool, toolCall := some site.call }
          (.execute site decision)
      else world.goto state (.execute site decision)

/-- The tool returned. -/
def toolCompleted (state : AgentRunState) (site : CallSite) (result : ToolCallResult) : RunWorld :=
  let message := runtime.toolResultMessage result
  world.emit (state.addStep {
      stepType := .tool, message := some message, toolCall := some site.call
      toolResult := some result }) {
    eventType := .toolCompleted, stepType := some .tool
    message := some message, toolCall := some site.call, toolResult := some result }
    (.nextCall site.rest site.requested)

/-- The tool, or what decides about it, raised. -/
def toolFailed (state : AgentRunState) (site : CallSite) (e : Error) : RunWorld :=
  let message := runtime.toolErrorMessage site.call e
  world.emit (state.addStep {
      stepType := .toolError, message := some message, toolCall := some site.call
      errorType := some e.errorType, errorMessage := some e.message }) {
    eventType := .toolFailed, stepType := some .toolError
    message := some message, toolCall := some site.call
    errorType := some e.errorType, errorMessage := some e.message }
    (if state.request.recoverToolErrors then .nextCall site.rest site.requested
    else .toolErrorStop)

/-- The attempts are written. The statements name a row that was read or stored before. -/
def putAttempt (attempt : ToolExecutionAttempt) : RunWorld :=
  { world with
    record := { world.record with ledger := world.record.ledger.map (·.upsert attempt) } }

/-- The rest of the loop body up to the first write of `_execute_tool_call`. -/
def executeToolCall (state : AgentRunState) (site : CallSite)
    (decision : Option ToolSafetyDecision) : RunWorld :=
  match policyRejection site.call decision with
  | some rejection => world.toolFailed runtime state site rejection
  | none =>
    match world.record.ledger, site.call.toolName with
    | some ledger, some toolName =>
      match prepareToolExecution state.runId state.currentToolRound runtime.tools.tool? toolName
        site.call ledger.listAttempts with
      | .error e =>
        -- Ledger and run state failures stop the run; they are not tool errors.
        if e.errorType = .agentStateError then world.raiseAt state (.execute site decision) e
        else world.toolFailed runtime state site e
      | .ok (.reuse result) => world.toolCompleted runtime state site result
      | .ok (.run attempt created) =>
        if created then
          match ledger.createAttempt attempt with
          | .error e => world.raiseAt state (.execute site decision) e
          | .ok _ => (world.putAttempt attempt).goto state (.start attempt site)
        else world.goto state (.start attempt site)
    | _, _ => world.goto state (.invoke none site)

/-- The attempt is saved as STARTED. -/
def startAttempt (state : AgentRunState) (attempt : ToolExecutionAttempt) (site : CallSite) :
    RunWorld :=
  let attempt := { attempt with
    status := .started, toolCall := site.persistedCall (some attempt) }
  (world.putAttempt attempt).goto state (.invoke (some attempt) site)

/-- The outcome of an execution is saved. -/
def saveOutcome (attempt : Option ToolExecutionAttempt) (outcome : Except Error ToolCallResult) :
    RunWorld :=
  match attempt, outcome with
  | none, _ => world
  | some attempt, .ok result => world.putAttempt { attempt with
      status := .completed, result := some result }
  | some attempt, .error e => world.putAttempt { attempt with
      status := .failed, errorType := some e.errorType, errorMessage := some e.message }

/-- `tools.execute` up to the executor. -/
def invokeTool (state : AgentRunState) (attempt : Option ToolExecutionAttempt) (site : CallSite) :
    RunWorld :=
  match runtime.tools.refuse? (site.persistedCall attempt) with
  | some e => (world.saveOutcome attempt (.error e)).toolFailed runtime state site e
  | none =>
    { world with
      invocations := world.invocations ++ [.invoked state.currentToolRound site.call]
      session := some ⟨state, .at (.invoked attempt site)⟩ }

/-- The error `ToolManager.execute` makes of an executor's. -/
def toolExecutionFailure (toolName : String) (e : Error) : Error :=
  if e.errorType = .toolExecutionError then {
    errorType := .toolExecutionError
    message := "The tool " ++ toolName ++ " execution failed: " ++ e.message, detail := e.detail }
  else {
    errorType := .toolExecutionError, message := "The tool " ++ toolName ++ " execution failed" }

/-- The executor ended: its outcome is saved, and becomes the step of the call. -/
def finishTool (state : AgentRunState) (attempt : Option ToolExecutionAttempt) (site : CallSite)
    (outcome : Except Error Dict) : RunWorld :=
  let world := { world with invocations :=
    world.invocations ++ [ToolInvocation.returned state.currentToolRound site.call.toolCallId] }
  match outcome with
  | .ok toolCallResult =>
    let result : ToolCallResult := { toolCallId := site.call.toolCallId, toolCallResult }
    (world.saveOutcome attempt (.ok result)).toolCompleted runtime state site result
  | .error e =>
    let e := toolExecutionFailure (site.call.toolName.getD "") e
    (world.saveOutcome attempt (.error e)).toolFailed runtime state site e

/-- One message of `_commit_run_transcript`. -/
def commitMessage (state : AgentRunState) (message : Content) (messages : List Content)
    (indices : List Nat) : RunWorld :=
  let indices' := indices ++ [world.context.length]
  { world with
    context := world.context ++ [message]
    appended := world.appended ++ [indices.length]
    session := some ⟨{ state with
      history := { state.history with messageIndices := some indices' } },
      .at (.commit messages indices')⟩ }

/-- One memory of `_write_memory_events`. -/
def writeMemory (state : AgentRunState) (metadata : Dict) : RunWorld :=
  world.emit (state.addStep { stepType := .memoryWrite, metadata })
    { eventType := .memoryWritten, stepType := some .memoryWrite, metadata } .memories

/-- The last event of a run. -/
def stopRun (state : AgentRunState) : RunWorld :=
  world.emit { state with
      status := if state.stopReason = some .finished then .finished else .failed }
    (runStoppedEvent state.stopReason) .stopped

/-! ### Resuming -/

private def stateError (message : String) : Error := { errorType := .agentStateError, message }

/-- `_requested_approval_call_ids` -/
def requestedApprovalCallIds (state : AgentRunState) : List String :=
  (state.trace.reverse.takeWhile (·.eventType ≠ .chatCompleted)).filterMap fun event =>
    if event.eventType = .toolApprovalRequested then event.toolCall.map (·.toolCallId) else none

/-- The decisions given to a run count for a round. -/
def supply (approvals : List ToolApprovalDecision) (toolRound : Nat) : RunWorld :=
  { world with supplied :=
    world.supplied ++ approvals.map fun approval => (toolRound, approval.forRound toolRound) }

/-- `_resume_checkpoint_events` -/
def resumeCheckpointEvents (state : AgentRunState) : RunWorld :=
  let state := { state with
    status := .running, stopReason := none, pendingToolCalls := []
    pendingApprovalRequests := [], pause := none, pauseRequest := none }
  match state.response with
  | none => world.goto state (.model false)
  | some response =>
    let remaining := state.incompleteToolCalls response
    if remaining ≠ [] then
      world.goto state
        (.toolLoop remaining state.remainingToolRounds (requestedApprovalCallIds state))
    else if response.message.calls ≠ [] then
      world.goto { state with remainingToolRounds := state.remainingToolRounds - 1 } (.model true)
    else world.goto state (.toolLoop [] state.remainingToolRounds [])

/-- `_resume_agent_events` -/
def resumeAgentEvents (state : AgentRunState) (approvals : List ToolApprovalDecision) : RunWorld :=
  let raised := world.raiseAt state (.resuming approvals)
  if state.status ≠ .paused then raised (stateError "Agent run is not paused")
  else if !state.canResume then
    raised (stateError "Agent run cannot resume safely; retry it instead")
  else
    match agentResumeMode state with
    | .checkpoint =>
      -- Before the first response, approvals apply to it.
      let toolRound := max state.currentToolRound 1
      (world.supply approvals toolRound).resumeCheckpointEvents { state with
        request := { state.request with
          toolApprovals := mergeToolApprovals state.request.toolApprovals approvals toolRound } }
    | .approval =>
      let toolRound := state.currentToolRound
      let merged := mergeToolApprovals state.request.toolApprovals approvals toolRound
      let pending := state.pendingApprovalRequests.map (·.toolCallId)
      let missing := pending.dedup.filter fun toolCallId =>
        roundToolApproval merged toolRound toolCallId = none
      if state.response = none then raised (stateError "Agent run did not produce a response")
      else if state.pendingToolCalls = [] then
        raised (stateError "Agent run has no pending tool calls")
      else if missing ≠ [] then
        raised (stateError ("Missing approval for pending tool call: " ++
          String.intercalate ", " (missing.insertionSort (· ≤ ·))))
      else
        (world.supply approvals toolRound).goto { state with
            request := { state.request with toolApprovals := merged, pauseOnApproval := true }
            status := .running, stopReason := some .finished
            pendingToolCalls := [], pendingApprovalRequests := [] }
          (.toolLoop state.pendingToolCalls state.remainingToolRounds pending)

/-! ### The driver -/

/-- `_with_pending_text_trace` of the stored snapshot: `get_state`. -/
def loadedState : AgentRunState :=
  let state := world.record.state
  if state.status ≠ .running then state
  else
    let cursor := max ((state.trace.map fun event => event.sequence.getD 0).foldl max 0)
      (state.appliedTraceSequence.getD 0)
    let pending := (world.record.journal.filter fun event =>
      event.sequence.any (cursor < ·)).takeWhile (·.eventType = .chatDelta)
    { state with trace := state.trace ++ pending }

def saveSnapshot (state : AgentRunState) : RunWorld :=
  { world with record := { world.record with state } }

/-- The event is appended to the journal, and the snapshot moves its cursor there. -/
def appendEvent (state : AgentRunState) (event : AgentTraceEvent) (stage : RunStage) : RunWorld :=
  { world with
    record := world.record.appendEvent event
    session := some ⟨state.applySequence event world.record.nextSequence, stage⟩ }

def endAt (state : AgentRunState) (stage : RunStage) : RunWorld :=
  { world with session := some ⟨state, stage⟩ }

/-- The loop body of `_stream_and_store` up to `append_event`. A part of a response is journaled
without saving the snapshot. -/
def storeEvent (state : AgentRunState) (event : AgentTraceEvent) (point : RunPoint) : RunWorld :=
  if world.record.state.status = .canceled then world.endAt state (.closing false)
  else
    world.appendEvent state event
      (if event.eventType = .chatDelta then .at point else .appended event point)

/-- The pause request `_pause_at_checkpoint_if_requested` acts on. -/
def requestedPause (state : AgentRunState) : Option AgentPauseRequest :=
  if world.record.state.status = .running ∧ state.status = .running then
    world.record.state.pauseRequest
  else none

/-- `_pause_at_checkpoint_if_requested`: the run pauses, or goes on with its snapshot as given to
`next`. -/
def pauseAtCheckpoint (state : AgentRunState) (event : AgentTraceEvent)
    (next : AgentRunState → RunWorld) : RunWorld :=
  match world.requestedPause state with
  | none => next state
  | some request =>
    if event.eventType.checkpoint then
      let reason := request.reason.getD "pause"
      let checkpoint := event.eventType.value
      let state := { state with
        status := .paused, stopReason := none, pauseRequest := none
        pause := some { cause := .manual, checkpoint, resumable := true, reason := some reason } }
      let pauseEvent : AgentTraceEvent := {
        eventType := .runPaused
        metadata := [("reason", .str "pause"), ("control_reason", .str reason),
          ("checkpoint", .str checkpoint)] }
      { world with nextEventId := world.nextEventId + 1 }.appendEvent
        (state.addTrace world.nextEventId pauseEvent)
        (state.tracedEvent world.nextEventId pauseEvent) .pausing
    else next { state with pauseRequest := some request }

/-- The first check of a pause, and the save. -/
def storeSnapshot (state : AgentRunState) (event : AgentTraceEvent) (point : RunPoint) : RunWorld :=
  world.pauseAtCheckpoint state event fun state =>
    (world.saveSnapshot state).endAt state (.handing event point)

/-- The second check of a pause, after the event was handed on. -/
def handOn (state : AgentRunState) (event : AgentTraceEvent) (point : RunPoint) : RunWorld :=
  world.pauseAtCheckpoint state event fun state => world.goto state point

/-- The handler of `_stream_and_store`: the snapshot is saved before the failure is marked. -/
def saveRaised (state : AgentRunState) (point : RunPoint) (e : Error) : RunWorld :=
  (if world.record.state.status = .canceled then world else world.saveSnapshot state).endAt state
    (.marking point e)

/-- `_mark_failed` up to its save. The `finally` clause after it finds a FAILED run, and the
executor's failure handler marks it no second time. -/
def markFailed (state : AgentRunState) (e : Error) : RunWorld :=
  let loaded := world.loadedState
  if loaded.status ≠ .running then world.endAt state (.closing false)
  else
    let event : AgentTraceEvent := {
      eventType := .runStopped, errorType := some e.errorType, errorMessage := some e.message
      metadata := [("reason", .str "failed")] }
    let failed := { loaded.addTrace world.nextEventId event with
      status := .failed, stopReason := none, pendingToolCalls := [], pendingApprovalRequests := []
      failure := some { errorType := e.errorType, message := e.message } }
    { world with nextEventId := world.nextEventId + 1 }.appendEvent failed
      (loaded.tracedEvent world.nextEventId event) .saving

/-- The `finally` clause. -/
def closeStream (state : AgentRunState) (timedOut : Bool) : RunWorld :=
  let saved := if world.record.state.status = .canceled ∨ world.record.state.status = .failed
    then world else world.saveSnapshot state
  { saved with session := if timedOut then some ⟨state, .interrupted⟩ else none }

/-- `_mark_interrupted` up to the attempts it lists. -/
def markInterrupted : RunWorld :=
  let loaded := world.loadedState
  if loaded.status ≠ .running then { world with session := none }
  else
    let attempts := world.record.ledger.map (·.listAttempts)
    world.endAt loaded (.reconciling attempts (attempts.getD []))

/-- `_reconcile_tool_executions`, then the classification and the pause event. -/
def reconcile (state : AgentRunState) (attempts : Option (List ToolExecutionAttempt)) :
    List ToolExecutionAttempt → RunWorld
  | attempt :: todo =>
    (if attempt.status = .started then world.putAttempt { attempt with status := .unknown }
    else world).endAt state (.reconciling attempts todo)
  | [] =>
    let (checkpoint, state) :=
      inspectAgentRunCheckpoint world.record.journal (attempts.map reconciledAttempts) state
    if state.status ≠ .running then world.endAt state .saving
    else
      let event : AgentTraceEvent := {
        eventType := .runPaused
        metadata := [("reason", .str AgentPauseCause.timeout.source), ("interrupted", .bool true),
          ("checkpoint", .str checkpoint.name), ("recovery_eligible", .bool checkpoint.eligible)] }
      { world with nextEventId := world.nextEventId + 1 }.appendEvent
        ((state.addTrace world.nextEventId event).pausedAt .timeout checkpoint)
        (state.tracedEvent world.nextEventId event) .saving

/-! ### Steps -/

/-- One step of the generator. -/
def generatorStep (state : AgentRunState) (point : RunPoint) (label : RunLabel) : Option RunWorld :=
  match label with
  | .raise e => if point.mayRaise then some (world.raiseAt state point e) else none
  | .interrupt timedOut => if point.awaits then some (world.endAt state (.closing timedOut)) else none
  | .go =>
    match point with
    | .resuming approvals => some (world.resumeAgentEvents state approvals)
    | .openContext => some (world.runAgentEvents state)
    | .model _ => none
    | .toolLoop calls remaining requested =>
      some (world.continueToolLoop state calls remaining requested)
    | .nextCall calls requested => some (world.handleNextCall runtime state calls requested)
    | .announce events site decision => some (world.announceCall state events site decision)
    | .execute site decision => some (world.executeToolCall runtime state site decision)
    | .start attempt site => some (world.startAttempt state attempt site)
    | .invoke attempt site => some (world.invokeTool runtime state attempt site)
    | .invoked _ _ => none
    | .toolErrorStop => some (world.finishLoop state .toolError)
    | .commit (message :: messages) indices =>
      some (world.commitMessage state message messages indices)
    | .commit [] _ => some (world.goto state .memories)
    | .memories => some (world.stopRun state)
    | .stopped => some (world.endAt state (.closing false))
  | .respond response =>
    match point with
    | .model afterRound => some (world.chatCompleted state afterRound response)
    | _ => none
  | .delta text =>
    match point with
    | .model afterRound =>
      if state.request.metadata.get "stream" = some (.bool true) then
        some (world.chatDelta state afterRound text)
      else none
    | _ => none
  | .finish outcome =>
    match point with
    | .invoked attempt site => some (world.finishTool runtime state attempt site outcome)
    | _ => none
  | .remember metadata =>
    match point with
    | .memories => some (world.writeMemory state metadata)
    | _ => none
  | _ => none

/-- One step of a session. -/
def sessionStep (state : AgentRunState) (stage : RunStage) (label : RunLabel) : Option RunWorld :=
  match stage, label with
  | .at point, label => world.generatorStep runtime state point label
  | .emit event point, .go => some (world.storeEvent state event point)
  | .appended event point, .go => some (world.storeSnapshot state event point)
  | .handing event point, .go => some (world.handOn state event point)
  | .handing _ _, .interrupt timedOut => some (world.endAt state (.closing timedOut))
  | .pausing, .go => some ((world.saveSnapshot state).endAt state (.closing false))
  | .raised point e, .go => some (world.saveRaised state point e)
  | .marking _ e, .go => some (world.markFailed state e)
  | .closing timedOut, .go => some (world.closeStream state timedOut)
  | .interrupted, .go => some world.markInterrupted
  | .reconciling attempts todo, .go => some (world.reconcile state attempts todo)
  | .saving, .go => some { world.saveSnapshot state with session := none }
  | _, _ => none

/-- One step of the run. -/
def step (world : RunWorld) (label : RunLabel) : Option RunWorld :=
  match label with
  | .lease owner expiresAt => some { world with
      record := { world.record with leaseOwner := owner, leaseExpiresAt := expiresAt } }
  | .pause reason =>
    if world.record.state.status = .running then
      some (world.saveSnapshot { world.loadedState with
        pauseRequest := some { reason := some (textOr reason "pause") } })
    else none
  | .crash => world.session.map fun _ => { world with session := none }
  | .recover now grace =>
    if world.session = none ∧ world.record.state.status = .running then
      some { world with record := world.record.recover now grace }
    else none
  | .resume approvals =>
    if world.session = none then
      some (world.endAt world.loadedState (.at (.resuming approvals)))
    else none
  | label => world.session.bind fun session =>
      world.sessionStep runtime session.state session.stage label

/-- A run just stored by `_prepare_agent_run`, about to be executed on its context. -/
def started (runId : String) (now : Instant) (request : AgentRunRequest) (context : List Content)
    (ledger : Option Ledger) : RunWorld :=
  let state := AgentRunState.newRunState runId now request
  { record := { state, createdAt := now, ledger }
    context
    session := some ⟨state, .at .openContext⟩
    supplied := request.toolApprovals.map fun approval => (approval.round, approval) }

end RunWorld

end EvernightAI
