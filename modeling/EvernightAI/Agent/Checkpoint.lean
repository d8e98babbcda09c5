import EvernightAI.Agent.Ledger

/-!
# Checkpoints

What recovery reads off a run that was interrupted: the snapshot, the events persisted after it,
and the attempts. `restoreCheckpointData` brings the snapshot up to the persisted events;
`inspectAgentRunCheckpoint` then says where the run stands and whether it may continue there.

Both work on the snapshot in place, so a restoration that raises leaves it restored up to the
event it failed at.
-/

namespace EvernightAI

/-- Where an interrupted run stands. -/
structure AgentRunRecoveryCheckpoint where
  eligible : Bool
  name : String
  detail : Option String := none
  deriving DecidableEq, Repr

private def stateError (message : String) : Error := { errorType := .agentStateError, message }

/-! ### The events after the snapshot -/

/-- The step kinds that stand for a persisted event. -/
def AgentStepType.traced : AgentStepType → Bool
  | .chat | .tool | .toolError => true
  | _ => false

/-- `_trace_matches_step` -/
def traceMatchesStep (event : AgentTraceEvent) (step : AgentStep) : Bool :=
  match step.traceEventId with
  | some eventId => event.eventId = some eventId
  | none =>
    if step.stepType = .chat then
      event.eventType = .chatCompleted && event.response = step.response
    else
      event.eventType = (if step.stepType = .tool then .toolCompleted else .toolFailed) &&
        event.toolCall = step.toolCall

/-- `_require_contiguous_trace` -/
def requireContiguousTrace : List AgentTraceEvent → Option Nat → Except Error Unit
  | [], _ => .ok ()
  | event :: events, previous =>
    match event.sequence with
    | none => requireContiguousTrace events previous
    | some sequence =>
      if previous.all (sequence = · + 1) then requireContiguousTrace events (some sequence)
      else .error (stateError "Persisted trace tail has missing events")

/-- The position after the last event that a step of a snapshot without a cursor stands for. -/
def alignSteps (events : List AgentTraceEvent) : List AgentStep → Nat → Except Error Nat
  | [], cursor => .ok cursor
  | step :: steps, cursor =>
    if step.stepType.traced then
      match (events.drop cursor).findIdx? (traceMatchesStep · step) with
      | some index => alignSteps events steps (cursor + index + 1)
      | none =>
        if events.any (·.eventType = .chatCompleted) then
          .error (stateError "Cannot align legacy snapshot with retained trace")
        else alignSteps events steps cursor
    else alignSteps events steps cursor

/-- A saved event and a persisted one have one sequence and two ids. -/
def traceSequenceReused (state : AgentRunState) (events : List AgentTraceEvent) : Bool :=
  events.any fun event => event.sequence.any fun sequence =>
    match (state.trace.reverse.find? (·.sequence = some sequence)).bind (·.eventId),
      event.eventId with
    | some saved, some eventId => saved ≠ eventId
    | _, _ => false

/-- `_checkpoint_trace_tail` -/
def checkpointTraceTail (state : AgentRunState) (events : List AgentTraceEvent) :
    Except Error (List AgentTraceEvent) :=
  if traceSequenceReused state events then
    .error (stateError "Persisted trace sequence has been reused")
  else
    let after (watermark : Nat) : Except Error (List AgentTraceEvent) :=
      let tail := events.filter fun event => event.sequence.all (watermark < ·)
      (requireContiguousTrace tail (some watermark)).map fun _ => tail
    match state.appliedTraceSequence with
    | some watermark => after watermark
    | none =>
      match state.trace.filterMap (·.sequence) with
      | sequence :: sequences => after (sequences.foldl max sequence)
      | [] =>
        if (events.head?.bind (·.sequence)).any (1 < ·) && state.steps.any (fun step =>
            step.traceEventId = none && step.stepType.traced) then
          .error (stateError "Cannot align legacy snapshot with pruned trace")
        else
          (alignSteps events state.steps 0).bind fun cursor =>
            let tail := events.drop cursor
            let previous := if cursor = 0 then some 0 else events[cursor - 1]?.bind (·.sequence)
            (requireContiguousTrace tail previous).map fun _ => tail

/-! ### Restoring a snapshot -/

/-- The rounds a completed chat left, as its event recorded them or counted from the steps. -/
def restoredToolRounds (state : AgentRunState) (event : AgentTraceEvent) : Nat :=
  match event.metadata.get "remaining_tool_rounds" with
  | some (.int remaining) =>
    if 0 ≤ remaining ∧ remaining ≤ state.request.maxToolRounds then remaining.toNat
    else state.request.maxToolRounds - state.currentToolRound
  | _ => state.request.maxToolRounds - state.currentToolRound

/-- The stop reason or the terminal status that a RUN_STOPPED event names. -/
def stoppedReason? (event : AgentTraceEvent) : Option (Option AgentStopReason × AgentRunStatus) :=
  match event.metadata.get "reason" with
  | some (.str "finished") => some (some .finished, .finished)
  | some (.str "tool_rounds_exhausted") => some (some .toolRoundsExhausted, .failed)
  | some (.str "tool_error") => some (some .toolError, .failed)
  | some (.str "failed") => some (none, .failed)
  | some (.str "canceled") => some (none, .canceled)
  | _ => none

/-- What one persisted event adds to the snapshot. -/
def restoreEvent (event : AgentTraceEvent) (state : AgentRunState) : Except Error AgentRunState :=
  match event.eventType with
  | .chatCompleted =>
    match event.response with
    | none => .error (stateError "Completed chat trace has no response")
    | some response => .ok { state with
        remainingToolRounds := restoredToolRounds state event
        response := some response
        pendingToolCalls := []
        pendingApprovalRequests := []
        steps := state.steps ++ [{
          stepType := .chat
          traceEventId := event.eventId
          response := some response
          message := some (event.message.getD response.message) }] }
  | .toolCompleted | .toolFailed =>
    match event.toolCall with
    | none => .error (stateError "Completed tool trace has no tool call")
    | some call => .ok { state with
        steps := state.steps ++ [{
          stepType := if event.eventType = .toolCompleted then .tool else .toolError
          traceEventId := event.eventId
          message := event.message
          toolCall := some call
          toolResult := event.toolResult
          errorType := event.errorType
          errorMessage := event.errorMessage }] }
  | .toolApprovalRequested =>
    match event.approvalRequest with
    | none => .ok state
    | some request => .ok { state with
        pendingApprovalRequests := state.pendingApprovalRequests ++ [request]
        pendingToolCalls := match state.response with
          | some response => response.message.calls
          | none => [] }
  | .memoryWritten => .ok { state with
      steps := state.steps ++ [{
        stepType := .memoryWrite, traceEventId := event.eventId, metadata := event.metadata }] }
  | .runStopped =>
    match stoppedReason? event with
    | none => .error (stateError "Stopped run trace has no recognized reason")
    | some (stopReason, status) => .ok { state with
        stopReason
        status
        steps := match stopReason with
          | some reason =>
            if state.steps.any (·.stepType = .stop) then state.steps
            else state.steps ++ [{
              stepType := .stop
              traceEventId := event.eventId
              metadata := [("reason", .str reason.value)] }]
          | none => state.steps
        pendingToolCalls := []
        pendingApprovalRequests := [] }
  | _ => .ok state

/-- The cursor after an event. -/
def AgentRunState.advanceTo (state : AgentRunState) (event : AgentTraceEvent) : AgentRunState :=
  match event.sequence with
  | some sequence => { state with appliedTraceSequence := some sequence }
  | none => state

/-- The loop of `_restore_checkpoint_data`; `applied` holds the ids of the events applied already.
-/
def restoreEvents : List Nat → List AgentTraceEvent → AgentRunState → AgentRunState × Option Error
  | _, [], state => (state, none)
  | applied, event :: tail, state =>
    if event.eventId.any (applied.contains ·) then
      restoreEvents applied tail (state.advanceTo event)
    else
      match restoreEvent event state with
      | .error e => (state, some e)
      | .ok state =>
        let state := state.advanceTo event
        restoreEvents (event.eventId.toList ++ applied) tail
          (if state.trace.contains event then state
          else { state with trace := state.trace ++ [event] })

/-- `_restore_checkpoint_data`: the restored snapshot, and the error when it was given up. -/
def restoreCheckpointData (events : List AgentTraceEvent) (state : AgentRunState) :
    AgentRunState × Option Error :=
  match checkpointTraceTail state events with
  | .error e => (state, some e)
  | .ok tail =>
    match restoreEvents (state.steps.filterMap (·.traceEventId)) tail state with
    | (state, some e) => (state, some e)
    | (state, none) => ({ state with
        toolRoundsUsed := (state.request.maxToolRounds : Int) - state.remainingToolRounds }, none)

/-! ### Classifying a snapshot -/

/-- The calls of the last response that no step of its round completed. -/
def AgentRunState.incompleteToolCalls (state : AgentRunState) (response : ChatResponse) :
    List ToolCall :=
  response.message.calls.filter fun call =>
    !state.currentRoundCompletedToolCallIds.contains call.toolCallId

/-- The calls wait for approvals, all of them. -/
def AgentRunState.approvalPending (state : AgentRunState) (calls : List ToolCall) : Bool :=
  !state.pendingApprovalRequests.isEmpty && calls.all fun call =>
    state.pendingApprovalRequests.any (·.toolCallId = call.toolCallId)

/-- Every call may be executed again, by what the ledger holds of its round. -/
def toolReplayReady (toolRound : Nat) (attempts : List ToolExecutionAttempt)
    (calls : List ToolCall) : Bool :=
  calls.all fun call =>
    !hasUnscopedToolExecution call.toolCallId attempts &&
      toolCallCanResume (latestToolExecutionAttempt call.toolCallId
        (roundToolExecutionAttempts toolRound attempts))

/-- `inspect_agent_run_checkpoint` once the snapshot is restored. -/
def classifyCheckpoint (toolExecutions : Option (List ToolExecutionAttempt))
    (state : AgentRunState) : AgentRunRecoveryCheckpoint :=
  if state.status.terminal then { eligible := false, name := "run_stopped" }
  else if state.steps.any (fun step => step.stepType = .stop || step.stepType = .memoryWrite) then {
    eligible := false
    name := "finalization_incomplete"
    detail := some "Context or memory writes may already have been committed" }
  else
    match state.response with
    | none =>
      if state.steps.any (·.stepType ≠ .start) then {
        eligible := false
        name := "incomplete_trace"
        detail := some "A persisted run step has no model response checkpoint" }
      else { eligible := true, name := "run_started" }
    | some response =>
      let incomplete := state.incompleteToolCalls response
      if incomplete.isEmpty then {
        eligible := true
        name := if response.message.calls.isEmpty then "chat_completed" else "tool_round_completed" }
      else if state.approvalPending incomplete then { eligible := true, name := "approval_pending" }
      else if toolExecutions.any (toolReplayReady state.currentToolRound · incomplete) then
        { eligible := true, name := "tool_replay_ready" }
      else {
        eligible := false
        name := "tool_execution_incomplete"
        detail := some "A tool call has no persisted completion result" }

/-- `inspect_agent_run_checkpoint`: the classification and the restored snapshot. -/
def inspectAgentRunCheckpoint (events : List AgentTraceEvent)
    (toolExecutions : Option (List ToolExecutionAttempt)) (state : AgentRunState) :
    AgentRunRecoveryCheckpoint × AgentRunState :=
  match restoreCheckpointData events state with
  | (state, some e) =>
    ({ eligible := false, name := "incomplete_trace", detail := some e.message }, state)
  | (state, none) => (classifyCheckpoint toolExecutions state, state)

end EvernightAI
