import EvernightAI.Agent.Checkpoint
import EvernightAI.Lib.Journal
import Mathlib.Data.List.Infix
import Mathlib.Data.List.TakeWhile

/-!
# What the journal says of a run

The journal of a run tells which response came last, which CHAT and TOOL steps there are, how many
rounds the last response left, and why the run stopped. `Replayed` is what it tells, `Replayed.next`
what one event adds.

* `Replayed.Agrees` compares it with a snapshot. It leaves out what a snapshot has and no event
  says: the id that a later event leaves on a TOOL step, and the round counted when its last call
  ended.
* `restoreEvents_of_restores`: a restoration replays the events on the snapshot.
-/

namespace EvernightAI

open Journal

/-! ### The steps that events stand for -/

/-- A step without the id of its event, which a CHAT step keeps. -/
def AgentStep.untagged (step : AgentStep) : AgentStep :=
  if step.stepType = .chat then step else { step with traceEventId := none }

@[simp] theorem AgentStep.stepType_untagged (step : AgentStep) :
    step.untagged.stepType = step.stepType := by
  rw [untagged]
  split <;> rfl

@[simp] theorem AgentStep.toolCall_untagged (step : AgentStep) :
    step.untagged.toolCall = step.toolCall := by
  rw [untagged]
  split <;> rfl

namespace AgentRunState

variable {state state' : AgentRunState}

/-- The CHAT and TOOL steps, failed tools among them. -/
def tracedSteps (state : AgentRunState) : List AgentStep :=
  (state.steps.filter (·.stepType.traced)).map (·.untagged)

def stopSteps (state : AgentRunState) : List AgentStep :=
  (state.steps.filter (·.stepType = .stop)).map (·.untagged)

/-- The ids of the events that steps stand for. -/
def stepIds (state : AgentRunState) : List Nat := state.steps.filterMap (·.traceEventId)

/-- The last response has calls that no step completed, or no calls at all. -/
def RoundOpen (state : AgentRunState) : Prop :=
  ∀ response, state.response = some response →
    response.message.calls = [] ∨ state.incompleteToolCalls response ≠ []

/-- These are the calls of the last response still to be handled, and perhaps others. -/
def Handles (calls : List ToolCall) (state : AgentRunState) : Prop :=
  ∃ response, state.response = some response ∧ response.message.calls ≠ [] ∧
    ∀ call ∈ state.incompleteToolCalls response,
      call.toolCallId ∈ calls.map (·.toolCallId)

theorem stopSteps_eq_nil : state.stopSteps = [] ↔ ∀ step ∈ state.steps, step.stepType ≠ .stop := by
  rw [stopSteps, List.map_eq_nil_iff, List.filter_eq_nil_iff]
  simp

private theorem completed_eq (steps : List AgentStep) :
    ((steps.filter (·.stepType.traced)).map (·.untagged)).reverse.takeWhile (·.stepType ≠ .chat) =
      ((steps.reverse.takeWhile (·.stepType ≠ .chat)).filter (·.stepType.traced)).map
        (·.untagged) := by
  rw [← List.map_reverse, ← List.filter_reverse]
  induction steps.reverse with
  | nil => rfl
  | cons step steps ih =>
    by_cases hchat : step.stepType = .chat
    · simp [hchat, AgentStepType.traced]
    · by_cases htraced : step.stepType.traced = true
      · simpa [hchat, htraced] using ih
      · simpa [hchat, htraced] using ih

/-- The completed calls are read off the CHAT and TOOL steps. -/
theorem currentRoundCompletedToolCallIds_eq : state.currentRoundCompletedToolCallIds =
    (state.tracedSteps.reverse.takeWhile (·.stepType ≠ .chat)).reverse.filterMap fun step =>
      if step.stepType = .tool ∨ step.stepType = .toolError then step.toolCall.map (·.toolCallId)
      else none := by
  rw [tracedSteps, completed_eq, currentRoundCompletedToolCallIds, currentRoundSteps,
    ← List.map_reverse, List.filterMap_map, ← List.filter_reverse, List.filterMap_filter]
  refine List.filterMap_congr fun step _ => ?_
  cases hstep : step.stepType <;> simp [hstep, AgentStepType.traced]

theorem completed_congr (h : state'.tracedSteps = state.tracedSteps) :
    state'.currentRoundCompletedToolCallIds = state.currentRoundCompletedToolCallIds := by
  rw [currentRoundCompletedToolCallIds_eq, currentRoundCompletedToolCallIds_eq, h]

theorem incompleteToolCalls_congr (h : state'.tracedSteps = state.tracedSteps)
    (response : ChatResponse) :
    state'.incompleteToolCalls response = state.incompleteToolCalls response := by
  rw [incompleteToolCalls, incompleteToolCalls, completed_congr h]

theorem roundOpen_congr (hresponse : state'.response = state.response)
    (hsteps : state'.tracedSteps = state.tracedSteps) : state'.RoundOpen ↔ state.RoundOpen := by
  simp only [RoundOpen, hresponse, incompleteToolCalls_congr hsteps]

theorem Handles.congr {calls : List ToolCall} (h : state.Handles calls)
    (hresponse : state'.response = state.response)
    (hsteps : state'.tracedSteps = state.tracedSteps) : state'.Handles calls := by
  obtain ⟨response, hsome, hcalls, hincomplete⟩ := h
  refine ⟨response, hresponse.trans hsome, hcalls, ?_⟩
  rwa [incompleteToolCalls_congr hsteps]

/-- When all calls have been handled the round is over. -/
theorem Handles.not_roundOpen (h : state.Handles []) : ¬state.RoundOpen := by
  obtain ⟨response, hsome, hcalls, hincomplete⟩ := h
  intro hopen
  rcases hopen response hsome with hnil | hne
  · exact hcalls hnil
  · obtain ⟨call, hcall⟩ := List.exists_mem_of_ne_nil _ hne
    exact absurd (hincomplete call hcall) List.not_mem_nil

/-- A TOOL step completes its call. -/
theorem completed_of_tool {step : AgentStep} {call : ToolCall} (hcall : step.toolCall = some call)
    (hstep : step.stepType = .tool ∨ step.stepType = .toolError)
    (hsteps : state'.tracedSteps = state.tracedSteps ++ [step.untagged]) :
    state'.currentRoundCompletedToolCallIds =
      state.currentRoundCompletedToolCallIds ++ [call.toolCallId] := by
  have hne : step.stepType ≠ .chat := by
    rcases hstep with h | h <;> simp [h]
  rw [currentRoundCompletedToolCallIds_eq, currentRoundCompletedToolCallIds_eq, hsteps]
  simp [hne, hcall, hstep]

/-- The calls a TOOL step leaves. -/
theorem mem_incomplete_of_tool {step : AgentStep} {call call' : ToolCall} {response : ChatResponse}
    (hcall : step.toolCall = some call)
    (hstep : step.stepType = .tool ∨ step.stepType = .toolError)
    (hsteps : state'.tracedSteps = state.tracedSteps ++ [step.untagged]) :
    call' ∈ state'.incompleteToolCalls response ↔
      call' ∈ state.incompleteToolCalls response ∧ call'.toolCallId ≠ call.toolCallId := by
  rw [incompleteToolCalls, incompleteToolCalls, completed_of_tool hcall hstep hsteps]
  simp [and_assoc]

theorem Handles.tool {step : AgentStep} {call : ToolCall} {calls : List ToolCall}
    (h : state.Handles calls)
    (hsteps : state'.tracedSteps = state.tracedSteps ++ [step.untagged])
    (hresponse : state'.response = state.response) (hcall : step.toolCall = some call)
    (hstep : step.stepType = .tool ∨ step.stepType = .toolError) :
    ∀ rest, (∀ c ∈ calls, c.toolCallId = call.toolCallId ∨ c ∈ rest) → state'.Handles rest := by
  obtain ⟨response, hsome, hcalls, hincomplete⟩ := h
  intro rest hrest
  refine ⟨response, hresponse.trans hsome, hcalls, fun call' hcall' => ?_⟩
  obtain ⟨hmem, hne⟩ := (mem_incomplete_of_tool hcall hstep hsteps).mp hcall'
  obtain ⟨c, hc, hid⟩ := List.mem_map.mp (hincomplete call' hmem)
  rcases hrest c hc with hsame | hmem
  · exact absurd (hid.symm.trans hsame) hne
  · exact List.mem_map.mpr ⟨c, hmem, hid⟩

/-- A TOOL step does not open a round. -/
theorem RoundOpen.of_tool {step : AgentStep} {call : ToolCall} (h : state'.RoundOpen)
    (hresponse : state'.response = state.response) (hcall : step.toolCall = some call)
    (hstep : step.stepType = .tool ∨ step.stepType = .toolError)
    (hsteps : state'.tracedSteps = state.tracedSteps ++ [step.untagged]) : state.RoundOpen := by
  intro response hsome
  refine (h response (hresponse.trans hsome)).imp_right fun hne => ?_
  obtain ⟨call', hcall'⟩ := List.exists_mem_of_ne_nil _ hne
  exact List.ne_nil_of_mem ((mem_incomplete_of_tool hcall hstep hsteps).mp hcall').1

end AgentRunState

/-! ### What events say -/

/-- What the journal of a run says of it. -/
structure Replayed where
  response : Option ChatResponse := none
  steps : List AgentStep := []
  rounds : Nat
  stop : Option AgentStopReason := none

namespace AgentTraceEvent

/-- The stop reason a RUN_STOPPED event names; a run that failed or was canceled names none. -/
def stopReason (event : AgentTraceEvent) : Option AgentStopReason :=
  if event.eventType = .runStopped then (stoppedReason? event).bind (·.1) else none

/-- The rounds a CHAT_COMPLETED event says are left. -/
def roundsLeft (event : AgentTraceEvent) : Option Nat :=
  match event.metadata.get "remaining_tool_rounds" with
  | some (.int remaining) => some remaining.toNat
  | _ => none

def chatStep (event : AgentTraceEvent) (response : ChatResponse) : AgentStep where
  stepType := .chat
  traceEventId := event.eventId
  response := some response
  message := some (event.message.getD response.message)

def toolStep (event : AgentTraceEvent) (call : ToolCall) : AgentStep where
  stepType := if event.eventType = .toolCompleted then .tool else .toolError
  traceEventId := event.eventId
  message := event.message
  toolCall := some call
  toolResult := event.toolResult
  errorType := event.errorType
  errorMessage := event.errorMessage

/-- The event adds nothing to what the journal says. -/
def inert (event : AgentTraceEvent) : Bool :=
  match event.eventType with
  | .chatCompleted | .toolCompleted | .toolFailed => false
  | .runStopped => event.stopReason.isNone
  | _ => true

/-- A restoration does not raise at the event. -/
def Restorable (maxRounds : Nat) (event : AgentTraceEvent) : Prop :=
  match event.eventType with
  | .chatCompleted => (∃ response, event.response = some response) ∧
      ∃ n : Nat, n ≤ maxRounds ∧ event.metadata.get "remaining_tool_rounds" = some (.int n)
  | .toolCompleted | .toolFailed => ∃ call, event.toolCall = some call
  | .runStopped => ∃ stopped, stoppedReason? event = some stopped
  | _ => True

end AgentTraceEvent

/-- The STOP step of a run. -/
def stopStep (reason : AgentStopReason) : AgentStep where
  stepType := .stop
  metadata := [("reason", .str reason.value)]

namespace Replayed

/-- What one event adds. -/
def next (replayed : Replayed) (event : AgentTraceEvent) : Replayed :=
  match event.eventType with
  | .chatCompleted =>
    match event.response with
    | some response => { replayed with
        response := some response
        steps := replayed.steps ++ [(event.chatStep response).untagged]
        rounds := event.roundsLeft.getD replayed.rounds }
    | none => replayed
  | .toolCompleted | .toolFailed =>
    match event.toolCall with
    | some call => { replayed with steps := replayed.steps ++ [(event.toolStep call).untagged] }
    | none => replayed
  | .runStopped => { replayed with stop := replayed.stop.or event.stopReason }
  | _ => replayed

/-- What a journal says of a run that may have this many rounds. -/
def ofJournal (maxRounds : Nat) (journal : List AgentTraceEvent) : Replayed :=
  replay next { rounds := maxRounds } journal

theorem next_of_inert {event : AgentTraceEvent} (h : event.inert = true) : Inert next event := by
  intro replayed
  rw [AgentTraceEvent.inert] at h
  rw [next]
  cases htype : event.eventType <;> simp only [htype] at h ⊢
  case chatCompleted | toolCompleted | toolFailed => exact absurd h (by simp)
  case runStopped =>
    rw [Option.isNone_iff_eq_none] at h
    rw [h, Option.or_none]

/-- Only a RUN_STOPPED event says why the run stopped, and the first one does. -/
theorem stop_next (replayed : Replayed) (event : AgentTraceEvent) :
    (replayed.next event).stop = replayed.stop.or event.stopReason := by
  by_cases htype : event.eventType = .runStopped
  · rw [next]
    simp only [htype]
  · rw [AgentTraceEvent.stopReason, if_neg htype, Option.or_none, next]
    cases hother : event.eventType <;> simp only
    case runStopped => exact absurd hother htype
    all_goals split <;> rfl

/-- The reason after some events is the first one they name, if there was none. -/
theorem stop_foldl (events : List AgentTraceEvent) (replayed : Replayed) :
    (events.foldl next replayed).stop =
      replayed.stop.or (events.findSome? (·.stopReason)) := by
  induction events generalizing replayed with
  | nil => rw [List.foldl_nil, List.findSome?_nil, Option.or_none]
  | cons event events ih =>
    rw [List.foldl_cons, ih, stop_next, Option.or_assoc, List.findSome?_cons]
    cases event.stopReason with
    | none => rw [Option.none_or]
    | some reason => rw [Option.some_or]

/-- The journal says no more than the snapshot has, and conversely. The rounds agree while a call is
to be handled: live, the round is counted when its last call ends. -/
structure Agrees (replayed : Replayed) (state : AgentRunState) : Prop where
  response : state.response = replayed.response
  steps : state.tracedSteps = replayed.steps
  rounds : state.RoundOpen → state.remainingToolRounds = replayed.rounds

/-- A snapshot under restoration, with the STOP steps it had. -/
structure Restores (stops : List AgentStep) (replayed : Replayed) (state : AgentRunState) : Prop
    extends replayed.Agrees state where
  stops : state.stopSteps = if stops = [] then (replayed.stop.map stopStep).toList else stops

end Replayed

/-- **What every snapshot keeps.** Its requests and rounds are those of the run, its pending calls
are the calls still to be handled, it does not resume after a STOP step, and its trace is numbered as
the journal is. -/
structure AgentRunState.Kept (maxRounds nextEventId : Nat) (journal : List AgentTraceEvent)
    (state : AgentRunState) : Prop where
  request_max : state.request.maxToolRounds = maxRounds
  rounds_le : state.remainingToolRounds ≤ maxRounds
  initial : state.response = none → state.remainingToolRounds = maxRounds
  pending : state.pendingToolCalls = [] ∨ state.Handles state.pendingToolCalls
  stopped : state.stopSteps ≠ [] → state.status = .paused → state.canResume = false
  traced : ∀ e ∈ state.trace, ∀ n, e.sequence = some n →
    ∃ e' ∈ journal, e'.sequence = some n ∧ e'.eventId = e.eventId
  ids : ∀ i ∈ state.stepIds, i < nextEventId

/-! ### A restoration replays the journal -/

namespace AgentRunState

variable {state state' : AgentRunState} {step : AgentStep}

theorem tracedSteps_append (h : state'.steps = state.steps ++ [step]) :
    state'.tracedSteps =
      state.tracedSteps ++ if step.stepType.traced then [step.untagged] else [] := by
  rw [tracedSteps, h, List.filter_append, List.map_append, tracedSteps]
  congr 1
  by_cases htraced : step.stepType.traced = true <;> simp [htraced]

theorem stopSteps_append (h : state'.steps = state.steps ++ [step]) :
    state'.stopSteps =
      state.stopSteps ++ if step.stepType = .stop then [step.untagged] else [] := by
  rw [stopSteps, h, List.filter_append, List.map_append, stopSteps]
  congr 1
  by_cases hstop : step.stepType = .stop <;> simp [hstop]

theorem mem_stepIds_append {i : Nat} (h : state'.steps = state.steps ++ [step]) :
    i ∈ state'.stepIds ↔ i ∈ state.stepIds ∨ step.traceEventId = some i := by
  rw [stepIds, h, stepIds]
  simp only [List.filterMap_append, List.mem_append, List.mem_filterMap, List.mem_singleton,
    exists_eq_left]

end AgentRunState

section Restore

variable {maxRounds nextEventId : Nat} {journal tail : List AgentTraceEvent}
  {event : AgentTraceEvent} {stops : List AgentStep} {replayed : Replayed}
  {state state' : AgentRunState}

theorem Replayed.Agrees.congr (h : replayed.Agrees state)
    (hresponse : state'.response = state.response) (hsteps : state'.tracedSteps = state.tracedSteps)
    (hrounds : state'.remainingToolRounds = state.remainingToolRounds) :
    replayed.Agrees state' where
  response := hresponse.trans h.response
  steps := hsteps.trans h.steps
  rounds hopen := hrounds.trans
    (h.rounds ((AgentRunState.roundOpen_congr hresponse hsteps).mp hopen))

/-- A restored CHAT step. -/
private theorem restoreEvent_chat (htype : event.eventType = .chatCompleted)
    (hrestorable : event.Restorable maxRounds) (hrestores : replayed.Restores stops state)
    (hkept : state.Kept maxRounds nextEventId journal)
    (hid : ∀ i, event.eventId = some i → i < nextEventId) :
    ∃ state', restoreEvent event state = .ok state' ∧ (replayed.next event).Restores stops state' ∧
      state'.Kept maxRounds nextEventId journal ∧
      state'.appliedTraceSequence = state.appliedTraceSequence ∧ state'.trace = state.trace := by
  simp only [AgentTraceEvent.Restorable, htype] at hrestorable
  obtain ⟨⟨response, hresponse⟩, n, hn, hrounds⟩ := hrestorable
  have hleft : event.roundsLeft = some n := by simp [AgentTraceEvent.roundsLeft, hrounds]
  have hrestored : restoredToolRounds state event = n := by
    have hle : (n : Int) ≤ state.request.maxToolRounds := by
      rw [hkept.request_max]
      exact_mod_cast hn
    rw [restoredToolRounds, hrounds]
    dsimp only
    rw [if_pos ⟨Int.natCast_nonneg n, hle⟩, Int.toNat_natCast]
  have hnext : replayed.next event = { replayed with
      response := some response
      steps := replayed.steps ++ [(event.chatStep response).untagged], rounds := n } := by
    rw [Replayed.next]
    simp only [htype, hresponse, hleft, Option.getD_some]
  have hok : restoreEvent event state = .ok { state with
      remainingToolRounds := n
      response := some response
      pendingToolCalls := []
      pendingApprovalRequests := []
      steps := state.steps ++ [event.chatStep response] } := by
    rw [restoreEvent]
    simp only [htype, hresponse, hrestored, AgentTraceEvent.chatStep]
  refine ⟨_, hok, ?_, ?_, rfl, rfl⟩
  · rw [hnext]
    refine { response := rfl, steps := ?_, rounds := fun _ => rfl, stops := ?_ }
    · rw [AgentRunState.tracedSteps_append rfl, ← hrestores.steps]
      rfl
    · rw [AgentRunState.stopSteps_append rfl]
      exact (List.append_nil _).trans hrestores.stops
  · refine { hkept with
      rounds_le := hn, initial := fun h => absurd h (by simp), pending := Or.inl rfl
      stopped := ?_, ids := fun i hi => ?_ }
    · intro hne hpaused
      rw [AgentRunState.stopSteps_append rfl, if_neg (by simp [AgentTraceEvent.chatStep]),
        List.append_nil] at hne
      exact hkept.stopped hne hpaused
    · rcases (AgentRunState.mem_stepIds_append rfl).mp hi with hold | hnew
      · exact hkept.ids i hold
      · exact hid i hnew

/-- A restored TOOL step. -/
private theorem restoreEvent_tool
    (htype : event.eventType = .toolCompleted ∨ event.eventType = .toolFailed)
    (hrestorable : event.Restorable maxRounds) (hrestores : replayed.Restores stops state)
    (hkept : state.Kept maxRounds nextEventId journal)
    (hid : ∀ i, event.eventId = some i → i < nextEventId) :
    ∃ state', restoreEvent event state = .ok state' ∧ (replayed.next event).Restores stops state' ∧
      state'.Kept maxRounds nextEventId journal ∧
      state'.appliedTraceSequence = state.appliedTraceSequence ∧ state'.trace = state.trace := by
  obtain ⟨call, hcall⟩ : ∃ call, event.toolCall = some call := by
    rcases htype with h | h <;> simpa only [AgentTraceEvent.Restorable, h] using hrestorable
  have htool : (event.toolStep call).stepType = .tool ∨
      (event.toolStep call).stepType = .toolError := by
    simp only [AgentTraceEvent.toolStep]
    split <;> simp
  have htraced : (event.toolStep call).stepType.traced = true := by
    rcases htool with h | h <;> rw [h] <;> rfl
  have hnext : replayed.next event = { replayed with
      steps := replayed.steps ++ [(event.toolStep call).untagged] } := by
    rw [Replayed.next]
    rcases htype with h | h <;> simp only [h, hcall]
  have hok : restoreEvent event state =
      .ok { state with steps := state.steps ++ [event.toolStep call] } := by
    rw [restoreEvent]
    rcases htype with h | h <;> simp only [h, hcall, AgentTraceEvent.toolStep]
  let after : AgentRunState := { state with steps := state.steps ++ [event.toolStep call] }
  have happend : after.steps = state.steps ++ [event.toolStep call] := rfl
  have hsteps : after.tracedSteps = state.tracedSteps ++ [(event.toolStep call).untagged] := by
    rw [AgentRunState.tracedSteps_append happend, if_pos htraced]
  have hstops : after.stopSteps = state.stopSteps := by
    rw [AgentRunState.stopSteps_append happend, if_neg (by rcases htool with h | h <;> simp [h]),
      List.append_nil]
  refine ⟨after, hok, ?_, ?_, rfl, rfl⟩
  · rw [hnext]
    refine { response := hrestores.response, steps := ?_
             rounds := fun hopen => ?_, stops := hstops.trans hrestores.stops }
    · rw [hsteps, hrestores.steps]
    · exact hrestores.rounds (hopen.of_tool rfl rfl htool hsteps)
  · refine { hkept with pending := ?_, stopped := hstops ▸ hkept.stopped, ids := fun i hi => ?_ }
    · refine hkept.pending.imp_right fun hhandles => ?_
      have hleft : after.Handles state.pendingToolCalls :=
        hhandles.tool hsteps rfl rfl htool _ fun c hc => Or.inr hc
      exact hleft
    · rcases (AgentRunState.mem_stepIds_append happend).mp hi with hold | hnew
      · exact hkept.ids i hold
      · exact hid i hnew

/-- The steps with the STOP step that a restoration may add. -/
private def restoredStop (event : AgentTraceEvent) (stopReason : Option AgentStopReason)
    (state : AgentRunState) : List AgentStep :=
  match stopReason with
  | some reason =>
    if state.steps.any (·.stepType = .stop) then state.steps
    else state.steps ++ [{ stopStep reason with traceEventId := event.eventId }]
  | none => state.steps

private theorem restoredStop_eq (event : AgentTraceEvent) (stopReason : Option AgentStopReason)
    (state : AgentRunState) :
    restoredStop event stopReason state = state.steps ∧
      (stopReason = none ∨ state.stopSteps ≠ []) ∨
    state.stopSteps = [] ∧ ∃ reason, stopReason = some reason ∧
      restoredStop event stopReason state =
        state.steps ++ [{ stopStep reason with traceEventId := event.eventId }] := by
  have hnil : state.stopSteps = [] ↔ state.steps.any (·.stepType = .stop) = false := by
    rw [AgentRunState.stopSteps_eq_nil, List.any_eq_false]
    simp
  rcases stopReason with _ | reason
  · exact Or.inl ⟨rfl, Or.inl rfl⟩
  · rw [restoredStop]
    split
    · next hany =>
      refine Or.inl ⟨rfl, Or.inr fun h => ?_⟩
      rw [hnil, hany] at h
      exact absurd h (by simp)
    · next hany => exact Or.inr ⟨hnil.mpr (by simpa using hany), reason, rfl, rfl⟩

/-- A restored end of the run. -/
private theorem restoreEvent_stopped (htype : event.eventType = .runStopped)
    (hrestorable : event.Restorable maxRounds) (hrestores : replayed.Restores stops state)
    (hkept : state.Kept maxRounds nextEventId journal)
    (hid : ∀ i, event.eventId = some i → i < nextEventId) :
    ∃ state', restoreEvent event state = .ok state' ∧ (replayed.next event).Restores stops state' ∧
      state'.Kept maxRounds nextEventId journal ∧
      state'.appliedTraceSequence = state.appliedTraceSequence ∧ state'.trace = state.trace := by
  simp only [AgentTraceEvent.Restorable, htype] at hrestorable
  obtain ⟨⟨stopReason, status⟩, hreason⟩ := hrestorable
  have hterminal : status ≠ .paused := by
    rw [stoppedReason?] at hreason
    split at hreason <;> simp only [Option.some.injEq, Prod.mk.injEq, reduceCtorEq] at hreason
    all_goals simp [← hreason.2]
  have hnamed : event.stopReason = stopReason := by
    rw [AgentTraceEvent.stopReason, if_pos htype, hreason]
    rfl
  have hnext : replayed.next event = { replayed with stop := replayed.stop.or stopReason } := by
    rw [Replayed.next]
    simp only [htype, hnamed]
  let after : AgentRunState := { state with
    stopReason, status
    steps := restoredStop event stopReason state, pendingToolCalls := []
    pendingApprovalRequests := [] }
  have hok : restoreEvent event state = .ok after := by
    rw [restoreEvent]
    simp only [htype, hreason]
    rfl
  have hsteps : after.steps = state.steps ∧ (stopReason = none ∨ state.stopSteps ≠ []) ∨
      state.stopSteps = [] ∧ ∃ reason, stopReason = some reason ∧
        after.steps = state.steps ++ [{ stopStep reason with traceEventId := event.eventId }] :=
    restoredStop_eq event stopReason state
  have htraced : after.tracedSteps = state.tracedSteps := by
    rcases hsteps with ⟨hsame, -⟩ | ⟨-, reason, -, happend⟩
    · rw [AgentRunState.tracedSteps, hsame, AgentRunState.tracedSteps]
    · rw [AgentRunState.tracedSteps_append happend, if_neg (by simp [stopStep, AgentStepType.traced]),
        List.append_nil]
  refine ⟨after, hok, ?_, ?_, rfl, rfl⟩
  · rw [hnext]
    have hagrees : replayed.Agrees after := hrestores.toAgrees.congr rfl htraced rfl
    refine { hagrees with stops := ?_ }
    rcases hsteps with ⟨hsame, hwhy⟩ | ⟨hnone, reason, hsome, happend⟩
    · rw [AgentRunState.stopSteps, hsame, ← AgentRunState.stopSteps, hrestores.stops]
      rcases hwhy with hnone | hne
      · rw [hnone, Option.or_none]
      · split
        · next hnil =>
          rw [hrestores.stops, if_pos hnil] at hne
          cases hstop : replayed.stop with
          | none => simp [hstop] at hne
          | some reason => rfl
        · rfl
    · rw [AgentRunState.stopSteps_append happend, hnone]
      change [stopStep reason] = _
      have hold := hrestores.stops.symm.trans hnone
      split at hold
      · next hnil =>
        have hstop : replayed.stop = none := by
          cases hstop : replayed.stop with
          | none => rfl
          | some reason => simp [hstop] at hold
        rw [if_pos hnil, hstop, hsome]
        rfl
      · next hne => exact absurd hold hne
  · refine { hkept with
      pending := Or.inl rfl, stopped := fun _ hpaused => absurd hpaused hterminal
      ids := fun i hi => ?_ }
    rcases hsteps with ⟨hsame, -⟩ | ⟨-, reason, -, happend⟩
    · rw [AgentRunState.stepIds, hsame] at hi
      exact hkept.ids i hi
    · rcases (AgentRunState.mem_stepIds_append happend).mp hi with hold | hnew
      · exact hkept.ids i hold
      · exact hid i hnew

/-- The events that say nothing of the run. -/
private theorem restoreEvent_inert (hinert : event.inert = true)
    (hstopped : event.eventType ≠ .runStopped) (hrestores : replayed.Restores stops state)
    (hkept : state.Kept maxRounds nextEventId journal)
    (hid : ∀ i, event.eventId = some i → i < nextEventId) :
    ∃ state', restoreEvent event state = .ok state' ∧ (replayed.next event).Restores stops state' ∧
      state'.Kept maxRounds nextEventId journal ∧
      state'.appliedTraceSequence = state.appliedTraceSequence ∧ state'.trace = state.trace := by
  rw [Replayed.next_of_inert hinert]
  have hskip (h : restoreEvent event state = .ok state) : ∃ state',
      restoreEvent event state = .ok state' ∧ replayed.Restores stops state' ∧
      state'.Kept maxRounds nextEventId journal ∧
      state'.appliedTraceSequence = state.appliedTraceSequence ∧ state'.trace = state.trace :=
    ⟨state, h, hrestores, hkept, rfl, rfl⟩
  rw [AgentTraceEvent.inert] at hinert
  cases htype : event.eventType <;> simp only [htype] at hinert hstopped
  case chatCompleted | toolCompleted | toolFailed => exact absurd hinert (by simp)
  case runStopped => exact absurd rfl hstopped
  case toolApprovalRequested =>
    cases hrequest : event.approvalRequest with
    | none => exact hskip (by rw [restoreEvent]; simp only [htype, hrequest])
    | some request =>
      let after : AgentRunState := { state with
        pendingApprovalRequests := state.pendingApprovalRequests ++ [request]
        pendingToolCalls := match state.response with
          | some response => response.message.calls
          | none => [] }
      have hok : restoreEvent event state = .ok after := by
        rw [restoreEvent]
        simp only [htype, hrequest]
        rfl
      have hpending : after.pendingToolCalls = [] ∨ after.Handles after.pendingToolCalls := by
        cases hresponse : state.response with
        | none => exact Or.inl (by simp only [after, hresponse])
        | some response =>
          have hcalls : after.pendingToolCalls = response.message.calls := by
            simp only [after, hresponse]
          rw [hcalls]
          refine or_iff_not_imp_left.mpr fun hne => ⟨response, hresponse, hne, fun call hcall => ?_⟩
          exact List.mem_map_of_mem (List.mem_of_mem_filter hcall)
      have hagrees : replayed.Agrees after := hrestores.toAgrees.congr rfl rfl rfl
      exact ⟨after, hok, { hagrees with stops := hrestores.stops },
        { hkept with pending := hpending }, rfl, rfl⟩
  case memoryWritten =>
    let step : AgentStep := {
      stepType := .memoryWrite, traceEventId := event.eventId, metadata := event.metadata }
    let after : AgentRunState := { state with steps := state.steps ++ [step] }
    have happend : after.steps = state.steps ++ [step] := rfl
    have htraced : after.tracedSteps = state.tracedSteps := by
      rw [AgentRunState.tracedSteps_append happend]
      exact List.append_nil _
    have hstops : after.stopSteps = state.stopSteps := by
      rw [AgentRunState.stopSteps_append happend]
      exact List.append_nil _
    have hok : restoreEvent event state = .ok after := by
      rw [restoreEvent]
      simp only [htype]
      rfl
    have hagrees : replayed.Agrees after := hrestores.toAgrees.congr rfl htraced rfl
    refine ⟨after, hok, { hagrees with stops := hstops.trans hrestores.stops }, ?_, rfl, rfl⟩
    refine { hkept with pending := ?_, stopped := hstops ▸ hkept.stopped, ids := fun i hi => ?_ }
    · refine hkept.pending.imp_right fun h => ?_
      have hleft : after.Handles state.pendingToolCalls :=
        h.congr (rfl : after.response = state.response) htraced
      exact hleft
    · rcases (AgentRunState.mem_stepIds_append happend).mp hi with hold | hnew
      · exact hkept.ids i hold
      · exact hid i hnew
  all_goals exact hskip (by rw [restoreEvent]; simp only [htype])

/-- **A restored event.** -/
theorem restoreEvent_restores (hrestorable : event.Restorable maxRounds)
    (hrestores : replayed.Restores stops state) (hkept : state.Kept maxRounds nextEventId journal)
    (hid : ∀ i, event.eventId = some i → i < nextEventId) :
    ∃ state', restoreEvent event state = .ok state' ∧ (replayed.next event).Restores stops state' ∧
      state'.Kept maxRounds nextEventId journal ∧
      state'.appliedTraceSequence = state.appliedTraceSequence ∧ state'.trace = state.trace := by
  by_cases hstopped : event.eventType = .runStopped
  · exact restoreEvent_stopped hstopped hrestorable hrestores hkept hid
  by_cases hchat : event.eventType = .chatCompleted
  · exact restoreEvent_chat hchat hrestorable hrestores hkept hid
  by_cases htool : event.eventType = .toolCompleted ∨ event.eventType = .toolFailed
  · exact restoreEvent_tool htool hrestorable hrestores hkept hid
  have hinert : event.inert = true := by
    rw [AgentTraceEvent.inert]
    cases htype : event.eventType <;> simp_all
  exact restoreEvent_inert hinert hstopped hrestores hkept hid

/-- The journal of a run: numbered from one, with events that can be restored, and with no id twice,
but on events that say nothing. -/
structure Journaled (maxRounds nextEventId : Nat) (journal : List AgentTraceEvent) : Prop where
  numbered : NumberedFrom AgentTraceEvent.sequence 0 journal
  restorable : ∀ e ∈ journal, e.Restorable maxRounds
  ids : ∀ e ∈ journal, ∀ i, e.eventId = some i → i < nextEventId
  distinct : journal.Pairwise fun e e' => ∀ i, e.eventId = some i → e'.eventId = some i →
    e'.inert = true

/-- **A snapshot of a run**: it agrees with the journal up to its cursor. -/
structure Snapshot (maxRounds nextEventId : Nat) (journal : List AgentTraceEvent) (cursor : Nat)
    (state : AgentRunState) : Prop extends state.Kept maxRounds nextEventId journal where
  cursor_le : cursor ≤ journal.length
  applied : state.appliedTraceSequence = some cursor
  agrees : (Replayed.ofJournal maxRounds (journal.take cursor)).Agrees state
  stop : ∀ reason, (Replayed.ofJournal maxRounds (journal.take cursor)).stop = some reason →
    state.stopSteps = [stopStep reason]
  later : ∀ reason, (Replayed.ofJournal maxRounds journal).stop = some reason →
    state.stopSteps = [] ∨ state.stopSteps = [stopStep reason]
  unapplied : ∀ e ∈ journal.drop cursor, ∀ i ∈ state.stepIds, e.eventId = some i → e.inert = true

theorem AgentRunState.Kept.advanceTo (hkept : state.Kept maxRounds nextEventId journal) :
    (state.advanceTo event).Kept maxRounds nextEventId journal := by
  rw [AgentRunState.advanceTo]
  split
  · exact { hkept with }
  · exact hkept

theorem Replayed.Restores.advanceTo (h : replayed.Restores stops state) :
    replayed.Restores stops (state.advanceTo event) := by
  rw [AgentRunState.advanceTo]
  split
  · exact { h with }
  · exact h

/-- The loop of a restoration. -/
theorem restoreEvents_restores (hjournal : Journaled maxRounds nextEventId journal)
    {applied : List Nat} {cursor : Nat} (hnumbered : NumberedFrom AgentTraceEvent.sequence cursor tail)
    (hmem : ∀ e ∈ tail, e ∈ journal)
    (happlied : ∀ e ∈ tail, ∀ i ∈ applied, e.eventId = some i → e.inert = true)
    (hdistinct : tail.Pairwise fun e e' => ∀ i, e.eventId = some i → e'.eventId = some i →
      e'.inert = true)
    (hrestores : replayed.Restores stops state) (hkept : state.Kept maxRounds nextEventId journal)
    (hcursor : state.appliedTraceSequence = some cursor) :
    ∃ state', restoreEvents applied tail state = (state', none) ∧
      (tail.foldl Replayed.next replayed).Restores stops state' ∧
      state'.Kept maxRounds nextEventId journal ∧
      state'.appliedTraceSequence = some (cursor + tail.length) := by
  induction tail generalizing applied cursor replayed state with
  | nil => exact ⟨state, rfl, hrestores, hkept, hcursor⟩
  | cons e tail ih =>
    have hmem' : ∀ e ∈ tail, e ∈ journal := fun e he => hmem e (List.mem_cons_of_mem _ he)
    have hhere : e ∈ journal := hmem e List.mem_cons_self
    obtain ⟨hfirst, hdistinct⟩ := List.pairwise_cons.mp hdistinct
    obtain ⟨hnumber, hnumbered⟩ := hnumbered
    have hadvanced (state : AgentRunState) :
        (state.advanceTo e).appliedTraceSequence = some (cursor + 1) := by
      rw [AgentRunState.advanceTo, hnumber]
    have hlength : cursor + 1 + tail.length = cursor + (e :: tail).length := by
      rw [List.length_cons]
      omega
    rw [List.foldl_cons, ← hlength, restoreEvents]
    split
    · next hskip =>
      -- the id of a step: the event is applied already, and said nothing
      obtain ⟨i, hi, hin⟩ := (Option.any_eq_true _ _).mp hskip
      have hinert := happlied e List.mem_cons_self i (List.contains_iff_mem.mp hin) hi
      rw [Replayed.next_of_inert hinert]
      exact ih hnumbered hmem' (fun e he => happlied e (List.mem_cons_of_mem _ he)) hdistinct
        hrestores.advanceTo hkept.advanceTo (hadvanced state)
    · obtain ⟨restored, hok, hrestores', hkept', -, -⟩ :=
        restoreEvent_restores (hjournal.restorable e hhere) hrestores hkept (hjournal.ids e hhere)
      rw [hok]
      dsimp only
      have happlied' : ∀ e' ∈ tail, ∀ i ∈ e.eventId.toList ++ applied, e'.eventId = some i →
          e'.inert = true := by
        intro e' he' i hi heq
        rcases List.mem_append.mp hi with hi | hi
        · exact hfirst e' he' i (Option.mem_toList.mp hi) heq
        · exact happlied e' (List.mem_cons_of_mem _ he') i hi heq
      split
      · exact ih hnumbered hmem' happlied' hdistinct hrestores'.advanceTo hkept'.advanceTo
          (hadvanced restored)
      · have hadvance : (restored.advanceTo e).Kept maxRounds nextEventId journal :=
          hkept'.advanceTo
        refine ih hnumbered hmem' happlied' hdistinct { hrestores'.advanceTo with }
          { hadvance with traced := fun t ht n hn => ?_ } (hadvanced restored)
        rcases List.mem_append.mp ht with ht | ht
        · exact hadvance.traced t ht n hn
        · obtain rfl := List.mem_singleton.mp ht
          exact ⟨t, hhere, hn, rfl⟩

/-- The saved events are those of the journal. -/
theorem Journaled.not_reused (hjournal : Journaled maxRounds nextEventId journal)
    (hkept : state.Kept maxRounds nextEventId journal) {events : List AgentTraceEvent}
    (hevents : ∀ e ∈ events, e ∈ journal) : traceSequenceReused state events = false := by
  rw [traceSequenceReused, List.any_eq_false]
  intro e he
  cases hsequence : e.sequence with
  | none => simp
  | some n =>
    rw [Option.any_some]
    cases hsaved : state.trace.reverse.find? (·.sequence = some n) with
    | none => simp
    | some saved =>
      have hnumber : saved.sequence = some n := by simpa using List.find?_some hsaved
      have hmem : saved ∈ state.trace := List.mem_reverse.mp (List.mem_of_find?_eq_some hsaved)
      obtain ⟨e', he', hsequence', hid⟩ := hkept.traced saved hmem n hnumber
      have hsame : e' = e := hjournal.numbered.eq_of_number_eq he' (hevents e he)
        (hsequence'.trans hsequence.symm)
      rw [Option.bind_some, ← hid, hsame]
      cases e.eventId <;> simp

/-- The events after the cursor, of a journal from which earlier ones may be missing. -/
theorem Journaled.filter_drop (hjournal : Journaled maxRounds nextEventId journal) {k cursor : Nat}
    (hk : k ≤ cursor) :
    ((journal.drop k).filter fun e => e.sequence.all (cursor < ·)) = journal.drop cursor := by
  have hnumbered := hjournal.numbered.drop k
  rw [Nat.zero_add] at hnumbered
  rw [hnumbered.filter_lt hk, List.drop_drop]
  congr 1
  omega

theorem requireContiguousTrace_of_numbered {cursor : Nat} {events : List AgentTraceEvent}
    (h : NumberedFrom AgentTraceEvent.sequence cursor events) :
    requireContiguousTrace events (some cursor) = .ok () := by
  induction events generalizing cursor with
  | nil => rfl
  | cons e events ih =>
    rw [requireContiguousTrace, h.1]
    dsimp only
    rw [Option.all_some, if_pos (decide_eq_true rfl)]
    exact ih h.2

/-- The tail of a snapshot. -/
theorem Journaled.checkpointTraceTail_eq (hjournal : Journaled maxRounds nextEventId journal)
    (hkept : state.Kept maxRounds nextEventId journal) {k cursor : Nat} (hk : k ≤ cursor)
    (happlied : state.appliedTraceSequence = some cursor) :
    checkpointTraceTail state (journal.drop k) = .ok (journal.drop cursor) := by
  have hnumbered := hjournal.numbered.drop cursor
  rw [Nat.zero_add] at hnumbered
  simp only [checkpointTraceTail, happlied,
    hjournal.not_reused hkept fun e he => List.mem_of_mem_drop he, hjournal.filter_drop hk,
    requireContiguousTrace_of_numbered hnumbered]
  rfl

/-- **A snapshot restored.** It agrees with the whole journal, keeps its STOP step or gets that of
the journal, and is restored to itself. -/
theorem Snapshot.restore (hjournal : Journaled maxRounds nextEventId journal) {cursor k : Nat}
    (hsnapshot : Snapshot maxRounds nextEventId journal cursor state) (hk : k ≤ cursor) :
    ∃ state', restoreCheckpointData (journal.drop k) state = (state', none) ∧
      Snapshot maxRounds nextEventId journal journal.length state' ∧
      (state'.stopSteps = if state.stopSteps = [] then
          ((Replayed.ofJournal maxRounds journal).stop.map stopStep).toList
        else state.stopSteps) ∧
      restoreCheckpointData (journal.drop k) state' = (state', none) := by
  have hnumbered := hjournal.numbered.drop cursor
  rw [Nat.zero_add] at hnumbered
  have hrestores : (Replayed.ofJournal maxRounds (journal.take cursor)).Restores state.stopSteps
      state := by
    refine { hsnapshot.agrees with stops := ?_ }
    split
    · next hnil =>
      cases hstop : (Replayed.ofJournal maxRounds (journal.take cursor)).stop with
      | none => exact hnil
      | some reason => exact absurd ((hsnapshot.stop reason hstop).symm.trans hnil) (by simp)
    · rfl
  obtain ⟨restored, hok, hrestored, hkept, hcursor⟩ := restoreEvents_restores hjournal hnumbered
    (fun e he => List.mem_of_mem_drop he) hsnapshot.unapplied
    (hjournal.distinct.sublist (List.drop_sublist cursor journal)) hrestores hsnapshot.toKept
    hsnapshot.applied
  rw [Replayed.ofJournal, foldl_drop_replay_take] at hrestored
  let state' : AgentRunState := { restored with
    toolRoundsUsed := (restored.request.maxToolRounds : Int) - restored.remainingToolRounds }
  have hlength : cursor + (journal.drop cursor).length = journal.length := by
    have := hsnapshot.cursor_le
    rw [List.length_drop]
    omega
  have happlied : state'.appliedTraceSequence = some journal.length := hcursor.trans (by rw [hlength])
  have hkept' : state'.Kept maxRounds nextEventId journal := { hkept with }
  have hstop : ∀ reason, (Replayed.ofJournal maxRounds journal).stop = some reason →
      state'.stopSteps = [stopStep reason] := by
    intro reason hreason
    have hstops : state'.stopSteps = _ := hrestored.stops
    by_cases hnil : state.stopSteps = []
    · rw [hstops, if_pos hnil]
      rw [Replayed.ofJournal] at hreason
      rw [hreason]
      rfl
    · rw [hstops, if_neg hnil]
      exact (hsnapshot.later reason hreason).resolve_left hnil
  refine ⟨state', ?_, ?_, hrestored.stops, ?_⟩
  · rw [restoreCheckpointData, hjournal.checkpointTraceTail_eq hsnapshot.toKept hk hsnapshot.applied]
    dsimp only
    rw [AgentRunState.stepIds] at hok
    rw [hok]
  · refine { hkept' with
      cursor_le := le_refl _, applied := happlied, agrees := ?_, stop := ?_
      later := fun reason hreason => Or.inr (hstop reason hreason), unapplied := ?_ }
    · rw [List.take_length]
      exact { hrestored.toAgrees with }
    · rw [List.take_length]
      exact hstop
    · intro e he
      rw [List.drop_length] at he
      exact absurd he List.not_mem_nil
  · have hk' : k ≤ journal.length := hk.trans hsnapshot.cursor_le
    rw [restoreCheckpointData, hjournal.checkpointTraceTail_eq hkept' hk' happlied, List.drop_length]
    rfl

end Restore

end EvernightAI
