import EvernightAI.Agent.JournalReplay

/-!
# Runs and their journals

The steps of a run keep `Replays`: first the generator's, then those of the loop around it, then what
is done to the stored run. `restoreCheckpointData_live` follows by induction over the run.
-/

namespace EvernightAI

open Journal

namespace RunWorld

variable {maxRounds : Nat} {past : Moment} {world world' : RunWorld} {state state' : AgentRunState}
  {point point' : RunPoint} {event : AgentTraceEvent}

/-- The generator stands at a point. -/
structure At (maxRounds : Nat) (past : Moment) (world : RunWorld) (state : AgentRunState)
    (point : RunPoint) : Prop extends world.Stored maxRounds past where
  upToDate : UpToDate maxRounds world.nextEventId world.record.journal state
  ready : point.Ready world.nextEventId state
  stops : world.record.state.stopSteps ≠ [] → state.stopSteps = world.record.state.stopSteps

theorem Replays.at (h : world.Replays maxRounds past)
    (hsession : world.session = some ⟨state, .at point⟩) : world.At maxRounds past state point :=
  { h.toStored with
    upToDate := (h.ready state _ hsession).1
    ready := (h.ready state _ hsession).2
    stops := h.stops state _ hsession }

/-- A session goes on, and nothing is written. -/
theorem Stored.session (h : world.Stored maxRounds past)
    (hjournal : world'.record.journal = world.record.journal)
    (hstate : world'.record.state = world.record.state)
    (hid : world.nextEventId ≤ world'.nextEventId)
    (hsession : ∀ state stage, world'.session = some ⟨state, stage⟩ →
      stage.Ready maxRounds world'.nextEventId past world.record.journal world.record.state state ∧
      (world.record.state.stopSteps ≠ [] → state.stopSteps = world.record.state.stopSteps)) :
    Continues maxRounds past world world' := by
  obtain ⟨cursor, hsnapshot⟩ := h.stored
  have hstored : world'.Stored maxRounds past := by
    refine ⟨?_, ?_, cursor, ?_⟩
    · rw [hjournal]
      exact h.journaled.mono hid
    · rw [hjournal]
      exact h.since.mono hid
    · rw [hjournal, hstate]
      exact hsnapshot.mono hid
  refine ⟨{ hstored with ready := fun state stage hs => ?_, stops := fun state stage hs => ?_ },
    fun _ => by rw [hstate]⟩
  · rw [hjournal, hstate]
    exact (hsession state stage hs).1
  · rw [hstate]
    exact (hsession state stage hs).2

theorem Stored.lt_nextEventId (h : world.Stored maxRounds past) {i : Nat}
    (hi : i ∈ past.stepIds ++ world.record.state.stepIds) : i < world.nextEventId := by
  rcases List.mem_append.mp hi with hi | hi
  · exact h.since.ids i hi
  · obtain ⟨cursor, hsnapshot⟩ := h.stored
    exact hsnapshot.ids i hi

/-- The generator goes on elsewhere; it may have made the STOP step. -/
theorem At.session (h : world.At maxRounds past state point) (stage : RunStage)
    (hready : stage.Ready maxRounds world.nextEventId past world.record.journal world.record.state
      state')
    (hstops : state'.stopSteps = state.stopSteps ∨ state.stopSteps = []) :
    Continues maxRounds past world { world with session := some ⟨state', stage⟩ } := by
  refine h.toStored.session rfl rfl (le_refl _) fun other stage' hs => ?_
  obtain ⟨rfl, rfl⟩ := RunSession.mk.inj (Option.some.inj hs)
  refine ⟨hready, fun hne => ?_⟩
  have hsame := h.stops hne
  rcases hstops with heq | hnil
  · exact heq.trans hsame
  · exact absurd (hsame.symm.trans hnil) hne

/-- The generator yields an event. -/
theorem At.emit (h : world.At maxRounds past state point)
    (hemit : Emitting maxRounds (world.nextEventId + 1) world.record.journal
      (state'.tracedEvent world.nextEventId event) (state'.addTrace world.nextEventId event))
    (hready : point'.Ready world.nextEventId state')
    (hcheckpoint : event.eventType.checkpoint = true → point'.working = true)
    (hstops : state'.stopSteps = state.stopSteps) :
    Continues maxRounds past world (world.emit state' event point') := by
  obtain ⟨htraced, hsame, -⟩ := AgentRunState.steps_addTrace state' world.nextEventId event
  refine h.toStored.session rfl rfl (Nat.le_succ _) fun other stage' hs => ?_
  obtain ⟨rfl, rfl⟩ := RunSession.mk.inj (Option.some.inj hs)
  refine ⟨⟨hemit, ?_, hcheckpoint, Or.inr fun i hi heq => ?_⟩, fun hne => ?_⟩
  · exact hready.congr (Nat.le_succ _) rfl rfl rfl htraced hsame rfl rfl
  · obtain rfl := Option.some.inj heq
    exact absurd (h.lt_nextEventId hi) (lt_irrefl _)
  · rw [hsame, hstops]
    exact h.stops hne

/-- The generator yields an event that says nothing. -/
theorem At.emit_inert (h : world.At maxRounds past state point)
    (hup : UpToDate maxRounds world.nextEventId world.record.journal state')
    (hsequence : event.sequence = none)
    (hinert : (state'.tracedEvent world.nextEventId event).inert = true)
    (hrestorable : (state'.tracedEvent world.nextEventId event).Restorable maxRounds)
    (hready : point'.Ready world.nextEventId state')
    (hcheckpoint : event.eventType.checkpoint = true → point'.working = true)
    (hstops : state'.stopSteps = state.stopSteps) :
    Continues maxRounds past world (world.emit state' event point') :=
  h.emit (hup.emit h.journaled hsequence hinert hrestorable) hready hcheckpoint hstops

/-! ### The generator -/

private theorem checkpoint_absurd {eventType : AgentTraceEventType} {P : Prop}
    (h : eventType.checkpoint = false) : eventType.checkpoint = true → P :=
  fun h' => absurd (h.symm.trans h') (by simp)

theorem At.runAgentEvents (h : world.At maxRounds past state .openContext) :
    Continues maxRounds past world (world.runAgentEvents state) := by
  obtain ⟨hworking, hnone⟩ := h.ready
  let opened : AgentRunState := { state with
    history := { state.history with
      messageOffset := some world.context.length, messageIndices := some [] } }
  let step : AgentStep := {
    stepType := .start
    metadata := [("context_id", .str state.request.contextId),
      ("model_id", .str state.request.modelId)] }
  have hup : UpToDate maxRounds world.nextEventId world.record.journal opened :=
    h.upToDate.change { h.upToDate.kept with } rfl rfl rfl (fun _ => rfl) (Or.inl rfl)
  obtain ⟨htraced, hstops⟩ := AgentRunState.steps_addStep (rfl : step.stepType.traced = false)
    (by simp) opened
  have hready : (RunPoint.model false).Ready world.nextEventId (opened.addStep step) :=
    ⟨⟨hworking.running, hstops.trans hworking.unstopped, hworking.unpending⟩, hnone⟩
  exact h.emit_inert (hup.addStep rfl (by simp) rfl) rfl rfl trivial hready (fun _ => rfl)
    hstops

theorem At.chatDelta {afterRound : Bool} (h : world.At maxRounds past state (.model afterRound))
    (text : String) : Continues maxRounds past world (world.chatDelta state afterRound text) :=
  h.emit_inert h.upToDate rfl rfl trivial h.ready (checkpoint_absurd rfl) rfl

/-- A completed response. -/
theorem At.chatCompleted {afterRound : Bool} (h : world.At maxRounds past state (.model afterRound))
    (response : ChatResponse) :
    Continues maxRounds past world (world.chatCompleted state afterRound response) := by
  have hworking : state.Working := h.ready.toWorking rfl
  have hkept := h.upToDate.kept
  let event : AgentTraceEvent := {
    eventType := .chatCompleted, stepType := some .chat
    response := some response, message := some response.message }
  let traced := state.tracedEvent world.nextEventId event
  let step : AgentStep := {
    stepType := .chat, traceEventId := traced.eventId
    response := some response, message := some response.message }
  let base := state.addTrace world.nextEventId event
  let after : AgentRunState := { base.addStep step with response := some response }
  have happend : after.steps = base.steps ++ [step] := rfl
  obtain ⟨hbase, hbasestops, -⟩ := AgentRunState.steps_addTrace state world.nextEventId event
  have htraced : after.tracedSteps = state.tracedSteps ++ [step.untagged] := by
    rw [AgentRunState.tracedSteps_append happend]
    exact congrArg (· ++ [step.untagged]) hbase
  have hstops : after.stopSteps = state.stopSteps := by
    rw [AgentRunState.stopSteps_append happend, if_neg (by simp [step]), List.append_nil]
    exact hbasestops
  have hrounds : traced.metadata.get "remaining_tool_rounds" =
      some (.int state.remainingToolRounds) := Dict.get_set_self _ _ _
  have hnext : (Replayed.ofJournal maxRounds world.record.journal).next traced = {
      Replayed.ofJournal maxRounds world.record.journal with
      response := some response
      steps := (Replayed.ofJournal maxRounds world.record.journal).steps ++ [step.untagged]
      rounds := state.remainingToolRounds } := by
    have hleft : traced.roundsLeft = some state.remainingToolRounds := by
      rw [AgentTraceEvent.roundsLeft, hrounds]
      rfl
    rw [Replayed.next]
    simp only [traced, AgentRunState.tracedEvent, event] at hleft ⊢
    rw [hleft]
    rfl
  have hkept' : after.Kept maxRounds (world.nextEventId + 1) world.record.journal := by
    have hbasekept := hkept.addTrace (rfl : event.sequence = none)
    refine { hbasekept with
      initial := fun hnone => absurd hnone (by simp [after]), pending := Or.inl hworking.unpending
      stopped := fun hne => absurd (hstops.trans hworking.unstopped) hne, ids := fun i hi => ?_ }
    rcases (AgentRunState.mem_stepIds_append happend).mp hi with hi | hi
    · exact hbasekept.ids i hi
    · obtain rfl := Option.some.inj hi
      exact Nat.lt_succ_self _
  have hemit : Emitting maxRounds (world.nextEventId + 1) world.record.journal traced after := by
    refine { hkept' with
      restorable := ⟨⟨response, rfl⟩, state.remainingToolRounds, hkept.rounds_le, hrounds⟩
      agrees := ?_, stop := ?_, id_lt := fun i hi => ?_
      fresh := Or.inr fun e he i hi heq => ?_ }
    · rw [hnext]
      exact ⟨rfl, by rw [htraced, h.upToDate.agrees.steps], fun _ => rfl⟩
    · rw [hnext, hstops]
      exact fun reason hreason => h.upToDate.stop hreason
    · obtain rfl := Option.some.inj hi
      exact Nat.lt_succ_self _
    · obtain rfl := Option.some.inj heq
      exact absurd (h.journaled.ids e he _ hi) (lt_irrefl _)
  have hmax : (if afterRound then state.remainingToolRounds else state.request.maxToolRounds) =
      state.remainingToolRounds := by
    rcases afterRound with _ | _
    · rw [if_neg (by simp), hkept.request_max, hkept.initial h.ready.2]
    · rfl
  have hready : (RunPoint.toolLoop response.message.calls
      (if afterRound then state.remainingToolRounds else state.request.maxToolRounds) []).Ready
      (world.nextEventId + 1) after := by
    refine ⟨⟨hworking.running, hstops.trans hworking.unstopped, hworking.unpending⟩, hmax, ?_⟩
    refine or_iff_not_imp_left.mpr fun hcalls => ⟨response, rfl, hcalls, fun call hcall => ?_⟩
    exact List.mem_map_of_mem (List.mem_of_mem_filter hcall)
  refine h.toStored.session rfl rfl (Nat.le_succ _) fun other stage' hs => ?_
  obtain ⟨rfl, rfl⟩ := RunSession.mk.inj (Option.some.inj hs)
  refine ⟨⟨hemit, hready, fun _ => rfl, Or.inr fun i hi heq => ?_⟩, fun hne => ?_⟩
  · obtain rfl := Option.some.inj heq
    exact absurd (h.lt_nextEventId hi) (lt_irrefl _)
  · exact hstops.trans (h.stops hne)

/-- The STOP step. -/
theorem At.finishLoop (h : world.At maxRounds past state point) (reason : AgentStopReason)
    (hup : UpToDate maxRounds world.nextEventId world.record.journal state')
    (hworking : state'.Working) (hstops : state'.stopSteps = state.stopSteps) :
    Continues maxRounds past world (world.finishLoop state' reason) := by
  let step : AgentStep := { stepType := .stop, metadata := [("reason", .str reason.value)] }
  let after : AgentRunState := { state'.addStep step with
    stopReason := some reason
    toolRoundsUsed := (state'.request.maxToolRounds : Int) - state'.remainingToolRounds }
  have happend : after.steps = state'.steps ++ [step] := rfl
  have htraced : after.tracedSteps = state'.tracedSteps := by
    rw [AgentRunState.tracedSteps_append happend]
    exact List.append_nil _
  have hstop : after.stopSteps = [stopStep reason] := by
    rw [AgentRunState.stopSteps_append happend, hworking.unstopped]
    rfl
  have hup' : UpToDate maxRounds world.nextEventId world.record.journal after := by
    refine hup.change { hup.kept with
      pending := Or.inl hworking.unpending
      stopped := fun _ hpaused => absurd (hworking.running.symm.trans hpaused) (by simp)
      ids := fun i hi => ?_ } rfl rfl htraced (fun _ => rfl) (Or.inr hworking.unstopped)
    rcases (AgentRunState.mem_stepIds_append happend).mp hi with hi | hi
    · exact hup.kept.ids i hi
    · exact absurd hi (by simp [step])
  have hending : after.Ending := ⟨hworking.running, reason, rfl, hstop⟩
  have hstage : (RunStage.at (.commit after.runTranscript [])).Ready maxRounds world.nextEventId
      past world.record.journal world.record.state after := ⟨hup', hending⟩
  exact h.session _ hstage (Or.inr (hstops.symm.trans hworking.unstopped))

theorem At.continueToolLoop {calls : List ToolCall} {remaining : Nat} {requested : List String}
    (h : world.At maxRounds past state (.toolLoop calls remaining requested)) :
    Continues maxRounds past world (world.continueToolLoop state calls remaining requested) := by
  obtain ⟨hworking, rfl, hcalls⟩ := h.ready
  rw [RunWorld.continueToolLoop]
  dsimp only
  split
  · next hcontinue =>
    refine h.session (.at (.nextCall calls requested)) ⟨?_, ?_⟩ (Or.inl rfl)
    · exact h.upToDate.change { h.upToDate.kept with } rfl rfl rfl (fun _ => rfl) (Or.inl rfl)
    · exact ⟨⟨hworking.running, hworking.unstopped, hworking.unpending⟩,
        (hcalls.resolve_left hcontinue.1).congr rfl rfl⟩
  · refine h.finishLoop _ ?_ ⟨hworking.running, hworking.unstopped, rfl⟩ rfl
    exact h.upToDate.change { h.upToDate.kept with pending := Or.inl rfl } rfl rfl rfl
      (fun _ => rfl) (Or.inl rfl)

/-- The approval events of a call are traced together. -/
private theorem addTraces_ready {nextEventId : Nat} {journal events : List AgentTraceEvent}
    (hup : UpToDate maxRounds nextEventId journal state)
    (hevents : ∀ e ∈ events, e.sequence = none ∧
      (e.eventType = .toolApprovalRequested ∨ e.eventType = .toolApprovalDecided)) :
    ∃ state' traced, addTraces state nextEventId events = (state', traced) ∧
      UpToDate maxRounds (nextEventId + events.length) journal state' ∧
      (∀ e ∈ traced, e.Announced (nextEventId + events.length)) ∧
      state'.status = state.status ∧ state'.response = state.response ∧
      state'.pendingToolCalls = state.pendingToolCalls ∧
      state'.tracedSteps = state.tracedSteps ∧ state'.stopSteps = state.stopSteps := by
  induction events generalizing nextEventId state with
  | nil =>
    exact ⟨state, [], rfl, hup, fun e he => absurd he List.not_mem_nil, rfl, rfl, rfl, rfl, rfl⟩
  | cons e events ih =>
    obtain ⟨hsequence, happroval⟩ := hevents e List.mem_cons_self
    obtain ⟨htraced, hstops, -⟩ := AgentRunState.steps_addTrace state nextEventId e
    have hup' : UpToDate maxRounds (nextEventId + 1) journal (state.addTrace nextEventId e) :=
      (hup.mono (Nat.le_succ _)).change (hup.kept.addTrace hsequence) rfl rfl htraced (fun _ => rfl)
        (Or.inl hstops)
    obtain ⟨state', traced, heq, hlast, hannounced, hstatus, hresponse, hpending, hsteps, hstop⟩ :=
      ih hup' fun e he => hevents e (List.mem_cons_of_mem _ he)
    have hlength : nextEventId + 1 + events.length = nextEventId + (e :: events).length := by
      rw [List.length_cons]
      omega
    rw [hlength] at hlast hannounced
    refine ⟨state', state.tracedEvent nextEventId e :: traced, by rw [addTraces, heq], hlast, ?_,
      hstatus, hresponse, hpending, hsteps.trans htraced, hstop.trans hstops⟩
    intro e' he'
    rcases List.mem_cons.mp he' with rfl | he'
    · refine ⟨happroval, fun i hi => ?_⟩
      obtain rfl := Option.some.inj hi
      rw [List.length_cons]
      omega
    · exact hannounced e' he'

private theorem mem_toolApprovalEvents {call : ToolCall} {decision : Option ToolSafetyDecision}
    {requested : Bool} (h : event ∈ toolApprovalEvents call decision requested) :
    event.sequence = none ∧
      (event.eventType = .toolApprovalRequested ∨ event.eventType = .toolApprovalDecided) := by
  rcases decision with _ | decision
  · exact absurd h List.not_mem_nil
  rw [toolApprovalEvents] at h
  split at h
  · exact absurd h List.not_mem_nil
  rcases List.mem_append.mp h with h | h
  · split at h
    · obtain rfl := List.mem_singleton.mp h
      exact ⟨rfl, Or.inl rfl⟩
    · exact absurd h List.not_mem_nil
  · split at h
    · obtain rfl := List.mem_singleton.mp h
      exact ⟨rfl, Or.inr rfl⟩
    · exact absurd h List.not_mem_nil

theorem At.handleNextCall {runtime : AgentRuntime} {calls : List ToolCall} {requested : List String}
    (h : world.At maxRounds past state (.nextCall calls requested)) :
    Continues maxRounds past world (world.handleNextCall runtime state calls requested) := by
  obtain ⟨hworking, hhandles⟩ := h.ready
  rcases calls with _ | ⟨raw, rest⟩
  · -- the round is over, and counted before the next response
    have hclosed := hhandles.not_roundOpen
    refine h.session (.at (.model true)) ⟨?_, ?_⟩ (Or.inl rfl)
    · refine h.upToDate.change { h.upToDate.kept with
        rounds_le := (Nat.sub_le _ _).trans h.upToDate.kept.rounds_le, initial := ?_ }
        rfl rfl rfl (fun hopen => absurd hopen hclosed) (Or.inl rfl)
      obtain ⟨response, hsome, -⟩ := hhandles
      exact fun hnone => absurd (hsome.symm.trans hnone) (by simp)
    · exact ⟨hworking.running, hworking.unstopped, hworking.unpending⟩
  · let call := state.preparedCall raw
    let decision := toolSafetyDecision runtime.tools call
    let events := toolApprovalEvents call decision (!requested.contains call.toolCallId)
    obtain ⟨state', traced, heq, hup, hannounced, hstatus, hresponse, hpending, hsteps, hstops⟩ :=
      addTraces_ready h.upToDate (fun e (he : e ∈ events) => mem_toolApprovalEvents he)
    have hnext : world.handleNextCall runtime state (raw :: rest) requested = { world with
        nextEventId := world.nextEventId + events.length
        session := some ⟨state', .at (.announce traced ⟨call, rest, requested⟩ decision)⟩ } := by
      rw [RunWorld.handleNextCall]
      simp only [call, decision, events] at heq ⊢
      rw [heq]
    have hhandles' : state'.Handles (call :: rest) := by
      have hsame := hhandles.congr hresponse hsteps
      obtain ⟨response, hsome, hne, hincomplete⟩ := hsame
      refine ⟨response, hsome, hne, fun c hc => ?_⟩
      have hc' := hincomplete c hc
      rwa [List.map_cons, ← AgentRunState.toolCallId_preparedCall state raw, ← List.map_cons] at hc'
    rw [hnext]
    refine h.toStored.session rfl rfl (Nat.le_add_right _ _) ?_
    intro other stage hs
    obtain ⟨rfl, rfl⟩ := RunSession.mk.inj (Option.some.inj hs)
    refine ⟨⟨hup, ⟨?_, ?_, ?_⟩, hhandles', hannounced⟩, fun hne => hstops.trans (h.stops hne)⟩
    · exact hstatus.trans hworking.running
    · exact hstops.trans hworking.unstopped
    · exact hpending.trans hworking.unpending

theorem At.pauseForApproval {site : CallSite} {events : List AgentTraceEvent}
    {decision : Option ToolSafetyDecision}
    (h : world.At maxRounds past state (.announce events site decision)) (granted : ToolSafetyDecision) :
    Continues maxRounds past world (world.pauseForApproval state site granted) := by
  obtain ⟨hworking, hhandles, -⟩ := h.ready
  refine h.emit_inert ?_ rfl rfl trivial trivial (checkpoint_absurd rfl) rfl
  refine h.upToDate.change { h.upToDate.kept with
    pending := Or.inr (hhandles.congr rfl rfl)
    stopped := fun hne => absurd hworking.unstopped hne } rfl rfl rfl (fun _ => rfl) (Or.inl rfl)

theorem At.announceCall {site : CallSite} {events : List AgentTraceEvent}
    {decision : Option ToolSafetyDecision}
    (h : world.At maxRounds past state (.announce events site decision)) :
    Continues maxRounds past world (world.announceCall state events site decision) := by
  obtain ⟨hworking, hhandles, hannounced⟩ := h.ready
  have hstart : Continues maxRounds past world (world.emit state {
      eventType := .toolStarted, stepType := some .tool, toolCall := some site.call }
      (.execute site decision)) :=
    h.emit_inert h.upToDate rfl rfl trivial ⟨hworking, hhandles⟩ (checkpoint_absurd rfl) rfl
  rcases events with _ | ⟨e, events⟩
  · rcases decision with _ | granted
    · exact hstart
    · rw [RunWorld.announceCall]
      split
      · exact h.pauseForApproval granted
      split
      · exact hstart
      · exact h.session (.at (.execute site (some granted))) ⟨h.upToDate, hworking, hhandles⟩
          (Or.inl rfl)
  · obtain ⟨happroval, hid⟩ := hannounced e List.mem_cons_self
    have hinert : e.inert = true := by
      rcases happroval with htype | htype <;> simp [AgentTraceEvent.inert, htype]
    have hnext := Replayed.next_of_inert hinert
      (Replayed.ofJournal maxRounds world.record.journal)
    refine h.session (.emit e (.announce events site decision)) ⟨?_, ?_, fun _ => rfl, Or.inl hinert⟩
      (Or.inl rfl)
    · refine { h.upToDate.kept with
        restorable := ?_, agrees := ?_, stop := ?_, id_lt := hid, fresh := Or.inl hinert }
      · rcases happroval with htype | htype <;> simp [AgentTraceEvent.Restorable, htype]
      · rw [hnext]
        exact h.upToDate.agrees
      · rw [hnext]
        exact fun reason hreason => h.upToDate.stop hreason
    · exact ⟨hworking, hhandles, fun e' he' => hannounced e' (List.mem_cons_of_mem _ he')⟩

/-! ### Tools -/

/-- A call that was executed, or refused, gets its step and its event. -/
theorem At.emitTool {site : CallSite} (h : world.At maxRounds past state point)
    (hworking : state.Working) (hhandles : state.Handles (site.call :: site.rest))
    {step : AgentStep} (hstep : step.stepType = .tool ∨ step.stepType = .toolError)
    (hcall : step.toolCall = some site.call) (hid : step.traceEventId = none)
    (hsequence : event.sequence = none)
    (htype : event.eventType = .toolCompleted ∨ event.eventType = .toolFailed)
    (hevent : event.toolCall = some site.call)
    (hsame : (((state.addStep step).tracedEvent world.nextEventId event).toolStep
      site.call).untagged = step.untagged)
    (hpoint : point' = .nextCall site.rest site.requested ∨ point' = .toolErrorStop) :
    Continues maxRounds past world (world.emit (state.addStep step) event point') := by
  obtain ⟨hkept, htraced, hstops⟩ := h.upToDate.kept.addTool hstep hcall hid
  have hworking' : (state.addStep step).Working :=
    ⟨hworking.running, hstops.trans hworking.unstopped, hworking.unpending⟩
  have hready : point'.Ready world.nextEventId (state.addStep step) := by
    rcases hpoint with rfl | rfl
    · refine ⟨hworking', hhandles.tool htraced rfl hcall hstep _ fun c hc => ?_⟩
      exact (List.mem_cons.mp hc).imp_left fun heq => by rw [heq]
    · exact hworking'
  have hpoint' : point'.working = true := by rcases hpoint with rfl | rfl <;> rfl
  refine h.emit (Emitting.addTrace h.journaled hkept hsequence ?_ ?_ ?_) hready (fun _ => hpoint')
    hstops
  · rcases htype with htype | htype <;>
      simp [AgentTraceEvent.Restorable, AgentRunState.tracedEvent, htype, hevent]
  · have hnext : (Replayed.ofJournal maxRounds world.record.journal).next
        ((state.addStep step).tracedEvent world.nextEventId event) = {
        Replayed.ofJournal maxRounds world.record.journal with
        steps := (Replayed.ofJournal maxRounds world.record.journal).steps ++ [step.untagged] } := by
      rw [Replayed.next, ← hsame]
      rcases htype with htype | htype <;> simp only [AgentRunState.tracedEvent, htype, hevent]
    rw [hnext]
    refine ⟨h.upToDate.agrees.response, by rw [htraced, h.upToDate.agrees.steps], fun hopen => ?_⟩
    exact h.upToDate.agrees.rounds (hopen.of_tool rfl hcall hstep htraced)
  · intro reason
    have hnone : ((state.addStep step).tracedEvent world.nextEventId event).stopReason = none := by
      rcases htype with htype | htype <;>
        simp [AgentTraceEvent.stopReason, AgentRunState.tracedEvent, htype]
    rw [Replayed.stop_next, hnone, Option.or_none, hstops]
    exact fun hreason => h.upToDate.stop hreason

theorem At.toolCompleted {site : CallSite} (runtime : AgentRuntime)
    (h : world.At maxRounds past state point) (hworking : state.Working)
    (hhandles : state.Handles (site.call :: site.rest)) (result : ToolCallResult) :
    Continues maxRounds past world (world.toolCompleted runtime state site result) :=
  h.emitTool hworking hhandles (Or.inl rfl) rfl rfl rfl (Or.inl rfl) rfl rfl (Or.inl rfl)

theorem At.toolFailed {site : CallSite} (runtime : AgentRuntime) (h : world.At maxRounds past state point)
    (hworking : state.Working) (hhandles : state.Handles (site.call :: site.rest)) (e : Error) :
    Continues maxRounds past world (world.toolFailed runtime state site e) := by
  refine h.emitTool hworking hhandles (Or.inr rfl) rfl rfl rfl (Or.inr rfl) rfl rfl ?_
  split
  · exact Or.inl rfl
  · exact Or.inr rfl

theorem At.executeToolCall {runtime : AgentRuntime} {site : CallSite}
    {decision : Option ToolSafetyDecision} (h : world.At maxRounds past state (.execute site decision)) :
    Continues maxRounds past world (world.executeToolCall runtime state site decision) := by
  obtain ⟨hworking, hhandles⟩ := h.ready
  have hraise (e : Error) :
      Continues maxRounds past world (world.raiseAt state (.execute site decision) e) :=
    h.session (.raised (.execute site decision) e) h.upToDate (Or.inl rfl)
  have hstart (attempt : ToolExecutionAttempt) :
      Continues maxRounds past world (world.goto state (.start attempt site)) :=
    h.session (.at (.start attempt site)) ⟨h.upToDate, hworking, hhandles⟩ (Or.inl rfl)
  rw [RunWorld.executeToolCall]
  split
  · exact h.toolFailed runtime hworking hhandles _
  split
  · split
    · split
      · exact hraise _
      · exact h.toolFailed runtime hworking hhandles _
    · exact h.toolCompleted runtime hworking hhandles _
    · split
      · split
        · exact hraise _
        · obtain ⟨hreplays, hstopped⟩ := hstart _
          exact ⟨{ hreplays with }, hstopped⟩
      · exact hstart _
  · exact h.session (.at (.invoke none site)) ⟨h.upToDate, hworking, hhandles⟩ (Or.inl rfl)

theorem At.startAttempt {attempt : ToolExecutionAttempt} {site : CallSite}
    (h : world.At maxRounds past state (.start attempt site)) :
    Continues maxRounds past world (world.startAttempt state attempt site) := by
  obtain ⟨hworking, hhandles⟩ := h.ready
  obtain ⟨hreplays, hstopped⟩ := h.session
    (.at (.invoke (some { attempt with
      status := .started, toolCall := site.persistedCall (some attempt) }) site))
    ⟨h.upToDate, hworking, hhandles⟩ (Or.inl rfl)
  exact ⟨{ hreplays with }, hstopped⟩

/-- An outcome is written to the ledger. -/
theorem At.saveOutcome (h : world.At maxRounds past state point) (attempt : Option ToolExecutionAttempt)
    (outcome : Except Error ToolCallResult) :
    (world.saveOutcome attempt outcome).At maxRounds past state point ∧
      (world.saveOutcome attempt outcome).record.state = world.record.state := by
  rcases attempt with _ | attempt
  · exact ⟨h, rfl⟩
  · rcases outcome with e | result
    · exact ⟨{ h with }, rfl⟩
    · exact ⟨{ h with }, rfl⟩

theorem At.invokeTool {runtime : AgentRuntime} {attempt : Option ToolExecutionAttempt}
    {site : CallSite} (h : world.At maxRounds past state (.invoke attempt site)) :
    Continues maxRounds past world (world.invokeTool runtime state attempt site) := by
  obtain ⟨hworking, hhandles⟩ := h.ready
  rw [RunWorld.invokeTool]
  split
  · next e _ =>
    obtain ⟨hsaved, hstate⟩ := h.saveOutcome attempt (.error e)
    obtain ⟨hreplays, hstopped⟩ := hsaved.toolFailed runtime hworking hhandles e
    exact ⟨hreplays, by rwa [hstate] at hstopped⟩
  · obtain ⟨hreplays, hstopped⟩ := h.session (.at (.invoked attempt site))
      ⟨h.upToDate, hworking, hhandles⟩ (Or.inl rfl)
    exact ⟨{ hreplays with }, hstopped⟩

theorem At.finishTool {runtime : AgentRuntime} {attempt : Option ToolExecutionAttempt}
    {site : CallSite} (h : world.At maxRounds past state (.invoked attempt site))
    (outcome : Except Error Dict) :
    Continues maxRounds past world (world.finishTool runtime state attempt site outcome) := by
  obtain ⟨hworking, hhandles⟩ := h.ready
  let returned : RunWorld := { world with invocations :=
    world.invocations ++ [ToolInvocation.returned state.currentToolRound site.call.toolCallId] }
  have hreturned : returned.At maxRounds past state (.invoked attempt site) := { h with }
  rcases outcome with e | toolCallResult
  · obtain ⟨hsaved, hstate⟩ := hreturned.saveOutcome attempt
      (.error (toolExecutionFailure (site.call.toolName.getD "") e))
    obtain ⟨hreplays, hstopped⟩ := hsaved.toolFailed runtime hworking hhandles
      (toolExecutionFailure (site.call.toolName.getD "") e)
    exact ⟨hreplays, by rwa [hstate] at hstopped⟩
  · obtain ⟨hsaved, hstate⟩ := hreturned.saveOutcome attempt
      (.ok { toolCallId := site.call.toolCallId, toolCallResult })
    obtain ⟨hreplays, hstopped⟩ := hsaved.toolCompleted runtime hworking hhandles
      { toolCallId := site.call.toolCallId, toolCallResult }
    exact ⟨hreplays, by rwa [hstate] at hstopped⟩

/-! ### The end of a run -/

theorem At.commitMessage {message : Content} {messages : List Content} {indices : List Nat}
    (h : world.At maxRounds past state (.commit (message :: messages) indices)) :
    Continues maxRounds past world (world.commitMessage state message messages indices) := by
  have hending : state.Ending := h.ready
  have hup : UpToDate maxRounds world.nextEventId world.record.journal { state with
      history := { state.history with
        messageIndices := some (indices ++ [world.context.length]) } } :=
    h.upToDate.change { h.upToDate.kept with } rfl rfl rfl (fun _ => rfl) (Or.inl rfl)
  obtain ⟨hreplays, hstopped⟩ := h.session
    (.at (.commit messages (indices ++ [world.context.length])))
    ⟨hup, ⟨hending.running, hending.stopped⟩⟩ (Or.inl rfl)
  exact ⟨{ hreplays with }, hstopped⟩

theorem At.writeMemory (h : world.At maxRounds past state .memories) (metadata : Dict) :
    Continues maxRounds past world (world.writeMemory state metadata) := by
  have hending : state.Ending := h.ready
  let step : AgentStep := { stepType := .memoryWrite, metadata }
  obtain ⟨htraced, hstops⟩ := AgentRunState.steps_addStep (rfl : step.stepType.traced = false)
    (by simp [step]) state
  obtain ⟨reason, hreason, hsteps⟩ := hending.stopped
  have hready : RunPoint.memories.Ready world.nextEventId (state.addStep step) :=
    ⟨hending.running, reason, hreason, hstops.trans hsteps⟩
  exact h.emit_inert (h.upToDate.addStep rfl (by simp) rfl) rfl rfl trivial hready
    (checkpoint_absurd rfl) hstops

/-- The last event names the reason of the STOP step. -/
theorem At.stopRun (h : world.At maxRounds past state .memories) :
    Continues maxRounds past world (world.stopRun state) := by
  obtain ⟨hrunning, reason, hreason, hsteps⟩ : state.Ending := h.ready
  let after : AgentRunState := { state with
    status := if state.stopReason = some .finished then .finished else .failed }
  have hterminal : after.status ≠ .paused := by
    simp only [after]
    split <;> simp
  have hup : UpToDate maxRounds world.nextEventId world.record.journal after :=
    h.upToDate.change { h.upToDate.kept with
      stopped := fun _ hpaused => absurd hpaused hterminal } rfl rfl rfl (fun _ => rfl) (Or.inl rfl)
  let event := runStoppedEvent state.stopReason
  let traced := after.tracedEvent world.nextEventId event
  have hstopped : ∃ status, stoppedReason? traced = some (some reason, status) := by
    simp only [traced, AgentRunState.tracedEvent, event, runStoppedEvent, hreason]
    rcases reason with _ | _ | _
    · exact ⟨_, rfl⟩
    · exact ⟨_, rfl⟩
    · exact ⟨_, rfl⟩
  obtain ⟨status, hstoppedReason⟩ := hstopped
  have hnamed : traced.stopReason = some reason := by
    have htype : traced.eventType = .runStopped := rfl
    rw [AgentTraceEvent.stopReason, if_pos htype, hstoppedReason]
    rfl
  have hnext : (Replayed.ofJournal maxRounds world.record.journal).next traced = {
      Replayed.ofJournal maxRounds world.record.journal with
      stop := (Replayed.ofJournal maxRounds world.record.journal).stop.or (some reason) } := by
    rw [← hnamed]
    rfl
  refine h.emit (Emitting.addTrace h.journaled hup.kept rfl ⟨_, hstoppedReason⟩ ?_ ?_) trivial
    (checkpoint_absurd rfl) rfl
  · rw [hnext]
    exact { hup.agrees with }
  · rw [hnext]
    intro other hother
    cases hstop : (Replayed.ofJournal maxRounds world.record.journal).stop with
    | none =>
      rw [hstop, Option.none_or] at hother
      obtain rfl := Option.some.inj hother
      exact hsteps
    | some first =>
      rw [hstop, Option.some_or] at hother
      exact hup.stop (hstop.trans hother)

/-! ### Resuming -/

theorem At.resumeCheckpointEvents (h : world.At maxRounds past state point)
    (hunstopped : state.stopSteps = []) :
    Continues maxRounds past world (world.resumeCheckpointEvents state) := by
  let after : AgentRunState := { state with
    status := .running, stopReason := none, pendingToolCalls := []
    pendingApprovalRequests := [], pause := none, pauseRequest := none }
  have hworking : after.Working := ⟨rfl, hunstopped, rfl⟩
  have hup : UpToDate maxRounds world.nextEventId world.record.journal after :=
    h.upToDate.change { h.upToDate.kept with
      pending := Or.inl rfl, stopped := fun hne => absurd hunstopped hne }
      rfl rfl rfl (fun _ => rfl) (Or.inl rfl)
  rw [RunWorld.resumeCheckpointEvents]
  dsimp only
  split
  · next hnone => exact h.session (.at (.model false)) ⟨hup, hworking, hnone⟩ (Or.inl rfl)
  · next response hsome =>
    split
    · next hincomplete =>
      refine h.session (.at (.toolLoop (after.incompleteToolCalls response) _
        (requestedApprovalCallIds after))) ⟨hup, hworking, rfl, Or.inr ⟨response, hsome, ?_, ?_⟩⟩
        (Or.inl rfl)
      · intro hcalls
        refine hincomplete ?_
        rw [AgentRunState.incompleteToolCalls, hcalls]
        rfl
      · exact fun call hcall => List.mem_map_of_mem hcall
    · next hcomplete =>
      have hdone : after.incompleteToolCalls response = [] := not_not.mp hcomplete
      split
      · next hcalls =>
        -- the round is over, and counted here
        have hclosed : ¬after.RoundOpen := by
          intro hopen
          rcases hopen response hsome with hnil | hne
          · exact hcalls hnil
          · exact hne hdone
        refine h.session (.at (.model true)) ⟨?_, ⟨rfl, hunstopped, rfl⟩⟩ (Or.inl rfl)
        refine hup.change { hup.kept with
          rounds_le := (Nat.sub_le _ _).trans hup.kept.rounds_le
          initial := fun hnone => absurd (hsome.symm.trans hnone) (by simp) }
          rfl rfl rfl (fun hopen => absurd hopen hclosed) (Or.inl rfl)
      · exact h.session (.at (.toolLoop [] _ [])) ⟨hup, hworking, rfl, Or.inl rfl⟩ (Or.inl rfl)

theorem At.resumeAgentEvents {approvals : List ToolApprovalDecision}
    (h : world.At maxRounds past state (.resuming approvals)) :
    Continues maxRounds past world (world.resumeAgentEvents state approvals) := by
  have hraise (e : Error) :
      Continues maxRounds past world (world.raiseAt state (.resuming approvals) e) :=
    h.session (.raised (.resuming approvals) e) h.upToDate (Or.inl rfl)
  rw [RunWorld.resumeAgentEvents]
  dsimp only
  split
  · exact hraise _
  next hpaused =>
  split
  · exact hraise _
  next hresume =>
  have hunstopped : state.stopSteps = [] := by
    by_contra hne
    have hcannot := h.upToDate.kept.stopped hne (not_not.mp hpaused)
    exact hresume (by rw [hcannot]; rfl)
  split
  · have hmerged : (world.supply approvals (max state.currentToolRound 1)).At maxRounds past
        { state with request := { state.request with
          toolApprovals := mergeToolApprovals state.request.toolApprovals approvals
            (max state.currentToolRound 1) } } (.resuming approvals) :=
      { h with
        upToDate := h.upToDate.change { h.upToDate.kept with } rfl rfl rfl (fun _ => rfl)
          (Or.inl rfl)
        ready := trivial }
    obtain ⟨hreplays, hstopped⟩ := hmerged.resumeCheckpointEvents hunstopped
    exact ⟨hreplays, hstopped⟩
  · split
    · exact hraise _
    split
    · exact hraise _
    next hpending =>
    split
    · exact hraise _
    have hhandles := h.upToDate.kept.pending.resolve_left hpending
    let resumed : AgentRunState := { state with
      request := { state.request with
        toolApprovals := mergeToolApprovals state.request.toolApprovals approvals
          state.currentToolRound
        pauseOnApproval := true }
      status := .running, stopReason := some .finished
      pendingToolCalls := [], pendingApprovalRequests := [] }
    have hup : UpToDate maxRounds world.nextEventId world.record.journal resumed :=
      h.upToDate.change { h.upToDate.kept with
        pending := Or.inl rfl, stopped := fun hne => absurd hunstopped hne }
        rfl rfl rfl (fun _ => rfl) (Or.inl rfl)
    have hworking : resumed.Working := ⟨rfl, hunstopped, rfl⟩
    obtain ⟨hreplays, hstopped⟩ := h.session (.at (.toolLoop state.pendingToolCalls
      state.remainingToolRounds (state.pendingApprovalRequests.map (·.toolCallId))))
      ⟨hup, hworking, rfl, Or.inr (hhandles.congr rfl rfl)⟩ (Or.inl rfl)
    exact ⟨{ hreplays with }, hstopped⟩

/-! ### The loop around the generator -/

/-- The session appends its event to the journal. -/
theorem Stored.appendEvent (h : world.Stored maxRounds past)
    (hemit : Emitting maxRounds world.nextEventId world.record.journal event state)
    (hfresh : event.inert = true ∨
      ∀ i ∈ past.stepIds ++ world.record.state.stepIds, event.eventId ≠ some i)
    (hstops : world.record.state.stopSteps ≠ [] →
      state.stopSteps = world.record.state.stopSteps) (stage : RunStage)
    (hready : ∀ journal state', UpToDate maxRounds world.nextEventId journal state' →
      (∀ point : RunPoint, point.Ready world.nextEventId state →
        point.Ready world.nextEventId state') →
      stage.Ready maxRounds world.nextEventId past journal world.record.state state') :
    Continues maxRounds past world (world.appendEvent state event stage) := by
  have hnext := RunRecord.nextSequence_eq h.journaled
  have hup := hemit.upToDate
  have hjournaled := hemit.journaled h.journaled
  obtain ⟨cursor, hsnapshot⟩ := h.stored
  rw [← hnext] at hup hjournaled
  have hsnapshot' : Snapshot maxRounds world.nextEventId
      (world.record.journal ++ [{ event with sequence := some world.record.nextSequence }]) cursor
      world.record.state := by
    refine hsnapshot.append (fun i hi heq => ?_) fun reason hreason => ?_
    · exact hfresh.resolve_right fun hfresh => hfresh i (List.mem_append_right _ hi) heq
    · -- the reason is that of the session's STOP step, which the snapshot may have
      refine or_iff_not_imp_left.mpr fun hne => ?_
      rw [← hstops hne]
      exact hemit.stop reason hreason
  have hsince : past.Since world.nextEventId
      (world.record.journal ++ [{ event with sequence := some world.record.nextSequence }]) :=
    h.since.append fun i hi heq =>
      hfresh.resolve_right fun hfresh => hfresh i (List.mem_append_left _ hi) heq
  refine ⟨⟨⟨hjournaled, hsince, cursor, hsnapshot'⟩, ?_, ?_⟩, fun _ => rfl⟩
  · intro other stage' hs
    obtain ⟨rfl, rfl⟩ := RunSession.mk.inj (Option.some.inj hs)
    exact hready _ _ hup fun point hpoint =>
      hpoint.congr (le_refl _) rfl rfl rfl rfl rfl rfl rfl
  · intro other stage' hs hne
    obtain ⟨rfl, rfl⟩ := RunSession.mk.inj (Option.some.inj hs)
    exact hstops hne

/-- A session goes on, and nothing is written. -/
theorem Stored.goOn (h : world.Stored maxRounds past) (stage : RunStage)
    (hready : stage.Ready maxRounds world.nextEventId past world.record.journal world.record.state state)
    (hstops : world.record.state.stopSteps ≠ [] →
      state.stopSteps = world.record.state.stopSteps) :
    Continues maxRounds past world { world with session := some ⟨state, stage⟩ } := by
  refine h.session rfl rfl (le_refl _) fun other stage' hs => ?_
  obtain ⟨rfl, rfl⟩ := RunSession.mk.inj (Option.some.inj hs)
  exact ⟨hready, hstops⟩

/-- The session ends. -/
theorem Stored.endSession (h : world.Stored maxRounds past) :
    Continues maxRounds past world { world with session := none } :=
  h.session rfl rfl (le_refl _) fun _ _ hs => absurd hs (by simp)

/-- The session saves its state. -/
theorem Stored.save (h : world.Stored maxRounds past)
    (hup : UpToDate maxRounds world.nextEventId world.record.journal state)
    (hstops : world.record.state.stopSteps ≠ [] →
      state.stopSteps = world.record.state.stopSteps) (session : Option RunSession)
    (hsession : ∀ state' stage, session = some ⟨state', stage⟩ →
      stage.Ready maxRounds world.nextEventId past world.record.journal state state' ∧
      state'.stopSteps = state.stopSteps) :
    Continues maxRounds past world { world.saveSnapshot state with session } := by
  obtain ⟨cursor, hsnapshot, -⟩ := hup
  refine ⟨⟨⟨h.journaled, h.since, cursor, hsnapshot⟩, fun other stage hs => ?_,
    fun other stage hs _ => ?_⟩, hstops⟩
  · exact (hsession other stage hs).1
  · exact (hsession other stage hs).2

/-- An event is traced and appended by a state that has all of the journal. -/
theorem Stored.appendTraced (h : world.Stored maxRounds past)
    (hup : UpToDate maxRounds world.nextEventId world.record.journal state)
    (hsequence : event.sequence = none)
    (hinert : (state.tracedEvent world.nextEventId event).inert = true)
    (hrestorable : (state.tracedEvent world.nextEventId event).Restorable maxRounds)
    (hstops : world.record.state.stopSteps ≠ [] →
      state.stopSteps = world.record.state.stopSteps) (stage : RunStage)
    (hstage : stage = .pausing ∨ stage = .saving) :
    Continues maxRounds past world ({ world with nextEventId := world.nextEventId + 1 }.appendEvent
      (state.addTrace world.nextEventId event) (state.tracedEvent world.nextEventId event) stage) := by
  obtain ⟨cursor, hsnapshot⟩ := h.stored
  obtain ⟨-, hsame, -⟩ := AgentRunState.steps_addTrace state world.nextEventId event
  have hnext : ({ world with nextEventId := world.nextEventId + 1 } : RunWorld).Stored maxRounds past :=
    ⟨h.journaled.mono (Nat.le_succ _), h.since.mono (Nat.le_succ _), cursor,
      hsnapshot.mono (Nat.le_succ _)⟩
  obtain ⟨hreplays, hstopped⟩ := hnext.appendEvent
    (hup.emit h.journaled hsequence hinert hrestorable) (Or.inl hinert)
    (fun hne => hsame.trans (hstops hne)) stage fun journal state' hup' _ => by
      rcases hstage with rfl | rfl <;> exact hup'
  exact ⟨hreplays, hstopped⟩

/-- A stored event: the session goes on after it, unless the run was canceled. -/
theorem Replays.storeEvent (h : world.Replays maxRounds past)
    (hsession : world.session = some ⟨state, .emit event point⟩) :
    Continues maxRounds past world (world.storeEvent state event point) := by
  obtain ⟨hemit, hready, hcheckpoint, hfresh⟩ := h.ready state _ hsession
  have hstops := h.stops state _ hsession
  rw [RunWorld.storeEvent]
  split
  · next hcanceled => exact h.toStored.goOn (.closing false) (Or.inl hcanceled) hstops
  · refine h.toStored.appendEvent hemit hfresh hstops _ fun journal state' hup hpoint => ?_
    split
    · exact ⟨hup, hpoint point hready⟩
    · exact ⟨hup, hpoint point hready, hcheckpoint⟩

/-- A pause that was asked for is made at a checkpoint; else the request is carried along. -/
theorem Stored.pauseAtCheckpoint (h : world.Stored maxRounds past)
    (hup : UpToDate maxRounds world.nextEventId world.record.journal state)
    (hready : point.Ready world.nextEventId state)
    (hcheckpoint : event.eventType.checkpoint = true → point.working = true)
    (hstops : world.record.state.stopSteps ≠ [] →
      state.stopSteps = world.record.state.stopSteps) {next : AgentRunState → RunWorld}
    (hnext : ∀ request, Continues maxRounds past world
      (next { state with pauseRequest := request })) :
    Continues maxRounds past world (world.pauseAtCheckpoint state event next) := by
  rw [RunWorld.pauseAtCheckpoint]
  split
  · exact hnext state.pauseRequest
  · next request _ =>
    split
    · next htype =>
      have hworking := hready.toWorking (hcheckpoint htype)
      let paused : AgentRunState := { state with
        status := .paused, stopReason := none, pauseRequest := none
        pause := some {
          cause := .manual, checkpoint := event.eventType.value, resumable := true
          reason := some (request.reason.getD "pause") } }
      have hpaused : UpToDate maxRounds world.nextEventId world.record.journal paused :=
        hup.change { hup.kept with stopped := fun hne => absurd hworking.unstopped hne }
          rfl rfl rfl (fun _ => rfl) (Or.inl rfl)
      let pauseEvent : AgentTraceEvent := {
        eventType := .runPaused
        metadata := [("reason", .str "pause"),
          ("control_reason", .str (request.reason.getD "pause")),
          ("checkpoint", .str event.eventType.value)] }
      exact h.appendTraced hpaused (rfl : pauseEvent.sequence = none) rfl trivial hstops .pausing
        (Or.inl rfl)
    · exact hnext (some request)

theorem Replays.storeSnapshot (h : world.Replays maxRounds past)
    (hsession : world.session = some ⟨state, .appended event point⟩) :
    Continues maxRounds past world (world.storeSnapshot state event point) := by
  obtain ⟨hup, hready, hcheckpoint⟩ := h.ready state _ hsession
  have hstops := h.stops state _ hsession
  refine h.toStored.pauseAtCheckpoint hup hready hcheckpoint hstops fun request => ?_
  have hup' : UpToDate maxRounds world.nextEventId world.record.journal
      { state with pauseRequest := request } :=
    hup.change { hup.kept with } rfl rfl rfl (fun _ => rfl) (Or.inl rfl)
  refine h.toStored.save hup' hstops _ fun other stage hs => ?_
  obtain ⟨rfl, rfl⟩ := RunSession.mk.inj (Option.some.inj hs)
  exact ⟨⟨hup', hready.congr (le_refl _) rfl rfl rfl rfl rfl rfl rfl, hcheckpoint⟩, rfl⟩

theorem Replays.handOn (h : world.Replays maxRounds past)
    (hsession : world.session = some ⟨state, .handing event point⟩) :
    Continues maxRounds past world (world.handOn state event point) := by
  obtain ⟨hup, hready, hcheckpoint⟩ := h.ready state _ hsession
  have hstops := h.stops state _ hsession
  refine h.toStored.pauseAtCheckpoint hup hready hcheckpoint hstops fun request => ?_
  refine h.toStored.goOn (.at point) ⟨?_, ?_⟩ hstops
  · exact hup.change { hup.kept with } rfl rfl rfl (fun _ => rfl) (Or.inl rfl)
  · exact hready.congr (le_refl _) rfl rfl rfl rfl rfl rfl rfl

theorem Replays.saveRaised {e : Error} (h : world.Replays maxRounds past)
    (hsession : world.session = some ⟨state, .raised point e⟩) :
    Continues maxRounds past world (world.saveRaised state point e) := by
  have hup : UpToDate maxRounds world.nextEventId world.record.journal state :=
    h.ready state _ hsession
  have hstops := h.stops state _ hsession
  rw [RunWorld.saveRaised]
  split
  · next hcanceled =>
    refine h.toStored.goOn (.marking point e) ⟨hup, fun hrunning => ?_⟩ hstops
    exact absurd (hcanceled.symm.trans hrunning) (by simp)
  · refine h.toStored.save hup hstops _ fun other stage hs => ?_
    obtain ⟨rfl, rfl⟩ := RunSession.mk.inj (Option.some.inj hs)
    exact ⟨⟨hup, fun _ => hup⟩, rfl⟩

/-- The stored snapshot as it is loaded: the text journaled after it is in its trace. -/
theorem loadedState_eq (world : RunWorld) : ∃ trace,
    world.loadedState = { world.record.state with trace } ∧
      ∀ e ∈ trace, e ∈ world.record.state.trace ∨ e ∈ world.record.journal := by
  rw [loadedState]
  dsimp only
  split
  · exact ⟨world.record.state.trace, rfl, fun e he => Or.inl he⟩
  · refine ⟨_, rfl, fun e he => (List.mem_append.mp he).imp_right fun he => ?_⟩
    exact List.mem_of_mem_filter ((List.takeWhile_sublist _).subset he)

/-- A snapshot with other events of the journal in its trace. -/
theorem kept_withTrace {nextEventId : Nat} {journal trace : List AgentTraceEvent}
    (hkept : state.Kept maxRounds nextEventId journal)
    (htrace : ∀ e ∈ trace, e ∈ state.trace ∨ e ∈ journal) :
    ({ state with trace } : AgentRunState).Kept maxRounds nextEventId journal :=
  { hkept with
    traced := fun e he n hn => by
      rcases htrace e he with he | he
      · exact hkept.traced e he n hn
      · exact ⟨e, he, hn, rfl⟩ }

theorem upToDate_loadedState
    (h : UpToDate maxRounds world.nextEventId world.record.journal world.record.state) :
    UpToDate maxRounds world.nextEventId world.record.journal world.loadedState := by
  obtain ⟨trace, heq, htrace⟩ := world.loadedState_eq
  rw [heq]
  exact h.change (kept_withTrace h.kept htrace) rfl rfl rfl (fun _ => rfl) (Or.inl rfl)

@[simp] theorem stopSteps_loadedState :
    world.loadedState.stopSteps = world.record.state.stopSteps := by
  obtain ⟨trace, heq, -⟩ := world.loadedState_eq
  rw [heq]
  rfl

theorem Replays.markFailed {e : Error} (h : world.Replays maxRounds past)
    (hsession : world.session = some ⟨state, .marking point e⟩) :
    Continues maxRounds past world (world.markFailed state e) := by
  obtain ⟨hup, hstored⟩ := h.ready state _ hsession
  have hstops := h.stops state _ hsession
  rw [RunWorld.markFailed]
  dsimp only
  split
  · exact h.toStored.goOn (.closing false) (Or.inr hup) hstops
  · next hrunning =>
    have hloaded := upToDate_loadedState (hstored (by simpa using hrunning))
    let failed : AgentRunState := { world.loadedState with
      status := .failed, stopReason := none, pendingToolCalls := [], pendingApprovalRequests := []
      failure := some { errorType := e.errorType, message := e.message } }
    have hfailed : UpToDate maxRounds world.nextEventId world.record.journal failed :=
      hloaded.change { hloaded.kept with
        pending := Or.inl rfl, stopped := fun _ hpaused => absurd hpaused (by simp [failed]) }
        rfl rfl rfl (fun _ => rfl) (Or.inl rfl)
    let event : AgentTraceEvent := {
      eventType := .runStopped, errorType := some e.errorType, errorMessage := some e.message
      metadata := [("reason", .str "failed")] }
    exact h.toStored.appendTraced hfailed (rfl : event.sequence = none) rfl ⟨_, rfl⟩
      (fun _ => stopSteps_loadedState) .saving (Or.inr rfl)

theorem Replays.closeStream {timedOut : Bool} (h : world.Replays maxRounds past)
    (hsession : world.session = some ⟨state, .closing timedOut⟩) :
    Continues maxRounds past world (world.closeStream state timedOut) := by
  have hclosing := h.ready state _ hsession
  have hstops := h.stops state _ hsession
  rw [RunWorld.closeStream]
  split
  · next hstatus =>
    have hnot : world.record.state.status ≠ .running := by
      rcases hstatus with hstatus | hstatus <;> simp [hstatus]
    rcases timedOut with _ | _
    · exact h.toStored.endSession
    · exact h.toStored.goOn .interrupted (fun hrunning => absurd hrunning hnot) hstops
  · next hstatus =>
    have hup := hclosing.resolve_left fun hcanceled => hstatus (Or.inl hcanceled)
    refine h.toStored.save hup hstops _ fun other stage hs => ?_
    rcases timedOut with _ | _
    · exact absurd hs (by simp)
    · obtain ⟨rfl, rfl⟩ := RunSession.mk.inj (Option.some.inj hs)
      exact ⟨fun _ => hup, rfl⟩

theorem Replays.markInterrupted (h : world.Replays maxRounds past)
    (hsession : world.session = some ⟨state, .interrupted⟩) :
    Continues maxRounds past world world.markInterrupted := by
  have hstored := h.ready state _ hsession
  rw [RunWorld.markInterrupted]
  split
  · exact h.toStored.endSession
  · next hrunning =>
    have hloaded := upToDate_loadedState (hstored (by simpa using hrunning))
    exact h.toStored.goOn (.reconciling _ _) hloaded fun _ => stopSteps_loadedState

/-- A run with its STOP step is not eligible. -/
theorem classifyCheckpoint_of_stopped (toolExecutions : Option (List ToolExecutionAttempt))
    (h : state.stopSteps ≠ []) : (classifyCheckpoint toolExecutions state).eligible = false := by
  have hany : state.steps.any
      (fun step => step.stepType = .stop || step.stepType = .memoryWrite) = true := by
    rw [Ne, AgentRunState.stopSteps_eq_nil] at h
    push Not at h
    obtain ⟨step, hstep, hstop⟩ := h
    exact List.any_eq_true.mpr ⟨step, hstep, by simp [hstop]⟩
  rw [classifyCheckpoint, if_pos hany]
  split <;> rfl

/-- An inspection restores the snapshot, and finds no stopped run eligible. -/
theorem inspect_snapshot {nextEventId cursor : Nat} {journal : List AgentTraceEvent}
    (hjournaled : Journaled maxRounds nextEventId journal)
    (hsnapshot : Snapshot maxRounds nextEventId journal cursor state)
    (toolExecutions : Option (List ToolExecutionAttempt)) :
    ∃ checkpoint restored,
      inspectAgentRunCheckpoint journal toolExecutions state = (checkpoint, restored) ∧
      UpToDate maxRounds nextEventId journal restored ∧
      (restored.stopSteps ≠ [] → checkpoint.eligible = false) ∧
      (state.stopSteps ≠ [] → restored.stopSteps = state.stopSteps) := by
  obtain ⟨restored, hrestore, hsnapshot', hstops, -⟩ :=
    hsnapshot.restore hjournaled (Nat.zero_le cursor)
  rw [List.drop_zero] at hrestore
  refine ⟨_, restored, by rw [inspectAgentRunCheckpoint, hrestore], ⟨_, hsnapshot', fun e he => ?_⟩,
    classifyCheckpoint_of_stopped toolExecutions, fun hne => ?_⟩
  · rw [List.drop_length] at he
    exact absurd he List.not_mem_nil
  · rw [hstops, if_neg hne]

/-- A restored snapshot paused at its checkpoint. -/
theorem upToDate_pausedAt {nextEventId : Nat} {journal : List AgentTraceEvent}
    (h : UpToDate maxRounds nextEventId journal state) (cause : AgentPauseCause)
    {checkpoint : AgentRunRecoveryCheckpoint}
    (heligible : state.stopSteps ≠ [] → checkpoint.eligible = false) :
    UpToDate maxRounds nextEventId journal (state.pausedAt cause checkpoint) :=
  h.change { h.kept with stopped := fun hne _ => heligible hne } rfl rfl rfl (fun _ => rfl)
    (Or.inl rfl)

theorem Replays.reconcile {attempts : Option (List ToolExecutionAttempt)}
    {todo : List ToolExecutionAttempt} (h : world.Replays maxRounds past)
    (hsession : world.session = some ⟨state, .reconciling attempts todo⟩) :
    Continues maxRounds past world (world.reconcile state attempts todo) := by
  have hup : UpToDate maxRounds world.nextEventId world.record.journal state :=
    h.ready state _ hsession
  have hstops := h.stops state _ hsession
  rcases todo with _ | ⟨attempt, todo⟩
  · obtain ⟨cursor, hsnapshot, -⟩ := hup
    obtain ⟨checkpoint, restored, hinspect, hup, heligible, hkeeps⟩ :=
      inspect_snapshot h.journaled hsnapshot (attempts.map reconciledAttempts)
    have hstops' : world.record.state.stopSteps ≠ [] →
        restored.stopSteps = world.record.state.stopSteps := by
      intro hne
      have hsame := hstops hne
      rw [hkeeps (by rwa [hsame]), hsame]
    rw [RunWorld.reconcile, hinspect]
    dsimp only
    split
    · exact h.toStored.goOn .saving hup hstops'
    · let event : AgentTraceEvent := {
        eventType := .runPaused
        metadata := [("reason", .str AgentPauseCause.timeout.source), ("interrupted", .bool true),
          ("checkpoint", .str checkpoint.name),
          ("recovery_eligible", .bool checkpoint.eligible)] }
      exact h.toStored.appendTraced (upToDate_pausedAt hup .timeout heligible)
        (rfl : event.sequence = none) rfl trivial hstops' .saving (Or.inr rfl)
  · rw [RunWorld.reconcile]
    split
    · have hput : (world.putAttempt { attempt with status := .unknown }).Stored maxRounds past :=
        ⟨h.journaled, h.since, h.stored⟩
      obtain ⟨hreplays, hstopped⟩ := hput.goOn (.reconciling attempts todo) hup hstops
      exact ⟨hreplays, hstopped⟩
    · exact h.toStored.goOn (.reconciling attempts todo) hup hstops

/-! ### What is done to the stored run -/

/-- The stored snapshot is replaced, and the journal left alone. -/
theorem Replays.putState (h : world.Replays maxRounds past) {c : Nat}
    (hsnapshot : Snapshot maxRounds world.nextEventId world.record.journal c state)
    (hids : ∀ i ∈ state.stepIds, i ∈ world.record.state.stepIds)
    (hrunning : state.status = .running → world.record.state.status = .running ∧
      (UpToDate maxRounds world.nextEventId world.record.journal world.record.state →
        UpToDate maxRounds world.nextEventId world.record.journal state))
    (hcanceled : world.record.state.status = .canceled → state.status = .canceled)
    (hstops : state.stopSteps = world.record.state.stopSteps) :
    Continues maxRounds past world (world.saveSnapshot state) := by
  refine ⟨⟨⟨h.journaled, h.since, c, hsnapshot⟩, fun other stage hs => ?_,
    fun other stage hs hne => ?_⟩, fun _ => hstops⟩
  · exact (h.ready other stage hs).restored (fun i hi => Or.inl (hids i hi)) hrunning hcanceled
  · have hne' : world.record.state.stopSteps ≠ [] := fun hnil => hne (hstops.trans hnil)
    exact (h.stops other stage hs hne').trans hstops.symm

theorem Replays.pause (h : world.Replays maxRounds past) (reason : Option String) :
    Continues maxRounds past world (world.saveSnapshot { world.loadedState with
      pauseRequest := some { reason := some (textOr reason "pause") } }) := by
  obtain ⟨cursor, hsnapshot⟩ := h.stored
  obtain ⟨trace, heq, htrace⟩ := world.loadedState_eq
  rw [heq]
  have hkept := kept_withTrace hsnapshot.toKept htrace
  refine h.putState
    { hsnapshot with traced := hkept.traced, agrees := { hsnapshot.agrees with } }
    (fun i hi => hi) (fun hrunning => ⟨hrunning, fun hup => ?_⟩) (fun hcanceled => hcanceled) rfl
  have hkept' := kept_withTrace hup.kept htrace
  exact hup.change { hkept' with } rfl rfl rfl (fun _ => rfl) (Or.inl rfl)

/-- The rows without their lease, or with the attempts marked, are the same run. -/
theorem Replays.congr (h : world.Replays maxRounds past)
    (hjournal : world'.record.journal = world.record.journal)
    (hstate : world'.record.state = world.record.state)
    (hid : world'.nextEventId = world.nextEventId) (hsession : world'.session = world.session) :
    Continues maxRounds past world world' := by
  refine h.toStored.session hjournal hstate hid.ge fun state stage hs => ?_
  rw [hsession] at hs
  rw [hid]
  exact ⟨h.ready state stage hs, h.stops state stage hs⟩

/-- The snapshot with an event appended by another than its session. -/
theorem Replays.appendStored (h : world.Replays maxRounds past)
    (hup : UpToDate maxRounds world.nextEventId world.record.journal state)
    (hsequence : event.sequence = none) (hstep : event.stepType = none)
    (hinert : (state.tracedEvent world.nextEventId event).inert = true)
    (hrestorable : (state.tracedEvent world.nextEventId event).Restorable maxRounds)
    (hstatus : state.status ≠ .running)
    (hcanceled : world.record.state.status = .canceled → state.status = .canceled)
    (hsteps : state.steps = world.record.state.steps)
    (hjournal : world'.record.journal = (world.record.appendEvent
      (state.tracedEvent world.nextEventId event)).journal)
    (hstate : world'.record.state = (state.addTrace world.nextEventId event).applySequence
      (state.tracedEvent world.nextEventId event) world.record.nextSequence)
    (hid : world'.nextEventId = world.nextEventId + 1) (hsession : world'.session = world.session) :
    Continues maxRounds past world world' := by
  have hemit := hup.emit h.journaled hsequence hinert hrestorable
  have hjournaled := hemit.journaled (h.journaled.mono (Nat.le_succ _))
  obtain ⟨cursor, hsnapshot, -⟩ := hemit.upToDate
  rw [← RunRecord.nextSequence_eq h.journaled] at hjournaled hsnapshot
  have hsame : (state.addTrace world.nextEventId event).steps = world.record.state.steps := by
    rw [← hsteps, AgentRunState.addTrace]
    dsimp only
    rw [AgentRunState.tagLastStep]
    split
    · exact if_neg fun htag => by simp [AgentRunState.tracedEvent, hstep] at htag
    · rfl
  have hstops : world'.record.state.stopSteps = world.record.state.stopSteps := by
    rw [hstate, AgentRunState.stopSteps, AgentRunState.stopSteps, ← hsame]
    rfl
  have hstatus' : world'.record.state.status = state.status := by rw [hstate]; rfl
  refine ⟨⟨⟨?_, ?_, cursor, ?_⟩, fun other stage hs => ?_, fun other stage hs hne => ?_⟩,
    fun _ => hstops⟩
  · rw [hjournal, hid]
    exact hjournaled
  · rw [hjournal, hid]
    exact (h.since.mono (Nat.le_succ _)).append fun _ _ _ => hinert
  · rw [hjournal, hstate, hid]
    exact hsnapshot
  · rw [hsession] at hs
    rw [hjournal, hid]
    refine ((h.ready other stage hs).append ?_ ?_ (Nat.le_succ _)).restored ?_ ?_ ?_
    · exact hinert
    · exact fun i hi => (Option.some.inj hi).le
    · rw [hstate, AgentRunState.stepIds, AgentRunState.stepIds, ← hsame]
      exact fun i hi => Or.inl hi
    · exact fun hrunning => absurd (hstatus'.symm.trans hrunning) hstatus
    · exact fun h => hstatus'.trans (hcanceled h)
  · rw [hsession] at hs
    have hne' : world.record.state.stopSteps ≠ [] := fun hnil => hne (hstops.trans hnil)
    exact (h.stops other stage hs hne').trans hstops.symm

theorem Replays.cancel (h : world.Replays maxRounds past)
    (hup : UpToDate maxRounds world.nextEventId world.record.journal world.record.state)
    (reason : Option String) : Continues maxRounds past world (world.cancel reason) := by
  obtain ⟨trace, heq, htrace⟩ := world.loadedState_eq
  have hloaded := upToDate_loadedState hup
  let canceled : AgentRunState := { world.loadedState with
    status := .canceled, stopReason := none, pendingToolCalls := [], pendingApprovalRequests := []
    pause := none, cancelReason := some (textOr reason "canceled") }
  have hcanceled : UpToDate maxRounds world.nextEventId world.record.journal canceled :=
    hloaded.change { hloaded.kept with
      pending := Or.inl rfl, stopped := fun _ hpaused => absurd hpaused (by simp [canceled]) }
      rfl rfl rfl (fun _ => rfl) (Or.inl rfl)
  have hsteps : canceled.steps = world.record.state.steps := by
    simp only [canceled, heq]
  exact h.appendStored hcanceled (rfl : (canceledEvent reason).sequence = none) rfl rfl ⟨_, rfl⟩
    (by simp [canceled]) (fun _ => rfl) hsteps rfl rfl rfl rfl

theorem Replays.resolve (h : world.Replays maxRounds past)
    (hup : UpToDate maxRounds world.nextEventId world.record.journal world.record.state)
    (hunstopped : world.record.state.stopSteps = []) {toolCallId : String} {attempt : Nat}
    {resolution : ToolExecutionResolution} {result : Option Dict} {reason : Option String}
    {record : RunRecord} (hok : world.record.resolveToolExecution world.nextEventId toolCallId
      attempt resolution result reason = .ok record) :
    Continues maxRounds past world
      { world with record, nextEventId := world.nextEventId + 1 } := by
  obtain ⟨hpaused, ledger, execution, rfl⟩ := RunRecord.resolveToolExecution_record hok
  have hresolved : UpToDate maxRounds world.nextEventId world.record.journal
      (world.record.resolvedState (recoveryEligible ledger.listAttempts)) :=
    hup.change { hup.kept with stopped := fun hne => absurd hunstopped hne } rfl rfl rfl
      (fun _ => rfl) (Or.inl rfl)
  have hstatus : (world.record.resolvedState (recoveryEligible ledger.listAttempts)).status =
      .paused := hpaused
  have hsequence : (resolvedEvent execution resolution reason
    (recoveryEligible ledger.listAttempts)).sequence = none := rfl
  refine h.appendStored hresolved hsequence rfl rfl trivial (by simp [hstatus])
    (fun hcanceled => ?_) rfl rfl rfl rfl rfl
  exact absurd (hpaused.symm.trans hcanceled) (by simp)

/-- A restored run is paused. -/
theorem Replays.pauseRestored (h : world.Replays maxRounds past) (hidle : world.session = none)
    (hup : UpToDate maxRounds world.nextEventId world.record.journal state)
    {cause : AgentPauseCause} {source : String} {checkpoint : AgentRunRecoveryCheckpoint}
    (heligible : state.stopSteps ≠ [] → checkpoint.eligible = false)
    (hstops : world.record.state.stopSteps ≠ [] →
      state.stopSteps = world.record.state.stopSteps) {record : RunRecord}
    (hjournal : record.journal = (world.record.markStartedUnknown.pauseRestored cause source
      checkpoint state).journal)
    (hstate : record.state = (world.record.markStartedUnknown.pauseRestored cause source
      checkpoint state).state) :
    Continues maxRounds past world { world with record } := by
  rw [RunRecord.pauseRestored] at hjournal hstate
  have hnone : ∀ state' stage, ({ world with record } : RunWorld).session = some ⟨state', stage⟩ →
      False := fun state' stage hs => by
    have hs' : world.session = some ⟨state', stage⟩ := hs
    rw [hidle] at hs'
    exact absurd hs' (by simp)
  split at hjournal
  · next hrunning =>
    rw [if_pos hrunning] at hstate
    -- the pause event has no id, and says nothing
    let event := reconciledEvent cause source checkpoint
    let numbered : AgentTraceEvent := { event with sequence := some world.record.nextSequence }
    let later := world.record.journal ++ [numbered]
    let paused := state.pausedAt cause checkpoint
    let after := paused.withEvent event world.record.nextSequence
    have hnext := RunRecord.nextSequence_eq h.journaled
    have hlength : later.length = world.record.nextSequence := by
      rw [List.length_append, List.length_singleton, hnext]
    have hjournaled : Journaled maxRounds world.nextEventId later :=
      h.journaled.append (congrArg some hnext) trivial
        (fun i hi => absurd hi (by simp [numbered, event, reconciledEvent])) (Or.inl rfl)
    have hpaused : UpToDate maxRounds world.nextEventId later paused :=
      (upToDate_pausedAt hup cause heligible).append_inert rfl
    have hkept : after.Kept maxRounds world.nextEventId later := { hpaused.kept with
      traced := fun e he n hn => by
        rcases List.mem_append.mp he with he | he
        · exact hpaused.kept.traced e he n hn
        · exact ⟨e, List.mem_append_right _ he, hn, rfl⟩ }
    have hsnapshot : Snapshot maxRounds world.nextEventId later later.length after :=
      hpaused.advance hkept (by rw [hlength]; rfl) rfl rfl rfl rfl
    have hjournal' : record.journal = later := hjournal
    have hstate' : record.state = after := hstate
    have hsnapshot' : Snapshot maxRounds world.nextEventId record.journal later.length
        record.state := by
      rw [hjournal', hstate']
      exact hsnapshot
    refine ⟨⟨⟨?_, ?_, later.length, hsnapshot'⟩, fun _ _ hs => (hnone _ _ hs).elim,
      fun _ _ hs => (hnone _ _ hs).elim⟩, fun hne => ?_⟩
    · exact hjournal' ▸ hjournaled
    · exact hjournal' ▸ h.since.append fun _ _ _ => rfl
    · have hkeeps : record.state.stopSteps = state.stopSteps := by rw [hstate']; rfl
      exact hkeeps.trans (hstops hne)
  · next hrunning =>
    rw [if_neg hrunning] at hstate
    obtain ⟨cursor, hsnapshot, -⟩ := hup
    refine ⟨⟨⟨?_, ?_, cursor, ?_⟩, fun _ _ hs => (hnone _ _ hs).elim,
      fun _ _ hs => (hnone _ _ hs).elim⟩, fun hne => ?_⟩
    · exact hjournal ▸ h.journaled
    · exact hjournal ▸ h.since
    · exact hjournal ▸ hstate ▸ hsnapshot
    · have hkeeps : record.state.stopSteps = state.stopSteps := by rw [hstate]
      exact hkeeps.trans (hstops hne)

/-- A run that recovery or a shutdown takes. -/
theorem Replays.inspectAndPause (h : world.Replays maxRounds past) (hidle : world.session = none)
    (cause : AgentPauseCause) (source : String) {record : RunRecord}
    (hjournal : record.journal = (world.record.markStartedUnknown.pauseRestored cause source
      (world.record.inspectCheckpoint world.record.queriedState).1
      (world.record.inspectCheckpoint world.record.queriedState).2).journal)
    (hstate : record.state = (world.record.markStartedUnknown.pauseRestored cause source
      (world.record.inspectCheckpoint world.record.queriedState).1
      (world.record.inspectCheckpoint world.record.queriedState).2).state) :
    Continues maxRounds past world { world with record } := by
  obtain ⟨cursor, hsnapshot⟩ := h.stored
  have hqueried : Snapshot maxRounds world.nextEventId world.record.journal cursor
      world.record.queriedState := by
    rw [RunRecord.queriedState]
    split
    · exact hsnapshot
    · exact { hsnapshot with agrees := { hsnapshot.agrees with } }
  have hsame : world.record.queriedState.stopSteps = world.record.state.stopSteps := by
    rw [RunRecord.queriedState]
    split <;> rfl
  obtain ⟨checkpoint, restored, hinspect, hup, heligible, hkeeps⟩ :=
    inspect_snapshot h.journaled hqueried
      (world.record.ledger.map fun ledger => reconciledAttempts ledger.listAttempts)
  rw [RunRecord.inspectCheckpoint, hinspect] at hjournal hstate
  refine h.pauseRestored hidle hup heligible (fun hne => ?_) hjournal hstate
  rw [hkeeps (by rwa [hsame]), hsame]

theorem Replays.recover (h : world.Replays maxRounds past) (hidle : world.session = none)
    (now : Instant) (grace : Int) :
    Continues maxRounds past world { world with record := world.record.recover now grace } := by
  rw [RunRecord.recover]
  split
  · exact h.congr rfl rfl rfl rfl
  · dsimp only
    split
    · exact h.inspectAndPause hidle _ "startup_recovery" rfl rfl
    · exact h.inspectAndPause hidle _ "startup_recovery" rfl rfl

theorem Replays.shutdown (h : world.Replays maxRounds past) (hidle : world.session = none) :
    Continues maxRounds past world world.shutdown :=
  h.inspectAndPause hidle .shutdown "shutdown" rfl rfl

/-- A session begins with the stored snapshot. -/
theorem Replays.resume (h : world.Replays maxRounds past)
    (hup : UpToDate maxRounds world.nextEventId world.record.journal world.record.state)
    (approvals : List ToolApprovalDecision) :
    Continues maxRounds past world (world.endAt world.loadedState (.at (.resuming approvals))) :=
  h.toStored.goOn (.at (.resuming approvals)) ⟨upToDate_loadedState hup, trivial⟩
    fun _ => stopSteps_loadedState

/-! ### Runs -/

/-- A step of the execution. -/
theorem Replays.steps {runtime : AgentRuntime} {label : RunLabel} (h : world.Replays maxRounds past)
    (hresume : ∀ approvals, label = .resume approvals →
      UpToDate maxRounds world.nextEventId world.record.journal world.record.state)
    (hsteps : Steps runtime world label world') : Continues maxRounds past world world' := by
  cases hsteps with
  | lease owner expiresAt => exact h.congr rfl rfl rfl rfl
  | pause reason _ => exact h.pause reason
  | crash _ => exact h.toStored.endSession
  | recover now grace hidle _ => exact h.recover hidle now grace
  | resume approvals hidle => exact h.resume (hresume approvals rfl) approvals
  | raise e hsession _ =>
    exact (h.at hsession).session (.raised _ e) (h.at hsession).upToDate (Or.inl rfl)
  | interrupt timedOut hsession _ =>
    exact (h.at hsession).session (.closing timedOut) (Or.inr (h.at hsession).upToDate) (Or.inl rfl)
  | resumeAgentEvents hsession => exact (h.at hsession).resumeAgentEvents
  | runAgentEvents hsession => exact (h.at hsession).runAgentEvents
  | chatCompleted response hsession => exact (h.at hsession).chatCompleted response
  | chatDelta text hsession => exact (h.at hsession).chatDelta text
  | continueToolLoop hsession => exact (h.at hsession).continueToolLoop
  | handleNextCall hsession => exact (h.at hsession).handleNextCall
  | announceCall hsession => exact (h.at hsession).announceCall
  | executeToolCall hsession => exact (h.at hsession).executeToolCall
  | startAttempt hsession => exact (h.at hsession).startAttempt
  | invokeTool hsession => exact (h.at hsession).invokeTool
  | finishTool outcome hsession => exact (h.at hsession).finishTool outcome
  | toolErrorStop hsession =>
    exact (h.at hsession).finishLoop _ (h.at hsession).upToDate (h.at hsession).ready rfl
  | commitMessage hsession => exact (h.at hsession).commitMessage
  | committed hsession =>
    exact (h.at hsession).session (.at .memories)
      ⟨(h.at hsession).upToDate, (h.at hsession).ready⟩ (Or.inl rfl)
  | writeMemory metadata hsession => exact (h.at hsession).writeMemory metadata
  | stopRun hsession => exact (h.at hsession).stopRun
  | stopped hsession =>
    exact (h.at hsession).session (.closing false) (Or.inr (h.at hsession).upToDate) (Or.inl rfl)
  | storeEvent hsession => exact h.storeEvent hsession
  | storeSnapshot hsession => exact h.storeSnapshot hsession
  | handOn hsession => exact h.handOn hsession
  | disconnect timedOut hsession =>
    exact h.toStored.goOn (.closing timedOut) (Or.inr (h.ready _ _ hsession).1)
      (h.stops _ _ hsession)
  | savePaused hsession =>
    refine h.toStored.save (h.ready _ _ hsession) (h.stops _ _ hsession) _ fun _ stage hs => ?_
    obtain ⟨rfl, rfl⟩ := RunSession.mk.inj (Option.some.inj hs)
    exact ⟨Or.inr (h.ready _ _ hsession), rfl⟩
  | saveRaised hsession => exact h.saveRaised hsession
  | markFailed hsession => exact h.markFailed hsession
  | closeStream hsession => exact h.closeStream hsession
  | markInterrupted hsession => exact h.markInterrupted hsession
  | reconcile hsession => exact h.reconcile hsession
  | saveLast hsession =>
    exact h.toStored.save (h.ready _ _ hsession) (h.stops _ _ hsession) none
      fun _ _ hs => absurd hs (by simp)

/-- The events after a snapshot are those after its cursor. -/
theorem eventsAfter_drop {nextEventId k c : Nat} {journal : List AgentTraceEvent}
    (hjournaled : Journaled maxRounds nextEventId journal)
    (hsnapshot : Snapshot maxRounds nextEventId journal c state) (hk : k ≤ c) :
    state.eventsAfter (journal.drop k) = journal.drop c := by
  rw [AgentRunState.eventsAfter, hsnapshot.applied, Option.getD_some]
  exact hjournaled.filter_drop hk

theorem Replays.upToDate_of_current (h : world.Replays maxRounds past)
    (hcurrent : world.record.current = true) :
    UpToDate maxRounds world.nextEventId world.record.journal world.record.state := by
  obtain ⟨cursor, hsnapshot⟩ := h.stored
  have hafter := eventsAfter_drop h.journaled hsnapshot (Nat.zero_le cursor)
  rw [List.drop_zero] at hafter
  rw [RunRecord.current, hafter, List.all_eq_true] at hcurrent
  exact ⟨cursor, hsnapshot, hcurrent⟩

/-- **A step.** -/
theorem Replays.operate {runtime : AgentRuntime} {operation : RunOperation}
    (h : world.Replays maxRounds past) (hcurrent : world.LoadsCurrent operation)
    (hstep : operate runtime world operation = some world') : Continues maxRounds past world world' := by
  rcases operation with label | reason | _ | ⟨toolCallId, attempt, resolution, result, reason⟩
  · refine h.steps (fun approvals hlabel => ?_) (steps_of_step hstep)
    subst hlabel
    exact h.upToDate_of_current hcurrent
  · rw [RunWorld.operate] at hstep
    split at hstep
    · exact absurd hstep (by simp)
    · obtain rfl := Option.some.inj hstep
      exact h.cancel (h.upToDate_of_current hcurrent) reason
  · rw [RunWorld.operate] at hstep
    split at hstep
    · next hidle =>
      obtain rfl := Option.some.inj hstep
      exact h.shutdown hidle.1
    · exact absurd hstep (by simp)
  · rw [RunWorld.operate] at hstep
    split at hstep
    · next record hok =>
      obtain rfl := Option.some.inj hstep
      exact h.resolve (h.upToDate_of_current hcurrent.1) hcurrent.2 hok
    · exact absurd hstep (by simp)

theorem replays_started (runId : String) (now : Instant) (request : AgentRunRequest)
    (context : List Content) (ledger : Option Ledger) :
    (started runId now request context ledger).Replays request.maxToolRounds {} := by
  have hkept : (AgentRunState.newRunState runId now request).Kept request.maxToolRounds 0 [] :=
    { request_max := rfl, rounds_le := le_refl _, initial := fun _ => rfl, pending := Or.inl rfl
      stopped := fun hne => absurd rfl hne, traced := fun e he => absurd he List.not_mem_nil
      ids := fun i hi => absurd hi List.not_mem_nil }
  have hsnapshot : Snapshot request.maxToolRounds 0 [] 0
      (AgentRunState.newRunState runId now request) :=
    { hkept with
      cursor_le := le_refl _, applied := rfl
      agrees := ⟨rfl, rfl, fun _ => rfl⟩
      stop := fun reason h => absurd h (by simp [Replayed.ofJournal])
      later := fun reason h => absurd h (by simp [Replayed.ofJournal])
      unapplied := fun e he => absurd he List.not_mem_nil }
  have hsince : ({} : Moment).Since 0 [] :=
    ⟨fun i hi => absurd hi List.not_mem_nil, [], rfl, fun e he => absurd he List.not_mem_nil⟩
  refine ⟨⟨⟨trivial, ?_, ?_, List.Pairwise.nil⟩, hsince, 0, hsnapshot⟩, fun state stage hs => ?_,
    fun state stage hs hne => ?_⟩
  · exact fun e he => absurd he List.not_mem_nil
  · exact fun e he => absurd he List.not_mem_nil
  · obtain ⟨rfl, rfl⟩ := RunSession.mk.inj (Option.some.inj hs)
    exact ⟨⟨0, hsnapshot, fun e he => absurd he List.not_mem_nil⟩, ⟨rfl, rfl, rfl⟩, rfl⟩
  · obtain ⟨rfl, rfl⟩ := RunSession.mk.inj (Option.some.inj hs)
    rfl

/-- A run keeps the invariant, and the STOP step of every snapshot. -/
theorem Replays.run {runtime : AgentRuntime} {operations : List RunOperation}
    (h : world.Replays maxRounds past)
    (hrun : TransitionSystem.run (RunWorld.operate runtime) world operations = some world')
    (hcurrent : TransitionSystem.Along (RunWorld.operate runtime) LoadsCurrent world operations) :
    Continues maxRounds past world world' := by
  refine TransitionSystem.run_invariant_of_along (I := Continues maxRounds past world)
    (fun m operation m' hm hgood hstep => ?_) ⟨h, fun _ => rfl⟩ hrun hcurrent
  obtain ⟨hreplays, hstopped⟩ := hm.replays.operate hgood hstep
  refine ⟨hreplays, fun hne => ?_⟩
  have hsame := hm.stopped hne
  rw [hstopped (by rwa [hsame]), hsame]

/-- The moment a snapshot is taken. -/
def moment (world : RunWorld) : Moment where
  journal := world.record.journal
  stepIds := world.record.state.stepIds

theorem Replays.now (h : world.Replays maxRounds past) : world.Replays maxRounds world.moment := by
  obtain ⟨cursor, hsnapshot⟩ := h.stored
  have hsince : world.moment.Since world.nextEventId world.record.journal :=
    ⟨hsnapshot.ids, [], (List.append_nil _).symm, fun e he => absurd he List.not_mem_nil⟩
  refine { h with since := hsince, ready := fun state stage hs => ?_ }
  have hready := h.ready state stage hs
  rcases stage with _ | ⟨event, point⟩ | _ | _ | _ | _ | _ | _ | _ | _ | _
  case emit =>
    obtain ⟨hemit, hpoint, hcheckpoint, hfresh⟩ := hready
    refine ⟨hemit, hpoint, hcheckpoint, hfresh.imp_right fun hfresh i hi => ?_⟩
    have hi' : i ∈ world.record.state.stepIds := (List.mem_append.mp hi).elim id id
    exact hfresh i (List.mem_append_right _ hi')
  all_goals exact hready

/-- A snapshot stored earlier is one of the later journal too. -/
theorem Snapshot.later {c : Nat}
    (hsnapshot : Snapshot maxRounds world.nextEventId world.record.journal c world.record.state)
    (hcontinues : Continues maxRounds world.moment world world') :
    Snapshot maxRounds world'.nextEventId world'.record.journal c world.record.state := by
  obtain ⟨later, heq, hlater⟩ := hcontinues.replays.since.appended
  have hsub : ∀ e ∈ world.record.journal, e ∈ world'.record.journal := by
    rw [heq]
    exact fun e he => List.mem_append_left _ he
  have htake : world'.record.journal.take c = world.record.journal.take c := by
    rw [heq]
    exact List.take_append_of_le_length hsnapshot.cursor_le
  have hdrop : world'.record.journal.drop c = world.record.journal.drop c ++ later := by
    rw [heq]
    exact List.drop_append_of_le_length hsnapshot.cursor_le
  have hkept := hsnapshot.toKept.mono (le_refl _) hsub
  refine { hkept with
    ids := hcontinues.replays.since.ids, cursor_le := ?_, applied := hsnapshot.applied,
    agrees := htake ▸ hsnapshot.agrees
    stop := htake ▸ hsnapshot.stop, later := fun reason hreason => ?_
    unapplied := fun e he i hi hid => ?_ }
  · rw [heq]
    exact hsnapshot.cursor_le.trans (List.length_append ▸ Nat.le_add_right _ _)
  · refine or_iff_not_imp_left.mpr fun hne => ?_
    have hsame := hcontinues.stopped hne
    obtain ⟨cursor, hsnapshot'⟩ := hcontinues.replays.stored
    rw [← hsame]
    exact (hsnapshot'.later reason hreason).resolve_left (by rwa [hsame])
  · rw [hdrop] at he
    rcases List.mem_append.mp he with he | he
    · exact hsnapshot.unapplied e he i hi hid
    · exact hlater e he i hi hid

/-- A state that has applied the last event of the journal: the stored snapshot, or the state of a
session that is not about to append another event. -/
def Live (world : RunWorld) (live : AgentRunState) : Prop :=
  live.appliedTraceSequence = some world.record.journal.length ∧
    (world.record.state = live ∨
      ∃ stage : RunStage, world.session = some ⟨live, stage⟩ ∧ stage.settled = true)

theorem Replays.upToDate_of_live (h : world.Replays maxRounds past) (hlive : world.Live state) :
    UpToDate maxRounds world.nextEventId world.record.journal state := by
  obtain ⟨hcursor, rfl | ⟨stage, hsession, hsettled⟩⟩ := hlive
  · obtain ⟨cursor, hsnapshot⟩ := h.stored
    have hsame : cursor = world.record.journal.length :=
      Option.some.inj (hsnapshot.applied.symm.trans hcursor)
    refine ⟨cursor, hsnapshot, fun e he => ?_⟩
    rw [hsame, List.drop_length] at he
    exact absurd he List.not_mem_nil
  · have hready := h.ready state stage hsession
    rcases stage with _ | _ | _ | _ | _ | _ | _ | _ | _ | _ | _
    case emit | closing | interrupted => exact absurd hsettled (by simp [RunStage.settled])
    case pausing | raised | reconciling | saving => exact hready
    all_goals exact hready.1

end RunWorld

/-- A snapshot restored with the events after it, compared with a live state: the CHAT steps are the
same, the TOOL steps but for the ids of events, and the STOP step where the snapshot or an event
tells of it; the rounds are, while a call is to be handled. -/
structure AgentRunState.RestoredTo (snapshot : AgentRunState) (events : List AgentTraceEvent)
    (restored live : AgentRunState) : Prop where
  response : restored.response = live.response
  steps : restored.tracedSteps = live.tracedSteps
  completed : restored.currentRoundCompletedToolCallIds = live.currentRoundCompletedToolCallIds
  stop : restored.stopSteps =
    if snapshot.stopSteps = [] ∧ ∀ e ∈ snapshot.eventsAfter events, e.stopReason = none then []
    else live.stopSteps
  rounds : live.RoundOpen → restored.remainingToolRounds = live.remainingToolRounds

section Example

private def bareRuntime : AgentRuntime where
  tools := { tool? := fun _ => none }

/-- A run of one round, whose model streams. -/
private def streamingRun : RunWorld :=
  .started "r" 0 { contextId := "c", modelId := "m", metadata := [("stream", .bool true)] } [] none

private def chatAnswer (calls : List ToolCall) : ChatResponse where
  modelId := "m"
  message := { role := .assistant, toolCalls := some calls }

private def missingTool : ToolCall where
  toolCallId := "t"
  toolCall := [("name", .str "f")]

private def went (n : Nat) : List RunOperation := List.replicate n (.step .go)

/-- What the stored snapshot is restored to after these operations, and the session's state. -/
private def restoredAndLive (operations : List RunOperation) :
    Option (AgentRunState × AgentRunState) :=
  (TransitionSystem.run (RunWorld.operate bareRuntime) streamingRun operations).bind fun world =>
    world.session.map fun session =>
      ((restoreCheckpointData world.record.journal world.record.state).1, session.state)

private def beforeAnswer : List RunOperation := went 4

private def answered : List RunOperation := [.step (.respond (chatAnswer [missingTool]))] ++ went 1

private def runBefore : RunWorld :=
  TransitionSystem.reached (RunWorld.operate bareRuntime) streamingRun beforeAnswer (by decide)

private def runAfter : RunWorld :=
  TransitionSystem.reached (RunWorld.operate bareRuntime) streamingRun (beforeAnswer ++ answered)
    (by decide)

private theorem runAfter_live : ∃ live, runAfter.Live live ∧
    live.response = some (chatAnswer [missingTool]) ∧ live.tracedSteps.length = 1 := by
  exact ⟨(runAfter.session.map (·.state)).getD runAfter.record.state,
    ⟨by decide, Or.inr ⟨_, rfl, rfl⟩⟩, by decide, by decide⟩

end Example

end EvernightAI
