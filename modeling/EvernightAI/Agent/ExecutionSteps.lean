import EvernightAI.Agent.Execution

/-!
# The steps of an execution

`RunWorld.step` as a relation: one constructor a step, with what the step does to the run. Invariants
are proved by cases on it.
-/

namespace EvernightAI

namespace RunWorld

/-- **What a step can do.** -/
inductive Steps (runtime : AgentRuntime) (world : RunWorld) : RunLabel → RunWorld → Prop
  | lease (owner : Option String) (expiresAt : Option Instant) :
    Steps runtime world (.lease owner expiresAt) { world with
      record := { world.record with leaseOwner := owner, leaseExpiresAt := expiresAt } }
  | pause (reason : Option String) (hrunning : world.record.state.status = .running) :
    Steps runtime world (.pause reason) (world.saveSnapshot { world.loadedState with
      pauseRequest := some { reason := some (textOr reason "pause") } })
  | crash {session : RunSession} (hsession : world.session = some session) :
    Steps runtime world .crash { world with session := none }
  | recover (now : Instant) (grace : Int) (hsession : world.session = none)
      (hrunning : world.record.state.status = .running) :
    Steps runtime world (.recover now grace)
      { world with record := world.record.recover now grace }
  | resume (approvals : List ToolApprovalDecision) (hsession : world.session = none) :
    Steps runtime world (.resume approvals)
      (world.endAt world.loadedState (.at (.resuming approvals)))
  | raise {state : AgentRunState} {point : RunPoint} (e : Error)
      (hsession : world.session = some ⟨state, .at point⟩) (hpoint : point.mayRaise = true) :
    Steps runtime world (.raise e) (world.raiseAt state point e)
  | interrupt {state : AgentRunState} {point : RunPoint} (timedOut : Bool)
      (hsession : world.session = some ⟨state, .at point⟩) (hpoint : point.awaits = true) :
    Steps runtime world (.interrupt timedOut) (world.endAt state (.closing timedOut))
  | resumeAgentEvents {state : AgentRunState} {approvals : List ToolApprovalDecision}
      (hsession : world.session = some ⟨state, .at (.resuming approvals)⟩) :
    Steps runtime world .go (world.resumeAgentEvents state approvals)
  | runAgentEvents {state : AgentRunState}
      (hsession : world.session = some ⟨state, .at .openContext⟩) :
    Steps runtime world .go (world.runAgentEvents state)
  | chatCompleted {state : AgentRunState} {afterRound : Bool} (response : ChatResponse)
      (hsession : world.session = some ⟨state, .at (.model afterRound)⟩) :
    Steps runtime world (.respond response) (world.chatCompleted state afterRound response)
  | chatDelta {state : AgentRunState} {afterRound : Bool} (text : String)
      (hsession : world.session = some ⟨state, .at (.model afterRound)⟩) :
    Steps runtime world (.delta text) (world.chatDelta state afterRound text)
  | continueToolLoop {state : AgentRunState} {calls : List ToolCall} {remaining : Nat}
      {requested : List String}
      (hsession : world.session = some ⟨state, .at (.toolLoop calls remaining requested)⟩) :
    Steps runtime world .go (world.continueToolLoop state calls remaining requested)
  | handleNextCall {state : AgentRunState} {calls : List ToolCall} {requested : List String}
      (hsession : world.session = some ⟨state, .at (.nextCall calls requested)⟩) :
    Steps runtime world .go (world.handleNextCall runtime state calls requested)
  | announceCall {state : AgentRunState} {events : List AgentTraceEvent} {site : CallSite}
      {decision : Option ToolSafetyDecision}
      (hsession : world.session = some ⟨state, .at (.announce events site decision)⟩) :
    Steps runtime world .go (world.announceCall state events site decision)
  | executeToolCall {state : AgentRunState} {site : CallSite} {decision : Option ToolSafetyDecision}
      (hsession : world.session = some ⟨state, .at (.execute site decision)⟩) :
    Steps runtime world .go (world.executeToolCall runtime state site decision)
  | startAttempt {state : AgentRunState} {attempt : ToolExecutionAttempt} {site : CallSite}
      (hsession : world.session = some ⟨state, .at (.start attempt site)⟩) :
    Steps runtime world .go (world.startAttempt state attempt site)
  | invokeTool {state : AgentRunState} {attempt : Option ToolExecutionAttempt} {site : CallSite}
      (hsession : world.session = some ⟨state, .at (.invoke attempt site)⟩) :
    Steps runtime world .go (world.invokeTool runtime state attempt site)
  | finishTool {state : AgentRunState} {attempt : Option ToolExecutionAttempt} {site : CallSite}
      (outcome : Except Error Dict)
      (hsession : world.session = some ⟨state, .at (.invoked attempt site)⟩) :
    Steps runtime world (.finish outcome) (world.finishTool runtime state attempt site outcome)
  | toolErrorStop {state : AgentRunState}
      (hsession : world.session = some ⟨state, .at .toolErrorStop⟩) :
    Steps runtime world .go (world.finishLoop state .toolError)
  | commitMessage {state : AgentRunState} {message : Content} {messages : List Content}
      {indices : List Nat}
      (hsession : world.session = some ⟨state, .at (.commit (message :: messages) indices)⟩) :
    Steps runtime world .go (world.commitMessage state message messages indices)
  | committed {state : AgentRunState} {indices : List Nat}
      (hsession : world.session = some ⟨state, .at (.commit [] indices)⟩) :
    Steps runtime world .go (world.goto state .memories)
  | writeMemory {state : AgentRunState} (metadata : Dict)
      (hsession : world.session = some ⟨state, .at .memories⟩) :
    Steps runtime world (.remember metadata) (world.writeMemory state metadata)
  | stopRun {state : AgentRunState} (hsession : world.session = some ⟨state, .at .memories⟩) :
    Steps runtime world .go (world.stopRun state)
  | stopped {state : AgentRunState} (hsession : world.session = some ⟨state, .at .stopped⟩) :
    Steps runtime world .go (world.endAt state (.closing false))
  | storeEvent {state : AgentRunState} {event : AgentTraceEvent} {point : RunPoint}
      (hsession : world.session = some ⟨state, .emit event point⟩) :
    Steps runtime world .go (world.storeEvent state event point)
  | storeSnapshot {state : AgentRunState} {event : AgentTraceEvent} {point : RunPoint}
      (hsession : world.session = some ⟨state, .appended event point⟩) :
    Steps runtime world .go (world.storeSnapshot state event point)
  | handOn {state : AgentRunState} {event : AgentTraceEvent} {point : RunPoint}
      (hsession : world.session = some ⟨state, .handing event point⟩) :
    Steps runtime world .go (world.handOn state event point)
  | disconnect {state : AgentRunState} {event : AgentTraceEvent} {point : RunPoint}
      (timedOut : Bool) (hsession : world.session = some ⟨state, .handing event point⟩) :
    Steps runtime world (.interrupt timedOut) (world.endAt state (.closing timedOut))
  | savePaused {state : AgentRunState} (hsession : world.session = some ⟨state, .pausing⟩) :
    Steps runtime world .go ((world.saveSnapshot state).endAt state (.closing false))
  | saveRaised {state : AgentRunState} {point : RunPoint} {e : Error}
      (hsession : world.session = some ⟨state, .raised point e⟩) :
    Steps runtime world .go (world.saveRaised state point e)
  | markFailed {state : AgentRunState} {point : RunPoint} {e : Error}
      (hsession : world.session = some ⟨state, .marking point e⟩) :
    Steps runtime world .go (world.markFailed state e)
  | closeStream {state : AgentRunState} {timedOut : Bool}
      (hsession : world.session = some ⟨state, .closing timedOut⟩) :
    Steps runtime world .go (world.closeStream state timedOut)
  | markInterrupted {state : AgentRunState}
      (hsession : world.session = some ⟨state, .interrupted⟩) :
    Steps runtime world .go world.markInterrupted
  | reconcile {state : AgentRunState} {attempts : Option (List ToolExecutionAttempt)}
      {todo : List ToolExecutionAttempt}
      (hsession : world.session = some ⟨state, .reconciling attempts todo⟩) :
    Steps runtime world .go (world.reconcile state attempts todo)
  | saveLast {state : AgentRunState} (hsession : world.session = some ⟨state, .saving⟩) :
    Steps runtime world .go { world.saveSnapshot state with session := none }

variable {runtime : AgentRuntime} {world world' : RunWorld} {label : RunLabel}

private theorem steps_of_generatorStep {state : AgentRunState} {point : RunPoint}
    (hsession : world.session = some ⟨state, .at point⟩)
    (h : world.generatorStep runtime state point label = some world') :
    Steps runtime world label world' := by
  unfold generatorStep at h
  split at h
  case h_1 e =>
    split at h
    · next hpoint => cases h; exact .raise e hsession hpoint
    · cases h
  case h_2 timedOut =>
    split at h
    · next hpoint => cases h; exact .interrupt timedOut hsession hpoint
    · cases h
  case h_3 =>
    split at h <;> cases h
    · exact .resumeAgentEvents hsession
    · exact .runAgentEvents hsession
    · exact .continueToolLoop hsession
    · exact .handleNextCall hsession
    · exact .announceCall hsession
    · exact .executeToolCall hsession
    · exact .startAttempt hsession
    · exact .invokeTool hsession
    · exact .toolErrorStop hsession
    · exact .commitMessage hsession
    · exact .committed hsession
    · exact .stopRun hsession
    · exact .stopped hsession
  case h_4 response =>
    split at h <;> cases h
    exact .chatCompleted response hsession
  case h_5 text =>
    split at h
    · split at h
      · cases h; exact .chatDelta text hsession
      · cases h
    · cases h
  case h_6 outcome =>
    split at h <;> cases h
    exact .finishTool outcome hsession
  case h_7 metadata =>
    split at h <;> cases h
    exact .writeMemory metadata hsession
  case h_8 => cases h

private theorem steps_of_sessionStep {state : AgentRunState} {stage : RunStage}
    (hsession : world.session = some ⟨state, stage⟩)
    (h : world.sessionStep runtime state stage label = some world') :
    Steps runtime world label world' := by
  unfold sessionStep at h
  split at h
  case h_1 => exact steps_of_generatorStep hsession h
  all_goals cases h
  · exact .storeEvent hsession
  · exact .storeSnapshot hsession
  · exact .handOn hsession
  · exact .disconnect _ hsession
  · exact .savePaused hsession
  · exact .saveRaised hsession
  · exact .markFailed hsession
  · exact .closeStream hsession
  · exact .markInterrupted hsession
  · exact .reconcile hsession
  · exact .saveLast hsession

theorem steps_of_step (h : step runtime world label = some world') :
    Steps runtime world label world' := by
  have hsessionStep : (world.session.bind fun session =>
      world.sessionStep runtime session.state session.stage label) = some world' →
      Steps runtime world label world' := fun h => by
    obtain ⟨session, hsession, h⟩ := Option.bind_eq_some_iff.mp h
    exact steps_of_sessionStep hsession h
  unfold step at h
  split at h
  · cases h; exact .lease _ _
  · split at h
    · next hrunning => cases h; exact .pause _ hrunning
    · cases h
  · obtain ⟨session, hsession, rfl⟩ := Option.map_eq_some_iff.mp h
    exact .crash hsession
  · split at h
    · next hidle => cases h; exact .recover _ _ hidle.1 hidle.2
    · cases h
  · split at h
    · next hidle => cases h; exact .resume _ hidle
    · cases h
  · exact hsessionStep h

@[simp] theorem status_loadedState (world : RunWorld) :
    world.loadedState.status = world.record.state.status := by
  rw [loadedState]
  dsimp only
  split <;> rfl

end RunWorld

end EvernightAI
