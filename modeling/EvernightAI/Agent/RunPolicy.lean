import EvernightAI.Agent.JournalRun

/-!
# Policies of a run

A *policy* says what the snapshots of a run are like, what the generator may rely on where it stands,
and what holds of every call that reaches an executor. It is closed under the steps that decide
something for it: a call is prepared, a tool's step is recorded, a round ends, decisions are merged.
What remains is carried through here once: pauses, interruptions, failures, crashes, cancellations
and resolutions of an operator.

* `AgentRunState.Alike`: the snapshots that no policy tells apart.
* `RunDuty`, `RunStage.duties`: what the generator relies on at a stage.
* `RunPolicy` with what it is closed under, `RunWorld.Follows` for a run that keeps to it.
* `RunWorld.Upheld` is left to each policy: the response of a model, the event that is stored, the
  snapshot that is restored. `RunWorld.Follows.operate` is the step lemma of every policy.
-/

namespace EvernightAI

/-! ### Snapshots alike -/

namespace AgentRunState

/-- The two have the same rounds, the same decisions and the same response. -/
structure Alike (state state' : AgentRunState) : Prop where
  steps : state'.tracedSteps = state.tracedSteps
  remaining : state'.remainingToolRounds = state.remainingToolRounds
  approvals : state'.request.toolApprovals = state.request.toolApprovals
  response : state'.response = state.response

variable {state state' state'' : AgentRunState}

theorem Alike.trans (h : state.Alike state') (h' : state'.Alike state'') : state.Alike state'' where
  steps := h'.steps.trans h.steps
  remaining := h'.remaining.trans h.remaining
  approvals := h'.approvals.trans h.approvals
  response := h'.response.trans h.response

/-- The round is read off the CHAT and TOOL steps. -/
theorem currentToolRound_eq (state : AgentRunState) :
    state.currentToolRound = state.tracedSteps.countP (·.stepType = .chat) := by
  rw [currentToolRound, tracedSteps, List.countP_map, List.countP_filter]
  refine List.countP_congr fun step _ => ?_
  by_cases hchat : step.stepType = .chat
  · simp [hchat, AgentStepType.traced]
  · simp [hchat]

theorem currentToolRound_congr (hsteps : state'.tracedSteps = state.tracedSteps) :
    state'.currentToolRound = state.currentToolRound := by
  rw [currentToolRound_eq, currentToolRound_eq, hsteps]

theorem alike_addTrace (state : AgentRunState) (eventId : Nat) (event : AgentTraceEvent) :
    state.Alike (state.addTrace eventId event) :=
  ⟨(state.steps_addTrace eventId event).1, rfl, rfl, rfl⟩

theorem alike_addTraces (state : AgentRunState) (eventId : Nat) (events : List AgentTraceEvent) :
    state.Alike (RunWorld.addTraces state eventId events).1 := by
  induction events generalizing state eventId with
  | nil => exact ⟨rfl, rfl, rfl, rfl⟩
  | cons event events ih => exact (state.alike_addTrace eventId event).trans (ih _ _)

/-- A step that no event stands for. -/
theorem alike_addStep (state : AgentRunState) {step : AgentStep}
    (htraced : step.stepType.traced = false) : state.Alike (state.addStep step) := by
  have happend : (state.addStep step).steps = state.steps ++ [step] := rfl
  refine ⟨?_, rfl, rfl, rfl⟩
  rw [tracedSteps_append happend, htraced]
  exact List.append_nil _

theorem alike_loadedState (world : RunWorld) : world.record.state.Alike world.loadedState := by
  obtain ⟨trace, heq, -⟩ := world.loadedState_eq
  rw [heq]
  exact ⟨rfl, rfl, rfl, rfl⟩

theorem alike_queriedState (record : RunRecord) : record.state.Alike record.queriedState := by
  rw [RunRecord.queriedState]
  split
  · exact ⟨rfl, rfl, rfl, rfl⟩
  · exact ⟨rfl, rfl, rfl, rfl⟩

end AgentRunState

/-! ### What the generator relies on -/

/-- An event that is neither a response nor the outcome of a tool. -/
def AgentTraceEventType.plain : AgentTraceEventType → Bool
  | .chatCompleted | .toolCompleted | .toolFailed => false
  | _ => true

/-- What a policy may ask for where the generator stands. -/
inductive RunDuty
  /-- to ask the model after a tool round -/
  | answer
  /-- to enter the loop over the calls of a response -/
  | enter (remainingRounds : Nat)
  /-- to handle the next call -/
  | next
  /-- to bring a call to its executor, and back -/
  | call (site : CallSite)
  /-- to record an event -/
  | record (event : AgentTraceEvent)

def RunPoint.duties : RunPoint → List RunDuty
  | .model true => [.answer]
  | .toolLoop _ remainingRounds _ => [.enter remainingRounds]
  | .nextCall _ _ => [.next]
  | .announce events site _ => .call site :: events.map .record
  | .execute site _ | .start _ site | .invoke _ site | .invoked _ site => [.call site]
  | _ => []

def RunStage.duties : RunStage → List RunDuty
  | .at point | .appended _ point | .handing _ point => point.duties
  | .emit event point => .record event :: point.duties
  | _ => []

/-- **A policy**, with what it is closed under. -/
structure RunPolicy (runtime : AgentRuntime) where
  /-- of a snapshot, given the decisions supplied so far -/
  snapshot : List (Nat × ToolApprovalDecision) → AgentRunState → Prop
  duty : AgentRunState → RunDuty → Prop
  journal : List AgentTraceEvent → Prop
  /-- of a call that reached an executor in a round -/
  invoked : List (Nat × ToolApprovalDecision) → Nat → ToolCall → Prop
  snapshot_alike : ∀ {supplied} {state state' : AgentRunState}, snapshot supplied state →
    state.Alike state' → snapshot supplied state'
  duty_alike : ∀ {state state' : AgentRunState} {d : RunDuty}, duty state d →
    state.Alike state' → duty state' d
  snapshot_supply : ∀ {supplied state} more, snapshot supplied state →
    snapshot (supplied ++ more) state
  invoked_supply : ∀ {supplied toolRound call} more, invoked supplied toolRound call →
    invoked (supplied ++ more) toolRound call
  record_plain : ∀ {state} {event : AgentTraceEvent}, event.eventType.plain = true →
    duty state (.record event)
  journal_plain : ∀ {events} {event : AgentTraceEvent}, event.eventType.plain = true →
    journal events → journal (events ++ [event])
  /-- decisions that a run is resumed with -/
  merge : ∀ {supplied} {state : AgentRunState} {toolRound} (approvals : List ToolApprovalDecision),
    snapshot supplied state → state.currentToolRound ≤ toolRound →
    (state.response ≠ none ∨ 0 < toolRound) →
    snapshot (supplied ++ approvals.map fun approval => (toolRound, approval.forRound toolRound))
      { state with
        request := { state.request with
          toolApprovals := mergeToolApprovals state.request.toolApprovals approvals toolRound } }
  /-- the loop over the calls is entered again with the rounds that are left -/
  reenter : ∀ {supplied} {state : AgentRunState}, snapshot supplied state →
    duty state (.enter state.remainingToolRounds)
  enter : ∀ {supplied} {state : AgentRunState} {remainingRounds}, snapshot supplied state →
    duty state (.enter remainingRounds) →
    snapshot supplied { state with remainingToolRounds := remainingRounds }
  next : ∀ {state : AgentRunState}, 0 < state.remainingToolRounds → duty state .next
  prepare : ∀ {state : AgentRunState} (raw : ToolCall) (rest : List ToolCall)
    (requested : List String), duty state .next →
    duty state (.call ⟨state.preparedCall raw, rest, requested⟩)
  /-- a round ends, in the loop or with the run interrupted -/
  endRound : ∀ {supplied} {state : AgentRunState}, snapshot supplied state →
    (duty state .next ∨ state.currentRoundCompletedToolCallIds ≠ []) →
    snapshot supplied { state with remainingToolRounds := state.remainingToolRounds - 1 } ∧
      duty { state with remainingToolRounds := state.remainingToolRounds - 1 } .answer
  invoke : ∀ {supplied} {state : AgentRunState} {site : CallSite}
    (attempt : Option ToolExecutionAttempt), snapshot supplied state → duty state (.call site) →
    runtime.tools.refuse? (site.persistedCall attempt) = none →
    invoked supplied state.currentToolRound site.call
  /-- the step of a tool -/
  finish : ∀ {supplied} {state : AgentRunState} {site : CallSite} {step : AgentStep},
    snapshot supplied state → duty state (.call site) → step.stepType ≠ .chat →
    snapshot supplied (state.addStep step) ∧ duty (state.addStep step) .next ∧
      ∀ event : AgentTraceEvent, event.eventType ≠ .chatCompleted →
        duty (state.addStep step) (.record event)

/-- The state may stand at the stage. -/
structure RunPolicy.Allows {runtime : AgentRuntime} (policy : RunPolicy runtime)
    (supplied : List (Nat × ToolApprovalDecision)) (state : AgentRunState) (stage : RunStage) :
    Prop where
  snapshot : policy.snapshot supplied state
  duties : ∀ d ∈ stage.duties, policy.duty state d

namespace RunWorld

/-- **The run keeps to the policy**: its journal, the stored snapshot, the session's state where it
stands, and the calls that reached an executor. -/
structure Follows {runtime : AgentRuntime} (policy : RunPolicy runtime) (world : RunWorld) :
    Prop where
  journal : policy.journal world.record.journal
  stored : policy.snapshot world.supplied world.record.state
  session : ∀ state stage, world.session = some ⟨state, stage⟩ →
    policy.Allows world.supplied state stage
  invoked : ∀ toolRound call, ToolInvocation.invoked toolRound call ∈ world.invocations →
    policy.invoked world.supplied toolRound call

variable {runtime : AgentRuntime} {policy : RunPolicy runtime} {world world' : RunWorld}
  {state state' : AgentRunState} {point : RunPoint} {stage : RunStage} {event : AgentTraceEvent}
  {site : CallSite}

theorem allows_alike {supplied : List (Nat × ToolApprovalDecision)}
    (h : policy.Allows supplied state stage) (halike : state.Alike state') :
    policy.Allows supplied state' stage where
  snapshot := policy.snapshot_alike h.snapshot halike
  duties := fun d hd => policy.duty_alike (h.duties d hd) halike

/-- Where the generator relies on nothing. -/
theorem allows_of_nil {supplied : List (Nat × ToolApprovalDecision)}
    (h : policy.snapshot supplied state) (hnil : stage.duties = []) :
    policy.Allows supplied state stage :=
  ⟨h, fun _ hduty => absurd (hnil ▸ hduty) List.not_mem_nil⟩

theorem allows_of_singleton {supplied : List (Nat × ToolApprovalDecision)} {duty : RunDuty}
    (h : policy.snapshot supplied state) (hduty : policy.duty state duty)
    (hduties : stage.duties = [duty]) : policy.Allows supplied state stage := by
  refine ⟨h, ?_⟩
  rw [hduties]
  exact List.forall_mem_singleton.mpr hduty

/-! ### The session goes on -/

section Functions

/-- A step that supplies nothing and hands no call to an executor. -/
theorem Follows.next (h : world.Follows policy) (hjournal : policy.journal world'.record.journal)
    (hstored : policy.snapshot world.supplied world'.record.state)
    (hsupplied : world'.supplied = world.supplied)
    (hinvocations : ∀ toolRound call, ToolInvocation.invoked toolRound call ∈ world'.invocations →
      ToolInvocation.invoked toolRound call ∈ world.invocations)
    (hsession : ∀ state stage, world'.session = some ⟨state, stage⟩ →
      policy.Allows world.supplied state stage) : world'.Follows policy where
  journal := hjournal
  stored := hsupplied ▸ hstored
  session := hsupplied ▸ hsession
  invoked := fun toolRound call hmem =>
    hsupplied ▸ h.invoked toolRound call (hinvocations toolRound call hmem)

/-- The rows of the run are replaced. -/
theorem Follows.putRecord (h : world.Follows policy) (nextEventId : Nat) {record : RunRecord}
    (hjournal : policy.journal record.journal)
    (hstored : policy.snapshot world.supplied record.state) :
    ({ world with nextEventId, record } : RunWorld).Follows policy :=
  h.next hjournal hstored rfl (fun _ _ hmem => hmem) h.session

theorem Follows.goOn (h : world.Follows policy) (nextEventId : Nat) (record : RunRecord)
    (hjournal : policy.journal record.journal)
    (hstored : policy.snapshot world.supplied record.state) (context : List Content)
    (appended : List Nat) (hallows : policy.Allows world.supplied state stage) :
    Follows policy { world with
      nextEventId, record, context, appended, session := some ⟨state, stage⟩ } := by
  refine h.next hjournal hstored rfl (fun _ _ hmem => hmem) fun other stage' hs => ?_
  obtain ⟨rfl, rfl⟩ := RunSession.mk.inj (Option.some.inj hs)
  exact hallows

theorem Follows.endAt (h : world.Follows policy) (hallows : policy.Allows world.supplied state stage) :
    (world.endAt state stage).Follows policy :=
  h.goOn _ _ h.journal h.stored _ _ hallows

theorem Follows.goto (h : world.Follows policy)
    (hallows : policy.Allows world.supplied state (.at point)) :
    (world.goto state point).Follows policy :=
  h.endAt hallows

theorem Follows.raiseAt (h : world.Follows policy) (hstate : policy.snapshot world.supplied state)
    (error : Error) : (world.raiseAt state point error).Follows policy :=
  h.endAt (allows_of_nil hstate rfl)

theorem Follows.endSession (h : world.Follows policy) :
    ({ world with session := none } : RunWorld).Follows policy :=
  h.next h.journal h.stored rfl (fun _ _ hmem => hmem) fun _ _ hs =>
    absurd hs (Option.some_ne_none _).symm

theorem Follows.saveSnapshot (h : world.Follows policy)
    (hstate : policy.snapshot world.supplied state) : (world.saveSnapshot state).Follows policy :=
  h.putRecord _ h.journal hstate

theorem Follows.putAttempt (h : world.Follows policy) (attempt : ToolExecutionAttempt) :
    (world.putAttempt attempt).Follows policy :=
  h.putRecord _ h.journal h.stored

theorem Follows.saveOutcome (h : world.Follows policy) (attempt : Option ToolExecutionAttempt)
    (outcome : Except Error ToolCallResult) : (world.saveOutcome attempt outcome).Follows policy ∧
      (world.saveOutcome attempt outcome).supplied = world.supplied := by
  cases attempt with
  | none => exact ⟨h, rfl⟩
  | some attempt =>
    cases outcome with
    | ok result => exact ⟨h.putAttempt _, rfl⟩
    | error e => exact ⟨h.putAttempt _, rfl⟩

/-- A yielded event, and the point after it. -/
theorem Follows.emit (h : world.Follows policy)
    (hrecord : policy.duty state (.record (state.tracedEvent world.nextEventId event)))
    (hallows : policy.Allows world.supplied state (.at point)) :
    (world.emit state event point).Follows policy := by
  have halike := state.alike_addTrace world.nextEventId event
  refine h.goOn _ _ h.journal h.stored _ _ (allows_alike ⟨hallows.snapshot, ?_⟩ halike)
  exact List.forall_mem_cons.mpr ⟨hrecord, hallows.duties⟩

/-! ### The generators -/

theorem Follows.finishLoop (h : world.Follows policy) (hstate : policy.snapshot world.supplied state)
    (stopReason : AgentStopReason) : (world.finishLoop state stopReason).Follows policy := by
  have halike : state.Alike (state.addStep {
      stepType := .stop, metadata := [("reason", .str stopReason.value)] }) := state.alike_addStep rfl
  refine h.goto (allows_of_nil (policy.snapshot_alike hstate (halike.trans ?_)) rfl)
  exact ⟨rfl, rfl, rfl, rfl⟩

/-- The step of a tool, and its event. -/
theorem Follows.emitTool (h : world.Follows policy) (hstate : policy.snapshot world.supplied state)
    (hcall : policy.duty state (.call site)) {step : AgentStep} (hstep : step.stepType ≠ .chat)
    (hevent : event.eventType ≠ .chatCompleted) (hpoint : point.duties ⊆ [.next]) :
    (world.emit (state.addStep step) event point).Follows policy := by
  obtain ⟨hadded, hnext, hrecord⟩ := policy.finish hstate hcall hstep
  refine h.emit (hrecord _ hevent) ⟨hadded, fun _ hduty => ?_⟩
  exact List.mem_singleton.mp (hpoint hduty) ▸ hnext

theorem Follows.toolCompleted (h : world.Follows policy)
    (hstate : policy.snapshot world.supplied state) (hcall : policy.duty state (.call site))
    (result : ToolCallResult) : (world.toolCompleted runtime state site result).Follows policy :=
  h.emitTool hstate hcall (by simp) (by simp) (List.Subset.refl _)

theorem Follows.toolFailed (h : world.Follows policy) (hstate : policy.snapshot world.supplied state)
    (hcall : policy.duty state (.call site)) (e : Error) :
    (world.toolFailed runtime state site e).Follows policy := by
  refine h.emitTool hstate hcall (by simp) (by simp) ?_
  split
  · exact List.Subset.refl _
  · exact List.nil_subset _

theorem Follows.continueToolLoop {remaining : Nat} (h : world.Follows policy)
    (hstate : policy.snapshot world.supplied state) (henter : policy.duty state (.enter remaining))
    (calls : List ToolCall) (requested : List String) :
    (world.continueToolLoop state calls remaining requested).Follows policy := by
  have hentered := policy.enter hstate henter
  rw [RunWorld.continueToolLoop]
  split
  · next hcalls =>
    refine h.goto (allows_of_singleton ?_ (policy.next hcalls.2) rfl)
    exact policy.snapshot_alike hentered ⟨rfl, rfl, rfl, rfl⟩
  · refine h.finishLoop ?_ _
    exact policy.snapshot_alike hentered ⟨rfl, rfl, rfl, rfl⟩

/-- The approval events of a call are plain. -/
theorem plain_toolApprovalEvents {call : ToolCall} {decision : Option ToolSafetyDecision}
    {requested : Bool} (h : event ∈ toolApprovalEvents call decision requested) :
    event.eventType.plain = true := by
  rcases decision with _ | decision
  · exact absurd h List.not_mem_nil
  rw [toolApprovalEvents] at h
  split at h
  · exact absurd h List.not_mem_nil
  rcases List.mem_append.mp h with h | h
  · split at h
    · exact List.mem_singleton.mp h ▸ rfl
    · exact absurd h List.not_mem_nil
  · split at h
    · exact List.mem_singleton.mp h ▸ rfl
    · exact absurd h List.not_mem_nil

theorem plain_addTraces {events : List AgentTraceEvent} (eventId : Nat)
    (hplain : ∀ e ∈ events, e.eventType.plain = true) :
    ∀ e ∈ (addTraces state eventId events).2, e.eventType.plain = true := by
  induction events generalizing state eventId with
  | nil => exact fun e he => absurd he List.not_mem_nil
  | cons event events ih =>
    obtain ⟨hevent, hevents⟩ := List.forall_mem_cons.mp hplain
    exact List.forall_mem_cons.mpr ⟨hevent, ih (eventId + 1) hevents⟩

theorem Follows.handleNextCall (h : world.Follows policy)
    (hstate : policy.snapshot world.supplied state) (hnext : policy.duty state .next)
    (calls : List ToolCall) (requested : List String) :
    (world.handleNextCall runtime state calls requested).Follows policy := by
  cases calls with
  | nil =>
    obtain ⟨hover, hanswer⟩ := policy.endRound hstate (Or.inl hnext)
    exact h.goto (allows_of_singleton hover hanswer rfl)
  | cons raw rest =>
    have halike := state.alike_addTraces world.nextEventId
      (toolApprovalEvents (state.preparedCall raw)
        (toolSafetyDecision runtime.tools (state.preparedCall raw))
        (!requested.contains (state.preparedCall raw).toolCallId))
    refine h.goOn _ _ h.journal h.stored _ _ ⟨policy.snapshot_alike hstate halike, ?_⟩
    refine List.forall_mem_cons.mpr ⟨policy.duty_alike (policy.prepare _ _ _ hnext) halike, ?_⟩
    refine List.forall_mem_map.mpr fun e he => policy.record_plain ?_
    exact plain_addTraces _ (fun _ => plain_toolApprovalEvents) e he

theorem Follows.announceCall {events : List AgentTraceEvent} {decision : Option ToolSafetyDecision}
    (h : world.Follows policy)
    (hallows : policy.Allows world.supplied state (.at (.announce events site decision))) :
    (world.announceCall state events site decision).Follows policy := by
  obtain ⟨hcall, hevents⟩ := List.forall_mem_cons.mp hallows.duties
  have hstart : (world.emit state {
      eventType := .toolStarted, stepType := some .tool, toolCall := some site.call }
      (.execute site decision)).Follows policy :=
    h.emit (policy.record_plain rfl) (allows_of_singleton hallows.snapshot hcall rfl)
  cases events with
  | cons event events =>
    obtain ⟨hevent, hevents⟩ := List.forall_mem_cons.mp hevents
    refine h.endAt ⟨hallows.snapshot, ?_⟩
    exact List.forall_mem_cons.mpr ⟨hevent, List.forall_mem_cons.mpr ⟨hcall, hevents⟩⟩
  | nil =>
    cases decision with
    | none => exact hstart
    | some granted =>
      rw [RunWorld.announceCall]
      split
      · refine h.emit (policy.record_plain rfl) (allows_of_nil ?_ rfl)
        exact policy.snapshot_alike hallows.snapshot ⟨rfl, rfl, rfl, rfl⟩
      · split
        · exact hstart
        · exact h.goto (allows_of_singleton hallows.snapshot hcall rfl)

theorem Follows.executeToolCall (h : world.Follows policy)
    (hstate : policy.snapshot world.supplied state) (hcall : policy.duty state (.call site))
    (decision : Option ToolSafetyDecision) :
    (world.executeToolCall runtime state site decision).Follows policy := by
  rw [RunWorld.executeToolCall]
  split
  · exact h.toolFailed hstate hcall _
  · split
    · split
      · split
        · exact h.raiseAt hstate _
        · exact h.toolFailed hstate hcall _
      · exact h.toolCompleted hstate hcall _
      · split
        · split
          · exact h.raiseAt hstate _
          · exact (h.putAttempt _).goto (allows_of_singleton hstate hcall rfl)
        · exact h.goto (allows_of_singleton hstate hcall rfl)
    · exact h.goto (allows_of_singleton hstate hcall rfl)

/-- The call that reaches its executor. -/
theorem Follows.invokeTool (h : world.Follows policy) (hstate : policy.snapshot world.supplied state)
    (hcall : policy.duty state (.call site)) (attempt : Option ToolExecutionAttempt) :
    (world.invokeTool runtime state attempt site).Follows policy := by
  rw [RunWorld.invokeTool]
  split
  · obtain ⟨hsaved, hsupplied⟩ := h.saveOutcome attempt (.error _)
    exact hsaved.toolFailed (hsupplied.symm ▸ hstate) hcall _
  · next hreached =>
    refine ⟨h.journal, h.stored, fun other stage hs => ?_, fun toolRound call hmem => ?_⟩
    · obtain ⟨rfl, rfl⟩ := RunSession.mk.inj (Option.some.inj hs)
      exact allows_of_singleton hstate hcall rfl
    · rcases List.mem_append.mp hmem with hmem | hmem
      · exact h.invoked toolRound call hmem
      · obtain ⟨rfl, rfl⟩ := ToolInvocation.invoked.inj (List.mem_singleton.mp hmem)
        exact policy.invoke attempt hstate hcall hreached

theorem Follows.finishTool (h : world.Follows policy) (hstate : policy.snapshot world.supplied state)
    (hcall : policy.duty state (.call site)) (attempt : Option ToolExecutionAttempt)
    (outcome : Except Error Dict) :
    (world.finishTool runtime state attempt site outcome).Follows policy := by
  let returned : RunWorld := { world with invocations :=
    world.invocations ++ [ToolInvocation.returned state.currentToolRound site.call.toolCallId] }
  have hreturned : returned.Follows policy := by
    refine h.next h.journal h.stored rfl (fun toolRound call hmem => ?_) h.session
    rcases List.mem_append.mp hmem with hmem | hmem
    · exact hmem
    · exact absurd (List.mem_singleton.mp hmem) (by simp)
  cases outcome with
  | ok toolCallResult =>
    obtain ⟨hsaved, hsupplied⟩ := hreturned.saveOutcome attempt (.ok _)
    exact hsaved.toolCompleted (hsupplied.symm ▸ hstate) hcall _
  | error e =>
    obtain ⟨hsaved, hsupplied⟩ := hreturned.saveOutcome attempt (.error _)
    exact hsaved.toolFailed (hsupplied.symm ▸ hstate) hcall _

/-! ### Resuming -/

/-- A round whose calls are all completed ends when the run resumes. -/
theorem Follows.resumeCheckpointEvents (h : world.Follows policy)
    (hstate : policy.snapshot world.supplied state) :
    (world.resumeCheckpointEvents state).Follows policy := by
  have hresumed : policy.snapshot world.supplied { state with
      status := .running, stopReason := none, pendingToolCalls := []
      pendingApprovalRequests := [], pause := none, pauseRequest := none } :=
    policy.snapshot_alike hstate ⟨rfl, rfl, rfl, rfl⟩
  rw [RunWorld.resumeCheckpointEvents]
  dsimp only
  split
  · exact h.goto (allows_of_nil hresumed rfl)
  · next response hresponse =>
    split
    · exact h.goto (allows_of_singleton hresumed (policy.reenter hresumed) rfl)
    · next hcomplete =>
      split
      · next hcalls =>
        -- some call of the round was completed
        have hdone : state.currentRoundCompletedToolCallIds ≠ [] := by
          intro hnone
          obtain ⟨call, hcall⟩ := List.exists_mem_of_ne_nil _ hcalls
          have hmem : call ∈ state.incompleteToolCalls response := by
            rw [AgentRunState.incompleteToolCalls, hnone]
            exact List.mem_filter.mpr ⟨hcall, rfl⟩
          have hnil : state.incompleteToolCalls response = [] := not_not.mp hcomplete
          rw [hnil] at hmem
          exact absurd hmem List.not_mem_nil
        obtain ⟨hover, hanswer⟩ := policy.endRound hresumed (Or.inr hdone)
        exact h.goto (allows_of_singleton hover hanswer rfl)
      · exact h.goto (allows_of_singleton hresumed (policy.reenter hresumed) rfl)

theorem Follows.supply (h : world.Follows policy) (approvals : List ToolApprovalDecision)
    (toolRound : Nat) : (world.supply approvals toolRound).Follows policy where
  journal := h.journal
  stored := policy.snapshot_supply _ h.stored
  session := fun state stage hs =>
    have hallows := h.session state stage hs
    ⟨policy.snapshot_supply _ hallows.snapshot, hallows.duties⟩
  invoked := fun round call hmem => policy.invoked_supply _ (h.invoked round call hmem)

theorem Follows.resumeAgentEvents (h : world.Follows policy)
    (hstate : policy.snapshot world.supplied state) (approvals : List ToolApprovalDecision) :
    (world.resumeAgentEvents state approvals).Follows policy := by
  rw [RunWorld.resumeAgentEvents]
  dsimp only
  split
  · exact h.raiseAt hstate _
  · split
    · exact h.raiseAt hstate _
    · split
      · refine (h.supply approvals _).resumeCheckpointEvents ?_
        refine policy.merge approvals hstate (le_max_left _ _) (Or.inr ?_)
        exact Nat.one_pos.trans_le (le_max_right _ _)
      · split
        · exact h.raiseAt hstate _
        · next hresponse =>
          split
          · exact h.raiseAt hstate _
          · split
            · exact h.raiseAt hstate _
            · have hmerged := policy.merge approvals hstate (le_refl _) (Or.inl hresponse)
              refine (h.supply approvals _).goto (allows_of_singleton ?_ (policy.duty_alike
                (policy.reenter hmerged) ⟨rfl, rfl, rfl, rfl⟩) rfl)
              exact policy.snapshot_alike hmerged ⟨rfl, rfl, rfl, rfl⟩

/-! ### The driver -/

theorem Follows.loadedState (h : world.Follows policy) :
    policy.snapshot world.supplied world.loadedState :=
  policy.snapshot_alike h.stored (AgentRunState.alike_loadedState world)

/-- An event of the session's goes to the journal. -/
theorem Follows.appendEvent (h : world.Follows policy) (nextEventId : Nat)
    (hjournal : policy.journal (world.record.appendEvent event).journal)
    (hallows : policy.Allows world.supplied state stage) :
    (RunWorld.appendEvent { world with nextEventId } state event stage).Follows policy := by
  refine h.goOn nextEventId (world.record.appendEvent event) hjournal h.stored world.context
    world.appended (allows_alike hallows ?_)
  exact ⟨rfl, rfl, rfl, rfl⟩

/-- The pause or the failure of a run is recorded. -/
theorem Follows.appendPlain (h : world.Follows policy) (nextEventId : Nat)
    (hplain : event.eventType.plain = true) (hstate : policy.snapshot world.supplied state)
    (hstage : stage.duties = []) :
    (RunWorld.appendEvent { world with nextEventId } state event stage).Follows policy := by
  refine h.appendEvent nextEventId ?_ (allows_of_nil hstate hstage)
  exact policy.journal_plain hplain h.journal

theorem Follows.storeEvent (h : world.Follows policy)
    (hjournal : policy.journal (world.record.appendEvent event).journal)
    (hallows : policy.Allows world.supplied state (.at point)) :
    (world.storeEvent state event point).Follows policy := by
  rw [RunWorld.storeEvent]
  split
  · exact h.endAt (allows_of_nil hallows.snapshot rfl)
  · refine h.appendEvent world.nextEventId hjournal ⟨hallows.snapshot, ?_⟩
    split
    · exact hallows.duties
    · exact hallows.duties

theorem Follows.pauseAtCheckpoint (h : world.Follows policy)
    (hallows : policy.Allows world.supplied state (.at point)) {next : AgentRunState → RunWorld}
    (hnext : ∀ state', policy.Allows world.supplied state' (.at point) →
      (next state').Follows policy) :
    (world.pauseAtCheckpoint state event next).Follows policy := by
  rw [RunWorld.pauseAtCheckpoint]
  split
  · exact hnext state hallows
  · split
    · refine h.appendPlain _ rfl (policy.snapshot_alike hallows.snapshot ?_) rfl
      refine AgentRunState.Alike.trans ?_ (AgentRunState.alike_addTrace _ _ _)
      exact ⟨rfl, rfl, rfl, rfl⟩
    · exact hnext _ (allows_alike hallows ⟨rfl, rfl, rfl, rfl⟩)

theorem Follows.saveRaised (h : world.Follows policy) (hstate : policy.snapshot world.supplied state)
    (e : Error) : (world.saveRaised state point e).Follows policy := by
  rw [RunWorld.saveRaised]
  split
  · exact h.endAt (allows_of_nil hstate rfl)
  · exact (h.saveSnapshot hstate).endAt (allows_of_nil hstate rfl)

theorem Follows.markFailed (h : world.Follows policy) (hstate : policy.snapshot world.supplied state)
    (e : Error) : (world.markFailed state e).Follows policy := by
  rw [RunWorld.markFailed]
  dsimp only
  split
  · exact h.endAt (allows_of_nil hstate rfl)
  · refine h.appendPlain _ rfl (policy.snapshot_alike h.loadedState ?_) rfl
    exact (AgentRunState.alike_addTrace _ _ _).trans ⟨rfl, rfl, rfl, rfl⟩

theorem Follows.closeStream (h : world.Follows policy) (hstate : policy.snapshot world.supplied state)
    (timedOut : Bool) : (world.closeStream state timedOut).Follows policy := by
  have hend : ∀ {saved : RunWorld}, saved.Follows policy → saved.supplied = world.supplied →
      ({ saved with session := if timedOut then some ⟨state, .interrupted⟩ else none } :
        RunWorld).Follows policy := fun hsaved hsupplied => by
    cases timedOut with
    | true => exact hsaved.endAt (allows_of_nil (hsupplied ▸ hstate) rfl)
    | false => exact hsaved.endSession
  rw [RunWorld.closeStream]
  split
  · exact hend h rfl
  · exact hend (h.saveSnapshot hstate) rfl

theorem Follows.markInterrupted (h : world.Follows policy) :
    world.markInterrupted.Follows policy := by
  rw [RunWorld.markInterrupted]
  split
  · exact h.endSession
  · exact h.endAt (allows_of_nil h.loadedState rfl)

end Functions

/-! ### Runs -/

/-- What each policy owes: a response may be added, the session's event may be stored, and the
restored snapshot is one of the policy's. -/
structure Upheld (policy : RunPolicy runtime) (world : RunWorld) : Prop where
  respond : ∀ {state afterRound}, world.session = some ⟨state, .at (.model afterRound)⟩ →
    ∀ response, (world.chatCompleted state afterRound response).Follows policy
  store : ∀ {state event point}, world.session = some ⟨state, .emit event point⟩ →
    policy.journal (world.record.appendEvent event).journal
  inspect : ∀ {state}, (state = world.record.queriedState ∨
      ∃ attempts, world.session = some ⟨state, .reconciling attempts []⟩) →
    ∀ toolExecutions, policy.snapshot world.supplied
      (inspectAgentRunCheckpoint world.record.journal toolExecutions state).2

theorem Follows.reconcile {attempts : Option (List ToolExecutionAttempt)}
    {todo : List ToolExecutionAttempt} (h : world.Follows policy) (hup : world.Upheld policy)
    (hsession : world.session = some ⟨state, .reconciling attempts todo⟩) :
    (world.reconcile state attempts todo).Follows policy := by
  have hstate := (h.session _ _ hsession).snapshot
  cases todo with
  | cons attempt todo =>
    rw [RunWorld.reconcile]
    split
    · exact (h.putAttempt _).endAt (allows_of_nil hstate rfl)
    · exact h.endAt (allows_of_nil hstate rfl)
  | nil =>
    have hinspected := hup.inspect (Or.inr ⟨attempts, hsession⟩) (attempts.map reconciledAttempts)
    rw [RunWorld.reconcile]
    dsimp only
    split
    · exact h.endAt (allows_of_nil hinspected rfl)
    · refine h.appendPlain _ rfl (policy.snapshot_alike hinspected ?_) rfl
      exact (AgentRunState.alike_addTrace _ _ _).trans ⟨rfl, rfl, rfl, rfl⟩

/-- A run that nothing executes is paused with its restored snapshot. -/
theorem Follows.pauseRestored (h : world.Follows policy) (hup : world.Upheld policy)
    (cause : AgentPauseCause) (source : String) (record : RunRecord)
    (hrecord : record.journal = world.record.journal) :
    let inspected := world.record.inspectCheckpoint world.record.queriedState
    let restored := record.pauseRestored cause source inspected.1 inspected.2
    policy.journal restored.journal ∧ policy.snapshot world.supplied restored.state := by
  have hinspected := hup.inspect (Or.inl rfl)
    (world.record.ledger.map fun ledger => reconciledAttempts ledger.listAttempts)
  dsimp only
  rw [RunRecord.pauseRestored]
  split
  · refine ⟨?_, policy.snapshot_alike hinspected ⟨rfl, rfl, rfl, rfl⟩⟩
    refine policy.journal_plain ?_ (hrecord ▸ h.journal)
    rfl
  · exact ⟨hrecord ▸ h.journal, hinspected⟩

theorem Follows.recover (h : world.Follows policy) (hup : world.Upheld policy) (now : Instant)
    (grace : Int) :
    ({ world with record := world.record.recover now grace } : RunWorld).Follows policy := by
  rw [RunRecord.recover]
  split
  · exact h
  · have hboth := fun cause =>
      h.pauseRestored hup cause "startup_recovery" world.record.markStartedUnknown rfl
    dsimp only
    split
    · exact h.putRecord world.nextEventId (hboth .leaseExpired).1 (hboth .leaseExpired).2
    · exact h.putRecord world.nextEventId (hboth .uncleanShutdown).1 (hboth .uncleanShutdown).2

theorem Follows.steps {label : RunLabel} (h : world.Follows policy) (hup : world.Upheld policy)
    (hstep : Steps runtime world label world') : world'.Follows policy := by
  have hstate : ∀ {state stage}, world.session = some ⟨state, stage⟩ →
      policy.snapshot world.supplied state := fun hsession => (h.session _ _ hsession).snapshot
  have hfirst : ∀ {state stage duty duties}, world.session = some ⟨state, stage⟩ →
      stage.duties = duty :: duties → policy.duty state duty := fun hsession hduties =>
    (h.session _ _ hsession).duties _ (hduties ▸ List.mem_cons_self)
  have hidle : ∀ {state stage stage'}, world.session = some ⟨state, stage⟩ →
      stage'.duties = [] → (world.endAt state stage').Follows policy := fun hsession hnil =>
    h.endAt (allows_of_nil (hstate hsession) hnil)
  cases hstep with
  | lease owner expiresAt => exact h.putRecord _ h.journal h.stored
  | pause reason hrunning =>
    exact h.saveSnapshot (policy.snapshot_alike h.loadedState ⟨rfl, rfl, rfl, rfl⟩)
  | crash hsession => exact h.endSession
  | recover now grace hsession hrunning => exact h.recover hup now grace
  | resume approvals hsession => exact h.endAt (allows_of_nil h.loadedState rfl)
  | raise e hsession hpoint => exact h.raiseAt (hstate hsession) e
  | interrupt timedOut hsession hpoint => exact hidle hsession rfl
  | resumeAgentEvents hsession => exact h.resumeAgentEvents (hstate hsession) _
  | @runAgentEvents state hsession =>
    have hopened : state.Alike { state with history := { state.history with
        messageOffset := some world.context.length, messageIndices := some [] } } :=
      ⟨rfl, rfl, rfl, rfl⟩
    refine h.emit (policy.record_plain rfl) (allows_of_nil ?_ rfl)
    exact policy.snapshot_alike (hstate hsession) (hopened.trans (AgentRunState.alike_addStep _ rfl))
  | chatCompleted response hsession => exact hup.respond hsession response
  | chatDelta text hsession => exact h.emit (policy.record_plain rfl) (h.session _ _ hsession)
  | continueToolLoop hsession =>
    exact h.continueToolLoop (hstate hsession) (hfirst hsession rfl) _ _
  | handleNextCall hsession =>
    exact h.handleNextCall (hstate hsession) (hfirst hsession rfl) _ _
  | announceCall hsession => exact h.announceCall (h.session _ _ hsession)
  | executeToolCall hsession =>
    exact h.executeToolCall (hstate hsession) (hfirst hsession rfl) _
  | startAttempt hsession =>
    exact (h.putAttempt _).goto
      (allows_of_singleton (hstate hsession) (hfirst hsession rfl) rfl)
  | invokeTool hsession => exact h.invokeTool (hstate hsession) (hfirst hsession rfl) _
  | finishTool outcome hsession =>
    exact h.finishTool (hstate hsession) (hfirst hsession rfl) _ outcome
  | toolErrorStop hsession => exact h.finishLoop (hstate hsession) _
  | commitMessage hsession =>
    refine h.goOn _ _ h.journal h.stored _ _ (allows_of_nil ?_ rfl)
    exact policy.snapshot_alike (hstate hsession) ⟨rfl, rfl, rfl, rfl⟩
  | committed hsession => exact hidle hsession rfl
  | writeMemory metadata hsession =>
    refine h.emit (policy.record_plain rfl) (allows_of_nil ?_ rfl)
    exact policy.snapshot_alike (hstate hsession) (AgentRunState.alike_addStep _ rfl)
  | stopRun hsession =>
    refine h.emit (policy.record_plain rfl) (allows_of_nil ?_ rfl)
    exact policy.snapshot_alike (hstate hsession) ⟨rfl, rfl, rfl, rfl⟩
  | stopped hsession => exact hidle hsession rfl
  | storeEvent hsession =>
    have hallows := h.session _ _ hsession
    refine h.storeEvent (hup.store hsession) ⟨hallows.snapshot, fun duty hduty => ?_⟩
    exact hallows.duties duty (List.mem_cons_of_mem _ hduty)
  | storeSnapshot hsession =>
    have hallows := h.session _ _ hsession
    refine h.pauseAtCheckpoint ⟨hallows.snapshot, hallows.duties⟩ fun state' hallows' => ?_
    exact (h.saveSnapshot hallows'.snapshot).endAt ⟨hallows'.snapshot, hallows'.duties⟩
  | handOn hsession =>
    have hallows := h.session _ _ hsession
    exact h.pauseAtCheckpoint ⟨hallows.snapshot, hallows.duties⟩ fun state' hallows' =>
      h.goto hallows'
  | disconnect timedOut hsession => exact hidle hsession rfl
  | savePaused hsession =>
    exact (h.saveSnapshot (hstate hsession)).endAt (allows_of_nil (hstate hsession) rfl)
  | saveRaised hsession => exact h.saveRaised (hstate hsession) _
  | markFailed hsession => exact h.markFailed (hstate hsession) _
  | closeStream hsession => exact h.closeStream (hstate hsession) _
  | markInterrupted hsession => exact h.markInterrupted
  | reconcile hsession => exact h.reconcile hup hsession
  | saveLast hsession => exact (h.saveSnapshot (hstate hsession)).endSession

/-- **One operation.** Neither a step of the execution nor anything else done to the run breaks a
policy that is upheld. -/
theorem Follows.operate {operation : RunOperation} (h : world.Follows policy)
    (hup : world.Upheld policy) (hstep : operate runtime world operation = some world') :
    world'.Follows policy := by
  rcases operation with label | reason | _ | ⟨toolCallId, attempt, resolution, result, reason⟩
  · exact h.steps hup (steps_of_step hstep)
  · rw [RunWorld.operate] at hstep
    split at hstep
    · exact absurd hstep (by simp)
    · obtain rfl := Option.some.inj hstep
      refine h.putRecord _ (policy.journal_plain rfl h.journal) ?_
      refine policy.snapshot_alike h.loadedState ?_
      exact (AgentRunState.alike_addTrace _ _ _).trans ⟨rfl, rfl, rfl, rfl⟩
  · rw [RunWorld.operate] at hstep
    split at hstep
    · obtain rfl := Option.some.inj hstep
      have hboth := h.pauseRestored hup .shutdown "shutdown" world.record.markStartedUnknown rfl
      exact h.putRecord world.nextEventId hboth.1 hboth.2
    · exact absurd hstep (by simp)
  · rw [RunWorld.operate] at hstep
    split at hstep
    · next record hok =>
      obtain rfl := Option.some.inj hstep
      obtain ⟨-, ledger, execution, rfl⟩ := RunRecord.resolveToolExecution_record hok
      have hresolved : world.record.state.Alike (world.record.resolvedState
          (recoveryEligible ledger.listAttempts)) := ⟨rfl, rfl, rfl, rfl⟩
      refine h.putRecord _ (policy.journal_plain rfl h.journal) ?_
      refine policy.snapshot_alike h.stored (hresolved.trans ?_)
      exact (AgentRunState.alike_addTrace _ _ _).trans ⟨rfl, rfl, rfl, rfl⟩
    · exact absurd hstep (by simp)

/-- A run just started keeps to a policy that holds of its first snapshot. -/
theorem follows_started (runId : String) (now : Instant) (request : AgentRunRequest)
    (context : List Content) (ledger : Option Ledger) (hjournal : policy.journal [])
    (hstate : policy.snapshot (request.toolApprovals.map fun approval => (approval.round, approval))
      (AgentRunState.newRunState runId now request)) :
    (started runId now request context ledger).Follows policy := by
  refine ⟨hjournal, hstate, fun state stage hs => ?_, fun toolRound call hmem => ?_⟩
  · obtain ⟨rfl, rfl⟩ := RunSession.mk.inj (Option.some.inj hs)
    exact allows_of_nil hstate rfl
  · exact absurd hmem List.not_mem_nil

end RunWorld

end EvernightAI
