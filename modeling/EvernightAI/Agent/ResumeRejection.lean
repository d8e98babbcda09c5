import EvernightAI.Agent.ExecutionSteps

/-!
# Rejected resumes

`resume` and `resume_stream` check a request in the generator of the execution they would start, so
a rejection is an exception of that execution, and its handler records failures of the run itself.
Whether the rejection is told apart from one depends on the stored status alone: `_mark_failed`
leaves a run that is not RUNNING as it is.

* `ResumeRejected` is a request that is refused by the executor, or whose generator raises before
  it has started anything.
* `resumeRejected_leavesRun_iff`: the run is left as it was exactly when it is not RUNNING, or the
  executor has refused.
* `not_resumeRejected_leavesRun` is a running run that a stray resume turns into a failed one.
-/

namespace EvernightAI

/-- The executor of a runtime at the moment of a request. It is `busy` when it closes, or still has
a task of the run. -/
structure RunExecutor where
  executorId : String
  busy : Bool := false
  now : Instant
  ttl : Int

/-- `AgentRunExecutor._acquire` -/
def RunExecutor.acquire (executor : RunExecutor) (record : RunRecord) : Option RunRecord :=
  if executor.busy then none
  else if record.leaseAvailable executor.executorId executor.now then
    some { record with
      leaseOwner := some executor.executorId
      leaseExpiresAt := some (executor.now + executor.ttl)
      heartbeatAt := some executor.now
      leaseGeneration := record.leaseGeneration + 1 }
  else none

/-- The executor, if there is one, refuses to execute the run. -/
def executorRefuses (executor : Option RunExecutor) (record : RunRecord) : Bool :=
  executor.any fun executor => (executor.acquire record).isNone

/-- The rows under the executor's lease; without an executor there is none to take. -/
def executorAcquire (executor : Option RunExecutor) (record : RunRecord) : Option RunRecord :=
  match executor with
  | none => some record
  | some executor => executor.acquire record

/-- Status, pending calls, approvals and steps of a run are the same. -/
def AgentRunState.SameRun (state state' : AgentRunState) : Prop :=
  state'.status = state.status ∧ state'.pendingToolCalls = state.pendingToolCalls ∧
    state'.request.toolApprovals = state.request.toolApprovals ∧ state'.steps = state.steps

/-- A resume that is rejected, and the run after it. -/
inductive ResumeRejected (runtime : AgentRuntime) (executor : Option RunExecutor)
    (world : RunWorld) (approvals : List ToolApprovalDecision) : RunWorld → Prop
  /-- the executor closes, already executes the run, or another owner holds its lease -/
  | refused (h : executorRefuses executor world.record = true) :
    ResumeRejected runtime executor world approvals world
  /-- the generator raises in `_resume_agent_events`, and the session ends -/
  | raised {record : RunRecord} {resumed raised final : RunWorld} {state : AgentRunState}
      {error : Error} (label : RunLabel) (n : Nat)
      (hacquire : executorAcquire executor world.record = some record)
      (hresume : RunWorld.step runtime { world with record } (.resume approvals) = some resumed)
      (hraise : RunWorld.step runtime resumed label = some raised)
      (hraised : raised.session = some ⟨state, .raised (.resuming approvals) error⟩)
      (hfinal : TransitionSystem.run (RunWorld.step runtime) raised (List.replicate n .go) =
        some final)
      (hend : final.session = none) :
    ResumeRejected runtime executor world approvals final

namespace RunWorld

variable {runtime : AgentRuntime} {world world' : RunWorld} {approvals : List ToolApprovalDecision}
  {state state' : AgentRunState} {error : Error}

/-- Past its checks the checkpoint path raises nothing. -/
theorem session_resumeCheckpointEvents (h : (world.resumeCheckpointEvents state).session =
    some ⟨state', .raised (.resuming approvals) error⟩) : False := by
  rw [resumeCheckpointEvents] at h
  split at h
  · simp [goto] at h
  · dsimp only at h
    split_ifs at h <;> simp [goto] at h

/-- A generator that raises in its checks has changed nothing. -/
theorem resumeAgentEvents_raised (h : (world.resumeAgentEvents state approvals).session =
    some ⟨state', .raised (.resuming approvals) error⟩) :
    world.resumeAgentEvents state approvals = world.raiseAt state (.resuming approvals) error ∧
      state' = state := by
  have hraised : ∀ e : Error, (world.raiseAt state (.resuming approvals) e).session =
      some ⟨state', .raised (.resuming approvals) error⟩ →
      world.raiseAt state (.resuming approvals) e =
        world.raiseAt state (.resuming approvals) error ∧ state' = state := by
    intro e he
    simp only [raiseAt, Option.some.injEq, RunSession.mk.injEq, RunStage.raised.injEq,
      true_and] at he
    rw [he.2]
    exact ⟨rfl, he.1.symm⟩
  rw [resumeAgentEvents] at h ⊢
  rcases hmode : agentResumeMode state with _ | _
  · simp only [hmode] at h ⊢
    split_ifs at h ⊢
    · exact hraised _ h
    · exact hraised _ h
    · exact hraised _ h
    · exact hraised _ h
    · exact hraised _ h
    · simp [goto] at h
  · simp only [hmode] at h ⊢
    split_ifs at h ⊢
    · exact hraised _ h
    · exact hraised _ h
    · exact (session_resumeCheckpointEvents h).elim

/-- The only way from the checks to an exception of theirs. -/
theorem raised_of_step {label : RunLabel}
    (hsession : world.session = some ⟨state, .at (.resuming approvals)⟩)
    (hstep : step runtime world label = some world')
    (hraised : world'.session = some ⟨state', .raised (.resuming approvals) error⟩) :
    world' = world.raiseAt state (.resuming approvals) error ∧ state' = state := by
  cases label with
  | go =>
    simp only [step, hsession, Option.bind_some, sessionStep, generatorStep,
      Option.some.injEq] at hstep
    rw [← hstep] at hraised ⊢
    exact resumeAgentEvents_raised hraised
  | raise e =>
    simp only [step, hsession, Option.bind_some, sessionStep, generatorStep, RunPoint.mayRaise,
      if_true, Option.some.injEq] at hstep
    rw [← hstep] at hraised ⊢
    simp only [raiseAt, Option.some.injEq, RunSession.mk.injEq, RunStage.raised.injEq,
      true_and] at hraised
    rw [hraised.2]
    exact ⟨rfl, hraised.1.symm⟩
  | crash =>
    simp only [step, hsession, Option.map_some, Option.some.injEq] at hstep
    rw [← hstep] at hraised
    simp at hraised
  | lease owner expiresAt =>
    simp only [step, Option.some.injEq] at hstep
    rw [← hstep] at hraised
    simp [hsession] at hraised
  | pause reason =>
    simp only [step] at hstep
    split_ifs at hstep
    rw [← Option.some.inj hstep] at hraised
    simp [saveSnapshot, hsession] at hraised
  | recover now grace => simp [step, hsession] at hstep
  | resume approvals' => simp [step, hsession] at hstep
  | respond response => simp [step, hsession, sessionStep, generatorStep] at hstep
  | delta text => simp [step, hsession, sessionStep, generatorStep] at hstep
  | finish outcome => simp [step, hsession, sessionStep, generatorStep] at hstep
  | remember metadata => simp [step, hsession, sessionStep, generatorStep] at hstep
  | interrupt timedOut =>
    simp [step, hsession, sessionStep, generatorStep, RunPoint.awaits] at hstep

/-- The session ends with the steps of the handler. -/
theorem run_go_of_session {stage : RunStage} {n : Nat}
    (hsession : world.session = some ⟨state, stage⟩)
    (hrun : TransitionSystem.run (step runtime) world (List.replicate n .go) = some world')
    (hend : world'.session = none) :
    ∃ m next, world.sessionStep runtime state stage .go = some next ∧
      TransitionSystem.run (step runtime) next (List.replicate m .go) = some world' := by
  cases n with
  | zero =>
    obtain rfl := Option.some.inj hrun
    rw [hsession] at hend
    simp at hend
  | succ m =>
    obtain ⟨next, hnext, hrest⟩ := TransitionSystem.run_cons_eq_some.mp hrun
    simp only [step, hsession, Option.bind_some] at hnext
    exact ⟨m, next, hnext, hrest⟩

theorem run_go_of_idle {n : Nat} (hsession : world.session = none)
    (hrun : TransitionSystem.run (step runtime) world (List.replicate n .go) = some world') :
    world' = world := by
  cases n with
  | zero => exact (Option.some.inj hrun).symm
  | succ m =>
    obtain ⟨next, hnext, -⟩ := TransitionSystem.run_cons_eq_some.mp hrun
    simp [step, hsession] at hnext

theorem saveSnapshot_self (world : RunWorld) : world.saveSnapshot world.record.state = world := rfl

/-- The `finally` clause with the stored snapshot changes no row. -/
theorem record_closeStream_self (world : RunWorld) (timedOut : Bool) :
    (world.closeStream world.record.state timedOut).record = world.record := by
  simp only [closeStream, saveSnapshot_self, ite_self]

theorem loadedState_of_not_running (h : world.record.state.status ≠ .running) :
    world.loadedState = world.record.state := by
  rw [loadedState]
  exact if_pos h

/-- What the handler does to a run that is not RUNNING: nothing is stored that was not. -/
theorem record_of_raised {n : Nat} {point : RunPoint}
    (hsession : world.session = some ⟨world.record.state, .raised point error⟩)
    (hstatus : world.record.state.status ≠ .running)
    (hrun : TransitionSystem.run (step runtime) world (List.replicate n .go) = some world')
    (hend : world'.session = none) : world'.record = world.record := by
  obtain ⟨n, next, hnext, hrun⟩ := run_go_of_session hsession hrun hend
  simp only [sessionStep, saveRaised, saveSnapshot_self, ite_self, Option.some.injEq] at hnext
  subst hnext
  -- `_mark_failed` finds a run that is not running
  obtain ⟨n, next, hnext, hrun⟩ := run_go_of_session rfl hrun hend
  have hloaded : (world.endAt world.record.state (.marking point error)).loadedState.status ≠
      .running := by
    rw [status_loadedState]
    exact hstatus
  simp only [sessionStep, markFailed, hloaded, ne_eq, not_false_eq_true, if_true,
    Option.some.injEq] at hnext
  subst hnext
  obtain ⟨n, next, hnext, hrun⟩ := run_go_of_session rfl hrun hend
  simp only [sessionStep, closeStream, Option.some.injEq] at hnext
  subst hnext
  rw [run_go_of_idle rfl hrun]
  exact record_closeStream_self (world.endAt world.record.state (.closing false)) false

/-- What the handler does to a running run: it fails. -/
theorem status_of_raised {n : Nat} {point : RunPoint}
    (hsession : world.session = some ⟨state, .raised point error⟩)
    (hstate : state.status = .running) (hstatus : world.record.state.status = .running)
    (hrun : TransitionSystem.run (step runtime) world (List.replicate n .go) = some world')
    (hend : world'.session = none) : world'.record.state.status = .failed := by
  obtain ⟨n, next, hnext, hrun⟩ := run_go_of_session hsession hrun hend
  have hnot : ¬ world.record.state.status = .canceled := by simp [hstatus]
  simp only [sessionStep, saveRaised, hnot, if_false, Option.some.injEq] at hnext
  subst hnext
  obtain ⟨n, next, hnext, hrun⟩ := run_go_of_session rfl hrun hend
  have hloaded : ((world.saveSnapshot state).endAt state (.marking point error)).loadedState.status =
      .running := by
    rw [status_loadedState]
    exact hstate
  simp only [sessionStep, markFailed, hloaded, ne_eq, not_true_eq_false, if_false,
    Option.some.injEq] at hnext
  subst hnext
  obtain ⟨n, next, hnext, hrun⟩ := run_go_of_session rfl hrun hend
  simp only [sessionStep, Option.some.injEq] at hnext
  subst hnext
  rw [run_go_of_idle rfl hrun]
  rfl

end RunWorld

/-- Taking the lease changes the lease columns only. -/
theorem state_of_executorAcquire {executor : Option RunExecutor} {record record' : RunRecord}
    (h : executorAcquire executor record = some record') : record'.state = record.state := by
  cases executor with
  | none => exact congrArg RunRecord.state (Option.some.inj h).symm
  | some executor =>
    simp only [executorAcquire, RunExecutor.acquire] at h
    split_ifs at h
    obtain rfl := Option.some.inj h
    rfl

theorem executorRefuses_of_acquire {executor : Option RunExecutor} {record record' : RunRecord}
    (h : executorAcquire executor record = some record') :
    executorRefuses executor record = false := by
  cases executor with
  | none => rfl
  | some executor =>
    rw [executorAcquire] at h
    simp [executorRefuses, h]

/-- **A rejected resume leaves the run as it was** exactly when the stored run is not RUNNING, or the
executor has refused the request before its generator started. -/
theorem resumeRejected_leavesRun_iff (runtime : AgentRuntime) (executor : Option RunExecutor)
    (world world' : RunWorld) (approvals : List ToolApprovalDecision)
    (h : ResumeRejected runtime executor world approvals world') :
    world.record.state.SameRun world'.record.state ↔
      world.record.state.status ≠ .running ∨ executorRefuses executor world.record = true := by
  cases h with
  | refused hrefused => exact ⟨fun _ => Or.inr hrefused, fun _ => ⟨rfl, rfl, rfl, rfl⟩⟩
  | @raised record resumed raised final state error label n hacquire hresume hraise hraised hfinal
      hend =>
    have hstate := state_of_executorAcquire hacquire
    have hnot := executorRefuses_of_acquire hacquire
    -- the request loads the snapshot, and its generator raises
    simp only [RunWorld.step] at hresume
    split_ifs at hresume with hidle
    have hresumed := Option.some.inj hresume
    have hsession : resumed.session = some ⟨RunWorld.loadedState { world with record },
        .at (.resuming approvals)⟩ := by
      rw [← hresumed]
      rfl
    obtain ⟨hworld, rfl⟩ := RunWorld.raised_of_step hsession hraise hraised
    have hrecord : raised.record = record := by
      rw [hworld, ← hresumed]
      rfl
    rw [← hrecord] at hstate
    constructor
    · intro hsame
      refine Or.inl fun hrunning => ?_
      have hfailed := RunWorld.status_of_raised hraised
        (by rw [RunWorld.status_loadedState]; rw [← hrecord, hstate]; exact hrunning)
        (by rw [hstate]; exact hrunning) hfinal hend
      have hstatus := hsame.1
      rw [hfailed, hrunning] at hstatus
      exact absurd hstatus (by simp)
    · rintro (hstatus | hrefused)
      · have hloaded : RunWorld.loadedState { world with record } = raised.record.state := by
          rw [RunWorld.loadedState_of_not_running, hrecord]
          rw [← hrecord, hstate]
          exact hstatus
        rw [hloaded] at hraised
        have hfinalRecord := RunWorld.record_of_raised hraised (by rwa [hstate]) hfinal hend
        rw [hfinalRecord, hstate]
        exact ⟨rfl, rfl, rfl, rfl⟩
      · rw [hnot] at hrefused
        exact absurd hrefused (by simp)

section Example

private def quietRuntime : AgentRuntime where
  tools := { tool? := fun _ => none }

/-- A run in the given status, with no execution. -/
private def idleRun (status : AgentRunStatus) : RunWorld where
  record := { state := { runId := "r", request := { contextId := "c", modelId := "m" }, status } }

theorem resumeRejected_leavesRun_finished :
    ∃ world', ResumeRejected quietRuntime none (idleRun .finished) [] world' ∧
      (idleRun .finished).record.state.SameRun world'.record.state := by
  refine ⟨_, .raised .go 3 rfl rfl rfl rfl rfl rfl, ?_⟩
  exact (resumeRejected_leavesRun_iff quietRuntime none (idleRun .finished) _ []
    (.raised .go 3 rfl rfl rfl rfl rfl rfl)).mpr (Or.inl (by decide))

/-- Resuming a running run is rejected, and fails the run. -/
theorem not_resumeRejected_leavesRun :
    ¬ ∀ (runtime : AgentRuntime) (executor : Option RunExecutor) (world world' : RunWorld)
      (approvals : List ToolApprovalDecision),
      ResumeRejected runtime executor world approvals world' →
      world.record.state.SameRun world'.record.state := by
  intro hall
  have hsame := hall quietRuntime none (idleRun .running) _ []
    (.raised .go 3 rfl rfl rfl rfl rfl rfl)
  exact absurd hsame.1 (by decide)

end Example

end EvernightAI
