import EvernightAI.Agent.RunRecord

/-!
# Startup recovery

`recoverInterruptedAgentRuns` walks the RUNNING runs of a database. It leaves a run with a live
lease alone, and a new one that has no lease yet. Any other run it pauses: STARTED attempts become
UNKNOWN, the snapshot is restored from the journal and classified, and the lease is cleared.

The pass is one write transaction, and what it does to a run depends on that run's rows only.
-/

namespace EvernightAI

/-- `_mark_started_executions_unknown`: the attempts it returns. -/
def reconciledAttempts (attempts : List ToolExecutionAttempt) : List ToolExecutionAttempt :=
  attempts.map fun attempt =>
    if attempt.status = .started then { attempt with status := .unknown } else attempt

/-- The RUN_PAUSED event of a reconciliation. -/
def reconciledEvent (cause : AgentPauseCause) (source : String)
    (checkpoint : AgentRunRecoveryCheckpoint) : AgentTraceEvent where
  eventType := .runPaused
  metadata := [("reason", .str cause.source), ("source", .str source),
    ("checkpoint", .str checkpoint.name), ("recovery_eligible", .bool checkpoint.eligible)]

/-- The snapshot paused at a checkpoint. -/
def AgentRunState.pausedAt (state : AgentRunState) (cause : AgentPauseCause)
    (checkpoint : AgentRunRecoveryCheckpoint) : AgentRunState :=
  { state with
    status := .paused
    stopReason := none
    pause := some { cause, checkpoint := checkpoint.name, resumable := checkpoint.eligible } }

/-- The snapshot with an event that was persisted under this sequence. -/
def AgentRunState.withEvent (state : AgentRunState) (event : AgentTraceEvent) (sequence : Nat) :
    AgentRunState :=
  { state with
    trace := state.trace ++ [{ event with sequence := some sequence }]
    appliedTraceSequence := some sequence }

namespace RunRecord

/-- The attempts after `_mark_started_executions_unknown`. -/
def markStartedUnknown (record : RunRecord) : RunRecord :=
  { record with
    ledger := record.ledger.map fun ledger =>
      markStartedExecutionsUnknown ledger.listAttempts ledger }

/-- The checkpoint a reconciliation finds, and the snapshot restored up to it. -/
def inspectCheckpoint (record : RunRecord) (state : AgentRunState) :
    AgentRunRecoveryCheckpoint × AgentRunState :=
  inspectAgentRunCheckpoint record.journal
    (record.ledger.map fun ledger => reconciledAttempts ledger.listAttempts) state

/-- The record after its restored snapshot was classified: paused, unless the journal shows that the
run had stopped. -/
def pauseRestored (record : RunRecord) (cause : AgentPauseCause) (source : String)
    (checkpoint : AgentRunRecoveryCheckpoint) (state : AgentRunState) : RunRecord :=
  if state.status = .running then
    let event := reconciledEvent cause source checkpoint
    { record.appendEvent event with
      state := (state.pausedAt cause checkpoint).withEvent event record.nextSequence }
  else { record with state }

/-- Recovery leaves the run alone: its lease is live, or it is new and has none yet. -/
def spared (record : RunRecord) (now : Instant) (grace : Int) : Bool :=
  record.leaseActive now || (record.leaseOwner = none &&
    record.queriedState.history.startedAt.any fun startedAt => now - startedAt < grace)

/-- The body of the loop of `_recover_interrupted_agent_runs`. -/
def recover (now : Instant) (grace : Int) (record : RunRecord) : RunRecord :=
  if record.spared now grace then record
  else
    let cause : AgentPauseCause :=
      if record.leaseOwner.isSome then .leaseExpired else .uncleanShutdown
    let (checkpoint, state) := record.inspectCheckpoint record.queriedState
    let recovered :=
      record.markStartedUnknown.pauseRestored cause "startup_recovery" checkpoint state
    if record.leaseOwner.isSome then recovered.withoutLease else recovered

end RunRecord

/-! ### What a restoration keeps -/

theorem restoreEvent_eq_ok {event : AgentTraceEvent} {state state' : AgentRunState}
    (h : restoreEvent event state = .ok state') : state'.runId = state.runId := by
  unfold restoreEvent at h
  split at h <;> (try split at h) <;> cases h <;> rfl

@[simp] theorem runId_advanceTo (state : AgentRunState) (event : AgentTraceEvent) :
    (state.advanceTo event).runId = state.runId := by
  unfold AgentRunState.advanceTo
  split <;> rfl

theorem runId_restoreEvents (applied : List Nat) (tail : List AgentTraceEvent)
    (state : AgentRunState) : (restoreEvents applied tail state).1.runId = state.runId := by
  fun_induction restoreEvents applied tail state with
  | case1 => rfl
  | case2 _ _ _ _ _ ih => rw [ih, runId_advanceTo]
  | case3 => rfl
  | case4 _ _ _ _ _ _ hok state ih =>
    rw [ih, ← restoreEvent_eq_ok hok]
    split <;> exact runId_advanceTo ..

theorem runId_inspectAgentRunCheckpoint (events : List AgentTraceEvent)
    (toolExecutions : Option (List ToolExecutionAttempt)) (state : AgentRunState) :
    (inspectAgentRunCheckpoint events toolExecutions state).2.runId = state.runId := by
  have hrestore : (restoreCheckpointData events state).1.runId = state.runId := by
    unfold restoreCheckpointData
    split
    · rfl
    · next tail _ =>
      have hevents := runId_restoreEvents (state.steps.filterMap (·.traceEventId)) tail state
      split <;> (next hpair => rw [hpair] at hevents; exact hevents)
  unfold inspectAgentRunCheckpoint
  split <;> (next hpair => rw [hpair] at hrestore; exact hrestore)

namespace RunRecord

@[simp] theorem runId_queriedState (record : RunRecord) :
    record.queriedState.runId = record.runId := by
  unfold queriedState
  split <;> rfl

theorem runId_pauseRestored (record : RunRecord) (cause : AgentPauseCause) (source : String)
    (checkpoint : AgentRunRecoveryCheckpoint) (state : AgentRunState) :
    (record.pauseRestored cause source checkpoint state).runId = state.runId := by
  unfold pauseRestored
  split <;> rfl

theorem runId_recover (now : Instant) (grace : Int) (record : RunRecord) :
    (record.recover now grace).runId = record.runId := by
  have hstate : (record.inspectCheckpoint record.queriedState).2.runId = record.runId :=
    (runId_inspectAgentRunCheckpoint _ _ _).trans record.runId_queriedState
  unfold recover
  split
  · rfl
  · split
    · exact (runId_pauseRestored ..).trans hstate
    · exact (runId_pauseRestored ..).trans hstate

/-- A run that recovery takes is not RUNNING afterwards. -/
theorem status_recover {now : Instant} {grace : Int} (record : RunRecord)
    (h : record.spared now grace = false) : (record.recover now grace).state.status ≠ .running := by
  have hpaused (record : RunRecord) (cause : AgentPauseCause) (source : String)
      (checkpoint : AgentRunRecoveryCheckpoint) (state : AgentRunState) :
      (record.pauseRestored cause source checkpoint state).state.status ≠ .running := by
    unfold pauseRestored
    split
    · exact (by decide : AgentRunStatus.paused ≠ .running)
    · next hstatus => exact hstatus
  unfold recover
  rw [if_neg (by simp [h])]
  split
  · exact hpaused _ _ _ _ _
  · exact hpaused _ _ _ _ _

end RunRecord

/-- `recover_interrupted_agent_runs` over the RUNNING runs. -/
def recoverInterruptedAgentRuns (now : Instant) (grace : Int) (db : AgentDatabase) :
    AgentDatabase :=
  db.map (fun record => if record.state.status = .running then record.recover now grace else record)
    fun record => by
      split
      · exact record.runId_recover now grace
      · rfl

/-- Recovery, seen from one run. -/
theorem find?_recoverInterruptedAgentRuns (now : Instant) (grace : Int) (db : AgentDatabase)
    (runId : String) : (recoverInterruptedAgentRuns now grace db).find? runId =
      (db.find? runId).map fun record =>
        if record.state.status = .running then record.recover now grace else record :=
  Table.find?_map _ _ _ _

end EvernightAI
