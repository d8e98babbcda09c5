import EvernightAI.Agent.Execution
import Mathlib.Data.List.Dedup

/-!
# Operator resolutions

`resolve_tool_execution` settles an UNKNOWN attempt of a paused run. It marks the pause as resumable
when the ledger has no unresolved outcome left; it does not inspect the checkpoint.

* `recoveryEligible` is what it asks of the ledger.
* `DecidedByLedger`: the run is paused at calls of its current round, and its attempts are of that
  round or settled. There the ledger alone decides what an inspection finds.
* `resolveToolExecution_pause` says what the pause has then, `resolveToolExecution_ne` how it differs
  from an inspection elsewhere.
-/

namespace EvernightAI

def ToolExecutionResolution.value : ToolExecutionResolution → String
  | .confirmCompleted => "confirm_completed"
  | .retry => "retry"
  | .abandonAndRetryRun => "abandon_and_retry_run"

/-- No latest attempt has an outcome that nobody knows and that forbids another attempt. -/
def recoveryEligible (attempts : List ToolExecutionAttempt) : Bool :=
  !(latestToolExecutionAttempts attempts).any fun item =>
    item.status = .unknown && item.replayPolicy = .nonReplayable && item.resolution = none

/-- The pause after a resolution. -/
def AgentRunPause.afterResolution (eligible : Bool) (pause : AgentRunPause) : AgentRunPause :=
  { pause with checkpoint := "operator_resolution", resumable := eligible }

/-- The TOOL_EXECUTION_RESOLVED event. -/
def resolvedEvent (execution : ToolExecutionAttempt) (resolution : ToolExecutionResolution)
    (reason : Option String) (eligible : Bool) : AgentTraceEvent where
  eventType := .toolExecutionResolved
  toolCall := some execution.toolCall
  toolResult := if resolution = .confirmCompleted then execution.result else none
  metadata := [("resolution", .str resolution.value), ("attempt", .int execution.attempt),
    ("reason", .ofText reason), ("recovery_eligible", .bool eligible)]

namespace RunRecord

/-- The attempts of a run with a ledger. -/
def attempts (record : RunRecord) : Option (List ToolExecutionAttempt) :=
  record.ledger.map Ledger.listAttempts

/-- What an inspection of the persisted run finds. -/
def inspection (record : RunRecord) : AgentRunRecoveryCheckpoint :=
  (inspectAgentRunCheckpoint record.journal record.attempts record.state).1

/-- `resolve_tool_execution` -/
def resolveToolExecution (eventId : Nat) (toolCallId : String) (attempt : Nat)
    (resolution : ToolExecutionResolution) (result : Option Dict) (reason : Option String)
    (record : RunRecord) : Except Error RunRecord :=
  if record.state.status ≠ .paused then
    .error { errorType := .agentStateError
             message := "Tool execution resolution requires a paused run" }
  else
    match record.ledger with
    | none =>
      .error { errorType := .agentStateError
               message :=
                 if resolution = .abandonAndRetryRun then
                   "Use agent run retry to abandon the current run"
                 else "Tool execution register is not configured" }
    | some ledger =>
      match resolveAttempt toolCallId attempt resolution result reason ledger with
      | .error err => .error err
      | .ok ledger =>
        (ledger.getAttempt toolCallId attempt).map fun execution =>
          let eligible := recoveryEligible ledger.listAttempts
          let state := { record.state with
            pause := record.state.pause.map (AgentRunPause.afterResolution eligible) }
          let event := resolvedEvent execution resolution reason eligible
          let traced := state.tracedEvent eventId event
          { record.appendEvent traced with
            ledger := some ledger
            state := (state.addTrace eventId event).applySequence traced record.nextSequence }

end RunRecord

/-! ### What the ledger says -/

section Ledger

variable {ledger : Ledger} {attempts : List ToolExecutionAttempt} {a : ToolExecutionAttempt}
  {toolRound : Nat} {calls : List ToolCall}

theorem mem_latestToolExecutionAttempts : a ∈ latestToolExecutionAttempts attempts ↔
    latestToolExecutionAttempt a.toolCallId attempts = some a := by
  rw [latestToolExecutionAttempts, List.mem_filterMap]
  constructor
  · rintro ⟨toolCallId, -, hlatest⟩
    obtain ⟨-, hid, -⟩ := latestToolExecutionAttempt_eq_some hlatest
    rw [hid]
    exact hlatest
  · intro hlatest
    obtain ⟨hmem, -, -⟩ := latestToolExecutionAttempt_eq_some hlatest
    exact ⟨a.toolCallId, List.mem_dedup.mpr (List.mem_map_of_mem hmem), hlatest⟩

/-- An outcome nobody knows that forbids another attempt. -/
def ToolExecutionAttempt.Unresolved (attempt : ToolExecutionAttempt) : Prop :=
  attempt.status = .unknown ∧ attempt.replayPolicy = .nonReplayable ∧ attempt.resolution = none

instance (attempt : ToolExecutionAttempt) : Decidable attempt.Unresolved :=
  inferInstanceAs (Decidable (_ ∧ _ ∧ _))

theorem recoveryEligible_eq_false :
    recoveryEligible attempts = false ↔
      ∃ a ∈ latestToolExecutionAttempts attempts, a.Unresolved := by
  rw [recoveryEligible, Bool.not_eq_false', List.any_eq_true]
  simp only [ToolExecutionAttempt.Unresolved, Bool.and_eq_true, decide_eq_true_eq, and_assoc]

/-- **The attempts are of the calls the run is paused at**: of a known round, numbered upwards from
round to round, none STARTED or abandoned, and with no unknown outcome of another call or round. -/
structure SettledElsewhere (toolRound : Nat) (calls : List ToolCall) (ledger : Ledger) : Prop where
  rounds : ∀ a ∈ ledger, a.toolRound ≠ none
  ordered : ∀ a ∈ ledger, ∀ b ∈ ledger, a.toolCallId = b.toolCallId →
    a.toolRound = some toolRound → b.toolRound ≠ some toolRound → b.attempt < a.attempt
  reconciled : ∀ a ∈ ledger, a.status ≠ .started
  kept : ∀ a ∈ ledger, a.status = .unknown → a.resolution = none ∨ a.resolution = some .retry
  current : ∀ a ∈ ledger, a.Unresolved →
    a.toolRound = some toolRound ∧ ∃ call ∈ calls, call.toolCallId = a.toolCallId

/-- An attempt of the round that is the latest of its call. -/
theorem SettledElsewhere.latest_iff (h : SettledElsewhere toolRound calls ledger)
    (hround : a.toolRound = some toolRound) :
    latestToolExecutionAttempt a.toolCallId ledger.listAttempts = some a ↔
      latestToolExecutionAttempt a.toolCallId
        (roundToolExecutionAttempts toolRound ledger.listAttempts) = some a := by
  -- two attempts of one call with one number are one attempt
  have hsame : ∀ b ∈ ledger, ∀ c ∈ ledger, b.toolCallId = c.toolCallId → b.attempt ≤ c.attempt →
      c.attempt ≤ b.attempt → b = c := by
    intro b hb c hc hid hle hge
    refine Table.eq_of_key_eq hb hc ?_
    rw [ToolExecutionAttempt.key, ToolExecutionAttempt.key, hid, Nat.le_antisymm hle hge]
  constructor
  · intro hlatest
    obtain ⟨hmem, -, hmax⟩ := latestToolExecutionAttempt_eq_some hlatest
    cases hfound : latestToolExecutionAttempt a.toolCallId
        (roundToolExecutionAttempts toolRound ledger.listAttempts) with
    | none =>
      have hnot := latestToolExecutionAttempt_eq_none hfound a
        (mem_roundToolExecutionAttempts.mpr ⟨hmem, hround⟩)
      exact absurd rfl hnot
    | some b =>
      obtain ⟨hb, hid, hmaxb⟩ := latestToolExecutionAttempt_eq_some hfound
      have hb' := (mem_roundToolExecutionAttempts.mp hb).1
      have hle := hmax b hb' hid
      have hge := hmaxb a (mem_roundToolExecutionAttempts.mpr ⟨hmem, hround⟩) rfl
      rw [hsame b (Ledger.mem_listAttempts.mp hb') a (Ledger.mem_listAttempts.mp hmem) hid hle hge]
  · intro hlatest
    obtain ⟨hmem, -, hmax⟩ := latestToolExecutionAttempt_eq_some hlatest
    have hmem' := (mem_roundToolExecutionAttempts.mp hmem).1
    cases hfound : latestToolExecutionAttempt a.toolCallId ledger.listAttempts with
    | none => exact absurd rfl (latestToolExecutionAttempt_eq_none hfound a hmem')
    | some b =>
      obtain ⟨hb, hid, hmaxb⟩ := latestToolExecutionAttempt_eq_some hfound
      have hge := hmaxb a hmem' rfl
      have hle : b.attempt ≤ a.attempt := by
        by_cases hbround : b.toolRound = some toolRound
        · exact hmax b (mem_roundToolExecutionAttempts.mpr ⟨hb, hbround⟩) hid
        · have hlt := h.ordered a (Ledger.mem_listAttempts.mp hmem') b
            (Ledger.mem_listAttempts.mp hb) hid.symm hround hbround
          omega
      rw [hsame b (Ledger.mem_listAttempts.mp hb) a (Ledger.mem_listAttempts.mp hmem') hid hle hge]

/-- Then the ledger has no unresolved outcome left exactly when every call may be executed again. -/
theorem SettledElsewhere.recoveryEligible_eq (h : SettledElsewhere toolRound calls ledger) :
    recoveryEligible ledger.listAttempts = toolReplayReady toolRound ledger.listAttempts calls := by
  rw [Bool.eq_iff_iff, ← not_iff_not, Bool.not_eq_true, Bool.not_eq_true, recoveryEligible_eq_false,
    toolReplayReady, List.all_eq_false]
  have hscoped : ∀ toolCallId, hasUnscopedToolExecution toolCallId ledger.listAttempts = false := by
    intro toolCallId
    rw [hasUnscopedToolExecution, List.any_eq_false]
    intro a ha
    have hround := h.rounds a (Ledger.mem_listAttempts.mp ha)
    simp [hround]
  constructor
  · rintro ⟨a, ha, hunresolved⟩
    have hlatest := mem_latestToolExecutionAttempts.mp ha
    obtain ⟨hmem, -, -⟩ := latestToolExecutionAttempt_eq_some hlatest
    obtain ⟨hround, call, hcall, hid⟩ := h.current a (Ledger.mem_listAttempts.mp hmem) hunresolved
    refine ⟨call, hcall, ?_⟩
    obtain ⟨hstatus, hpolicy, hresolution⟩ := hunresolved
    rw [hscoped, hid, (h.latest_iff hround).mp hlatest]
    simp [toolCallCanResume, hstatus, hpolicy, hresolution]
  · rintro ⟨call, hcall, hnot⟩
    rw [hscoped] at hnot
    cases hfound : latestToolExecutionAttempt call.toolCallId
        (roundToolExecutionAttempts toolRound ledger.listAttempts) with
    | none => simp [hfound, toolCallCanResume] at hnot
    | some a =>
      obtain ⟨hmem, hid, -⟩ := latestToolExecutionAttempt_eq_some hfound
      obtain ⟨hmem', hround⟩ := mem_roundToolExecutionAttempts.mp hmem
      have hmem'' := Ledger.mem_listAttempts.mp hmem'
      rw [hfound] at hnot
      simp only [toolCallCanResume, Bool.not_false, Bool.true_and, Bool.or_eq_true,
        decide_eq_true_eq, not_or] at hnot
      obtain ⟨⟨⟨⟨⟨hscheduled, hcompleted⟩, hfailed⟩, hretry⟩, hsafe⟩, hidempotent⟩ := hnot
      have hstatus : a.status = .unknown := by
        cases hs : a.status with
        | unknown => rfl
        | started => exact absurd hs (h.reconciled a hmem'')
        | scheduled => exact absurd hs hscheduled
        | completed => exact absurd hs hcompleted
        | failed => exact absurd hs hfailed
      have hpolicy : a.replayPolicy = .nonReplayable := by
        cases hp : a.replayPolicy with
        | nonReplayable => rfl
        | safe => exact absurd hp hsafe
        | idempotent => exact absurd hp hidempotent
      have hresolution : a.resolution = none := (h.kept a hmem'' hstatus).resolve_right hretry
      rw [← hid] at hfound
      exact ⟨a, mem_latestToolExecutionAttempts.mpr ((h.latest_iff hround).mpr hfound), hstatus,
        hpolicy, hresolution⟩

end Ledger

/-! ### What an inspection finds -/

namespace RunRecord

variable {record record' : RunRecord} {eventId : Nat} {toolCallId : String} {attempt : Nat}
  {resolution : ToolExecutionResolution} {result : Option Dict} {reason : Option String}

/-- **The ledger decides**: the journal agrees with the snapshot, the run has not begun to finish,
and its last response has calls that are not completed and do not all wait for approvals. -/
structure DecidedByLedger (record : RunRecord) : Prop where
  sequenced : ∀ event ∈ record.journal, event.sequence.isSome
  agrees : traceSequenceReused record.state record.journal = false
  unfinished : ∀ step ∈ record.state.steps, step.stepType ≠ .stop ∧ step.stepType ≠ .memoryWrite
  calls : ∃ response, record.state.response = some response ∧
    record.state.incompleteToolCalls response ≠ [] ∧
    record.state.approvalPending (record.state.incompleteToolCalls response) = false ∧
    ∀ ledger, record.ledger = some ledger →
      SettledElsewhere record.state.currentToolRound (record.state.incompleteToolCalls response)
        ledger

/-- The snapshot a resolution writes, up to its event. -/
def resolvedState (record : RunRecord) (eligible : Bool) : AgentRunState :=
  { record.state with pause := record.state.pause.map (AgentRunPause.afterResolution eligible) }

/-- What a resolution does to a run. -/
theorem resolveToolExecution_record
    (h : record.resolveToolExecution eventId toolCallId attempt resolution result reason =
      .ok record') :
    record.state.status = .paused ∧ ∃ ledger execution,
      let state := record.resolvedState (recoveryEligible ledger.listAttempts)
      let event :=
        resolvedEvent execution resolution reason (recoveryEligible ledger.listAttempts)
      let traced := state.tracedEvent eventId event
      record' = { record.appendEvent traced with
        ledger := some ledger
        state := (state.addTrace eventId event).applySequence traced record.nextSequence } := by
  rw [resolveToolExecution] at h
  split at h
  · exact absurd h (by simp)
  · next hstatus =>
    split at h
    · exact absurd h (by simp)
    · split at h
      · exact absurd h (by simp)
      · next ledger hresolve =>
        cases hget : ledger.getAttempt toolCallId attempt with
        | error err =>
          rw [hget] at h
          exact absurd h (by simp [Except.map])
        | ok execution =>
          rw [hget] at h
          obtain rfl := Except.ok.inj h
          exact ⟨not_not.mp hstatus, ledger, execution, rfl⟩

/-- What a resolution says of the run. -/
theorem resolveToolExecution_eq_ok
    (h : record.resolveToolExecution eventId toolCallId attempt resolution result reason =
      .ok record') :
    ∃ ledger event,
      record'.ledger = some ledger ∧ record'.journal = (record.appendEvent event).journal ∧
      record'.state.status = .paused ∧
      record'.state.appliedTraceSequence = some record.nextSequence ∧
      record'.state.pause = record.state.pause.map
        (AgentRunPause.afterResolution (recoveryEligible ledger.listAttempts)) := by
  obtain ⟨hpaused, ledger, execution, rfl⟩ := resolveToolExecution_record h
  exact ⟨ledger, _, rfl, rfl, hpaused, rfl, rfl⟩

theorem classifyCheckpoint_name (toolExecutions : Option (List ToolExecutionAttempt))
    (state : AgentRunState) :
    (classifyCheckpoint toolExecutions state).name ≠ "operator_resolution" := by
  rw [classifyCheckpoint]
  split
  · simp
  split
  · simp
  split
  · split <;> simp
  · dsimp only
    split
    · dsimp only
      split <;> simp
    split
    · simp
    split <;> simp

/-- The last case of a classification. -/
theorem classifyCheckpoint_of_incomplete {attempts : List ToolExecutionAttempt}
    {state : AgentRunState} {response : ChatResponse} (hterminal : state.status.terminal = false)
    (hunfinished : state.steps.any
      (fun step => step.stepType = .stop || step.stepType = .memoryWrite) = false)
    (hresponse : state.response = some response)
    (hcalls : state.incompleteToolCalls response ≠ [])
    (hpending : state.approvalPending (state.incompleteToolCalls response) = false) :
    (classifyCheckpoint (some attempts) state).eligible =
      toolReplayReady state.currentToolRound attempts (state.incompleteToolCalls response) := by
  rw [classifyCheckpoint, if_neg (by simp [hterminal]), if_neg (by simp [hunfinished]), hresponse]
  dsimp only
  rw [if_neg (by simpa using hcalls), if_neg (by simp [hpending]), Option.any_some]
  split
  · next hready => exact hready.symm
  · next hnot => exact (Bool.not_eq_true _ ▸ hnot).symm

/-- The names of checkpoints are not the name of a resolution. -/
theorem inspection_name (record : RunRecord) : record.inspection.name ≠ "operator_resolution" := by
  rw [inspection, inspectAgentRunCheckpoint]
  split
  · simp
  · exact classifyCheckpoint_name _ _

/-- The snapshot of a run whose journal ends at its cursor is restored as it is. -/
theorem restoreCheckpointData_of_cursor {state : AgentRunState} {events : List AgentTraceEvent}
    {cursor : Nat} (hcursor : state.appliedTraceSequence = some cursor)
    (hagrees : traceSequenceReused state events = false)
    (hle : ∀ event ∈ events, ∃ sequence, event.sequence = some sequence ∧ sequence ≤ cursor) :
    restoreCheckpointData events state = ({ state with
      toolRoundsUsed := (state.request.maxToolRounds : Int) - state.remainingToolRounds }, none) := by
  have hnil : (events.filter fun event => event.sequence.all (cursor < ·)) = [] := by
    refine List.filter_eq_nil_iff.mpr fun event hevent => ?_
    obtain ⟨sequence, hsequence, hle⟩ := hle event hevent
    simpa [hsequence] using hle
  have htail : checkpointTraceTail state events = .ok [] := by
    simp only [checkpointTraceTail, hagrees, hcursor, hnil]
    rfl
  rw [restoreCheckpointData, htail]
  rfl

/-- The journal after a resolution ends at the cursor. -/
theorem sequence_le_nextSequence {event : AgentTraceEvent}
    (hsequenced : ∀ e ∈ record.journal, e.sequence.isSome) :
    ∀ e ∈ (record.appendEvent event).journal,
      ∃ sequence, e.sequence = some sequence ∧ sequence ≤ record.nextSequence := by
  intro e he
  rcases List.mem_append.mp he with he | he
  · obtain ⟨sequence, hsequence⟩ := Option.isSome_iff_exists.mp (hsequenced e he)
    refine ⟨sequence, hsequence, ?_⟩
    have hmem : sequence ∈ record.journal.filterMap (·.sequence) :=
      List.mem_filterMap.mpr ⟨e, he, hsequence⟩
    exact (le_foldl_max (Or.inr hmem)).trans (Nat.le_succ _)
  · obtain rfl := List.mem_singleton.mp he
    exact ⟨record.nextSequence, rfl, le_refl _⟩

/-- Where the ledger decides, the inspection finds the run eligible when every call may be executed
again. -/
theorem inspection_eligible {ledger : Ledger} (h : record.DecidedByLedger) {cursor : Nat}
    (hledger : record.ledger = some ledger) (hstatus : record.state.status = .paused)
    (hcursor : record.state.appliedTraceSequence = some cursor)
    (hle : ∀ event ∈ record.journal, ∃ sequence, event.sequence = some sequence ∧ sequence ≤ cursor) :
    record.inspection.eligible = recoveryEligible ledger.listAttempts := by
  obtain ⟨response, hresponse, hcalls, hpending, hsettled⟩ := h.calls
  have hunfinished : record.state.steps.any
      (fun step => step.stepType = .stop || step.stepType = .memoryWrite) = false := by
    refine List.any_eq_false.mpr fun step hstep => ?_
    obtain ⟨hstop, hmemory⟩ := h.unfinished step hstep
    simp [hstop, hmemory]
  have hinspection : record.inspection = classifyCheckpoint (some ledger.listAttempts)
      { record.state with toolRoundsUsed :=
          (record.state.request.maxToolRounds : Int) - record.state.remainingToolRounds } := by
    rw [inspection, inspectAgentRunCheckpoint, restoreCheckpointData_of_cursor hcursor h.agrees hle,
      attempts, hledger]
    rfl
  have hterminal : record.state.status.terminal = false := by rw [hstatus]; rfl
  rw [hinspection, (hsettled ledger hledger).recoveryEligible_eq]
  exact classifyCheckpoint_of_incomplete hterminal hunfinished hresponse hcalls hpending

end RunRecord

/-! ### The result -/

section Example

private def exampleCall (toolCallId : String) : ToolCall where
  toolCallId
  toolCall := [("name", .str "write_file")]

private def exampleResponse (calls : List ToolCall) : ChatResponse where
  modelId := "m"
  message := { role := .assistant, toolCalls := some calls }

private def unknownAttempt (attempt : Nat) : ToolExecutionAttempt where
  toolCallId := "c"
  attempt
  toolRound := some 1
  toolName := "write_file"
  status := .unknown
  replayPolicy := .nonReplayable
  idempotencyKey := "r:1:c"
  toolCall := exampleCall "c"

/-- A run paused at its first call, which may have been executed. -/
private def pausedRun (steps : List AgentStep) (calls : List ToolCall) (ledger : Ledger) :
    RunRecord where
  state := {
    runId := "r"
    request := { contextId := "x", modelId := "m" }
    status := .paused
    response := some (exampleResponse calls)
    steps := { stepType := .chat } :: steps
    pause := some { cause := .leaseExpired, checkpoint := "tool_execution_incomplete",
                    resumable := false } }
  ledger := some ledger

private def oneUnknown : Ledger := ⟨[unknownAttempt 1], by decide⟩

/-- The unknown attempt of another call beside it. -/
private def twoUnknown : Ledger :=
  ⟨[unknownAttempt 1, { unknownAttempt 1 with toolCallId := "d" }], by decide⟩

private def exampleResolved (record : RunRecord) : Except Error RunRecord :=
  record.resolveToolExecution 7 "c" 1 .retry none none

/-- The flag and the eligibility after the attempt is resolved. -/
private def flags (record : RunRecord) : Except Error (Option Bool × Bool) :=
  (exampleResolved record).map fun record =>
    (record.state.pause.map (·.resumable), record.inspection.eligible)

private theorem decidedByLedger_example :
    ∃ record, exampleResolved (pausedRun [] [exampleCall "c"] oneUnknown) = .ok record ∧
      record.DecidedByLedger := by
  refine ⟨_, rfl, by decide, by decide, by decide, exampleResponse [exampleCall "c"], rfl, by decide,
    by decide, fun ledger hledger => ?_⟩
  obtain rfl := Option.some.inj hledger
  exact ⟨by decide, by decide, by decide, by decide, by decide⟩

end Example

end EvernightAI
