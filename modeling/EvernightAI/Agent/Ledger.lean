import EvernightAI.Agent.Schema
import EvernightAI.Lib.Table
import Mathlib.Data.List.Sort

/-!
# The attempt ledger

Every execution of a tool call by a run with a ledger is an *attempt*: it is stored as SCHEDULED,
saved as STARTED before the tool is invoked, and saved again with its outcome. After a crash the
ledger is what decides what may run again.

* `Ledger` is the `agent_tool_executions` table of one run, keyed by call id and attempt number.
* `prepareToolExecution` is the part of `_execute_tool_call` before the invocation: it answers
  from the latest attempt of the call in its round, or says which attempt to start.
* `markStartedExecutionsUnknown`, `resolveToolExecution` and `abandonUnrecoverableToolExecutions`
  are the other writers.
-/

namespace EvernightAI

/-- The key of an attempt within its run. -/
def ToolExecutionAttempt.key (attempt : ToolExecutionAttempt) : String × Nat :=
  (attempt.toolCallId, attempt.attempt)

/-- The attempts of one run. -/
abbrev Ledger := Table ToolExecutionAttempt.key

namespace Ledger

/-- `list_attempts`, ordered by call id and attempt number. -/
def listAttempts (ledger : Ledger) : List ToolExecutionAttempt :=
  ledger.rows.insertionSort fun a b =>
    a.toolCallId < b.toolCallId ∨ (a.toolCallId = b.toolCallId ∧ a.attempt ≤ b.attempt)

/-- `create_attempt`: the primary key rejects a second row. -/
def createAttempt (attempt : ToolExecutionAttempt) (ledger : Ledger) : Except Error Ledger :=
  match ledger.find? attempt.key with
  | some _ => .error {
      errorType := .agentStateError, message := "The tool execution attempt already exists" }
  | none => .ok (ledger.upsert attempt)

/-- `save_attempt`: replaces a row that exists, whatever it holds. -/
def saveAttempt (attempt : ToolExecutionAttempt) (ledger : Ledger) : Except Error Ledger :=
  match ledger.find? attempt.key with
  | some _ => .ok (ledger.upsert attempt)
  | none => .error {
      errorType := .agentStateError, message := "The tool execution attempt is not found" }

/-- `get_attempt` -/
def getAttempt (toolCallId : String) (attempt : Nat) (ledger : Ledger) :
    Except Error ToolExecutionAttempt :=
  match ledger.find? (toolCallId, attempt) with
  | some row => .ok row
  | none => .error {
      errorType := .agentStateError, message := "The tool execution attempt is not found" }

@[simp] theorem mem_listAttempts {ledger : Ledger} {attempt : ToolExecutionAttempt} :
    attempt ∈ ledger.listAttempts ↔ attempt ∈ ledger := List.mem_insertionSort _

theorem createAttempt_eq_ok {attempt : ToolExecutionAttempt} {ledger ledger' : Ledger}
    (h : ledger.createAttempt attempt = .ok ledger') :
    ledger' = ledger.upsert attempt ∧ ∀ row ∈ ledger, row.key ≠ attempt.key := by
  unfold createAttempt at h
  split at h
  · cases h
  · next hnone => exact ⟨(Except.ok.inj h).symm, Table.find?_eq_none.mp hnone⟩

theorem saveAttempt_eq_ok {attempt : ToolExecutionAttempt} {ledger ledger' : Ledger}
    (h : ledger.saveAttempt attempt = .ok ledger') :
    ledger' = ledger.upsert attempt ∧ ∃ row ∈ ledger, row.key = attempt.key := by
  unfold saveAttempt at h
  split at h
  · next row hrow => exact ⟨(Except.ok.inj h).symm, row, Table.find?_eq_some.mp hrow⟩
  · cases h

theorem saveAttempt_of_mem {attempt row : ToolExecutionAttempt} {ledger : Ledger}
    (hrow : row ∈ ledger) (hkey : row.key = attempt.key) :
    ledger.saveAttempt attempt = .ok (ledger.upsert attempt) := by
  simp only [saveAttempt, Table.find?_eq_some.mpr ⟨hrow, hkey⟩]

end Ledger

/-! ### Reading the history of a call -/

private def laterAttempt (toolCallId : String) (current : Option ToolExecutionAttempt)
    (attempt : ToolExecutionAttempt) : Option ToolExecutionAttempt :=
  if attempt.toolCallId = toolCallId ∧ current.all (·.attempt < attempt.attempt) then some attempt
  else current

/-- `_latest_tool_execution_attempts(attempts).get(toolCallId)` -/
def latestToolExecutionAttempt (toolCallId : String) (attempts : List ToolExecutionAttempt) :
    Option ToolExecutionAttempt :=
  attempts.foldl (laterAttempt toolCallId) none

/-- `_latest_tool_execution_attempts(attempts).values()`, in order of first appearance. -/
def latestToolExecutionAttempts (attempts : List ToolExecutionAttempt) :
    List ToolExecutionAttempt :=
  (attempts.map (·.toolCallId)).dedup.filterMap fun toolCallId =>
    latestToolExecutionAttempt toolCallId attempts

/-- `_round_tool_execution_attempts` -/
def roundToolExecutionAttempts (toolRound : Nat) (attempts : List ToolExecutionAttempt) :
    List ToolExecutionAttempt :=
  attempts.filter (·.toolRound = some toolRound)

/-- `_has_unscoped_tool_execution`: a legacy attempt whose round could not be backfilled may
belong to any round. -/
def hasUnscopedToolExecution (toolCallId : String) (attempts : List ToolExecutionAttempt) : Bool :=
  attempts.any fun attempt => attempt.toolRound = none && attempt.toolCallId = toolCallId

/-- `_next_tool_execution_attempt`: attempt numbers keep increasing across rounds that reuse a
tool_call_id. -/
def nextToolExecutionAttempt (toolCallId : String) (attempts : List ToolExecutionAttempt) : Nat :=
  ((attempts.filter (·.toolCallId = toolCallId)).map (·.attempt)).foldl max 0 + 1

/-- `_tool_call_can_resume` for the latest attempt of a call. -/
def toolCallCanResume : Option ToolExecutionAttempt → Bool
  | none => true
  | some attempt =>
    attempt.status = .scheduled || attempt.status = .completed || attempt.status = .failed ||
      attempt.resolution = some .retry ||
      attempt.replayPolicy = .safe || attempt.replayPolicy = .idempotent

private theorem foldl_laterAttempt {toolCallId : String} {attempts : List ToolExecutionAttempt}
    {start : Option ToolExecutionAttempt}
    (hstart : ∀ a, start = some a → a.toolCallId = toolCallId) :
    match attempts.foldl (laterAttempt toolCallId) start with
    | none => start = none ∧ ∀ b ∈ attempts, b.toolCallId ≠ toolCallId
    | some a => (start = some a ∨ a ∈ attempts) ∧ a.toolCallId = toolCallId ∧
        (∀ b, start = some b → b.attempt ≤ a.attempt) ∧
        ∀ b ∈ attempts, b.toolCallId = toolCallId → b.attempt ≤ a.attempt := by
  induction attempts generalizing start with
  | nil =>
    cases start with
    | none => simp
    | some a => simpa using hstart a rfl
  | cons x xs ih =>
    rw [List.foldl_cons]
    by_cases hx : x.toolCallId = toolCallId ∧ start.all (·.attempt < x.attempt)
    · rw [show laterAttempt toolCallId start x = some x from if_pos hx]
      have hxs := @ih (some x) fun a ha => Option.some.inj ha ▸ hx.1
      split at hxs
      · exact absurd hxs.1 (by simp)
      · obtain ⟨hmem, hid, hle, hall⟩ := hxs
        have hxa := hle x rfl
        refine ⟨Or.inr ?_, hid, fun b hb => ?_, fun b hb hbid => ?_⟩
        · rcases hmem with hmem | hmem
          · cases hmem; exact List.mem_cons_self ..
          · exact List.mem_cons_of_mem _ hmem
        · have hbx : b.attempt < x.attempt := by simpa [hb] using hx.2
          omega
        · rcases List.mem_cons.mp hb with rfl | hb
          · exact hxa
          · exact hall b hb hbid
    · rw [show laterAttempt toolCallId start x = start from if_neg hx]
      have hxs := ih hstart
      split at hxs
      · obtain ⟨rfl, hall⟩ := hxs
        refine ⟨rfl, fun b hb => ?_⟩
        rcases List.mem_cons.mp hb with rfl | hb
        · exact fun hid => hx ⟨hid, rfl⟩
        · exact hall b hb
      · obtain ⟨hmem, hid, hle, hall⟩ := hxs
        refine ⟨hmem.imp_right (List.mem_cons_of_mem _), hid, hle, fun b hb hbid => ?_⟩
        rcases List.mem_cons.mp hb with rfl | hb
        · -- `b` was passed over: some attempt seen before it is at least as high.
          cases hstart' : start with
          | none => rw [hstart'] at hx; exact absurd ⟨hbid, rfl⟩ hx
          | some c =>
            have hc := hle c hstart'
            have : ¬c.attempt < b.attempt := by simpa [hstart', hbid] using hx
            omega
        · exact hall b hb hbid

/-- No attempt is the latest of a call that has none. -/
theorem latestToolExecutionAttempt_eq_none {toolCallId : String}
    {attempts : List ToolExecutionAttempt}
    (h : latestToolExecutionAttempt toolCallId attempts = none) :
    ∀ b ∈ attempts, b.toolCallId ≠ toolCallId := by
  have hfold := @foldl_laterAttempt toolCallId attempts none (by simp)
  rw [show attempts.foldl (laterAttempt toolCallId) none = none from h] at hfold
  exact hfold.2

/-- The latest attempt of a call has the highest number among its attempts. -/
theorem latestToolExecutionAttempt_eq_some {toolCallId : String}
    {attempts : List ToolExecutionAttempt} {a : ToolExecutionAttempt}
    (h : latestToolExecutionAttempt toolCallId attempts = some a) :
    a ∈ attempts ∧ a.toolCallId = toolCallId ∧
      ∀ b ∈ attempts, b.toolCallId = toolCallId → b.attempt ≤ a.attempt := by
  have hfold := @foldl_laterAttempt toolCallId attempts none (by simp)
  rw [show attempts.foldl (laterAttempt toolCallId) none = some a from h] at hfold
  obtain ⟨hmem, hid, -, hall⟩ := hfold
  exact ⟨by simpa using hmem, hid, hall⟩

/-- A new attempt is numbered above every attempt of its call. -/
theorem lt_nextToolExecutionAttempt {toolCallId : String} {attempts : List ToolExecutionAttempt}
    {b : ToolExecutionAttempt} (hb : b ∈ attempts) (hid : b.toolCallId = toolCallId) :
    b.attempt < nextToolExecutionAttempt toolCallId attempts := by
  have hmem : b.attempt ∈ (attempts.filter (·.toolCallId = toolCallId)).map (·.attempt) :=
    List.mem_map.mpr ⟨b, List.mem_filter.mpr ⟨hb, by simpa using hid⟩, rfl⟩
  exact Nat.lt_succ_of_le (le_foldl_max (Or.inr hmem))

@[simp] theorem mem_roundToolExecutionAttempts {toolRound : Nat}
    {attempts : List ToolExecutionAttempt} {a : ToolExecutionAttempt} :
    a ∈ roundToolExecutionAttempts toolRound attempts ↔
      a ∈ attempts ∧ a.toolRound = some toolRound := by
  simp only [roundToolExecutionAttempts, List.mem_filter, decide_eq_true_eq]

/-! ### Starting an attempt -/

/-- What `_execute_tool_call` does with a call before it invokes the tool: answer from the
ledger, or start an attempt — a new one (`created`) or one that was scheduled before a crash. -/
inductive PreparedExecution
  | reuse (result : ToolCallResult)
  | run (attempt : ToolExecutionAttempt) (created : Bool)
  deriving DecidableEq, Repr

/-- The call as it is stored and executed, with its idempotency key in the metadata. -/
def ToolCall.withIdempotencyKey (call : ToolCall) (idempotencyKey : String) : ToolCall :=
  { call with metadata := call.metadata.set "idempotency_key" (.str idempotencyKey) }

/-- A new attempt of the call, numbered above all others. -/
def prepareNewAttempt (toolRound : Nat) (tool? : String → Option ToolDefinition)
    (toolName : String) (call : ToolCall) (attempts : List ToolExecutionAttempt)
    (idempotencyKey : String) : Except Error PreparedExecution :=
  match tool? toolName with
  | none => .error {
      errorType := .toolNotFoundError, message := "The tool " ++ toolName ++ " is not found" }
  | some tool => .ok (.run {
      toolCallId := call.toolCallId
      attempt := nextToolExecutionAttempt call.toolCallId attempts
      toolRound
      toolName
      status := .scheduled
      replayPolicy := tool.replayPolicy
      idempotencyKey
      toolCall := call.withIdempotencyKey idempotencyKey } true)

/-- `_execute_tool_call` up to the first write; `tool?` looks a tool up in the register. -/
def prepareToolExecution (runId : String) (toolRound : Nat)
    (tool? : String → Option ToolDefinition) (toolName : String) (call : ToolCall)
    (attempts : List ToolExecutionAttempt) : Except Error PreparedExecution :=
  if hasUnscopedToolExecution call.toolCallId attempts then
    .error {
      errorType := .agentStateError
      message := "Tool execution has a legacy attempt with an unknown round" }
  else
    match latestToolExecutionAttempt call.toolCallId
      (roundToolExecutionAttempts toolRound attempts) with
    | none => prepareNewAttempt toolRound tool? toolName call attempts
        (runId ++ ":" ++ toString toolRound ++ ":" ++ call.toolCallId)
    | some attempt =>
      match attempt.status with
      | .completed =>
        match attempt.result with
        | none => .error {
            errorType := .agentStateError
            message := "Completed tool execution has no persisted result" }
        | some result => .ok (.reuse result)
      | .failed => .error {
          errorType := .toolExecutionError
          message := match attempt.errorMessage with
            | some message => if message = "" then "Persisted tool execution failed" else message
            | none => "Persisted tool execution failed" }
      | .scheduled =>
        match tool? toolName with
        | none => .error {
            errorType := .toolNotFoundError, message := "The tool " ++ toolName ++ " is not found" }
        | some _ => .ok (.run attempt false)
      | .started | .unknown =>
        if toolCallCanResume (some attempt) then
          prepareNewAttempt toolRound tool? toolName call attempts attempt.idempotencyKey
        else .error {
          errorType := .agentStateError
          message := "Tool execution outcome is unknown and requires operator resolution" }

/-- **What may be started**: the scheduled latest attempt of the call in its round, or a new attempt
after a latest one that can resume. -/
structure Startable (toolRound : Nat) (toolCallId : String) (attempts : List ToolExecutionAttempt)
    (attempt : ToolExecutionAttempt) (created : Bool) : Prop where
  ofCall : attempt.toolCallId = toolCallId
  ofRound : attempt.toolRound = some toolRound
  scheduled : attempt.status = .scheduled
  stored : created = false → attempt ∈ attempts ∧
    ∀ b ∈ attempts, b.toolCallId = toolCallId → b.toolRound = some toolRound →
      b.attempt ≤ attempt.attempt
  fresh : created = true → attempt.resolution = none ∧
    (∀ b ∈ attempts, b.toolCallId = toolCallId → b.attempt < attempt.attempt) ∧
    ∀ latest, latestToolExecutionAttempt toolCallId
        (roundToolExecutionAttempts toolRound attempts) = some latest →
      (latest.status = .started ∨ latest.status = .unknown) ∧ toolCallCanResume (some latest) = true

private theorem startable_of_prepareNewAttempt {toolRound : Nat}
    {tool? : String → Option ToolDefinition} {toolName idempotencyKey : String} {call : ToolCall}
    {attempts : List ToolExecutionAttempt} {attempt : ToolExecutionAttempt} {created : Bool}
    (hlatest : ∀ latest, latestToolExecutionAttempt call.toolCallId
        (roundToolExecutionAttempts toolRound attempts) = some latest →
      (latest.status = .started ∨ latest.status = .unknown) ∧ toolCallCanResume (some latest) = true)
    (h : prepareNewAttempt toolRound tool? toolName call attempts idempotencyKey =
      .ok (.run attempt created)) :
    Startable toolRound call.toolCallId attempts attempt created := by
  unfold prepareNewAttempt at h
  split at h
  · cases h
  · cases h
    exact ⟨rfl, rfl, rfl, fun hstored => absurd hstored (by decide),
      fun _ => ⟨rfl, fun _ => lt_nextToolExecutionAttempt, hlatest⟩⟩

theorem startable_of_prepareToolExecution {runId toolName : String} {toolRound : Nat}
    {tool? : String → Option ToolDefinition} {call : ToolCall}
    {attempts : List ToolExecutionAttempt} {attempt : ToolExecutionAttempt} {created : Bool}
    (h : prepareToolExecution runId toolRound tool? toolName call attempts =
      .ok (.run attempt created)) :
    Startable toolRound call.toolCallId attempts attempt created := by
  unfold prepareToolExecution at h
  split at h
  · cases h
  split at h
  · next hnone =>
    exact startable_of_prepareNewAttempt (fun latest hsome => by simp [hnone] at hsome) h
  · next found hfound =>
    split at h
    · split at h <;> cases h
    · cases h
    · next hstatus =>
      split at h
      · cases h
      · cases h
        obtain ⟨hmem, hid, hmax⟩ := latestToolExecutionAttempt_eq_some hfound
        obtain ⟨hmem, hround⟩ := mem_roundToolExecutionAttempts.mp hmem
        exact ⟨hid, hround, hstatus,
          fun _ => ⟨hmem, fun b hb hbid hbround =>
            hmax b (mem_roundToolExecutionAttempts.mpr ⟨hb, hbround⟩) hbid⟩,
          fun hcreated => absurd hcreated (by decide)⟩
    all_goals
      next hstatus =>
      split at h
      · next hresume =>
        refine startable_of_prepareNewAttempt (fun latest hsome => ?_) h
        obtain rfl := Option.some.inj (hfound.symm.trans hsome)
        exact ⟨by simp [hstatus], hresume⟩
      · cases h

/-- The attempt as it is saved right before the tool is invoked. -/
def ToolExecutionAttempt.start (attempt : ToolExecutionAttempt) (call : ToolCall) :
    ToolExecutionAttempt :=
  { attempt with
    status := .started
    toolCall := call.withIdempotencyKey attempt.idempotencyKey }

/-- How an invocation of a tool ends, when it ends with an outcome to record. -/
inductive ToolOutcome
  | returned (result : ToolCallResult)
  | raised (error : Error)
  deriving DecidableEq, Repr

/-- The attempt with the outcome of its invocation: a copy of the attempt **as it was started**. -/
def ToolExecutionAttempt.finish (attempt : ToolExecutionAttempt) :
    ToolOutcome → ToolExecutionAttempt
  | .returned result => { attempt with status := .completed, result := some result }
  | .raised error => { attempt with
      status := .failed
      errorType := some error.errorType
      errorMessage := some error.message }

/-! ### The other writers -/

/-- `_mark_started_executions_unknown` over the first `count` attempts listed (all of them when
nothing interrupts it). -/
def markStartedExecutionsUnknown (attempts : List ToolExecutionAttempt) (ledger : Ledger) :
    Ledger :=
  attempts.foldl (fun ledger attempt =>
    if attempt.status = .started then ledger.upsert { attempt with status := .unknown }
    else ledger) ledger

/-- The attempt after the operator's resolution. -/
def ToolExecutionAttempt.resolve (attempt : ToolExecutionAttempt)
    (resolution : ToolExecutionResolution) (result : Option Dict) (reason : Option String) :
    ToolExecutionAttempt :=
  let resolved := { attempt with resolution := some resolution, resolutionReason := reason }
  match resolution with
  | .confirmCompleted => { resolved with
      status := .completed
      result := some {
        toolCallId := attempt.toolCallId
        toolCallResult := match result with
          | some result => if result = [] then [("status", .str "confirmed_completed")] else result
          | none => [("status", .str "confirmed_completed")]
        metadata := [("operator_confirmed", .bool true)] } }
  | _ => resolved

/-- The ledger write of `resolve_tool_execution`, which requires an unresolved UNKNOWN attempt —
of any number. -/
def resolveAttempt (toolCallId : String) (attempt : Nat) (resolution : ToolExecutionResolution)
    (result : Option Dict) (reason : Option String) (ledger : Ledger) : Except Error Ledger :=
  if resolution = .abandonAndRetryRun then
    .error { errorType := .agentStateError
             message := "Use agent run retry to abandon the current run" }
  else
    match ledger.getAttempt toolCallId attempt with
    | .error e => .error e
    | .ok execution =>
      if execution.status ≠ .unknown then
        .error { errorType := .agentStateError
                 message := "Only unknown tool executions can be resolved" }
      else if execution.resolution ≠ none then
        .error { errorType := .agentStateError
                 message := "The tool execution is already resolved" }
      else ledger.saveAttempt (execution.resolve resolution result reason)

/-- `_should_abandon_for_retry` -/
def shouldAbandonForRetry (execution : ToolExecutionAttempt) : Bool :=
  execution.status = .unknown && execution.replayPolicy = .nonReplayable &&
    execution.resolution = none

/-- The ledger writes of `_abandon_unrecoverable_tool_executions`, over the given latest
attempts. -/
def abandonUnrecoverableToolExecutions (latest : List ToolExecutionAttempt) (ledger : Ledger) :
    Ledger :=
  latest.foldl (fun ledger execution =>
    if shouldAbandonForRetry execution then
      ledger.upsert { execution with
        resolution := some .abandonAndRetryRun, resolutionReason := some "run_retried" }
    else ledger) ledger

end EvernightAI
