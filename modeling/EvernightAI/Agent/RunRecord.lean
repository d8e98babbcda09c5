import EvernightAI.Agent.Checkpoint
import EvernightAI.Schema.Auth
import EvernightAI.Schema.Resource

/-!
# What the database holds of a run

Three tables have rows of a run: its snapshot with the lease of its executor
(`agent_run_states`), its journal (`agent_trace_events`) and its attempts
(`agent_tool_executions`). Every statement names one run, so the rows of a run make one
`RunRecord`, and the database is a table of those. A statement that raises is rolled back.

* A lease is taken with a new *generation*; what its owner does to the row afterwards names owner
  and generation, and is refused when the row names others.
* `saveState` is fenced in that way exactly when the executor saves the run it holds a lease of.
  Every other save replaces the snapshot, and leaves the lease columns alone.
-/

namespace EvernightAI

/-- The rows of one run. The columns `status`, `context_id` and `owner_id` are written with the
snapshot, from it. `ledger` is `none` where no ledger is configured. -/
structure RunRecord where
  state : AgentRunState
  createdAt : Instant := 0
  leaseOwner : Option String := none
  leaseExpiresAt : Option Instant := none
  heartbeatAt : Option Instant := none
  leaseGeneration : Nat := 0
  journal : List AgentTraceEvent := []
  ledger : Option Ledger := some ∅

def RunRecord.runId (record : RunRecord) : String := record.state.runId

abbrev AgentDatabase := Table RunRecord.runId

/-- `AgentRunLease` -/
structure AgentRunLease where
  owner : String
  expiresAt : Option Instant
  heartbeatAt : Option Instant
  generation : Nat
  deriving DecidableEq, Repr

/-- `HeldAgentRunLease`: the lease the current operation runs under. -/
structure HeldAgentRunLease where
  runId : String
  owner : String
  generation : Nat
  deriving DecidableEq, Repr

private def runNotFound (runId : String) : Error where
  errorType := .agentStateError
  message := "The agent run state " ++ runId ++ " is not found"

namespace RunRecord

variable (record : RunRecord)

/-- `_scope_sql`: the run belongs to the scope. -/
def inScope (scope : Option PrincipalScope) : Bool := scopePermits scope record.state.ownerId

/-- The lease is held by this owner under this generation. -/
def heldBy (owner : String) (generation : Nat) : Bool :=
  record.leaseOwner = some owner && record.leaseGeneration = generation

/-- The lease can be taken: it is free, expired, or the owner's already. -/
def leaseAvailable (owner : String) (now : Instant) : Bool :=
  record.leaseOwner = none || record.leaseExpiresAt.any (· ≤ now) || record.leaseOwner = some owner

/-- `_active_lease_expiry` is a time: the lease is held and has not expired. -/
def leaseActive (now : Instant) : Bool :=
  record.leaseOwner.isSome && record.leaseExpiresAt.any (now < ·)

def withoutLease : RunRecord :=
  { record with leaseOwner := none, leaseExpiresAt := none, heartbeatAt := none }

/-- `append_event`: the sequence the event gets. -/
def nextSequence : Nat := (record.journal.filterMap (·.sequence)).foldl max 0 + 1

/-- `append_event` -/
def appendEvent (event : AgentTraceEvent) : RunRecord :=
  { record with
    journal := record.journal ++ [{ event with sequence := some record.nextSequence }] }

/-- The snapshot as `query_states` reads it: a legacy one takes the row's creation time for its
start. -/
def queriedState : AgentRunState :=
  match record.state.history.startedAt with
  | some _ => record.state
  | none => { record.state with
      history := { record.state.history with startedAt := some record.createdAt } }

end RunRecord

namespace AgentDatabase

variable (db : AgentDatabase)

/-- `UPDATE … WHERE run_id = ? AND …`; `none` when it matches no row. -/
def updateWhere (runId : String) (clause : RunRecord → Bool) (set : RunRecord → RunRecord) :
    Option AgentDatabase :=
  match db.find? runId with
  | some record => if clause record then some (db.upsert (set record)) else none
  | none => none

/-- `create_state` -/
def createState (now : Instant) (state : AgentRunState) (scope : Option PrincipalScope := none) :
    Except Error AgentDatabase :=
  if scopePermits scope state.ownerId then
    match db.find? state.runId with
    | some _ => .error {
        errorType := .agentStateError
        message := "The agent run state " ++ state.runId ++ " already exists" }
    | none => .ok (db.upsert { state, createdAt := now })
  else .error {
    errorType := .agentStateError
    message := "The agent run state " ++ state.runId ++ " is not available in this scope" }

/-- `INSERT … ON CONFLICT(run_id) DO UPDATE` of a snapshot. -/
def putState (now : Instant) (state : AgentRunState) : AgentDatabase :=
  match db.find? state.runId with
  | some record => db.upsert { record with state }
  | none => db.upsert { state, createdAt := now }

/-- `save_state` under the lease of the current operation, if it has one. -/
def saveState (now : Instant) (lease : Option HeldAgentRunLease) (state : AgentRunState)
    (scope : Option PrincipalScope := none) : Except Error AgentDatabase :=
  if scopePermits scope state.ownerId then
    match lease.filter (·.runId = state.runId) with
    | some lease =>
      match db.updateWhere state.runId (·.heldBy lease.owner lease.generation)
        ({ · with state }) with
      | some db => .ok db
      | none => .error {
          errorType := .agentStateError
          message := "The agent run " ++ state.runId ++ " lost its execution lease" }
    | none => .ok (db.putState now state)
  else .error {
    errorType := .agentStateError
    message := "The agent run state " ++ state.runId ++ " is not available in this scope" }

/-- The run `_scoped_identity` selects. -/
def scopedRecord (runId : String) (scope : Option PrincipalScope) : Option RunRecord :=
  (db.find? runId).filter (·.inScope scope)

def getState (runId : String) (scope : Option PrincipalScope := none) :
    Except Error AgentRunState :=
  match db.scopedRecord runId scope with
  | some record => .ok record.state
  | none => .error (runNotFound runId)

/-- `acquire_lease` -/
def acquireLease (now : Instant) (runId leaseOwner : String) (ttl : Int)
    (scope : Option PrincipalScope := none) : Except Error (Nat × AgentDatabase) :=
  match db.updateWhere runId
    (fun record => record.leaseAvailable leaseOwner now && record.inScope scope)
    (fun record => { record with
      leaseOwner := some leaseOwner
      leaseExpiresAt := some (now + ttl)
      heartbeatAt := some now
      leaseGeneration := record.leaseGeneration + 1 }) with
  | none =>
    match db.scopedRecord runId scope with
    | none => .error (runNotFound runId)
    | some _ => .error {
        errorType := .agentStateError, message := "The agent run " ++ runId ++ " lease is held" }
  | some db =>
    match db.find? runId with
    | some record => .ok (record.leaseGeneration, db)
    | none => .error {
        errorType := .agentStateError
        message := "The agent run " ++ runId ++ " lease generation is unavailable" }

/-- `heartbeat_lease`: whether the lease was renewed. -/
def heartbeatLease (now : Instant) (runId leaseOwner : String) (generation : Nat) (ttl : Int)
    (scope : Option PrincipalScope := none) : Bool × AgentDatabase :=
  match db.updateWhere runId
    (fun record => record.heldBy leaseOwner generation && record.inScope scope)
    ({ · with heartbeatAt := some now, leaseExpiresAt := some (now + ttl) }) with
  | some db => (true, db)
  | none => (false, db)

/-- `release_lease` -/
def releaseLease (runId leaseOwner : String) (generation : Nat)
    (scope : Option PrincipalScope := none) : AgentDatabase :=
  (db.updateWhere runId (fun record => record.heldBy leaseOwner generation && record.inScope scope)
    RunRecord.withoutLease).getD db

/-- `clear_execution_lease` -/
def clearExecutionLease (runId : String) (scope : Option PrincipalScope := none) :
    Except Error AgentDatabase :=
  match db.updateWhere runId (·.inScope scope) RunRecord.withoutLease with
  | some db => .ok db
  | none => .error (runNotFound runId)

/-- `get_execution_lease` -/
def getExecutionLease (runId : String) (scope : Option PrincipalScope := none) :
    Except Error (Option AgentRunLease) :=
  match db.scopedRecord runId scope with
  | none => .error (runNotFound runId)
  | some record => .ok (record.leaseOwner.map fun owner => {
      owner
      expiresAt := record.leaseExpiresAt
      heartbeatAt := record.heartbeatAt
      generation := record.leaseGeneration })

/-- `append_event` in the journal of a run: the sequence the event got. -/
def appendEvent (runId : String) (event : AgentTraceEvent) : AgentDatabase × Nat :=
  match db.find? runId with
  | some record => (db.upsert (record.appendEvent event), record.nextSequence)
  | none => (db, 1)

/-- A write to the attempts of a run. -/
def updateLedger (runId : String) (write : Ledger → Except Error Ledger) :
    Except Error AgentDatabase :=
  match db.find? runId with
  | none => .error (runNotFound runId)
  | some record =>
    match record.ledger with
    | none => .ok db
    | some ledger => (write ledger).map fun ledger => db.upsert { record with ledger := some ledger }

/-- `create_attempt` -/
def createAttempt (runId : String) (attempt : ToolExecutionAttempt) : Except Error AgentDatabase :=
  db.updateLedger runId (·.createAttempt attempt)

/-- `save_attempt` -/
def saveAttempt (runId : String) (attempt : ToolExecutionAttempt) : Except Error AgentDatabase :=
  db.updateLedger runId (·.saveAttempt attempt)

/-! ### What a statement does to a run -/

variable {db} {db' : AgentDatabase} {runId : String} {clause : RunRecord → Bool}
  {set : RunRecord → RunRecord}

/-- An update that keeps run ids changes the one run it names. -/
theorem updateWhere_eq_some (h : db.updateWhere runId clause set = some db')
    (hset : ∀ record : RunRecord, record.runId = runId → (set record).runId = runId) :
    ∃ record, db.find? runId = some record ∧ clause record = true ∧
      db'.find? runId = some (set record) ∧
      ∀ other ≠ runId, db'.find? other = db.find? other := by
  unfold updateWhere at h
  split at h
  · next record hrecord =>
    split at h
    · next hclause =>
      cases h
      have hkey : (set record).runId = runId := hset record (Table.find?_eq_some.mp hrecord).2
      refine ⟨record, hrecord, hclause, ?_, fun other hne => ?_⟩
      · have hself := Table.find?_upsert_self db (set record)
        rwa [hkey] at hself
      · exact Table.find?_upsert_of_ne _ (by rwa [hkey])
    · cases h
  · cases h

theorem updateWhere_eq_none :
    db.updateWhere runId clause set = none ↔
      ∀ record, db.find? runId = some record → clause record = false := by
  unfold updateWhere
  cases db.find? runId with
  | none => simp
  | some record => simp

/-- A snapshot replaced in place keeps everything else of its run. -/
theorem find?_putState_of_some {record : RunRecord} (now : Instant) {state : AgentRunState}
    (h : db.find? state.runId = some record) :
    (db.putState now state).find? state.runId = some { record with state } := by
  rw [putState, h]
  exact Table.find?_upsert_self db { record with state }

theorem find?_putState_of_none (now : Instant) {state : AgentRunState}
    (h : db.find? state.runId = none) :
    (db.putState now state).find? state.runId = some { state, createdAt := now } := by
  rw [putState, h]
  exact Table.find?_upsert_self db { state, createdAt := now }

theorem find?_putState_of_ne (now : Instant) {state : AgentRunState} (h : runId ≠ state.runId) :
    (db.putState now state).find? runId = db.find? runId := by
  unfold putState
  cases db.find? state.runId with
  | none => exact Table.find?_upsert_of_ne _ h
  | some record => exact Table.find?_upsert_of_ne _ h

theorem find?_appendEvent (event : AgentTraceEvent) :
    (db.appendEvent runId event).1.find? runId = (db.find? runId).map (·.appendEvent event) := by
  unfold appendEvent
  cases hrecord : db.find? runId with
  | none => simpa using hrecord
  | some record =>
    have hkey : (record.appendEvent event).runId = runId := (Table.find?_eq_some.mp hrecord).2
    have hself := Table.find?_upsert_self db (record.appendEvent event)
    rwa [hkey] at hself

theorem find?_appendEvent_of_ne {other : String} (event : AgentTraceEvent) (h : other ≠ runId) :
    (db.appendEvent runId event).1.find? other = db.find? other := by
  unfold appendEvent
  cases hrecord : db.find? runId with
  | none => rfl
  | some record =>
    have hkey : (record.appendEvent event).runId = runId := (Table.find?_eq_some.mp hrecord).2
    exact Table.find?_upsert_of_ne _ (by rwa [hkey])

theorem find?_updateLedger_of_ne {other : String} {write : Ledger → Except Error Ledger}
    (hok : db.updateLedger runId write = .ok db') (h : other ≠ runId) :
    db'.find? other = db.find? other := by
  unfold updateLedger at hok
  split at hok
  · cases hok
  next record hrecord =>
  split at hok
  · cases hok
    rfl
  next ledger _ =>
  have hkey : record.runId = runId := (Table.find?_eq_some.mp hrecord).2
  cases hwrite : write ledger with
  | error e =>
    rw [hwrite] at hok
    cases hok
  | ok ledger' =>
    rw [hwrite] at hok
    cases hok
    refine Table.find?_upsert_of_ne _ ?_
    rwa [show RunRecord.runId { record with ledger := some ledger' } = runId from hkey]

/-- What saving an attempt does to the ledger of its run. -/
theorem saveAttempt_eq_ok {attempt : ToolExecutionAttempt}
    (hok : db.saveAttempt runId attempt = .ok db') :
    ∃ record, db.find? runId = some record ∧
      (record.ledger = none ∧ db' = db ∨ ∃ ledger, record.ledger = some ledger ∧
        (∃ row ∈ ledger, row.key = attempt.key) ∧
        db'.find? runId = some { record with ledger := some (ledger.upsert attempt) }) := by
  unfold saveAttempt updateLedger at hok
  split at hok
  · cases hok
  next record hrecord =>
  refine ⟨record, hrecord, ?_⟩
  split at hok
  · next hledger =>
    cases hok
    exact Or.inl ⟨hledger, rfl⟩
  next ledger hledger =>
  cases hsave : ledger.saveAttempt attempt with
  | error e =>
    simp only [hsave] at hok
    cases hok
  | ok ledger' =>
    simp only [hsave] at hok
    cases hok
    obtain ⟨rfl, hrow⟩ := Ledger.saveAttempt_eq_ok hsave
    have hkey : record.runId = runId := (Table.find?_eq_some.mp hrecord).2
    refine Or.inr ⟨ledger, hledger, hrow, ?_⟩
    have hself := Table.find?_upsert_self db { record with ledger := some (ledger.upsert attempt) }
    rwa [show RunRecord.runId { record with ledger := some (ledger.upsert attempt) } = runId
      from hkey] at hself

end AgentDatabase

end EvernightAI
