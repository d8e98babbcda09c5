import EvernightAI.Agent.Lease

/-!
# Reconciliation beside live executors

A process that shuts down waits for its own runs and then walks *all* RUNNING runs of the database
(`_pause_running_states`), statement by statement: it lists the runs, and for each of them reads
the journal and the attempts, marks STARTED attempts UNKNOWN, appends a RUN_PAUSED event and saves
the restored snapshot. `ShutdownPass` is such a walk under way. Unlike startup recovery it asks no
lease and is no transaction, and its saves carry no lease either.

`Reconciling` interleaves any number of such passes, statement by statement, with startup recovery
and with the calls of executors. What a reconciliation leaves alone is `LeftAlone`:

* startup recovery leaves every run with a live lease alone (`leftAlone_recover`);
* a shutdown pass leaves them alone **when it does not come to such a run** (`ComesToNoLiveRun`);
  it has no guard that would keep it from one.
-/

namespace EvernightAI

open TransitionSystem

/-- Where a shutdown pass is within a run. -/
inductive ShutdownWork
  | readAttempts (state : AgentRunState) (events : List AgentTraceEvent)
  | mark (state : AgentRunState) (events : List AgentTraceEvent)
      (attempts : Option (List ToolExecutionAttempt)) (pending : List ToolExecutionAttempt)
  | pause (state : AgentRunState) (checkpoint : AgentRunRecoveryCheckpoint)
  | save (state : AgentRunState)

namespace ShutdownWork

/-- The snapshot the pass works on. -/
def state : ShutdownWork → AgentRunState
  | readAttempts state _ | mark state _ _ _ | pause state _ | save state => state

/-- The next statement changes what the database holds of the run. -/
def writes (db : AgentDatabase) : ShutdownWork → Bool
  | readAttempts _ _ | mark _ _ _ [] => false
  | mark state _ _ (attempt :: _) =>
    ((db.find? state.runId).bind (·.ledger)).any fun ledger =>
      (ledger.find? attempt.key).any (· ≠ { attempt with status := .unknown })
  | pause _ _ | save _ => true

end ShutdownWork

/-- `_pause_running_states` under way, in the process of this executor. -/
structure ShutdownPass where
  executorId : String
  todo : List AgentRunState
  work : Option ShutdownWork := none

namespace ShutdownPass

/-- The pass after `list_states`. -/
def start (executorId : String) (db : AgentDatabase) : ShutdownPass where
  executorId
  todo := (db.rows.map (·.queriedState)).insertionSort fun a b => a.runId ≤ b.runId

/-- The next statement of a pass. A statement that raises ends it. -/
def step (now : Instant) (db : AgentDatabase) (pass : ShutdownPass) : AgentDatabase × ShutdownPass :=
  match pass.work with
  | none =>
    match pass.todo with
    | [] => (db, pass)
    | state :: todo =>
      if state.status ≠ .running then (db, { pass with todo })
      else (db, { pass with
        todo, work := some (.readAttempts state (((db.find? state.runId).map (·.journal)).getD [])) })
  | some (.readAttempts state events) =>
    let attempts := ((db.find? state.runId).bind (·.ledger)).map (·.listAttempts)
    (db, { pass with work := some (.mark state events (attempts.map reconciledAttempts)
      ((attempts.getD []).filter (·.status = .started))) })
  | some (.mark state events attempts []) =>
    let (checkpoint, state) := inspectAgentRunCheckpoint events attempts state
    (db, { pass with work := some (
      if state.status = .running then .pause (state.pausedAt .shutdown checkpoint) checkpoint
      else .save state) })
  | some (.mark state events attempts (attempt :: pending)) =>
    match db.saveAttempt state.runId { attempt with status := .unknown } with
    | .ok db => (db, { pass with work := some (.mark state events attempts pending) })
    | .error _ => (db, { pass with todo := [], work := none })
  | some (.pause state checkpoint) =>
    let event := reconciledEvent .shutdown "shutdown" checkpoint
    let (db, sequence) := db.appendEvent state.runId event
    (db, { pass with work := some (.save (state.withEvent event sequence)) })
  | some (.save state) => (db.putState now state, { pass with work := none })

end ShutdownPass

/-- The database with the shutdown passes under way. -/
structure Reconciling where
  db : AgentDatabase
  passes : List ShutdownPass := []

/-- What may happen to the database: a call on a run's row (startup recovery among them), a write
to a journal or a ledger, a process that begins to shut down, and the next statement of a pass. -/
inductive DatabaseEvent
  | call (call : LeaseCall)
  | appendEvent (runId : String) (event : AgentTraceEvent)
  | createAttempt (runId : String) (attempt : ToolExecutionAttempt)
  | saveAttempt (runId : String) (attempt : ToolExecutionAttempt)
  | shutdown (executorId : String)
  | pass (index : Nat)

namespace Reconciling

def step (s : Reconciling) : Instant × DatabaseEvent → Option Reconciling
  | (now, .call call) => (LeaseRun.step { db := s.db } (now, call)).map fun run =>
      { s with db := run.db }
  | (_, .appendEvent runId event) => some { s with db := (s.db.appendEvent runId event).1 }
  | (_, .createAttempt runId attempt) =>
    match s.db.createAttempt runId attempt with
    | .ok db => some { s with db }
    | .error _ => some s
  | (_, .saveAttempt runId attempt) =>
    match s.db.saveAttempt runId attempt with
    | .ok db => some { s with db }
    | .error _ => some s
  | (_, .shutdown executorId) =>
    some { s with passes := s.passes ++ [.start executorId s.db] }
  | (now, .pass index) => s.passes[index]?.map fun pass =>
    let (db, pass) := pass.step now s.db
    { db, passes := s.passes.set index pass }

/-- The executor a reconciliation is made for: a shutting down process has its own, startup
recovery has none. `none` when the event is no reconciliation. -/
def reconciler (s : Reconciling) : DatabaseEvent → Option (Option String)
  | .call (.recover _) => some none
  | .pass index => s.passes[index]?.map fun pass => some pass.executorId
  | _ => none

/-- The run is RUNNING, and its lease is held by another executor and has not expired. -/
def Live (now : Instant) (own : Option String) (record : RunRecord) : Prop :=
  record.state.status = .running ∧ record.leaseActive now = true ∧ record.leaseOwner ≠ own

instance (now : Instant) (own : Option String) (record : RunRecord) :
    Decidable (Live now own record) := by
  unfold Live
  infer_instance

/-- **A reconciliation step leaves live runs alone**: everything stored of them is as before. -/
def LeftAlone (s s' : Reconciling) (event : Instant × DatabaseEvent) : Prop :=
  ∀ own, s.reconciler event.2 = some own → ∀ runId record, s.db.find? runId = some record →
    Live event.1 own record → s'.db.find? runId = some record

/-- When a shutdown pass is about to write, it is not to a run that is RUNNING under the unexpired
lease of another executor. -/
def ComesToNoLiveRun (s : Reconciling) (event : Instant × DatabaseEvent) : Prop :=
  match event.2 with
  | .pass index => ∀ pass ∈ s.passes[index]?, ∀ work ∈ pass.work, work.writes s.db = true →
      ∀ record ∈ s.db.find? work.state.runId, ¬Live event.1 (some pass.executorId) record
  | _ => True

instance (s : Reconciling) (event : Instant × DatabaseEvent) :
    Decidable (s.ComesToNoLiveRun event) := by
  unfold ComesToNoLiveRun
  split <;> infer_instance

end Reconciling

/-! ### One statement of a pass -/

namespace ShutdownPass

variable {now : Instant} {db : AgentDatabase} {pass : ShutdownPass} {runId : String}

/-- A statement of a pass changes nothing but the run it writes to. -/
theorem find?_step (h : ∀ work ∈ pass.work, work.writes db = true → runId ≠ work.state.runId) :
    (pass.step now db).1.find? runId = db.find? runId := by
  unfold step
  split
  · split
    · rfl
    · split <;> rfl
  · rfl
  · rfl
  · next state events attempts attempt pending hwork =>
    split
    · next db' hsave =>
      by_cases hrun : runId = state.runId
      · subst hrun
        have hquiet : ¬(ShutdownWork.mark state events attempts (attempt :: pending)).writes db =
            true := fun hwrites => h _ hwork hwrites rfl
        obtain ⟨record, hrecord, ⟨-, rfl⟩ | ⟨ledger, hledger, ⟨row, hrow, hkey⟩, hfind⟩⟩ :=
          AgentDatabase.saveAttempt_eq_ok hsave
        · rfl
        · -- The row the pass writes is stored already.
          have hfound := Table.find?_eq_some.mpr ⟨hrow, hkey⟩
          have hsame : row = { attempt with status := .unknown } := by
            simpa [ShutdownWork.writes, hrecord, hledger, show Table.find? ledger
              attempt.key = some row from hfound] using hquiet
          rw [hfind, ← hsame, Table.upsert_eq_self_iff.mpr hrow, hrecord, ← hledger]
      · exact AgentDatabase.find?_updateLedger_of_ne hsave hrun
    · rfl
  · next state checkpoint hwork => exact AgentDatabase.find?_appendEvent_of_ne _ (h _ hwork rfl)
  · next state hwork => exact AgentDatabase.find?_putState_of_ne now (h _ hwork rfl)

/-- What a pass is about to save is not RUNNING. -/
def Settling (pass : ShutdownPass) : Prop :=
  ∀ work ∈ pass.work, (∃ checkpoint, work = .pause work.state checkpoint) ∨ work = .save work.state →
    work.state.status ≠ .running

theorem Settling.of_step (hs : pass.Settling) : (pass.step now db).2.Settling := by
  intro work hwork hlast
  unfold step at hwork
  split at hwork
  · next hnone =>
    split at hwork
    · exact hs work hwork hlast
    · split at hwork
      · exact hs work hwork hlast
      · cases hwork
        rcases hlast with ⟨_, hlast⟩ | hlast <;> cases hlast
  · cases hwork
    rcases hlast with ⟨_, hlast⟩ | hlast <;> cases hlast
  · next state events attempts hmark =>
    generalize inspectAgentRunCheckpoint events attempts state = inspected at hwork
    obtain ⟨checkpoint, restored⟩ := inspected
    by_cases hstatus : restored.status = .running
    · simp only [hstatus, if_true] at hwork
      cases hwork
      exact (by decide : AgentRunStatus.paused ≠ .running)
    · simp only [hstatus, if_false] at hwork
      cases hwork
      exact hstatus
  · split at hwork <;> cases hwork
    rcases hlast with ⟨_, hlast⟩ | hlast <;> cases hlast
  · next state checkpoint hpause =>
    cases hwork
    exact hs (.pause state checkpoint) hpause (Or.inl ⟨checkpoint, rfl⟩)
  · cases hwork

/-- A write of a pass changes what is stored of a RUNNING run. -/
theorem find?_step_ne (hs : pass.Settling) {work : ShutdownWork} (hwork : pass.work = some work)
    (hwrites : work.writes db = true) {record : RunRecord}
    (hrecord : db.find? work.state.runId = some record) (hrunning : record.state.status = .running) :
    (pass.step now db).1.find? work.state.runId ≠ some record := by
  unfold step
  rw [hwork]
  cases work with
  | readAttempts state events => cases hwrites
  | mark state events attempts pending =>
    cases pending with
    | nil => cases hwrites
    | cons attempt pending =>
      have hrecord : db.find? state.runId = some record := hrecord
      simp only [ShutdownWork.writes, hrecord, Option.bind_some, Option.any_eq_true,
        decide_eq_true_eq] at hwrites
      obtain ⟨ledger, hledger, row, hrow, hne⟩ := hwrites
      obtain ⟨hmem, hkey⟩ := Table.find?_eq_some.mp hrow
      obtain ⟨db', hsave⟩ : ∃ db', db.saveAttempt state.runId { attempt with status := .unknown } =
          .ok db' := by
        simp only [AgentDatabase.saveAttempt, AgentDatabase.updateLedger, hrecord, hledger,
          Ledger.saveAttempt_of_mem hmem (show row.key = ToolExecutionAttempt.key
            { attempt with status := .unknown } from hkey)]
        exact ⟨_, rfl⟩
      simp only [hsave]
      obtain ⟨record', hrecord', h⟩ := AgentDatabase.saveAttempt_eq_ok hsave
      obtain rfl := Option.some.inj (hrecord.symm.trans hrecord')
      rcases h with ⟨hnone, -⟩ | ⟨ledger', hledger', -, hfind⟩
      · rw [hledger] at hnone
        cases hnone
      · obtain rfl := Option.some.inj (hledger.symm.trans hledger')
        intro heq
        have hupsert := congrArg RunRecord.ledger (Option.some.inj (hfind.symm.trans heq))
        rw [hledger] at hupsert
        have hstored := Table.upsert_eq_self_iff.mp (Option.some.inj hupsert)
        exact hne (Table.eq_of_key_eq hmem hstored hkey)
  | pause state checkpoint =>
    have hrecord : db.find? state.runId = some record := hrecord
    intro (heq : Table.find? (db.appendEvent state.runId _).1 state.runId = some record)
    rw [AgentDatabase.find?_appendEvent, hrecord, Option.map_some] at heq
    have hjournal := congrArg (·.journal.length) (Option.some.inj heq)
    simp [RunRecord.appendEvent] at hjournal
  | save state =>
    have hrecord : db.find? state.runId = some record := hrecord
    intro (heq : Table.find? (db.putState now state) state.runId = some record)
    rw [AgentDatabase.find?_putState_of_some now hrecord] at heq
    have hstate : state = record.state := congrArg RunRecord.state (Option.some.inj heq)
    exact hs _ hwork (Or.inr rfl) (hstate ▸ hrunning)

end ShutdownPass

namespace Reconciling

variable {s s' : Reconciling} {event : Instant × DatabaseEvent}

/-- Startup recovery leaves a run with a live lease alone. -/
theorem find?_recover_of_live {db : AgentDatabase} {now : Instant} {own : Option String}
    {runId : String} {record : RunRecord} (hrecord : db.find? runId = some record)
    (hlive : Live now own record) (grace : Int) :
    (recoverInterruptedAgentRuns now grace db).find? runId = some record := by
  obtain ⟨hrunning, hactive, -⟩ := hlive
  have hspared : record.spared now grace = true := by simp [RunRecord.spared, hactive]
  rw [find?_recoverInterruptedAgentRuns, hrecord, Option.map_some, if_pos hrunning,
    RunRecord.recover, if_pos hspared]

/-- Every pass under way settles what it is about to save. -/
def Settling (s : Reconciling) : Prop := ∀ pass ∈ s.passes, pass.Settling

theorem Settling.of_step (hs : s.Settling) (hstep : s.step event = some s') : s'.Settling := by
  obtain ⟨now, event⟩ := event
  cases event with
  | call call =>
    obtain ⟨run, -, rfl⟩ := Option.map_eq_some_iff.mp hstep
    exact hs
  | appendEvent runId event => cases hstep; exact hs
  | createAttempt runId attempt =>
    simp only [step] at hstep
    split at hstep <;> cases hstep <;> exact hs
  | saveAttempt runId attempt =>
    simp only [step] at hstep
    split at hstep <;> cases hstep <;> exact hs
  | shutdown executorId =>
    cases hstep
    intro pass hpass
    rcases List.mem_append.mp hpass with hpass | hpass
    · exact hs pass hpass
    · rw [List.mem_singleton.mp hpass]
      intro work hwork
      cases hwork
  | pass index =>
    simp only [step, Option.map_eq_some_iff] at hstep
    obtain ⟨pass, hpass, rfl⟩ := hstep
    intro pass' hpass'
    rcases List.mem_or_eq_of_mem_set hpass' with hpass' | rfl
    · exact hs pass' hpass'
    · exact (hs pass (List.mem_of_getElem? hpass)).of_step

/-- **A step leaves live runs alone** if and only if it does not come to one. -/
theorem leftAlone_iff (hs : s.Settling) (hstep : s.step event = some s') :
    LeftAlone s s' event ↔ s.ComesToNoLiveRun event := by
  obtain ⟨now, event⟩ := event
  constructor
  · intro hleft
    cases event with
    | pass index =>
      simp only [step, Option.map_eq_some_iff] at hstep
      obtain ⟨pass, hpass, rfl⟩ := hstep
      rintro pass' hpass' work hwork hwrites record hrecord hlive
      obtain rfl := Option.some.inj (hpass.symm.trans hpass')
      have hown : s.reconciler (.pass index) = some (some pass.executorId) := by
        rw [reconciler, hpass, Option.map_some]
      exact ShutdownPass.find?_step_ne (hs pass (List.mem_of_getElem? hpass)) hwork hwrites hrecord
        hlive.1 (hleft _ hown _ record hrecord hlive)
    | _ => trivial
  · intro hgood own hown runId record hrecord hlive
    cases event with
    | call call =>
      cases call with
      | recover grace =>
        cases hstep
        exact find?_recover_of_live hrecord hlive grace
      | _ => cases hown
    | pass index =>
      simp only [step, Option.map_eq_some_iff] at hstep
      obtain ⟨pass, hpass, rfl⟩ := hstep
      simp only [reconciler, hpass, Option.map_some, Option.some.injEq] at hown
      subst hown
      refine (ShutdownPass.find?_step fun work hwork hwrites hrun => ?_).trans hrecord
      exact hgood pass hpass work hwork hwrites record (hrun ▸ hrecord) hlive
    | _ => cases hown

end Reconciling

section Examples

private def otherState : AgentRunState :=
  { runId := "r", request := { contextId := "c", modelId := "m" } }

private def otherDatabase : AgentDatabase := (∅ : AgentDatabase).upsert { state := otherState }

private def otherAttempt : ToolExecutionAttempt where
  toolCallId := "t"
  attempt := 1
  toolRound := some 1
  toolName := "pay"
  status := .started
  replayPolicy := .nonReplayable
  idempotencyKey := "r:1:t"
  toolCall := { toolCallId := "t", toolCall := [] }

/-- Process `a` executes a tool of run `r` while process `b` shuts down. -/
private def shutdownBeside : List (Instant × DatabaseEvent) :=
  [(0, .call (.acquire "r" "a" 30 none)), (1, .createAttempt "r" otherAttempt), (5, .shutdown "b"),
    (5, .pass 0), (5, .pass 0)]

/-- A shutdown pass that begins after the run was paused by its own process. -/
private def shutdownAfter : List (Instant × DatabaseEvent) :=
  [(0, .call (.acquire "r" "a" 30 none)), (1, .createAttempt "r" otherAttempt),
    (2, .call (.save (some ⟨"r", "a", 1⟩) { otherState with status := .paused } none)),
    (5, .shutdown "b")]

end Examples

end EvernightAI
