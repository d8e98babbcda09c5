import EvernightAI.Agent.Recovery
import EvernightAI.Lib.FencingToken
import EvernightAI.Lib.TransitionSystem

/-!
# Leases fence executors off

The lease columns of a run are a fencing cell: `AgentDatabase.leaseCell` reads it off the row, and
every register call, startup recovery included, steps it (`step_leaseCell`). So the token an
executor got with its lease is refused for good once another one was given out or recovery took
the run.

`LeaseRun` runs register calls, of any number of executors on any runs, in any order and at any
times; it records the leases that were granted.
-/

namespace EvernightAI

open TransitionSystem

/-- A register call that touches the row of a run. -/
inductive LeaseCall
  | acquire (runId owner : String) (ttl : Int) (scope : Option PrincipalScope)
  | heartbeat (runId owner : String) (generation : Nat) (ttl : Int) (scope : Option PrincipalScope)
  | release (runId owner : String) (generation : Nat) (scope : Option PrincipalScope)
  | save (lease : Option HeldAgentRunLease) (state : AgentRunState) (scope : Option PrincipalScope)
  | clear (runId : String) (scope : Option PrincipalScope)
  | recover (grace : Int)

/-- A granted lease. -/
structure GrantedLease where
  runId : String
  owner : String
  generation : Nat
  deriving DecidableEq, Repr

/-- A database with the leases it granted, in order. -/
structure LeaseRun where
  db : AgentDatabase
  granted : List GrantedLease := []

namespace LeaseRun

/-- A call at a time; a call that raises leaves the database as it was. -/
def step (s : LeaseRun) : Instant × LeaseCall → Option LeaseRun
  | (now, .acquire runId owner ttl scope) =>
    match s.db.acquireLease now runId owner ttl scope with
    | .ok (generation, db) => some {
        db, granted := s.granted ++ [{ runId, owner, generation }] }
    | .error _ => some s
  | (now, .heartbeat runId owner generation ttl scope) =>
    some { s with db := (s.db.heartbeatLease now runId owner generation ttl scope).2 }
  | (_, .release runId owner generation scope) =>
    some { s with db := s.db.releaseLease runId owner generation scope }
  | (now, .save lease state scope) =>
    match s.db.saveState now lease state scope with
    | .ok db => some { s with db }
    | .error _ => some s
  | (_, .clear runId scope) =>
    match s.db.clearExecutionLease runId scope with
    | .ok db => some { s with db }
    | .error _ => some s
  | (now, .recover grace) => some { s with db := recoverInterruptedAgentRuns now grace s.db }

end LeaseRun

/-! ### The fencing cell of a run -/

/-- The lease columns of a record. -/
def RunRecord.leaseCell (record : RunRecord) : FencingToken.Cell String where
  holder := record.leaseOwner
  generation := record.leaseGeneration

/-- The lease columns of a run; those of a run without a row are the ones a new row gets. -/
def AgentDatabase.leaseCell (db : AgentDatabase) (runId : String) : FencingToken.Cell String :=
  ((db.find? runId).map RunRecord.leaseCell).getD ⟨none, 0⟩

namespace RunRecord

theorem heldBy_iff {record : RunRecord} {owner : String} {generation : Nat} :
    record.heldBy owner generation = true ↔
      FencingToken.Accepts record.leaseCell owner generation := by
  simp only [heldBy, Bool.and_eq_true, decide_eq_true_eq, FencingToken.Accepts, leaseCell]

@[simp] theorem leaseCell_withoutLease (record : RunRecord) :
    record.withoutLease.leaseCell = ⟨none, record.leaseGeneration⟩ := rfl

@[simp] theorem leaseCell_pauseRestored (record : RunRecord) (cause : AgentPauseCause)
    (source : String) (checkpoint : AgentRunRecoveryCheckpoint) (state : AgentRunState) :
    (record.pauseRestored cause source checkpoint state).leaseCell = record.leaseCell := by
  unfold pauseRestored
  split <;> rfl

/-- Recovery frees the lease of a run it does not spare. -/
theorem leaseCell_recover (now : Instant) (grace : Int) (record : RunRecord) :
    (record.recover now grace).leaseCell =
      if record.spared now grace then record.leaseCell else ⟨none, record.leaseGeneration⟩ := by
  unfold recover
  by_cases hspared : record.spared now grace = true
  · rw [if_pos hspared, if_pos hspared]
  · rw [if_neg hspared, if_neg hspared]
    by_cases hleased : record.leaseOwner.isSome = true
    · simp only [hleased, if_true]
      have hcell := leaseCell_pauseRestored record.markStartedUnknown .leaseExpired
        "startup_recovery" (record.inspectCheckpoint record.queriedState).1
        (record.inspectCheckpoint record.queriedState).2
      rw [leaseCell_withoutLease]
      exact congrArg (FencingToken.Cell.mk none ∘ FencingToken.Cell.generation) hcell
    · simp only [hleased, Bool.false_eq_true, if_false, leaseCell_pauseRestored]
      have hnone : record.leaseOwner = none := by simpa using hleased
      exact congrArg (FencingToken.Cell.mk · record.leaseGeneration) hnone

end RunRecord

namespace AgentDatabase

variable {db db' : AgentDatabase} {runId : String}

theorem leaseCell_of_find? {record : RunRecord} (h : db.find? runId = some record) :
    db.leaseCell runId = record.leaseCell := by
  rw [leaseCell, h]
  rfl

/-- An update steps the fencing cells when it steps the one of its row. -/
theorem step_of_updateWhere {clause : RunRecord → Bool} {set : RunRecord → RunRecord}
    {updated : String} (h : db.updateWhere updated clause set = some db')
    (hid : ∀ record : RunRecord, record.runId = updated → (set record).runId = updated)
    (hcell : ∀ record, FencingToken.Step record.leaseCell (set record).leaseCell) :
    FencingToken.Step (db.leaseCell runId) (db'.leaseCell runId) := by
  obtain ⟨record, hrecord, -, hset, hother⟩ := updateWhere_eq_some h hid
  by_cases hrun : runId = updated
  · subst hrun
    rw [leaseCell_of_find? hrecord, leaseCell_of_find? hset]
    exact hcell record
  · rw [leaseCell, leaseCell, hother runId hrun]
    exact .keep _

theorem leaseCell_putState (now : Instant) (state : AgentRunState) :
    (db.putState now state).leaseCell runId = db.leaseCell runId := by
  by_cases hrun : runId = state.runId
  · subst hrun
    cases hrecord : db.find? state.runId with
    | none =>
      rw [leaseCell, leaseCell, find?_putState_of_none now hrecord, hrecord]
      rfl
    | some record =>
      rw [leaseCell_of_find? (find?_putState_of_some now hrecord), leaseCell_of_find? hrecord]
      rfl
  · rw [leaseCell, leaseCell, find?_putState_of_ne now hrun]

/-- A granted lease is the next generation of its run's cell. -/
theorem acquireLease_eq_ok {now : Instant} {owner : String} {ttl : Int}
    {scope : Option PrincipalScope} {generation : Nat}
    (h : db.acquireLease now runId owner ttl scope = .ok (generation, db')) :
    generation = (db.leaseCell runId).generation + 1 ∧
      db'.leaseCell runId = ⟨some owner, generation⟩ ∧
      ∀ other ≠ runId, db'.leaseCell other = db.leaseCell other := by
  unfold acquireLease at h
  split at h
  · split at h <;> cases h
  · next db₁ hupdate =>
    obtain ⟨record, hrecord, -, hset, hother⟩ := updateWhere_eq_some hupdate fun _ => id
    rw [hset] at h
    cases h
    rw [leaseCell_of_find? hrecord, leaseCell_of_find? hset]
    exact ⟨rfl, rfl, fun other hne => by rw [leaseCell, leaseCell, hother other hne]⟩

/-- A lease operation presented with a token that is not the current one changes nothing. -/
theorem updateWhere_heldBy_eq_none {owner : String} {generation : Nat} {clause : RunRecord → Bool}
    {set : RunRecord → RunRecord}
    (hclause : ∀ record, clause record = true → record.heldBy owner generation = true)
    (h : ¬FencingToken.Accepts (db.leaseCell runId) owner generation) :
    db.updateWhere runId clause set = none := by
  refine updateWhere_eq_none.mpr fun record hrecord => Bool.eq_false_iff.mpr fun hheld => h ?_
  rw [leaseCell_of_find? hrecord]
  exact RunRecord.heldBy_iff.mp (hclause record hheld)

section Refused

variable {owner : String} {generation : Nat}
  (h : ¬FencingToken.Accepts (db.leaseCell runId) owner generation)

include h

theorem heartbeatLease_of_not_accepts (now : Instant) (ttl : Int)
    (scope : Option PrincipalScope) :
    db.heartbeatLease now runId owner generation ttl scope = (false, db) := by
  have hnone : db.updateWhere runId
      (fun record => record.heldBy owner generation && record.inScope scope)
      ({ · with heartbeatAt := some now, leaseExpiresAt := some (now + ttl) }) = none :=
    updateWhere_heldBy_eq_none (fun record hclause => (Bool.and_eq_true_iff.mp hclause).1) h
  rw [heartbeatLease, hnone]

theorem releaseLease_of_not_accepts (scope : Option PrincipalScope) :
    db.releaseLease runId owner generation scope = db := by
  have hnone : db.updateWhere runId
      (fun record => record.heldBy owner generation && record.inScope scope)
      RunRecord.withoutLease = none :=
    updateWhere_heldBy_eq_none (fun record hclause => (Bool.and_eq_true_iff.mp hclause).1) h
  rw [releaseLease, hnone, Option.getD_none]

theorem saveState_of_not_accepts (now : Instant) {state : AgentRunState}
    (hrun : state.runId = runId) (scope : Option PrincipalScope) :
    ∃ e, db.saveState now (some ⟨runId, owner, generation⟩) state scope = .error e := by
  subst hrun
  have hnone : db.updateWhere state.runId (·.heldBy owner generation)
      ({ · with state }) = none :=
    updateWhere_heldBy_eq_none (fun record hclause => hclause) h
  unfold saveState
  split
  · simp only [Option.filter_some, decide_true, if_true, hnone]
    exact ⟨_, rfl⟩
  · exact ⟨_, rfl⟩

end Refused

end AgentDatabase

/-! ### Runs of calls -/

namespace LeaseRun

variable {s s' : LeaseRun} {call : Instant × LeaseCall}

/-- **Every call steps the fencing cell of every run.** -/
theorem step_leaseCell (hstep : s.step call = some s') (runId : String) :
    FencingToken.Step (s.db.leaseCell runId) (s'.db.leaseCell runId) := by
  obtain ⟨now, call⟩ := call
  cases call with
  | acquire acquired owner ttl scope =>
    simp only [step] at hstep
    split at hstep <;> cases hstep
    · next generation db hacquire =>
      obtain ⟨hgeneration, hcell, hother⟩ := AgentDatabase.acquireLease_eq_ok hacquire
      by_cases hrun : runId = acquired
      · rw [hrun, hcell, hgeneration]
        exact .take _ owner
      · rw [hother runId hrun]
        exact .keep _
    · exact .keep _
  | heartbeat renewed owner generation ttl scope =>
    cases hstep
    simp only [AgentDatabase.heartbeatLease]
    split
    · next db hupdate =>
      exact AgentDatabase.step_of_updateWhere hupdate (fun _ => id) fun record => .keep _
    · exact .keep _
  | release released owner generation scope =>
    cases hstep
    simp only [AgentDatabase.releaseLease]
    cases hupdate : s.db.updateWhere released
        (fun record => record.heldBy owner generation && record.inScope scope)
        RunRecord.withoutLease with
    | none => exact .keep _
    | some db =>
      exact AgentDatabase.step_of_updateWhere hupdate (fun _ => id) fun record => .free _
  | save lease state scope =>
    simp only [step] at hstep
    split at hstep <;> cases hstep
    · next db hsave =>
      unfold AgentDatabase.saveState at hsave
      split at hsave
      · split at hsave
        · split at hsave <;> cases hsave
          next hupdate =>
          exact AgentDatabase.step_of_updateWhere hupdate (fun _ _ => rfl) fun record => .keep _
        · cases hsave
          rw [AgentDatabase.leaseCell_putState]
          exact .keep _
      · cases hsave
    · exact .keep _
  | clear cleared scope =>
    simp only [step] at hstep
    split at hstep <;> cases hstep
    · next db hclear =>
      unfold AgentDatabase.clearExecutionLease at hclear
      split at hclear <;> cases hclear
      next hupdate =>
      exact AgentDatabase.step_of_updateWhere hupdate (fun _ => id) fun record => .free _
    · exact .keep _
  | recover grace =>
    cases hstep
    simp only [AgentDatabase.leaseCell, find?_recoverInterruptedAgentRuns]
    cases s.db.find? runId with
    | none => exact .keep _
    | some record =>
      simp only [Option.map_some, Option.getD_some]
      split
      · rw [RunRecord.leaseCell_recover]
        split
        · exact .keep _
        · exact .free _
      · exact .keep _

theorem run_leaseCell {calls : List (Instant × LeaseCall)} (hrun : run step s calls = some s')
    (runId : String) :
    Relation.ReflTransGen FencingToken.Step (s.db.leaseCell runId) (s'.db.leaseCell runId) :=
  run_rel (R := fun s s' => Relation.ReflTransGen FencingToken.Step (s.db.leaseCell runId)
      (s'.db.leaseCell runId))
    (fun _ => .refl) .trans (fun _ _ _ hstep => .single (step_leaseCell hstep runId)) hrun

/-- The leases granted for a run have increasing generations, up to the current one. -/
def Increasing (s : LeaseRun) : Prop :=
  (s.granted.Pairwise fun p q => p.runId = q.runId → p.generation < q.generation) ∧
    ∀ p ∈ s.granted, p.generation ≤ (s.db.leaseCell p.runId).generation

theorem Increasing.of_step (hs : s.Increasing) (hstep : s.step call = some s') :
    s'.Increasing := by
  obtain ⟨hpairwise, hbound⟩ := hs
  have hbound' : ∀ p ∈ s.granted, p.generation ≤ (s'.db.leaseCell p.runId).generation :=
    fun p hp => (hbound p hp).trans (step_leaseCell hstep p.runId).generation_le
  have hsame (hgranted : s'.granted = s.granted) : s'.Increasing := by
    rw [Increasing, hgranted]
    exact ⟨hpairwise, hbound'⟩
  obtain ⟨now, call⟩ := call
  cases call with
  | acquire runId owner ttl scope =>
    simp only [step] at hstep
    split at hstep <;> cases hstep
    · next generation db hacquire =>
      obtain ⟨hgeneration, hcell, -⟩ := AgentDatabase.acquireLease_eq_ok hacquire
      refine ⟨List.pairwise_append.mpr ⟨hpairwise, List.pairwise_singleton _ _, ?_⟩, ?_⟩
      · intro p hp q hq hrun
        rw [List.mem_singleton] at hq
        subst hq
        have hle := hbound p hp
        rw [hrun] at hle
        exact hgeneration ▸ Nat.lt_succ_of_le hle
      · intro p hp
        rcases List.mem_append.mp hp with hp | hp
        · exact hbound' p hp
        · rw [List.mem_singleton] at hp
          subst hp
          exact (congrArg FencingToken.Cell.generation hcell).ge
    · exact hsame rfl
  | heartbeat => cases hstep; exact hsame rfl
  | release => cases hstep; exact hsame rfl
  | save =>
    simp only [step] at hstep
    split at hstep <;> cases hstep <;> exact hsame rfl
  | clear =>
    simp only [step] at hstep
    split at hstep <;> cases hstep <;> exact hsame rfl
  | recover => cases hstep; exact hsame rfl

theorem Increasing.of_run {calls : List (Instant × LeaseCall)} (hs : s.Increasing)
    (hrun : run step s calls = some s') : s'.Increasing :=
  run_invariant (fun _ _ _ hs hstep => hs.of_step hstep) hs hrun

end LeaseRun

/-- Recovery takes a RUNNING run whose lease has expired: it is no longer RUNNING, and the token of
the lease is dead. -/
theorem dead_of_recover {db : AgentDatabase} {now : Instant} (grace : Int) {record : RunRecord}
    {runId owner : String} (hrecord : db.find? runId = some record)
    (hrunning : record.state.status = .running) (howner : record.leaseOwner = some owner)
    (hexpired : record.leaseActive now = false) :
    (∃ record', (recoverInterruptedAgentRuns now grace db).find? runId = some record' ∧
      record'.state.status ≠ .running) ∧
    FencingToken.Dead ((recoverInterruptedAgentRuns now grace db).leaseCell runId) owner
      record.leaseGeneration := by
  have hspared : record.spared now grace = false := by simp [RunRecord.spared, hexpired, howner]
  have hfind : (recoverInterruptedAgentRuns now grace db).find? runId =
      some (record.recover now grace) := by
    rw [find?_recoverInterruptedAgentRuns, hrecord, Option.map_some, if_pos hrunning]
  refine ⟨⟨_, hfind, record.status_recover hspared⟩, ?_⟩
  rw [AgentDatabase.leaseCell_of_find? hfind, RunRecord.leaseCell_recover, hspared]
  exact FencingToken.Accepts.dead_of_free (c := record.leaseCell) ⟨howner, rfl⟩

/-- **Lease fencing.** Whatever calls are made on a database, by whom and in which order: the
leases granted for a run have strictly increasing generations; at every moment one token at most is
accepted for a run, and a heartbeat, release or fenced save presented with any other one changes
nothing. And once recovery has taken a run whose lease had expired, no later save under that lease
changes the run. -/
theorem leaseFencing {db : AgentDatabase} {calls : List (Instant × LeaseCall)} {s : LeaseRun}
    (hrun : run LeaseRun.step { db } calls = some s) :
    (s.granted.Pairwise fun p q => p.runId = q.runId → p.generation < q.generation) ∧
    (∀ runId, ∃ holder : Option (String × Nat), ∀ owner generation,
      holder ≠ some (owner, generation) → ∀ now ttl scope,
        s.db.heartbeatLease now runId owner generation ttl scope = (false, s.db) ∧
        s.db.releaseLease runId owner generation scope = s.db ∧
        ∀ state, state.runId = runId →
          ∃ e, s.db.saveState now (some ⟨runId, owner, generation⟩) state scope = .error e) ∧
    (∀ before now grace after m, calls = before ++ (now, .recover grace) :: after →
      run LeaseRun.step { db } before = some m →
      ∀ runId record owner, m.db.find? runId = some record → record.state.status = .running →
        record.leaseOwner = some owner → record.leaseActive now = false →
        (∃ recovered, (recoverInterruptedAgentRuns now grace m.db).find? runId = some recovered ∧
          recovered.state.status ≠ .running) ∧
        ∀ later state scope, state.runId = runId →
          ∃ e, s.db.saveState later (some ⟨runId, owner, record.leaseGeneration⟩) state scope =
            .error e) := by
  refine ⟨?_, fun runId => ?_, ?_⟩
  · have hinit : LeaseRun.Increasing { db } := ⟨List.Pairwise.nil, fun _ h => absurd h List.not_mem_nil⟩
    exact (hinit.of_run hrun).1
  · refine ⟨(s.db.leaseCell runId).holder.map fun owner =>
      (owner, (s.db.leaseCell runId).generation), fun owner generation hne now ttl scope => ?_⟩
    have hnot : ¬FencingToken.Accepts (s.db.leaseCell runId) owner generation := by
      rintro ⟨hholder, hgeneration⟩
      rw [hholder, hgeneration] at hne
      exact hne rfl
    exact ⟨AgentDatabase.heartbeatLease_of_not_accepts hnot now ttl scope,
      AgentDatabase.releaseLease_of_not_accepts hnot scope,
      fun state hstate => AgentDatabase.saveState_of_not_accepts hnot now hstate scope⟩
  · rintro before now grace after m rfl hbefore runId record owner hrecord hrunning howner hexpired
    obtain ⟨hpaused, hdead⟩ := dead_of_recover grace hrecord hrunning howner hexpired
    refine ⟨hpaused, fun later state scope hstate => ?_⟩
    rw [run_append, hbefore, Option.bind_some] at hrun
    obtain ⟨m', hm', hafter⟩ := run_cons_eq_some.mp hrun
    cases hm'
    have hlater := hdead.of_steps (LeaseRun.run_leaseCell hafter runId)
    exact AgentDatabase.saveState_of_not_accepts hlater.2 later hstate scope

section Examples

private def leasedState : AgentRunState :=
  { runId := "r", request := { contextId := "c", modelId := "m" } }

private def leasedDatabase : AgentDatabase := (∅ : AgentDatabase).upsert { state := leasedState }

private def takenOver : List (Instant × LeaseCall) :=
  [(0, .acquire "r" "a" 30 none), (40, .recover 0), (50, .acquire "r" "b" 30 none)]

/-- An executor that slept through its lease finds the run taken over. -/
theorem leaseFencing_takenOver :
    let s := reached LeaseRun.step { db := leasedDatabase } takenOver (by decide)
    s.granted = [⟨"r", "a", 1⟩, ⟨"r", "b", 2⟩] ∧
      (s.granted.Pairwise fun p q => p.runId = q.runId → p.generation < q.generation) ∧
      ∃ e, s.db.saveState 60 (some ⟨"r", "a", 1⟩) leasedState none = .error e := by
  intro s
  obtain ⟨hincreasing, -, hrecovered⟩ :=
    @leaseFencing leasedDatabase takenOver s (run_reached (by decide))
  let record : RunRecord := {
    state := leasedState
    leaseOwner := some "a"
    leaseExpiresAt := some 30
    heartbeatAt := some 0
    leaseGeneration := 1 }
  obtain ⟨-, hrefused⟩ := hrecovered [(0, .acquire "r" "a" 30 none)] 40 0
    [(50, .acquire "r" "b" 30 none)] _ rfl (run_reached (by decide)) "r" record "a" rfl rfl rfl rfl
  exact ⟨by decide, hincreasing, hrefused 60 leasedState none rfl⟩

end Examples

end EvernightAI
