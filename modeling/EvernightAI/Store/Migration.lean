import EvernightAI.Lib.TransitionSystem
import EvernightAI.Store.Transaction
import Mathlib.Data.List.Nodup
import Mathlib.Logic.Function.Basic

/-!
# Migration runners

`SQLiteMigrationRunner.run` goes through the migrations in order, each in a transaction of its own
that holds the write lock: it looks the version up, runs the operation and records the version.
Any number of runners, each on its own connection, work on one database; statements and commits
may fail, and connections may be lost, at any point.

* `KeepsPrefix` is the invariant: the durable contents are a prefix of the plan, and what a runner
  holds in its transaction follows from them.
* `run_prefix` : every reachable database is a prefix of the plan.
-/

namespace EvernightAI

open StatefulProgram Savepoints

variable {δ : Type}

/-! ### Plans -/

/-- What a migration runs; what comes next depends on what the statements find. -/
inductive MigrationOperation (δ : Type)
  | finish
  | raise
  | execute (statement : δ → Outcome δ) (next : δ → MigrationOperation δ)

namespace MigrationOperation

/-- The contents a whole operation makes, if none of its statements raises. -/
def effect : MigrationOperation δ → δ → Option δ
  | finish, d => some d
  | raise, _ => none
  | execute statement next, d =>
    match statement d with
    | .done d' => (next d').effect d'
    | .aborts | .rollsBack => none

end MigrationOperation

/-- A migration, without its name. -/
structure Migration (δ : Type) where
  version : ℕ
  operation : MigrationOperation δ

/-- The migrations in order; their versions differ. -/
structure MigrationPlan (δ : Type) where
  migrations : List (Migration δ)
  nodup : (migrations.map Migration.version).Nodup

/-- The database: the table of versions in the order they were recorded, and everything else. -/
structure Database (δ : Type) where
  versions : List ℕ
  data : δ
  deriving DecidableEq, Repr

/-- A migration applied. -/
def Migration.applied (m : Migration δ) (d : Database δ) : Option (Database δ) :=
  (m.operation.effect d.data).map fun data => { versions := d.versions ++ [m.version], data }

/-- Migrations applied in order, each once. -/
def appliedAll (ms : List (Migration δ)) (d : Database δ) : Option (Database δ) :=
  ms.foldlM (fun d m => m.applied d) d

theorem appliedAll_append (ms : List (Migration δ)) (m : Migration δ) (d : Database δ) :
    appliedAll (ms ++ [m]) d = (appliedAll ms d).bind m.applied := by
  rw [appliedAll, List.foldlM_append]
  refine congrArg (Option.bind _) (funext fun d' => ?_)
  rw [List.foldlM_cons]
  exact bind_pure _

/-- The recorded versions are those of the migrations applied. -/
theorem versions_of_appliedAll {ms : List (Migration δ)} {d d' : Database δ}
    (h : appliedAll ms d = some d') : d'.versions = d.versions ++ ms.map Migration.version := by
  induction ms using List.reverseRecOn generalizing d' with
  | nil =>
    obtain rfl := Option.some.inj h
    exact (List.append_nil _).symm
  | append_singleton ms m ih =>
    rw [appliedAll_append, Option.bind_eq_some_iff] at h
    obtain ⟨d₁, h₁, h₂⟩ := h
    obtain ⟨data, -, rfl⟩ := Option.map_eq_some_iff.mp h₂
    rw [List.map_append, ← List.append_assoc, ← ih h₁]
    rfl

/-- **A prefix of the plan** is applied to the database that was new with `data`. -/
def MigrationPlan.Prefix (plan : MigrationPlan δ) (data : δ) (d : Database δ) : Prop :=
  ∃ ms, ms <+: plan.migrations ∧ appliedAll ms { versions := [], data } = some d

/-! ### Runners -/

/-- Where a runner is. -/
inductive MigrationPhase (δ : Type)
  | idle
  | ready (todo : List (Migration δ))
  | begun (migration : Migration δ) (rest : List (Migration δ))
  | operating (operation : MigrationOperation δ) (migration : Migration δ) (rest : List (Migration δ))
  | recorded (rest : List (Migration δ))
  | ended

/-- A runner, and the transaction of its connection. -/
structure MigrationRunner (δ : Type) where
  phase : MigrationPhase δ
  transaction : Option (Transaction (Database δ)) := none

/-- The database file with its write lock, and the runners. -/
structure Migrating (ι δ : Type) where
  durable : Database δ
  writer : Option ι := none
  runners : ι → MigrationRunner δ

/-- What happens next. `fault` is an exception at any point of a block, `close` the end of a
connection, by its owner or because its process is gone. -/
inductive MigrationLabel (ι : Type)
  | start (i : ι)
  | begin (i : ι)
  | refused (i : ι)
  | select (i : ι)
  | statement (i : ι)
  | fault (i : ι)
  | commit (i : ι) (outcome : CommitOutcome)
  | close (i : ι)
  deriving DecidableEq, Repr

/-- An operation works on everything but the table of versions. -/
def onData (statement : δ → Outcome δ) (d : Database δ) : Outcome (Database δ) :=
  match statement d.data with
  | .done data => .done { d with data }
  | .aborts => .aborts
  | .rollsBack => .rollsBack

/-- `INSERT INTO evernight_schema_migrations`; the version is the primary key. -/
def recordVersion (version : ℕ) (d : Database δ) : Outcome (Database δ) :=
  if version ∈ d.versions then .aborts else .done { d with versions := d.versions ++ [version] }

namespace Migrating

variable {ι : Type} [DecidableEq ι]

/-- The connection of a runner. -/
def connection (s : Migrating ι δ) (i : ι) : Connection (Database δ) :=
  { durable := s.durable, transaction := (s.runners i).transaction }

/-- A runner continues on its connection `c`: it has the write lock exactly in a transaction. -/
def withConnection (s : Migrating ι δ) (i : ι) (c : Connection (Database δ))
    (phase : MigrationPhase δ) : Migrating ι δ :=
  { durable := c.durable
    writer := if c.inTransaction then some i else if s.writer = some i then none else s.writer
    runners := Function.update s.runners i { phase, transaction := c.transaction } }

/-- A runner runs a program, and ends if it raises. -/
def onConnection (s : Migrating ι δ) (i : ι) (program : SqlM (Database δ) Unit)
    (next : Database δ → MigrationPhase δ) : Migrating ι δ :=
  match program (s.connection i) with
  | .ok _ c => s.withConnection i c (next c.contents)
  | .error _ c => s.withConnection i c .ended

/-- A statement of a block; what it raises rolls the block back. -/
def inBlock (s : Migrating ι δ) (i : ι) (statement : SqlM (Database δ) Unit)
    (next : Database δ → MigrationPhase δ) : Migrating ι δ :=
  s.onConnection i (onRaise statement rollback) next

/-- One step of a runner. -/
def step (plan : MigrationPlan δ) (s : Migrating ι δ) : MigrationLabel ι → Option (Migrating ι δ)
  | .start i =>
    match (s.runners i).phase with
    | .idle => some (s.withConnection i (s.connection i) (.ready plan.migrations))
    | _ => none
  | .begin i =>
    match (s.runners i).phase with
    | .ready (m :: rest) =>
      if s.writer = none then some (s.onConnection i begin fun _ => .begun m rest) else none
    | _ => none
  | .refused i =>
    match (s.runners i).phase with
    | .ready _ => some (s.withConnection i (s.connection i) .ended)
    | _ => none
  | .select i =>
    match (s.runners i).phase with
    | .begun m rest =>
      some (s.withConnection i (s.connection i)
        (if m.version ∈ (s.connection i).contents.versions then .recorded rest
          else .operating m.operation m rest))
    | _ => none
  | .statement i =>
    match (s.runners i).phase with
    | .operating (.execute statement next) m rest =>
      some (s.inBlock i (Savepoints.execute (onData statement)) fun d => .operating (next d.data) m rest)
    | .operating .raise _ _ => some (s.inBlock i (throw .body) fun _ => .ended)
    | .operating .finish m rest =>
      some (s.inBlock i (Savepoints.execute (recordVersion m.version)) fun _ => .recorded rest)
    | _ => none
  | .fault i =>
    match (s.runners i).phase with
    | .begun _ _ | .operating _ _ _ | .recorded _ => some (s.inBlock i (throw .body) fun _ => .ended)
    | _ => none
  | .commit i outcome =>
    match (s.runners i).phase with
    | .recorded rest => some (s.onConnection i (commit outcome) fun _ => .ready rest)
    | _ => none
  | .close i => some (s.onConnection i rollback fun _ => .idle)

end Migrating

/-! ### The invariant -/

section Invariant

variable {plan : MigrationPlan δ} {data : δ}

/-- The database with the first `k` migrations applied. -/
def MigrationPlan.upTo (plan : MigrationPlan δ) (data : δ) (k : ℕ) : Option (Database δ) :=
  appliedAll (plan.migrations.take k) { versions := [], data }

/-- Applying the next migration. -/
theorem MigrationPlan.upTo_succ {k : ℕ} {m : Migration δ} {rest : List (Migration δ)}
    {d : Database δ} (hd : plan.upTo data k = some d) (hk : m :: rest = plan.migrations.drop k) :
    plan.upTo data (k + 1) = m.applied d := by
  have hm : plan.migrations[k]? = some m := by
    rw [← List.head?_drop, ← hk]
    rfl
  rw [upTo, List.take_add_one, hm, Option.toList_some, appliedAll_append, ← upTo, hd]
  rfl

/-- Whether the version of a migration is recorded tells whether it is among the first `k`. -/
theorem MigrationPlan.mem_versions_upTo {j k : ℕ} {m : Migration δ} {rest : List (Migration δ)}
    {d : Database δ} (hd : plan.upTo data k = some d) (hj : m :: rest = plan.migrations.drop j) :
    m.version ∈ d.versions ↔ j < k := by
  have hm : plan.migrations[j]? = some m := by
    rw [← List.head?_drop, ← hj]
    rfl
  obtain ⟨hlength, hget⟩ := List.getElem?_eq_some_iff.mp hm
  have hversion : (plan.migrations.map Migration.version)[j]? = some m.version := by
    rw [List.getElem?_map, hm]
    rfl
  rw [versions_of_appliedAll hd, List.nil_append, List.map_take, List.mem_take_iff_getElem]
  constructor
  · rintro ⟨i, hi, heq⟩
    have hilength : i < (plan.migrations.map Migration.version).length := by omega
    have hij : i = j := by
      refine (List.getElem?_inj hilength plan.nodup).mp ?_
      rw [hversion, List.getElem?_eq_getElem hilength, heq]
    omega
  · intro hjk
    exact ⟨j, by simp; omega, by simp [hget]⟩

/-- **What a runner holds**, when the first `k` migrations are applied to the durable contents: what
it has still to do follows a part of them, and its transaction is what the next `COMMIT` may make
durable. -/
def MigrationRunner.Follows (plan : MigrationPlan δ) (data : δ) (durable : Database δ) (k : ℕ)
    (r : MigrationRunner δ) : Prop :=
  match r.phase with
  | .idle => r.transaction = none
  | .ready todo => r.transaction = none ∧ ∃ j ≤ k, todo = plan.migrations.drop j
  | .begun m rest => r.transaction = some { contents := durable } ∧
      ∃ j ≤ k, m :: rest = plan.migrations.drop j
  | .operating operation m rest => m :: rest = plan.migrations.drop k ∧
      ∃ d, r.transaction = some { contents := { durable with data := d } } ∧
        operation.effect d = m.operation.effect durable.data
  | .recorded rest => ∃ k' ≥ k, ∃ d, plan.upTo data k' = some d ∧
      r.transaction = some { contents := d } ∧ ∃ j ≤ k', rest = plan.migrations.drop j
  | .ended => True

/-- Outside a transaction a runner does not depend on how far the others are. -/
theorem MigrationRunner.Follows.mono {durable durable' : Database δ} {k k' : ℕ}
    {r : MigrationRunner δ} (h : r.Follows plan data durable k) (hk : k ≤ k')
    (hr : r.transaction = none) : r.Follows plan data durable' k' := by
  obtain ⟨phase, transaction⟩ := r
  obtain rfl : transaction = none := hr
  cases phase with
  | idle => exact h
  | ready todo =>
    obtain ⟨-, j, hj, htodo⟩ := h
    exact ⟨rfl, j, hj.trans hk, htodo⟩
  | begun m rest => exact absurd h.1 (by simp)
  | operating operation m rest =>
    obtain ⟨-, d, hd, -⟩ := h
    exact absurd hd (by simp)
  | recorded rest =>
    obtain ⟨_, _, d, _, hd, -⟩ := h
    exact absurd hd (by simp)
  | ended => trivial

variable {ι : Type} [DecidableEq ι]

/-- **The invariant**: the first `k` migrations are applied, every runner follows, and whoever is in
a transaction has the write lock. -/
structure KeepsPrefix (plan : MigrationPlan δ) (data : δ) (k : ℕ) (s : Migrating ι δ) : Prop where
  durable : plan.upTo data k = some s.durable
  runner : ∀ i, (s.runners i).Follows plan data s.durable k
  lock : ∀ i, (s.connection i).inTransaction → s.writer = some i

namespace KeepsPrefix

variable {s : Migrating ι δ} {k k' : ℕ} {i : ι} {c : Connection (Database δ)}
  {phase : MigrationPhase δ}

/-- What a runner does to the file concerns no other: only in a transaction, with the write lock, does
it change the durable contents. -/
theorem withConnection (h : KeepsPrefix plan data k s) (hk : k ≤ k')
    (hdurable : plan.upTo data k' = some c.durable)
    (hchange : (c.durable = s.durable ∧ k' = k) ∨ (s.connection i).inTransaction)
    (hbegin : c.inTransaction → (s.connection i).inTransaction ∨ s.writer = none)
    (hrunner : MigrationRunner.Follows plan data c.durable k' { phase, transaction := c.transaction }) :
    KeepsPrefix plan data k' (s.withConnection i c phase) where
  durable := hdurable
  runner j := by
    show ((Function.update s.runners i _) j).Follows plan data c.durable k'
    by_cases hj : j = i
    · subst hj
      rw [Function.update_self]
      exact hrunner
    · rw [Function.update_of_ne hj]
      rcases hchange with ⟨hsame, rfl⟩ | htransaction
      · rw [hsame]
        exact h.runner j
      · refine (h.runner j).mono hk (Option.eq_none_iff_forall_ne_some.mpr fun t ht => hj ?_)
        -- two runners in a transaction would both have the write lock
        have hwriter : s.writer = some j := by
          refine h.lock j ?_
          rw [Connection.inTransaction, Migrating.connection, ht, Option.isSome_some]
        exact Option.some.inj (hwriter.symm.trans (h.lock i htransaction))
  lock j hjt := by
    by_cases hj : j = i
    · subst hj
      simp only [Migrating.connection, Migrating.withConnection, Function.update_self,
        Connection.inTransaction] at hjt
      simp only [Migrating.withConnection, Connection.inTransaction, hjt, if_true]
    · have hwriter : s.writer = some j := by
        refine h.lock j ?_
        simpa only [Migrating.connection, Migrating.withConnection, Connection.inTransaction,
          Function.update_of_ne hj] using hjt
      have hother : s.writer ≠ some i := fun hi => hj (Option.some.inj (hwriter.symm.trans hi))
      show (if c.inTransaction then some i else if s.writer = some i then none else s.writer) = some j
      split_ifs with hc
      · rcases hbegin hc with hin | hnone
        · exact absurd (h.lock i hin) hother
        · exact absurd (hwriter.symm.trans hnone) (by simp)
      · exact hwriter

/-- A runner that leaves the durable contents alone. -/
theorem withConnection_same (h : KeepsPrefix plan data k s) {transaction}
    (hbegin : transaction.isSome → (s.connection i).inTransaction ∨ s.writer = none)
    (hrunner : MigrationRunner.Follows plan data s.durable k { phase, transaction }) :
    KeepsPrefix plan data k (s.withConnection i { durable := s.durable, transaction } phase) :=
  h.withConnection le_rfl h.durable (Or.inl ⟨rfl, rfl⟩) hbegin hrunner

/-- A block that raises is rolled back. -/
theorem inBlock_of_error (h : KeepsPrefix plan data k s) {statement : SqlM (Database δ) Unit}
    {next : Database δ → MigrationPhase δ} {e : Fault} {transaction}
    (hstatement : statement (s.connection i) = .error e { durable := s.durable, transaction }) :
    KeepsPrefix plan data k (s.inBlock i statement next) := by
  have hprogram : onRaise statement rollback (s.connection i) =
      .error e { durable := s.durable, transaction := none } := by
    rw [onRaise, hstatement]
    rfl
  rw [Migrating.inBlock, Migrating.onConnection, hprogram]
  exact h.withConnection_same (by simp) trivial

/-- A statement of a block that succeeds changes the working copy. -/
theorem inBlock_of_ok (h : KeepsPrefix plan data k s) {statement : SqlM (Database δ) Unit}
    {next : Database δ → MigrationPhase δ} {d : Database δ}
    (htransaction : (s.connection i).inTransaction)
    (hstatement : statement (s.connection i) =
      .ok () { durable := s.durable, transaction := some { contents := d } })
    (hrunner : MigrationRunner.Follows plan data s.durable k
      { phase := next d, transaction := some { contents := d } }) :
    KeepsPrefix plan data k (s.inBlock i statement next) := by
  have hprogram : onRaise statement rollback (s.connection i) =
      .ok () { durable := s.durable, transaction := some { contents := d } } := by
    rw [onRaise, hstatement]
  rw [Migrating.inBlock, Migrating.onConnection, hprogram]
  exact h.withConnection_same (fun _ => Or.inl htransaction) hrunner

/-- **A statement of an operation.** -/
theorem statement (h : KeepsPrefix plan data k s) {operation : MigrationOperation δ}
    {m : Migration δ} {rest : List (Migration δ)}
    (hphase : (s.runners i).phase = .operating operation m rest) {s' : Migrating ι δ}
    (hstep : Migrating.step plan s (.statement i) = some s') : KeepsPrefix plan data k s' := by
  have hfollows := h.runner i
  rw [MigrationRunner.Follows, hphase] at hfollows
  obtain ⟨hrest, d, htransaction, heffect⟩ := hfollows
  have hconnection : s.connection i = ⟨s.durable, some { contents := { s.durable with data := d } }⟩ := by
    rw [Migrating.connection, htransaction]
  have hin : (s.connection i).inTransaction := by rw [hconnection]; rfl
  simp only [Migrating.step, hphase] at hstep
  cases operation with
  | finish =>
    obtain rfl := Option.some.inj hstep
    -- the version is recorded beside the contents that the whole operation made
    have hd : m.operation.effect s.durable.data = some d := heffect.symm
    have hnew : m.version ∉ s.durable.versions := by
      rw [MigrationPlan.mem_versions_upTo h.durable hrest]
      omega
    refine h.inBlock_of_ok (d := { versions := s.durable.versions ++ [m.version], data := d }) hin ?_ ?_
    · simp only [hconnection, Savepoints.execute, Connection.contents, recordVersion, if_neg hnew]
    · refine ⟨k + 1, Nat.le_succ k, _, ?_, rfl, k + 1, le_rfl, ?_⟩
      · rw [MigrationPlan.upTo_succ h.durable hrest, Migration.applied, hd, Option.map_some]
      · rw [← List.drop_drop, ← hrest, List.drop_one, List.tail_cons]
  | raise =>
    obtain rfl := Option.some.inj hstep
    exact h.inBlock_of_error (e := .body) rfl
  | execute statement next =>
    obtain rfl := Option.some.inj hstep
    cases hstatement : statement d with
    | done d' =>
      refine h.inBlock_of_ok (d := { s.durable with data := d' }) hin ?_ ?_
      · simp only [hconnection, Savepoints.execute, Connection.contents, onData, hstatement]
      · refine ⟨hrest, d', rfl, ?_⟩
        rw [← heffect, MigrationOperation.effect, hstatement]
    | aborts =>
      have hraises : Savepoints.execute (onData statement) (s.connection i) = .error .statement (s.connection i) := by
        simp only [hconnection, Savepoints.execute, Connection.contents, onData, hstatement]
      exact h.inBlock_of_error hraises
    | rollsBack =>
      have hraises : Savepoints.execute (onData statement) (s.connection i) =
          .error .statement { durable := s.durable, transaction := none } := by
        simp only [hconnection, Savepoints.execute, Connection.contents, onData, hstatement]
      exact h.inBlock_of_error hraises

/-- **Looking the version up.** A migration that another runner applied meanwhile is skipped; the
one that runs is the next of the plan. -/
theorem select (h : KeepsPrefix plan data k s) {m : Migration δ} {rest : List (Migration δ)}
    (hphase : (s.runners i).phase = .begun m rest) {s' : Migrating ι δ}
    (hstep : Migrating.step plan s (.select i) = some s') : KeepsPrefix plan data k s' := by
  have hfollows := h.runner i
  rw [MigrationRunner.Follows, hphase] at hfollows
  obtain ⟨htransaction, j, hj, hrest⟩ := hfollows
  have hconnection : s.connection i = ⟨s.durable, some { contents := s.durable }⟩ := by
    rw [Migrating.connection, htransaction]
  simp only [Migrating.step, hphase, Option.some.injEq] at hstep
  subst hstep
  have hmem := MigrationPlan.mem_versions_upTo h.durable hrest
  rw [hconnection]
  refine h.withConnection_same (fun _ => Or.inl (by rw [hconnection]; rfl)) ?_
  show MigrationRunner.Follows plan data s.durable k
    { phase := if m.version ∈ s.durable.versions then _ else _, transaction := _ }
  split_ifs with hversion
  · have hjk : j < k := hmem.mp hversion
    refine ⟨k, le_rfl, s.durable, h.durable, rfl, j + 1, hjk, ?_⟩
    rw [← List.drop_drop, ← hrest, List.drop_one, List.tail_cons]
  · have hjk : ¬j < k := fun hlt => hversion (hmem.mpr hlt)
    obtain rfl : j = k := by omega
    exact ⟨hrest, s.durable.data, rfl, rfl⟩

/-- **`COMMIT`.** If it succeeds, more of the plan may be applied. -/
theorem commit (h : KeepsPrefix plan data k s) {outcome : CommitOutcome} {rest : List (Migration δ)}
    (hphase : (s.runners i).phase = .recorded rest) {s' : Migrating ι δ}
    (hstep : Migrating.step plan s (.commit i outcome) = some s') : ∃ k', KeepsPrefix plan data k' s' := by
  have hfollows := h.runner i
  rw [MigrationRunner.Follows, hphase] at hfollows
  obtain ⟨k', hk', d, hd, htransaction, j, hj, hrest⟩ := hfollows
  have hconnection : s.connection i = ⟨s.durable, some { contents := d }⟩ := by
    rw [Migrating.connection, htransaction]
  have hin : (s.connection i).inTransaction := by rw [hconnection]; rfl
  simp only [Migrating.step, hphase, Option.some.injEq] at hstep
  subst hstep
  rw [Migrating.onConnection, hconnection]
  cases outcome with
  | done =>
    refine ⟨k', h.withConnection hk' hd (Or.inr hin) ?_ ⟨rfl, j, hj, hrest⟩⟩
    intro hc
    exact absurd hc Bool.false_ne_true
  | staysOpen => exact ⟨k, h.withConnection_same (fun _ => Or.inl hin) trivial⟩
  | rollsBack =>
    refine ⟨k, h.withConnection_same (fun hc => ?_) trivial⟩
    exact absurd hc Bool.false_ne_true

/-- **One step.** -/
theorem step (h : KeepsPrefix plan data k s) {label : MigrationLabel ι} {s' : Migrating ι δ}
    (hstep : Migrating.step plan s label = some s') : ∃ k', KeepsPrefix plan data k' s' := by
  cases label with
  | start i =>
    cases hphase : (s.runners i).phase with
    | idle =>
      simp only [Migrating.step, hphase, Option.some.injEq] at hstep
      subst hstep
      have htransaction : (s.runners i).transaction = none := by
        simpa only [MigrationRunner.Follows, hphase] using h.runner i
      rw [Migrating.connection, htransaction]
      exact ⟨k, h.withConnection_same (by simp) ⟨rfl, 0, Nat.zero_le k, List.drop_zero.symm⟩⟩
    | _ => simp [Migrating.step, hphase] at hstep
  | begin i =>
    cases hphase : (s.runners i).phase with
    | ready todo =>
      cases todo with
      | nil => simp [Migrating.step, hphase] at hstep
      | cons m rest =>
        obtain ⟨htransaction, hrest⟩ : _ ∧ _ := by
          simpa only [MigrationRunner.Follows, hphase] using h.runner i
        simp only [Migrating.step, hphase] at hstep
        split_ifs at hstep with hwriter
        obtain rfl := Option.some.inj hstep
        rw [Migrating.onConnection, Migrating.connection, htransaction]
        exact ⟨k, h.withConnection_same (fun _ => Or.inr hwriter) ⟨rfl, hrest⟩⟩
    | _ => simp [Migrating.step, hphase] at hstep
  | refused i =>
    cases hphase : (s.runners i).phase with
    | ready todo =>
      obtain ⟨htransaction, -⟩ : _ ∧ _ := by
        simpa only [MigrationRunner.Follows, hphase] using h.runner i
      simp only [Migrating.step, hphase, Option.some.injEq] at hstep
      subst hstep
      rw [Migrating.connection, htransaction]
      exact ⟨k, h.withConnection_same (by simp) trivial⟩
    | _ => simp [Migrating.step, hphase] at hstep
  | select i =>
    cases hphase : (s.runners i).phase with
    | begun m rest => exact ⟨k, h.select hphase hstep⟩
    | _ => simp [Migrating.step, hphase] at hstep
  | statement i =>
    cases hphase : (s.runners i).phase with
    | operating operation m rest => exact ⟨k, h.statement hphase hstep⟩
    | _ => simp [Migrating.step, hphase] at hstep
  | fault i =>
    cases hphase : (s.runners i).phase with
    | begun _ _ | operating _ _ _ | recorded _ =>
      simp only [Migrating.step, hphase, Option.some.injEq] at hstep
      subst hstep
      exact ⟨k, h.inBlock_of_error (e := .body) rfl⟩
    | _ => simp [Migrating.step, hphase] at hstep
  | commit i outcome =>
    cases hphase : (s.runners i).phase with
    | recorded rest => exact h.commit hphase hstep
    | _ => simp [Migrating.step, hphase] at hstep
  | close i =>
    obtain rfl := Option.some.inj hstep
    exact ⟨k, h.withConnection_same (by simp) rfl⟩

end KeepsPrefix

/-- **Runs.** -/
theorem keepsPrefix_run {s s' : Migrating ι δ} {labels : List (MigrationLabel ι)}
    (h : ∃ k, KeepsPrefix plan data k s)
    (hrun : TransitionSystem.run (Migrating.step plan) s labels = some s') :
    ∃ k, KeepsPrefix plan data k s' :=
  TransitionSystem.run_invariant (I := fun s => ∃ k, KeepsPrefix plan data k s)
    (fun _ _ _ ⟨_, h⟩ hstep => h.step hstep) h hrun

/-- The database with a prefix of the plan, and no runner started. -/
def Migrating.initial (ι : Type) (d : Database δ) : Migrating ι δ :=
  { durable := d, runners := fun _ => { phase := .idle } }

/-- **A prefix of the plan.** However the runners interleave and fail, each migration of a prefix has
been applied once and in order. -/
theorem run_prefix {d : Database δ} (hd : plan.Prefix data d) {s : Migrating ι δ}
    {labels : List (MigrationLabel ι)}
    (hrun : TransitionSystem.run (Migrating.step plan) (Migrating.initial ι d) labels = some s) :
    plan.Prefix data s.durable := by
  obtain ⟨ms, hms, hd⟩ := hd
  have hinit : KeepsPrefix plan data ms.length (Migrating.initial ι d) := by
    refine ⟨?_, fun i => rfl, fun i hi => absurd hi Bool.false_ne_true⟩
    rw [MigrationPlan.upTo, ← List.prefix_iff_eq_take.mp hms, hd]
    rfl
  obtain ⟨k, h⟩ := keepsPrefix_run ⟨_, hinit⟩ hrun
  exact ⟨_, List.take_prefix k _, h.durable⟩

end Invariant

/-! ### Atomicity of the store -/

/-- A statement that adds one, in a body or in an operation. -/
private def increments (d : ℕ) : Outcome ℕ := .done (d + 1)

/-- Two migrations. -/
private def incrementPlan : MigrationPlan ℕ where
  migrations := [⟨1, .execute increments fun _ => .finish⟩, ⟨2, .execute increments fun _ => .finish⟩]
  nodup := by decide

/-- Two runners: the second finds the first migration applied, applies the other, and is lost before
its last commit. -/
private def incrementLabels : List (MigrationLabel Bool) :=
  [.start true, .start false, .begin true, .select true, .statement true, .statement true,
    .commit true .done, .begin false, .select false, .commit false .done, .begin false,
    .select false, .statement false, .statement false, .close false]

end EvernightAI
