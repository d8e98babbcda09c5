import EvernightAI.Image.Task

/-!
# The SQLite store of image tasks

A row of `image_tasks` holds a task twice: as the dumps `payload` and `summary`, and in columns
that the statements search and update. `renew` only updates a column, so a payload can be stale;
`get` lays the columns `worker_id` and `lease_expires_at` over it. Times are columns of text.

`ImageTaskRow.Coherent` is what ties the columns to the payload, and `ImageTaskRow.task` the task
that a coherent row stands for. Under it the store does to its rows what the dictionary does to
the tasks (`SQLiteImageTaskStore.image_create` and its siblings).
-/

namespace EvernightAI

/-- A row of `image_tasks`; the dumps are kept as what they dump. -/
structure ImageTaskRow where
  taskId : String
  ownerId : Option String
  sessionId : Option String
  status : ImageTaskStatus
  createdAt : String
  workerId : Option String
  leaseExpiresAt : Option String
  summary : ImageTaskSummary
  payload : ImageTask
  deriving DecidableEq, Repr

namespace ImageTaskRow

variable (row : ImageTaskRow)

/-- The task a row stands for: the payload under the columns that `get` lays over it. -/
def task : ImageTask :=
  { row.payload with
    taskId := row.taskId
    workerId := row.workerId
    leaseExpiresAt := row.leaseExpiresAt.bind UtcTime.fromisoformat }

theorem task_taskId (row : ImageTaskRow) : row.task.taskId = row.taskId := rfl

/-- **The columns repeat the payload.** The worker and the lease may differ from it; the lease is
the text of a time. -/
structure Coherent : Prop where
  taskId : row.taskId = row.payload.taskId
  ownerId : row.ownerId = row.payload.ownerId
  sessionId : row.sessionId = row.payload.sessionId
  status : row.status = row.payload.status
  createdAt : row.createdAt = row.payload.createdAt.isoformat
  summary : row.summary = row.payload.summary
  lease : ∃ lease : Option UtcTime, row.leaseExpiresAt = lease.map UtcTime.isoformat

/-- The row `create` inserts. -/
def ofTask (task : ImageTask) : ImageTaskRow where
  taskId := task.taskId
  ownerId := task.ownerId
  sessionId := task.sessionId
  status := task.status
  createdAt := task.createdAt.isoformat
  workerId := none
  leaseExpiresAt := none
  summary := task.summary
  payload := task

/-- The columns that `_update` and `claim` set. -/
def set (task : ImageTask) : ImageTaskRow :=
  { row with
    status := task.status
    workerId := task.workerId
    leaseExpiresAt := task.leaseExpiresAt.map UtcTime.isoformat
    summary := task.summary
    payload := task }

/-- `(created_at, task_id)`, as texts. -/
def position : String ×ₗ String := toLex (row.createdAt, row.taskId)

end ImageTaskRow

/-- The table `image_tasks`. -/
abbrev ImageTaskTable := Table fun row : ImageTaskRow => row.taskId

namespace SQLiteImageTaskStore

variable (table : ImageTaskTable)

def hasActive : Bool := table.rows.any (·.status.isActive)

/-- `datetime.fromisoformat(row[2]) if row[2] else None` -/
def readLease : Option String → Except Error (Option UtcTime)
  | none => .ok none
  | some text =>
    match UtcTime.fromisoformat text with
    | some lease => .ok (some lease)
    | none => .error {
        errorType := .other "ValueError"
        message := "Invalid isoformat string: '" ++ text ++ "'" }

def get (taskId : String) (scope : Option PrincipalScope) : Except Error ImageTask :=
  match table.find? taskId with
  | none => .error imageTaskNotFound
  | some row =>
    if scopePermits scope row.payload.ownerId then
      (readLease row.leaseExpiresAt).map fun lease =>
        { row.payload with workerId := row.workerId, leaseExpiresAt := lease }
    else .error imageTaskNotFound

def getSummary (taskId : String) (scope : Option PrincipalScope) : Except Error ImageTaskSummary :=
  match table.find? taskId with
  | none => .error imageTaskNotFound
  | some row => if scopePermits scope row.ownerId then .ok row.summary else .error imageTaskNotFound

/-- The `WHERE` clause of `list_tasks`. -/
def isListed (cursor : Option ImageHistoryCursor) (sessionId : Option String)
    (scope : Option PrincipalScope) (row : ImageTaskRow) : Bool :=
  ((scope.bind (·.ownerId)).all fun owner => row.ownerId = some owner) &&
    sessionId.all (row.sessionId = some ·) &&
    cursor.all fun cursor => row.position < toLex (cursor.createdAt.isoformat, cursor.recordId)

/-- `LIMIT limit`: a negative limit is none. -/
def limited {ρ : Type} (limit : Int) (rows : List ρ) : List ρ :=
  if limit < 0 then rows else rows.take limit.toNat

def listTasks (limit : Int) (cursor : Option ImageHistoryCursor) (sessionId : Option String)
    (scope : Option PrincipalScope) : List ImageTaskSummary :=
  (limited limit ((table.select (isListed cursor sessionId scope)).insertionSort
    fun a b => b.position ≤ a.position)).map (·.summary)

def deleteForRecord (recordId : String) : ImageTaskTable :=
  table.deleteWhere (·.taskId = recordId)

def delete (taskId : String) (scope : Option PrincipalScope) :
    Except Error Unit × ImageTaskTable :=
  match table.find? taskId with
  | none => (.error imageTaskNotFound, table)
  | some row =>
    if !scopePermits scope row.ownerId then (.error imageTaskNotFound, table)
    else if row.status.isActive then (.error imageTaskInUse, table)
    else (.ok (), table.deleteWhere (·.taskId = taskId))

def create (task : ImageTask) : Except Error Bool × ImageTaskTable :=
  match table.find? task.taskId with
  | some row =>
    if row.payload.ownerId ≠ task.ownerId then (.error imageTaskNotFound, table)
    else if !sameSubmission row.payload task then (.error imageTaskTaken, table)
    else (.ok false, table)
  | none =>
    if maxActiveImageTasks ≤
        table.rows.countP fun row => row.ownerId = task.ownerId && row.status.isActive then
      (.error imageTaskLimit, table)
    else (.ok true, table.upsert (.ofTask task))

/-- `SELECT … WHERE status = 'queued' ORDER BY created_at, task_id` -/
def queue : List ImageTaskRow :=
  (table.select (·.status = .queued)).insertionSort fun a b => a.position ≤ b.position

def claim (workerId : String) (leaseExpiresAt now : UtcTime) :
    Option ImageTask × ImageTaskTable :=
  match (queue table).head? with
  | none => (none, table)
  | some row =>
    let task := row.payload.claimed workerId leaseExpiresAt now
    (some task, table.updateWhere (fun r => r.taskId = task.taskId && r.status = .queued)
      (·.set task) fun _ => rfl)

/-- The number of rows that an update with this condition matches is 1. -/
def updatesOne (p : ImageTaskRow → Bool) : Bool := table.rows.countP p = 1

/-- `… WHERE task_id = ? AND status = 'running' AND worker_id IS ?` -/
def isHeld (taskId : String) (workerId : Option String) (row : ImageTaskRow) : Bool :=
  row.taskId = taskId && row.status = .running && row.workerId = workerId

def renew (taskId workerId : String) (leaseExpiresAt : UtcTime) : Bool × ImageTaskTable :=
  (updatesOne table (isHeld taskId (some workerId)),
    table.updateWhere (isHeld taskId (some workerId))
      (fun row => { row with leaseExpiresAt := some leaseExpiresAt.isoformat }) fun _ => rfl)

/-- `_update` -/
def update (task : ImageTask) (workerId : Option String) : Bool × ImageTaskTable :=
  (updatesOne table (isHeld task.taskId workerId),
    table.updateWhere (isHeld task.taskId workerId) (·.set task) fun _ => rfl)

def finish (task : ImageTask) (workerId : String) : Bool × ImageTaskTable :=
  update table task.finished (some workerId)

/-- `SELECT payload … WHERE status = 'running' AND (lease_expires_at IS NULL OR …)` -/
def isExpired (now : UtcTime) (row : ImageTaskRow) : Bool :=
  row.status = .running && row.leaseExpiresAt.all fun lease => lease ≤ now.isoformat

/-- One turn of the loop in `recover_expired`: the row is read again. -/
def recoverTask (now : UtcTime) (clock : String → UtcTime) (taskId : String) :
    Except Error ImageTaskTable :=
  (get table taskId none).map fun current =>
    if current.isExpired now then
      (update table (current.interrupted (clock current.taskId)) current.workerId).2
    else table

/-- `recover_expired`: a turn that raises rolls the transaction back. -/
def recoverExpired (now : UtcTime) (clock : String → UtcTime) :
    Except Error Unit × ImageTaskTable :=
  match (table.select (isExpired now)).foldlM
      (fun table row => recoverTask table now clock row.payload.taskId) table with
  | .error err => (.error err, table)
  | .ok table => (.ok (), table)

end SQLiteImageTaskStore

open SQLiteImageTaskStore in
/-- `SQLiteImageTaskStore` -/
def sqliteImageTaskStore : ImageTaskStoreProtocol ImageTaskTable where
  hasActive := hasActive
  get taskId scope table := get table taskId scope
  getSummary taskId scope table := getSummary table taskId scope
  listTasks limit cursor sessionId scope table := .ok (listTasks table limit cursor sessionId scope)
  deleteForRecord recordId table := (.ok (), deleteForRecord table recordId)
  delete taskId scope table := delete table taskId scope
  create task table := create table task
  claim workerId lease now table := (claim table workerId lease now).map .ok id
  renew taskId workerId lease table := (renew table taskId workerId lease).map .ok id
  finish task workerId table := (finish table task workerId).map .ok id
  recoverExpired now clock table := recoverExpired table now clock

/-! ### Rows and the tasks they stand for -/

namespace ImageTaskRow

variable {row row' : ImageTaskRow}

theorem Coherent.ofTask (task : ImageTask) : (ImageTaskRow.ofTask task).Coherent where
  taskId := rfl
  ownerId := rfl
  sessionId := rfl
  status := rfl
  createdAt := rfl
  summary := rfl
  lease := ⟨none, rfl⟩

/-- A created row stands for the created task, if nobody holds that. -/
theorem task_ofTask {task : ImageTask} (hworker : task.workerId = none)
    (hlease : task.leaseExpiresAt = none) : (ofTask task).task = task := by
  obtain ⟨submit, owner, status, record, type, message, created, updated, worker, lease⟩ := task
  obtain rfl : worker = none := hworker
  obtain rfl : lease = none := hlease
  rfl

theorem readLease_isoformat (lease : Option UtcTime) :
    (lease.map UtcTime.isoformat).bind UtcTime.fromisoformat = lease := by
  rcases lease with _ | lease
  · rfl
  · exact UtcTime.fromisoformat_isoformat lease

/-- A row that was set stands for what it was set to. -/
theorem task_set {task : ImageTask} (h : task.taskId = row.taskId) : (row.set task).task = task := by
  simp only [ImageTaskRow.task, set, readLease_isoformat, ← h]

/-- Setting a row keeps it coherent when the columns that are not set agree. -/
theorem Coherent.set (hrow : row.Coherent) {task : ImageTask} (hid : task.taskId = row.taskId)
    (howner : task.ownerId = row.task.ownerId) (hsession : task.sessionId = row.task.sessionId)
    (hcreated : task.createdAt = row.task.createdAt) : (row.set task).Coherent where
  taskId := hid.symm
  ownerId := hrow.ownerId.trans howner.symm
  sessionId := hrow.sessionId.trans hsession.symm
  status := rfl
  createdAt := hrow.createdAt.trans (congrArg _ hcreated.symm)
  summary := rfl
  lease := ⟨task.leaseExpiresAt, rfl⟩

namespace Coherent

variable (h : row.Coherent)

include h

/-- `get` reads the task the row stands for. -/
theorem payload_eq : (SQLiteImageTaskStore.readLease row.leaseExpiresAt).map (fun lease =>
    { row.payload with workerId := row.workerId, leaseExpiresAt := lease }) = .ok row.task := by
  obtain ⟨lease, hlease⟩ := h.lease
  have hread : SQLiteImageTaskStore.readLease row.leaseExpiresAt = .ok lease := by
    rw [hlease]
    rcases lease with _ | lease
    · rfl
    · simp only [Option.map_some, SQLiteImageTaskStore.readLease,
        UtcTime.fromisoformat_isoformat]
  rw [hread, ImageTaskRow.task, hlease, readLease_isoformat, h.taskId]
  rfl

theorem summary_eq : row.summary = row.task.summary := by
  rw [h.summary, ImageTask.summary, ImageTask.summary, ImageTaskRow.task, h.taskId]

theorem isExpired_eq (now : UtcTime) :
    SQLiteImageTaskStore.isExpired now row = row.task.isExpired now := by
  obtain ⟨lease, hlease⟩ := h.lease
  have hstatus : row.task.status = row.status := h.status.symm
  rw [SQLiteImageTaskStore.isExpired, ImageTask.isExpired, hstatus]
  simp only [ImageTaskRow.task, hlease, readLease_isoformat]
  rcases lease with _ | lease
  · rfl
  · simp only [Option.map_some, Option.all_some, UtcTime.isoformat_le_isoformat]

/-- Positions are compared in the texts as in the times. -/
theorem position_le (h' : row'.Coherent) :
    row.position ≤ row'.position ↔ row.task.position ≤ row'.task.position := by
  rw [position, position, ImageTask.position, ImageTask.position, Prod.Lex.toLex_le_toLex,
    Prod.Lex.toLex_le_toLex, h.createdAt, h'.createdAt, UtcTime.isoformat_lt_isoformat,
    UtcTime.isoformat_inj]
  rfl

theorem isListed_eq (cursor : Option ImageHistoryCursor) (sessionId : Option String)
    (scope : Option PrincipalScope) :
    ImageTaskStore.isListed cursor sessionId scope row.task =
      SQLiteImageTaskStore.isListed cursor sessionId scope row := by
  have hscope : scopePermits scope row.task.ownerId =
      (scope.bind (·.ownerId)).all fun owner => row.ownerId = some owner := by
    rw [h.ownerId]
    rcases scope with _ | ⟨_ | owner⟩
    · rfl
    · rfl
    · simp only [scopePermits, PrincipalScope.permits, Option.all_some, Option.bind_some,
        reduceCtorEq, false_or]
      rfl
  have hcursor : ∀ c : ImageHistoryCursor,
      row.task.position < toLex (c.createdAt, c.recordId) ↔
        row.position < toLex (c.createdAt.isoformat, c.recordId) := fun c => by
    rw [position, ImageTask.position, Prod.Lex.toLex_lt_toLex, Prod.Lex.toLex_lt_toLex,
      h.createdAt, UtcTime.isoformat_lt_isoformat, UtcTime.isoformat_inj]
    rfl
  have hsession : row.task.sessionId = row.sessionId := h.sessionId.symm
  rw [ImageTaskStore.isListed, SQLiteImageTaskStore.isListed, hscope, hsession]
  simp only [hcursor]

end Coherent

end ImageTaskRow

namespace SQLiteImageTaskStore

open ImageTaskRow

/-- Every row of the table is coherent. -/
def Coherent (table : ImageTaskTable) : Prop := ∀ row ∈ table, row.Coherent

/-- The tasks that a table stands for. -/
def tasks (table : ImageTaskTable) : ImageTasks := table.image ImageTaskRow.task task_taskId

variable {table : ImageTaskTable} (h : Coherent table)

/-! ### Reading -/

theorem find?_tasks (table : ImageTaskTable) (taskId : String) :
    (tasks table).find? taskId = (table.find? taskId).map ImageTaskRow.task :=
  table.find?_image taskId

section Reading

include h

theorem hasActive_eq : hasActive table = ImageTaskStore.hasActive (tasks table) := by
  rw [hasActive, ImageTaskStore.hasActive, tasks, Table.image, List.any_map, Bool.eq_iff_iff,
    List.any_eq_true, List.any_eq_true]
  refine exists_congr fun row => and_congr_right fun hrow => ?_
  rw [Function.comp_apply, ImageTask.isActive, (h row hrow).status]
  rfl

theorem get_eq (taskId : String) (scope : Option PrincipalScope) :
    get table taskId scope = ImageTaskStore.get (tasks table) taskId scope := by
  rw [get, ImageTaskStore.get, find?_tasks]
  rcases hrow : table.find? taskId with _ | row
  · rfl
  · have hcoherent := h row (Table.find?_eq_some.mp hrow).1
    simp only [Option.map_some, hcoherent.payload_eq]
    rfl

theorem getSummary_eq (taskId : String) (scope : Option PrincipalScope) :
    getSummary table taskId scope = ImageTaskStore.getSummary (tasks table) taskId scope := by
  rw [getSummary, ImageTaskStore.getSummary, ImageTaskStore.get, find?_tasks]
  rcases hrow : table.find? taskId with _ | row
  · rfl
  · have hcoherent := h row (Table.find?_eq_some.mp hrow).1
    have howner : row.ownerId = row.task.ownerId := hcoherent.ownerId
    simp only [Option.map_some, hcoherent.summary_eq, howner]
    split <;> rfl

/-- Sorting the rows sorts the tasks. -/
theorem map_insertionSort_rows {rows : List ImageTaskRow} (hrows : ∀ row ∈ rows, row ∈ table) :
    (rows.insertionSort fun a b => a.position ≤ b.position).map ImageTaskRow.task =
        (rows.map ImageTaskRow.task).insertionSort (fun a b => a.position ≤ b.position) ∧
      (rows.insertionSort fun a b => b.position ≤ a.position).map ImageTaskRow.task =
        (rows.map ImageTaskRow.task).insertionSort fun a b => b.position ≤ a.position := by
  constructor
  · exact List.map_insertionSort _ _ _ _ fun a ha b hb =>
      (h a (hrows a ha)).position_le (h b (hrows b hb))
  · exact List.map_insertionSort _ _ _ _ fun a ha b hb =>
      (h b (hrows b hb)).position_le (h a (hrows a ha))

theorem listTasks_eq {limit : Int} (hlimit : 0 ≤ limit) (cursor : Option ImageHistoryCursor)
    (sessionId : Option String) (scope : Option PrincipalScope) :
    listTasks table limit cursor sessionId scope =
      ImageTaskStore.listTasks (tasks table) limit cursor sessionId scope := by
  have hselect : (tasks table).select (ImageTaskStore.isListed cursor sessionId scope) =
      (table.select (isListed cursor sessionId scope)).map ImageTaskRow.task := by
    rw [tasks, Table.select_image]
    refine congrArg _ (List.filter_congr fun row hrow => ?_)
    exact (h row hrow).isListed_eq cursor sessionId scope
  have hmem : ∀ row ∈ table.select (isListed cursor sessionId scope), row ∈ table :=
    fun row hrow => (Table.mem_select.mp hrow).1
  rw [listTasks, ImageTaskStore.listTasks, hselect, ← (map_insertionSort_rows h hmem).2, limited,
    ImageTaskStore.firstTasks, if_neg (by omega), if_neg (by omega), ← List.map_take, List.map_map]
  refine List.map_congr_left fun row hrow => ?_
  have hrow' : row ∈ table := hmem row (List.mem_insertionSort _ |>.mp (List.mem_of_mem_take hrow))
  exact (h row hrow').summary_eq

theorem queue_eq : ImageTaskStore.queue (tasks table) = (queue table).map ImageTaskRow.task := by
  have hselect : (tasks table).select (fun task => task.status = .queued) =
      (table.select fun row => row.status = .queued).map ImageTaskRow.task := by
    rw [tasks, Table.select_image]
    refine congrArg _ (List.filter_congr fun row hrow => ?_)
    rw [Function.comp_apply, (h row hrow).status]
    rfl
  rw [ImageTaskStore.queue, queue, hselect, ← (map_insertionSort_rows h fun row hrow => ?_).1]
  exact (Table.mem_select.mp hrow).1

end Reading

/-! ### Writing -/

/-- A call on the rows did what the call on the tasks did. -/
structure Agrees {α : Type} (rows : α × ImageTaskTable) (dict : α × ImageTasks) : Prop where
  reply : rows.1 = dict.1
  represents : tasks rows.2 = dict.2
  coherent : Coherent rows.2

section Writing

include h

/-- A call that leaves the rows alone. -/
theorem Agrees.same {α : Type} (reply : α) : Agrees (reply, table) (reply, tasks table) :=
  ⟨rfl, rfl, h⟩

theorem coherent_deleteWhere (p : ImageTaskRow → Bool) : Coherent (table.deleteWhere p) :=
  fun row hrow => h row (Table.mem_deleteWhere.mp hrow).1

theorem deleteForRecord_agrees (recordId : String) :
    Agrees (Except.ok (ε := Error) (), deleteForRecord table recordId)
      (.ok (), ImageTaskStore.deleteForRecord (tasks table) recordId) :=
  ⟨rfl, (table.deleteWhere_image fun task : ImageTask => task.taskId = recordId).symm,
    coherent_deleteWhere h _⟩

theorem delete_agrees (taskId : String) (scope : Option PrincipalScope) :
    Agrees (delete table taskId scope) (ImageTaskStore.delete (tasks table) taskId scope) := by
  rw [delete, ImageTaskStore.delete, ImageTaskStore.get, find?_tasks]
  rcases hrow : table.find? taskId with _ | row
  · exact .same h _
  · have hcoherent := h row (Table.find?_eq_some.mp hrow).1
    have howner : row.task.ownerId = row.ownerId := hcoherent.ownerId.symm
    have hactive : row.task.isActive = row.status.isActive := by
      rw [ImageTask.isActive, hcoherent.status]
      rfl
    simp only [Option.map_some, howner]
    rcases scopePermits scope row.ownerId with _ | _
    · exact .same h _
    · simp only [Bool.not_true, Bool.false_eq_true, if_false, if_true, hactive]
      split
      · exact .same h _
      · exact ⟨rfl, (table.deleteWhere_image fun task : ImageTask => task.taskId = taskId).symm,
          coherent_deleteWhere h _⟩

theorem create_agrees {task : ImageTask} (hworker : task.workerId = none)
    (hlease : task.leaseExpiresAt = none) :
    Agrees (create table task) (ImageTaskStore.create (tasks table) task) := by
  have hcount : ((tasks table).rows.countP fun item =>
      item.ownerId = task.ownerId && item.isActive) =
        table.rows.countP fun row => row.ownerId = task.ownerId && row.status.isActive := by
    rw [tasks, Table.image, List.countP_map]
    refine List.countP_congr fun row hrow => ?_
    rw [Function.comp_apply, ImageTask.isActive, (h row hrow).ownerId, (h row hrow).status]
    rfl
  rw [create, ImageTaskStore.create, find?_tasks, hcount]
  rcases table.find? task.taskId with _ | row
  · simp only [Option.map_none]
    split
    · exact .same h _
    · refine ⟨rfl, ?_, fun row hrow => ?_⟩
      · exact (table.image_upsert _).trans (by rw [task_ofTask hworker hlease]; rfl)
      · rcases Table.mem_upsert.mp hrow with rfl | ⟨hrow, -⟩
        · exact .ofTask task
        · exact h row hrow
  · have hsame : sameSubmission row.task task = sameSubmission row.payload task := rfl
    have howner : row.task.ownerId = row.payload.ownerId := rfl
    simp only [Option.map_some, hsame, howner]
    split
    · exact .same h _
    · split <;> exact .same h _

omit h in
/-- Only the row of a task can be held. -/
theorem isHeld_iff {row : ImageTaskRow} (hrow : row ∈ table) {workerId : Option String}
    (hheld : row.status = .running ∧ row.workerId = workerId) :
    ∀ x ∈ table, isHeld row.taskId workerId x ↔ x.taskId = row.taskId := by
  intro x hx
  simp only [isHeld, Bool.and_eq_true, decide_eq_true_eq]
  refine ⟨fun hx' => hx'.1.1, fun hkey => ?_⟩
  obtain rfl := Table.eq_of_key_eq hx hrow hkey
  exact ⟨⟨rfl, hheld.1⟩, hheld.2⟩

/-- A row that is rewritten under its key stays coherent with the others. -/
theorem coherent_updateWhere {p : ImageTaskRow → Bool} {g : ImageTaskRow → ImageTaskRow}
    (hg : ∀ row, (g row).taskId = row.taskId)
    (hset : ∀ row ∈ table, p row = true → (g row).Coherent) :
    Coherent (table.updateWhere p g hg) := by
  intro row hrow
  obtain ⟨old, hold, rfl⟩ := Table.mem_updateWhere.mp hrow
  split
  · next hp => exact hset old hold hp
  · exact h old hold

/-- **An update of the held row** is the write of the dictionary over the held task. -/
theorem updateHeld_agrees (taskId workerId : String) {g : ImageTaskRow → ImageTaskRow}
    {hg : ∀ row, (g row).taskId = row.taskId} {next : ImageTask → ImageTask}
    (hset : ∀ row ∈ table, isHeld taskId (some workerId) row = true →
      (g row).Coherent ∧ (g row).task = next row.task) :
    Agrees
      (updatesOne table (isHeld taskId (some workerId)),
        table.updateWhere (isHeld taskId (some workerId)) g hg)
      (match (tasks table).find? taskId with
      | none => (false, tasks table)
      | some task =>
        if task.status ≠ .running ∨ task.workerId ≠ some workerId then (false, tasks table)
        else (true, (tasks table).upsert (next task))) := by
  have hnone : (∀ row ∈ table, isHeld taskId (some workerId) row = false) →
      Agrees
        (updatesOne table (isHeld taskId (some workerId)),
          table.updateWhere (isHeld taskId (some workerId)) g hg) (false, tasks table) := by
    intro hrows
    have hcount : table.rows.countP (isHeld taskId (some workerId)) = 0 :=
      List.countP_eq_zero.mpr fun row hrow => by rw [hrows row hrow]; exact Bool.false_ne_true
    rw [updatesOne, hcount, Table.updateWhere_eq_self hrows]
    exact .same h _
  rw [find?_tasks]
  rcases hfind : table.find? taskId with _ | row
  · refine hnone fun row hrow => ?_
    rw [isHeld, decide_eq_false (Table.find?_eq_none.mp hfind row hrow), Bool.false_and,
      Bool.false_and]
  · obtain ⟨hrow, rfl⟩ := Table.find?_eq_some.mp hfind
    have hstatus : row.task.status = row.status := (h row hrow).status.symm
    have hworker : row.task.workerId = row.workerId := rfl
    simp only [Option.map_some, hstatus, hworker]
    by_cases hheld : row.status = .running ∧ row.workerId = some workerId
    · have honly := isHeld_iff hrow hheld
      have hself := (honly row hrow).mpr rfl
      rw [if_neg (by rw [hheld.1, hheld.2]; simp only [ne_eq, not_true_eq_false, or_self,
        not_false_eq_true])]
      refine ⟨?_, ?_, coherent_updateWhere h hg fun x hx hp => (hset x hx hp).1⟩
      · rw [updatesOne, Table.countP_eq_one hrow honly]
        rfl
      · rw [← (hset row hrow hself).2]
        exact Table.image_updateWhere hrow hg honly
    · rw [if_pos (not_and_or.mp hheld)]
      refine hnone fun x hx => Bool.eq_false_iff.mpr fun hx' => hheld ?_
      simp only [isHeld, Bool.and_eq_true, decide_eq_true_eq] at hx'
      obtain rfl := Table.eq_of_key_eq hx hrow hx'.1.1
      exact ⟨hx'.1.2, hx'.2⟩

theorem renew_agrees (taskId workerId : String) (leaseExpiresAt : UtcTime) :
    Agrees (renew table taskId workerId leaseExpiresAt)
      (ImageTaskStore.renew (tasks table) taskId workerId leaseExpiresAt) := by
  refine updateHeld_agrees h taskId workerId fun row hrow _ => ⟨?_, ?_⟩
  · exact { h row hrow with lease := ⟨some leaseExpiresAt, rfl⟩ }
  · simp only [ImageTaskRow.task, ImageTask.renewed, Option.bind_some,
      UtcTime.fromisoformat_isoformat]

/-- `finish` needs the task it is given to be a later version of the stored one. -/
theorem finish_agrees {task : ImageTask} {workerId : String}
    (hsame : ∀ current, (tasks table).find? task.taskId = some current →
      current.status = .running → current.workerId = some workerId →
        task.ownerId = current.ownerId ∧ task.sessionId = current.sessionId ∧
          task.createdAt = current.createdAt) :
    Agrees (finish table task workerId) (ImageTaskStore.finish (tasks table) task workerId) := by
  refine updateHeld_agrees h task.taskId workerId fun row hrow hheld => ?_
  simp only [isHeld, Bool.and_eq_true, decide_eq_true_eq] at hheld
  obtain ⟨⟨hid, hrunning⟩, hworker⟩ := hheld
  have hfind : (tasks table).find? task.taskId = some row.task := by
    rw [find?_tasks, Table.find?_eq_some.mpr ⟨hrow, hid⟩]
    rfl
  obtain ⟨howner, hsession, hcreated⟩ :=
    hsame row.task hfind ((h row hrow).status.symm.trans hrunning) hworker
  exact ⟨(h row hrow).set hid.symm howner hsession hcreated, task_set hid.symm⟩

theorem claim_agrees (workerId : String) (leaseExpiresAt now : UtcTime) :
    Agrees (claim table workerId leaseExpiresAt now)
      (ImageTaskStore.claim (tasks table) workerId leaseExpiresAt now) := by
  rw [claim, ImageTaskStore.claim, queue_eq h, List.head?_map]
  rcases hhead : (queue table).head? with _ | row
  · exact .same h _
  · obtain ⟨hrow, hqueued⟩ : row ∈ table ∧ row.status = .queued := by
      have hmem := (List.mem_insertionSort _).mp (List.mem_of_head? hhead)
      simpa only [Table.mem_select, decide_eq_true_eq] using hmem
    have hcoherent := h row hrow
    have hclaimed : row.payload.claimed workerId leaseExpiresAt now =
        row.task.claimed workerId leaseExpiresAt now := by
      rw [ImageTask.claimed, ImageTask.claimed, ImageTaskRow.task, hcoherent.taskId]
    have honly : ∀ x ∈ table, (x.taskId = (row.task.claimed workerId leaseExpiresAt now).taskId &&
        decide (x.status = .queued) : Bool) ↔ x.taskId = row.taskId := fun x hx => by
      rw [Bool.and_eq_true, decide_eq_true_eq, decide_eq_true_eq]
      refine ⟨And.left, fun hkey => ⟨hkey, ?_⟩⟩
      rw [Table.eq_of_key_eq hx hrow hkey, hqueued]
    simp only [Option.map_some, hclaimed]
    have hkeep : ∀ x : ImageTaskRow,
        (x.set (row.task.claimed workerId leaseExpiresAt now)).taskId = x.taskId := fun _ => rfl
    refine ⟨rfl, ?_, coherent_updateWhere h hkeep fun x hx hp => ?_⟩
    · refine (Table.image_updateWhere hrow hkeep honly).trans ?_
      rw [task_set rfl]
      rfl
    · obtain rfl := Table.eq_of_key_eq hx hrow ((honly x hx).mp hp)
      exact hcoherent.set rfl rfl rfl rfl

end Writing

/-! ### The loop of `recover_expired` -/

section Recovering

variable (now : UtcTime) (clock : String → UtcTime)

/-- The expired tasks with these ids, interrupted. -/
def interruptAmong (ids : List String) (table : ImageTaskTable) : ImageTaskTable :=
  table.updateWhere (fun row => decide (row.taskId ∈ ids) && row.task.isExpired now)
    (fun row => row.set (row.task.interrupted (clock row.taskId))) fun _ => rfl

theorem mem_interruptAmong {ids : List String} {row : ImageTaskRow} :
    row ∈ interruptAmong now clock ids table ↔ ∃ old ∈ table,
      (if decide (old.taskId ∈ ids) && old.task.isExpired now then
        old.set (old.task.interrupted (clock old.taskId)) else old) = row :=
  Table.mem_updateWhere

include h

theorem coherent_interruptAmong (ids : List String) :
    Coherent (interruptAmong now clock ids table) :=
  coherent_updateWhere h _ fun row hrow _ =>
    ImageTaskRow.Coherent.set (h row hrow) rfl rfl rfl rfl

/-- A turn of the loop interrupts its task if that is expired. -/
theorem recoverTask_eq {row : ImageTaskRow} (hrow : row ∈ table) :
    recoverTask table now clock row.taskId = .ok (interruptAmong now clock [row.taskId] table) := by
  have hget : get table row.taskId none = .ok row.task := by
    rw [get, Table.find?_eq_some.mpr ⟨hrow, rfl⟩]
    exact (h row hrow).payload_eq
  rw [recoverTask, hget]
  refine congrArg Except.ok ?_
  beta_reduce
  by_cases hexpired : row.task.isExpired now
  · have hrunning : row.status = .running := by
      have hstatus := (Bool.and_eq_true _ _ ▸ hexpired).1
      rw [(h row hrow).status]
      exact of_decide_eq_true hstatus
    have honly := isHeld_iff hrow ⟨hrunning, rfl⟩
    rw [if_pos hexpired]
    refine Table.ext (List.map_congr_left fun x hx => ?_)
    by_cases hkey : x.taskId = row.taskId
    · obtain rfl := Table.eq_of_key_eq hx hrow hkey
      have hcond : (decide (x.taskId ∈ [x.taskId]) && x.task.isExpired now) = true := by
        rw [hexpired, Bool.and_true]
        exact decide_eq_true List.mem_cons_self
      exact (if_pos ((honly x hx).mpr rfl)).trans (if_pos hcond).symm
    · have hcond : (decide (x.taskId ∈ [row.taskId]) && x.task.isExpired now) = false := by
        rw [decide_eq_false fun hx' => hkey (List.mem_singleton.mp hx'), Bool.false_and]
      have hother : ¬isHeld row.taskId row.workerId x = true := fun hheld =>
        hkey ((honly x hx).mp hheld)
      exact (if_neg hother).trans (if_neg (Bool.eq_false_iff.mp hcond)).symm
  · rw [if_neg hexpired]
    refine (Table.updateWhere_eq_self fun x hx => ?_).symm
    by_cases hkey : x.taskId = row.taskId
    · rw [Table.eq_of_key_eq hx hrow hkey, Bool.eq_false_iff.mpr hexpired, Bool.and_false]
    · simp only [List.mem_singleton, hkey, decide_false, Bool.false_and]

/-- Turns for different tasks do not get in each other's way. -/
theorem foldlM_recoverTask {ids : List String} (hids : ids.Nodup)
    (hmem : ∀ id ∈ ids, ∃ row ∈ table, row.taskId = id) :
    ids.foldlM (fun table id => recoverTask table now clock id) table =
      .ok (interruptAmong now clock ids table) := by
  induction ids generalizing table with
  | nil =>
    refine congrArg Except.ok (Table.updateWhere_eq_self fun row _ => ?_).symm
    simp only [List.not_mem_nil, decide_false, Bool.false_and]
  | cons id ids ih =>
    obtain ⟨row, hrow, rfl⟩ := hmem id List.mem_cons_self
    obtain ⟨hid, hids⟩ := List.nodup_cons.mp hids
    have hrest : ∀ id ∈ ids, ∃ x ∈ interruptAmong now clock [row.taskId] table, x.taskId = id := by
      intro id hid
      obtain ⟨x, hx, rfl⟩ := hmem id (List.mem_cons_of_mem _ hid)
      refine ⟨_, (mem_interruptAmong now clock).mpr ⟨x, hx, rfl⟩, ?_⟩
      split <;> rfl
    rw [List.foldlM_cons, recoverTask_eq h now clock hrow]
    refine (ih (coherent_interruptAmong h now clock _) hids hrest).trans (congrArg Except.ok ?_)
    refine Table.ext ((List.map_map ..).trans (List.map_congr_left fun x _ => ?_))
    rw [Function.comp_apply]
    by_cases hkey : x.taskId = row.taskId
    · -- The first turn rewrites the row or leaves it, and no later turn is about it.
      simp only [List.mem_cons, hkey, true_or, decide_true, Bool.true_and]
      split
      · have hkey' : (x.set (x.task.interrupted (clock row.taskId))).taskId = row.taskId := hkey
        rw [hkey', decide_eq_false hid, Bool.false_and]
        rfl
      · rw [hkey, decide_eq_false hid, Bool.false_and]
        rfl
    · simp only [List.mem_cons, hkey, List.not_mem_nil, or_self, false_or, decide_false,
        Bool.false_and, Bool.false_eq_true, if_false]

theorem recoverExpired_agrees : Agrees (recoverExpired table now clock)
    (.ok (), ImageTaskStore.recoverExpired (tasks table) now clock) := by
  have hrows : ∀ row ∈ table.select (isExpired now), row ∈ table := fun row hrow =>
    (Table.mem_select.mp hrow).1
  have hpayload : (table.select (isExpired now)).map (fun row => row.payload.taskId) =
      (table.select (isExpired now)).map (·.taskId) :=
    List.map_congr_left fun row hrow => (h row (hrows row hrow)).taskId.symm
  have hnodup : ((table.select (isExpired now)).map (·.taskId)).Nodup :=
    table.nodup.sublist (List.filter_sublist.map _)
  have hfold := foldlM_recoverTask h now clock hnodup fun id hid => by
    obtain ⟨row, hrow, rfl⟩ := List.mem_map.mp hid
    exact ⟨row, hrows row hrow, rfl⟩
  have hloop : (table.select (isExpired now)).foldlM
      (fun table row => recoverTask table now clock row.payload.taskId) table =
        .ok (interruptAmong now clock ((table.select (isExpired now)).map (·.taskId)) table) := by
    rw [← hfold, ← hpayload, List.foldlM_map]
  rw [recoverExpired, hloop]
  refine ⟨rfl, ?_, coherent_interruptAmong h now clock _⟩
  have hset : ∀ row ∈ table, (row.set (row.task.interrupted (clock row.taskId))).task =
      row.task.interrupted (clock row.task.taskId) := fun row _ => task_set rfl
  have hkeep : ∀ row : ImageTaskRow,
      (row.set (row.task.interrupted (clock row.taskId))).taskId = row.taskId := fun _ => rfl
  have hkeep' : ∀ task : ImageTask,
      (task.interrupted (clock task.taskId)).taskId = task.taskId := fun _ => rfl
  refine (Table.updateWhere_image hkeep hkeep' (fun row hrow => ?_) hset).symm
  rw [← (h row hrow).isExpired_eq, Bool.eq_iff_iff, Bool.and_eq_true, decide_eq_true_eq]
  refine ⟨fun hexpired => ⟨List.mem_map.mpr ⟨row, ?_, rfl⟩, hexpired⟩, And.right⟩
  exact Table.mem_select.mpr ⟨hrow, hexpired⟩

end Recovering

end SQLiteImageTaskStore

end EvernightAI
