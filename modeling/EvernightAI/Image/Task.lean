import EvernightAI.Lib.Table
import EvernightAI.Lib.UtcTime
import EvernightAI.Schema.Auth
import Mathlib.Data.List.Sort
import Mathlib.Data.Prod.Lex

/-!
# Background image tasks

An image task is a request for images that a worker carries out later. A store keeps the tasks of
all owners: `create` queues one, a worker `claim`s the oldest one under a lease, `renew`s the lease
while it works and `finish`es the task; `recover_expired` interrupts the tasks whose lease ran out.

`ImageTaskStoreProtocol` has two implementations. The one over a dictionary is here, the one over
SQLite in `EvernightAI.Image.TaskSqlite`.
-/

namespace EvernightAI

/-! ### Requests and tasks -/

inductive ImageOutputFormat
  | png
  | jpeg
  | webp
  deriving DecidableEq, Repr

/-- `"auto"`, `"transparent"` or `"opaque"`. -/
inductive ImageBackground
  | auto
  | transparent
  | solid
  deriving DecidableEq, Repr

inductive ImageResultFormat
  | url
  | base64
  deriving DecidableEq, Repr

structure ImageGenerationRequest where
  modelId : String
  prompt : String
  count : Int := 1
  size : Option String := none
  quality : Option String := none
  outputFormat : Option ImageOutputFormat := none
  background : Option ImageBackground := none
  resultFormat : Option ImageResultFormat := none
  timeoutSeconds : Option Rat := none
  metadata : Dict := []
  deriving DecidableEq, Repr

structure ImageEditInput where
  base64Data : String
  mimeType : ImageOutputFormat
  deriving DecidableEq, Repr

/-- What an edit adds to a request: the original images, and a PNG mask by its data. -/
structure ImageEdit where
  images : List ImageEditInput
  mask : Option String := none
  deriving DecidableEq, Repr

/-- `ImageEditRequest | ImageGenerationRequest` -/
structure ImageRequest extends ImageGenerationRequest where
  edit : Option ImageEdit := none
  deriving DecidableEq, Repr

/-- `d == e` for dictionaries: the order of the keys does not matter. -/
def Dict.same (d e : Dict) : Bool :=
  (d ++ e).all fun kv => d.get kv.1 = e.get kv.1

/-- `first == second` -/
def ImageRequest.same (first second : ImageRequest) : Bool :=
  { first with metadata := [] } = { second with metadata := [] } &&
    first.metadata.same second.metadata

inductive ImageTaskStatus
  | queued
  | running
  | succeeded
  | failed
  | interrupted
  deriving DecidableEq, Repr

/-- `status in ("queued", "running")` -/
def ImageTaskStatus.isActive (status : ImageTaskStatus) : Bool :=
  status = .queued || status = .running

structure ImageTaskSubmit where
  taskId : String
  providerId : String
  request : ImageRequest
  sessionId : Option String := none
  deriving DecidableEq, Repr

inductive ImageTaskKind
  | generate
  | edit
  deriving DecidableEq, Repr

structure ImageTaskSummary where
  taskId : String
  providerId : String
  modelId : String
  promptPreview : String
  kind : ImageTaskKind
  sessionId : Option String
  status : ImageTaskStatus
  recordId : Option String
  errorType : Option String
  errorMessage : Option String
  createdAt : UtcTime
  updatedAt : UtcTime
  deriving DecidableEq, Repr

structure ImageTask extends ImageTaskSubmit where
  ownerId : Option String := none
  status : ImageTaskStatus := .queued
  recordId : Option String := none
  errorType : Option String := none
  errorMessage : Option String := none
  createdAt : UtcTime
  updatedAt : UtcTime
  workerId : Option String := none
  leaseExpiresAt : Option UtcTime := none
  deriving DecidableEq, Repr

/-- `self.summary()` -/
def ImageTask.summary (task : ImageTask) : ImageTaskSummary where
  taskId := task.taskId
  providerId := task.providerId
  modelId := task.request.modelId
  promptPreview := String.ofList (task.request.prompt.toList.take 160)
  kind := if task.request.edit.isSome then .edit else .generate
  sessionId := task.sessionId
  status := task.status
  recordId := task.recordId
  errorType := task.errorType
  errorMessage := task.errorMessage
  createdAt := task.createdAt
  updatedAt := task.updatedAt

structure ImageHistoryCursor where
  createdAt : UtcTime
  recordId : String
  deriving DecidableEq, Repr

/-- `MAX_ACTIVE_IMAGE_TASKS` -/
def maxActiveImageTasks : Nat := 10

/-- `same_submission` -/
def sameSubmission (first second : ImageTask) : Bool :=
  first.ownerId = second.ownerId && first.providerId = second.providerId &&
    first.request.same second.request && first.sessionId = second.sessionId

namespace ImageTask

variable (task : ImageTask)

/-- The task counts against the limit of its owner. -/
def isActive : Bool := task.status.isActive

/-- `(task.created_at, task.task_id)` -/
def position : UtcTime ×ₗ String := toLex (task.createdAt, task.taskId)

/-- The task as a worker holds it from `now` on. -/
def claimed (workerId : String) (leaseExpiresAt now : UtcTime) : ImageTask :=
  { task with
    status := .running
    workerId := some workerId
    leaseExpiresAt := some leaseExpiresAt
    updatedAt := now }

/-- The task with its lease moved. -/
def renewed (leaseExpiresAt : UtcTime) : ImageTask :=
  { task with leaseExpiresAt := some leaseExpiresAt }

/-- The task without its worker. -/
def finished : ImageTask := { task with workerId := none, leaseExpiresAt := none }

/-- `interrupted(task)`, at `now` -/
def interrupted (now : UtcTime) : ImageTask :=
  { task with
    status := .interrupted
    updatedAt := now
    errorType := some "ImageTaskInterrupted"
    workerId := none
    leaseExpiresAt := none
    errorMessage := some "服务中断，未自动重新生成。请先检查历史图片，再决定是否提交新任务。" }

theorem interrupted_taskId (now : UtcTime) : (task.interrupted now).taskId = task.taskId := rfl

/-- The task is running and nobody holds a lease on it at `now`. -/
def isExpired (now : UtcTime) : Bool :=
  task.status = .running && task.leaseExpiresAt.all fun lease => lease ≤ now

end ImageTask

def imageTaskNotFound : Error where
  errorType := .other "ImageTaskNotFoundError"
  message := "Image task not found"

def imageTaskTaken : Error where
  errorType := .other "ImageTaskConflictError"
  message := "Image task ID already belongs to another request"

def imageTaskInUse : Error where
  errorType := .other "ImageTaskConflictError"
  message := "排队或生成中的图片任务不能删除"

def imageTaskLimit : Error where
  errorType := .other "ImageTaskLimitError"
  message := "最多同时保留 10 个待完成的图片任务"

/-! ### The protocol -/

/-- The operations of a store. A call answers or raises, and leaves a store; the clock it reads is
an argument, in `recoverExpired` one reading for each task it interrupts. -/
structure ImageTaskStoreProtocol (σ : Type) where
  hasActive : σ → Bool
  get : String → Option PrincipalScope → σ → Except Error ImageTask
  getSummary : String → Option PrincipalScope → σ → Except Error ImageTaskSummary
  listTasks : Int → Option ImageHistoryCursor → Option String → Option PrincipalScope → σ →
    Except Error (List ImageTaskSummary)
  deleteForRecord : String → σ → Except Error Unit × σ
  delete : String → Option PrincipalScope → σ → Except Error Unit × σ
  create : ImageTask → σ → Except Error Bool × σ
  claim : String → (leaseExpiresAt now : UtcTime) → σ → Except Error (Option ImageTask) × σ
  renew : (taskId workerId : String) → UtcTime → σ → Except Error Bool × σ
  finish : ImageTask → String → σ → Except Error Bool × σ
  recoverExpired : UtcTime → (String → UtcTime) → σ → Except Error Unit × σ

/-! ### Over a dictionary -/

/-- `_tasks` -/
abbrev ImageTasks := Table fun task : ImageTask => task.taskId

namespace ImageTaskStore

variable (tasks : ImageTasks)

def hasActive : Bool := tasks.rows.any (·.isActive)

def get (taskId : String) (scope : Option PrincipalScope) : Except Error ImageTask :=
  match tasks.find? taskId with
  | none => .error imageTaskNotFound
  | some task => if scopePermits scope task.ownerId then .ok task else .error imageTaskNotFound

def getSummary (taskId : String) (scope : Option PrincipalScope) : Except Error ImageTaskSummary :=
  (get tasks taskId scope).map (·.summary)

/-- The condition of the comprehension in `list_tasks`. -/
def isListed (cursor : Option ImageHistoryCursor) (sessionId : Option String)
    (scope : Option PrincipalScope) (task : ImageTask) : Bool :=
  scopePermits scope task.ownerId && sessionId.all (task.sessionId = some ·) &&
    cursor.all fun cursor => task.position < toLex (cursor.createdAt, cursor.recordId)

/-- `tasks[:limit]` -/
def firstTasks {ρ : Type} (limit : Int) (rows : List ρ) : List ρ :=
  if limit < 0 then rows.take (rows.length - limit.natAbs) else rows.take limit.toNat

def listTasks (limit : Int) (cursor : Option ImageHistoryCursor) (sessionId : Option String)
    (scope : Option PrincipalScope) : List ImageTaskSummary :=
  (firstTasks limit ((tasks.select (isListed cursor sessionId scope)).insertionSort
    fun a b => b.position ≤ a.position)).map (·.summary)

def deleteForRecord (recordId : String) : ImageTasks :=
  tasks.deleteWhere (·.taskId = recordId)

def delete (taskId : String) (scope : Option PrincipalScope) : Except Error Unit × ImageTasks :=
  match get tasks taskId scope with
  | .error err => (.error err, tasks)
  | .ok task =>
    if task.isActive then (.error imageTaskInUse, tasks)
    else (.ok (), tasks.deleteWhere (·.taskId = taskId))

def create (task : ImageTask) : Except Error Bool × ImageTasks :=
  match tasks.find? task.taskId with
  | some previous =>
    if previous.ownerId ≠ task.ownerId then (.error imageTaskNotFound, tasks)
    else if !sameSubmission previous task then (.error imageTaskTaken, tasks)
    else (.ok false, tasks)
  | none =>
    if maxActiveImageTasks ≤
        tasks.rows.countP fun item => item.ownerId = task.ownerId && item.isActive then
      (.error imageTaskLimit, tasks)
    else (.ok true, tasks.upsert task)

/-- The queued tasks, the oldest one first. -/
def queue : List ImageTask :=
  (tasks.select (·.status = .queued)).insertionSort fun a b => a.position ≤ b.position

def claim (workerId : String) (leaseExpiresAt now : UtcTime) : Option ImageTask × ImageTasks :=
  match (queue tasks).head? with
  | none => (none, tasks)
  | some first =>
    let task := first.claimed workerId leaseExpiresAt now
    (some task, tasks.upsert task)

def renew (taskId workerId : String) (leaseExpiresAt : UtcTime) : Bool × ImageTasks :=
  match tasks.find? taskId with
  | none => (false, tasks)
  | some task =>
    if task.status ≠ .running ∨ task.workerId ≠ some workerId then (false, tasks)
    else (true, tasks.upsert (task.renewed leaseExpiresAt))

def finish (task : ImageTask) (workerId : String) : Bool × ImageTasks :=
  match tasks.find? task.taskId with
  | none => (false, tasks)
  | some current =>
    if current.status ≠ .running ∨ current.workerId ≠ some workerId then (false, tasks)
    else (true, tasks.upsert task.finished)

/-- Every expired task is replaced in its place. -/
def recoverExpired (now : UtcTime) (clock : String → UtcTime) : ImageTasks :=
  tasks.updateWhere (·.isExpired now) (fun task => task.interrupted (clock task.taskId))
    fun _ => rfl

end ImageTaskStore

open ImageTaskStore in
/-- `ImageTaskStore` -/
def imageTaskStore : ImageTaskStoreProtocol ImageTasks where
  hasActive := hasActive
  get taskId scope tasks := get tasks taskId scope
  getSummary taskId scope tasks := getSummary tasks taskId scope
  listTasks limit cursor sessionId scope tasks := .ok (listTasks tasks limit cursor sessionId scope)
  deleteForRecord recordId tasks := (.ok (), deleteForRecord tasks recordId)
  delete taskId scope tasks := delete tasks taskId scope
  create task tasks := create tasks task
  claim workerId lease now tasks := (claim tasks workerId lease now).map .ok id
  renew taskId workerId lease tasks := (renew tasks taskId workerId lease).map .ok id
  finish task workerId tasks := (finish tasks task workerId).map .ok id
  recoverExpired now clock tasks := (.ok (), recoverExpired tasks now clock)

end EvernightAI
