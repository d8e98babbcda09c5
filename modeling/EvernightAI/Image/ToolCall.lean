import EvernightAI.Image.Archive
import EvernightAI.Image.TaskStores
import EvernightAI.Provider.Manager

/-!
# Image tools

`generate_image` makes an image task whose id is computed from the owner and the identity of the
tool call, and waits for it (`ImageToolApplication.execute`, `ImageTaskApplication.submit`). It is
an idempotent tool: a call that is executed again finds the task and takes from it what the first
execution had chosen.

`World` is one tool call with all its executions. An execution goes from one `await` to the next;
in between providers, records and tasks change. The task of the call is not deleted, and the
session and the executor stay as they are.
-/

namespace EvernightAI.ImageTool

open ImageArchive (GeneratedImage Mime)

/-! ### Providers and records -/

inductive ProviderModelCapability
  | chat | toolCall | imageGeneration | imageRecognition | videoGeneration | videoRecognition
deriving DecidableEq, Repr

structure ProviderModelConfig where
  modelId : String
  capabilities : List ProviderModelCapability := []
deriving DecidableEq, Repr

/-- `ProviderInfo`; `model` are the values of the dictionary. -/
structure ProviderInfo where
  providerId : String
  type : ProviderType
  isEnabled : Bool := true
  model : List ProviderModelConfig := []
deriving DecidableEq, Repr

/-- `ImageGenerationRecord`, with the images of its response. -/
structure ImageGenerationRecord where
  recordId : String
  ownerId : Option String
  providerId : String
  request : ImageRequest
  images : List GeneratedImage
deriving DecidableEq, Repr

abbrev ImageRecords := Table fun record : ImageGenerationRecord => record.recordId

/-! ### A tool call -/

structure ImageToolReference where
  recordId : String
  imageIndex : ℕ := 0
deriving DecidableEq, Repr

/-- `ImageToolRequest`. What has a default that a task remembers is `none` if it is not given. -/
structure ImageToolRequest where
  prompt : String
  providerId : Option String := none
  modelId : Option String := none
  references : List ImageToolReference := []
  count : Int := 1
  size : Option String := none
  quality : Option (Option String) := none
  outputFormat : Option (Option ImageOutputFormat) := none
  timeoutSeconds : Option Rat := none
deriving DecidableEq, Repr

/-- The arguments with `_idempotency_key` and `_execution_context`; `runId` is the run id as it is
printed. -/
structure ImageToolCall where
  request : ImageToolRequest
  idempotencyKey : Option String := none
  ownerId : Option String := none
  sessionId : Option String := none
  runId : String := "None"
  toolCallId : String
deriving DecidableEq, Repr

/-- What an execution returns, without its message to the model. -/
structure ImageToolResult where
  taskId : String
  recordId : String
  status : ImageTaskStatus
  providerId : String
  modelId : String
  images : List (String × ℕ × Option Mime)
deriving DecidableEq, Repr

/-- What is around the tool: `uuid5` in the URL namespace, what pydantic accepts as a submission,
the sessions of the owner, and whether there is an executor. -/
structure Surroundings where
  uuid5 : String → String
  uuid5_ne_empty : ∀ name, uuid5 name ≠ ""
  accepts : ImageTaskSubmit → Bool
  hasSession : String → Bool := fun _ => true
  hasExecutor : Bool := true

/-! ### Errors -/

def imageRecordNotFound : Error where
  errorType := .other "ImageRecordNotFoundError"
  message := "Image record not found"

def toolInputError (message : String) : Error where
  errorType := .other "ToolInputError"
  message

def indexOutOfRange : Error := toolInputError "Reference image index is out of range"

def notArchived : Error := toolInputError
  "The reference image is not archived. Download or archive it before editing."

def noImageModel : Error := toolInputError <|
  "No configured image model was found. Specify provider_id and model_id, or declare an " ++
    "image_generation model in provider settings."

def invalidSubmission : Error where
  errorType := .validationError
  message := "ImageTaskSubmit"

def providerNotFound : Error where
  errorType := .other "ProviderNotFoundError"
  message := "The provider is not found"

def providerDisabled : Error where
  errorType := .other "ProviderDisabledError"
  message := "The image provider is disabled"

def capabilityUnsupported : Error where
  errorType := .other "ProviderCapabilityUnsupportedError"
  message := "The model does not support image generation"

def sessionNotFound : Error where
  errorType := .sessionNotFoundError
  message := "Session not found"

def tasksNotConfigured : Error where
  errorType := .other "ConfigurationError"
  message := "Background image tasks are not configured"

/-- The error of a task without a record. -/
def taskFailed (errorType errorMessage : Option String) : Error where
  errorType := .toolExecutionError
  message := "Image task failed (" ++ (errorType.filter (· ≠ "")).getD "ImageTaskError" ++ "): " ++
    (errorMessage.filter (· ≠ "")).getD "Image task did not produce a saved result"

/-! ### What is recomputed -/

/-- `ImageGenerationStore.get` -/
def getRecord (records : ImageRecords) (recordId : String) (scope : Option PrincipalScope) :
    Except Error ImageGenerationRecord :=
  match records.find? recordId with
  | none => .error imageRecordNotFound
  | some record =>
    if scopePermits scope record.ownerId then .ok record else .error imageRecordNotFound

/-- The MIME type of an original image. -/
def originalType : Mime → ImageOutputFormat
  | .png => .png
  | .jpeg => .jpeg
  | .webp => .webp

/-- The original image of a reference. -/
def referenceImage (reference : ImageToolReference) (record : ImageGenerationRecord) :
    Except Error ImageEditInput :=
  match record.images[reference.imageIndex]? with
  | none => .error indexOutOfRange
  | some image =>
    match image.base64Data, image.mimeType with
    | some base64Data, some mimeType => .ok ⟨base64Data, originalType mimeType⟩
    | _, _ => .error notArchived

/-- `enabled` -/
def enabledProviders (providers : List ProviderInfo) (providerId : Option String) :
    List ProviderInfo :=
  providers.filter fun provider =>
    provider.isEnabled && provider.type = .openai && providerId.all (provider.providerId = ·)

/-- `candidates` -/
def imageModels (enabled : List ProviderInfo) (modelId : Option String) : List (String × String) :=
  enabled.flatMap fun provider =>
    (provider.model.filter fun model =>
      .imageGeneration ∈ model.capabilities && modelId.all (model.modelId = ·)).map
        fun model => (provider.providerId, model.modelId)

/-- `_select_model` -/
def selectModel (providers : List ProviderInfo) (providerId modelId : Option String) :
    Except Error (String × String) :=
  match providerId.filter (· ≠ ""), modelId.filter (· ≠ "") with
  | some providerId, some modelId => .ok (providerId, modelId)
  | _, named =>
    let enabled := enabledProviders providers providerId
    match imageModels enabled modelId, named, enabled with
    | candidate :: _, _, _ => .ok candidate
    | [], some modelId, [provider] => .ok (provider.providerId, modelId)
    | _, _, _ => .error noImageModel

/-- `provider_id` and `model_id` before the selection, with the source of what is not given. -/
def preferred (request : ImageToolRequest) (source : Option (String × String)) :
    Option String × Option String :=
  let providerId := (request.providerId.filter (· ≠ "")).or (source.map Prod.fst)
  (providerId, request.modelId.or
    (source.bind fun source => if providerId = some source.1 then some source.2 else none))

/-- The image request, with the defaults that the previous task remembers. -/
def imageRequest (request : ImageToolRequest) (previous : Option ImageRequest) (modelId : String)
    (images : List ImageEditInput) : ImageRequest where
  modelId
  prompt := request.prompt
  count := request.count
  size := request.size
  quality := request.quality.getD (previous.elim (some "high") (·.quality))
  outputFormat := request.outputFormat.getD (previous.elim (some .png) (·.outputFormat))
  timeoutSeconds :=
    (request.timeoutSeconds.map some).getD (previous.elim (some 180) (·.timeoutSeconds))
  edit := if images = [] then none else some { images }

/-- The original images of a task. -/
def originals (request : ImageRequest) : List ImageEditInput := request.edit.elim [] (·.images)

/-! ### Executions -/

/-- Where an execution is: before `list_infos`, before `get_info`, before the session is read,
before the executor starts, between two looks at the task, or at its end. -/
inductive Execution
  | selecting (previous : Option ImageTask) (records : List ImageGenerationRecord)
  | submitting (task : ImageTask)
  | creating (task : ImageTask)
  | starting
  | polling
  | ended (result : Except Error ImageToolResult)

structure World where
  tasks : ImageTasks := ∅
  records : ImageRecords := ∅
  providers : List ProviderInfo := []
  executions : List Execution := []
  /-- How often a task was created for the call. -/
  created : ℕ := 0

section

variable (env : Surroundings) (call : ImageToolCall)

/-- `key or f"{run_id}:{tool_call_id}"` -/
def ImageToolCall.identity : String :=
  (call.idempotencyKey.filter (· ≠ "")).getD (call.runId ++ ":" ++ call.toolCallId)

def taskId : String :=
  env.uuid5 ("EvernightAI:image-tool:" ++ call.ownerId.getD "None" ++ ":" ++ call.identity)

def ImageToolCall.scope : Option PrincipalScope := some ⟨call.ownerId⟩

/-- The task of the call. -/
def World.task (w : World) : Option ImageTask := w.tasks.find? (taskId env call)

/-- The first segment: the previous task and the referenced records are read. -/
def begin (w : World) : Execution :=
  match call.request.references.mapM fun reference =>
    getRecord w.records reference.recordId call.scope with
  | .error err => .ended (.error err)
  | .ok records =>
    .selecting (ImageTaskStore.get w.tasks (taskId env call) call.scope).toOption records

/-- The provider and the model. The source is the previous task or the first reference. -/
def selection (w : World) (previous : Option ImageTask) (records : List ImageGenerationRecord) :
    Except Error (String × String) :=
  let source := (previous.map fun task => (task.providerId, task.request.modelId)).or
    (records.head?.map fun record => (record.providerId, record.request.modelId))
  let ids := preferred call.request source
  selectModel w.providers ids.1 ids.2

/-- The original images, in prompt order. -/
def referenceImages (records : List ImageGenerationRecord) : Except Error (List ImageEditInput) :=
  (call.request.references.zip records).mapM fun pair => referenceImage pair.1 pair.2

/-- The submission of an execution. -/
def submission (w : World) (previous : Option ImageTask) (records : List ImageGenerationRecord) :
    Except Error ImageTaskSubmit := do
  let (providerId, modelId) ← selection call w previous records
  let images ← referenceImages call records
  let submission : ImageTaskSubmit :=
    { taskId := taskId env call
      providerId
      request := imageRequest call.request (previous.map (·.request)) modelId images
      sessionId := call.sessionId }
  if providerId ≠ "" ∧ modelId ≠ "" ∧ env.accepts submission then return submission
  else throw invalidSubmission

/-- `_recover_result` -/
def recoverResult (w : World) (summary : ImageTaskSummary) : ImageTaskSummary :=
  if summary.status ≠ .interrupted ∧ summary.status ≠ .failed then summary
  else
    match getRecord w.records summary.taskId call.scope with
    | .error _ => summary
    | .ok record =>
      { summary with
        recordId := some record.recordId
        errorMessage := some ((summary.errorMessage.filter (· ≠ "")).getD "任务中断。" ++
          " 已返回的图片结果仍可查看。") }

/-- What the tool returns for a record. -/
def toolResult (status : ImageTaskStatus) (record : ImageGenerationRecord) : ImageToolResult where
  taskId := taskId env call
  recordId := record.recordId
  status
  providerId := record.providerId
  modelId := record.request.modelId
  images := record.images.zipIdx.map fun image => (record.recordId, image.2, image.1.mimeType)

/-- The record of a task that is over. -/
def finish (w : World) (summary : ImageTaskSummary) : Except Error ImageToolResult :=
  match summary.recordId.filter (· ≠ "") with
  | none => .error (taskFailed summary.errorType summary.errorMessage)
  | some recordId =>
    (getRecord w.records recordId call.scope).map (toolResult env call summary.status)

/-- An execution that has read the task goes on looking, or ends with the record. -/
def conclude (w : World) (summary : ImageTaskSummary) : Execution :=
  if summary.status.isActive then .polling else .ended (finish env call w summary)

/-- `ImageTaskApplication.get`, and what the execution makes of it. -/
def look (w : World) : Execution :=
  match ImageTaskStore.getSummary w.tasks (taskId env call) call.scope with
  | .error err => .ended (.error err)
  | .ok summary => conclude env call w (recoverResult call w summary)

/-- The first part of `submit`. -/
def submit (w : World) (submission : ImageTaskSubmit) (now : UtcTime) : Execution :=
  let task : ImageTask :=
    { submission with ownerId := call.ownerId, createdAt := now, updatedAt := now }
  match ImageTaskStore.get w.tasks (taskId env call) call.scope with
  | .error _ => .submitting task
  | .ok previous =>
    if !sameSubmission previous task then .ended (.error imageTaskTaken) else look env call w

/-- The segment after `list_infos`. -/
def select (w : World) (previous : Option ImageTask) (records : List ImageGenerationRecord)
    (now : UtcTime) : Execution :=
  match submission env call w previous records with
  | .error err => .ended (.error err)
  | .ok submission => submit env call w submission now

/-- The model supports images, as far as the provider says. -/
def supports (info : ProviderInfo) (modelId : String) : Bool :=
  (info.model.find? (·.modelId = modelId)).all fun model =>
    model.capabilities = [] || .imageGeneration ∈ model.capabilities

/-- The segment after `get_info`. -/
def checkProvider (w : World) (task : ImageTask) : Execution :=
  match w.providers.find? (·.providerId = task.providerId) with
  | none => .ended (.error providerNotFound)
  | some info =>
    if !info.isEnabled then .ended (.error providerDisabled)
    else if !supports info task.request.modelId then .ended (.error capabilityUnsupported)
    else .creating task

/-- The segment after the session was read: the task is created. -/
def create (w : World) (task : ImageTask) : World × Execution :=
  if !task.sessionId.all env.hasSession then (w, .ended (.error sessionNotFound))
  else if !env.hasExecutor then (w, .ended (.error tasksNotConfigured))
  else
    match ImageTaskStore.create w.tasks task with
    | (.error err, tasks) => ({ w with tasks }, .ended (.error err))
    | (.ok isNew, tasks) =>
      ({ w with tasks, created := if isNew then w.created + 1 else w.created }, .starting)

/-- The segment after the executor was started. -/
def started (w : World) : Execution :=
  match ImageTaskStore.get w.tasks (taskId env call) call.scope with
  | .error err => .ended (.error err)
  | .ok task => conclude env call w task.summary

/-- An execution goes on to its next `await`. -/
def advance (w : World) (now : UtcTime) : Execution → World × Execution
  | .selecting previous records => (w, select env call w previous records now)
  | .submitting task => (w, checkProvider w task)
  | .creating task => create env w task
  | .starting => (w, started env call w)
  | .polling => (w, look env call w)
  | .ended result => (w, .ended result)

/-! ### The system -/

inductive Label
  /-- the call is executed once more -/
  | execute
  | advance (i : ℕ) (now : UtcTime)
  | setProviders (providers : List ProviderInfo)
  | saveRecord (record : ImageGenerationRecord)
  /-- the archived result of a record -/
  | archive (recordId : String) (images : List GeneratedImage)
  | deleteRecord (recordId : String)
  /-- a worker saves the images of the call -/
  | saveResult (images : List GeneratedImage)
  | store (op : ImageTaskOp)

/-- What others do to the store. They do not create and delete the task of the call; the worker that
finishes it has its submission, and the id of its record only if the record is saved. -/
def World.permits (w : World) : ImageTaskOp → Bool
  | .create task => task.taskId ≠ taskId env call
  | .finish task _ =>
    task.1.taskId ≠ taskId env call || (w.task env call).all fun current =>
      task.1.toImageTaskSubmit = current.toImageTaskSubmit && task.1.ownerId = current.ownerId &&
        (task.1.recordId = current.recordId ||
          task.1.recordId = some (taskId env call) &&
            (w.records.find? (taskId env call)).isSome)
  | .delete id _ => id ≠ taskId env call
  | .deleteForRecord recordId => recordId ≠ taskId env call
  | .claim .. | .renew .. | .recoverExpired .. => true

/-- The images of the call are saved under the id of its task. -/
def World.saveResult (w : World) (images : List GeneratedImage) : Option World :=
  match w.task env call with
  | none => none
  | some task =>
    if task.status ≠ .running then none
    else
      let record : ImageGenerationRecord :=
        { recordId := task.taskId
          ownerId := task.ownerId
          providerId := task.providerId
          request := task.request
          images }
      some { w with records := w.records.upsert record }

/-- One step. -/
def step (w : World) : Label → Option World
  | .execute => some { w with executions := w.executions ++ [begin env call w] }
  | .advance i now =>
    match w.executions[i]? with
    | none | some (.ended _) => none
    | some execution =>
      let result := advance env call w now execution
      some { result.1 with executions := w.executions.set i result.2 }
  | .setProviders providers => some { w with providers }
  | .saveRecord record =>
    if record.recordId = taskId env call then none
    else some { w with records := w.records.upsert record }
  | .archive recordId images =>
    (w.records.find? recordId).map fun record =>
      { w with records := w.records.upsert { record with images } }
  | .deleteRecord recordId =>
    if recordId = taskId env call then none
    else some { w with
      records := w.records.deleteWhere fun record => record.recordId = recordId
      tasks := ImageTaskStore.deleteForRecord w.tasks recordId }
  | .saveResult images => w.saveResult env call images
  | .store op =>
    if w.permits env call op then some { w with tasks := (imageTaskStore.perform w.tasks op).2 }
    else none

/-! ### Idempotence -/

/-- Nothing was done for the call. -/
structure World.Fresh (w : World) : Prop where
  executions : w.executions = []
  created : w.created = 0
  task : w.task env call = none
  record : w.records.find? (taskId env call) = none

/-- **The outcome of a task**: its record, or its failure. The record of a task that was broken off
may have been saved all the same. -/
inductive Outcome (w : World) (task : ImageTask) : Except Error ImageToolResult → Prop
  | record (record : ImageGenerationRecord)
      (hover : task.isActive = false)
      (hfind : w.records.find? record.recordId = some record)
      (hof : task.recordId = some record.recordId ∨
        (task.status = .failed ∨ task.status = .interrupted) ∧ record.recordId = task.taskId) :
      Outcome w task (.ok (toolResult env call task.status record))
  | failure (hover : task.isActive = false) (hnone : task.recordId = none) :
      Outcome w task (.error (taskFailed task.errorType task.errorMessage))

/-- **Settled.** An execution that ends in this step, and there is a task for the call, ends with
the outcome of the task. -/
def Settled (w : World) (label : Label) : Prop :=
  ∀ (w' : World) (i : ℕ) (result : Except Error ImageToolResult), step env call w label = some w' →
    (∀ r, w.executions[i]? ≠ some (Execution.ended r)) →
      w'.executions[i]? = some (Execution.ended result) →
      ∀ task, w'.task env call = some task → Outcome env call w' task result

/-- **Idempotence** of a run: one task at most, and every step is settled. -/
def Idempotent (w : World) (labels : List Label) : Prop :=
  (∀ w', TransitionSystem.run (step env call) w labels = some w' → w'.created ≤ 1) ∧
    TransitionSystem.Along (step env call) (Settled env call) w labels

/-- **The steps that keep it.** Once there is a task: an execution begins while the references show
the original images of the task; and one that began before there was a task finds what the task was
made from. -/
def Keeps (w : World) (label : Label) : Prop :=
  ∀ task, w.task env call = some task →
    match label with
    | .execute => ∃ records,
        (call.request.references.mapM fun reference =>
          getRecord w.records reference.recordId call.scope) = .ok records ∧
          referenceImages call records = .ok (originals task.request)
    | .advance i _ =>
      match w.executions[i]? with
      | some (.selecting none records) =>
        selection call w none records = .ok (task.providerId, task.request.modelId) ∧
          referenceImages call records = .ok (originals task.request)
      | some (.submitting held) =>
        ∃ info, w.providers.find? (·.providerId = held.providerId) = some info ∧
          info.isEnabled = true ∧ supports info held.request.modelId = true
      | some (.creating held) => sameSubmission task held = true
      | _ => True
    | _ => True

end

end EvernightAI.ImageTool
