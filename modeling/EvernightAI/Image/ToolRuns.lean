import EvernightAI.Image.ToolCall

/-!
# Runs of an image tool call

`Submitted` says what the task of a call was made from, and `submission_of_previous` that an
execution which has read the task makes the same submission again. `Consistent` is kept by every
step, and `advance_settled` says how an execution ends once there is a task.

* `idempotent_of_run` : a run whose steps meet `Keeps` is idempotent.
* `reference_deleted_fails_again` : after the record of a reference is deleted the call fails,
  although its task was created.
-/

namespace EvernightAI.ImageTool

open TransitionSystem

variable {env : Surroundings} {call : ImageToolCall} {w w' : World} {task : ImageTask}
  {records : List ImageGenerationRecord}

/-! ### The model -/

theorem filter_ne_empty {s : String} (h : s ≠ "") : (some s).filter (· ≠ "") = some s :=
  Option.filter_some_pos (decide_eq_true h)

theorem selectModel_named {providers : List ProviderInfo} {p m : String} (hp : p ≠ "")
    (hm : m ≠ "") : selectModel providers (some p) (some m) = .ok (p, m) := by
  rw [selectModel, filter_ne_empty hp, filter_ne_empty hm]

theorem eq_of_mem_enabledProviders {providers : List ProviderInfo} {provider : ProviderInfo}
    {p : Option String} (h : provider ∈ enabledProviders providers p) (x : String)
    (hx : p = some x) : provider.providerId = x := by
  subst hx
  have hp := (List.mem_filter.mp h).2
  rw [Bool.and_eq_true] at hp
  exact of_decide_eq_true hp.2

theorem eq_of_mem_imageModels (providers : List ProviderInfo) {p m : Option String}
    {selected : String × String} (h : selected ∈ imageModels (enabledProviders providers p) m) :
    (∀ x, p = some x → selected.1 = x) ∧ ∀ y, m = some y → selected.2 = y := by
  obtain ⟨provider, hprovider, hmem⟩ := List.mem_flatMap.mp h
  obtain ⟨model, hmodel, rfl⟩ := List.mem_map.mp hmem
  have hm := (List.mem_filter.mp hmodel).2
  rw [Bool.and_eq_true] at hm
  refine ⟨eq_of_mem_enabledProviders hprovider, ?_⟩
  rintro y rfl
  exact of_decide_eq_true hm.2

/-- A given provider and a given model are selected, or nothing is. -/
theorem eq_of_selectModel {providers : List ProviderInfo} {p m : Option String}
    {selected : String × String} (h : selectModel providers p m = .ok selected) :
    (∀ x, p = some x → selected.1 = x) ∧ ∀ y, m = some y → selected.2 = y := by
  rw [selectModel.eq_def] at h
  split at h
  · next hp hm =>
    obtain rfl := Except.ok.inj h
    rw [Option.filter_eq_some_iff] at hp hm
    exact ⟨fun x hx => Option.some.inj (hp.1.symm.trans hx),
      fun y hy => Option.some.inj (hm.1.symm.trans hy)⟩
  · dsimp only at h
    split at h
    · next hcandidates =>
      refine eq_of_mem_imageModels providers ?_
      rw [hcandidates, ← Except.ok.inj h]
      exact List.mem_cons_self
    · next hnamed henabled =>
      rw [← Except.ok.inj h]
      rw [Option.filter_eq_some_iff] at hnamed
      refine ⟨?_, fun y hy => Option.some.inj (hnamed.1.symm.trans hy)⟩
      refine eq_of_mem_enabledProviders (?_ : _ ∈ enabledProviders providers p)
      rw [henabled]
      exact List.mem_singleton_self _
    · injection h

theorem preferred_provider {request : ImageToolRequest} {source : Option (String × String)}
    {p : String} (h : request.providerId.filter (· ≠ "") = some p) :
    (preferred request source).1 = some p := by
  rw [preferred, h, Option.some_or]

theorem preferred_model {request : ImageToolRequest} {source : Option (String × String)}
    {m : String} (h : request.modelId = some m) : (preferred request source).2 = some m := by
  rw [preferred, h, Option.some_or]

/-! ### The request -/

theorem originals_imageRequest (request : ImageToolRequest) (previous : Option ImageRequest)
    (modelId : String) (images : List ImageEditInput) :
    originals (imageRequest request previous modelId images) = images := by
  rw [originals, imageRequest]
  by_cases h : images = []
  · rw [if_pos h, h]
    rfl
  · rw [if_neg h]
    rfl

/-- **What a task remembers** are the defaults it was made with. -/
theorem imageRequest_again (request : ImageToolRequest) (modelId : String)
    (images : List ImageEditInput) :
    imageRequest request (some (imageRequest request none modelId images)) modelId images =
      imageRequest request none modelId images := by
  rw [imageRequest, imageRequest]
  congr 1
  congr 1
  · cases request.quality with
    | none => rfl
    | some quality => rfl
  · cases request.outputFormat with
    | none => rfl
    | some outputFormat => rfl
  · cases request.timeoutSeconds with
    | none => rfl
    | some timeoutSeconds => rfl

variable (env call) in
/-- **What the task of a call was made from.** -/
structure Submitted (task : ImageTask) : Prop where
  taskId : task.taskId = taskId env call
  owner : task.ownerId = call.ownerId
  session : task.sessionId = call.sessionId
  provider : ∀ p, call.request.providerId.filter (· ≠ "") = some p → task.providerId = p
  model : ∀ m, call.request.modelId = some m → task.request.modelId = m
  named : task.providerId ≠ "" ∧ task.request.modelId ≠ ""
  request : task.request =
    imageRequest call.request none task.request.modelId (originals task.request)
  accepted : env.accepts task.toImageTaskSubmit = true

/-- A later version of a task was made from the same. -/
theorem Submitted.of_eq {task' : ImageTask} (h : Submitted env call task)
    (hsubmit : task'.toImageTaskSubmit = task.toImageTaskSubmit)
    (howner : task'.ownerId = task.ownerId) : Submitted env call task' where
  taskId := (congrArg ImageTaskSubmit.taskId hsubmit).trans h.taskId
  owner := howner.trans h.owner
  session := (congrArg ImageTaskSubmit.sessionId hsubmit).trans h.session
  provider p hp := (congrArg ImageTaskSubmit.providerId hsubmit).trans (h.provider p hp)
  model m hm := (congrArg (·.request.modelId) hsubmit).trans (h.model m hm)
  named := by
    rw [hsubmit]
    exact h.named
  request := by
    rw [hsubmit]
    exact h.request
  accepted := by
    rw [hsubmit]
    exact h.accepted

/-- The submission that an execution makes from what it has selected. -/
theorem submission_eq {previous : Option ImageTask} {p m : String} {images : List ImageEditInput}
    (hselection : selection call w previous records = .ok (p, m))
    (himages : referenceImages call records = .ok images) :
    submission env call w previous records =
      let submission : ImageTaskSubmit :=
        { taskId := taskId env call
          providerId := p
          request := imageRequest call.request (previous.map (·.request)) m images
          sessionId := call.sessionId }
      if p ≠ "" ∧ m ≠ "" ∧ env.accepts submission then .ok submission
      else .error invalidSubmission := by
  rw [submission, hselection]
  dsimp only [bind, Except.bind]
  rw [himages]
  rfl

/-- The submission is that of the task, if the selection, the images and the defaults are. -/
theorem Submitted.submission_eq (h : Submitted env call task) {previous : Option ImageTask}
    (hselection : selection call w previous records = .ok (task.providerId, task.request.modelId))
    (himages : referenceImages call records = .ok (originals task.request))
    (hrequest : imageRequest call.request (previous.map (·.request)) task.request.modelId
      (originals task.request) = task.request) :
    submission env call w previous records = .ok task.toImageTaskSubmit := by
  have hsame : (⟨ImageTool.taskId env call, task.providerId, task.request,
      call.sessionId⟩ : ImageTaskSubmit) = task.toImageTaskSubmit := by
    rw [← h.taskId, ← h.session]
  rw [ImageTool.submission_eq hselection himages, hrequest]
  dsimp only
  rw [hsame, if_pos ⟨h.named.1, h.named.2, h.accepted⟩]

/-- **An execution that has read the task** selects its provider and its model. -/
theorem Submitted.selection_previous (h : Submitted env call task) {previous : ImageTask}
    (hprevious : previous.toImageTaskSubmit = task.toImageTaskSubmit) :
    selection call w (some previous) records = .ok (task.providerId, task.request.modelId) := by
  have hprovider : previous.providerId = task.providerId :=
    congrArg ImageTaskSubmit.providerId hprevious
  have hmodel : previous.request.modelId = task.request.modelId :=
    congrArg (·.request.modelId) hprevious
  have hp : (call.request.providerId.filter (· ≠ "")).or (some task.providerId) =
      some task.providerId := by
    cases hgiven : call.request.providerId.filter (· ≠ "") with
    | none => rfl
    | some p => rw [Option.some_or, h.provider p hgiven]
  have hm : call.request.modelId.or (some task.request.modelId) = some task.request.modelId := by
    cases hgiven : call.request.modelId with
    | none => rfl
    | some m => rw [Option.some_or, h.model m hgiven]
  have hpreferred : preferred call.request (some (task.providerId, task.request.modelId)) =
      (some task.providerId, some task.request.modelId) := by
    rw [preferred, Option.map_some, hp, Option.bind_some, if_pos rfl, hm]
  rw [selection, Option.map_some, Option.some_or, hprovider, hmodel, hpreferred]
  exact selectModel_named h.named.1 h.named.2

theorem submission_of_previous (h : Submitted env call task) {previous : ImageTask}
    (hprevious : previous.toImageTaskSubmit = task.toImageTaskSubmit)
    (himages : referenceImages call records = .ok (originals task.request)) :
    submission env call w (some previous) records = .ok task.toImageTaskSubmit := by
  have hrequest : previous.request = task.request := congrArg ImageTaskSubmit.request hprevious
  refine h.submission_eq (h.selection_previous hprevious) himages ?_
  rw [Option.map_some, hrequest, h.request, originals_imageRequest]
  exact imageRequest_again _ _ _

/-- A new task was made from what was selected. -/
theorem submitted_of_submission {submit : ImageTaskSubmit}
    (h : submission env call w none records = .ok submit) (now : UtcTime) :
    Submitted env call
      { submit with ownerId := call.ownerId, createdAt := now, updatedAt := now } := by
  have hsubmission := h
  rw [submission] at hsubmission
  obtain ⟨⟨p, m⟩, hselection, hsubmission⟩ := exists_of_bind_eq_ok hsubmission
  obtain ⟨images, himages, -⟩ := exists_of_bind_eq_ok hsubmission
  rw [ImageTool.submission_eq hselection himages] at h
  dsimp only at h
  split at h
  · next haccepted =>
    obtain rfl := Except.ok.inj h
    rw [selection] at hselection
    obtain ⟨hp, hm⟩ := eq_of_selectModel hselection
    exact {
      taskId := rfl
      owner := rfl
      session := rfl
      provider := fun p' hp' => hp p' (preferred_provider hp')
      model := fun m' hm' => hm m' (preferred_model hm')
      named := ⟨haccepted.1, haccepted.2.1⟩
      request := by
        rw [originals_imageRequest]
        rfl
      accepted := haccepted.2.2 }
  · injection h

/-! ### The same submission -/

theorem same_refl (request : ImageRequest) : request.same request = true := by
  rw [ImageRequest.same, Bool.and_eq_true]
  refine ⟨decide_eq_true rfl, ?_⟩
  rw [Dict.same, List.all_eq_true]
  exact fun entry _ => decide_eq_true rfl

/-- The submission of the task again is the same submission. -/
theorem Submitted.same (h : Submitted env call task) (now : UtcTime) :
    sameSubmission task
      { task.toImageTaskSubmit with ownerId := call.ownerId, createdAt := now, updatedAt := now } =
        true := by
  rw [sameSubmission, h.owner, same_refl]
  simp only [decide_true, Bool.and_self]

theorem permits_self (ownerId : Option String) : scopePermits (some ⟨ownerId⟩) ownerId = true := by
  rw [scopePermits, Option.all_some, PrincipalScope.permits]
  exact decide_eq_true (Or.inr rfl)

/-- The task of a call is found by its owner. -/
theorem get_eq (htask : w.task env call = some task) (howner : task.ownerId = call.ownerId) :
    ImageTaskStore.get w.tasks (taskId env call) call.scope = .ok task := by
  have hfind : w.tasks.find? (taskId env call) = some task := htask
  rw [ImageTaskStore.get, hfind]
  dsimp only
  rw [howner, ImageToolCall.scope, if_pos (permits_self _)]

theorem get_eq_error (htask : w.task env call = none) :
    ImageTaskStore.get w.tasks (taskId env call) call.scope = .error imageTaskNotFound := by
  have hfind : w.tasks.find? (taskId env call) = none := htask
  rw [ImageTaskStore.get, hfind]

theorem getRecord_eq {recordId : String} {record : ImageGenerationRecord}
    (hfind : w.records.find? recordId = some record) (howner : record.ownerId = call.ownerId) :
    getRecord w.records recordId call.scope = .ok record := by
  rw [getRecord, hfind]
  dsimp only
  rw [howner, ImageToolCall.scope, if_pos (permits_self _)]

theorem find?_of_getRecord {recordId : String} {record : ImageGenerationRecord}
    (h : getRecord w.records recordId call.scope = .ok record) :
    w.records.find? recordId = some record := by
  rw [getRecord.eq_def] at h
  split at h
  · injection h
  · next found hfound =>
    split at h
    · rw [hfound, Except.ok.inj h]
    · injection h

/-! ### The invariant -/

variable (env call) in
/-- What an execution holds. -/
def Holds (w : World) : Execution → Prop
  | .selecting (some previous) records => ∃ task, w.task env call = some task ∧
      previous.toImageTaskSubmit = task.toImageTaskSubmit ∧
        referenceImages call records = .ok (originals task.request)
  | .selecting none _ => True
  | .submitting held | .creating held => Submitted env call held ∧ held.recordId = none
  | .starting | .polling => (w.task env call).isSome
  | .ended _ => True

variable (env call) in
structure Consistent (w : World) : Prop where
  submitted : ∀ task, w.task env call = some task → Submitted env call task
  recorded : ∀ task recordId, w.task env call = some task → task.recordId = some recordId →
    recordId = taskId env call ∧ (w.records.find? (taskId env call)).isSome
  owned : ∀ record, w.records.find? (taskId env call) = some record →
    record.ownerId = call.ownerId
  counted : w.created = if (w.task env call).isSome then 1 else 0
  served : (w.task env call).isSome →
    call.sessionId.all env.hasSession = true ∧ env.hasExecutor = true
  held : ∀ e ∈ w.executions, Holds env call w e

theorem consistent_of_fresh (h : w.Fresh env call) : Consistent env call w where
  submitted _ htask := absurd (h.task.symm.trans htask) (Option.some_ne_none _).symm
  recorded _ _ htask := absurd (h.task.symm.trans htask) (Option.some_ne_none _).symm
  owned _ hrecord := absurd (h.record.symm.trans hrecord) (Option.some_ne_none _).symm
  counted := by
    rw [h.created, h.task]
    rfl
  served hsome := by
    rw [h.task] at hsome
    exact absurd hsome Bool.false_ne_true
  held e he := by
    rw [h.executions] at he
    exact absurd he List.not_mem_nil

variable (env call) in
/-- The task of the call stays, made from the same. -/
def Stays (w w' : World) : Prop :=
  ∀ task, w.task env call = some task → ∃ task', w'.task env call = some task' ∧
    task'.toImageTaskSubmit = task.toImageTaskSubmit ∧ task'.ownerId = task.ownerId

theorem stays_of_eq (h : w'.task env call = w.task env call) : Stays env call w w' :=
  fun task htask => ⟨task, h.trans htask, rfl, rfl⟩

theorem Holds.of_stays {e : Execution} (h : Holds env call w e) (hstays : Stays env call w w') :
    Holds env call w' e := by
  have hsome : (w.task env call).isSome → (w'.task env call).isSome := by
    intro hsome
    obtain ⟨task, htask⟩ := Option.isSome_iff_exists.mp hsome
    obtain ⟨task', htask', -⟩ := hstays task htask
    rw [htask']
    rfl
  cases e with
  | selecting previous records =>
    cases previous with
    | none => trivial
    | some previous =>
      obtain ⟨task, htask, hsubmit, himages⟩ := h
      obtain ⟨task', htask', hsame, -⟩ := hstays task htask
      refine ⟨task', htask', hsubmit.trans hsame.symm, ?_⟩
      have hrequest : task'.request = task.request := congrArg ImageTaskSubmit.request hsame
      rw [hrequest]
      exact himages
  | submitting held => exact h
  | creating held => exact h
  | starting => exact hsome h
  | polling => exact hsome h
  | ended result => trivial

/-! ### The end of an execution -/

theorem finish_of_none {summary : ImageTaskSummary} (h : summary.recordId = none) :
    finish env call w summary = .error (taskFailed summary.errorType summary.errorMessage) := by
  rw [finish, h]
  rfl

/-- The record under the id of the task is found. -/
theorem Consistent.finish_eq (h : Consistent env call w) {record : ImageGenerationRecord}
    (hfind : w.records.find? (taskId env call) = some record) {summary : ImageTaskSummary}
    (hrecord : summary.recordId = some (taskId env call)) :
    finish env call w summary = .ok (toolResult env call summary.status record) := by
  have hne : taskId env call ≠ "" := env.uuid5_ne_empty _
  rw [finish, hrecord, filter_ne_empty hne]
  dsimp only
  rw [getRecord_eq hfind (h.owned record hfind)]
  rfl

theorem key_eq {record : ImageGenerationRecord} {recordId : String}
    (hfind : w.records.find? recordId = some record) : record.recordId = recordId :=
  (Table.find?_eq_some.mp hfind).2

/-- What is recovered for a task. -/
theorem recoverResult_cases (call : ImageToolCall) (w : World) (summary : ImageTaskSummary) :
    recoverResult call w summary = summary ∨
      (summary.status = .failed ∨ summary.status = .interrupted) ∧
        ∃ record, w.records.find? summary.taskId = some record ∧
          (recoverResult call w summary).recordId = some summary.taskId := by
  rw [recoverResult.eq_def]
  split
  · exact Or.inl rfl
  · next hstatus =>
    split
    · exact Or.inl rfl
    · next record hrecord =>
      refine Or.inr ⟨?_, record, find?_of_getRecord hrecord, ?_⟩
      · by_cases hfailed : summary.status = .failed
        · exact Or.inl hfailed
        · exact Or.inr (by_contra fun hne => hstatus ⟨hne, hfailed⟩)
      · rw [← key_eq (find?_of_getRecord hrecord)]

theorem recoverResult_status (w : World) (summary : ImageTaskSummary) :
    (recoverResult call w summary).status = summary.status := by
  rw [recoverResult.eq_def]
  split
  · rfl
  · split
    · rfl
    · rfl

/-- A task that is over has its record, or its failure. -/
theorem Consistent.outcome_summary (h : Consistent env call w)
    (htask : w.task env call = some task) (hover : task.isActive = false) :
    Outcome env call w task (finish env call w task.summary) := by
  cases hrecord : task.recordId with
  | none =>
    have hnone : task.summary.recordId = none := hrecord
    rw [finish_of_none hnone]
    exact .failure hover hrecord
  | some recordId =>
    obtain ⟨rfl, hfound⟩ := h.recorded task recordId htask hrecord
    obtain ⟨record, hfind⟩ := Option.isSome_iff_exists.mp hfound
    have hsome : task.summary.recordId = some (taskId env call) := hrecord
    rw [h.finish_eq hfind hsome]
    have hkey := key_eq hfind
    exact .record record hover (hkey ▸ hfind) (Or.inl (hkey ▸ hrecord))

theorem Consistent.outcome_recovered (h : Consistent env call w)
    (htask : w.task env call = some task) (hover : task.isActive = false) :
    Outcome env call w task (finish env call w (recoverResult call w task.summary)) := by
  have hid : task.summary.taskId = taskId env call := (h.submitted task htask).taskId
  obtain hsame | ⟨hstatus, record, hfind, hsome⟩ := recoverResult_cases call w task.summary
  · rw [hsame]
    exact h.outcome_summary htask hover
  · rw [hid] at hfind hsome
    rw [h.finish_eq hfind hsome, recoverResult_status]
    have hkey := key_eq hfind
    exact .record record hover (hkey ▸ hfind) (Or.inr ⟨hstatus, hkey.trans hid.symm⟩)

/-- How an execution stands once there is a task. -/
def Stands (env : Surroundings) (call : ImageToolCall) (w : World) (e : Execution) : Prop :=
  Holds env call w e ∧ ∀ result, e = .ended result →
    ∀ task, w.task env call = some task → Outcome env call w task result

/-- A look at the task. -/
theorem stands_conclude (htask : w.task env call = some task) {summary : ImageTaskSummary}
    (hstatus : summary.status = task.status)
    (hover : task.isActive = false → Outcome env call w task (finish env call w summary)) :
    Stands env call w (conclude env call w summary) := by
  rw [conclude, hstatus]
  by_cases hactive : task.status.isActive = true
  · rw [if_pos hactive]
    have hsome : (w.task env call).isSome = true := by
      rw [htask]
      rfl
    exact ⟨hsome, fun result hend => by injection hend⟩
  · rw [if_neg hactive]
    refine ⟨trivial, fun result hend task' htask' => ?_⟩
    obtain rfl := Execution.ended.inj hend
    obtain rfl := Option.some.inj (htask.symm.trans htask')
    exact hover (eq_false_of_ne_true hactive)

theorem Consistent.stands_look (h : Consistent env call w) (htask : w.task env call = some task) :
    Stands env call w (look env call w) := by
  have hget := get_eq htask (h.submitted task htask).owner
  have hsummary : ImageTaskStore.getSummary w.tasks (taskId env call) call.scope =
      .ok task.summary := by
    rw [ImageTaskStore.getSummary, hget]
    rfl
  rw [look, hsummary]
  exact stands_conclude htask (recoverResult_status w _) (h.outcome_recovered htask)

theorem Consistent.stands_started (h : Consistent env call w)
    (htask : w.task env call = some task) : Stands env call w (started env call w) := by
  rw [started, get_eq htask (h.submitted task htask).owner]
  exact stands_conclude htask rfl (h.outcome_summary htask)

/-- **The submission of the task is submitted again.** -/
theorem Consistent.stands_submit (h : Consistent env call w)
    (htask : w.task env call = some task) (now : UtcTime) :
    Stands env call w (submit env call w task.toImageTaskSubmit now) := by
  have hsubmitted := h.submitted task htask
  rw [submit, get_eq htask hsubmitted.owner]
  dsimp only
  rw [hsubmitted.same now, Bool.not_true, if_neg Bool.false_ne_true]
  exact h.stands_look htask

/-- Without a task nothing is said about the end of an execution. -/
theorem stands_of_none (htask : w.task env call = none) {e : Execution}
    (h : Holds env call w e) : Stands env call w e :=
  ⟨h, fun _ _ _ hsome => absurd (htask.symm.trans hsome) (Option.some_ne_none _).symm⟩

/-- An execution that has not ended. -/
theorem stands_of_ne {e : Execution} (h : Holds env call w e) (hne : ∀ result, e ≠ .ended result) :
    Stands env call w e :=
  ⟨h, fun result hend => absurd hend (hne result)⟩

/-! ### The segments -/

theorem Consistent.stands_select (h : Consistent env call w) {previous : Option ImageTask}
    (hholds : Holds env call w (.selecting previous records)) (now : UtcTime)
    (hkeeps : ∀ task, w.task env call = some task → previous = none →
      selection call w none records = .ok (task.providerId, task.request.modelId) ∧
        referenceImages call records = .ok (originals task.request)) :
    Stands env call w (select env call w previous records now) := by
  cases previous with
  | some previous =>
    obtain ⟨task, htask, hsubmit, himages⟩ := hholds
    rw [select, submission_of_previous (h.submitted task htask) hsubmit himages]
    exact h.stands_submit htask now
  | none =>
    cases htask : w.task env call with
    | some task =>
      obtain ⟨hselection, himages⟩ := hkeeps task htask rfl
      have hsubmitted := h.submitted task htask
      rw [select, hsubmitted.submission_eq hselection himages hsubmitted.request.symm]
      exact h.stands_submit htask now
    | none =>
      refine stands_of_none htask ?_
      rw [select]
      cases hsubmission : submission env call w none records with
      | error err => trivial
      | ok submission =>
        dsimp only
        rw [submit, get_eq_error htask]
        exact ⟨submitted_of_submission hsubmission now, rfl⟩

theorem stands_checkProvider {held : ImageTask}
    (hholds : Holds env call w (.submitting held))
    (hkeeps : ∀ task, w.task env call = some task →
      ∃ info, w.providers.find? (·.providerId = held.providerId) = some info ∧
        info.isEnabled = true ∧ supports info held.request.modelId = true) :
    Stands env call w (checkProvider w held) := by
  cases htask : w.task env call with
  | some task =>
    obtain ⟨info, hfind, henabled, hsupports⟩ := hkeeps task htask
    rw [checkProvider, hfind]
    dsimp only
    rw [henabled, hsupports, Bool.not_true, if_neg Bool.false_ne_true,
      if_neg Bool.false_ne_true]
    exact stands_of_ne hholds fun result hend => by injection hend
  | none =>
    refine stands_of_none htask ?_
    rw [checkProvider]
    split
    · trivial
    · split
      · trivial
      · split
        · trivial
        · exact hholds

theorem create_of_none {tasks : ImageTasks} (h : tasks.find? task.taskId = none) :
    ImageTaskStore.create tasks task = (.error imageTaskLimit, tasks) ∨
      ImageTaskStore.create tasks task = (.ok true, tasks.upsert task) := by
  rw [ImageTaskStore.create, h]
  dsimp only
  by_cases hlimit : maxActiveImageTasks ≤
      tasks.rows.countP fun item => item.ownerId = task.ownerId && item.isActive
  · exact Or.inl (if_pos hlimit)
  · exact Or.inr (if_neg hlimit)

theorem create_of_same {tasks : ImageTasks} {previous : ImageTask}
    (h : tasks.find? task.taskId = some previous) (hsame : sameSubmission previous task = true) :
    ImageTaskStore.create tasks task = (.ok false, tasks) := by
  have howner := owner_eq_of_sameSubmission hsame
  rw [ImageTaskStore.create, h]
  dsimp only
  rw [if_neg (not_not_intro howner), hsame, Bool.not_true, if_neg Bool.false_ne_true]

/-- The world after a segment. -/
structure Advanced (env : Surroundings) (call : ImageToolCall) (w w' : World) (e : Execution) :
    Prop where
  consistent : Consistent env call w'
  stays : Stays env call w w'
  executions : w'.executions = w.executions
  stands : Stands env call w' e

/-- A segment that changes nothing around it. -/
theorem advanced_self (h : Consistent env call w) {e : Execution} (hstands : Stands env call w e) :
    Advanced env call w w e :=
  ⟨h, stays_of_eq rfl, rfl, hstands⟩

/-- **The task is created.** -/
theorem Consistent.created (h : Consistent env call w) {held : ImageTask}
    (hsubmitted : Submitted env call held) (hrecord : held.recordId = none)
    (hserved : call.sessionId.all env.hasSession = true ∧ env.hasExecutor = true)
    (htask : w.task env call = none) :
    Advanced env call w
      { w with tasks := w.tasks.upsert held, created := w.created + 1 } .starting := by
  have hnew : World.task env call
      { w with tasks := w.tasks.upsert held, created := w.created + 1 } = some held := by
    have hself := w.tasks.find?_upsert_self held
    rw [hsubmitted.taskId] at hself
    exact hself
  have hstays : Stays env call w
      { w with tasks := w.tasks.upsert held, created := w.created + 1 } :=
    fun task hsome => absurd (htask.symm.trans hsome) (Option.some_ne_none _).symm
  have hsome : (World.task env call
      { w with tasks := w.tasks.upsert held, created := w.created + 1 }).isSome = true := by
    rw [hnew]
    rfl
  refine ⟨⟨?_, ?_, h.owned, ?_, fun _ => hserved, ?_⟩, hstays, rfl, ?_⟩
  · intro task hget
    obtain rfl := Option.some.inj (hnew.symm.trans hget)
    exact hsubmitted
  · intro task recordId hget hid
    obtain rfl := Option.some.inj (hnew.symm.trans hget)
    exact absurd (hrecord.symm.trans hid) (Option.some_ne_none _).symm
  · have hzero : w.created = 0 := by
      rw [h.counted, htask]
      rfl
    rw [if_pos hsome]
    dsimp only
    rw [hzero]
  · exact fun e he => (h.held e he).of_stays hstays
  · exact stands_of_ne hsome fun result hend => by injection hend

theorem Consistent.advanced_create (h : Consistent env call w) {held : ImageTask}
    (hholds : Holds env call w (.creating held))
    (hkeeps : ∀ task, w.task env call = some task → sameSubmission task held = true) :
    Advanced env call w (create env w held).1 (create env w held).2 := by
  obtain ⟨hsubmitted, hrecord⟩ := hholds
  have hended : ∀ err, w.task env call = none → Advanced env call w w (.ended (.error err)) :=
    fun err htask => advanced_self h (stands_of_none htask trivial)
  rw [create, hsubmitted.session]
  cases htask : w.task env call with
  | some task =>
    have hsome : (w.task env call).isSome = true := by
      rw [htask]
      rfl
    obtain ⟨hsession, hexecutor⟩ := h.served hsome
    have hfind : w.tasks.find? held.taskId = some task := hsubmitted.taskId ▸ htask
    rw [hsession, hexecutor, Bool.not_true, if_neg Bool.false_ne_true, if_neg Bool.false_ne_true,
      create_of_same hfind (hkeeps task htask)]
    exact advanced_self h (stands_of_ne hsome fun result hend => by injection hend)
  | none =>
    by_cases hsession : call.sessionId.all env.hasSession = true
    · rw [hsession, Bool.not_true, if_neg Bool.false_ne_true]
      by_cases hexecutor : env.hasExecutor = true
      · rw [hexecutor, Bool.not_true, if_neg Bool.false_ne_true]
        have hfind : w.tasks.find? held.taskId = none := hsubmitted.taskId ▸ htask
        rcases create_of_none hfind with hlimit | hnew
        · rw [hlimit]
          exact hended _ htask
        · rw [hnew]
          exact h.created hsubmitted hrecord ⟨hsession, hexecutor⟩ htask
      · rw [eq_false_of_ne_true hexecutor, Bool.not_false, if_pos rfl]
        exact hended _ htask
    · rw [eq_false_of_ne_true hsession, Bool.not_false, if_pos rfl]
      exact hended _ htask

/-- **One segment.** -/
theorem Consistent.advanced (h : Consistent env call w) {i : ℕ} {now : UtcTime} {e : Execution}
    (he : w.executions[i]? = some e) (hne : ∀ result, e ≠ .ended result)
    (hkeeps : Keeps env call w (.advance i now)) :
    Advanced env call w (advance env call w now e).1 (advance env call w now e).2 := by
  have hholds : Holds env call w e := h.held e (List.mem_of_getElem? he)
  cases e with
  | selecting previous records =>
    refine advanced_self h (h.stands_select hholds now ?_)
    rintro task htask rfl
    have hkept := hkeeps task htask
    dsimp only at hkept
    rw [he] at hkept
    exact hkept
  | submitting held =>
    refine advanced_self h (stands_checkProvider hholds ?_)
    intro task htask
    have hkept := hkeeps task htask
    dsimp only at hkept
    rw [he] at hkept
    exact hkept
  | creating held =>
    refine h.advanced_create hholds ?_
    intro task htask
    have hkept := hkeeps task htask
    dsimp only at hkept
    rw [he] at hkept
    exact hkept
  | starting =>
    obtain ⟨task, htask⟩ := Option.isSome_iff_exists.mp hholds
    exact advanced_self h (h.stands_started htask)
  | polling =>
    obtain ⟨task, htask⟩ := Option.isSome_iff_exists.mp hholds
    exact advanced_self h (h.stands_look htask)
  | ended result => exact absurd rfl (hne result)

/-- The first segment. -/
theorem Consistent.stands_begin (h : Consistent env call w)
    (hkeeps : Keeps env call w .execute) : Stands env call w (begin env call w) := by
  cases htask : w.task env call with
  | some task =>
    obtain ⟨records, hrecords, himages⟩ := hkeeps task htask
    rw [begin, hrecords, get_eq htask (h.submitted task htask).owner]
    exact stands_of_ne ⟨task, htask, rfl, himages⟩ fun result hend => by injection hend
  | none =>
    refine stands_of_none htask ?_
    rw [begin]
    split
    · trivial
    · rw [get_eq_error htask]
      trivial

/-! ### The surroundings -/

/-- What is left of a run when others act: the executions and the count stay. -/
structure Undisturbed (env : Surroundings) (call : ImageToolCall) (w w' : World) : Prop where
  executions : w'.executions = w.executions
  created : w'.created = w.created
  stays : Stays env call w w'
  new : w.task env call = none → w'.task env call = none
  record : (w.records.find? (taskId env call)).isSome →
    (w'.records.find? (taskId env call)).isSome

theorem Consistent.undisturbed (h : Consistent env call w) (hw : Undisturbed env call w w')
    (hrecorded : ∀ task recordId, w'.task env call = some task → task.recordId = some recordId →
      recordId = taskId env call ∧ (w'.records.find? (taskId env call)).isSome)
    (howned : ∀ record, w'.records.find? (taskId env call) = some record →
      record.ownerId = call.ownerId) : Consistent env call w' := by
  have hsome : (w'.task env call).isSome = (w.task env call).isSome := by
    cases htask : w.task env call with
    | none => rw [hw.new htask]
    | some task =>
      obtain ⟨task', htask', -⟩ := hw.stays task htask
      rw [htask']
      rfl
  refine ⟨?_, hrecorded, howned, ?_, ?_, ?_⟩
  · intro task' htask'
    cases htask : w.task env call with
    | none => exact absurd ((hw.new htask).symm.trans htask') (Option.some_ne_none _).symm
    | some task =>
      obtain ⟨later, hlater, hsubmit, howner⟩ := hw.stays task htask
      obtain rfl := Option.some.inj (hlater.symm.trans htask')
      exact (h.submitted task htask).of_eq hsubmit howner
  · rw [hw.created, hsome]
    exact h.counted
  · rw [hsome]
    exact h.served
  · rw [hw.executions]
    exact fun e he => (h.held e he).of_stays hw.stays

/-- The records change, and the record of the task stays. -/
theorem Consistent.of_records (h : Consistent env call w)
    (hexecutions : w'.executions = w.executions) (hcreated : w'.created = w.created)
    (htask : w'.task env call = w.task env call)
    (hrecord : (w.records.find? (taskId env call)).isSome →
      (w'.records.find? (taskId env call)).isSome)
    (howned : ∀ record, w'.records.find? (taskId env call) = some record →
      record.ownerId = call.ownerId) : Consistent env call w' := by
  refine h.undisturbed ⟨hexecutions, hcreated, stays_of_eq htask, htask.trans, hrecord⟩ ?_ howned
  intro task recordId hget hid
  obtain ⟨hsame, hsome⟩ := h.recorded task recordId (htask.symm.trans hget) hid
  exact ⟨hsame, hrecord hsome⟩

theorem Consistent.archive (h : Consistent env call w) {recordId : String}
    {record : ImageGenerationRecord} (hfind : w.records.find? recordId = some record)
    (images : List ImageArchive.GeneratedImage) :
    Consistent env call { w with records := w.records.upsert { record with images } } := by
  have hkey : record.recordId = recordId := key_eq hfind
  by_cases hid : recordId = taskId env call
  · have hself : (w.records.upsert { record with images }).find? (taskId env call) =
        some { record with images } := by
      rw [← hid, ← hkey]
      exact w.records.find?_upsert_self { record with images }
    refine h.of_records rfl rfl rfl ?_ ?_
    · intro _
      dsimp only
      rw [hself]
      rfl
    · intro found hfound
      obtain rfl := Option.some.inj (hself.symm.trans hfound)
      exact h.owned record (hid ▸ hfind)
  · have hne : taskId env call ≠ record.recordId := by
      rw [hkey]
      exact Ne.symm hid
    have hother : (w.records.upsert { record with images }).find? (taskId env call) =
        w.records.find? (taskId env call) := w.records.find?_upsert_of_ne hne
    refine h.of_records rfl rfl rfl ?_ ?_
    · dsimp only
      rw [hother]
      exact fun hsome => hsome
    · dsimp only
      rw [hother]
      exact h.owned

/-- What others do to the store. -/
theorem Consistent.store (h : Consistent env call w) {op : ImageTaskOp}
    (hpermits : w.permits env call op = true) :
    Consistent env call { w with tasks := (imageTaskStore.perform w.tasks op).2 } := by
  have hchange := imageTaskStore_change w.tasks op (taskId env call)
  generalize hbefore : w.tasks.find? (taskId env call) = before at hchange
  generalize hafter : (imageTaskStore.perform w.tasks op).2.find? (taskId env call) = after
    at hchange
  have htask : w.task env call = before := hbefore
  have htask' : World.task env call { w with tasks := (imageTaskStore.perform w.tasks op).2 } =
      after := hafter
  -- What is left to say is which later version of the task there is.
  have hlater : (before = none → after = none) →
      (∀ task, before = some task → ∃ task', after = some task' ∧
        task'.toImageTaskSubmit = task.toImageTaskSubmit ∧ task'.ownerId = task.ownerId ∧
          (task'.recordId = task.recordId ∨ task'.recordId = some (taskId env call) ∧
            (w.records.find? (taskId env call)).isSome)) →
      Consistent env call { w with tasks := (imageTaskStore.perform w.tasks op).2 } := by
    intro hnone hsome
    refine h.undisturbed ⟨rfl, rfl, ?_, ?_, fun hrecord => hrecord⟩ ?_ h.owned
    · intro task hget
      obtain ⟨task', hafter, hsubmit, howner, -⟩ := hsome task (htask.symm.trans hget)
      exact ⟨task', htask'.trans hafter, hsubmit, howner⟩
    · exact fun hget => htask'.trans (hnone (htask.symm.trans hget))
    · intro task' recordId hget hid
      cases hb : before with
      | none =>
        have habsent := htask'.symm.trans hget
        rw [hnone hb] at habsent
        exact absurd habsent (Option.some_ne_none _).symm
      | some task =>
        obtain ⟨later, hafter, -, -, hrecord⟩ := hsome task hb
        obtain rfl := Option.some.inj ((htask'.trans hafter).symm.trans hget)
        rcases hrecord with hsame | ⟨hown, hfound⟩
        · exact h.recorded task recordId (htask.trans hb) (hsame.symm.trans hid)
        · exact ⟨Option.some.inj (hid.symm.trans hown), hfound⟩
  cases hchange with
  | same hop =>
    exact hlater (fun hnone => hnone) fun task hsome => ⟨task, hsome, rfl, rfl, Or.inl rfl⟩
  | created task hop hreply =>
    subst hop
    have hkey : task.taskId = taskId env call := (Table.find?_eq_some.mp hafter).2
    exact absurd hkey (of_decide_eq_true hpermits)
  | claimed task workerId lease now hqueued hop hreply =>
    refine hlater (fun hnone => absurd hnone (Option.some_ne_none _)) ?_
    intro task' hsome
    obtain rfl := Option.some.inj hsome
    exact ⟨_, rfl, rfl, rfl, Or.inl rfl⟩
  | renewed task workerId lease hrunning hworker hop =>
    refine hlater (fun hnone => absurd hnone (Option.some_ne_none _)) ?_
    intro task' hsome
    obtain rfl := Option.some.inj hsome
    exact ⟨_, rfl, rfl, rfl, Or.inl rfl⟩
  | interrupted task now clock hexpired hop =>
    refine hlater (fun hnone => absurd hnone (Option.some_ne_none _)) ?_
    intro task' hsome
    obtain rfl := Option.some.inj hsome
    exact ⟨_, rfl, rfl, rfl, Or.inl rfl⟩
  | finished task result workerId hrunning hworker hop hid =>
    subst hop
    refine hlater (fun hnone => absurd hnone (Option.some_ne_none _)) ?_
    intro task' hsome
    obtain rfl := Option.some.inj hsome
    have hkept := hpermits
    rw [World.permits, hid, decide_eq_false (not_not_intro rfl), Bool.false_or, htask,
      Option.all_some] at hkept
    simp only [Bool.and_eq_true, Bool.or_eq_true, decide_eq_true_eq] at hkept
    exact ⟨_, rfl, hkept.1.1, hkept.1.2, hkept.2⟩
  | deleted task hop =>
    rcases hop with ⟨⟨scope, rfl⟩, -⟩ | rfl
    · exact absurd rfl (of_decide_eq_true hpermits)
    · exact absurd rfl (of_decide_eq_true hpermits)

/-! ### Steps and runs -/

theorem Consistent.with_executions (h : Consistent env call w) {executions : List Execution}
    (hheld : ∀ e ∈ executions, Holds env call w e) :
    Consistent env call { w with executions } :=
  ⟨h.submitted, h.recorded, h.owned, h.counted, h.served,
    fun e he => (hheld e he).of_stays (stays_of_eq rfl)⟩

theorem Outcome.with_executions {result : Except Error ImageToolResult}
    (h : Outcome env call w task result) (executions : List Execution) :
    Outcome env call { w with executions } task result := by
  cases h with
  | record record hover hfind hof => exact .record record hover hfind hof
  | failure hover hnone => exact .failure hover hnone

theorem Outcome.error_eq {err : Error} (h : Outcome env call w task (.error err)) :
    err = taskFailed task.errorType task.errorMessage := by
  cases h with
  | failure hover hnone => rfl

/-- Nothing is asked of a step before there is a task. -/
theorem keeps_of_none (h : w.task env call = none) {label : Label} : Keeps env call w label :=
  fun _ hsome => absurd (h.symm.trans hsome) (Option.some_ne_none _).symm

/-- A step after which the executions stand as before. -/
theorem settled_of_executions {label : Label}
    (h : ∀ w', step env call w label = some w' → w'.executions = w.executions) :
    Settled env call w label := by
  intro w' i result hstep hbefore hafter
  rw [h w' hstep] at hafter
  exact absurd hafter (hbefore result)

theorem Consistent.step_execute (h : Consistent env call w) (hkeeps : Keeps env call w .execute)
    (hstep : step env call w .execute = some w') :
    Consistent env call w' ∧ Settled env call w .execute := by
  have hstands := h.stands_begin hkeeps
  refine ⟨?_, ?_⟩
  · obtain rfl := Option.some.inj hstep
    refine h.with_executions fun e he => ?_
    rcases List.mem_append.mp he with he | he
    · exact h.held e he
    · rw [List.mem_singleton.mp he]
      exact hstands.1
  · intro w'' i result hstep' hbefore hafter task htask
    obtain rfl := Option.some.inj hstep'
    have hafter : (w.executions ++ [begin env call w])[i]? = some (.ended result) := hafter
    by_cases hi : i < w.executions.length
    · rw [List.getElem?_append_left hi] at hafter
      exact absurd hafter (hbefore result)
    · rw [List.getElem?_append_right (Nat.le_of_not_lt hi)] at hafter
      have hend := List.mem_singleton.mp (List.mem_of_getElem? hafter)
      exact (hstands.2 result hend.symm task htask).with_executions _

theorem Consistent.step_advance (h : Consistent env call w) {i : ℕ} {now : UtcTime}
    (hkeeps : Keeps env call w (.advance i now))
    (hstep : step env call w (.advance i now) = some w') :
    Consistent env call w' ∧ Settled env call w (.advance i now) := by
  obtain ⟨e, he, hne⟩ : ∃ e, w.executions[i]? = some e ∧ ∀ result, e ≠ .ended result := by
    rw [step] at hstep
    split at hstep
    · injection hstep
    · injection hstep
    · next e hne he => exact ⟨e, he, fun result hend => hne result hend⟩
  have hadvanced := h.advanced he hne hkeeps
  have hresult : step env call w (.advance i now) =
      some { (advance env call w now e).1 with
        executions := w.executions.set i (advance env call w now e).2 } := by
    rw [step, he]
    cases e with
    | ended result => exact absurd rfl (hne result)
    | selecting previous records => rfl
    | submitting held => rfl
    | creating held => rfl
    | starting => rfl
    | polling => rfl
  refine ⟨?_, ?_⟩
  · rw [hresult] at hstep
    obtain rfl := Option.some.inj hstep
    refine hadvanced.consistent.with_executions fun e' he' => ?_
    rcases List.mem_or_eq_of_mem_set he' with he' | rfl
    · exact (h.held e' he').of_stays hadvanced.stays
    · exact hadvanced.stands.1
  · intro w'' j result hstep' hbefore hafter task htask
    rw [hresult] at hstep'
    obtain rfl := Option.some.inj hstep'
    have hafter : (w.executions.set i (advance env call w now e).2)[j]? = some (.ended result) :=
      hafter
    by_cases hij : i = j
    · subst hij
      have hend : (advance env call w now e).2 = .ended result := by
        rw [List.getElem?_set_self' , he] at hafter
        exact Option.some.inj hafter
      exact (hadvanced.stands.2 result hend task htask).with_executions _
    · rw [List.getElem?_set_ne hij] at hafter
      exact absurd hafter (hbefore result)

theorem Consistent.saveRecord (h : Consistent env call w) {record : ImageGenerationRecord}
    (hne : record.recordId ≠ taskId env call) :
    Consistent env call { w with records := w.records.upsert record } := by
  have hother : (w.records.upsert record).find? (taskId env call) =
      w.records.find? (taskId env call) := w.records.find?_upsert_of_ne (Ne.symm hne)
  refine h.of_records rfl rfl rfl ?_ ?_
  · dsimp only
    rw [hother]
    exact fun hsome => hsome
  · dsimp only
    rw [hother]
    exact h.owned

theorem Consistent.deleteRecord (h : Consistent env call w) {recordId : String}
    (hne : recordId ≠ taskId env call) :
    Consistent env call { w with
      records := w.records.deleteWhere fun record => record.recordId = recordId
      tasks := ImageTaskStore.deleteForRecord w.tasks recordId } := by
  have hpermits : w.permits env call (.deleteForRecord recordId) = true := decide_eq_true hne
  have hrecord : (w.records.deleteWhere fun record => record.recordId = recordId).find?
      (taskId env call) = w.records.find? (taskId env call) := by
    rw [Table.find?_deleteWhere_key, if_neg (Ne.symm hne)]
  refine (h.store hpermits).of_records rfl rfl rfl ?_ ?_
  · dsimp only
    rw [hrecord]
    exact fun hsome => hsome
  · dsimp only
    rw [hrecord]
    exact h.owned

theorem Consistent.saveResult (h : Consistent env call w)
    {images : List ImageArchive.GeneratedImage}
    (hstep : w.saveResult env call images = some w') :
    Consistent env call w' ∧ w'.executions = w.executions := by
  rw [World.saveResult] at hstep
  split at hstep
  · injection hstep
  · next task htask =>
    split at hstep
    · injection hstep
    · obtain rfl := Option.some.inj hstep
      refine ⟨?_, rfl⟩
      have hsubmitted := h.submitted task htask
      let record : ImageGenerationRecord :=
        ⟨task.taskId, task.ownerId, task.providerId, task.request, images⟩
      have hself : (w.records.upsert record).find? (taskId env call) = some record := by
        rw [← hsubmitted.taskId]
        exact w.records.find?_upsert_self record
      refine h.of_records rfl rfl rfl ?_ ?_
      · intro _
        have hsome : ((w.records.upsert record).find? (taskId env call)).isSome = true := by
          rw [hself]
          rfl
        exact hsome
      · intro found hfound
        obtain rfl := Option.some.inj (hself.symm.trans hfound)
        exact hsubmitted.owner

/-- **One step.** -/
theorem Consistent.step (h : Consistent env call w) {label : Label}
    (hkeeps : Keeps env call w label) (hstep : ImageTool.step env call w label = some w') :
    Consistent env call w' ∧ Settled env call w label := by
  cases label with
  | execute => exact h.step_execute hkeeps hstep
  | advance i now => exact h.step_advance hkeeps hstep
  | setProviders providers =>
    refine ⟨?_, settled_of_executions fun u hu => Option.some.inj hu ▸ rfl⟩
    obtain rfl := Option.some.inj hstep
    exact h.undisturbed ⟨rfl, rfl, stays_of_eq rfl, fun hnone => hnone, fun hsome => hsome⟩
      h.recorded h.owned
  | saveRecord record =>
    have hne : ∀ u, ImageTool.step env call w (.saveRecord record) = some u →
        record.recordId ≠ taskId env call ∧ u = { w with records := w.records.upsert record } := by
      intro u hu
      rw [ImageTool.step, Option.ite_none_left_eq_some] at hu
      exact ⟨hu.1, (Option.some.inj hu.2).symm⟩
    refine ⟨?_, settled_of_executions fun u hu => ?_⟩
    · obtain ⟨hid, rfl⟩ := hne w' hstep
      exact h.saveRecord hid
    · obtain ⟨-, rfl⟩ := hne u hu
      rfl
  | archive recordId images =>
    have hfound : ∀ u, ImageTool.step env call w (.archive recordId images) = some u →
        ∃ record, w.records.find? recordId = some record ∧
          { w with records := w.records.upsert { record with images } } = u :=
      fun u hu => Option.map_eq_some_iff.mp hu
    refine ⟨?_, settled_of_executions fun u hu => ?_⟩
    · obtain ⟨record, hfind, rfl⟩ := hfound w' hstep
      exact h.archive hfind images
    · obtain ⟨record, -, rfl⟩ := hfound u hu
      rfl
  | deleteRecord recordId =>
    have hne : ∀ u, ImageTool.step env call w (.deleteRecord recordId) = some u →
        recordId ≠ taskId env call ∧ u = { w with
          records := w.records.deleteWhere fun record => record.recordId = recordId
          tasks := ImageTaskStore.deleteForRecord w.tasks recordId } := by
      intro u hu
      rw [ImageTool.step, Option.ite_none_left_eq_some] at hu
      exact ⟨hu.1, (Option.some.inj hu.2).symm⟩
    refine ⟨?_, settled_of_executions fun u hu => ?_⟩
    · obtain ⟨hid, rfl⟩ := hne w' hstep
      exact h.deleteRecord hid
    · obtain ⟨-, rfl⟩ := hne u hu
      rfl
  | saveResult images =>
    exact ⟨(h.saveResult hstep).1, settled_of_executions fun u hu => (h.saveResult hu).2⟩
  | store op =>
    have hpermits : ∀ u, ImageTool.step env call w (.store op) = some u →
        w.permits env call op = true ∧
          u = { w with tasks := (imageTaskStore.perform w.tasks op).2 } := by
      intro u hu
      rw [ImageTool.step, Option.ite_none_right_eq_some] at hu
      exact ⟨hu.1, (Option.some.inj hu.2).symm⟩
    refine ⟨?_, settled_of_executions fun u hu => ?_⟩
    · obtain ⟨hop, rfl⟩ := hpermits w' hstep
      exact h.store hop
    · obtain ⟨-, rfl⟩ := hpermits u hu
      rfl

theorem Consistent.settled (h : Consistent env call w) {label : Label}
    (hkeeps : Keeps env call w label) : Settled env call w label := by
  intro w' i result hstep
  exact (h.step hkeeps hstep).2 w' i result hstep

/-- **A run whose steps meet `Keeps` is idempotent.** -/
theorem idempotent_of_run (env : Surroundings) (call : ImageToolCall) (w : World)
    (labels : List Label) (hfresh : w.Fresh env call)
    (hgood : Along (step env call) (Keeps env call) w labels) : Idempotent env call w labels := by
  have hconsistent := consistent_of_fresh hfresh
  have hkept : ∀ (s : World) (a : Label) (s' : World), Consistent env call s →
      Keeps env call s a → step env call s a = some s' → Consistent env call s' :=
    fun _ _ _ h hkeeps hstep => (h.step hkeeps hstep).1
  refine ⟨fun w' hrun => ?_, ?_⟩
  · have hafter := run_invariant_of_along hkept hconsistent hrun hgood
    rw [hafter.counted]
    split
    · exact Nat.le_refl 1
    · exact Nat.zero_le 1
  · exact along_of_invariant hkept (fun _ _ h hkeeps => h.settled hkeeps) hconsistent hgood

/-! ### A call that edits a photo -/

private def surroundings : Surroundings where
  uuid5 _ := "004e68db63f25b35ba272c8a0942201f"
  uuid5_ne_empty _ := by decide
  accepts _ := true

private def paint : ImageToolCall where
  request := { prompt := "paint it blue", references := [{ recordId := "photo" }] }
  ownerId := some "alice"
  runId := "run"
  toolCallId := "call"

private def photo : ImageGenerationRecord where
  recordId := "photo"
  ownerId := some "alice"
  providerId := "main"
  request := { modelId := "image-model", prompt := "a leaf" }
  images := [⟨none, some "iVBORw0KGgo=", some .png, none⟩]

private def studio : World where
  records := Table.upsert photo ∅
  providers := [{
    providerId := "main"
    type := .openai
    model := [{ modelId := "image-model", capabilities := [.imageGeneration] }] }]

private def dawn : UtcTime := { year := 2026, month := 3, day := 4, hour := 5 }

private theorem studio_fresh : studio.Fresh surroundings paint := ⟨rfl, rfl, rfl, rfl⟩

/-- The task is created, and the call is executed again without any provider. -/
private def repainted : List Label :=
  [.execute, .advance 0 dawn, .advance 0 dawn, .advance 0 dawn, .execute, .setProviders [],
    .advance 1 dawn, .advance 0 dawn, .store (.claim "worker" dawn dawn), .advance 1 dawn]

theorem idempotent_of_run_repainted : Idempotent surroundings paint studio repainted := by
  refine idempotent_of_run surroundings paint studio repainted studio_fresh
    ⟨keeps_of_none rfl, keeps_of_none rfl, keeps_of_none rfl, keeps_of_none rfl, ?_,
      fun _ _ => trivial, fun _ _ => trivial, fun _ _ => trivial, fun _ _ => trivial,
      fun _ _ => trivial, trivial⟩
  intro task htask
  refine ⟨[photo], rfl, ?_⟩
  obtain rfl := Option.some.inj htask
  rfl

/-- **The photo is deleted.** The task of the call was created, and the call fails because of the
reference. -/
theorem reference_deleted_fails_again :
    studio.Fresh surroundings paint ∧
      ¬Idempotent surroundings paint studio
        [.execute, .advance 0 dawn, .advance 0 dawn, .advance 0 dawn, .deleteRecord "photo",
          .execute] := by
  refine ⟨studio_fresh, fun h => ?_⟩
  have hlast := h.2.2.2.2.2.2.1
  have houtcome := (hlast _ 1 (.error imageRecordNotFound) rfl nofun rfl _ rfl).error_eq
  exact ErrorType.noConfusion (congrArg Error.errorType houtcome)

end EvernightAI.ImageTool
