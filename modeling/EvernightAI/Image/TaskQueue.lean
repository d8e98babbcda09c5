import EvernightAI.Image.TaskSqlite
import EvernightAI.Lib.TransitionSystem

/-!
# The queue of image tasks over whole runs

Owners and workers call the operations of a store in any order. `ImageTaskChange` says once what a
call can do to a task; `ImageQueueLaw` is what follows for runs: a task is claimed at most once
while it is stored, only the worker that claimed it renews and finishes it, what is over stays as
it is, and no owner has more than ten tasks to wait for.

The calls are `Genuine`: a created task is in nobody's hands, and a finished one is a later version
of the stored one. `Lifecycle` is what a store must do call by call to obey the law
(`Lifecycle.queueLaw`); `EvernightAI.Image.TaskStores` has it for both stores.
-/

namespace EvernightAI

open TransitionSystem

/-- A task with a terminal status. -/
abbrev OverImageTask := { task : ImageTask // task.isActive = false }

/-- The calls that can change a store. -/
inductive ImageTaskOp
  | create (task : ImageTask)
  | claim (workerId : String) (leaseExpiresAt now : UtcTime)
  | renew (taskId workerId : String) (leaseExpiresAt : UtcTime)
  | finish (task : OverImageTask) (workerId : String)
  | recoverExpired (now : UtcTime) (clock : String → UtcTime)
  | delete (taskId : String) (scope : Option PrincipalScope)
  | deleteForRecord (recordId : String)

/-- What a call returns or raises. -/
inductive ImageTaskReply
  | done
  | bool (value : Bool)
  | task (value : Option ImageTask)
  | raised (error : Error)
  deriving DecidableEq, Repr

/-- The reply of a call that returns a value of this kind. -/
def replied {α σ : Type} (returned : α → ImageTaskReply) :
    Except Error α × σ → ImageTaskReply × σ
  | (.error err, s) => (.raised err, s)
  | (.ok value, s) => (returned value, s)

/-- The call was refused or found nothing to do. -/
def ImageTaskReply.isRejection : ImageTaskReply → Bool
  | .done => false
  | .bool value => !value
  | .task value => value.isNone
  | .raised _ => true

namespace ImageTaskStoreProtocol

variable {σ : Type} (api : ImageTaskStoreProtocol σ)

def perform (s : σ) : ImageTaskOp → ImageTaskReply × σ
  | .create task => replied .bool (api.create task s)
  | .claim workerId lease now => replied .task (api.claim workerId lease now s)
  | .renew taskId workerId lease => replied .bool (api.renew taskId workerId lease s)
  | .finish task workerId => replied .bool (api.finish task.1 workerId s)
  | .recoverExpired now clock => replied (fun _ => .done) (api.recoverExpired now clock s)
  | .delete taskId scope => replied (fun _ => .done) (api.delete taskId scope s)
  | .deleteForRecord recordId => replied (fun _ => .done) (api.deleteForRecord recordId s)

/-- Every call can be made in every store. -/
def step (s : σ) (op : ImageTaskOp) : Option σ := some (api.perform s op).2

/-- What the calls of a run reply. -/
def replies : σ → List ImageTaskOp → List ImageTaskReply
  | _, [] => []
  | s, op :: ops => (api.perform s op).1 :: replies (api.perform s op).2 ops

/-- The store after a run. -/
def after (s : σ) (ops : List ImageTaskOp) : σ := ops.foldl (fun s op => (api.perform s op).2) s

/-- The task that is stored under an id. -/
def stored (s : σ) (taskId : String) : Option ImageTask := (api.get taskId none s).toOption

/-- **Genuine calls.** A task is created without a worker and a lease; a worker that finishes the
task it holds passes a version of it with the same owner, session and time of creation. -/
def Genuine (s : σ) : ImageTaskOp → Prop
  | .create task => task.workerId = none ∧ task.leaseExpiresAt = none
  | .finish task workerId => ∀ current ∈ api.stored s task.1.taskId,
      current.status = .running → current.workerId = some workerId →
        task.1.ownerId = current.ownerId ∧ task.1.sessionId = current.sessionId ∧
          task.1.createdAt = current.createdAt
  | _ => True

end ImageTaskStoreProtocol

/-! ### What a call does to a task -/

/-- The task that a call with this reply has written. -/
def ImageTaskOp.written : ImageTaskOp → ImageTaskReply → Option String
  | .create task, .bool true => some task.taskId
  | .claim .., .task (some task) => some task.taskId
  | .renew taskId _ _, .bool true => some taskId
  | .finish task _, .bool true => some task.1.taskId
  | _, _ => none

/-- **The life of a task.** What is stored under an id before and after a call. -/
inductive ImageTaskChange (op : ImageTaskOp) (reply : ImageTaskReply) (taskId : String) :
    Option ImageTask → Option ImageTask → Prop
  | same (task : Option ImageTask) (hop : op.written reply ≠ some taskId) :
      ImageTaskChange op reply taskId task task
  | created (task : ImageTask) (hop : op = .create task) (hreply : reply = .bool true) :
      ImageTaskChange op reply taskId none (some task)
  | claimed (task : ImageTask) (workerId : String) (lease now : UtcTime)
      (hqueued : task.status = .queued) (hop : op = .claim workerId lease now)
      (hreply : reply = .task (some (task.claimed workerId lease now))) :
      ImageTaskChange op reply taskId (some task) (some (task.claimed workerId lease now))
  | renewed (task : ImageTask) (workerId : String) (lease : UtcTime)
      (hrunning : task.status = .running) (hworker : task.workerId = some workerId)
      (hop : op = .renew taskId workerId lease) :
      ImageTaskChange op reply taskId (some task) (some (task.renewed lease))
  | finished (task : ImageTask) (result : OverImageTask) (workerId : String)
      (hrunning : task.status = .running) (hworker : task.workerId = some workerId)
      (hop : op = .finish result workerId) (hid : result.1.taskId = taskId) :
      ImageTaskChange op reply taskId (some task) (some result.1.finished)
  | interrupted (task : ImageTask) (now : UtcTime) (clock : String → UtcTime)
      (hexpired : task.isExpired now = true) (hop : op = .recoverExpired now clock) :
      ImageTaskChange op reply taskId (some task) (some (task.interrupted (clock taskId)))
  | deleted (task : ImageTask) (hop : (∃ scope, op = .delete taskId scope) ∧ task.isActive = false ∨
      op = .deleteForRecord taskId) :
      ImageTaskChange op reply taskId (some task) none

/-! ### The law of the queue -/

namespace ImageTaskStoreProtocol

variable {σ : Type} (api : ImageTaskStoreProtocol σ)

/-- The stores that genuine calls lead to. -/
def Reached (init s : σ) : Prop :=
  ∃ ops, run api.step init ops = some s ∧ Along api.step api.Genuine init ops

/-- This call claims the task. -/
def Claims (s : σ) (op : ImageTaskOp) (workerId taskId : String) : Prop :=
  ∃ lease now task, op = .claim workerId lease now ∧
    (api.perform s op).1 = .task (some task) ∧ task.taskId = taskId

/-- This worker renews or finishes the task. -/
def Uses (s : σ) (op : ImageTaskOp) (workerId taskId : String) : Prop :=
  (api.perform s op).1 = .bool true ∧
    ((∃ lease, op = .renew taskId workerId lease) ∨
      ∃ task : OverImageTask, op = .finish task workerId ∧ task.1.taskId = taskId)

/-- The task is running in the hands of this worker. -/
def Holds (s : σ) (workerId taskId : String) : Prop :=
  ∃ task ∈ api.stored s taskId, task.status = .running ∧ task.workerId = some workerId

/-- No owner waits for more tasks than the limit. -/
def Limited (s : σ) : Prop :=
  ∀ (owner : Option String) (ids : List String), ids.Nodup →
    (∀ id ∈ ids, ∃ task ∈ api.stored s id, task.ownerId = owner ∧ task.isActive = true) →
      ids.length ≤ maxActiveImageTasks

/-- **The law of the queue**, over genuine runs. -/
structure QueueLaw (init : σ) : Prop where
  /-- Between two claims of a task there is a store without it. -/
  claimedOnce : ∀ {s u : σ} {op op' : ImageTaskOp} {ops : List ImageTaskOp} {w w' taskId : String},
    api.Reached init s → run api.step s (op :: ops) = some u →
      Along api.step api.Genuine s (op :: ops) → api.Claims s op w taskId →
        api.Claims u op' w' taskId →
          ∃ pre v, pre <+: ops ∧ run api.step s (op :: pre) = some v ∧ api.stored v taskId = none
  /-- A worker that renews or finishes a task has claimed it and has held it ever since. -/
  onlyHolder : ∀ {ops : List ImageTaskOp} {s : σ} {op : ImageTaskOp} {w taskId : String},
    run api.step init ops = some s → Along api.step api.Genuine init ops → api.Genuine s op →
      api.Uses s op w taskId →
        ∃ before claim after m, ops = before ++ claim :: after ∧
          run api.step init before = some m ∧ api.Claims m claim w taskId ∧
            ∀ pre v, pre <+: after → run api.step m (claim :: pre) = some v →
              api.Holds v w taskId
  /-- A task that is over stays as it is until it is deleted. -/
  overStays : ∀ {s u : σ} {ops : List ImageTaskOp} {task : ImageTask} {taskId : String},
    api.Reached init s → api.stored s taskId = some task → task.isActive = false →
      run api.step s ops = some u → Along api.step api.Genuine s ops →
        api.stored u taskId = some task ∨
          ∃ pre v, pre <+: ops ∧ run api.step s pre = some v ∧ api.stored v taskId = none
  /-- An owner waits for at most ten tasks. -/
  limited : ∀ {s : σ}, api.Reached init s → api.Limited s
  /-- The same submission again changes nothing. -/
  resubmitted : ∀ {s : σ} {task previous : ImageTask}, api.Reached init s →
    api.stored s task.taskId = some previous → sameSubmission previous task = true →
      api.perform s (.create task) = (.bool false, s)
  /-- A rejected call changes nothing. -/
  rejected : ∀ {s : σ} {op : ImageTaskOp}, api.Reached init s → api.Genuine s op →
    (api.perform s op).1.isRejection = true → (api.perform s op).2 = s

/-- **Lifecycle.** What the law needs of a store whose states satisfy `Inv`: it is about single
calls only. -/
structure Lifecycle (Inv : σ → Prop) : Prop where
  keep : ∀ {s op}, Inv s → api.Genuine s op → Inv (api.perform s op).2
  change : ∀ {s op}, Inv s → api.Genuine s op → ∀ taskId,
    ImageTaskChange op (api.perform s op).1 taskId (api.stored s taskId)
      (api.stored (api.perform s op).2 taskId)
  room : ∀ {s task}, Inv s → api.Genuine s (.create task) →
    (api.perform s (.create task)).1 = .bool true → ∀ ids : List String, ids.Nodup →
      (∀ id ∈ ids, ∃ item ∈ api.stored s id, item.ownerId = task.ownerId ∧ item.isActive = true) →
        ids.length < maxActiveImageTasks
  resubmitted : ∀ {s} {task previous : ImageTask}, Inv s →
    api.stored s task.taskId = some previous → sameSubmission previous task = true →
      api.perform s (.create task) = (.bool false, s)
  rejected : ∀ {s op}, Inv s → api.Genuine s op → (api.perform s op).1.isRejection = true →
    (api.perform s op).2 = s
  keyed : ∀ {s taskId task}, Inv s → api.stored s taskId = some task → task.taskId = taskId

variable {api} {Inv : σ → Prop} {init : σ}

namespace Lifecycle

theorem inv_reached (h : api.Lifecycle Inv) (hinit : Inv init) {s : σ} (hs : api.Reached init s) :
    Inv s := by
  obtain ⟨ops, hrun, hgood⟩ := hs
  refine run_invariant_of_along (fun s op s' hs hop hstep => ?_) hinit hrun hgood
  rw [← Option.some.inj hstep]
  exact h.keep hs hop

variable (h : api.Lifecycle Inv) {s : σ} {op : ImageTaskOp} {w taskId : String}

include h

/-- A claimed task was queued, and is now in the hands of the worker. -/
theorem claims_change (hs : Inv s) (hop : api.Genuine s op) (hclaims : api.Claims s op w taskId) :
    (∃ task ∈ api.stored s taskId, task.status = .queued) ∧
      api.Holds (api.perform s op).2 w taskId := by
  obtain ⟨lease, now, task, rfl, hreply, rfl⟩ := hclaims
  have hchange := h.change hs hop task.taskId
  rw [hreply] at hchange
  unfold Holds
  generalize api.stored s task.taskId = old at hchange ⊢
  generalize api.stored (api.perform s (.claim w lease now)).2 task.taskId = new at hchange ⊢
  rcases hchange with ⟨_, hnot⟩ | ⟨_, hop', -⟩ | ⟨old, w, lease, now, hqueued, hop', hreply⟩ |
    ⟨_, _, _, -, -, hop'⟩ | ⟨_, _, _, -, -, hop', -⟩ | ⟨_, _, _, -, hop'⟩ |
    ⟨_, ⟨⟨_, hop'⟩, -⟩ | hop'⟩
  · exact absurd rfl hnot
  · cases hop'
  · injection hop' with hw
    exact ⟨⟨old, rfl, hqueued⟩, old.claimed w lease now, rfl, rfl, congrArg some hw.symm⟩
  all_goals cases hop'

/-- Who renews or finishes a task holds it. -/
theorem holds_of_uses (hs : Inv s) (hop : api.Genuine s op) (huses : api.Uses s op w taskId) :
    api.Holds s w taskId := by
  obtain ⟨hreply, huses⟩ := huses
  have hchange := h.change hs hop taskId
  unfold Holds
  generalize api.stored s taskId = old at hchange ⊢
  generalize api.stored (api.perform s op).2 taskId = new at hchange
  rw [hreply] at hchange
  rcases hchange with ⟨_, hnot⟩ | ⟨_, hop', -⟩ | ⟨_, _, _, _, -, hop', -⟩ |
    ⟨old, w', lease, hrunning, hworker, hop'⟩ | ⟨old, _, w', hrunning, hworker, hop', -⟩ |
    ⟨_, _, _, -, hop'⟩ | ⟨_, ⟨⟨_, hop'⟩, -⟩ | hop'⟩
  · rcases huses with ⟨lease, rfl⟩ | ⟨task, rfl, rfl⟩ <;> exact absurd rfl hnot
  · rcases huses with ⟨lease, rfl⟩ | ⟨task, rfl, -⟩ <;> cases hop'
  · rcases huses with ⟨lease, rfl⟩ | ⟨task, rfl, -⟩ <;> cases hop'
  · refine ⟨old, rfl, hrunning, ?_⟩
    rcases huses with ⟨lease, rfl⟩ | ⟨task, rfl, -⟩
    · injection hop' with _ hw
      rw [hworker, hw]
    · cases hop'
  · refine ⟨old, rfl, hrunning, ?_⟩
    rcases huses with ⟨lease, rfl⟩ | ⟨task, rfl, -⟩
    · cases hop'
    · injection hop' with _ hw
      rw [hworker, hw]
  all_goals rcases huses with ⟨lease, rfl⟩ | ⟨task, rfl, -⟩ <;> cases hop'

/-- A task gets into the hands of a worker by a claim. -/
theorem claims_of_holds (hs : Inv s) (hop : api.Genuine s op) (hnot : ¬api.Holds s w taskId)
    (hholds : api.Holds (api.perform s op).2 w taskId) : api.Claims s op w taskId := by
  have hchange := h.change hs hop taskId
  have hkeyed : ∀ task ∈ api.stored s taskId, task.taskId = taskId := fun _ => h.keyed hs
  unfold Holds at hnot hholds
  obtain ⟨task, hnew, hrunning, hworker⟩ := hholds
  rw [Option.mem_def] at hnew
  rw [hnew] at hchange
  generalize api.stored s taskId = old at hchange hnot hkeyed
  generalize hsome : some task = new at hchange
  rcases hchange with _ | ⟨task, hop', -⟩ | ⟨old, w', lease, now, hqueued, hop', hreply⟩ |
    ⟨old, w', lease, hrunning, hworker', -⟩ | ⟨old, result, w', -, -, -, -⟩ |
    ⟨old, now, clock, -, -⟩ | ⟨old, -⟩
  · exact absurd ⟨task, hsome.symm, hrunning, hworker⟩ hnot
  · obtain rfl := Option.some.inj hsome
    subst hop'
    rw [hop.1] at hworker
    cases hworker
  · obtain rfl := Option.some.inj hsome
    obtain rfl := Option.some.inj hworker
    exact ⟨lease, now, _, hop', hreply, hkeyed old rfl⟩
  · obtain rfl := Option.some.inj hsome
    exact absurd ⟨old, rfl, hrunning, hworker⟩ hnot
  · obtain rfl := Option.some.inj hsome
    cases hworker
  · obtain rfl := Option.some.inj hsome
    cases hworker
  · cases hsome

/-- A task that waits again was deleted. -/
theorem deleted_of_queued (hs : Inv s) (hop : api.Genuine s op)
    (hnot : ¬∀ task ∈ api.stored s taskId, task.status = .queued)
    (hqueued : ∀ task ∈ api.stored (api.perform s op).2 taskId, task.status = .queued) :
    api.stored (api.perform s op).2 taskId = none := by
  have hchange := h.change hs hop taskId
  generalize api.stored s taskId = old at hchange hnot
  generalize api.stored (api.perform s op).2 taskId = new at hchange hqueued ⊢
  rcases hchange with _ | _ | _ | ⟨task, _, _, hrunning, -, -⟩ | ⟨_, result, _, -, -, -, -⟩ | _ | _
  · exact absurd hqueued hnot
  · exact absurd (fun task htask => absurd htask (Option.not_mem_none task)) hnot
  · have hstatus : ImageTaskStatus.running = .queued := hqueued _ rfl
    cases hstatus
  · have hstatus : task.status = .queued := hqueued (task.renewed _) rfl
    cases hrunning.symm.trans hstatus
  · have hstatus : result.1.status = .queued := hqueued result.1.finished rfl
    have hover := result.2
    rw [ImageTask.isActive, hstatus] at hover
    cases hover
  · have hstatus : ImageTaskStatus.interrupted = .queued := hqueued _ rfl
    cases hstatus
  · rfl

/-- What is over is left alone or deleted. -/
theorem over_step {task : ImageTask} (hs : Inv s) (hop : api.Genuine s op)
    (hstored : api.stored s taskId = some task) (hover : task.isActive = false) :
    api.stored (api.perform s op).2 taskId = some task ∨
      api.stored (api.perform s op).2 taskId = none := by
  have hchange := h.change hs hop taskId
  rw [hstored] at hchange
  generalize api.stored (api.perform s op).2 taskId = new at hchange ⊢
  have hactive : ∀ status, task.status = status → status.isActive = false := by
    rintro status rfl
    exact hover
  rcases hchange with _ | _ | ⟨_, _, _, _, hqueued, -, -⟩ | ⟨_, _, _, hrunning, -, -⟩ |
    ⟨_, _, _, hrunning, -, -, -⟩ | ⟨_, _, _, hexpired, -⟩ | _
  · exact Or.inl rfl
  · exact absurd (hactive _ hqueued) (by decide)
  · exact absurd (hactive _ hrunning) (by decide)
  · exact absurd (hactive _ hrunning) (by decide)
  · have hrunning : task.status = .running :=
      of_decide_eq_true (Bool.and_eq_true _ _ ▸ hexpired).1
    exact absurd (hactive _ hrunning) (by decide)
  · exact Or.inr rfl

/-- An active task was an active task of the same owner, unless it was just created. -/
theorem active_before {task : ImageTask} (hs : Inv s) (hop : api.Genuine s op)
    (hstored : task ∈ api.stored (api.perform s op).2 taskId) (hactive : task.isActive = true) :
    (∃ old ∈ api.stored s taskId, old.ownerId = task.ownerId ∧ old.isActive = true) ∨
      op = .create task ∧ (api.perform s op).1 = .bool true ∧ api.stored s taskId = none := by
  have hchange := h.change hs hop taskId
  rw [Option.mem_def] at hstored
  rw [hstored] at hchange
  generalize api.stored s taskId = old at hchange ⊢
  generalize hsome : some task = new at hchange
  have hrunning : ∀ old : ImageTask, old.status = .running → old.isActive = true := by
    intro old hold
    rw [ImageTask.isActive, hold]
    rfl
  rcases hchange with _ | ⟨_, hop', hreply⟩ | ⟨old, _, _, _, hqueued, -, -⟩ |
    ⟨old, _, _, hold, -, -⟩ | ⟨_, result, _, -, -, -, -⟩ | _ | _
  · exact Or.inl ⟨task, hsome.symm, rfl, hactive⟩
  · obtain rfl := Option.some.inj hsome
    exact Or.inr ⟨hop', hreply, rfl⟩
  · obtain rfl := Option.some.inj hsome
    refine Or.inl ⟨old, rfl, rfl, ?_⟩
    rw [ImageTask.isActive, hqueued]
    rfl
  · obtain rfl := Option.some.inj hsome
    exact Or.inl ⟨old, rfl, rfl, hrunning old hold⟩
  · obtain rfl := Option.some.inj hsome
    exact absurd hactive (Bool.eq_false_iff.mp result.2)
  · obtain rfl := Option.some.inj hsome
    exact absurd hactive Bool.false_ne_true
  · cases hsome

end Lifecycle

theorem Reached.append {s u : σ} {ops : List ImageTaskOp} (hs : api.Reached init s)
    (hrun : run api.step s ops = some u) (hgood : Along api.step api.Genuine s ops) :
    api.Reached init u := by
  obtain ⟨before, hbefore, hgood'⟩ := hs
  refine ⟨before ++ ops, ?_, (along_append hbefore).mpr ⟨hgood', hgood⟩⟩
  rw [run_append, hbefore]
  exact hrun

/-- A run that enters a property does so in a genuine step from a reached store. -/
private theorem exists_genuine_entry {P : σ → Prop} {s u : σ} {ops : List ImageTaskOp}
    (hs : api.Reached init s) (hrun : run api.step s ops = some u)
    (hgood : Along api.step api.Genuine s ops) (hnot : ¬P s) (hP : P u) :
    ∃ before op after m, ops = before ++ op :: after ∧ run api.step s before = some m ∧
      api.Reached init m ∧ api.Genuine m op ∧ ¬P m ∧ P (api.perform m op).2 ∧
        ∀ pre v, pre <+: after → run api.step m (op :: pre) = some v → P v := by
  obtain ⟨before, op, after, m, m', rfl, hbefore, hstep, hm, hafter⟩ :=
    exists_last_entry hnot hP hrun
  obtain ⟨hgood, hgood'⟩ := (along_append hbefore).mp hgood
  obtain rfl := Option.some.inj hstep
  refine ⟨before, op, after, m, rfl, hbefore, hs.append hbefore hgood, (along_cons hgood' hstep).1,
    hm, hafter [] _ List.nil_prefix rfl, fun pre v hpre hv => hafter pre v hpre hv⟩

/-- A call keeps the limit. -/
theorem Lifecycle.limited_step (h : api.Lifecycle Inv) {s : σ} {op : ImageTaskOp} (hs : Inv s)
    (hop : api.Genuine s op) (hlimited : api.Limited s) : api.Limited (api.perform s op).2 := by
  intro owner ids hids hactive
  by_cases hold : ∀ id ∈ ids, ∃ task ∈ api.stored s id, task.ownerId = owner ∧ task.isActive = true
  · exact hlimited owner ids hids hold
  · -- One of the tasks is new, and there was room for it.
    obtain ⟨id, hid, hnew⟩ : ∃ id ∈ ids,
        ¬∃ task ∈ api.stored s id, task.ownerId = owner ∧ task.isActive = true := by
      simpa only [not_forall, exists_prop] using hold
    obtain ⟨task, htask, rfl, htaskActive⟩ := hactive id hid
    obtain hbefore | ⟨rfl, hreply, hnone⟩ := h.active_before hs hop htask htaskActive
    · exact absurd hbefore hnew
    · have hroom := h.room hs hop hreply (ids.erase id) (hids.erase id) fun id' hid' => ?_
      · have hlength := List.length_erase_add_one hid
        omega
      · obtain ⟨hne, hid'⟩ := (List.Nodup.mem_erase_iff hids).mp hid'
        obtain ⟨item, hitem, howner, hitemActive⟩ := hactive id' hid'
        rcases h.active_before hs hop hitem hitemActive with hbefore | ⟨hop', -, -⟩
        · rwa [howner] at hbefore
        · injection hop' with hitem'
          subst hitem'
          have hkey := h.keyed (h.keep hs hop) htask
          exact absurd (hkey.symm.trans (h.keyed (h.keep hs hop) hitem)).symm hne

theorem Lifecycle.limited_reached (h : api.Lifecycle Inv) (hinit : Inv init)
    (hempty : ∀ taskId, api.stored init taskId = none) {s : σ} (hs : api.Reached init s) :
    Inv s ∧ api.Limited s := by
  obtain ⟨ops, hrun, hgood⟩ := hs
  refine run_invariant_of_along (I := fun s => Inv s ∧ api.Limited s)
    (fun s op s' hs hop hstep => ?_) ⟨hinit, fun owner ids _ hactive => ?_⟩ hrun hgood
  · rw [← Option.some.inj hstep]
    exact ⟨h.keep hs.1 hop, h.limited_step hs.1 hop hs.2⟩
  · have hnil : ids = [] := List.eq_nil_iff_forall_not_mem.mpr fun id hid => by
      obtain ⟨task, htask, -⟩ := hactive id hid
      rw [hempty] at htask
      cases htask
    rw [hnil]
    exact Nat.zero_le _

/-- **A store with this lifecycle obeys the law.** -/
theorem Lifecycle.queueLaw (h : api.Lifecycle Inv) (hinit : Inv init)
    (hempty : ∀ taskId, api.stored init taskId = none) : api.QueueLaw init where
  claimedOnce := by
    intro s u op op' ops w w' taskId hs hrun hgood hclaims hclaims'
    obtain ⟨m, hstep, hrest⟩ := run_cons_eq_some.mp hrun
    obtain ⟨hop, hgood'⟩ := along_cons hgood hstep
    have hone : run api.step s [op] = some m := by rw [run_cons, hstep]; rfl
    have hm : api.Reached init m := hs.append hone ⟨hop, by rw [hstep]; trivial⟩
    obtain rfl := Option.some.inj hstep
    obtain ⟨task, hheld, hrunning, -⟩ := (h.claims_change (h.inv_reached hinit hs) hop hclaims).2
    -- Right after the first claim the task does not wait, right before the second it does.
    have hnot : ¬∀ task ∈ api.stored (api.perform s op).2 taskId, task.status = .queued :=
      fun hall => by cases hrunning.symm.trans (hall task hheld)
    have hop' : api.Genuine u op' := by
      obtain ⟨lease, now, -, rfl, -⟩ := hclaims'
      trivial
    obtain ⟨task', hwaits, hqueued⟩ :=
      (h.claims_change (h.inv_reached hinit (hm.append hrest hgood')) hop' hclaims').1
    have hall : ∀ task ∈ api.stored u taskId, task.status = .queued := by
      intro task htask
      rwa [Option.mem_unique htask hwaits]
    obtain ⟨before, x, after, v, rfl, hbefore, hv, hx, hnot, hall, -⟩ :=
      exists_genuine_entry (P := fun s => ∀ task ∈ api.stored s taskId, task.status = .queued)
        hm hrest hgood' hnot hall
    refine ⟨before ++ [x], _, List.prefix_append_right_inj before |>.mpr ⟨after, rfl⟩, ?_,
      h.deleted_of_queued (h.inv_reached hinit hv) hx hnot hall⟩
    rw [run_cons, hstep, Option.bind_some, run_append, hbefore]
    rfl
  onlyHolder := by
    intro ops s op w taskId hrun hgood hop huses
    have hs : api.Reached init s := ⟨ops, hrun, hgood⟩
    have hholds := h.holds_of_uses (h.inv_reached hinit hs) hop huses
    have hnot : ¬api.Holds init w taskId := by
      rintro ⟨task, htask, -⟩
      rw [hempty] at htask
      cases htask
    obtain ⟨before, claim, after, m, rfl, hbefore, hm, hgenuine, hnot, hholds, hafter⟩ :=
      exists_genuine_entry (P := fun s => api.Holds s w taskId) ⟨[], rfl, trivial⟩ hrun hgood hnot
        hholds
    exact ⟨before, claim, after, m, rfl, hbefore,
      h.claims_of_holds (h.inv_reached hinit hm) hgenuine hnot hholds, hafter⟩
  overStays := by
    intro s u ops task taskId hs hstored hover hrun hgood
    by_cases hu : api.stored u taskId = some task
    · exact Or.inl hu
    · obtain ⟨before, x, after, v, rfl, hbefore, hv, hx, hnot, hchanged, -⟩ :=
        exists_genuine_entry (P := fun s => api.stored s taskId ≠ some task) hs hrun hgood
          (not_not.mpr hstored) hu
      have hnone := (h.over_step (h.inv_reached hinit hv) hx (not_not.mp hnot) hover).resolve_left
        hchanged
      refine Or.inr ⟨before ++ [x], _, List.prefix_append_right_inj before |>.mpr ⟨after, rfl⟩, ?_,
        hnone⟩
      rw [run_append, hbefore]
      rfl
  limited := fun hs => (h.limited_reached hinit hempty hs).2
  resubmitted := fun hs => h.resubmitted (h.inv_reached hinit hs)
  rejected := fun hs => h.rejected (h.inv_reached hinit hs)

end ImageTaskStoreProtocol

end EvernightAI
