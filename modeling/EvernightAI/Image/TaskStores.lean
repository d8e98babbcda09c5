import EvernightAI.Image.TaskQueue

/-!
# Both stores of image tasks obey the law of the queue

`imageTaskStore_lifecycle` checks the operations over a dictionary one by one. The SQLite store
does what they do, on the tasks that its rows stand for (`perform_agrees`), so it inherits the
lifecycle and no sequence of calls tells the stores apart (`imageTaskQueue`).
-/

namespace EvernightAI

open TransitionSystem

/-! ### The dictionary -/

section Dictionary

variable {tasks : ImageTasks} {op : ImageTaskOp} {reply : ImageTaskReply}

theorem imageTaskStore_stored (tasks : ImageTasks) (taskId : String) :
    imageTaskStore.stored tasks taskId = tasks.find? taskId := by
  unfold ImageTaskStoreProtocol.stored imageTaskStore ImageTaskStore.get
  dsimp only
  split
  · next h => rw [h]; rfl
  · next task h => rw [h]; rfl

/-- A call that has written nothing and left the store alone. -/
theorem ImageTaskChange.of_same (h : op.written reply = none) (taskId : String) :
    ImageTaskChange op reply taskId (tasks.find? taskId) (tasks.find? taskId) :=
  .same _ (h ▸ (Option.some_ne_none taskId).symm)

/-- A call that has written one task. -/
theorem ImageTaskChange.of_upsert {task : ImageTask} (hwritten : op.written reply = some task.taskId)
    (hchange : ImageTaskChange op reply task.taskId (tasks.find? task.taskId) (some task))
    (taskId : String) :
    ImageTaskChange op reply taskId (tasks.find? taskId) ((tasks.upsert task).find? taskId) := by
  by_cases hid : taskId = task.taskId
  · rw [hid, tasks.find?_upsert_self task]
    exact hchange
  · rw [tasks.find?_upsert_of_ne hid]
    refine .same _ fun h => hid ?_
    exact Option.some.inj (h.symm.trans hwritten)

/-- A call that has deleted a task. -/
theorem ImageTaskChange.of_delete {deletedId : String} (hwritten : op.written reply = none)
    (hdelete : ∀ task, tasks.find? deletedId = some task →
      (∃ scope, op = .delete deletedId scope) ∧ task.isActive = false ∨
        op = .deleteForRecord deletedId) (taskId : String) :
    ImageTaskChange op reply taskId (tasks.find? taskId)
      ((tasks.deleteWhere fun task => task.taskId = deletedId).find? taskId) := by
  rw [tasks.find?_deleteWhere_key]
  split
  · next hid =>
    subst hid
    rcases htask : tasks.find? taskId with _ | task
    · exact .same _ (hwritten ▸ (Option.some_ne_none _).symm)
    · exact .deleted task (hdelete task htask)
  · exact .of_same hwritten taskId

variable (tasks)

theorem create_change (task : ImageTask) (taskId : String) :
    ImageTaskChange (.create task) (imageTaskStore.perform tasks (.create task)).1 taskId
      (tasks.find? taskId) ((imageTaskStore.perform tasks (.create task)).2.find? taskId) := by
  simp only [ImageTaskStoreProtocol.perform, imageTaskStore, ImageTaskStore.create]
  rcases hprevious : tasks.find? task.taskId with _ | previous
  · dsimp only
    split
    · exact .of_same (by rfl) taskId
    · refine .of_upsert (by rfl) ?_ taskId
      rw [hprevious]
      exact .created task rfl rfl
  · dsimp only
    split
    · exact .of_same (by rfl) taskId
    · split <;> exact .of_same (by rfl) taskId

theorem claim_change (workerId : String) (lease now : UtcTime) (taskId : String) :
    ImageTaskChange (.claim workerId lease now)
      (imageTaskStore.perform tasks (.claim workerId lease now)).1 taskId (tasks.find? taskId)
      ((imageTaskStore.perform tasks (.claim workerId lease now)).2.find? taskId) := by
  simp only [ImageTaskStoreProtocol.perform, imageTaskStore, ImageTaskStore.claim]
  rcases hhead : (ImageTaskStore.queue tasks).head? with _ | task
  · exact .of_same (by rfl) taskId
  · obtain ⟨htask, hqueued⟩ : task ∈ tasks ∧ task.status = .queued := by
      have hmem := (List.mem_insertionSort _).mp (List.mem_of_head? hhead)
      simpa only [Table.mem_select, decide_eq_true_eq] using hmem
    refine .of_upsert (by rfl) ?_ taskId
    have hfind : tasks.find? (task.claimed workerId lease now).taskId = some task :=
      Table.find?_eq_some.mpr ⟨htask, rfl⟩
    rw [hfind]
    exact .claimed task workerId lease now hqueued rfl rfl

theorem renew_change (id workerId : String) (lease : UtcTime) (taskId : String) :
    ImageTaskChange (.renew id workerId lease)
      (imageTaskStore.perform tasks (.renew id workerId lease)).1 taskId (tasks.find? taskId)
      ((imageTaskStore.perform tasks (.renew id workerId lease)).2.find? taskId) := by
  simp only [ImageTaskStoreProtocol.perform, imageTaskStore, ImageTaskStore.renew]
  rcases htask : tasks.find? id with _ | task
  · exact .of_same (by rfl) taskId
  · dsimp only
    split
    · exact .of_same (by rfl) taskId
    · next hheld =>
      obtain ⟨hrunning, hworker⟩ := not_or.mp hheld
      obtain rfl : task.taskId = id := (Table.find?_eq_some.mp htask).2
      refine .of_upsert (by rfl) ?_ taskId
      have hfind : tasks.find? (task.renewed lease).taskId = some task := htask
      rw [hfind]
      exact .renewed task workerId lease (not_not.mp hrunning) (not_not.mp hworker) rfl

theorem finish_change (task : OverImageTask) (workerId : String) (taskId : String) :
    ImageTaskChange (.finish task workerId)
      (imageTaskStore.perform tasks (.finish task workerId)).1 taskId (tasks.find? taskId)
      ((imageTaskStore.perform tasks (.finish task workerId)).2.find? taskId) := by
  simp only [ImageTaskStoreProtocol.perform, imageTaskStore, ImageTaskStore.finish]
  rcases hcurrent : tasks.find? task.1.taskId with _ | current
  · exact .of_same (by rfl) taskId
  · dsimp only
    split
    · exact .of_same (by rfl) taskId
    · next hheld =>
      obtain ⟨hrunning, hworker⟩ := not_or.mp hheld
      refine .of_upsert (by rfl) ?_ taskId
      have hfind : tasks.find? task.1.finished.taskId = some current := hcurrent
      rw [hfind]
      exact .finished current task workerId (not_not.mp hrunning) (not_not.mp hworker) rfl rfl

theorem recoverExpired_change (now : UtcTime) (clock : String → UtcTime) (taskId : String) :
    ImageTaskChange (.recoverExpired now clock)
      (imageTaskStore.perform tasks (.recoverExpired now clock)).1 taskId (tasks.find? taskId)
      ((imageTaskStore.perform tasks (.recoverExpired now clock)).2.find? taskId) := by
  have hfind : (imageTaskStore.perform tasks (.recoverExpired now clock)).2.find? taskId =
      (tasks.find? taskId).map fun task =>
        if task.isExpired now then task.interrupted (clock task.taskId) else task :=
    Table.find?_updateWhere (fun task => task.interrupted_taskId _) tasks taskId
  have hwritten : (ImageTaskOp.recoverExpired now clock).written .done ≠ some taskId := by
    rintro ⟨⟩
  rw [hfind]
  rcases htask : tasks.find? taskId with _ | task
  · exact .same none hwritten
  · obtain rfl : task.taskId = taskId := (Table.find?_eq_some.mp htask).2
    rw [Option.map_some]
    split
    · next hexpired => exact .interrupted task now clock hexpired rfl
    · exact .same _ hwritten

theorem delete_change (id : String) (scope : Option PrincipalScope) (taskId : String) :
    ImageTaskChange (.delete id scope) (imageTaskStore.perform tasks (.delete id scope)).1 taskId
      (tasks.find? taskId) ((imageTaskStore.perform tasks (.delete id scope)).2.find? taskId) := by
  simp only [ImageTaskStoreProtocol.perform, imageTaskStore, ImageTaskStore.delete]
  rcases hget : ImageTaskStore.get tasks id scope with _ | task
  · exact .of_same (by rfl) taskId
  · dsimp only
    split
    · exact .of_same (by rfl) taskId
    · next hactive =>
      refine .of_delete (by rfl) (fun current hcurrent => ?_) taskId
      have hsame : current = task := by
        rw [ImageTaskStore.get, hcurrent] at hget
        dsimp only at hget
        split at hget
        · exact Except.ok.inj hget
        · cases hget
      rw [hsame]
      exact Or.inl ⟨⟨scope, rfl⟩, Bool.eq_false_iff.mpr hactive⟩

end Dictionary

/-- What a call on the dictionary does to a task. -/
theorem imageTaskStore_change (tasks : ImageTasks) (op : ImageTaskOp) (taskId : String) :
    ImageTaskChange op (imageTaskStore.perform tasks op).1 taskId (tasks.find? taskId)
      ((imageTaskStore.perform tasks op).2.find? taskId) := by
  cases op with
  | create task => exact create_change tasks task taskId
  | claim workerId lease now => exact claim_change tasks workerId lease now taskId
  | renew id workerId lease => exact renew_change tasks id workerId lease taskId
  | finish task workerId => exact finish_change tasks task workerId taskId
  | recoverExpired now clock => exact recoverExpired_change tasks now clock taskId
  | delete id scope => exact delete_change tasks id scope taskId
  | deleteForRecord recordId => exact .of_delete rfl (fun _ _ => Or.inr rfl) taskId

/-- A call that the dictionary rejects does not write. -/
theorem imageTaskStore_rejected (tasks : ImageTasks) (op : ImageTaskOp)
    (h : (imageTaskStore.perform tasks op).1.isRejection = true) :
    (imageTaskStore.perform tasks op).2 = tasks := by
  cases op with
  | create task =>
    simp only [ImageTaskStoreProtocol.perform, imageTaskStore, ImageTaskStore.create] at h ⊢
    rcases htask : tasks.find? task.taskId with _ | previous
    all_goals rw [htask] at h; dsimp only at h ⊢; split_ifs at h ⊢ <;> first | rfl | cases h
  | claim workerId lease now =>
    simp only [ImageTaskStoreProtocol.perform, imageTaskStore, ImageTaskStore.claim] at h ⊢
    rcases hhead : (ImageTaskStore.queue tasks).head? with _ | task
    · rfl
    · rw [hhead] at h
      cases h
  | renew id workerId lease =>
    simp only [ImageTaskStoreProtocol.perform, imageTaskStore, ImageTaskStore.renew] at h ⊢
    rcases htask : tasks.find? id with _ | task
    all_goals rw [htask] at h; dsimp only at h ⊢
    · rfl
    · split_ifs at h ⊢ <;> first | rfl | cases h
  | finish task workerId =>
    simp only [ImageTaskStoreProtocol.perform, imageTaskStore, ImageTaskStore.finish] at h ⊢
    rcases htask : tasks.find? task.1.taskId with _ | current
    all_goals rw [htask] at h; dsimp only at h ⊢
    · rfl
    · split_ifs at h ⊢ <;> first | rfl | cases h
  | recoverExpired now clock => cases h
  | delete id scope =>
    simp only [ImageTaskStoreProtocol.perform, imageTaskStore, ImageTaskStore.delete] at h ⊢
    rcases hget : ImageTaskStore.get tasks id scope with _ | task
    all_goals rw [hget] at h; dsimp only at h ⊢
    · rfl
    · split_ifs at h ⊢ <;> first | rfl | cases h
  | deleteForRecord recordId => cases h

theorem owner_eq_of_sameSubmission {first second : ImageTask}
    (h : sameSubmission first second = true) : first.ownerId = second.ownerId := by
  simp only [sameSubmission, Bool.and_eq_true, decide_eq_true_eq] at h
  exact h.1.1.1

/-- **The dictionary store has the lifecycle of a queue.** -/
theorem imageTaskStore_lifecycle : imageTaskStore.Lifecycle fun _ => True where
  keep _ _ := trivial
  change _ _ taskId := by
    rw [imageTaskStore_stored, imageTaskStore_stored]
    exact imageTaskStore_change ..
  room := by
    intro tasks task _ _ hreply ids hids hactive
    have hcount : ids.length ≤
        tasks.rows.countP fun item => item.ownerId = task.ownerId && item.isActive :=
      Table.length_le_countP hids fun id hid => by
        obtain ⟨item, hitem, howner, hitemActive⟩ := hactive id hid
        rw [imageTaskStore_stored] at hitem
        exact ⟨item, hitem, by rw [howner, hitemActive, decide_eq_true rfl]; rfl⟩
    refine lt_of_le_of_lt hcount (Nat.lt_of_not_le fun hfull => ?_)
    simp only [ImageTaskStoreProtocol.perform, imageTaskStore, ImageTaskStore.create] at hreply
    rcases htask : tasks.find? task.taskId with _ | previous
    · rw [htask, if_pos hfull] at hreply
      cases hreply
    · rw [htask] at hreply
      dsimp only at hreply
      split_ifs at hreply <;> cases hreply
  resubmitted := by
    intro tasks task previous _ hprevious hsame
    rw [imageTaskStore_stored] at hprevious
    have howner := owner_eq_of_sameSubmission hsame
    simp only [ImageTaskStoreProtocol.perform, imageTaskStore, ImageTaskStore.create, hprevious,
      howner, hsame, ne_eq, not_true_eq_false, if_false, Bool.not_true, Bool.false_eq_true]
    rfl
  rejected _ _ h := imageTaskStore_rejected _ _ h
  keyed _ h := by
    rw [imageTaskStore_stored] at h
    exact (Table.find?_eq_some.mp h).2

/-! ### SQLite -/

namespace SQLiteImageTaskStore

variable {table : ImageTaskTable} {op : ImageTaskOp}

theorem Agrees.replied {α : Type} {rows : Except Error α × ImageTaskTable}
    {dict : Except Error α × ImageTasks} (h : Agrees rows dict) (returned : α → ImageTaskReply) :
    Agrees (EvernightAI.replied returned rows) (EvernightAI.replied returned dict) := by
  obtain ⟨reply, table⟩ := rows
  obtain ⟨reply', tasks⟩ := dict
  obtain ⟨rfl, htasks, hcoherent⟩ := h
  rcases reply with err | value
  · exact ⟨rfl, htasks, hcoherent⟩
  · exact ⟨rfl, htasks, hcoherent⟩

theorem Agrees.ok {α : Type} {rows : α × ImageTaskTable} {dict : α × ImageTasks}
    (h : Agrees rows dict) :
    Agrees (rows.map (Except.ok (ε := Error)) id) (dict.map (Except.ok (ε := Error)) id) :=
  ⟨congrArg Except.ok h.reply, h.represents, h.coherent⟩

/-- The rows show the tasks that they stand for. -/
theorem stored_eq (h : Coherent table) (taskId : String) :
    sqliteImageTaskStore.stored table taskId = imageTaskStore.stored (tasks table) taskId :=
  congrArg Except.toOption (get_eq h taskId none)

theorem genuine_iff (h : Coherent table) :
    sqliteImageTaskStore.Genuine table op ↔ imageTaskStore.Genuine (tasks table) op := by
  cases op with
  | finish task workerId =>
    rw [ImageTaskStoreProtocol.Genuine, ImageTaskStoreProtocol.Genuine, stored_eq h]
  | _ => exact Iff.rfl

/-- **A genuine call does to the rows what it does to the tasks.** -/
theorem perform_agrees (h : Coherent table) (hop : sqliteImageTaskStore.Genuine table op) :
    Agrees (sqliteImageTaskStore.perform table op) (imageTaskStore.perform (tasks table) op) := by
  cases op with
  | create task => exact (create_agrees h hop.1 hop.2).replied _
  | claim workerId lease now => exact (claim_agrees h workerId lease now).ok.replied _
  | renew taskId workerId lease => exact (renew_agrees h taskId workerId lease).ok.replied _
  | finish task workerId =>
    refine (finish_agrees h fun current hcurrent => ?_).ok.replied _
    refine hop current ?_
    rw [stored_eq h, imageTaskStore_stored]
    exact hcurrent
  | recoverExpired now clock => exact (recoverExpired_agrees h now clock).replied _
  | delete taskId scope => exact (delete_agrees h taskId scope).replied _
  | deleteForRecord recordId => exact (deleteForRecord_agrees h recordId).replied fun _ => .done

/-- An update that does not report one row has matched none. -/
theorem updateWhere_of_updatesOne {taskId workerId : String} {g : ImageTaskRow → ImageTaskRow}
    (hg : ∀ row, (g row).taskId = row.taskId)
    (hnone : updatesOne table (isHeld taskId (some workerId)) = false) :
    table.updateWhere (isHeld taskId (some workerId)) g hg = table := by
  refine Table.updateWhere_eq_self fun row hrow => Bool.eq_false_iff.mpr fun hheld => ?_
  have hmatch := hheld
  simp only [isHeld, Bool.and_eq_true, decide_eq_true_eq] at hmatch
  obtain ⟨⟨rfl, hrunning⟩, hworker⟩ := hmatch
  have hone := Table.countP_eq_one hrow (isHeld_iff hrow ⟨hrunning, hworker⟩)
  rw [updatesOne, hone] at hnone
  cases hnone

/-- A call that the rows reject does not write. -/
theorem rejected (table : ImageTaskTable) (op : ImageTaskOp)
    (h : (sqliteImageTaskStore.perform table op).1.isRejection = true) :
    (sqliteImageTaskStore.perform table op).2 = table := by
  cases op with
  | create task =>
    simp only [ImageTaskStoreProtocol.perform, sqliteImageTaskStore, create] at h ⊢
    rcases htask : table.find? task.taskId with _ | previous
    all_goals rw [htask] at h; dsimp only at h ⊢; split_ifs at h ⊢ <;> first | rfl | cases h
  | claim workerId lease now =>
    simp only [ImageTaskStoreProtocol.perform, sqliteImageTaskStore, claim] at h ⊢
    rcases hhead : (queue table).head? with _ | task
    · rfl
    · rw [hhead] at h
      cases h
  | renew id workerId lease =>
    have hkeep : ∀ row : ImageTaskRow,
        { row with leaseExpiresAt := some lease.isoformat }.taskId = row.taskId := fun _ => rfl
    exact updateWhere_of_updatesOne hkeep (Bool.not_eq_true' _ ▸ h)
  | finish task workerId =>
    have hkeep : ∀ row : ImageTaskRow, (row.set task.1.finished).taskId = row.taskId := fun _ => rfl
    exact updateWhere_of_updatesOne hkeep (Bool.not_eq_true' _ ▸ h)
  | recoverExpired now clock =>
    simp only [ImageTaskStoreProtocol.perform, sqliteImageTaskStore, recoverExpired] at h ⊢
    split at h
    · rfl
    · cases h
  | delete id scope =>
    simp only [ImageTaskStoreProtocol.perform, sqliteImageTaskStore, delete] at h ⊢
    rcases htask : table.find? id with _ | row
    all_goals rw [htask] at h; dsimp only at h ⊢
    · rfl
    · split_ifs at h ⊢ <;> first | rfl | cases h
  | deleteForRecord recordId => cases h

/-- **The SQLite store has the lifecycle of a queue**: the one of the tasks its rows stand for. -/
theorem lifecycle : sqliteImageTaskStore.Lifecycle Coherent where
  keep h hop := (perform_agrees h hop).coherent
  change h hop taskId := by
    have hagrees := perform_agrees h hop
    rw [stored_eq h, stored_eq hagrees.coherent, hagrees.reply, hagrees.represents]
    exact imageTaskStore_lifecycle.change trivial ((genuine_iff h).mp hop) taskId
  room h hop hreply ids hids hactive := by
    simp only [stored_eq h] at hactive
    exact imageTaskStore_lifecycle.room trivial hop ((perform_agrees h hop).reply ▸ hreply) ids
      hids hactive
  resubmitted := by
    intro table task previous h hprevious hsame
    rw [stored_eq h, imageTaskStore_stored, find?_tasks] at hprevious
    obtain ⟨row, hrow, rfl⟩ := Option.map_eq_some_iff.mp hprevious
    have hsame' : sameSubmission row.payload task = true := hsame
    have howner : row.payload.ownerId = task.ownerId := owner_eq_of_sameSubmission hsame'
    simp only [ImageTaskStoreProtocol.perform, sqliteImageTaskStore, create, hrow, howner, hsame',
      ne_eq, not_true_eq_false, if_false, Bool.not_true, Bool.false_eq_true]
    rfl
  rejected _ _ h := rejected _ _ h
  keyed h hstored := imageTaskStore_lifecycle.keyed trivial ((stored_eq h _).symm.trans hstored)

end SQLiteImageTaskStore

/-! ### Both stores -/

/-- What can be read of the rows is what can be read of the tasks. -/
structure SameView (table : ImageTaskTable) (tasks : ImageTasks) : Prop where
  hasActive : sqliteImageTaskStore.hasActive table = imageTaskStore.hasActive tasks
  get : ∀ taskId scope,
    sqliteImageTaskStore.get taskId scope table = imageTaskStore.get taskId scope tasks
  getSummary : ∀ taskId scope,
    sqliteImageTaskStore.getSummary taskId scope table =
      imageTaskStore.getSummary taskId scope tasks
  listTasks : ∀ limit cursor sessionId scope, 0 ≤ limit →
    sqliteImageTaskStore.listTasks limit cursor sessionId scope table =
      imageTaskStore.listTasks limit cursor sessionId scope tasks

/-- The same calls have the same replies in both stores, and leave what reads the same. -/
def AgreeOn (ops : List ImageTaskOp) : Prop :=
  sqliteImageTaskStore.replies ∅ ops = imageTaskStore.replies ∅ ops ∧
    SameView (sqliteImageTaskStore.after ∅ ops) (imageTaskStore.after ∅ ops)

namespace SQLiteImageTaskStore

theorem sameView {table : ImageTaskTable} (h : Coherent table) : SameView table (tasks table) where
  hasActive := hasActive_eq h
  get := get_eq h
  getSummary := getSummary_eq h
  listTasks _ cursor sessionId scope hlimit :=
    congrArg Except.ok (listTasks_eq h hlimit cursor sessionId scope)

/-- **Simulation.** A genuine run on the rows is a run on the tasks that they stand for. -/
theorem run_agrees {table : ImageTaskTable} (h : Coherent table) {ops : List ImageTaskOp}
    (hops : Along imageTaskStore.step imageTaskStore.Genuine (tasks table) ops) :
    sqliteImageTaskStore.replies table ops = imageTaskStore.replies (tasks table) ops ∧
      tasks (sqliteImageTaskStore.after table ops) = imageTaskStore.after (tasks table) ops ∧
        Coherent (sqliteImageTaskStore.after table ops) := by
  induction ops generalizing table with
  | nil => exact ⟨rfl, rfl, h⟩
  | cons op ops ih =>
    obtain ⟨hop, hops⟩ := along_cons hops rfl
    have hagrees := perform_agrees h ((genuine_iff h).mpr hop)
    rw [← hagrees.represents] at hops
    obtain ⟨hreplies, hafter, hcoherent⟩ := ih hagrees.coherent hops
    refine ⟨?_, ?_, hcoherent⟩
    · rw [ImageTaskStoreProtocol.replies, ImageTaskStoreProtocol.replies, hagrees.reply, hreplies,
        hagrees.represents]
    · refine hafter.trans ?_
      rw [hagrees.represents]
      rfl

theorem coherent_empty : Coherent ∅ := fun row hrow => absurd hrow (Table.not_mem_empty row)

end SQLiteImageTaskStore

private def noon : UtcTime := { year := 2026, month := 1, day := 1, hour := 12 }

private def leafTask : ImageTask where
  taskId := "0123456789abcdef0123456789abcdef"
  providerId := "main"
  request := { modelId := "image-model", prompt := "A green leaf" }
  ownerId := some "alice"
  createdAt := noon
  updatedAt := noon

private def leafResult : OverImageTask :=
  ⟨{ leafTask with status := .succeeded, recordId := some leafTask.taskId }, rfl⟩

private def leafInOtherSession : OverImageTask :=
  ⟨{ leafTask with status := .succeeded, sessionId := some "s" }, rfl⟩

end EvernightAI
