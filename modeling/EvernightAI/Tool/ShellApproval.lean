import EvernightAI.Lib.TransitionSystem
import EvernightAI.Tool.RestrictedShell

/-!
# Approvals and the session state

A command that was put up for approval should run in the session state it was first authorized in,
or not at all. `authorize` binds the call to that state and `execute` compares, but an execution
consumes the binding: a call whose binding is gone is bound again, or runs without one, in
whatever state the session has by then. `approvalBound_of_stays` is what holds, over every
interleaving of calls on the session: as long as no such call comes back to a session that has
changed, and no call resets the session in vain.
-/

namespace EvernightAI

open TransitionSystem

/-- The version the call is bound to. -/
def ShellWorld.bound (w : ShellWorld) (binding : ShellBinding) : Option StateVersion :=
  (w.authorizedStates.find? binding).map Prod.snd

/-- The tool at work, with the version in which each call was first authorized. -/
structure ApprovalWorld where
  world : ShellWorld := {}
  first : ShellBinding → Option StateVersion := fun _ => none

/-- The first authorizations after a step. -/
def ApprovalWorld.firstAfter (s : ApprovalWorld) (w' : ShellWorld) :
    ShellLabel → ShellBinding → Option StateVersion
  | .authorize binding _ => fun b => if b = binding then (s.first b).or (w'.bound b) else s.first b
  | _ => s.first

namespace RestrictedShellTool

variable (tool : RestrictedShellTool)

def approvalStep (s : ApprovalWorld) (label : ShellLabel) : Option ApprovalWorld :=
  (tool.step s.world label).map fun w' => { world := w', first := s.firstAfter w' label }

/-- **Approval bound to session state**, for one step of an execution of a call that was authorized:
its command is started in the state of the first authorization, or the attempt raises, and nothing
is run and nothing recorded changes. -/
def ApprovalBound (s : ApprovalWorld) : ShellLabel → Prop
  | .enter binding host => ∀ version, s.first binding = some version →
    match tool.enter host s.world binding with
    | (.ok (), w') => ∃ run, w'.running = some run ∧ run.binding = binding ∧
        run.state.version = version
    | (.error _, w') => w'.running = s.world.running ∧ w'.stored = s.world.stored
  | .begin binding host => ∀ w', tool.step s.world (.begin binding host) = some w' →
    w'.running = s.world.running ∧ w'.stored = s.world.stored
  | .cancel binding => ∀ w', tool.step s.world (.cancel binding) = some w' →
    w'.running = s.world.running ∧ w'.stored = s.world.stored
  | _ => True

/-- Nothing keeps the call from the sandbox once its state is found unchanged. -/
def CanRun (host : ShellHost) (binding : ShellBinding) : Prop :=
  ∃ root result timeout, host.resolveRoot (tool.arguments binding).workingDirectory = .ok root ∧
    tool.policyCheck host root binding (tool.key.fresh root) = .ok result ∧
    (tool.arguments binding).timeout = .ok timeout

/-- **The condition on a step.** A call that was authorized and has lost its binding is authorized
and executed in the state of the first authorization only; and a call that resets a session of
which something is recorded can run. -/
def Stays (s : ApprovalWorld) : ShellLabel → Prop
  | .authorize binding host => ∀ version root, s.first binding = some version →
    s.world.bound binding = none →
    host.resolveRoot (tool.arguments binding).workingDirectory = .ok root →
      (tool.session s.world root (tool.arguments binding)).version = version
  | .enter binding host => ∀ version, s.first binding = some version →
    (∀ root, s.world.bound binding = none →
      host.resolveRoot (tool.arguments binding).workingDirectory = .ok root →
        (tool.session s.world root (tool.arguments binding)).version = version) ∧
    ((tool.arguments binding).resetSession = true → s.world.stored.isSome →
      tool.CanRun host binding)
  | _ => True

end RestrictedShellTool

section Bindings

variable {w : ShellWorld} {binding b : ShellBinding}

@[simp] theorem bound_upsert (version : StateVersion) :
    ShellWorld.bound { w with authorizedStates := w.authorizedStates.upsert (binding, version) } b =
      if b = binding then some version else w.bound b := by
  unfold ShellWorld.bound
  split_ifs with h
  · rw [h]
    exact congrArg _ (Table.find?_upsert_self w.authorizedStates (binding, version))
  · exact congrArg _ (Table.find?_upsert_of_ne w.authorizedStates h)

@[simp] theorem bound_deleteWhere :
    ShellWorld.bound
        { w with authorizedStates := w.authorizedStates.deleteWhere (·.1 = binding) } b =
      if b = binding then none else w.bound b := by
  unfold ShellWorld.bound
  rw [Table.find?_deleteWhere_key w.authorizedStates binding b]
  split_ifs
  · rfl
  · rfl

/-- The comparison of versions, by the version the call is bound to. -/
theorem any_ne_iff {version : StateVersion} :
    (w.authorizedStates.find? binding).any (·.2 ≠ version) = true ↔
      ∃ v, w.bound binding = some v ∧ v ≠ version := by
  unfold ShellWorld.bound
  rcases w.authorizedStates.find? binding with _ | ⟨_, v⟩
  · simp
  · simp

end Bindings

namespace RestrictedShellTool

variable {tool : RestrictedShellTool} {host : ShellHost} {w : ShellWorld} {binding : ShellBinding}

/-! ### Steps -/

/-- **Authorizing** changes nothing, or binds the call to the state of the session. -/
theorem authorize_cases (tool : RestrictedShellTool) (host : ShellHost) (w : ShellWorld)
    (binding : ShellBinding) : (tool.authorize host w binding).2 = w ∨
      ∃ root, host.resolveRoot (tool.arguments binding).workingDirectory = .ok root ∧
        (∀ v, w.bound binding = some v →
          v = (tool.session w root (tool.arguments binding)).version) ∧
        (tool.authorize host w binding).2 = { w with
          authorizedStates := w.authorizedStates.upsert
            (binding, (tool.session w root (tool.arguments binding)).version) } := by
  rcases hroot : host.resolveRoot (tool.arguments binding).workingDirectory with e | root
  · left
    simp only [authorize, hroot]
  · rcases hcwd : hostCwd host root (tool.arguments binding).cwd
      (tool.session w root (tool.arguments binding)) with e | cwd
    · left
      simp only [authorize, hroot, hcwd]
    · rcases henv : (tool.arguments binding).env with e | env
      · left
        simp only [authorize, hroot, hcwd, henv]
      · simp only [authorize, hroot, hcwd, henv]
        by_cases hchanged : (w.authorizedStates.find? binding).any
            (·.2 ≠ (tool.session w root (tool.arguments binding)).version) = true
        · left
          rw [if_pos hchanged]
        · right
          rw [if_neg hchanged]
          refine ⟨root, rfl, fun v hv => ?_, ?_⟩
          · by_contra hne
            exact hchanged (any_ne_iff.mpr ⟨v, hv, hne⟩)
          · split
            · rfl
            · rfl
            · rfl

/-- The state an execution runs in is that of its session. -/
theorem load_eq_session (w : ShellWorld) (root : List String) (arguments : ShellArguments) :
    tool.tracker.load tool.key root (if arguments.resetSession then none else w.stored) =
      tool.session w root arguments := by
  unfold session
  rcases arguments.resetSession with _ | _
  · rfl
  · rfl

/-- What an execution leaves: it was started in the state its session has, in which the call is
bound if it is; or it raised, and was started nowhere. -/
inductive Enters (tool : RestrictedShellTool) (host : ShellHost) (w : ShellWorld)
    (binding : ShellBinding) : Except Error Unit × ShellWorld → Prop
  | unresolved {e : Error} {w' : ShellWorld}
      (hroot : host.resolveRoot (tool.arguments binding).workingDirectory = .error e)
      (hrunning : w'.running = w.running)
      (hstored : w'.stored = if (tool.arguments binding).resetSession then none else w.stored)
      (hbound : ∀ b, w'.bound b = w.bound b) : Enters tool host w binding (.error e, w')
  | changed {e : Error} {w' : ShellWorld} {root : List String} {version : StateVersion}
      (hroot : host.resolveRoot (tool.arguments binding).workingDirectory = .ok root)
      (hversion : w.bound binding = some version)
      (hchanged : version ≠ (tool.session w root (tool.arguments binding)).version)
      (hrunning : w'.running = w.running)
      (hstored : w'.stored = if (tool.arguments binding).resetSession then none else w.stored)
      (hbound : ∀ b, w'.bound b = if b = binding then none else w.bound b) :
      Enters tool host w binding (.error e, w')
  | rejected {e : Error} {w' : ShellWorld} {root : List String}
      (hroot : host.resolveRoot (tool.arguments binding).workingDirectory = .ok root)
      (hcheck : ∀ result timeout,
        tool.policyCheck host root binding (tool.session w root (tool.arguments binding)) =
          .ok result → (tool.arguments binding).timeout ≠ .ok timeout)
      (hrunning : w'.running = w.running)
      (hstored : w'.stored = if (tool.arguments binding).resetSession then none else w.stored)
      (hbound : ∀ b, w'.bound b = if b = binding then none else w.bound b) :
      Enters tool host w binding (.error e, w')
  | started {w' : ShellWorld} {run : ShellRun} {root : List String}
      (hroot : host.resolveRoot (tool.arguments binding).workingDirectory = .ok root)
      (hversion : ∀ v, w.bound binding = some v →
        v = (tool.session w root (tool.arguments binding)).version)
      (hrunning : w'.running = some run) (hbinding : run.binding = binding)
      (hstate : run.state = tool.session w root (tool.arguments binding))
      (hbound : ∀ b, w'.bound b = if b = binding then none else w.bound b) :
      Enters tool host w binding (.ok (), w')

theorem enters_enter (tool : RestrictedShellTool) (host : ShellHost) (w : ShellWorld)
    (binding : ShellBinding) : Enters tool host w binding (tool.enter host w binding) := by
  rcases hroot : host.resolveRoot (tool.arguments binding).workingDirectory with e | root
  · simp only [enter, hroot]
    exact .unresolved hroot rfl rfl fun _ => rfl
  · by_cases hchanged : (w.authorizedStates.find? binding).any
        (·.2 ≠ (tool.session w root (tool.arguments binding)).version) = true
    · obtain ⟨version, hversion, hne⟩ := any_ne_iff.mp hchanged
      simp only [enter, hroot, load_eq_session, checkStateVersion, if_pos hchanged]
      exact .changed hroot hversion hne rfl rfl fun _ => bound_deleteWhere
    · have hversion : ∀ v, w.bound binding = some v →
          v = (tool.session w root (tool.arguments binding)).version := by
        intro v hv
        by_contra hne
        exact hchanged (any_ne_iff.mpr ⟨v, hv, hne⟩)
      rcases hcheck : tool.policyCheck host root binding
        (tool.session w root (tool.arguments binding)) with e | ⟨cwd, env⟩
      · simp only [enter, hroot, load_eq_session, checkStateVersion, if_neg hchanged, hcheck]
        refine .rejected hroot (fun result timeout hok => ?_) rfl rfl fun _ => bound_deleteWhere
        rw [hcheck] at hok
        cases hok
      · rcases htimeout : (tool.arguments binding).timeout with e | timeout
        · simp only [enter, hroot, load_eq_session, checkStateVersion, if_neg hchanged, hcheck,
            htimeout]
          refine .rejected hroot (fun result timeout _ hok => ?_) rfl rfl
            fun _ => bound_deleteWhere
          rw [htimeout] at hok
          cases hok
        · simp only [enter, hroot, load_eq_session, checkStateVersion, if_neg hchanged, hcheck,
            htimeout]
          exact .started hroot hversion rfl rfl rfl fun _ => bound_deleteWhere

/-! ### Runs -/

/-- The calls that are bound, are bound to the version of their first authorization; a call that
resets the session is authorized in the empty state. -/
structure Binds (tool : RestrictedShellTool) (s : ApprovalWorld) : Prop where
  first : ∀ b version, s.world.bound b = some version → s.first b = some version
  reset : ∀ b version, (tool.arguments b).resetSession = true → s.first b = some version →
    version = ([], [])

theorem version_session_of_reset {root : List String} {arguments : ShellArguments}
    (h : arguments.resetSession = true) : (tool.session w root arguments).version = ([], []) := by
  rw [session, if_pos h]
  rfl

/-- Up to the lock nothing is run and nothing recorded changes. -/
theorem step_begin {w' : ShellWorld} (h : tool.step w (.begin binding host) = some w') :
    w'.running = w.running ∧ w'.stored = w.stored ∧ w'.authorizedStates = w.authorizedStates := by
  unfold RestrictedShellTool.step at h
  rcases hbegin : tool.begin host w binding with e | w''
  · simp only [hbegin, Option.some.injEq] at h
    rw [← h]
    exact ⟨rfl, rfl, rfl⟩
  · simp only [hbegin, Option.some.injEq] at h
    obtain ⟨root, -, hbegin⟩ := exists_of_bind_eq_ok hbegin
    obtain ⟨result, -, hbegin⟩ := exists_of_bind_eq_ok hbegin
    rw [← h, ← Except.ok.inj hbegin]
    exact ⟨rfl, rfl, rfl⟩

theorem step_cancel {w' : ShellWorld} (h : tool.step w (.cancel binding) = some w') :
    w'.running = w.running ∧ w'.stored = w.stored ∧ w'.authorizedStates = w.authorizedStates := by
  simp only [RestrictedShellTool.step] at h
  split_ifs at h
  rw [← Option.some.inj h]
  exact ⟨rfl, rfl, rfl⟩

/-- After an execution the call is not bound. -/
theorem bound_of_enters {outcome : Except Error Unit × ShellWorld}
    (h : Enters tool host w binding outcome) {b : ShellBinding} {version : StateVersion}
    (hb : outcome.2.bound b = some version) : w.bound b = some version := by
  have hother : ∀ w' : ShellWorld, (∀ b, w'.bound b = if b = binding then none else w.bound b) →
      w'.bound b = some version → w.bound b = some version := by
    intro w' hbound hb
    rw [hbound b] at hb
    split_ifs at hb
    exact hb
  cases h with
  | unresolved _ _ _ hbound => rwa [← hbound b]
  | changed _ _ _ _ _ hbound => exact hother _ hbound hb
  | rejected _ _ _ _ hbound => exact hother _ hbound hb
  | started _ _ _ _ _ hbound => exact hother _ hbound hb

/-- What binds a call again binds it to the version it had. -/
theorem Binds.authorize {s : ApprovalWorld} (h : Binds tool s)
    (hstays : tool.Stays s (.authorize binding host)) :
    Binds tool { world := (tool.authorize host s.world binding).2
                 first := s.firstAfter (tool.authorize host s.world binding).2
                   (.authorize binding host) } := by
  rcases authorize_cases tool host s.world binding with hsame | ⟨root, hroot, hbound, hafter⟩
  · have hfirst : s.firstAfter s.world (.authorize binding host) = s.first := by
      funext b
      simp only [ApprovalWorld.firstAfter]
      split_ifs
      · rcases hf : s.first b with _ | version
        · rcases hb : s.world.bound b with _ | version
          · rfl
          · exact absurd (hf.symm.trans (h.first b version hb)) (Option.some_ne_none _).symm
        · rfl
      · rfl
    rw [hsame, hfirst]
    exact h
  · rw [hafter]
    -- A call that was authorized before has the version it had.
    have hversion : ∀ version, s.first binding = some version →
        version = (tool.session s.world root (tool.arguments binding)).version := by
      intro version hfirst
      rcases hb : s.world.bound binding with _ | v
      · exact (hstays version root hfirst hb hroot).symm
      · have hv := h.first binding v hb
        rw [← hbound v hb]
        exact Option.some.inj (hfirst.symm.trans hv)
    refine ⟨fun b version hb => ?_, fun b version hreset hb => ?_⟩
    · rw [bound_upsert] at hb
      simp only [ApprovalWorld.firstAfter, bound_upsert]
      split_ifs at hb ⊢ with hbinding
      · rcases hf : s.first b with _ | v
        · exact hb
        · rw [← hb, Option.some_or, hversion v (hbinding ▸ hf)]
      · exact h.first b version hb
    · simp only [ApprovalWorld.firstAfter, bound_upsert] at hb
      split_ifs at hb with hbinding
      · rcases hf : s.first b with _ | v
        · rw [hf, Option.none_or] at hb
          rw [← Option.some.inj hb, ← hbinding]
          exact version_session_of_reset hreset
        · rw [hf, Option.some_or] at hb
          exact h.reset b version hreset (hf.trans hb)
      · exact h.reset b version hreset hb

/-- **Step.** -/
theorem Binds.step {s s' : ApprovalWorld} {label : ShellLabel} (h : Binds tool s)
    (hstays : tool.Stays s label) (hstep : tool.approvalStep s label = some s') :
    Binds tool s' := by
  obtain ⟨w', hw', rfl⟩ := Option.map_eq_some_iff.mp hstep
  -- A step that binds no one keeps the first authorizations.
  have hkeeps : (∀ b version, w'.bound b = some version → s.world.bound b = some version) →
      Binds tool { world := w', first := s.first } := fun hbound =>
    ⟨fun b version hb => h.first b version (hbound b version hb), h.reset⟩
  cases label with
  | authorize binding host =>
    obtain rfl : (tool.authorize host s.world binding).2 = w' := Option.some.inj hw'
    exact h.authorize hstays
  | begin binding host =>
    refine hkeeps fun b version hb => ?_
    rwa [ShellWorld.bound, (step_begin hw').2.2] at hb
  | enter binding host =>
    refine hkeeps fun b version hb => ?_
    simp only [RestrictedShellTool.step] at hw'
    split_ifs at hw'
    rw [← Option.some.inj hw'] at hb
    exact bound_of_enters (enters_enter tool host s.world binding) hb
  | cancel binding =>
    refine hkeeps fun b version hb => ?_
    rwa [ShellWorld.bound, (step_cancel hw').2.2] at hb
  | finish host capture =>
    refine hkeeps fun b version hb => ?_
    obtain ⟨run, -, rfl⟩ := Option.map_eq_some_iff.mp hw'
    exact hb
  | fail =>
    refine hkeeps fun b version hb => ?_
    obtain ⟨run, -, rfl⟩ := Option.map_eq_some_iff.mp hw'
    exact hb

/-- An execution under the condition is bound to its approval. -/
theorem Binds.approvalBound {s : ApprovalWorld} {label : ShellLabel} (h : Binds tool s)
    (hstays : tool.Stays s label) : tool.ApprovalBound s label := by
  cases label with
  | enter binding host =>
    intro version hfirst
    obtain ⟨hunbound, hreset⟩ := hstays version hfirst
    have henters := enters_enter tool host s.world binding
    generalize tool.enter host s.world binding = outcome at henters ⊢
    -- Nothing is deleted, or the call can run.
    have hstored : ∀ {w' : ShellWorld},
        (w'.stored = if (tool.arguments binding).resetSession then none else s.world.stored) →
        ¬tool.CanRun host binding → w'.stored = s.world.stored := by
      intro w' hstored hcannot
      rw [hstored]
      split_ifs with hres
      · rcases hsome : s.world.stored with _ | state
        · rfl
        · exact absurd (hreset hres (by rw [hsome]; rfl)) hcannot
      · rfl
    cases henters with
    | unresolved hroot hrunning hst => 
      refine ⟨hrunning, hstored hst ?_⟩
      rintro ⟨root, result, timeout, hok, -, -⟩
      cases hroot.symm.trans hok
    | changed hroot hversion hchanged hrunning hst =>
      refine ⟨hrunning, ?_⟩
      rw [hst]
      split_ifs with hres
      · -- A call that resets the session is bound to the empty state, which it finds again.
        have hempty := h.reset binding _ hres (h.first binding _ hversion)
        exact absurd (hempty.trans (version_session_of_reset hres).symm) hchanged
      · rfl
    | rejected hroot hcheck hrunning hst =>
      refine ⟨hrunning, ?_⟩
      rw [hst]
      split_ifs with hres
      · rcases hsome : s.world.stored with _ | state
        · rfl
        · obtain ⟨root', result, timeout, hok, hpolicy, htimeout⟩ :=
            hreset hres (by rw [hsome]; rfl)
          rw [← Except.ok.inj (hroot.symm.trans hok)] at hpolicy
          have hfresh : ∀ root, tool.session s.world root (tool.arguments binding) =
              tool.key.fresh root := fun _ => if_pos hres
          rw [← hfresh] at hpolicy
          exact absurd htimeout (hcheck result timeout hpolicy)
      · rfl
    | @started w' run root hroot hversion hrunning hbinding hstate =>
      refine ⟨run, hrunning, hbinding, ?_⟩
      rw [hstate]
      rcases hb : s.world.bound binding with _ | v
      · exact hunbound root hb hroot
      · rw [← hversion v hb]
        exact Option.some.inj ((h.first binding v hb).symm.trans hfirst)
  | begin binding host =>
    intro w' hw'
    exact ⟨(step_begin hw').1, (step_begin hw').2.1⟩
  | cancel binding =>
    intro w' hw'
    exact ⟨(step_cancel hw').1, (step_cancel hw').2.1⟩
  | authorize binding host => trivial
  | finish host capture => trivial
  | fail => trivial

/-- **Runs.** -/
theorem Binds.along {s : ApprovalWorld} {labels : List ShellLabel} (h : Binds tool s)
    (hstays : Along tool.approvalStep tool.Stays s labels) :
    Along tool.approvalStep tool.ApprovalBound s labels := by
  induction labels generalizing s with
  | nil => trivial
  | cons label labels ih =>
    refine ⟨h.approvalBound hstays.1, ?_⟩
    rcases hstep : tool.approvalStep s label with _ | s'
    · trivial
    · exact ih (h.step hstays.1 hstep) (along_cons hstays hstep).2

end RestrictedShellTool

private def plainFiles : PosixPath.FileSystem where
  realpath path := path
  isDir _ := true
  realpath_realpath _ := rfl

/-- A host whose policy asks for an approval of every command. -/
private def askingHost : ShellHost where
  fs := plainFiles
  resolveRoot _ := .ok ["srv"]
  evaluate _ _ _ _ _ := { kind := .ask, reason := some "Suspicious commands require approval" }

private def shellTool : RestrictedShellTool where
  key := ⟨none, "session:s"⟩
  arguments _ := {}

/-- The call that is put up for approval. -/
private def removal : ShellBinding := ⟨"call-1", .script "rm note.txt"⟩

/-- A call that changes the directory. -/
private def changeDirectory : ShellBinding := ⟨"call-2", .script "cd app"⟩

private def capturedApp : String := "S\x00E\x00/workspace/app\x00"

/-- While the approved removal waits for the lock, another call moves the session to `app`. The
removal raises; it is executed again. -/
private def retriedRemoval : List ShellLabel :=
  [.authorize removal askingHost, .begin changeDirectory askingHost,
    .enter changeDirectory askingHost, .authorize removal askingHost, .begin removal askingHost,
    .finish askingHost (some capturedApp), .enter removal askingHost,
    .authorize removal askingHost, .begin removal askingHost]

private def beforeRetry : ApprovalWorld :=
  reached shellTool.approvalStep {} retriedRemoval (by decide)

private theorem first_beforeRetry : beforeRetry.first removal = some ([], []) := by decide

private theorem enter_beforeRetry :
    ((shellTool.enter askingHost beforeRetry.world removal).1.isOk &&
    (shellTool.enter askingHost beforeRetry.world removal).2.running.all fun run =>
      run.state.version ≠ ([], [])) = true := by decide

end EvernightAI
