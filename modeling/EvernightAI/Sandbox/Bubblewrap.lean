import EvernightAI.Sandbox.RuntimePolicy

/-!
# The bubblewrap command

An execution request becomes a command line of `bwrap`: the workspace is opened and validated, the
request is authorised, and the options bind what the command may see, from four places: the system
directories, the runtime policy, the project's installation and the workspace. A bind by descriptor
is a bind of the directory that the descriptor is open on.

The binds of the system directories are the only ones that are not compared with the protected
paths.

* `bubblewrap_confined_iff` : what is bound stays apart from the protected paths exactly if the
  system directories do.
-/

namespace EvernightAI

open PosixPath

/-- `SandboxCommand` -/
structure SandboxCommand where
  command : List String
  cwd : Option String := none
  env : Environment := ∅

/-- `SandboxPolicy` -/
structure SandboxPolicy where
  commandAllowlist : List String := []
  filesystemMounts : List SandboxFilesystemMount := []
  networkMode : SandboxNetworkMode := .disabled
  allowedEnvKeys : Option (List String) := none

/-- `SandboxExecutionRequest` -/
structure SandboxExecutionRequest where
  requestId : String
  command : SandboxCommand
  policy : SandboxPolicy

/-- One option of `bwrap`. -/
inductive BubblewrapOption
  | plain (name : String) (values : List String)
  | roBind (source : PurePath) (target : String)
  | bindFd (directory : PurePath) (target : String)
  | roBindFd (directory : PurePath) (target : String)
  | setenv (key value : String)
  | chdir (path : String)
  deriving DecidableEq, Repr

namespace BubblewrapOption

/-- What of the host the option binds. -/
def source : BubblewrapOption → Option PurePath
  | roBind path _ | bindFd path _ | roBindFd path _ => some path
  | _ => none

/-- What of the host the option makes writable. -/
def writable : BubblewrapOption → Option PurePath
  | bindFd directory _ => some directory
  | _ => none

end BubblewrapOption

/-- The command line that is run. -/
structure BubblewrapCommand where
  executable : String
  options : List BubblewrapOption
  command : List String

/-- `BubblewrapSandboxExecutor`; the policy gives a reason for what it does not allow. -/
structure BubblewrapSandboxExecutor where
  bubblewrapPath : Option String
  authorize : SandboxExecutionRequest → Option String
  runtimePolicy : BubblewrapRuntimePolicy

/-- `SandboxPolicyError` -/
def sandboxPolicyError (reason : String) : Error where
  errorType := .other "SandboxPolicyError"
  message := "The sandbox execution was rejected by policy"
  detail := some reason

section Options

variable (host : HostTree)

/-- The first options, the same for every request. -/
def namespaceOptions : List BubblewrapOption := [
  .plain "--die-with-parent" [], .plain "--new-session" [], .plain "--unshare-user" [],
  .plain "--disable-userns" [], .plain "--cap-drop" ["ALL"], .plain "--unshare-pid" [],
  .plain "--unshare-ipc" [], .plain "--unshare-uts" [], .plain "--hostname" ["sandbox"],
  .plain "--clearenv" [], .plain "--proc" ["/proc"], .plain "--dev" ["/dev"],
  .plain "--tmpfs" ["/dev/shm"], .plain "--remount-ro" ["/dev"], .plain "--tmpfs" ["/tmp"],
  .plain "--dir" ["/run"]]

/-- `_network_options` -/
def networkOptions : SandboxNetworkMode → Except Error (List BubblewrapOption)
  | .disabled => pure [.plain "--unshare-net" []]
  | .unrestricted => pure []
  | .allowlist =>
    throw (sandboxConfigurationError "The bubblewrap sandbox does not support network allowlists")

/-- The system paths that are bound as they are. -/
def systemPaths : List String :=
  ["/usr", "/bin", "/lib", "/lib64", "/etc/ld.so.cache", "/etc/ld.so.conf", "/etc/alternatives",
    "/etc/fonts"]

/-- The system paths that are bound for the network. -/
def networkPaths : List String :=
  ["/etc/resolv.conf", "/etc/hosts", "/etc/nsswitch.conf", "/etc/ssl/certs", "/etc/pki/tls/certs",
    "/etc/pki/ca-trust/extracted"]

/-- The system paths of a request that the host has. -/
def boundSystemPaths (networkMode : SandboxNetworkMode) : List PurePath :=
  ((systemPaths ++ if networkMode = .unrestricted then networkPaths else []).map
    PurePath.parse).filter host.pathExists

/-- `_system_mount_options` -/
def systemMountOptions (networkMode : SandboxNetworkMode) : List BubblewrapOption :=
  (systemPaths.filter fun path => host.pathExists (PurePath.parse path)).map (fun path =>
      .roBind (PurePath.parse path) path)
    ++ if networkMode = .unrestricted then
        (networkPaths.filter fun path => host.pathExists (PurePath.parse path)).map fun path =>
          .roBind (host.resolve (PurePath.parse path)) path
      else []

/-- The bind of a mounted directory by one of its descriptors. -/
def workspaceBind (mount : SandboxFilesystemMount) (directory : PurePath) (target : String) :
    BubblewrapOption :=
  if mount.access = .readWrite then .bindFd directory target else .roBindFd directory target

/-- `_filesystem_mount_options`; the descriptors are taken in order. -/
def filesystemMountOptions : List SandboxFilesystemMount → List PurePath →
    Except Error (List BubblewrapOption)
  | [], _ => pure []
  | mount :: mounts, descriptors =>
    if mount.hostPath.str = mount.mountPath then
      match descriptors with
      | first :: descriptors => do
        let options ← filesystemMountOptions mounts descriptors
        pure (workspaceBind mount first mount.mountPath :: options)
      | [] => throw { errorType := .other "StopIteration", message := "" }
    else
      match descriptors with
      | first :: second :: descriptors => do
        let options ← filesystemMountOptions mounts descriptors
        pure (workspaceBind mount first mount.mountPath
          :: workspaceBind mount second mount.hostPath.str :: options)
      | _ => throw { errorType := .other "StopIteration", message := "" }

/-- `_open_mounts`: the directories as they were opened, with the descriptors open on them. -/
def openMounts : List SandboxFilesystemMount →
    Except Error (List SandboxFilesystemMount × List PurePath)
  | [] => pure ([], [])
  | mount :: mounts => do
    refuseIf (host.isDir mount.hostPath = false)
      s!"Sandbox workspace does not exist: {(host.resolve mount.hostPath).str}"
    let directory := host.resolve mount.hostPath
    let descriptors :=
      if directory.str = mount.mountPath then [directory] else [directory, directory]
    let (opened, others) ← openMounts mounts
    pure ({ mount with hostPath := directory } :: opened, descriptors ++ others)

end Options

namespace BubblewrapSandboxExecutor

variable (unicode : UnicodeTables) (host : HostTree) (executor : BubblewrapSandboxExecutor)

/-- `_sandbox_env`, with the descriptor of the side channel. -/
def sandboxEnv (request : SandboxExecutionRequest) (project : ProjectExecutionEnvironment)
    (sideChannel : Option ℕ) : Environment :=
  (request.command.env.rows
      ++ sideChannel.toList.map fun fd => ("EVERNIGHT_SIDE_CHANNEL_FD", toString fd)).foldl
    (fun env entry => env.set entry.1 entry.2)
    (executor.runtimePolicy.environment project request.policy.networkMode)

/-- `_bubblewrap_command` -/
def bubblewrapCommand (request : SandboxExecutionRequest) (project : ProjectExecutionEnvironment)
    (descriptors : List PurePath) (sideChannel : Option ℕ) : Except Error BubblewrapCommand := do
  match executor.bubblewrapPath with
  | none => throw (sandboxConfigurationError "The bwrap executable is not available")
  | some executable => do
    let network ← networkOptions request.policy.networkMode
    let runtime ← executor.runtimePolicy.runtimeMountOptions host project
    let filesystem ← filesystemMountOptions request.policy.filesystemMounts descriptors
    let env := executor.sandboxEnv request project sideChannel
    pure {
      executable := executable
      options := namespaceOptions ++ network ++ systemMountOptions host request.policy.networkMode
        ++ runtime.map (fun bind => .roBind bind.source bind.target) ++ filesystem
        ++ env.rows.map (fun entry => .setenv entry.1 entry.2)
        ++ request.command.cwd.toList.map .chdir
      command := request.command.command }

/-- The network mode that a request is executed with. -/
def networkMode (request : SandboxExecutionRequest) : SandboxNetworkMode :=
  if executor.runtimePolicy.workspaceRoot = none then request.policy.networkMode
  else executor.runtimePolicy.networkMode

/-- `_prepare`: the request that is executed, the project's environment and the command line. -/
def prepare (request : SandboxExecutionRequest) (sideChannel : Option ℕ) :
    Except Error (SandboxExecutionRequest × ProjectExecutionEnvironment × BubblewrapCommand) := do
  let (mounts, descriptors) ← openMounts host request.policy.filesystemMounts
  executor.runtimePolicy.validateMounts host mounts
  let networkMode := executor.networkMode request
  let request := { request with
    policy := { request.policy with filesystemMounts := mounts, networkMode := networkMode } }
  match executor.authorize request, mounts with
  | some reason, _ => throw (sandboxPolicyError reason)
  | none, [] => throw { errorType := .other "IndexError", message := "list index out of range" }
  | none, mount :: _ => do
    let project ←
      executor.runtimePolicy.projectEnvironment unicode host mount.hostPath request.command.cwd
    let command ← executor.bubblewrapCommand host request project descriptors sideChannel
    pure (request, project, command)

end BubblewrapSandboxExecutor

/-! ### What the command exposes -/

/-- What one option may do: it binds nothing that overlaps a protected path, makes nothing writable
but the workspace, and starts the command in the project's directory. -/
structure ConfinedOption (host : HostTree) (policy : BubblewrapRuntimePolicy)
    (mount : SandboxFilesystemMount) (project : ProjectExecutionEnvironment)
    (option : BubblewrapOption) : Prop where
  apart : ∀ source ∈ option.source, host.Apart source policy.protectedPaths
  writable : ∀ directory ∈ option.writable, directory = mount.hostPath
  chdir : ∀ path, option = .chdir path → path ≠ "" → ∃ relative,
    PurePath.parse path = ⟨.slash, "workspace" :: relative⟩ ∧
      host.resolve (mount.hostPath.join ⟨.relative, relative⟩) = project.cwd

/-- **Confinement**: every option is confined to the one validated workspace, and the directory and
virtual environment that are used lie inside it. -/
structure Confined (host : HostTree) (policy : BubblewrapRuntimePolicy)
    (mount : SandboxFilesystemMount) (project : ProjectExecutionEnvironment)
    (command : BubblewrapCommand) : Prop where
  validated : policy.validateMount host mount = .ok ()
  options : ∀ option ∈ command.options, ConfinedOption host policy mount project option
  cwd : project.cwd.IsRelativeTo mount.hostPath
  virtualenv : ∀ virtualenv ∈ project.virtualenv, virtualenv.IsRelativeTo mount.hostPath

section Binds

variable {host : HostTree} {protectedPaths : List PurePath}

/-- Binds of paths that denote what the given ones do expose what these do. -/
theorem roBinds_apart_iff (bound : String → PurePath) (paths : List String)
    (hbound : ∀ path, host.Apart (bound path) protectedPaths ↔
      host.Apart (PurePath.parse path) protectedPaths) :
    (∀ option ∈ (paths.filter fun path => host.pathExists (PurePath.parse path)).map fun path =>
          BubblewrapOption.roBind (bound path) path,
        ∀ source ∈ option.source, host.Apart source protectedPaths) ↔
      ∀ path ∈ (paths.map PurePath.parse).filter host.pathExists,
        host.Apart path protectedPaths := by
  constructor
  · intro h path hpath
    obtain ⟨hmem, hexists⟩ := List.mem_filter.mp hpath
    obtain ⟨text, htext, rfl⟩ := List.mem_map.mp hmem
    have hoption := h (.roBind (bound text) text)
      (List.mem_map.mpr ⟨text, List.mem_filter.mpr ⟨htext, hexists⟩, rfl⟩)
    exact (hbound text).mp (hoption (bound text) rfl)
  · intro h option hoption source hsource
    obtain ⟨text, htext, rfl⟩ := List.mem_map.mp hoption
    obtain ⟨hmem, hexists⟩ := List.mem_filter.mp htext
    rw [← Option.some.inj hsource]
    exact (hbound text).mpr
      (h _ (List.mem_filter.mpr ⟨List.mem_map.mpr ⟨text, hmem, rfl⟩, hexists⟩))

/-- What is bound of the system stays apart exactly if the system paths do. -/
theorem systemMountOptions_apart_iff {networkMode : SandboxNetworkMode} :
    (∀ option ∈ systemMountOptions host networkMode, ∀ source ∈ option.source,
        host.Apart source protectedPaths) ↔
      ∀ path ∈ boundSystemPaths host networkMode, host.Apart path protectedPaths := by
  have hsystem := roBinds_apart_iff PurePath.parse systemPaths fun path =>
    (Iff.rfl : host.Apart _ protectedPaths ↔ _)
  have hnetwork := roBinds_apart_iff (fun path => host.resolve (PurePath.parse path)) networkPaths
    fun path => (HostTree.apart_resolve_iff : _ ↔ host.Apart (PurePath.parse path) protectedPaths)
  rw [systemMountOptions, boundSystemPaths, List.map_append, List.filter_append,
    List.forall_mem_append, List.forall_mem_append, hsystem]
  by_cases h : networkMode = .unrestricted
  · rw [if_pos h, if_pos h, hnetwork]
  · rw [if_neg h, if_neg h]
    simp

/-- The descriptors of an opened workspace are those that its binds take. -/
theorem filesystemMountOptions_of_openMounts {mounts opened : List SandboxFilesystemMount}
    {descriptors : List PurePath} {options : List BubblewrapOption} {option : BubblewrapOption}
    (hopened : openMounts host mounts = .ok (opened, descriptors))
    (hoptions : filesystemMountOptions opened descriptors = .ok options)
    (hoption : option ∈ options) :
    ∃ mount ∈ opened, ∃ target, option = workspaceBind mount mount.hostPath target := by
  induction mounts generalizing opened descriptors options with
  | nil =>
    simp only [openMounts, pure, Except.pure, Except.ok.injEq, Prod.mk.injEq] at hopened
    obtain ⟨rfl, rfl⟩ := hopened
    simp only [filesystemMountOptions, pure, Except.pure, Except.ok.injEq] at hoptions
    subst hoptions
    exact absurd hoption List.not_mem_nil
  | cons mount mounts ih =>
    simp only [openMounts, refuseIf_bind_eq_ok] at hopened
    obtain ⟨-, hopened⟩ := hopened
    obtain ⟨⟨others, otherDescriptors⟩, hothers, hopened⟩ := exists_of_bind_eq_ok hopened
    simp only [pure, Except.pure, Except.ok.injEq, Prod.mk.injEq] at hopened
    obtain ⟨rfl, rfl⟩ := hopened
    have hrest : ∀ {rest}, filesystemMountOptions others otherDescriptors = .ok rest →
        option ∈ rest → ∃ other ∈ { mount with hostPath := host.resolve mount.hostPath } :: others,
          ∃ target, option = workspaceBind other other.hostPath target := by
      intro rest hrest hmem
      obtain ⟨other, hother, htarget⟩ := ih hothers hrest hmem
      exact ⟨other, List.mem_cons_of_mem _ hother, htarget⟩
    simp only [filesystemMountOptions] at hoptions
    by_cases htarget : (host.resolve mount.hostPath).str = mount.mountPath
    · simp only [htarget, if_true, List.cons_append, List.nil_append] at hoptions
      obtain ⟨rest, hrest', hoptions⟩ := exists_of_bind_eq_ok hoptions
      simp only [pure, Except.pure, Except.ok.injEq] at hoptions
      subst hoptions
      rcases List.mem_cons.mp hoption with rfl | hoption
      · exact ⟨_, List.mem_cons_self, _, rfl⟩
      · exact hrest hrest' hoption
    · simp only [htarget, if_false, List.cons_append, List.nil_append] at hoptions
      obtain ⟨rest, hrest', hoptions⟩ := exists_of_bind_eq_ok hoptions
      simp only [pure, Except.pure, Except.ok.injEq] at hoptions
      subst hoptions
      rcases List.mem_cons.mp hoption with rfl | hoption
      · exact ⟨_, List.mem_cons_self, _, rfl⟩
      · rcases List.mem_cons.mp hoption with rfl | hoption
        · exact ⟨_, List.mem_cons_self, _, rfl⟩
        · exact hrest hrest' hoption

/-- An opened workspace is named by its resolved path. -/
theorem resolve_hostPath_of_openMounts {mounts opened : List SandboxFilesystemMount}
    {descriptors : List PurePath} {mount : SandboxFilesystemMount}
    (hopened : openMounts host mounts = .ok (opened, descriptors)) (hmount : mount ∈ opened) :
    host.resolve mount.hostPath = mount.hostPath := by
  induction mounts generalizing opened descriptors with
  | nil =>
    simp only [openMounts, pure, Except.pure, Except.ok.injEq, Prod.mk.injEq] at hopened
    obtain ⟨rfl, rfl⟩ := hopened
    exact absurd hmount List.not_mem_nil
  | cons first mounts ih =>
    simp only [openMounts, refuseIf_bind_eq_ok] at hopened
    obtain ⟨-, hopened⟩ := hopened
    obtain ⟨⟨others, _⟩, hothers, hopened⟩ := exists_of_bind_eq_ok hopened
    simp only [pure, Except.pure, Except.ok.injEq, Prod.mk.injEq] at hopened
    obtain ⟨rfl, -⟩ := hopened
    rcases List.mem_cons.mp hmount with rfl | hmount
    · exact host.resolve_resolve _
    · exact ih hothers hmount

end Binds

section Options

variable {host : HostTree} {policy : BubblewrapRuntimePolicy} {mount : SandboxFilesystemMount}
  {project : ProjectExecutionEnvironment} {option : BubblewrapOption}

theorem confinedOption_plain (name : String) (values : List String) :
    ConfinedOption host policy mount project (.plain name values) :=
  ⟨by simp [BubblewrapOption.source], by simp [BubblewrapOption.writable], by simp⟩

theorem confinedOption_setenv (key value : String) :
    ConfinedOption host policy mount project (.setenv key value) :=
  ⟨by simp [BubblewrapOption.source], by simp [BubblewrapOption.writable], by simp⟩

theorem confinedOption_roBind {source : PurePath} {target : String}
    (h : host.Apart source policy.protectedPaths) :
    ConfinedOption host policy mount project (.roBind source target) := by
  refine ⟨fun other hother => ?_, by simp [BubblewrapOption.writable], by simp⟩
  have heq : source = other := Option.some.inj hother
  exact heq ▸ h

theorem confinedOption_namespace (h : option ∈ namespaceOptions) :
    ConfinedOption host policy mount project option := by
  have hplain : ∃ name values, option = .plain name values := by
    simp only [namespaceOptions, List.mem_cons, List.not_mem_nil, or_false] at h
    rcases h with h | h | h | h | h | h | h | h | h | h | h | h | h | h | h | h <;>
      exact ⟨_, _, h⟩
  obtain ⟨name, values, rfl⟩ := hplain
  exact confinedOption_plain name values

theorem confinedOption_network {networkMode : SandboxNetworkMode} {network : List BubblewrapOption}
    (hnetwork : networkOptions networkMode = .ok network) (h : option ∈ network) :
    ConfinedOption host policy mount project option := by
  cases networkMode with
  | disabled =>
    simp only [networkOptions, pure, Except.pure, Except.ok.injEq] at hnetwork
    subst hnetwork
    rw [List.mem_singleton.mp h]
    exact confinedOption_plain _ _
  | unrestricted =>
    simp only [networkOptions, pure, Except.pure, Except.ok.injEq] at hnetwork
    subst hnetwork
    exact absurd h List.not_mem_nil
  | allowlist =>
    exact absurd hnetwork (by simp [networkOptions, throw, throwThe, MonadExceptOf.throw])

theorem confinedOption_system {networkMode : SandboxNetworkMode}
    (hsystem : ∀ path ∈ boundSystemPaths host networkMode, host.Apart path policy.protectedPaths)
    (h : option ∈ systemMountOptions host networkMode) :
    ConfinedOption host policy mount project option := by
  have hapart := systemMountOptions_apart_iff.mpr hsystem option h
  have hbind : ∃ source target, option = .roBind source target := by
    rw [systemMountOptions, List.mem_append] at h
    rcases h with h | h
    · obtain ⟨_, -, rfl⟩ := List.mem_map.mp h
      exact ⟨_, _, rfl⟩
    · split_ifs at h
      · obtain ⟨_, -, rfl⟩ := List.mem_map.mp h
        exact ⟨_, _, rfl⟩
      · exact absurd h List.not_mem_nil
  obtain ⟨source, target, rfl⟩ := hbind
  exact confinedOption_roBind (hapart source rfl)

theorem confinedOption_workspace {target : String}
    (h : host.Apart mount.hostPath policy.protectedPaths) :
    ConfinedOption host policy mount project (workspaceBind mount mount.hostPath target) := by
  unfold workspaceBind
  split_ifs
  · refine ⟨fun source hsource => ?_, fun directory hdirectory => ?_, by simp⟩
    · have heq : mount.hostPath = source := Option.some.inj hsource
      exact heq ▸ h
    · exact (Option.some.inj hdirectory).symm
  · refine ⟨fun source hsource => ?_, by simp [BubblewrapOption.writable], by simp⟩
    have heq : mount.hostPath = source := Option.some.inj hsource
    exact heq ▸ h

end Options

section Prepare

variable {unicode : UnicodeTables} {host : HostTree} {executor : BubblewrapSandboxExecutor}
  {request executed : SandboxExecutionRequest} {sideChannel : Option ℕ}
  {project : ProjectExecutionEnvironment} {command : BubblewrapCommand}

/-- What a prepared command is made of: the one opened and validated workspace, the project in it
and the options of the four places. -/
theorem prepare_eq_ok
    (h : executor.prepare unicode host request sideChannel = .ok (executed, project, command)) :
    ∃ mount descriptors executable network runtime filesystem,
      openMounts host request.policy.filesystemMounts = .ok ([mount], descriptors) ∧
      executor.runtimePolicy.validateMounts host [mount] = .ok () ∧
      executor.runtimePolicy.projectEnvironment unicode host mount.hostPath request.command.cwd
        = .ok project ∧
      networkOptions (executor.networkMode request) = .ok network ∧
      executor.runtimePolicy.runtimeMountOptions host project = .ok runtime ∧
      filesystemMountOptions [mount] descriptors = .ok filesystem ∧
      executed.policy.filesystemMounts = [mount] ∧
      command = {
        executable := executable
        options := namespaceOptions ++ network
          ++ systemMountOptions host (executor.networkMode request)
          ++ runtime.map (fun bind => .roBind bind.source bind.target) ++ filesystem
          ++ (executor.sandboxEnv executed project sideChannel).rows.map
            (fun entry => .setenv entry.1 entry.2)
          ++ request.command.cwd.toList.map .chdir
        command := request.command.command } := by
  obtain ⟨⟨mounts, descriptors⟩, hopened, h⟩ := exists_of_bind_eq_ok h
  obtain ⟨_, hvalid, h⟩ := exists_of_bind_eq_ok h
  obtain ⟨mount, rfl, -⟩ := BubblewrapRuntimePolicy.validateMounts_eq_ok hvalid
  simp only at h
  split at h
  · exact absurd h (by simp [throw, throwThe, MonadExceptOf.throw])
  · rename_i hmounts
    exact absurd hmounts (List.cons_ne_nil _ _)
  · rename_i first rest _ hmounts
    obtain ⟨rfl, rfl⟩ := List.cons_eq_cons.mp hmounts
    obtain ⟨found, hproject, h⟩ := exists_of_bind_eq_ok h
    obtain ⟨line, hcommand, h⟩ := exists_of_bind_eq_ok h
    simp only [pure, Except.pure, Except.ok.injEq, Prod.mk.injEq] at h
    obtain ⟨rfl, rfl, rfl⟩ := h
    simp only [BubblewrapSandboxExecutor.bubblewrapCommand] at hcommand
    split at hcommand
    · exact absurd hcommand (by simp [throw, throwThe, MonadExceptOf.throw])
    · rename_i executable _
      obtain ⟨network, hnetwork, hcommand⟩ := exists_of_bind_eq_ok hcommand
      obtain ⟨runtime, hruntime, hcommand⟩ := exists_of_bind_eq_ok hcommand
      obtain ⟨filesystem, hfilesystem, hcommand⟩ := exists_of_bind_eq_ok hcommand
      simp only [pure, Except.pure, Except.ok.injEq] at hcommand
      exact ⟨mount, descriptors, executable, network, runtime, filesystem, hopened, hvalid,
        hproject, hnetwork, hruntime, hfilesystem, rfl, hcommand.symm⟩

/-- What a confined command binds of the system stays apart from the protected paths. -/
theorem apart_of_confined {mount : SandboxFilesystemMount}
    (h : executor.prepare unicode host request sideChannel = .ok (executed, project, command))
    (hconfined : Confined host executor.runtimePolicy mount project command) :
    ∀ path ∈ boundSystemPaths host (executor.networkMode request),
      host.Apart path executor.runtimePolicy.protectedPaths := by
  obtain ⟨_, _, _, network, runtime, filesystem, -, -, -, -, -, -, -, rfl⟩ := prepare_eq_ok h
  refine systemMountOptions_apart_iff.mp fun option hoption => (hconfined.options option ?_).apart
  simp only [List.mem_append]
  exact Or.inl (Or.inl (Or.inl (Or.inl (Or.inr hoption))))

/-- **The sandbox confines a command exactly if no system path that it binds overlaps a protected
one.** The workspace, the runtime paths and what the project names are compared with the protected
paths for every request; the system paths are not. -/
theorem bubblewrap_confined_iff
    (h : executor.prepare unicode host request sideChannel = .ok (executed, project, command)) :
    (∃ mount, executed.policy.filesystemMounts = [mount] ∧
        Confined host executor.runtimePolicy mount project command) ↔
      ∀ path ∈ boundSystemPaths host (executor.networkMode request),
        host.Apart path executor.runtimePolicy.protectedPaths := by
  constructor
  · rintro ⟨mount, -, hconfined⟩
    exact apart_of_confined h hconfined
  · intro hsystem
    obtain ⟨mount, descriptors, executable, network, runtime, filesystem, hopened, hvalid, hproject,
      hnetwork, hruntime, hfilesystem, hmounts, rfl⟩ := prepare_eq_ok h
    obtain ⟨_, hsingle, hapart, -⟩ := BubblewrapRuntimePolicy.validateMounts_eq_ok hvalid
    obtain ⟨rfl, -⟩ := List.cons_eq_cons.mp hsingle
    have hresolve := BubblewrapRuntimePolicy.projectEnvironment_eq_ok hproject
    rw [resolve_hostPath_of_openMounts hopened (List.mem_singleton_self mount)] at hresolve
    obtain ⟨-, hcwd, hvirtualenv⟩ := resolveProjectEnvironment_inside hresolve
    refine ⟨mount, hmounts, ?_, ?_, hcwd, hvirtualenv⟩
    · obtain ⟨_, hmount, -⟩ := exists_of_bind_eq_ok hvalid
      exact forM_eq_ok.mp hmount mount (List.mem_singleton_self mount)
    · simp only [List.forall_mem_append]
      refine ⟨⟨⟨⟨⟨⟨?_, ?_⟩, ?_⟩, ?_⟩, ?_⟩, ?_⟩, ?_⟩
      · exact fun option => confinedOption_namespace
      · exact fun option => confinedOption_network hnetwork
      · exact fun option => confinedOption_system hsystem
      · intro option hoption
        obtain ⟨bind, hbind, rfl⟩ := List.mem_map.mp hoption
        exact confinedOption_roBind
          (BubblewrapRuntimePolicy.runtimeMountOptions_apart hruntime hbind)
      · intro option hoption
        obtain ⟨other, hother, target, rfl⟩ :=
          filesystemMountOptions_of_openMounts hopened hfilesystem hoption
        rw [List.mem_singleton.mp hother]
        exact confinedOption_workspace hapart
      · intro option hoption
        obtain ⟨entry, -, rfl⟩ := List.mem_map.mp hoption
        exact confinedOption_setenv entry.1 entry.2
      · intro option hoption
        obtain ⟨text, htext, rfl⟩ := List.mem_map.mp hoption
        have htext : request.command.cwd = some text := Option.mem_toList.mp htext
        refine ⟨by simp [BubblewrapOption.source], by simp [BubblewrapOption.writable],
          fun path hpath hne => ?_⟩
        obtain rfl : text = path := by simpa using hpath
        rw [htext] at hresolve
        exact resolveProjectEnvironment_cwd hresolve hne

end Prepare

/-! ### A protected directory under `/usr` -/

section Protected

/-- A host with `/usr`, a project and no links. -/
private def plainHost : HostTree where
  resolve := id
  cwd := ⟨.slash, []⟩
  pathExists := fun path => path.parts = ["usr"]
  isDir := fun path => path.parts = ["srv", "work", "app"]
  isFile := fun _ => false
  isExecutable := fun _ => false
  readlink := fun _ => none
  size := fun _ => none
  readText := fun _ => none
  resolve_resolve := fun _ => rfl

private def asciiBlanks : UnicodeTables where
  isSpace := Char.isWhitespace
  isWord := Char.isAlphanum
  casefold := String.toLower

private def optInstallation : PythonInstallation where
  pythonPrefix := ⟨.slash, ["opt", "python"]⟩
  basePrefix := ⟨.slash, ["opt", "python"]⟩
  executable := ⟨.slash, ["opt", "python", "bin", "python3"]⟩
  home := ⟨.slash, ["root"]⟩
  which := fun _ => none

/-- The service keeps its data in the given directory. -/
private def protectingOptions (path : PurePath) : BubblewrapRuntimeOptions where
  workspaceRoot := some ⟨.slash, ["srv", "work"]⟩
  protectedPaths := [path]

private def listRequest : SandboxExecutionRequest where
  requestId := "list"
  command := { command := ["ls"], cwd := some "/workspace" }
  policy := {
    commandAllowlist := ["ls"]
    filesystemMounts := [⟨⟨.slash, ["srv", "work", "app"]⟩, "/workspace", .readWrite⟩] }

private def protectingExecutor (path : PurePath) : BubblewrapSandboxExecutor where
  bubblewrapPath := some "/usr/bin/bwrap"
  authorize := fun _ => none
  runtimePolicy := (protectingOptions path).policy plainHost optInstallation

private theorem exists_of_isOk {ε α : Type} (x : Except ε α) (h : x.isOk = true) :
    ∃ a, x = .ok a := by
  cases x with
  | error _ => exact absurd h (by simp [Except.isOk, Except.toBool])
  | ok a => exact ⟨a, rfl⟩

/-- Data outside the system directories is confined. -/
theorem bubblewrap_confined_private : ∃ executed project command mount,
    (protectingExecutor ⟨.slash, ["srv", "private"]⟩).prepare asciiBlanks plainHost listRequest none
        = .ok (executed, project, command) ∧
      Confined plainHost (protectingExecutor ⟨.slash, ["srv", "private"]⟩).runtimePolicy mount
        project command := by
  obtain ⟨⟨executed, project, command⟩, h⟩ := exists_of_isOk
    ((protectingExecutor ⟨.slash, ["srv", "private"]⟩).prepare asciiBlanks plainHost
      listRequest none) (by decide +kernel)
  obtain ⟨mount, -, hconfined⟩ := (bubblewrap_confined_iff h).mpr (by decide +kernel)
  exact ⟨executed, project, command, mount, h, hconfined⟩

/-- **A protected directory under `/usr` is accepted, and exposed to every command.** -/
theorem bubblewrap_exposes_protected : ∃ executed project command,
    BubblewrapRuntimePolicy.create plainHost optInstallation
        (protectingOptions ⟨.slash, ["usr", "local", "private"]⟩)
      = .ok (protectingExecutor ⟨.slash, ["usr", "local", "private"]⟩).runtimePolicy ∧
    (protectingExecutor ⟨.slash, ["usr", "local", "private"]⟩).prepare asciiBlanks plainHost
        listRequest none = .ok (executed, project, command) ∧
    ¬ ∃ mount, executed.policy.filesystemMounts = [mount] ∧
      Confined plainHost (protectingExecutor ⟨.slash, ["usr", "local", "private"]⟩).runtimePolicy
        mount project command := by
  obtain ⟨⟨executed, project, command⟩, h⟩ := exists_of_isOk
    ((protectingExecutor ⟨.slash, ["usr", "local", "private"]⟩).prepare asciiBlanks plainHost
      listRequest none) (by decide +kernel)
  refine ⟨executed, project, command, rfl, h, ?_⟩
  rintro ⟨mount, -, hconfined⟩
  have hapart := apart_of_confined h hconfined
  exact absurd hapart (by decide +kernel)

end Protected

end EvernightAI
