import EvernightAI.Sandbox.ProjectEnvironment
import EvernightAI.Tool.ShellSession

/-!
# The runtime policy of the sandbox

A `BubblewrapRuntimePolicy` says what a sandboxed command may see of the host besides its project:
runtime paths, Python installations, `uv` and Node. It is checked when it is made, and again for
each request, since the host may have changed. Some of its paths come from the project, through its
`pyvenv.cfg`.

* `runtimeMountOptions_apart` : no runtime mount overlaps a protected path.
-/

namespace EvernightAI

open PosixPath

inductive SandboxNetworkMode
  | disabled
  | allowlist
  | unrestricted
  deriving DecidableEq, Repr

inductive SandboxFilesystemAccess
  | readOnly
  | readWrite
  deriving DecidableEq, Repr

/-- `SandboxFilesystemMount` -/
structure SandboxFilesystemMount where
  hostPath : PurePath
  mountPath : String
  access : SandboxFilesystemAccess := .readOnly
  deriving DecidableEq, Repr

/-- The arguments of the constructor. -/
structure BubblewrapRuntimeOptions where
  workspaceRoot : Option PurePath := none
  networkMode : SandboxNetworkMode := .disabled
  readonlyPaths : List PurePath := []
  pythonRuntimeRoots : List PurePath := []
  protectedPaths : List PurePath := []
  includePythonEnvironment : Bool := false
  includeUv : Bool := false
  includeNode : Bool := false
  /-- Whether a directory outside the root is an added project. -/
  workspaceDirectories : Option (PurePath → Bool) := none

structure BubblewrapRuntimePolicy where
  networkMode : SandboxNetworkMode
  workspaceRoot : Option PurePath
  protectedPaths : List PurePath
  workspaces : Option (PurePath → Bool)
  pythonRuntimeRoots : List PurePath
  pythonEnvironment : Option PurePath
  readonlyPaths : List PurePath
  pythonEnvironmentPaths : List PurePath
  uvPath : Option PurePath
  nodePath : Option PurePath

/-- `_check_protected` -/
def checkProtected (host : HostTree) (protectedPaths : List PurePath) (path : PurePath) :
    Except Error Unit :=
  refuseIf (¬ host.Apart path protectedPaths)
    "Sandbox mounts must not expose protected service data"

/-- `_check_runtime_overlap` -/
def checkRuntimeOverlap (host : HostTree) (workspaceRoot : Option PurePath) (path : PurePath) :
    Except Error Unit :=
  refuseIf (∃ root ∈ workspaceRoot, (host.resolve path).Overlaps root)
    "Read-only runtime mounts must stay outside workspace_root"

/-- The installations that the links of an executable lead through; the kernel follows at most forty
links. -/
def linkedInstallations (host : HostTree) : ℕ → PurePath → List PurePath
  | 0, _ => []
  | fuel + 1, executable =>
    match host.readlink executable with
    | none => []
    | some target =>
      let next := host.absolute (executable.parent.join target)
      next.parent.parent :: linkedInstallations host fuel next

section Constructor

variable (host : HostTree) (python : PythonInstallation) (options : BubblewrapRuntimeOptions)

/-- What the constructor sets, before its checks. -/
def BubblewrapRuntimeOptions.policy : BubblewrapRuntimePolicy where
  networkMode := options.networkMode
  workspaceRoot := options.workspaceRoot.map host.resolve
  protectedPaths := options.protectedPaths.map host.resolve
  workspaces := options.workspaceDirectories
  pythonRuntimeRoots :=
    options.pythonRuntimeRoots.map host.absolute ++ defaultPythonRuntimeRoots host python
  pythonEnvironment :=
    if options.includePythonEnvironment then some (host.absolute python.pythonPrefix) else none
  readonlyPaths := options.readonlyPaths.map host.resolve
  pythonEnvironmentPaths :=
    if options.includePythonEnvironment then
      [host.absolute python.pythonPrefix, host.resolve python.basePrefix]
        ++ linkedInstallations host 40 (host.absolute python.executable)
    else []
  uvPath := if options.includeUv then python.which "uv" else none
  nodePath := if options.includeNode then python.which "node" else none

/-- `BubblewrapRuntimePolicy(...)` -/
def BubblewrapRuntimePolicy.create : Except Error BubblewrapRuntimePolicy := do
  let policy := options.policy host python
  refuseIf (options.networkMode = .allowlist)
    "The bubblewrap sandbox does not support network allowlists"
  refuseIf (options.includeUv ∧ policy.uvPath = none) "uv was requested but is not installed"
  refuseIf (options.includeNode ∧ policy.nodePath = none) "Node was requested but is not installed"
  forM (policy.readonlyPaths ++ policy.pythonEnvironmentPaths) fun path => do
    refuseIf (host.pathExists path = false) s!"Sandbox runtime path does not exist: {path.str}"
    checkProtected host policy.protectedPaths path
    checkRuntimeOverlap host policy.workspaceRoot path
  forM policy.workspaceRoot.toList (checkProtected host policy.protectedPaths)
  forM (policy.uvPath.toList ++ policy.nodePath.toList) fun executable => do
    checkProtected host policy.protectedPaths executable
    checkRuntimeOverlap host policy.workspaceRoot executable
  pure policy

end Constructor

namespace BubblewrapRuntimePolicy

variable (unicode : UnicodeTables) (host : HostTree) (policy : BubblewrapRuntimePolicy)

/-- The read-only paths that a workspace must not overlap. -/
def runtimePaths : List PurePath :=
  policy.readonlyPaths ++ policy.pythonEnvironmentPaths ++ policy.pythonRuntimeRoots
    ++ (policy.uvPath.toList ++ policy.nodePath.toList).map host.resolve

/-- The checks of `validate_mounts` on one mount. -/
def validateMount (mount : SandboxFilesystemMount) : Except Error Unit := do
  let directory := host.resolve mount.hostPath
  refuseIf (host.isDir directory = false) s!"Sandbox workspace does not exist: {directory.str}"
  if ∃ root ∈ policy.workspaceRoot, ¬ directory.IsRelativeTo root then
    refuseIf (policy.workspaces = none)
      "Sandbox tool directories must stay inside workspace_root"
    refuseIf (∃ added ∈ policy.workspaces, added directory = false)
      "Sandbox directory must be an added project"
  checkProtected host policy.protectedPaths directory
  refuseIf (∃ path ∈ policy.runtimePaths host, directory.Overlaps path)
    "Workspace mounts must not overlap read-only runtime paths"
  refuseIf (mount.mountPath ≠ "/workspace")
    "Process tools must mount their directory at /workspace"

/-- `validate_mounts` -/
def validateMounts (mounts : List SandboxFilesystemMount) : Except Error Unit := do
  forM mounts (policy.validateMount host)
  refuseIf (mounts.length ≠ 1) "Process tools require one explicit workspace mount"

/-- `project_environment`, for the directory that is mounted. -/
def projectEnvironment (hostPath : PurePath) (cwd : Option String) :
    Except Error ProjectExecutionEnvironment := do
  let root := host.resolve hostPath
  let project ← resolveProjectEnvironment unicode host root cwd
  let approved := PurePath.parse "/usr" :: policy.pythonRuntimeRoots ++ policy.readonlyPaths
  match project.pythonRuntime with
  | none => pure project
  | some runtime =>
    if (host.resolve runtime).IsRelativeTo root then pure project
    else do
      checkProtected host policy.protectedPaths runtime
      refuseIf (¬ ∃ path ∈ approved, (host.resolve runtime).IsRelativeTo (host.resolve path))
        ("Project Python installation is not approved; add its directory to "
          ++ "runtime.sandbox.python_runtime_roots")
      refuseIf (runtime ≠ host.resolve runtime ∧ ¬ ∃ path ∈ approved, runtime.IsRelativeTo path)
        "Project Python installation alias is outside approved runtime roots"
      checkRuntimeOverlap host policy.workspaceRoot runtime
      pure project

/-- A read-only bind: what of the host is seen, and where. -/
structure ReadOnlyBind where
  source : PurePath
  target : String
  deriving DecidableEq, Repr

/-- The bind of a program, as one that is always on `PATH`. -/
def executableOptions (name : String) (executable : Option PurePath) :
    Except Error (List ReadOnlyBind) := do
  match executable with
  | none => pure []
  | some executable => do
    checkProtected host policy.protectedPaths (host.resolve executable)
    checkRuntimeOverlap host policy.workspaceRoot executable
    pure [⟨host.resolve executable, "/opt/evernight/bin/" ++ name⟩]

/-- The binds of the installation of the project's interpreter, if that is outside the project. -/
def pythonRuntimeOptions (project : ProjectExecutionEnvironment) :
    Except Error (List ReadOnlyBind) := do
  match project.pythonRuntime with
  | none => pure []
  | some path =>
    let source := host.resolve path
    if source.IsRelativeTo project.root then pure []
    else do
      checkProtected host policy.protectedPaths path
      pure (⟨source, source.str⟩ :: if source ≠ path then [⟨source, path.str⟩] else [])

/-- `runtime_mount_options` -/
def runtimeMountOptions (project : ProjectExecutionEnvironment) :
    Except Error (List ReadOnlyBind) := do
  let paths := policy.readonlyPaths
    ++ if project.virtualenv = none then policy.pythonEnvironmentPaths else []
  let binds ← paths.eraseDups.mapM fun path => do
    checkProtected host policy.protectedPaths path
    checkRuntimeOverlap host policy.workspaceRoot path
    pure (⟨path, path.str⟩ : ReadOnlyBind)
  let runtime ← policy.pythonRuntimeOptions host project
  let uv ← policy.executableOptions host "uv" policy.uvPath
  let node ← policy.executableOptions host "node" policy.nodePath
  pure (binds ++ runtime ++ uv ++ node)

/-- The directories of `PATH`, in order. -/
def searchPath (project : ProjectExecutionEnvironment) : List String :=
  let paths := ["/opt/evernight/bin", "/usr/local/bin", "/usr/local/sbin", "/usr/bin", "/usr/sbin",
    "/bin", "/sbin"]
  let paths :=
    match project.virtualenv with
    | some virtualenv => (project.sandboxPath virtualenv ++ "/bin") :: paths
    | none => (policy.pythonEnvironment.toList.map fun python =>
        (python.join (PurePath.parse "bin")).str) ++ paths
  let nodeBin := project.sandboxPath (project.cwd.join (PurePath.parse "node_modules/.bin"))
  let rootNodeBin := "/workspace/node_modules/.bin"
  if rootNodeBin ∈ nodeBin :: paths then nodeBin :: paths else nodeBin :: rootNodeBin :: paths

/-- `environment` -/
def environment (project : ProjectExecutionEnvironment) (networkMode : SandboxNetworkMode) :
    Environment :=
  let constants := [("HOME", "/tmp"), ("TMPDIR", "/tmp"), ("UV_CACHE_DIR", "/tmp/uv-cache"),
    ("UV_OFFLINE", if networkMode = .disabled then "1" else "0"),
    ("UV_PYTHON_DOWNLOADS", "never"), ("GIT_CONFIG_NOSYSTEM", "1"),
    ("GIT_CONFIG_GLOBAL", "/dev/null"), ("GIT_TERMINAL_PROMPT", "0"), ("GIT_OPTIONAL_LOCKS", "0")]
  let virtualenv := project.virtualenv.toList.map fun path =>
    ("VIRTUAL_ENV", project.sandboxPath path)
  (constants ++ virtualenv ++ [("PATH", ":".intercalate (policy.searchPath project))]).foldl
    (fun env entry => env.set entry.1 entry.2) ∅

end BubblewrapRuntimePolicy

/-! ### What the checks leave -/

section Checks

variable {unicode : UnicodeTables} {host : HostTree} {policy : BubblewrapRuntimePolicy}

@[simp] theorem checkProtected_bind_eq_ok {α : Type} {protectedPaths : List PurePath}
    {path : PurePath} {next : Unit → Except Error α} {a : α} :
    checkProtected host protectedPaths path >>= next = .ok a ↔
      host.Apart path protectedPaths ∧ next () = .ok a := by
  rw [checkProtected, refuseIf_bind_eq_ok, not_not]

@[simp] theorem checkRuntimeOverlap_bind_eq_ok {α : Type} {workspaceRoot : Option PurePath}
    {path : PurePath} {next : Unit → Except Error α} {a : α} :
    checkRuntimeOverlap host workspaceRoot path >>= next = .ok a ↔
      (∀ root ∈ workspaceRoot, ¬ (host.resolve path).Overlaps root) ∧ next () = .ok a := by
  rw [checkRuntimeOverlap, refuseIf_bind_eq_ok]
  push Not
  rfl

/-- What a check says of each member of a list, it says of the list. -/
theorem forM_eq_ok {α : Type} {check : α → Except Error Unit} {l : List α} {u : Unit} :
    forM l check = .ok u ↔ ∀ a ∈ l, check a = .ok () := by
  induction l with
  | nil => simp [pure, Except.pure]
  | cons a l ih =>
    rw [List.forM_cons, List.forall_mem_cons, ← ih]
    constructor
    · intro h
      obtain ⟨v, hv, hrest⟩ := exists_of_bind_eq_ok h
      exact ⟨hv, hrest⟩
    · rintro ⟨hv, hrest⟩
      rw [hv]
      exact hrest

namespace BubblewrapRuntimePolicy

variable {project : ProjectExecutionEnvironment} {binds : List ReadOnlyBind} {bind : ReadOnlyBind}

/-- A mount that is accepted is a directory apart from all protected paths, mounted at
`/workspace`. -/
theorem validateMount_apart {mount : SandboxFilesystemMount} {u : Unit}
    (h : policy.validateMount host mount = .ok u) :
    host.Apart mount.hostPath policy.protectedPaths ∧ mount.mountPath = "/workspace" := by
  simp only [validateMount, refuseIf_bind_eq_ok] at h
  obtain ⟨-, h⟩ := h
  have hrest : host.Apart (host.resolve mount.hostPath) policy.protectedPaths ∧
      mount.mountPath = "/workspace" := by
    split_ifs at h
    · simp only [refuseIf_bind_eq_ok, checkProtected_bind_eq_ok, refuseIf_eq_ok, not_not] at h
      exact ⟨h.2.2.1, h.2.2.2.2⟩
    · simp only [refuseIf_bind_eq_ok, checkProtected_bind_eq_ok, refuseIf_eq_ok, not_not] at h
      exact ⟨h.1, h.2.2⟩
  exact ⟨HostTree.apart_resolve_iff.mp hrest.1, hrest.2⟩

/-- Exactly one mount is accepted. -/
theorem validateMounts_eq_ok {mounts : List SandboxFilesystemMount} {u : Unit}
    (h : policy.validateMounts host mounts = .ok u) :
    ∃ mount, mounts = [mount] ∧ host.Apart mount.hostPath policy.protectedPaths ∧
      mount.mountPath = "/workspace" := by
  obtain ⟨_, hmounts, hlength⟩ := exists_of_bind_eq_ok h
  rw [refuseIf_eq_ok, not_not, List.length_eq_one_iff] at hlength
  obtain ⟨mount, rfl⟩ := hlength
  have hmount := forM_eq_ok.mp hmounts mount (List.mem_singleton_self mount)
  exact ⟨mount, rfl, validateMount_apart hmount⟩

theorem executableOptions_apart {name : String} {executable : Option PurePath}
    (h : policy.executableOptions host name executable = .ok binds) (hbind : bind ∈ binds) :
    host.Apart bind.source policy.protectedPaths := by
  cases executable with
  | none =>
    simp only [executableOptions, pure, Except.pure, Except.ok.injEq] at h
    subst h
    exact absurd hbind List.not_mem_nil
  | some executable =>
    simp only [executableOptions, checkProtected_bind_eq_ok, checkRuntimeOverlap_bind_eq_ok, pure,
      Except.pure, Except.ok.injEq] at h
    obtain ⟨hapart, -, rfl⟩ := h
    rw [List.mem_singleton.mp hbind]
    exact hapart

theorem pythonRuntimeOptions_apart (h : policy.pythonRuntimeOptions host project = .ok binds)
    (hbind : bind ∈ binds) : host.Apart bind.source policy.protectedPaths := by
  simp only [pythonRuntimeOptions] at h
  split at h
  · simp only [pure, Except.pure, Except.ok.injEq] at h
    subst h
    exact absurd hbind List.not_mem_nil
  · rename_i path hpath
    by_cases hinside : (host.resolve path).IsRelativeTo project.root
    · rw [if_pos hinside] at h
      simp only [pure, Except.pure, Except.ok.injEq] at h
      subst h
      exact absurd hbind List.not_mem_nil
    · rw [if_neg hinside] at h
      simp only [checkProtected_bind_eq_ok, pure, Except.pure, Except.ok.injEq] at h
      obtain ⟨hapart, rfl⟩ := h
      -- both binds of an installation have its resolved path as their source
      have hsource : bind.source = host.resolve path := by
        rcases List.mem_cons.mp hbind with rfl | hbind
        · rfl
        · split_ifs at hbind
          · rw [List.mem_singleton.mp hbind]
          · exact absurd hbind List.not_mem_nil
      rw [hsource]
      exact HostTree.apart_resolve_iff.mpr hapart

/-- **No runtime mount overlaps a protected path**, whatever the project's `pyvenv.cfg` names. -/
theorem runtimeMountOptions_apart (h : policy.runtimeMountOptions host project = .ok binds)
    (hbind : bind ∈ binds) : host.Apart bind.source policy.protectedPaths := by
  obtain ⟨fixed, hfixed, h⟩ := exists_of_bind_eq_ok h
  obtain ⟨runtime, hruntime, h⟩ := exists_of_bind_eq_ok h
  obtain ⟨uv, huv, h⟩ := exists_of_bind_eq_ok h
  obtain ⟨node, hnode, h⟩ := exists_of_bind_eq_ok h
  simp only [pure, Except.pure, Except.ok.injEq] at h
  subst h
  simp only [List.mem_append] at hbind
  rcases hbind with ((hbind | hbind) | hbind) | hbind
  · obtain ⟨path, -, hpath⟩ := exists_of_mem_mapM hfixed hbind
    simp only [checkProtected_bind_eq_ok, checkRuntimeOverlap_bind_eq_ok, pure, Except.pure,
      Except.ok.injEq] at hpath
    obtain ⟨hapart, -, rfl⟩ := hpath
    exact hapart
  · exact pythonRuntimeOptions_apart hruntime hbind
  · exact executableOptions_apart huv hbind
  · exact executableOptions_apart hnode hbind

theorem projectEnvironment_eq_ok {hostPath : PurePath} {cwd : Option String}
    (h : policy.projectEnvironment unicode host hostPath cwd = .ok project) :
    resolveProjectEnvironment unicode host (host.resolve hostPath) cwd = .ok project := by
  obtain ⟨found, hfound, h⟩ := exists_of_bind_eq_ok h
  have heq : found = project := by
    split at h
    · simpa [pure, Except.pure] using h
    · split_ifs at h
      · simpa [pure, Except.pure] using h
      · simp only [checkProtected_bind_eq_ok, refuseIf_bind_eq_ok, checkRuntimeOverlap_bind_eq_ok,
          pure, Except.pure, Except.ok.injEq] at h
        exact h.2.2.2.2
  exact heq ▸ hfound

end BubblewrapRuntimePolicy

end Checks

end EvernightAI
