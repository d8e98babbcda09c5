import EvernightAI.Lib.HostTree
import EvernightAI.Lib.TextLines
import EvernightAI.Schema.Base

/-!
# The environment of a project

A command runs for a project, in a directory of it. The nearest `.venv` from that directory up to
the root of the project is its virtual environment; its `pyvenv.cfg` names the installation that its
interpreter belongs to. All of it is content of the project, which the command itself can write.

* `resolveProjectEnvironment_inside` : both lie inside the root, links resolved.
-/

namespace EvernightAI

open PosixPath

/-- `SandboxConfigurationError` -/
def sandboxConfigurationError (message : String) : Error :=
  { errorType := .other "SandboxConfigurationError", message := message }

/-- `if condition: raise SandboxConfigurationError(message)` -/
def refuseIf (condition : Prop) [Decidable condition] (message : String) : Except Error Unit :=
  if condition then throw (sandboxConfigurationError message) else pure ()

section Refuse

variable {condition : Prop} [Decidable condition] {message : String} {α : Type}

@[simp] theorem refuseIf_eq_ok {u : Unit} : refuseIf condition message = .ok u ↔ ¬ condition := by
  unfold refuseIf
  by_cases h : condition
  · simp [h, throw, throwThe, MonadExceptOf.throw]
  · simp [h, pure, Except.pure]

@[simp] theorem refuseIf_bind_eq_ok {next : Unit → Except Error α} {a : α} :
    refuseIf condition message >>= next = .ok a ↔ ¬ condition ∧ next () = .ok a := by
  constructor
  · intro h
    obtain ⟨u, hu, hnext⟩ := exists_of_bind_eq_ok h
    exact ⟨refuseIf_eq_ok.mp hu, hnext⟩
  · rintro ⟨hcondition, hnext⟩
    have hok : refuseIf condition message = .ok () := refuseIf_eq_ok.mpr hcondition
    rw [hok]
    exact hnext

end Refuse

/-- What a Python interpreter and its process know about where they are installed. -/
structure PythonInstallation where
  /-- `sys.prefix` -/
  pythonPrefix : PurePath
  /-- `sys.base_prefix` -/
  basePrefix : PurePath
  /-- `sys.executable` -/
  executable : PurePath
  /-- `Path.home()` -/
  home : PurePath
  /-- `shutil.which(name)` -/
  which : String → Option PurePath

/-- `default_python_runtime_roots` -/
def defaultPythonRuntimeRoots (host : HostTree) (python : PythonInstallation) : List PurePath :=
  let base := host.resolve python.basePrefix
  let uvRoot :=
    if base.parent.name = "python" ∧ base.parent.parent.name = "uv" then base.parent
    else python.home.join (PurePath.parse ".local/share/uv/python")
  [base, host.resolve uvRoot]

/-- `ProjectExecutionEnvironment` -/
structure ProjectExecutionEnvironment where
  root : PurePath
  cwd : PurePath
  virtualenv : Option PurePath
  pythonRuntime : Option PurePath
  deriving DecidableEq, Repr

/-- `sandbox_path`, of a path inside the root. -/
def ProjectExecutionEnvironment.sandboxPath (project : ProjectExecutionEnvironment)
    (path : PurePath) : String :=
  PurePath.str ⟨.slash, "workspace" :: path.parts.drop project.root.parts.length⟩

/-- The value of the first line `home = value` of a `pyvenv.cfg`, without the blanks around it. -/
def pyvenvHome (unicode : UnicodeTables) : List TextLines.Text → Option String
  | [] => none
  | line :: lines =>
    let key := line.takeWhile (· ≠ '=')
    if '=' ∈ line ∧ unicode.strip (String.ofList key) = "home" then
      some (unicode.strip (String.ofList (line.drop (key.length + 1))))
    else pyvenvHome unicode lines

section Virtualenv

variable (unicode : UnicodeTables) (host : HostTree) (root : PurePath)

/-- The installation that the `pyvenv.cfg` names, else the one of the interpreter. -/
def pyvenvRuntime (config : PurePath) (installation : PurePath) : Except Error PurePath := do
  match host.size config, host.readText config with
  | some size, some text =>
    refuseIf (size > 65536) "Project pyvenv.cfg is too large"
    match pyvenvHome unicode (TextLines.splitlines text) with
    | none => pure installation
    | some value =>
      let home := PurePath.parse value
      refuseIf (home.root = .relative ∨ host.isDir home = false)
        "Project Python home must be an existing absolute directory"
      pure home.abspath.parent
  | some size, none =>
    refuseIf (size > 65536) "Project pyvenv.cfg is too large"
    throw (sandboxConfigurationError "Could not read project pyvenv.cfg")
  | none, _ => throw (sandboxConfigurationError "Could not read project pyvenv.cfg")

/-- The virtual environment of a `.venv` that is there, with its installation. -/
def readVirtualenv (candidate : PurePath) : Except Error (PurePath × PurePath) := do
  let virtualenv := host.resolve candidate
  refuseIf (¬ virtualenv.IsRelativeTo root) "Project .venv must stay inside the selected project"
  let config := virtualenv.join (PurePath.parse "pyvenv.cfg")
  refuseIf (host.isFile config = false) "Project .venv is missing pyvenv.cfg"
  refuseIf (¬ (host.resolve config).IsRelativeTo root)
    "Project pyvenv.cfg must stay inside the selected project"
  let interpreter := virtualenv.join (PurePath.parse "bin/python")
  refuseIf (host.isFile interpreter = false) "Project .venv Python interpreter is missing"
  let target := host.resolve interpreter
  refuseIf (target.parent.name ≠ "bin")
    "Project Python interpreter must belong to a Python installation"
  let runtime ← pyvenvRuntime unicode host config target.parent.parent
  refuseIf (¬ target.IsRelativeTo virtualenv ∧ ¬ target.IsRelativeTo (host.resolve runtime))
    "Project interpreter does not match pyvenv.cfg home"
  pure (virtualenv, runtime)

/-- The nearest `.venv` of the directories, as far as they are inside the root. -/
def findVirtualenv : List PurePath → Except Error (Option (PurePath × PurePath))
  | [] => pure none
  | directory :: directories =>
    let candidate := directory.join (PurePath.parse ".venv")
    if ¬ directory.IsRelativeTo root then pure none
    else if host.pathExists candidate = false ∧ host.isSymlink candidate = false then
      findVirtualenv directories
    else do
      let found ← readVirtualenv unicode host root candidate
      pure (some found)

/-- `resolve_project_environment` -/
def resolveProjectEnvironment (cwd : Option String) : Except Error ProjectExecutionEnvironment := do
  let text := cwd.getD ""
  let sandboxCwd := PurePath.parse (if text = "" then "/workspace" else text)
  refuseIf (¬ sandboxCwd.IsRelativeTo (PurePath.parse "/workspace"))
    "Working directory must stay inside /workspace"
  let hostCwd := host.resolve (root.join ⟨.relative, sandboxCwd.parts.drop 1⟩)
  refuseIf (¬ hostCwd.IsRelativeTo root) "Working directory must stay inside the selected project"
  match ← findVirtualenv unicode host root (hostCwd :: hostCwd.parents) with
  | some (virtualenv, runtime) => pure ⟨root, hostCwd, some virtualenv, some runtime⟩
  | none => pure ⟨root, hostCwd, none, none⟩

end Virtualenv

/-! ### What is inside the root -/

section Inside

variable {unicode : UnicodeTables} {host : HostTree} {root : PurePath}

theorem readVirtualenv_isRelativeTo {candidate virtualenv runtime : PurePath}
    (h : readVirtualenv unicode host root candidate = .ok (virtualenv, runtime)) :
    virtualenv.IsRelativeTo root := by
  simp only [readVirtualenv, refuseIf_bind_eq_ok, not_not] at h
  obtain ⟨hinside, -, -, -, -, h⟩ := h
  obtain ⟨_, -, h⟩ := exists_of_bind_eq_ok h
  simp only [refuseIf_bind_eq_ok, pure, Except.pure, Except.ok.injEq, Prod.mk.injEq] at h
  exact h.2.1 ▸ hinside

theorem findVirtualenv_isRelativeTo {directories : List PurePath} {virtualenv runtime : PurePath}
    (h : findVirtualenv unicode host root directories = .ok (some (virtualenv, runtime))) :
    virtualenv.IsRelativeTo root := by
  induction directories with
  | nil => simp [findVirtualenv, pure, Except.pure] at h
  | cons directory directories ih =>
    simp only [findVirtualenv] at h
    by_cases hinside : directory.IsRelativeTo root
    · rw [if_neg (not_not_intro hinside)] at h
      split_ifs at h with hmissing
      · exact ih h
      · obtain ⟨found, hfound, h⟩ := exists_of_bind_eq_ok h
        have heq : found = (virtualenv, runtime) := by
          simpa [pure, Except.pure] using h
        exact readVirtualenv_isRelativeTo (heq ▸ hfound)
    · rw [if_pos hinside] at h
      simp [pure, Except.pure] at h

/-- **The directory and the virtual environment of a project lie inside its root**, whatever the
project contains. -/
theorem resolveProjectEnvironment_inside {cwd : Option String}
    {project : ProjectExecutionEnvironment}
    (h : resolveProjectEnvironment unicode host root cwd = .ok project) :
    project.root = root ∧ project.cwd.IsRelativeTo root ∧
      ∀ virtualenv ∈ project.virtualenv, virtualenv.IsRelativeTo root := by
  simp only [resolveProjectEnvironment, refuseIf_bind_eq_ok, not_not] at h
  obtain ⟨-, hcwd, h⟩ := h
  obtain ⟨found, hfound, h⟩ := exists_of_bind_eq_ok h
  cases found with
  | none =>
    simp only [pure, Except.pure, Except.ok.injEq] at h
    subst h
    exact ⟨rfl, hcwd, by simp⟩
  | some found =>
    obtain ⟨virtualenv, runtime⟩ := found
    simp only [pure, Except.pure, Except.ok.injEq] at h
    subst h
    refine ⟨rfl, hcwd, fun other hother => ?_⟩
    have heq : virtualenv = other := Option.some.inj hother
    exact heq ▸ findVirtualenv_isRelativeTo hfound

/-- The directory a request names is the project's, seen from the root. -/
theorem resolveProjectEnvironment_cwd {text : String} {project : ProjectExecutionEnvironment}
    (h : resolveProjectEnvironment unicode host root (some text) = .ok project) (hne : text ≠ "") :
    ∃ relative, PurePath.parse text = ⟨.slash, "workspace" :: relative⟩ ∧
      host.resolve (root.join ⟨.relative, relative⟩) = project.cwd := by
  have hworkspace : PurePath.parse "/workspace" = ⟨.slash, ["workspace"]⟩ := by decide
  simp only [resolveProjectEnvironment, refuseIf_bind_eq_ok, not_not, Option.getD_some, if_neg hne,
    hworkspace] at h
  obtain ⟨⟨hroot, relative, hparts⟩, -, h⟩ := h
  have hparse : PurePath.parse text = ⟨.slash, "workspace" :: relative⟩ := by
    generalize PurePath.parse text = path at hroot hparts
    obtain ⟨kind, parts⟩ := path
    obtain rfl : kind = .slash := hroot
    exact congrArg (PurePath.mk .slash) hparts.symm
  refine ⟨relative, hparse, ?_⟩
  · rw [hparse] at h
    obtain ⟨found, -, h⟩ := exists_of_bind_eq_ok h
    cases found with
    | none =>
      simp only [pure, Except.pure, Except.ok.injEq] at h
      subst h
      rfl
    | some found =>
      simp only [pure, Except.pure, Except.ok.injEq] at h
      subst h
      rfl

end Inside

end EvernightAI
