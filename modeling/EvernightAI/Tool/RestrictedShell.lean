import EvernightAI.Tool.ShellSession

/-!
# The restricted shell on one session

`RestrictedShellTool` puts a command up for approval and runs it, both in the recorded state of the
shell session. `authorize` binds a call to the state's version; `execute` waits for the session's
lock, compares the versions and hands the command to the sandbox.

The calls are the tasks of one event loop: what a label names is a stretch of `authorize` or
`execute` between two points where the task waits, for the lock or for the sandbox. The host is
open at each of them: its files, its workspaces and what the command policy makes of them.
-/

namespace EvernightAI

open PosixPath

/-- A command: a script, or a list of its parts. -/
inductive ShellCommand
  | script (text : String)
  | parts (words : List String)
  deriving DecidableEq, Repr

/-- What an approval is for: a call and its command, in the session of the tool. -/
structure ShellBinding where
  toolCallId : String
  command : ShellCommand
  deriving DecidableEq, Repr

/-- The other arguments of a call, as the tool's parsers read them. -/
structure ShellArguments where
  workingDirectory : Option String := none
  /-- `arguments.get("cwd")` -/
  cwd : Option Value := none
  /-- `_parse_env` -/
  env : Except Error Environment := .ok ∅
  /-- `_parse_timeout`, in milliseconds. -/
  timeout : Except Error Nat := .ok 10000
  resetSession : Bool := false

inductive ShellPolicyKind
  | allow | ask | reject
  deriving DecidableEq, Repr

/-- `ShellCommandPolicy.evaluate` -/
structure ShellPolicyDecision where
  kind : ShellPolicyKind
  reason : Option String := none
  deriving DecidableEq, Repr

/-- The host at one moment. -/
structure ShellHost where
  fs : FileSystem
  /-- `ProjectRootResolver.resolve` -/
  resolveRoot : Option String → Except Error (List String)
  /-- The command policy, for the root and the directory of the call. -/
  evaluate : List String → List String → ShellCommand → Environment → ShellSessionState →
    ShellPolicyDecision

/-- `_state_version`: what the digest is of. -/
abbrev StateVersion := List String × List (String × String)

def ShellSessionState.version (state : ShellSessionState) : StateVersion :=
  (state.cwd, state.env.rows.insertionSort fun a b => a.1 ≤ b.1)

/-- The tool, its session, and the arguments that come with a call and its command. -/
structure RestrictedShellTool where
  tracker : ShellSessionTracker := {}
  key : ShellSessionKey
  /-- `os.name != "nt"` -/
  posix : Bool := true
  arguments : ShellBinding → ShellArguments

/-- A command in the sandbox, and the session state it was started from. -/
structure ShellRun where
  binding : ShellBinding
  state : ShellSessionState
  root : List String
  cwd : List String
  env : Environment

/-- What the tool and the store hold for the session. -/
structure ShellWorld where
  stored : Option ShellSessionState := none
  /-- `_authorized_states` -/
  authorizedStates : Table (Prod.fst : ShellBinding × StateVersion → ShellBinding) := ∅
  /-- The executions that wait for the session's lock. -/
  waiting : List ShellBinding := []
  /-- The execution that holds it. -/
  running : Option ShellRun := none

/-- What `authorize` answers. -/
inductive AuthorizeAnswer
  | raised (e : Error)
  | refused (reason : Option String)
  | asks (reason : String)
  | passed

namespace RestrictedShellTool

variable (tool : RestrictedShellTool) (host : ShellHost)

private def shellInputError (message : String) : Error where
  errorType := .other "ToolInputError"
  message := message

/-- `_host_cwd` -/
def hostCwd (root : List String) (cwd : Option Value) (state : ShellSessionState) :
    Except Error (List String) :=
  match cwd with
  | none | some .none =>
    if state.cwd = [] then .ok root
    else
      -- A directory removed or swapped since it was recorded falls back to the root.
      let cwd := host.fs.realpath (root ++ state.cwd)
      if host.fs.isDir cwd ∧ root <+: cwd then .ok cwd else .ok root
  | some (.str raw) =>
    if raw = "" then .error (shellInputError "The working directory must be a non-empty string")
    else
      let path := PurePath.parse raw
      let cwd := host.fs.realpath (if path.root = .relative then root ++ path.parts else path.parts)
      if ¬root <+: cwd then
        .error (shellInputError "The working directory must stay inside the configured root")
      else if !host.fs.isDir cwd then
        .error (shellInputError ("The working directory " ++ cwd.getLast?.getD "" ++
          " does not exist"))
      else .ok cwd
  | some _ => .error (shellInputError "The working directory must be a non-empty string")

/-- `_session`: the state that the call would run in. -/
def session (w : ShellWorld) (root : List String) (arguments : ShellArguments) :
    ShellSessionState :=
  if arguments.resetSession then tool.key.fresh root else tool.tracker.load tool.key root w.stored

/-- `authorize` -/
def authorize (w : ShellWorld) (binding : ShellBinding) : AuthorizeAnswer × ShellWorld :=
  let arguments := tool.arguments binding
  match host.resolveRoot arguments.workingDirectory with
  | .error e => (.raised e, w)
  | .ok root =>
    let state := tool.session w root arguments
    match hostCwd host root arguments.cwd state with
    | .error e => (.refused (some e.message), w)
    | .ok cwd =>
      match arguments.env with
      | .error e => (.refused (some e.message), w)
      | .ok env =>
        if (w.authorizedStates.find? binding).any (·.2 ≠ state.version) then
          (.refused (some "Shell session changed; request approval with a new tool call"), w)
        else
          let w := { w with authorizedStates := w.authorizedStates.upsert (binding, state.version) }
          let decision := host.evaluate root cwd binding.command env state
          match decision.kind, decision.reason with
          | .reject, reason => (.refused reason, w)
          | .ask, some reason => (.asks reason, w)
          | _, _ => (.passed, w)

/-- What a call of the policy needs, and its verdict: an error when it rejects the command. -/
def policyCheck (root : List String) (binding : ShellBinding) (state : ShellSessionState) :
    Except Error (List String × Environment) := do
  let arguments := tool.arguments binding
  let cwd ← hostCwd host root arguments.cwd state
  let env ← arguments.env
  let decision := host.evaluate root cwd binding.command env state
  if decision.kind = .reject then
    .error (shellInputError (decision.reason.getD "Shell command rejected"))
  else .ok (cwd, env)

/-- `execute` up to the lock. -/
def begin (w : ShellWorld) (binding : ShellBinding) : Except Error ShellWorld := do
  let arguments := tool.arguments binding
  let root ← host.resolveRoot arguments.workingDirectory
  let _ ← tool.policyCheck host root binding (tool.session w root arguments)
  return { w with waiting := w.waiting ++ [binding] }

/-- `_check_state_version`: the binding is consumed. -/
def checkStateVersion (w : ShellWorld) (binding : ShellBinding) (state : ShellSessionState) :
    Except Error Unit × ShellWorld :=
  let checked := w.authorizedStates.find? binding
  let w := { w with authorizedStates := w.authorizedStates.deleteWhere (·.1 = binding) }
  if checked.any (·.2 ≠ state.version) then
    (.error (shellInputError "Shell session changed before execution; request approval again"), w)
  else (.ok (), w)

/-- `execute` under the lock, up to the sandbox. What it raises leaves what it did before. -/
def enter (w : ShellWorld) (binding : ShellBinding) : Except Error Unit × ShellWorld :=
  let arguments := tool.arguments binding
  let w := { w with
    waiting := w.waiting.erase binding
    stored := if arguments.resetSession then none else w.stored }
  match host.resolveRoot arguments.workingDirectory with
  | .error e => (.error e, w)
  | .ok root =>
    let state := tool.tracker.load tool.key root w.stored
    match checkStateVersion w binding state with
    | (.error e, w) => (.error e, w)
    | (.ok (), w) =>
      match tool.policyCheck host root binding state with
      | .error e => (.error e, w)
      | .ok (cwd, env) =>
        match arguments.timeout with
        | .error e => (.error e, w)
        | .ok _ =>
          let env := env.rows.foldl (fun env v => env.set v.1 v.2) state.env
          (.ok (), { w with running := some { binding, state, root, cwd, env } })

/-- `execute` after the sandbox: what was captured is applied and saved. -/
def finish (w : ShellWorld) (run : ShellRun) (capture : Option String) : ShellWorld :=
  let tracked : Bool := match run.binding.command with
    | .script _ => tool.posix
    | .parts _ => false
  let state :=
    if tracked then (tool.tracker.applyCapture host.fs run.state capture run.root).state
    else run.state
  { w with stored := some state, running := none }

end RestrictedShellTool

/-- A stretch of a call's `authorize` or `execute`. -/
inductive ShellLabel
  | authorize (binding : ShellBinding) (host : ShellHost)
  | begin (binding : ShellBinding) (host : ShellHost)
  | enter (binding : ShellBinding) (host : ShellHost)
  /-- The task is cancelled while it waits. -/
  | cancel (binding : ShellBinding)
  | finish (host : ShellHost) (capture : Option String)
  /-- The sandbox raises. -/
  | fail

namespace RestrictedShellTool

variable (tool : RestrictedShellTool)

def step (w : ShellWorld) : ShellLabel → Option ShellWorld
  | .authorize binding host => some (tool.authorize host w binding).2
  | .begin binding host =>
    match tool.begin host w binding with
    | .ok w' => some w'
    | .error _ => some w
  | .enter binding host =>
    if binding ∈ w.waiting ∧ w.running.isNone then some (tool.enter host w binding).2 else none
  | .cancel binding =>
    if binding ∈ w.waiting then some { w with waiting := w.waiting.erase binding } else none
  | .finish host capture => w.running.map fun run => tool.finish host w run capture
  | .fail => w.running.map fun _ => { w with running := none }

end RestrictedShellTool

end EvernightAI
