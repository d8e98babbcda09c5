import EvernightAI.Lib.TransitionSystem
import EvernightAI.Tool.Register

/-!
# Tools of MCP servers

A `McpToolSource` loads the tools a server lists into the register, refreshes them and takes them
away. Its coroutines run up to an `await` at a time: `act` is one such piece, and a source keeps
what each suspended task waits for. What a server answers, which task goes on next, and what fails
or is cancelled is left to the labels of `step`.

`schemaText` is `json.dumps` without blanks.
-/

namespace EvernightAI.ToolSources

open Snapshot

/-! ### A server and its listings -/

structure McpTool where
  name : String
  description : Option String := none
  inputSchema : PyDict := []

/-- What a source is made with. -/
structure McpConfig where
  toolNamespace : String
  transportName : String := "stdio"
  allowedTools : Option (List String) := none
  blockedTools : List String := []
  maxTools : ℕ := 100
  maxDefinitionChars : ℕ := 12000
  requiresApproval : Bool := true
  watchToolChanges : Bool := true
  /-- `refresh_interval_seconds is not None` -/
  refreshInterval : Bool := false

def toolConfigurationError {α : Type} (message : String) (detail : Option String := none) :
    Except Error α :=
  .error { errorType := .other "ToolConfigurationError", message, detail }

/-- `", ".join(sorted(names))` of a set. -/
def joinSorted (names : List String) : String :=
  ", ".intercalate (names.dedup.insertionSort (· ≤ ·))

/-- `[A-Za-z0-9_-]` -/
def isToolNameChar (c : Char) : Bool := c.isAlphanum || c = '_' || c = '-'

/-- `_validate_name` -/
def validateName (name label : String) : Except Error Unit :=
  if name = "" ∨ ¬name.toList.all isToolNameChar then
    toolConfigurationError
      (label ++ " may contain only letters, numbers, underscores, and hyphens")
  else if name.length > 64 then
    toolConfigurationError (label ++ " must not exceed 64 characters")
  else .ok ()

section Listing

variable (schemaText : PyDict → String) (serverId : String) (config : McpConfig)

def sourceId (serverId : String) : String := "mcp:" ++ serverId

/-- The tool is not blocked, and among the allowed ones when there are such. -/
def McpConfig.Selects (tool : McpTool) : Prop :=
  tool.name ∉ config.blockedTools ∧ ∀ allowed ∈ config.allowedTools, tool.name ∈ allowed

instance (tool : McpTool) : Decidable (config.Selects tool) := inferInstanceAs (Decidable (_ ∧ _))

/-- `_select_tools` -/
def selectTools (tools : List McpTool) : Except Error (List McpTool) :=
  let remoteNames := tools.map (·.name)
  let missing := (config.allowedTools.getD []).filter (· ∉ remoteNames)
  if tools.length > config.maxTools then
    toolConfigurationError ("The MCP server " ++ serverId ++ " returned too many tools")
      (some ("maximum " ++ toString config.maxTools ++ ", received " ++ toString tools.length))
  else if ¬remoteNames.Nodup then
    toolConfigurationError ("The MCP server " ++ serverId ++ " returned duplicate tool names")
  else if missing ≠ [] then
    toolConfigurationError ("The MCP server " ++ serverId ++ " did not provide allowed tools")
      (some (joinSorted missing))
  else .ok (tools.filter (config.Selects ·))

/-- The name of a tool in the register. -/
def localName (tool : McpTool) : String := config.toolNamespace ++ "__" ++ tool.name

/-- The definition of a tool that passes the checks. -/
def toolDefinition (tool : McpTool) : ToolDefinition where
  name := localName config tool
  description :=
    if tool.description.getD "" ≠ "" then tool.description.getD ""
    else "Remote MCP tool " ++ tool.name
  parametersSchema := some tool.inputSchema
  permissions := [.network, .externalApi]
  safetyLevel := .sensitive
  requiresApproval := config.requiresApproval
  approvalMode := if config.requiresApproval then .required else .never
  metadata := [
    ("source", .str "mcp"), ("remote", .bool true), ("mcp_server_id", .str serverId),
    ("mcp_tool_name", .str tool.name), ("mcp_transport", .str config.transportName)]

/-- `_definition` -/
def definition (tool : McpTool) : Except Error ToolDefinition := do
  validateName tool.name "MCP tool name"
  let definitionChars :=
    (tool.description.getD "").length + (schemaText tool.inputSchema).length
  if definitionChars > config.maxDefinitionChars then
    toolConfigurationError ("The MCP tool " ++ tool.name ++ " definition is too large")
      (some ("maximum " ++ toString config.maxDefinitionChars ++ ", received " ++
        toString definitionChars))
  else do
    validateName (localName config tool) "Namespaced MCP tool name"
    .ok (toolDefinition serverId config tool)

/-- The registration of a tool; its executor calls the tool by its remote name. -/
def registration (tool : McpTool) : Except Error ToolRegistration :=
  (definition schemaText serverId config tool).map fun definition =>
    { tool := definition, executor := .remote serverId tool.name }

/-- The registrations of a listing. -/
def registrations (tools : List McpTool) : Except Error (List ToolRegistration) := do
  let selected ← selectTools serverId config tools
  selected.mapM (registration schemaText serverId config)

end Listing

/-! ### Tasks -/

/-- Who awaits `refresh()`. -/
inductive Caller
  | load | refresh | loop
  deriving DecidableEq

/-- What a suspended task waits for. -/
inductive Wait
  | connecting
  | locking (caller : Caller)
  | listing (caller : Caller)
  /-- The client of a load that failed closes. -/
  | loadClosing (error : Error)
  /-- The loop waits for its event. -/
  | idle
  | sleeping
  /-- A close waits for the loop to end. -/
  | joining (task : ℕ)
  | closing
  deriving DecidableEq

/-- How an `await` ends. -/
inductive Outcome
  | done
  | listed (tools : List McpTool)
  | failed (error : Error)
  | cancelled

/-- The state of a `McpToolSource` and its tasks. -/
structure McpSource where
  /-- `_register is not None` -/
  loaded : Bool := false
  handlers : Bool := false
  ready : Bool := false
  registeredNames : List String := []
  refreshEvent : Bool := false
  locked : Bool := false
  refreshTask : Option ℕ := none
  tasks : Table (Prod.fst : ℕ × Wait → ℕ) := ∅
  /-- The tasks that were cancelled; they have not noticed yet. -/
  cancelled : List ℕ := []
  started : ℕ := 0
  /-- The listings the server gave so far. -/
  listings : List (List McpTool) := []
  /-- A load failed or a close finished, and no load began since. -/
  down : Bool := false

namespace McpSource

def suspend (source : McpSource) (task : ℕ) (wait : Wait) : McpSource :=
  { source with tasks := source.tasks.upsert (task, wait) }

def finish (source : McpSource) (task : ℕ) : McpSource :=
  { source with tasks := source.tasks.deleteWhere (·.1 = task) }

/-- A new task, suspended. -/
def start (source : McpSource) (wait : Wait) : McpSource :=
  { source.suspend source.started wait with started := source.started + 1 }

end McpSource

/-- What a piece of a coroutine reads and writes; `raised` is what the operation that ends with the
piece raises. -/
structure Local where
  register : Snapshot
  source : McpSource
  raised : Option Error := none

def cancelledError : Error := { errorType := .cancelledError, message := "" }

/-! ### The coroutines -/

section Coroutines

variable (schemaText : PyDict → String) (serverId : String) (config : McpConfig)

/-- `register.replace_source(self._source_id, [])` -/
def removeTools (register : Snapshot) : Snapshot :=
  match register.replaceSource (sourceId serverId) [] with
  | .ok register => register
  | .error _ => register

/-- What `load` raises for an error of its body. -/
def loadError (error : Error) : Error :=
  if error.errorType = .cancelledError ∨ error.errorType = .other "ToolConfigurationError" then
    error
  else {
    errorType := .other "ToolConfigurationError"
    message := "Could not load MCP tools from " ++ serverId
    detail := some error.message }

/-- The handler of `load`, up to `await self._client.close()`. -/
def loadFailed (task : ℕ) (error : Error) (l : Local) : Local where
  register := removeTools serverId l.register
  source := { l.source with loaded := false, handlers := false }.suspend task
    (.loadClosing (loadError serverId error))

/-- The caller of a refresh goes on with an error of it. -/
def callerFailed (caller : Caller) (task : ℕ) (error : Error) (l : Local) : Local :=
  match caller with
  | .load => loadFailed serverId task error l
  | .refresh => { l with source := l.source.finish task, raised := some error }
  | .loop =>
    if error.errorType = .cancelledError then
      { l with source := l.source.finish task, raised := some error }
    else
      { l with source := { l.source with ready := false }.suspend task .sleeping,
               raised := some error }

/-- What `refresh` raises for an error under its lock. -/
def refreshError (error : Error) : Error :=
  if error.errorType = .other "ToolStateError" then {
    errorType := .other "ToolConfigurationError"
    message := error.message
    detail := some (
      if error.detail.getD "" ≠ "" then error.detail.getD "" else error.message) }
  else error

/-- An error under the lock of `refresh`. -/
def refreshFailed (caller : Caller) (task : ℕ) (error : Error) (l : Local) : Local :=
  if error.errorType = .cancelledError then
    callerFailed serverId caller task error { l with source := { l.source with locked := false } }
  else
    callerFailed serverId caller task (refreshError error)
      { l with source := { l.source with locked := false, ready := false } }

/-- `_start_refresh_task` -/
def startRefreshTask (source : McpSource) : McpSource :=
  if ¬config.watchToolChanges ∧ ¬config.refreshInterval then source
  else if source.refreshTask = none then
    { source.start .idle with refreshTask := some source.started }
  else source

/-- The caller of a refresh goes on after it. -/
def callerDone (caller : Caller) (task : ℕ) (source : McpSource) : McpSource :=
  match caller with
  | .load => startRefreshTask config ({ source with ready := true }.finish task)
  | .refresh => source.finish task
  | .loop => source.suspend task .idle

/-- `refresh`, from the listing of the server to its end. -/
def refreshListed (caller : Caller) (task : ℕ) (tools : List McpTool) (l : Local) : Local :=
  let l := { l with source := { l.source with listings := l.source.listings ++ [tools] } }
  match registrations schemaText serverId config tools with
  | .error error => refreshFailed serverId caller task error l
  | .ok registrations =>
    match l.register.replaceSource (sourceId serverId) registrations with
    | .error error => refreshFailed serverId caller task error l
    | .ok register =>
      { register
        source := callerDone config caller task { l.source with
          locked := false
          registeredNames := registrations.map (·.tool.name)
          ready := true } }

/-- `refresh`, up to its first `await`. -/
def enterRefresh (caller : Caller) (task : ℕ) (l : Local) : Local :=
  if ¬l.source.loaded then
    callerFailed serverId caller task {
      errorType := .other "ToolStateError"
      message := "The MCP source " ++ serverId ++ " is not loaded" } l
  else if l.source.locked then { l with source := l.source.suspend task (.locking caller) }
  else { l with source := { l.source with locked := true }.suspend task (.listing caller) }

/-- `close`, once the loop has ended, up to `await self._client.close()`. -/
def closeTools (task : ℕ) (l : Local) : Local where
  register := if l.source.loaded then removeTools serverId l.register else l.register
  source := { l.source with
      loaded := false
      handlers := false
      ready := false
      registeredNames := [] }.suspend task .closing

/-- What a call raises when the client did not close either. -/
def raisedAfter (error : Option Error) : Outcome → Option Error
  | .failed error => some error
  | .cancelled => some cancelledError
  | _ => error

/-- A task goes on after its `await`. -/
def resume (task : ℕ) (l : Local) : Wait → Outcome → Option Local
  | .connecting, .done => some (enterRefresh serverId .load task l)
  | .connecting, .failed error => some (loadFailed serverId task error l)
  | .connecting, .cancelled => some (loadFailed serverId task cancelledError l)
  | .locking caller, .done =>
    if l.source.locked then none
    else some { l with source := { l.source with locked := true }.suspend task (.listing caller) }
  | .locking caller, .cancelled => some (callerFailed serverId caller task cancelledError l)
  | .listing caller, .listed tools =>
    some (refreshListed schemaText serverId config caller task tools l)
  | .listing caller, .failed error => some (refreshFailed serverId caller task error l)
  | .listing caller, .cancelled => some (refreshFailed serverId caller task cancelledError l)
  | .loadClosing error, outcome =>
    some { l with source := { l.source.finish task with down := true },
                  raised := raisedAfter (some error) outcome }
  | .idle, .done =>
    if l.source.refreshEvent ∨ config.refreshInterval then
      some (enterRefresh serverId .loop task
        { l with source := { l.source with refreshEvent := false } })
    else none
  | .sleeping, .done =>
    some { l with source := { l.source with refreshEvent := true }.suspend task .idle }
  | .idle, .cancelled | .sleeping, .cancelled => some { l with source := l.source.finish task }
  | .joining loop, .done | .joining loop, .cancelled =>
    if (l.source.tasks.find? loop).isSome then none else some (closeTools serverId task l)
  | .closing, outcome =>
    some { l with source := { l.source.finish task with down := true },
                  raised := raisedAfter none outcome }
  | _, _ => none

/-- What is done with a source, or by one of its tasks. -/
inductive Action
  | load | refresh | close | toolListChanged | clientFailed
  | resume (task : ℕ) (outcome : Outcome)

/-- `(self._allowed_tools or set()) & self._blocked_tools` -/
def McpConfig.overlap : List String :=
  (config.allowedTools.getD []).filter (· ∈ config.blockedTools)

/-- **The coroutines of a source**, from one `await` to the next. -/
def act (l : Local) : Action → Option Local
  | .load =>
    if l.source.ready then some l
    else if config.overlap ≠ [] then
      some { l with
        source := { l.source with down := true }
        raised := some {
          errorType := .other "ToolConfigurationError"
          message := "MCP tools cannot be both allowed and blocked"
          detail := some (joinSorted config.overlap) } }
    else
      some { l with source :=
        { l.source with loaded := true, handlers := true, down := false }.start .connecting }
  | .refresh =>
    some (enterRefresh serverId .refresh l.source.started
      { l with source := { l.source with started := l.source.started + 1 } })
  | .close =>
    let source := { l.source with started := l.source.started + 1 }
    match source.refreshTask with
    | none => some (closeTools serverId l.source.started { l with source })
    | some loop => some { l with source := { source with
        refreshTask := none
        cancelled := loop :: source.cancelled }.suspend l.source.started (.joining loop) }
  | .toolListChanged =>
    if l.source.handlers then
      some { l with source := { l.source with
        refreshEvent := l.source.refreshEvent || config.watchToolChanges } }
    else none
  | .clientFailed =>
    if l.source.handlers then
      some { l with source := { l.source with
        ready := false
        refreshEvent := l.source.refreshEvent || l.source.refreshTask.isSome } }
    else none
  | .resume task outcome =>
    (l.source.tasks.find? task).bind fun suspended =>
      match outcome with
      | .cancelled => resume schemaText serverId config task l suspended.2 .cancelled
      | outcome =>
        if task ∈ l.source.cancelled then none
        else resume schemaText serverId config task l suspended.2 outcome

end Coroutines

/-! ### All sources of a register -/

/-- The register, the sources by their servers, and what the last step raised. -/
structure Sys where
  register : Snapshot := {}
  sources : String → McpSource := fun _ => {}
  raised : Option Error := none

inductive Label
  | register (tool : ToolDefinition) (executor : ToolExecutor)
      (preflightPolicy : Option ToolPreflightPolicy)
  | unregister (toolName : String)
  /-- A source that is no MCP source. -/
  | replaceSource (sourceId : String) (registrations : List ToolRegistration)
  | act (serverId : String) (action : Action)

/-- The register after an operation, or as it was with what was raised. -/
def Sys.after (s : Sys) : Except Error Snapshot → Sys
  | .ok register => { s with register, raised := none }
  | .error error => { s with raised := some error }

section Step

variable (schemaText : PyDict → String) (configs : String → McpConfig)

/-- **One step of any operation or task.** -/
def step (s : Sys) : Label → Option Sys
  | .register tool executor preflightPolicy =>
    some (s.after (s.register.register tool executor preflightPolicy))
  | .unregister toolName => some (s.after (s.register.unregister toolName))
  | .replaceSource sourceId registrations =>
    if "mcp:".toList <+: sourceId.toList then none
    else some (s.after (s.register.replaceSource sourceId registrations))
  | .act serverId action =>
    (act schemaText serverId (configs serverId) ⟨s.register, s.sources serverId, none⟩ action).map
      fun l => {
        register := l.register
        sources := Function.update s.sources serverId l.source
        raised := l.raised }

end Step

end EvernightAI.ToolSources
