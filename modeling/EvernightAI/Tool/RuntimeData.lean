import EvernightAI.Store.Authorized
import EvernightAI.Tool.Catalog

/-!
# The runtime data tools

Eleven tools give a model the stores of the runtime: it creates, reads and lists contexts, sessions
and memories, appends messages and archives sessions. An executor reads the arguments of the call
and asks a manager. The executors get nothing else of the call, and call the managers without a
scope.
-/

namespace EvernightAI

/-! ### Reading arguments -/

/-- Nested values of the arguments, read back from their texts. -/
structure ArgumentReader where
  parseObject : String → Option Dict := fun _ => none
  parseList : String → Option (List Value) := fun _ => none

private def toolInputError (message : String) : Error where
  errorType := .other "ToolInputError"
  message := message

/-- `_required_string` -/
def requiredString (value : Option Value) (name : String) : Except Error String :=
  match value with
  | some (.str s) => if s = "" then .error (toolInputError
      ("The " ++ name ++ " value must be a non-empty string")) else .ok s
  | _ => .error (toolInputError ("The " ++ name ++ " value must be a non-empty string"))

/-- `_optional_string` -/
def optionalString (value : Option Value) : Except Error (Option String) :=
  match value with
  | none | some .none => .ok none
  | some (.str s) => if s = "" then .error (toolInputError
      "Optional string values must be non-empty strings") else .ok (some s)
  | some _ => .error (toolInputError "Optional string values must be non-empty strings")

/-- `_message_role` -/
def messageRole (value : Option Value) : Except Error MessageRole :=
  match value with
  | some (.str "user") => .ok .user
  | some (.str "assistant") => .ok .assistant
  | some (.str "tool") => .ok .tool
  | some (.str "system") => .ok .system
  | some (.str s) => .error (toolInputError ("The role " ++ s ++ " is not supported"))
  | _ => .error (toolInputError "The role value must be a string")

/-- `_memory_kind` -/
def memoryKind (value : Option Value) : Except Error MemoryKind :=
  match value with
  | none | some .none => .ok .fact
  | some (.str "fact") => .ok .fact
  | some (.str "preference") => .ok .preference
  | some (.str "summary") => .ok .summary
  | some (.str "definition") => .ok .definition
  | some (.str "instruction") => .ok .instruction
  | some (.str "episodic") => .ok .episodic
  | some (.str s) => .error (toolInputError ("The memory kind " ++ s ++ " is not supported"))
  | some _ => .error (toolInputError "The memory kind must be a string")

/-- `_memory_scope` -/
def memoryScope (value : Option Value) : Except Error MemoryScope :=
  match value with
  | none | some .none => .ok .global
  | some (.str "global") => .ok .global
  | some (.str "user") => .ok .user
  | some (.str "session") => .ok .session
  | some (.str "context") => .ok .context
  | some (.str s) => .error (toolInputError ("The memory scope " ++ s ++ " is not supported"))
  | some _ => .error (toolInputError "The memory scope must be a string")

namespace ArgumentReader

variable (reader : ArgumentReader)

/-- `_string_list` -/
def stringList (value : Option Value) : Except Error (List String) :=
  let refused := toolInputError "The tags value must be a list of strings"
  match value with
  | none | some .none => .ok []
  | some (.other json) =>
    match reader.parseList json with
    | some values => values.mapM fun
      | .str s => .ok s
      | _ => .error refused
    | none => .error refused
  | some _ => .error refused

/-- `_metadata` -/
def metadata (value : Option Value) : Except Error Dict :=
  let refused := toolInputError "The metadata value must be a dictionary"
  match value with
  | none | some .none => .ok []
  | some (.other json) =>
    match reader.parseObject json with
    | some object => .ok object
    | none => .error refused
  | some _ => .error refused

end ArgumentReader

/-- `_int`: a truth value is an integer. -/
def intOr (value : Option Value) (default : Int) : Except Error Int :=
  match value with
  | none | some .none => .ok default
  | some (.int n) => .ok n
  | some (.bool b) => .ok (if b then 1 else 0)
  | some _ => .error (toolInputError "The priority value must be an integer")

/-! ### The tools -/

/-- The tools that `register_runtime_data_tools` registers. -/
inductive DataTool
  | createContext
  | listContexts
  | getContext
  | appendContextMessage
  | writeMemory
  | listMemories
  | getMemory
  | createSession
  | listSessions
  | getSession
  | archiveSession
  deriving DecidableEq, Repr

/-- What happens outside the model while a tool runs: the `uuid4().hex` it draws, and the clock. -/
structure DataToolInput where
  uuid : String
  now : Instant

namespace DataTool

def all : List DataTool :=
  [createContext, listContexts, getContext, appendContextMessage, writeMemory, listMemories,
    getMemory, createSession, listSessions, getSession, archiveSession]

def name : DataTool → String
  | createContext => "create_context"
  | listContexts => "list_contexts"
  | getContext => "get_context"
  | appendContextMessage => "append_context_message"
  | writeMemory => "write_memory"
  | listMemories => "list_memories"
  | getMemory => "get_memory"
  | createSession => "create_session"
  | listSessions => "list_sessions"
  | getSession => "get_session"
  | archiveSession => "archive_session"

/-- The definition of a tool that only reads. -/
private def reads (tool : DataTool) : ToolDefinition where
  name := tool.name
  permissions := [.read, .database]
  safetyLevel := .safe

/-- The definition of a tool that writes. -/
private def writes (tool : DataTool) : ToolDefinition where
  name := tool.name
  permissions := [.write, .database]
  safetyLevel := .sensitive
  requiresApproval := true

def definition : DataTool → ToolDefinition
  | createContext => createContext.writes
  | listContexts => listContexts.reads
  | getContext => getContext.reads
  | appendContextMessage => appendContextMessage.writes
  | writeMemory => writeMemory.writes
  | listMemories => listMemories.reads
  | getMemory => getMemory.reads
  | createSession => createSession.writes
  | listSessions => listSessions.reads
  | getSession => getSession.reads
  | archiveSession => archiveSession.writes

/-- The tool registered under a name. -/
def ofName? (name : String) : Option DataTool := all.find? (·.name = name)

end DataTool

/-- The runtime the tools are registered in. -/
structure DataTools where
  runtime : StoreRuntime
  unicode : UnicodeTables
  reader : ArgumentReader := {}

namespace DataTools

variable (tools : DataTools) (input : DataToolInput) (arguments : Dict)

open Stores

/-- A step that may raise and does not look at the stores. -/
def reading {α : Type} (x : Except Error α) : StoreM α := fun w =>
  match x with
  | .ok a => .ok a w
  | .error e => .error e w

/-- The context of a `create_context` call. -/
def contextArgument : Except Error Context := do
  let contextId ← optionalString (arguments.get "context_id")
  let metadata ← tools.reader.metadata (arguments.get "metadata")
  return { contextId := contextId.getD ("context-" ++ input.uuid), metadata }

def createContext : StoreM (List Record) := do
  let context ← reading (tools.contextArgument input arguments)
  let context ← onContexts (tools.runtime.contextRegister.create context none)
  return [.context context]

def listContexts : StoreM (List Record) := do
  let contexts ← onContexts (Register.reading (tools.runtime.contextRegister.list () {} none))
  return contexts.map .context

def getContext : StoreM (List Record) := do
  let contextId ← reading (requiredString (arguments.get "context_id") "context_id")
  let context ← onContexts (Register.reading (tools.runtime.contextRegister.get contextId none))
  return [.context context]

/-- The context and the message of an `append_context_message` call. -/
def messageArgument : Except Error (String × Content) := do
  let contextId ← requiredString (arguments.get "context_id") "context_id"
  let role ← messageRole (arguments.get "role")
  let text ← requiredString (arguments.get "text") "text"
  let metadata ← tools.reader.metadata (arguments.get "metadata")
  return (contextId, { role, content := some [{ type := .text, text := some text }], metadata })

def appendContextMessage : StoreM (List Record) := do
  let message ← reading (tools.messageArgument arguments)
  let context ← onContexts
    (appendContext tools.runtime.contextRegister message.1 message.2 none none)
  return [.context context]

/-- The memory of a `write_memory` call, validated. -/
def memoryArgument : Except Error MemoryItem := do
  let memoryId ← optionalString (arguments.get "memory_id")
  let content ← requiredString (arguments.get "content") "content"
  let kind ← memoryKind (arguments.get "kind")
  let scope ← memoryScope (arguments.get "scope")
  let scopeId ← optionalString (arguments.get "scope_id")
  let tags ← tools.reader.stringList (arguments.get "tags")
  let priority ← intOr (arguments.get "priority") 0
  let metadata ← tools.reader.metadata (arguments.get "metadata")
  MemoryItem.validate tools.unicode {
    memoryId := memoryId.getD ("memory-" ++ input.uuid)
    content, kind, scope, scopeId, tags, priority, metadata
    createdAt := input.now
    updatedAt := input.now }

def writeMemory : StoreM (List Record) := do
  let memory ← reading (tools.memoryArgument input arguments)
  let memory ← onMemories (tools.runtime.memoryRegister.create memory none)
  return [.memory memory]

def listMemories : StoreM (List Record) := do
  let memories ← onMemories
    (Register.reading (tools.runtime.memoryRegister.list { now := input.now } {} none))
  return memories.map .memory

def getMemory : StoreM (List Record) := do
  let memoryId ← reading (requiredString (arguments.get "memory_id") "memory_id")
  let memory ← onMemories (Register.reading (tools.runtime.memoryRegister.get memoryId none))
  return [.memory memory]

/-- The session of a `create_session` call. -/
def sessionArgument : Except Error Session := do
  let sessionId ← optionalString (arguments.get "session_id")
  let title ← optionalString (arguments.get "title")
  let contextId ← requiredString (arguments.get "context_id") "context_id"
  let providerId ← optionalString (arguments.get "provider_id")
  let modelId ← optionalString (arguments.get "model_id")
  let metadata ← tools.reader.metadata (arguments.get "metadata")
  return {
    sessionId := sessionId.getD ("session-" ++ input.uuid)
    title, contextId, providerId, modelId, metadata
    createdAt := input.now
    updatedAt := input.now }

/-- `SessionManager.create` does not create the session's context. -/
def createSession : StoreM (List Record) := do
  let session ← reading (tools.sessionArgument input arguments)
  let session ← onSessions (tools.runtime.sessionRegister.create session none)
  return [.session session]

def listSessions : StoreM (List Record) := do
  let sessions ← onSessions (Register.reading (tools.runtime.sessionRegister.list {} {} none))
  return sessions.map .session

def getSession : StoreM (List Record) := do
  let sessionId ← reading (requiredString (arguments.get "session_id") "session_id")
  let session ← onSessions (Register.reading (tools.runtime.sessionRegister.get sessionId none))
  return [.session session]

def archiveSession : StoreM (List Record) := do
  let sessionId ← reading (requiredString (arguments.get "session_id") "session_id")
  let session ← onSessions
    (EvernightAI.archiveSession tools.runtime.sessionRegister sessionId input.now none)
  return [.session session]

/-- The executor of a tool: the records its result is a dump of. -/
def executor : DataTool → StoreM (List Record)
  | .createContext => tools.createContext input arguments
  | .listContexts => tools.listContexts
  | .getContext => tools.getContext arguments
  | .appendContextMessage => tools.appendContextMessage arguments
  | .writeMemory => tools.writeMemory input arguments
  | .listMemories => tools.listMemories input
  | .getMemory => tools.getMemory arguments
  | .createSession => tools.createSession input arguments
  | .listSessions => tools.listSessions
  | .getSession => tools.getSession arguments
  | .archiveSession => tools.archiveSession input arguments

end DataTools

/-! ### Calls -/

/-- A tool manager with the runtime data tools. -/
structure DataToolManager where
  manager : ToolManager
  tools : DataTools

/-- A tool call of a run, and what happens outside while it runs. -/
structure DataCall where
  call : ToolCall
  input : DataToolInput

namespace DataToolManager

variable (m : DataToolManager)

/-- The data tool a call reaches and the arguments it is invoked with. -/
def reached (call : ToolCall) : Except Error (Option DataTool × Dict) := do
  let arguments ← m.manager.execute call
  let name ← ToolManager.getToolName call
  return (DataTool.ofName? name, arguments)

/-- `ToolManager.execute` for a call of a data tool: what the executor raises is wrapped. -/
def execute (call : DataCall) : StoreM (List Record) := fun w =>
  match m.reached call.call with
  | .error e => .error e w
  | .ok (none, _) => .ok [] w
  | .ok (some tool, arguments) =>
    StatefulProgram.orRaise {
      errorType := .toolExecutionError
      message := "The tool " ++ tool.name ++ " execution failed" }
      (m.tools.executor call.input arguments tool) w

end DataToolManager

end EvernightAI
