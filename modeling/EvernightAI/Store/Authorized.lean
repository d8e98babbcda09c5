import EvernightAI.Lib.StatefulProgram
import EvernightAI.Store.ScopedAccess

/-!
# The authorized interfaces over the stores

A principal reaches the stores through `AuthorizedChatInterface` and `AuthorizedSessionInterface`:
each operation asks the authorizer, stamps the principal's id on what it writes, and hands the
principal's scope down to the managers. The managers and the session application are the code
between; `Operation` lists what a principal can ask for and `perform` runs one request, which may
raise after it has written.
-/

namespace EvernightAI

open Resource

/-- The three stores of a runtime. -/
structure Stores where
  contexts : Store Context := ∅
  sessions : Store Session := ∅
  memories : Store MemoryItem := ∅

/-- A request on the stores: it may raise, and keeps what it wrote before. -/
abbrev StoreM := EStateM Error Stores

/-- The registers and the memory strategy of a runtime. -/
structure StoreRuntime where
  contextRegister : ContextRegister
  sessionRegister : Register Session SessionFilter
  memoryRegister : Register MemoryItem MemoryFilter
  memoryStrategy : MemoryStrategy

inductive Backend
  | sqlite | inMemory
  deriving DecidableEq, Repr

/-- The runtime over SQLite or over dictionaries. -/
def storeRuntime (backend : Backend) (u : UnicodeTables) (memoryStrategy : MemoryStrategy) :
    StoreRuntime :=
  match backend with
  | .sqlite => {
      contextRegister := sqliteContextRegister u
      sessionRegister := sqliteSessionRegister u
      memoryRegister := sqliteMemoryRegister u
      memoryStrategy }
  | .inMemory => {
      contextRegister := dictContextRegister
      sessionRegister := dictSessionRegister
      memoryRegister := dictMemoryRegister u
      memoryStrategy }

/-! ### Managers -/

namespace Register

variable {ρ Filter α : Type} [Resource ρ]

/-- A register's read, as a program. -/
def reading (f : Store ρ → Except Error α) : EStateM Error (Store ρ) α := fun store =>
  match f store with
  | .ok a => .ok a store
  | .error e => .error e store

/-- A register's write, as a program. -/
def writing (f : Store ρ → Except Error (Store ρ)) : EStateM Error (Store ρ) Unit := fun store =>
  match f store with
  | .ok store' => .ok () store'
  | .error e => .error e store

theorem reading_of_ok {f : Store ρ → Except Error α} {store : Store ρ} {a : α}
    (h : f store = .ok a) : reading f store = .ok a store := by simp only [reading, h]

theorem reading_of_error {f : Store ρ → Except Error α} {store : Store ρ} {e : Error}
    (h : f store = .error e) : reading f store = .error e store := by simp only [reading, h]

theorem writing_of_ok {f : Store ρ → Except Error (Store ρ)} {store store' : Store ρ}
    (h : f store = .ok store') : writing f store = .ok () store' := by simp only [writing, h]

theorem writing_of_error {f : Store ρ → Except Error (Store ρ)} {store : Store ρ} {e : Error}
    (h : f store = .error e) : writing f store = .error e store := by simp only [writing, h]

variable (reg : Register ρ Filter)

/-- `create` of the managers. -/
def create (record : ρ) (scope : Option PrincipalScope) : EStateM Error (Store ρ) ρ := do
  writing (reg.register record scope)
  reading (reg.get (key record) scope)

/-- `replace` of the managers; `stamp` is the update each of them makes before writing. -/
def replace (stamp : ρ → ρ) (record : ρ) (scope : Option PrincipalScope) :
    EStateM Error (Store ρ) ρ := do
  if reg.has (key record) scope (← getThe (Store ρ)) then
    writing (reg.register (stamp record) scope)
    reading (reg.get (key record) scope)
  else throw {
    errorType := notFoundError ρ
    message := "The " ++ noun ρ ++ " " ++ key record ++ " is not found" }

end Register

/-- `SessionManager.archive` -/
def archiveSession (reg : Register Session SessionFilter) (sessionId : String) (now : Instant)
    (scope : Option PrincipalScope) : EStateM Error (Store Session) Session := do
  let session ← Register.reading (reg.get sessionId scope)
  let updated := { session with status := .archived, updatedAt := now }
  Register.writing (reg.register updated scope)
  return updated

/-- `ContextManager.append` -/
def appendContext (reg : ContextRegister) (contextId : String) (message : Content)
    (expectedRevision : Option Nat) (scope : Option PrincipalScope) :
    EStateM Error (Store Context) Context := fun store =>
  match reg.appendMessage contextId message expectedRevision scope store with
  | .ok (context, store') => .ok context store'
  | .error e => .error e store

namespace Stores

variable {α : Type}

def onContexts (x : EStateM Error (Store Context) α) : StoreM α :=
  StatefulProgram.zoom contexts (fun c w => { w with contexts := c }) x

def onSessions (x : EStateM Error (Store Session) α) : StoreM α :=
  StatefulProgram.zoom sessions (fun s w => { w with sessions := s }) x

def onMemories (x : EStateM Error (Store MemoryItem) α) : StoreM α :=
  StatefulProgram.zoom memories (fun m w => { w with memories := m }) x

end Stores

open Stores

/-- `SessionApplication._ensure_context`: the session's context, created when the scope does not
show one under its id. -/
def ensureContext (rt : StoreRuntime) (session : Session) (scope : Option PrincipalScope) :
    StoreM Unit := do
  if rt.contextRegister.has session.contextId scope (← get).contexts then return ()
  else
    let context : Context := {
      contextId := session.contextId
      ownerId := session.ownerId
      metadata := [("session_id", .str session.sessionId)] }
    let _ ← onContexts (rt.contextRegister.create context scope)

/-! ### The interfaces -/

/-- A record of one of the three stores. -/
inductive Record
  | context (context : Context)
  | session (session : Session)
  | memory (memory : MemoryItem)
  deriving DecidableEq

/-- `AuthorizedChatInterface` and `AuthorizedSessionInterface` of one principal. -/
structure AuthorizedInterface where
  runtime : StoreRuntime
  authorizer : Authorizer
  principal : Principal

namespace AuthorizedInterface

variable (api : AuthorizedInterface)

def scope : Option PrincipalScope := some (PrincipalScope.forPrincipal api.principal)

def owner : Option String := some api.principal.principalId

def require (resource action : String) (resourceId : Option String := none) : StoreM Unit :=
  fun w =>
    match requirePermission api.authorizer api.principal resource action resourceId with
    | .ok () => .ok () w
    | .error e => .error e w

def createContext (context : Context) : StoreM (List Record) := do
  api.require "contexts" "create" context.contextId
  let created ← onContexts
    (api.runtime.contextRegister.create { context with ownerId := api.owner } api.scope)
  return [.context created]

def getContext (contextId : String) : StoreM (List Record) := do
  api.require "contexts" "get" contextId
  let context ← onContexts (Register.reading (api.runtime.contextRegister.get contextId api.scope))
  return [.context context]

def appendContext (contextId : String) (message : Content) (expectedRevision : Option Nat) :
    StoreM (List Record) := do
  api.require "contexts" "append" contextId
  let context ← onContexts (EvernightAI.appendContext api.runtime.contextRegister contextId message
    expectedRevision api.scope)
  return [.context context]

def replaceContext (context : Context) : StoreM (List Record) := do
  api.require "contexts" "replace" context.contextId
  let replaced ← onContexts (api.runtime.contextRegister.replace (fun c => c)
    { context with ownerId := api.owner } api.scope)
  return [.context replaced]

def listContexts (page : Page) : StoreM (List Record) := do
  api.require "contexts" "list"
  let contexts ← onContexts
    (Register.reading (api.runtime.contextRegister.list () page api.scope))
  return contexts.map .context

def deleteContext (contextId : String) : StoreM (List Record) := do
  api.require "contexts" "delete" contextId
  onContexts (Register.writing (api.runtime.contextRegister.unregister contextId api.scope))
  return []

def createMemory (memory : MemoryItem) : StoreM (List Record) := do
  api.require "memories" "create" memory.memoryId
  let created ← onMemories
    (api.runtime.memoryRegister.create { memory with ownerId := api.owner } api.scope)
  return [.memory created]

def getMemory (memoryId : String) : StoreM (List Record) := do
  api.require "memories" "get" memoryId
  let memory ← onMemories (Register.reading (api.runtime.memoryRegister.get memoryId api.scope))
  return [.memory memory]

def replaceMemory (memory : MemoryItem) (now : Instant) : StoreM (List Record) := do
  api.require "memories" "replace" memory.memoryId
  let replaced ← onMemories (api.runtime.memoryRegister.replace (fun m => { m with updatedAt := now })
    { memory with ownerId := api.owner } api.scope)
  return [.memory replaced]

def listMemories (page : Page) (query : Option MemoryQuery) (now : Instant) :
    StoreM (List Record) := do
  api.require "memories" "list"
  let memories ← onMemories
    (Register.reading (api.runtime.memoryRegister.list { query, now } page api.scope))
  return memories.map .memory

def deleteMemory (memoryId : String) : StoreM (List Record) := do
  api.require "memories" "delete" memoryId
  onMemories (Register.writing (api.runtime.memoryRegister.unregister memoryId api.scope))
  return []

def selectMemories (query : Option MemoryQuery) (now : Instant) : StoreM (List Record) := do
  api.require "memories" "select"
  let memories ← onMemories
    (Register.reading (api.runtime.memoryRegister.list { now } {} api.scope))
  return (api.runtime.memoryStrategy.select now memories query).map .memory

def createSession (session : Session) : StoreM (List Record) := do
  api.require "sessions" "create" session.sessionId
  let session := { session with ownerId := api.owner }
  ensureContext api.runtime session api.scope
  let created ← onSessions (api.runtime.sessionRegister.create session api.scope)
  return [.session created]

def getSession (sessionId : String) : StoreM (List Record) := do
  api.require "sessions" "get" sessionId
  let session ← onSessions (Register.reading (api.runtime.sessionRegister.get sessionId api.scope))
  return [.session session]

def replaceSession (session : Session) (now : Instant) : StoreM (List Record) := do
  api.require "sessions" "replace" session.sessionId
  let session := { session with ownerId := api.owner }
  let _ ← onSessions
    (Register.reading (api.runtime.sessionRegister.get session.sessionId api.scope))
  ensureContext api.runtime session api.scope
  let replaced ← onSessions (api.runtime.sessionRegister.replace
    (fun s => { s with updatedAt := now }) session api.scope)
  return [.session replaced]

def archiveSession (sessionId : String) (now : Instant) : StoreM (List Record) := do
  api.require "sessions" "archive" sessionId
  let session ← onSessions
    (EvernightAI.archiveSession api.runtime.sessionRegister sessionId now api.scope)
  return [.session session]

def listSessions (page : Page) (filter : SessionFilter) : StoreM (List Record) := do
  api.require "sessions" "list"
  let sessions ← onSessions
    (Register.reading (api.runtime.sessionRegister.list filter page api.scope))
  return sessions.map .session

def deleteSession (sessionId : String) : StoreM (List Record) := do
  api.require "sessions" "delete" sessionId
  onSessions (Register.writing (api.runtime.sessionRegister.unregister sessionId api.scope))
  return []

end AuthorizedInterface

/-- What a principal asks for, with the reading of the clock the request is answered at. -/
inductive Operation
  | createContext (context : Context)
  | getContext (contextId : String)
  | appendContext (contextId : String) (message : Content) (expectedRevision : Option Nat)
  | replaceContext (context : Context)
  | listContexts (page : Page)
  | deleteContext (contextId : String)
  | createMemory (memory : MemoryItem)
  | getMemory (memoryId : String)
  | replaceMemory (memory : MemoryItem) (now : Instant)
  | listMemories (page : Page) (query : Option MemoryQuery) (now : Instant)
  | deleteMemory (memoryId : String)
  | selectMemories (query : Option MemoryQuery) (now : Instant)
  | createSession (session : Session)
  | getSession (sessionId : String)
  | replaceSession (session : Session) (now : Instant)
  | archiveSession (sessionId : String) (now : Instant)
  | listSessions (page : Page) (filter : SessionFilter)
  | deleteSession (sessionId : String)

/-- One request of the principal: the records returned to it. -/
def AuthorizedInterface.perform (api : AuthorizedInterface) : Operation → StoreM (List Record)
  | .createContext context => api.createContext context
  | .getContext contextId => api.getContext contextId
  | .appendContext contextId message expected => api.appendContext contextId message expected
  | .replaceContext context => api.replaceContext context
  | .listContexts page => api.listContexts page
  | .deleteContext contextId => api.deleteContext contextId
  | .createMemory memory => api.createMemory memory
  | .getMemory memoryId => api.getMemory memoryId
  | .replaceMemory memory now => api.replaceMemory memory now
  | .listMemories page query now => api.listMemories page query now
  | .deleteMemory memoryId => api.deleteMemory memoryId
  | .selectMemories query now => api.selectMemories query now
  | .createSession session => api.createSession session
  | .getSession sessionId => api.getSession sessionId
  | .replaceSession session now => api.replaceSession session now
  | .archiveSession sessionId now => api.archiveSession sessionId now
  | .listSessions page filter => api.listSessions page filter
  | .deleteSession sessionId => api.deleteSession sessionId

end EvernightAI
