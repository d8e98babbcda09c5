import EvernightAI.Lib.Table
import EvernightAI.Schema.Auth
import EvernightAI.Store.MemoryStrategy

/-!
# The registers of contexts, sessions and memories

Each kind of record has two registers, one over SQLite and one over a dictionary. Both keep a
`Table` with the record's id as its key; the SQLite rows are the records as they were dumped, and
their columns (`owner_id`, `revision`, `status`, …) are fields of the dumped record, because every
statement that writes a row writes the columns from the same record as the payload. Reading a row
back runs the schema's validators again (`Resource.load`).

The three SQLite registers share one text up to the names of the table and the error, and so do
the three dictionary registers; each is one family here, with its members below it.

`Register.Scoped` is what the layers above use: every read is of a stored row the scope permits,
and a write checks **the record being written**.
-/

namespace EvernightAI

/-- A kind of record that has an id and an owner. -/
class Resource (ρ : Type) where
  noun : String
  notFoundError : ErrorType
  key : ρ → String
  ownerId : ρ → Option String
  /-- `model_validate_json` of the record's own dump. -/
  load : UnicodeTables → ρ → Except Error ρ

instance : Resource Context where
  noun := "context"
  notFoundError := .contextNotFoundError
  key := Context.contextId
  ownerId := Context.ownerId
  load _ context := .ok context

instance : Resource Session where
  noun := "session"
  notFoundError := .sessionNotFoundError
  key := Session.sessionId
  ownerId := Session.ownerId
  load _ session := .ok session

instance : Resource MemoryItem where
  noun := "memory"
  notFoundError := .memoryNotFoundError
  key := MemoryItem.memoryId
  ownerId := MemoryItem.ownerId
  load := MemoryItem.validate

/-- The records of one kind, at most one under each id. -/
abbrev Store (ρ : Type) [Resource ρ] := Table (@Resource.key ρ _)

/-- The part of a listing that every register understands. -/
structure Page where
  cursor : Option String := none
  limit : Option Int := none
  ownerId : Option String := none
  deriving DecidableEq, Repr

/-- A register: the operations of the `…RegisterProtocol` classes. A write that raises leaves the
store as it was. -/
structure Register (ρ : Type) [Resource ρ] (Filter : Type) where
  register : ρ → Option PrincipalScope → Store ρ → Except Error (Store ρ)
  unregister : String → Option PrincipalScope → Store ρ → Except Error (Store ρ)
  get : String → Option PrincipalScope → Store ρ → Except Error ρ
  has : String → Option PrincipalScope → Store ρ → Bool
  list : Filter → Page → Option PrincipalScope → Store ρ → Except Error (List ρ)

section Family

variable {ρ : Type} [Resource ρ]

open Resource

private def notFound (ρ : Type) [Resource ρ] (recordId what : String) : Error where
  errorType := notFoundError ρ
  message := "The " ++ noun ρ ++ " " ++ recordId ++ " is not " ++ what

/-- `_require_scope`: the check on the record that is about to be written. -/
def requireScope (record : ρ) (scope : Option PrincipalScope) : Except Error Unit :=
  if scopePermits scope (ownerId record) then .ok ()
  else .error (notFound ρ (key record) "available in this scope")

/-- Checked `INSERT … ON CONFLICT DO UPDATE`, and checked dictionary assignment. -/
def registerRecord (record : ρ) (scope : Option PrincipalScope) (store : Store ρ) :
    Except Error (Store ρ) :=
  match requireScope record scope with
  | .ok () => .ok (store.upsert record)
  | .error e => .error e

/-- The owner a listing is restricted to; `none` when it asks for an owner outside its scope. -/
def listedOwner (scope : Option PrincipalScope) (requested : Option String) :
    Option (Option String) :=
  match scope.bind (·.ownerId) with
  | none => some requested
  | some owner => if requested ≠ none ∧ requested ≠ some owner then none else some (some owner)

/-- `ORDER BY id` -/
def sortById (records : List ρ) : List ρ := records.insertionSort fun a b => key a ≤ key b

/-! ### Over SQLite -/

/-- `_scoped_identity`: the `WHERE` clause that selects one record. -/
def scopedIdentity (recordId : String) (scope : Option PrincipalScope) (record : ρ) : Bool :=
  match scope.bind (·.ownerId) with
  | none => key record = recordId
  | some owner => key record = recordId && ownerId record = some owner

/-- `LIMIT ?`, which a negative number does not restrict. -/
def sqlLimit (limit : Option Int) (records : List ρ) : List ρ :=
  match limit with
  | none => records
  | some n => if n < 0 then records else records.take n.toNat

def sqliteUnregister (recordId : String) (scope : Option PrincipalScope) (store : Store ρ) :
    Except Error (Store ρ) :=
  if (store.select (scopedIdentity recordId scope)).isEmpty then
    .error (notFound ρ recordId "registered")
  else .ok (store.deleteWhere (scopedIdentity recordId scope))

def sqliteGet (u : UnicodeTables) (recordId : String) (scope : Option PrincipalScope)
    (store : Store ρ) : Except Error ρ :=
  match (store.select (scopedIdentity recordId scope)).head? with
  | none => .error (notFound ρ recordId "found")
  | some row => load u row

def sqliteHas (recordId : String) (scope : Option PrincipalScope) (store : Store ρ) : Bool :=
  !(store.select (scopedIdentity recordId scope)).isEmpty

/-- The rows of a `list_…` statement, `clause` being its filters besides cursor and owner. -/
def sqliteRows (clause : ρ → Bool) (page : Page) (scope : Option PrincipalScope)
    (store : Store ρ) : List ρ :=
  match listedOwner scope page.ownerId with
  | none => []
  | some owner =>
    sqlLimit page.limit (sortById (store.select fun record =>
      page.cursor.all (· < key record) && owner.all (some · = ownerId record) && clause record))

/-! ### In memory -/

def dictHas (recordId : String) (scope : Option PrincipalScope) (store : Store ρ) : Bool :=
  match store.find? recordId with
  | none => false
  | some record => scopePermits scope (ownerId record)

def dictUnregister (recordId : String) (scope : Option PrincipalScope) (store : Store ρ) :
    Except Error (Store ρ) :=
  if dictHas recordId scope store then
    .ok (store.deleteWhere fun record => key record = recordId)
  else .error (notFound ρ recordId "registered")

def dictGet (recordId : String) (scope : Option PrincipalScope) (store : Store ρ) :
    Except Error ρ :=
  if dictHas recordId scope store then
    match store.find? recordId with
    | some record => .ok record
    | none => .error (notFound ρ recordId "found")
  else .error (notFound ρ recordId "found")

/-- `records[:limit]`, where a negative limit counts from the end. -/
def pySlice (limit : Option Int) (records : List ρ) : List ρ :=
  match limit with
  | none => records
  | some n => if n < 0 then records.take (records.length - n.natAbs) else records.take n.toNat

/-- The records a `list_…` method goes through before its last slice. -/
def dictRows (keep : List ρ → List ρ) (page : Page) (scope : Option PrincipalScope)
    (store : Store ρ) : List ρ :=
  let records := (sortById store.rows).filter fun record => page.cursor.all (· < key record)
  match listedOwner scope page.ownerId with
  | none => []
  | some owner =>
    pySlice page.limit (keep (records.filter fun record => owner.all (some · = ownerId record)))

end Family

/-! ### The members -/

/-- The filters of `list_sessions`. -/
structure SessionFilter where
  status : Option SessionStatus := none
  providerId : Option String := none
  modelId : Option String := none
  deriving DecidableEq, Repr

def SessionFilter.keeps (filter : SessionFilter) (session : Session) : Bool :=
  filter.status.all (· = session.status) &&
  filter.providerId.all (some · = session.providerId) &&
  filter.modelId.all (some · = session.modelId)

/-- The query of `list_memories`, and the time at which it is answered. -/
structure MemoryFilter where
  query : Option MemoryQuery := none
  now : Instant
  deriving DecidableEq, Repr

/-- The part of a memory query that `list_memories` puts into its `WHERE` clause. -/
def MemoryQuery.sqlClause (query : MemoryQuery) (memory : MemoryItem) : Bool :=
  query.scope.all (· = memory.scope) &&
  query.scopeId.all (some · = memory.scopeId) &&
  (query.kinds.isEmpty || query.kinds.contains memory.kind) &&
  query.minimumRelevance.all (· ≤ memory.relevance) &&
  query.minimumConfidence.all (· ≤ memory.confidence)

/-- A context register, which also appends single messages. -/
structure ContextRegister extends Register Context Unit where
  appendMessage : String → Content → Option Nat → Option PrincipalScope → Store Context →
    Except Error (Context × Store Context)

private def revisionError (contextId : String) (revision expected : Nat) : Error where
  errorType := .contextStateError
  message := "The context " ++ contextId ++ " revision is " ++ toString revision ++
    ", expected " ++ toString expected

/-- The context with one more message, at the next revision. -/
def Context.withMessage (context : Context) (message : Content) : Context :=
  { context with messages := context.messages ++ [message], revision := context.revision + 1 }

/-- `SQLiteContextRegister` -/
def sqliteContextRegister (u : UnicodeTables) : ContextRegister where
  register := registerRecord
  unregister := sqliteUnregister
  get := sqliteGet u
  has := sqliteHas
  list _ page scope store := (sqliteRows (fun _ => true) page scope store).mapM (Resource.load u)
  appendMessage contextId message expectedRevision scope store :=
    match (store.select (scopedIdentity contextId scope)).head? with
    | none => .error {
        errorType := .contextNotFoundError
        message := "The context " ++ contextId ++ " is not found" }
    | some row =>
      match expectedRevision.filter (· ≠ row.revision) with
      | some expected => .error (revisionError contextId row.revision expected)
      | none => .ok (row.withMessage message, store.upsert (row.withMessage message))

/-- `ContextRegister`, whose `append_message` is the protocol's default. -/
def dictContextRegister : ContextRegister where
  register := registerRecord
  unregister := dictUnregister
  get := dictGet
  has := dictHas
  list _ page scope store := .ok (dictRows (fun records => records) page scope store)
  appendMessage contextId message expectedRevision scope store :=
    match dictGet contextId scope store with
    | .error e => .error e
    | .ok context =>
      match expectedRevision.filter (· ≠ context.revision) with
      | some expected => .error (revisionError contextId context.revision expected)
      | none =>
        match registerRecord (context.withMessage message) scope store with
        | .error e => .error e
        | .ok store => .ok (context.withMessage message, store)

/-- `SQLiteSessionRegister` -/
def sqliteSessionRegister (u : UnicodeTables) : Register Session SessionFilter where
  register := registerRecord
  unregister := sqliteUnregister
  get := sqliteGet u
  has := sqliteHas
  list filter page scope store := (sqliteRows filter.keeps page scope store).mapM (Resource.load u)

/-- `SessionRegister` -/
def dictSessionRegister : Register Session SessionFilter where
  register := registerRecord
  unregister := dictUnregister
  get := dictGet
  has := dictHas
  list filter page scope store := .ok (dictRows (·.filter filter.keeps) page scope store)

/-- `SQLiteMemoryRegister`. With a query the statement has no `LIMIT`; the selection is sliced. -/
def sqliteMemoryRegister (u : UnicodeTables) : Register MemoryItem MemoryFilter where
  register := registerRecord
  unregister := sqliteUnregister
  get := sqliteGet u
  has := sqliteHas
  list filter page scope store :=
    match filter.query with
    | none => (sqliteRows (fun _ => true) page scope store).mapM (Resource.load u)
    | some query =>
      match (sqliteRows query.sqlClause { page with limit := none } scope store).mapM
          (Resource.load u) with
      | .error e => .error e
      | .ok memories => .ok (pySlice page.limit (basicSelect u filter.now memories query))

/-- `MemoryRegister` -/
def dictMemoryRegister (u : UnicodeTables) : Register MemoryItem MemoryFilter where
  register := registerRecord
  unregister := dictUnregister
  get := dictGet
  has := dictHas
  list filter page scope store :=
    .ok (dictRows (fun records =>
      match filter.query with
      | none => records
      | some query => basicSelect u filter.now records query) page scope store)

end EvernightAI
