import EvernightAI.Schema.Content

/-!
# Contexts, sessions and memories

The three kinds of record a tenant owns. Times are microseconds since the epoch, in UTC; the
numbers a memory is ranked by are exact rationals.
-/

namespace EvernightAI

/-- A point in time, in microseconds. -/
abbrev Instant := Int

structure Context where
  contextId : String
  ownerId : Option String := none
  revision : Nat := 0
  messages : List Content := []
  metadata : Dict := []
  deriving DecidableEq, Repr

inductive SessionStatus
  | active | archived
  deriving DecidableEq, Repr

structure Session where
  sessionId : String
  ownerId : Option String := none
  title : Option String := none
  contextId : String
  providerId : Option String := none
  modelId : Option String := none
  status : SessionStatus := .active
  createdAt : Instant
  updatedAt : Instant
  metadata : Dict := []
  deriving DecidableEq, Repr

inductive MemoryKind
  | fact | preference | summary | definition | instruction | episodic
  deriving DecidableEq, Repr

inductive MemoryScope
  | global | user | session | context
  deriving DecidableEq, Repr

inductive MemorySort
  | default | priority | relevance | confidence | updatedAt | createdAt | memoryId
  deriving DecidableEq, Repr

def MemoryKind.value : MemoryKind → String
  | .fact => "fact"
  | .preference => "preference"
  | .summary => "summary"
  | .definition => "definition"
  | .instruction => "instruction"
  | .episodic => "episodic"

def MemoryScope.value : MemoryScope → String
  | .global => "global"
  | .user => "user"
  | .session => "session"
  | .context => "context"

structure MemoryScopeSelector where
  scope : MemoryScope
  scopeId : Option String := none
  deriving DecidableEq, Repr

/-- The entry `provenance` of a memory's metadata. An event is kept by its serialised text. -/
inductive Provenance
  /-- a dictionary with a list under `events` -/
  | events (events : List String) (others : Dict)
  /-- any other dictionary, which is one event itself -/
  | record (event : String)
  /-- not a dictionary -/
  | other (value : Value)
  deriving DecidableEq, Repr

structure MemoryItem where
  memoryId : String
  ownerId : Option String := none
  content : String
  kind : MemoryKind := .fact
  scope : MemoryScope := .global
  scopeId : Option String := none
  tags : List String := []
  priority : Int := 0
  relevance : Rat := 0
  confidence : Rat := 1
  isEnabled : Bool := true
  expiresAt : Option Instant := none
  createdAt : Instant
  updatedAt : Instant
  metadata : Dict := []
  /-- `metadata["provenance"]`, kept apart from the other entries -/
  provenance : Option Provenance := none
  deriving DecidableEq, Repr

structure MemoryQuery where
  text : Option String := none
  scope : Option MemoryScope := none
  scopeId : Option String := none
  scopes : List MemoryScopeSelector := []
  kinds : List MemoryKind := []
  tags : List String := []
  minimumRelevance : Option Rat := none
  minimumConfidence : Option Rat := none
  includeDisabled : Bool := false
  includeExpired : Bool := false
  deduplicate : Bool := false
  sort : MemorySort := .default
  limit : Option Nat := none
  deriving DecidableEq, Repr

namespace MemoryItem

variable (u : UnicodeTables)

/-- `_normalize_optional_identity`: a blank identity is no identity. -/
def normalizeOptionalIdentity (value : Option String) : Option String :=
  value.bind fun v => if u.strip v = "" then none else some (u.strip v)

/-- `_normalize_tags`: folded, without blanks and repetitions, in order of first appearance. -/
def normalizeTags (value : List String) : List String :=
  value.foldl (fun normalized tag =>
    let next := u.casefold (u.strip tag)
    if next = "" ∨ next ∈ normalized then normalized else normalized ++ [next]) []

/-- The validators of `MemoryItem`, run on every stored payload that is read back. -/
def validate (m : MemoryItem) : Except Error MemoryItem :=
  let content := u.strip m.content
  let scopeId := normalizeOptionalIdentity u m.scopeId
  if content = "" then
    .error { errorType := .validationError, message := "memory content must not be empty" }
  else if m.scope = .global ∧ scopeId ≠ none then
    .error { errorType := .validationError, message := "global memory must not have a scope_id" }
  else if m.scope ≠ .global ∧ scopeId = none then
    .error { errorType := .validationError, message := "non-global memory must have a scope_id" }
  else if m.updatedAt < m.createdAt then
    .error {
      errorType := .validationError
      message := "memory updated_at must not be before created_at" }
  else .ok { m with
    content, scopeId
    ownerId := normalizeOptionalIdentity u m.ownerId
    tags := normalizeTags u m.tags }

end MemoryItem

end EvernightAI
