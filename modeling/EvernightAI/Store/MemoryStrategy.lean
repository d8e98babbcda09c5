import EvernightAI.Schema.Resource
import Mathlib.Data.List.Sort
import Mathlib.Algebra.Order.Ring.Rat

/-!
# Memory selection

`BasicMemoryStrategy.select` filters the memories a query asks for, orders them by the rank of
their scope, the query's sort key and their id, drops duplicates and cuts the list at the query's
limit. What the registers rely on is `basicMemoryStrategy_subset`: a selection never contains a
memory it was not given.
-/

namespace EvernightAI

section Selection

variable (u : UnicodeTables) (now : Instant)

/-- `_matches_scope` -/
def matchesScope (memory : MemoryItem) (query : MemoryQuery) : Bool :=
  if query.scopes ≠ [] then
    query.scopes.any fun selector =>
      memory.scope = selector.scope && memory.scopeId = selector.scopeId
  else if query.scope ≠ none ∧ query.scope ≠ some memory.scope then false
  else if query.scopeId ≠ none ∧ query.scopeId ≠ memory.scopeId then false
  else true

/-- `_scope_rank`: the index of the first selector the memory falls under. -/
def scopeRank (memory : MemoryItem) (query : MemoryQuery) : Nat :=
  query.scopes.findIdx fun selector =>
    memory.scope = selector.scope && memory.scopeId = selector.scopeId

/-- `re.findall(r"[\w]+", text)` -/
def wordRuns (isWord : Char → Bool) : List Char → List Char → List (List Char)
  | [], [] => []
  | run, [] => [run]
  | run, c :: cs =>
    if isWord c then wordRuns isWord (run ++ [c]) cs
    else if run.isEmpty then wordRuns isWord [] cs
    else run :: wordRuns isWord [] cs

/-- `_lexical_tokens` -/
def lexicalTokens (text : String) : List (List Char) :=
  wordRuns u.isWord [] (u.casefold text).toList

/-- `_searchable_text` -/
def searchableText (memory : MemoryItem) : List Char :=
  (u.casefold (" ".intercalate
    ([memory.content, memory.kind.value, memory.scope.value] ++ memory.tags))).toList

/-- `_lexical_match` -/
def lexicalMatch (memory : MemoryItem) (text : String) : Bool :=
  (lexicalTokens u text).all fun token => isSubstring token (searchableText u memory)

/-- `_filter_reasons`: why the query does not want a memory. -/
def filterReasons (memory : MemoryItem) (query : MemoryQuery) : List String :=
  (if !query.includeDisabled && !memory.isEnabled then ["disabled"] else []) ++
  (if matchesScope memory query then [] else ["scope"]) ++
  (if query.kinds ≠ [] ∧ memory.kind ∉ query.kinds then ["kind"] else []) ++
  (if query.tags.all (memory.tags.contains ·) then [] else ["tags"]) ++
  (if !query.includeExpired && memory.expiresAt.any (· ≤ now) then ["expired"] else []) ++
  (if query.minimumRelevance.any (memory.relevance < ·) then ["minimum_relevance"] else []) ++
  (if query.minimumConfidence.any (memory.confidence < ·) then ["minimum_confidence"] else []) ++
  (if query.text.all (lexicalMatch u memory) then [] else ["text"])

/-- `_sort_key` without its last component, the memory's id. -/
def sortKey (memory : MemoryItem) (query : MemoryQuery) : List Rat :=
  let rank : Rat := scopeRank memory query
  match query.sort with
  | .default | .priority => [rank, -memory.priority, -memory.relevance, -memory.confidence]
  | .relevance => [rank, -memory.relevance, -memory.priority, -memory.confidence]
  | .confidence => [rank, -memory.confidence, -memory.priority, -memory.relevance]
  | .updatedAt => [rank, -memory.updatedAt]
  | .createdAt => [rank, -memory.createdAt]
  | .memoryId => [rank]

/-- Comparison of key tuples of one length, the id last. -/
def keyLe : List Rat → List Rat → String → String → Bool
  | x :: xs, y :: ys, i, j => x < y || (x = y && keyLe xs ys i j)
  | _, _, i, j => i ≤ j

/-- `_deduplication_key` -/
def deduplicationKey (memory : MemoryItem) (query : MemoryQuery) :
    String × MemoryKind × Option (MemoryScope × Option String) × Option String :=
  (u.casefold (u.strip memory.content), memory.kind,
    if query.scopes ≠ [] then none else some (memory.scope, memory.scopeId), memory.ownerId)

/-- The memories kept by the `deduplicate` loop, `seen` being the keys already kept. -/
def deduplicated (query : MemoryQuery)
    (seen : List (String × MemoryKind × Option (MemoryScope × Option String) × Option String)) :
    List MemoryItem → List MemoryItem
  | [] => []
  | memory :: rest =>
    let key := deduplicationKey u memory query
    if key ∈ seen then deduplicated query seen rest
    else memory :: deduplicated query (key :: seen) rest

/-- The memories that the `deduplicate` loop drops. -/
def duplicates (query : MemoryQuery)
    (seen : List (String × MemoryKind × Option (MemoryScope × Option String) × Option String)) :
    List MemoryItem → List MemoryItem
  | [] => []
  | memory :: rest =>
    if deduplicationKey u memory query ∈ seen then memory :: duplicates query seen rest
    else duplicates query (deduplicationKey u memory query :: seen) rest

/-- The memories of `BasicMemoryStrategy.select`. -/
def basicSelect (memories : List MemoryItem) (query : Option MemoryQuery) : List MemoryItem :=
  let query := query.getD {}
  let matching := memories.filter fun memory => filterReasons u now memory query = []
  let sorted := matching.insertionSort fun a b =>
    keyLe (sortKey a query) (sortKey b query) a.memoryId b.memoryId
  let kept := if query.deduplicate then deduplicated u query [] sorted else sorted
  match query.limit with
  | some limit => kept.take limit
  | none => kept

theorem deduplicated_subset (query : MemoryQuery)
    (seen : List (String × MemoryKind × Option (MemoryScope × Option String) × Option String))
    (memories : List MemoryItem) : deduplicated u query seen memories ⊆ memories := by
  induction memories generalizing seen with
  | nil => exact List.Subset.refl _
  | cons memory rest ih =>
    simp only [deduplicated]
    split
    · exact List.Subset.trans (ih seen) (List.subset_cons_self _ _)
    · exact List.cons_subset_cons _ (ih _)

/-- A selection contains only memories it was given. -/
theorem basicSelect_subset (memories : List MemoryItem) (query : Option MemoryQuery) :
    basicSelect u now memories query ⊆ memories := by
  intro memory h
  have hmatching : ∀ {r : MemoryItem → MemoryItem → Prop} [DecidableRel r] {p : MemoryItem → Bool},
      memory ∈ (memories.filter p).insertionSort r → memory ∈ memories := fun h =>
    List.mem_of_mem_filter ((List.mem_insertionSort _).mp h)
  have hkept : ∀ {r : MemoryItem → MemoryItem → Prop} [DecidableRel r] {p : MemoryItem → Bool}
      {query : MemoryQuery},
      memory ∈ (if query.deduplicate then
        deduplicated u query [] ((memories.filter p).insertionSort r)
        else (memories.filter p).insertionSort r) → memory ∈ memories := by
    intro r _ p query h
    split at h
    · exact hmatching (deduplicated_subset u _ _ _ h)
    · exact hmatching h
  simp only [basicSelect] at h
  split at h
  · exact hkept (List.mem_of_mem_take h)
  · exact hkept h

end Selection

/-- A memory strategy: it selects among the memories it is given. -/
structure MemoryStrategy where
  select : Instant → List MemoryItem → Option MemoryQuery → List MemoryItem
  subset : ∀ now memories query, select now memories query ⊆ memories

/-- `BasicMemoryStrategy` -/
def basicMemoryStrategy (u : UnicodeTables) : MemoryStrategy where
  select := basicSelect u
  subset := basicSelect_subset u

/-- `DisabledMemoryStrategy` -/
def disabledMemoryStrategy : MemoryStrategy where
  select _ _ _ := []
  subset _ _ _ := List.nil_subset _

end EvernightAI
