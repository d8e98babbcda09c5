import EvernightAI.Store.Authorized
import EvernightAI.Store.MemoryListing
import EvernightAI.Store.MemorySelection

/-!
# Governed memory writes

`write_memory_candidate` looks for the memory that holds the candidate's key and creates, replaces
or merges. SQLite reads a record back through the validators after it was stored, so a write can
store its memory and raise all the same; it is a step from a store to an answer and a store.

* `writeMemoryCandidate_cases` says what one write leaves in the store.
* `Governed` is what a store owes to the writes that reached it, `Governed.write` its step, and
  `writeMemoryCandidates_governed` the run.
-/

namespace EvernightAI

open StatefulProgram

/-! ### The write -/

/-- `MemoryWriteOperation` -/
inductive MemoryWriteOperation
  | create | replace | merge
  deriving DecidableEq, Repr

def MemoryWriteOperation.value : MemoryWriteOperation → String
  | .create => "create"
  | .replace => "replace"
  | .merge => "merge"

/-- The store a runtime keeps its memories in. -/
inductive MemoryBackend
  | sqlite | inMemory
  deriving DecidableEq, Repr

def MemoryBackend.register (u : UnicodeTables) :
    MemoryBackend → Register MemoryItem MemoryFilter
  | .sqlite => sqliteMemoryRegister u
  | .inMemory => dictMemoryRegister u

/-- A call of `write_memory_candidate`, and what the clock says when it lists and replaces. -/
structure CandidateWrite where
  candidate : MemoryItem
  scope : Option PrincipalScope := none
  listedAt : Instant
  replacedAt : Instant
  deriving DecidableEq, Repr

namespace MemoryItem

/-- `metadata.get("memory_key")`, if it is a text and not empty. -/
def memoryKey (memory : MemoryItem) : Option String :=
  match memory.metadata.get "memory_key" with
  | some (.str key) => if key = "" then none else some key
  | _ => none

/-- The events of a provenance, as `_merge_provenance` reads them. -/
def events (memory : MemoryItem) : List String :=
  match memory.provenance with
  | some (.events events _) => events
  | some (.record event) => [event]
  | some (.other _) => []
  | none => []

end MemoryItem

/-- `_with_write_operation` -/
def withWriteOperation (memory : MemoryItem) (operation : MemoryWriteOperation) : Dict :=
  memory.metadata.set "write_operation" (.str operation.value)

/-- `_merge_provenance` -/
def mergeProvenance (existing candidate : MemoryItem) : Provenance :=
  .events (existing.events ++ candidate.events) []

/-- `_merged_tags` -/
def mergedTags (left right : List String) : List String :=
  (left ++ right).foldl (fun tags tag => if tag ∈ tags then tags else tags ++ [tag]) []

/-- The metadata that `_merge_memory` adds to that of the existing memory. -/
def mergedMetadata (existing candidate : MemoryItem) (operation : MemoryWriteOperation) : Dict :=
  let metadata := (withWriteOperation candidate operation).set "previous_memory_id"
    (.str existing.memoryId)
  match existing.metadata.get "content_fingerprint" with
  | some (.str fingerprint) => metadata.set "previous_content_fingerprint" (.str fingerprint)
  | _ => metadata

/-- `_merge_memory` -/
def mergeMemory (existing candidate : MemoryItem) (operation : MemoryWriteOperation) :
    MemoryItem :=
  let metadata := existing.metadata.update (mergedMetadata existing candidate operation)
  let provenance := some (mergeProvenance existing candidate)
  if operation = .merge then
    { existing with
      tags := mergedTags existing.tags candidate.tags
      priority := max existing.priority candidate.priority
      relevance := max existing.relevance candidate.relevance
      confidence := max existing.confidence candidate.confidence
      expiresAt := candidate.expiresAt <|> existing.expiresAt
      metadata, provenance }
  else { candidate with memoryId := existing.memoryId, metadata, provenance }

section Write

variable (u : UnicodeTables) (memories : Register MemoryItem MemoryFilter)

/-- The query of `_find_existing_memory`, as its validators leave it. -/
def candidateQuery (candidate : MemoryItem) : MemoryQuery where
  scope := some candidate.scope
  scopeId := MemoryItem.normalizeOptionalIdentity u candidate.scopeId
  kinds := [candidate.kind]
  includeDisabled := true
  includeExpired := true

/-- `_find_existing_memory` -/
def findExistingMemory (w : CandidateWrite) (store : Store MemoryItem) :
    Except Error (Option MemoryItem) :=
  match w.candidate.memoryKey with
  | none => .ok none
  | some key =>
    match memories.list { query := some (candidateQuery u w.candidate), now := w.listedAt } {}
        w.scope store with
    | .error e => .error e
    | .ok listed => .ok (listed.find? fun memory =>
        memory.ownerId = w.candidate.ownerId ∧ memory.metadata.get "memory_key" = some (.str key))

/-- `write_memory_candidate`. `sameValue` is `==` on what `metadata.get` returns. -/
def writeMemoryCandidate (sameValue : Option Value → Option Value → Bool) (w : CandidateWrite) :
    EStateM Error (Store MemoryItem) (MemoryItem × MemoryWriteOperation) := do
  match ← Register.reading (findExistingMemory u memories w) with
  | none =>
    let created := { w.candidate with metadata := withWriteOperation w.candidate .create }
    return (← memories.create created w.scope, .create)
  | some existing =>
    let operation := if sameValue (existing.metadata.get "content_fingerprint")
        (w.candidate.metadata.get "content_fingerprint") then MemoryWriteOperation.merge
      else .replace
    let replacement := mergeMemory existing w.candidate operation
    let stamp := fun memory : MemoryItem => { memory with updatedAt := w.replacedAt }
    return (← memories.replace stamp replacement w.scope, operation)

end Write

/-! ### Dictionaries and tags -/

namespace Dict

theorem get_update (d : Dict) {other : Dict} (hkeys : (other.map (·.1)).Nodup) (key : String) :
    (d.update other).get key = (other.get key).or (d.get key) := by
  induction other generalizing d with
  | nil => simp [update, get]
  | cons kv rest ih =>
    obtain ⟨k, v⟩ := kv
    rw [List.map_cons, List.nodup_cons] at hkeys
    have hupdate : d.update ((k, v) :: rest) = (d.set k v).update rest := rfl
    rw [hupdate, ih _ hkeys.2]
    by_cases hk : key = k
    · subst hk
      have hnone : Dict.get rest key = none := by
        rw [get, List.lookup_eq_none_iff]
        intro p hp
        have hne : p.1 ≠ key := fun h => hkeys.1 (h ▸ List.mem_map_of_mem (f := fun p => p.1) hp)
        simpa using hne.symm
      rw [hnone, get_set_self]
      simp [get]
    · have hne : (key == k) = false := by simpa using hk
      rw [get_set_of_ne _ _ hk]
      simp [get, List.lookup_cons, hne]

theorem map_fst_set (d : Dict) (key : String) (value : Value) :
    (d.set key value).map (·.1) =
      if key ∈ d.map (·.1) then d.map (·.1) else d.map (·.1) ++ [key] := by
  induction d with
  | nil => rfl
  | cons kv rest ih =>
    obtain ⟨k, v⟩ := kv
    by_cases hk : k = key
    · simp [set, hk]
    · have hk' : key ≠ k := fun h => hk h.symm
      simp only [set, hk, if_false, List.map_cons, ih, List.mem_cons, hk', false_or]
      split <;> rfl

theorem nodup_set {d : Dict} (h : (d.map (·.1)).Nodup) (key : String) (value : Value) :
    ((d.set key value).map (·.1)).Nodup := by
  rw [map_fst_set]
  split_ifs with hmem
  · exact h
  · refine List.nodup_append.mpr ⟨h, List.nodup_singleton _, fun a ha b hb hab => hmem ?_⟩
    rwa [← List.mem_singleton.mp hb, ← hab]

end Dict

section Tags

/-- The loop over the tags keeps what it has and adds what is new. -/
theorem foldl_mergedTags (seen tags : List String) (hseen : seen.Nodup) :
    (tags.foldl (fun seen tag => if tag ∈ seen then seen else seen ++ [tag]) seen).Nodup ∧
      ∀ tag, tag ∈ tags.foldl (fun seen tag => if tag ∈ seen then seen else seen ++ [tag]) seen ↔
        tag ∈ seen ∨ tag ∈ tags := by
  induction tags generalizing seen with
  | nil => simp [hseen]
  | cons tag tags ih =>
    rw [List.foldl_cons]
    by_cases hmem : tag ∈ seen
    · rw [if_pos hmem]
      refine ⟨(ih seen hseen).1, fun tag' => ?_⟩
      rw [(ih seen hseen).2, List.mem_cons]
      constructor
      · rintro (h | h)
        · exact Or.inl h
        · exact Or.inr (Or.inr h)
      · rintro (h | rfl | h)
        · exact Or.inl h
        · exact Or.inl hmem
        · exact Or.inr h
    · rw [if_neg hmem]
      have hnodup : (seen ++ [tag]).Nodup := by
        refine List.nodup_append.mpr ⟨hseen, List.nodup_singleton _, fun a ha b hb hab => hmem ?_⟩
        rwa [← List.mem_singleton.mp hb, ← hab]
      refine ⟨(ih _ hnodup).1, fun tag' => ?_⟩
      rw [(ih _ hnodup).2, List.mem_append, List.mem_singleton, List.mem_cons, or_assoc]

theorem nodup_mergedTags (left right : List String) : (mergedTags left right).Nodup :=
  (foldl_mergedTags [] _ List.nodup_nil).1

theorem mem_mergedTags {left right : List String} {tag : String} :
    tag ∈ mergedTags left right ↔ tag ∈ left ∨ tag ∈ right := by
  rw [mergedTags, (foldl_mergedTags [] _ List.nodup_nil).2, List.mem_append]
  simp

variable {u : UnicodeTables}

/-- The validator's loop over the tags. -/
private def foldTags (u : UnicodeTables) (seen tags : List String) : List String :=
  tags.foldl (fun normalized tag =>
    let next := u.casefold (u.strip tag)
    if next = "" ∨ next ∈ normalized then normalized else normalized ++ [next]) seen

private theorem exists_foldTags (seen tags : List String) :
    ∃ added, foldTags u seen tags = seen ++ added ∧ added.length ≤ tags.length := by
  induction tags generalizing seen with
  | nil => exact ⟨[], by simp [foldTags], le_refl _⟩
  | cons tag tags ih =>
    rw [foldTags, List.foldl_cons]
    dsimp only
    split_ifs with h
    · obtain ⟨added, hadded, hlength⟩ := ih seen
      exact ⟨added, hadded, by rw [List.length_cons]; omega⟩
    · obtain ⟨added, hadded, hlength⟩ := ih (seen ++ [u.casefold (u.strip tag)])
      refine ⟨u.casefold (u.strip tag) :: added, ?_, by simpa using hlength⟩
      rw [foldTags] at hadded
      rw [hadded, List.append_assoc, List.singleton_append]

private theorem foldTags_eq_iff (seen tags : List String) :
    foldTags u seen tags = seen ++ tags ↔
      tags.Nodup ∧ ∀ tag ∈ tags, (u.casefold (u.strip tag) = tag ∧ tag ≠ "") ∧ tag ∉ seen := by
  induction tags generalizing seen with
  | nil => simp [foldTags]
  | cons tag tags ih =>
    have hfold : foldTags u seen (tag :: tags) = foldTags u
        (if u.casefold (u.strip tag) = "" ∨ u.casefold (u.strip tag) ∈ seen then seen
          else seen ++ [u.casefold (u.strip tag)]) tags := rfl
    rw [hfold]
    split_ifs with h
    · -- a dropped tag leaves the result too short
      obtain ⟨added, hadded, hlength⟩ := exists_foldTags (u := u) seen tags
      constructor
      · intro heq
        rw [hadded, List.append_cancel_left_eq] at heq
        rw [heq, List.length_cons] at hlength
        omega
      · rintro ⟨-, hall⟩
        obtain ⟨⟨hsame, hne⟩, hnew⟩ := hall tag List.mem_cons_self
        rw [hsame] at h
        exact absurd h (not_or.mpr ⟨hne, hnew⟩)
    · by_cases hsame : u.casefold (u.strip tag) = tag
      · rw [hsame] at h ⊢
        have hrest := ih (seen ++ [tag])
        rw [List.append_assoc, List.singleton_append] at hrest
        rw [hrest, List.nodup_cons, List.forall_mem_cons, hsame]
        simp only [List.mem_append, List.mem_singleton, not_or]
        constructor
        · rintro ⟨hnodup, hall⟩
          exact ⟨⟨fun hmem => (hall tag hmem).2.2 rfl, hnodup⟩, ⟨⟨trivial, (not_or.mp h).1⟩,
            (not_or.mp h).2⟩, fun t ht => ⟨(hall t ht).1, (hall t ht).2.1⟩⟩
        · rintro ⟨⟨hnot, hnodup⟩, -, hall⟩
          exact ⟨hnodup, fun t ht => ⟨(hall t ht).1, (hall t ht).2, fun heq => hnot (heq ▸ ht)⟩⟩
      · constructor
        · intro heq
          obtain ⟨added, hadded, -⟩ := exists_foldTags (u := u)
            (seen ++ [u.casefold (u.strip tag)]) tags
          rw [hadded, List.append_assoc, List.append_cancel_left_eq, List.singleton_append] at heq
          exact absurd (List.cons.inj heq).1 hsame
        · rintro ⟨-, hall⟩
          exact absurd (hall tag List.mem_cons_self).1.1 hsame

/-- Tags that the validator leaves alone: folded, not blank, and each once. -/
theorem normalizeTags_eq_self_iff {tags : List String} :
    MemoryItem.normalizeTags u tags = tags ↔
      tags.Nodup ∧ ∀ tag ∈ tags, u.casefold (u.strip tag) = tag ∧ tag ≠ "" := by
  have h := foldTags_eq_iff (u := u) [] tags
  rw [List.nil_append] at h
  rw [show MemoryItem.normalizeTags u tags = foldTags u [] tags from rfl, h]
  simp

end Tags

/-! ### Memories as the validators leave them -/

/-- The validators change nothing, unless they refuse the two times. A memory is never stored
otherwise: a merge keeps what they left, but gives a new time. -/
structure MemoryItem.Normal (u : UnicodeTables) (memory : MemoryItem) : Prop where
  content : u.strip memory.content = memory.content ∧ memory.content ≠ ""
  ownerId : normalizeOptionalIdentity u memory.ownerId = memory.ownerId
  scopeId : normalizeOptionalIdentity u memory.scopeId = memory.scopeId
  scope : memory.scope = .global ↔ memory.scopeId = none
  tags : normalizeTags u memory.tags = memory.tags

namespace MemoryItem.Normal

variable {u : UnicodeTables} {memory existing candidate : MemoryItem}

theorem validate_eq (h : memory.Normal u) : memory.validate u =
    if memory.updatedAt < memory.createdAt then
      .error {
        errorType := .validationError
        message := "memory updated_at must not be before created_at" }
    else .ok memory := by
  have hglobal : ¬ (memory.scope = .global ∧ memory.scopeId ≠ none) := fun hboth =>
    hboth.2 (h.scope.mp hboth.1)
  have hother : ¬ (memory.scope ≠ .global ∧ memory.scopeId = none) := fun hboth =>
    hboth.1 (h.scope.mpr hboth.2)
  simp only [MemoryItem.validate, h.content.1, h.scopeId, h.ownerId, h.tags]
  rw [if_neg h.content.2, if_neg hglobal, if_neg hother]

/-- What the validators return, they return again. -/
theorem eq_of_validate (h : memory.Normal u) {loaded : MemoryItem}
    (hload : memory.validate u = .ok loaded) : loaded = memory := by
  rw [h.validate_eq] at hload
  split_ifs at hload
  exact (Except.ok.inj hload).symm

theorem mergeMemory (hexisting : existing.Normal u) (hcandidate : candidate.Normal u)
    (operation : MemoryWriteOperation) :
    (EvernightAI.mergeMemory existing candidate operation).Normal u := by
  have htags : MemoryItem.normalizeTags u (mergedTags existing.tags candidate.tags) =
      mergedTags existing.tags candidate.tags := by
    refine normalizeTags_eq_self_iff.mpr ⟨nodup_mergedTags _ _, fun tag hmem => ?_⟩
    obtain hmem | hmem := mem_mergedTags.mp hmem
    · exact (normalizeTags_eq_self_iff.mp hexisting.tags).2 tag hmem
    · exact (normalizeTags_eq_self_iff.mp hcandidate.tags).2 tag hmem
  unfold EvernightAI.mergeMemory
  dsimp only
  split_ifs
  · exact ⟨hexisting.content, hexisting.ownerId, hexisting.scopeId, hexisting.scope, htags⟩
  · exact ⟨hcandidate.content, hcandidate.ownerId, hcandidate.scopeId, hcandidate.scope,
      hcandidate.tags⟩

end MemoryItem.Normal

/-! ### What the lookup finds -/

/-- Whose memory it is, where and of which kind, and under which key. -/
structure MemorySlot where
  ownerId : Option String
  scope : MemoryScope
  scopeId : Option String
  kind : MemoryKind
  memoryKey : String
  deriving DecidableEq, Repr

/-- The slot a memory with a key holds. -/
def MemoryItem.slot (memory : MemoryItem) : Option MemorySlot :=
  memory.memoryKey.map fun memoryKey =>
    ⟨memory.ownerId, memory.scope, memory.scopeId, memory.kind, memoryKey⟩

section Lookup

variable {u : UnicodeTables} {backend : MemoryBackend} {store : Store MemoryItem}
  {w : CandidateWrite} {memory existing candidate : MemoryItem}

theorem memoryKey_eq_some {key : String} : memory.memoryKey = some key ↔
    memory.metadata.get "memory_key" = some (.str key) ∧ key ≠ "" := by
  unfold MemoryItem.memoryKey
  rcases memory.metadata.get "memory_key" with _ | value
  · simp
  · rcases value with _ | _ | _ | text | _
    · simp
    · simp
    · simp
    · by_cases htext : text = ""
      · subst htext
        simp
      · simp only [if_neg htext, Option.some.injEq, Value.str.injEq]
        constructor
        · rintro rfl
          exact ⟨rfl, htext⟩
        · exact And.left
    · simp

theorem slot_eq_some {slot : MemorySlot} : memory.slot = some slot ↔
    memory.metadata.get "memory_key" = some (.str slot.memoryKey) ∧ slot.memoryKey ≠ "" ∧
      memory.ownerId = slot.ownerId ∧ memory.scope = slot.scope ∧
        memory.scopeId = slot.scopeId ∧ memory.kind = slot.kind := by
  rw [MemoryItem.slot, Option.map_eq_some_iff]
  constructor
  · rintro ⟨key, hkey, rfl⟩
    obtain ⟨hget, hne⟩ := memoryKey_eq_some.mp hkey
    exact ⟨hget, hne, rfl, rfl, rfl, rfl⟩
  · rintro ⟨hget, hne, howner, hscope, hscopeId, hkind⟩
    refine ⟨slot.memoryKey, memoryKey_eq_some.mpr ⟨hget, hne⟩, ?_⟩
    rw [howner, hscope, hscopeId, hkind]

/-- A page without a cursor, a limit and an owner holds what the scope permits. -/
theorem mem_pagedRows_iff {scope : Option PrincipalScope} :
    memory ∈ pagedRows {} scope store ↔
      memory ∈ store ∧ scopePermits scope memory.ownerId = true := by
  rcases scope with _ | ⟨_ | owner⟩
  · simp [pagedRows, listedOwner, scopePermits, mem_sortById, Table.mem_rows]
  · simp [pagedRows, listedOwner, scopePermits, PrincipalScope.permits, mem_sortById,
      Table.mem_rows]
  · simp only [pagedRows, listedOwner, Option.bind_some, ne_eq, not_true_eq_false, false_and,
      if_false, Option.all_none, Bool.true_and, Option.all_some, List.mem_filter, mem_sortById,
      Table.mem_rows, scopePermits, PrincipalScope.permits, decide_eq_true_eq]
    simp [Resource.ownerId, eq_comm]

theorem eq_of_mapM_load {rows loaded : List MemoryItem} (hrows : ∀ row ∈ rows, row.Normal u)
    (h : rows.mapM (Resource.load u) = .ok loaded) : loaded = rows := by
  induction rows generalizing loaded with
  | nil => exact (Except.ok.inj h).symm
  | cons row rows ih =>
    rw [List.mapM_cons] at h
    obtain ⟨first, hfirst, h⟩ := exists_of_bind_eq_ok h
    obtain ⟨rest, hrest, h⟩ := exists_of_bind_eq_ok h
    rw [← Except.ok.inj h, (hrows row List.mem_cons_self).eq_of_validate hfirst,
      ih (fun r hr => hrows r (List.mem_cons_of_mem _ hr)) hrest]

/-- The query keeps the memories of the candidate's kind in its place. -/
theorem candidateQuery_accepts_iff {now : Instant} (hmemory : memory.Normal u)
    (hcandidate : candidate.Normal u) :
    filterReasons u now memory (candidateQuery u candidate) = [] ↔
      memory.scope = candidate.scope ∧ memory.scopeId = candidate.scopeId ∧
        memory.kind = candidate.kind := by
  rw [filterReasons_eq_nil_iff]
  constructor
  · intro h
    have hscope : memory.scope = candidate.scope := h.scope rfl _ rfl
    refine ⟨hscope, ?_, ?_⟩
    · rcases hid : candidate.scopeId with _ | scopeId
      · -- a global candidate: a global memory has no scope_id either
        exact hmemory.scope.mp (hscope.trans (hcandidate.scope.mpr hid))
      · refine h.scopeId rfl scopeId ?_
        show MemoryItem.normalizeOptionalIdentity u candidate.scopeId = some scopeId
        rw [hcandidate.scopeId, hid]
    · simpa [candidateQuery] using h.kind
  · rintro ⟨hscope, hscopeId, hkind⟩
    refine ⟨Or.inl rfl, fun h => absurd rfl h, fun _ scope h => ?_, fun _ scopeId h => ?_, ?_, ?_,
      Or.inl rfl, ?_, ?_, ?_⟩
    · rw [hscope]
      simpa [candidateQuery] using h
    · rw [hscopeId, ← hcandidate.scopeId]
      exact h
    · simp [candidateQuery, hkind]
    · simp [candidateQuery]
    · simp [candidateQuery]
    · simp [candidateQuery]
    · simp [candidateQuery]

theorem mem_basicSelect_candidateQuery {now : Instant} {memories : List MemoryItem} :
    memory ∈ basicSelect u now memories (some (candidateQuery u candidate)) ↔
      memory ∈ memories ∧ filterReasons u now memory (candidateQuery u candidate) = [] := by
  rw [filterReasons_eq_nil_iff]
  exact mem_orderedMatches

variable (memory) in
/-- **The listing of the lookup** has just the memories in the candidate's place, as far as the
scope permits them. -/
theorem mem_list_candidateQuery {now : Instant} {scope : Option PrincipalScope}
    {listed : List MemoryItem} (hstore : ∀ row ∈ store, row.Normal u)
    (hcandidate : candidate.Normal u)
    (hlist : (backend.register u).list
      { query := some (candidateQuery u candidate), now } {} scope store = .ok listed) :
    memory ∈ listed ↔ memory ∈ store ∧ scopePermits scope memory.ownerId = true ∧
      memory.scope = candidate.scope ∧ memory.scopeId = candidate.scopeId ∧
        memory.kind = candidate.kind := by
  have hpaged : memory ∈ pagedRows {} scope store ∧
      filterReasons u now memory (candidateQuery u candidate) = [] ↔
        memory ∈ store ∧ scopePermits scope memory.ownerId = true ∧
          memory.scope = candidate.scope ∧ memory.scopeId = candidate.scopeId ∧
            memory.kind = candidate.kind := by
    rw [mem_pagedRows_iff, and_assoc]
    refine and_congr_right fun hmem => and_congr_right fun _ => ?_
    exact candidateQuery_accepts_iff (hstore memory hmem) hcandidate
  rw [← hpaged]
  rcases backend with _ | _
  · simp only [MemoryBackend.register, sqliteMemoryRegister, sqliteRows_eq] at hlist
    split at hlist
    · cases hlist
    · next loaded hloaded =>
      have hrows := eq_of_mapM_load (fun row hrow =>
        hstore row (mem_pagedRows (List.mem_of_mem_filter hrow))) hloaded
      rw [← Except.ok.inj hlist, hrows]
      show memory ∈ basicSelect u now _ (some (candidateQuery u candidate)) ↔ _
      rw [mem_basicSelect_candidateQuery, List.mem_filter, and_assoc]
      refine and_congr_right fun _ => ⟨And.right, fun haccepts => ⟨?_, haccepts⟩⟩
      exact MemoryQuery.sqlClause_of_accepts (by simp [candidateQuery]) haccepts
  · have hrows : listed =
        basicSelect u now (pagedRows {} scope store) (some (candidateQuery u candidate)) := by
      refine (Except.ok.inj hlist).symm.trans (dictRows_eq ?_ {} scope store)
      exact basicSelect_nil (some (candidateQuery u candidate))
    rw [hrows, mem_basicSelect_candidateQuery]

/-- **The lookup** finds a memory in the candidate's slot, or there is none. -/
theorem findExistingMemory_spec {found : Option MemoryItem} {slot : MemorySlot}
    (hstore : ∀ row ∈ store, row.Normal u) (hcandidate : w.candidate.Normal u)
    (hpermits : scopePermits w.scope w.candidate.ownerId = true)
    (hslot : w.candidate.slot = some slot)
    (hfind : findExistingMemory u (backend.register u) w store = .ok found) :
    (found = none → ∀ memory ∈ store, memory.slot ≠ some slot) ∧
      ∀ existing ∈ found, existing ∈ store ∧ existing.slot = some slot := by
  obtain ⟨hkey, hne, howner, hscope, hscopeId, hkind⟩ := slot_eq_some.mp hslot
  have hmemoryKey := memoryKey_eq_some.mpr ⟨hkey, hne⟩
  simp only [findExistingMemory, hmemoryKey] at hfind
  split at hfind
  · cases hfind
  · next listed hlisted =>
    have hmem := fun memory => mem_list_candidateQuery memory hstore hcandidate hlisted
    rw [← Except.ok.inj hfind]
    constructor
    · intro hnone memory hmemory hmemorySlot
      obtain ⟨hkey', -, howner', hscope', hscopeId', hkind'⟩ := slot_eq_some.mp hmemorySlot
      have hlistedMemory : memory ∈ listed := by
        refine (hmem memory).mpr ⟨hmemory, ?_, hscope'.trans hscope.symm,
          hscopeId'.trans hscopeId.symm, hkind'.trans hkind.symm⟩
        rw [howner', ← howner]
        exact hpermits
      have hnot := List.find?_eq_none.mp hnone memory hlistedMemory
      simp [howner', howner, hkey'] at hnot
    · intro existing hexisting
      have hlistedExisting := (hmem existing).mp (List.mem_of_find?_eq_some hexisting)
      have hmatches := List.find?_some hexisting
      rw [decide_eq_true_eq] at hmatches
      refine ⟨hlistedExisting.1, slot_eq_some.mpr ⟨hmatches.2, hne, hmatches.1.trans howner, ?_⟩⟩
      obtain ⟨-, -, hscope', hscopeId', hkind'⟩ := hlistedExisting
      exact ⟨hscope'.trans hscope, hscopeId'.trans hscopeId, hkind'.trans hkind⟩

end Lookup

/-! ### What one write leaves -/

section Step

variable {u : UnicodeTables} {backend : MemoryBackend} {store : Store MemoryItem}
  {sameValue : Option Value → Option Value → Bool} {w : CandidateWrite}
  {memory existing candidate : MemoryItem}

/-- The write got past the lookup. -/
def CandidateWrite.taken (u : UnicodeTables) (backend : MemoryBackend) (w : CandidateWrite)
    (store : Store MemoryItem) : Bool :=
  (findExistingMemory u (backend.register u) w store).isOk

/-- The memory a first write stores. -/
def CandidateWrite.created (w : CandidateWrite) : MemoryItem :=
  { w.candidate with metadata := withWriteOperation w.candidate .create }

/-- `MERGE` if the fingerprints are equal, `REPLACE` otherwise. -/
def CandidateWrite.operation (sameValue : Option Value → Option Value → Bool)
    (w : CandidateWrite) (existing : MemoryItem) : MemoryWriteOperation :=
  if sameValue (existing.metadata.get "content_fingerprint")
      (w.candidate.metadata.get "content_fingerprint") then .merge
  else .replace

/-- The memory a later write stores. -/
def CandidateWrite.merged (sameValue : Option Value → Option Value → Bool)
    (w : CandidateWrite) (existing : MemoryItem) : MemoryItem :=
  { mergeMemory existing w.candidate (w.operation sameValue existing) with
    updatedAt := w.replacedAt }

@[simp] theorem mergeMemory_memoryId (operation : MemoryWriteOperation) :
    (mergeMemory existing candidate operation).memoryId = existing.memoryId := by
  unfold mergeMemory
  dsimp only
  split_ifs <;> rfl

@[simp] theorem mergeMemory_events (operation : MemoryWriteOperation) :
    (mergeMemory existing candidate operation).events =
      existing.events ++ candidate.events := by
  unfold mergeMemory
  dsimp only
  split_ifs <;> rfl

theorem mergeMemory_metadata (operation : MemoryWriteOperation) :
    (mergeMemory existing candidate operation).metadata =
      existing.metadata.update (mergedMetadata existing candidate operation) := by
  unfold mergeMemory
  dsimp only
  split_ifs <;> rfl

variable (existing) in
/-- The candidate's own key is in what a merge adds. -/
theorem mergedMetadata_spec (hkeys : (candidate.metadata.map (·.1)).Nodup)
    (operation : MemoryWriteOperation) :
    ((mergedMetadata existing candidate operation).map (·.1)).Nodup ∧
      (mergedMetadata existing candidate operation).get "memory_key" =
        candidate.metadata.get "memory_key" := by
  have hbase : (((withWriteOperation candidate operation).set "previous_memory_id"
      (.str existing.memoryId)).map (·.1)).Nodup := Dict.nodup_set (Dict.nodup_set hkeys _ _) _ _
  have hget : ((withWriteOperation candidate operation).set "previous_memory_id"
      (.str existing.memoryId)).get "memory_key" = candidate.metadata.get "memory_key" := by
    rw [withWriteOperation, Dict.get_set_of_ne _ _ (by decide), Dict.get_set_of_ne _ _ (by decide)]
  unfold mergedMetadata
  dsimp only
  split
  · refine ⟨Dict.nodup_set hbase _ _, ?_⟩
    rw [Dict.get_set_of_ne _ _ (by decide), hget]
  · exact ⟨hbase, hget⟩

/-- A merge stays in the slot. -/
theorem mergeMemory_slot {slot : MemorySlot} (hkeys : (candidate.metadata.map (·.1)).Nodup)
    (hexisting : existing.slot = some slot) (hcandidate : candidate.slot = some slot)
    (operation : MemoryWriteOperation) :
    (mergeMemory existing candidate operation).slot = some slot := by
  obtain ⟨hkey, hne, hrest⟩ := slot_eq_some.mp hcandidate
  obtain ⟨-, -, hrest'⟩ := slot_eq_some.mp hexisting
  obtain ⟨hnodup, hget⟩ := mergedMetadata_spec existing hkeys operation
  refine slot_eq_some.mpr ⟨?_, hne, ?_⟩
  · rw [mergeMemory_metadata, Dict.get_update _ hnodup, hget, hkey, Option.some_or]
  · unfold mergeMemory
    dsimp only
    split_ifs
    · exact hrest'
    · exact hrest

theorem created_slot : w.created.slot = w.candidate.slot := by
  have hget : w.created.metadata.get "memory_key" = w.candidate.metadata.get "memory_key" :=
    Dict.get_set_of_ne _ _ (by decide)
  unfold MemoryItem.slot MemoryItem.memoryKey
  rw [hget]
  rfl

theorem register_scoped (backend : MemoryBackend) : (backend.register u).Scoped u := by
  rcases backend with _ | _
  · exact sqliteMemoryRegister_scoped u
  · exact dictMemoryRegister_scoped u

/-- Writing a memory and reading it back leaves it stored, whether it reads back or not. -/
theorem after_writing_reading {α : Type}
    {write : Store MemoryItem → Except Error (Store MemoryItem)}
    {read : Store MemoryItem → Except Error α} {stored : Store MemoryItem}
    (hwrite : write store = .ok stored) :
    after (do Register.writing write; Register.reading read) store = stored := by
  rw [after, bind_of_ok (Register.writing_of_ok hwrite)]
  rcases hread : read stored with e | value
  · rw [Register.reading_of_error hread]
  · rw [Register.reading_of_ok hread]

theorem after_create (hpermits : scopePermits w.scope memory.ownerId = true) :
    after ((backend.register u).create memory w.scope) store = store.upsert memory := by
  refine after_writing_reading ?_
  rw [(register_scoped backend).register]
  exact registerRecord_of_permits store hpermits

theorem after_replace {stamp : MemoryItem → MemoryItem} (hexisting : existing ∈ store)
    (hid : existing.memoryId = memory.memoryId)
    (hpermitsOld : scopePermits w.scope existing.ownerId = true)
    (hpermits : scopePermits w.scope (stamp memory).ownerId = true) :
    after ((backend.register u).replace stamp memory w.scope) store =
      store.upsert (stamp memory) := by
  have hhas : (backend.register u).has (Resource.key memory) w.scope store = true :=
    (register_scoped backend).has.mpr ⟨existing, hexisting, hid, hpermitsOld⟩
  have hget : (getThe (Store MemoryItem) : EStateM Error (Store MemoryItem) (Store MemoryItem))
      store = .ok store store := rfl
  rw [Register.replace, after, bind_of_ok hget, if_pos hhas]
  refine after_writing_reading ?_
  rw [(register_scoped backend).register]
  exact registerRecord_of_permits store hpermits

/-- A program followed by a pure step. -/
theorem after_map {α β : Type} {x : EStateM Error (Store MemoryItem) α} {f : α → β} :
    after (do let a ← x; return f a) store = after x store := by
  rcases hx : x store with ⟨a, stored⟩ | ⟨e, stored⟩
  · rw [after, bind_of_ok hx, after_of_ok hx]
    rfl
  · rw [after_of_error (bind_of_error hx), after_of_error hx]

variable (backend sameValue) in
/-- **One write.** It raises and leaves the store alone, or stores one memory: a new one if the
slot is free, and otherwise one in place of the memory that holds the slot. -/
theorem writeMemoryCandidate_cases {slot : MemorySlot} (hstore : ∀ row ∈ store, row.Normal u)
    (hcandidate : w.candidate.Normal u)
    (hpermits : scopePermits w.scope w.candidate.ownerId = true)
    (hslot : w.candidate.slot = some slot) :
    (w.taken u backend store = false ∧
      ∃ e, writeMemoryCandidate u (backend.register u) sameValue w store = .error e store) ∨
    (w.taken u backend store = true ∧ (∀ memory ∈ store, memory.slot ≠ some slot) ∧
      after (writeMemoryCandidate u (backend.register u) sameValue w) store =
        store.upsert w.created) ∨
    ∃ existing ∈ store, w.taken u backend store = true ∧ existing.slot = some slot ∧
      after (writeMemoryCandidate u (backend.register u) sameValue w) store =
        store.upsert (w.merged sameValue existing) := by
  rcases hfind : findExistingMemory u (backend.register u) w store with e | found
  · refine Or.inl ⟨?_, e, bind_of_error (Register.reading_of_error hfind)⟩
    rw [CandidateWrite.taken, hfind]
    rfl
  · have hspec := findExistingMemory_spec hstore hcandidate hpermits hslot hfind
    have htaken : w.taken u backend store = true := by
      rw [CandidateWrite.taken, hfind]
      rfl
    have hread := Register.reading_of_ok hfind
    rcases found with _ | existing
    · refine Or.inr (Or.inl ⟨htaken, hspec.1 rfl, ?_⟩)
      rw [writeMemoryCandidate, after, bind_of_ok hread]
      exact after_map.trans (after_create hpermits)
    · obtain ⟨hexisting, hexistingSlot⟩ := hspec.2 existing rfl
      refine Or.inr (Or.inr ⟨existing, hexisting, htaken, hexistingSlot, ?_⟩)
      have howner : existing.ownerId = w.candidate.ownerId :=
        (slot_eq_some.mp hexistingSlot).2.2.1.trans (slot_eq_some.mp hslot).2.2.1.symm
      have hmergedOwner : (mergeMemory existing w.candidate
          (w.operation sameValue existing)).ownerId = w.candidate.ownerId := by
        unfold mergeMemory
        dsimp only
        split_ifs
        · exact howner
        · rfl
      rw [writeMemoryCandidate, after, bind_of_ok hread]
      refine after_map.trans (after_replace hexisting (mergeMemory_memoryId _).symm ?_ ?_)
      · rw [howner]
        exact hpermits
      · exact hmergedOwner ▸ hpermits

end Step

/-! ### Runs of writes -/

/-- At most one memory for each owner, scope, kind and key. -/
def UniqueSlots (store : Store MemoryItem) : Prop :=
  ∀ a ∈ store, ∀ b ∈ store, a.slot ≠ none → a.slot = b.slot → a = b

/-- A candidate with a key, under a scope that permits its owner. -/
structure CandidateWrite.Admissible (u : UnicodeTables) (w : CandidateWrite) : Prop where
  normal : w.candidate.Normal u
  keys : (w.candidate.metadata.map (·.1)).Nodup
  slot : w.candidate.slot ≠ none
  permits : scopePermits w.scope w.candidate.ownerId = true

/-- The writes into a slot, in order. -/
def writesInto (slot : MemorySlot) (writes : List CandidateWrite) : List CandidateWrite :=
  writes.filter fun w => w.candidate.slot = some slot

/-- **What a store owes to its writes.** `before` is the store they began with, and `writes` are
those that got past their lookup. -/
structure Governed (u : UnicodeTables) (before : Store MemoryItem) (writes : List CandidateWrite)
    (store : Store MemoryItem) : Prop where
  normal : ∀ memory ∈ store, memory.Normal u
  unique : UniqueSlots store
  ids : ∀ memory ∈ store, (∃ m ∈ before, m.memoryId = memory.memoryId) ∨
    ∃ w ∈ writes, w.candidate.memoryId = memory.memoryId
  untouched : ∀ memory : MemoryItem, (∀ w ∈ writes, w.candidate.slot ≠ memory.slot) →
    (memory ∈ store ↔ memory ∈ before)
  held : ∀ slot, writesInto slot writes ≠ [] → ∃ memory ∈ store, memory.slot = some slot ∧
    ((∃ first ∈ before, first.slot = some slot ∧ memory.memoryId = first.memoryId ∧
        memory.events = first.events ++
          (writesInto slot writes).flatMap fun w => w.candidate.events) ∨
      (∀ m ∈ before, m.slot ≠ some slot) ∧
        (writesInto slot writes).head?.map (fun w => w.candidate.memoryId) =
          some memory.memoryId ∧
        memory.events = (writesInto slot writes).flatMap fun w => w.candidate.events)

section Run

variable {u : UnicodeTables} {backend : MemoryBackend} {before store : Store MemoryItem}
  {sameValue : Option Value → Option Value → Bool} {w : CandidateWrite}
  {writes : List CandidateWrite} {slot : MemorySlot} {row : MemoryItem}

theorem writesInto_append_of_slot (h : w.candidate.slot = some slot) :
    writesInto slot (writes ++ [w]) = writesInto slot writes ++ [w] := by
  simp [writesInto, h]

theorem writesInto_append_of_ne (h : w.candidate.slot ≠ some slot) :
    writesInto slot (writes ++ [w]) = writesInto slot writes := by
  simp [writesInto, h]

theorem Governed.start (hnormal : ∀ memory ∈ before, memory.Normal u)
    (hunique : UniqueSlots before) : Governed u before [] before where
  normal := hnormal
  unique := hunique
  ids := fun memory hmemory => Or.inl ⟨memory, hmemory, rfl⟩
  untouched := fun _ _ => Iff.rfl
  held := fun _ h => absurd rfl h

/-- Writing a row into the slot of the write, over the memory that holds it or in a free one. -/
theorem Governed.upsert (h : Governed u before writes store)
    (hslot : w.candidate.slot = some slot) (hrow : row.slot = some slot) (hnormal : row.Normal u)
    (hid : (∃ existing ∈ store, existing.slot = some slot ∧ row.memoryId = existing.memoryId ∧
        row.events = existing.events ++ w.candidate.events) ∨
      (∀ memory ∈ store, memory.slot ≠ some slot ∧ memory.memoryId ≠ row.memoryId) ∧
        row.memoryId = w.candidate.memoryId ∧ row.events = w.candidate.events) :
    Governed u before (writes ++ [w]) (store.upsert row) := by
  -- what stands in the slot has the id of the row
  have hslotId : ∀ memory ∈ store, memory.slot = some slot → memory.memoryId = row.memoryId := by
    intro memory hmemory hmemorySlot
    obtain ⟨existing, hexisting, hexistingSlot, heq, -⟩ | ⟨hfree, -⟩ := hid
    · rw [h.unique memory hmemory existing hexisting (by simp [hmemorySlot])
        (hmemorySlot.trans hexistingSlot.symm), heq]
    · exact absurd hmemorySlot (hfree memory hmemory).1
  -- and what has the id of the row stands in the slot
  have hidSlot : ∀ memory ∈ store, memory.memoryId = row.memoryId → memory.slot = some slot := by
    intro memory hmemory hmemoryId
    obtain ⟨existing, hexisting, hexistingSlot, heq, -⟩ | ⟨hfree, -⟩ := hid
    · rw [Table.eq_of_key_eq hmemory hexisting (hmemoryId.trans heq)]
      exact hexistingSlot
    · exact absurd hmemoryId (hfree memory hmemory).2
  have hkept : ∀ memory ∈ store, memory.slot ≠ some slot → memory ∈ store.upsert row := by
    intro memory hmemory hother
    exact Table.mem_upsert.mpr (Or.inr ⟨hmemory, fun heq => hother (hidSlot memory hmemory heq)⟩)
  refine ⟨?_, ?_, ?_, ?_, ?_⟩
  · intro memory hmemory
    obtain rfl | ⟨hmemory, -⟩ := Table.mem_upsert.mp hmemory
    · exact hnormal
    · exact h.normal memory hmemory
  · intro a ha b hb hsome hsame
    obtain ha | ⟨ha, haId⟩ := Table.mem_upsert.mp ha
    · obtain hb | ⟨hb, hbId⟩ := Table.mem_upsert.mp hb
      · exact ha.trans hb.symm
      · exact absurd (hslotId b hb (by rw [← hsame, ha, hrow])) hbId
    · obtain hb | ⟨hb, -⟩ := Table.mem_upsert.mp hb
      · exact absurd (hslotId a ha (by rw [hsame, hb, hrow])) haId
      · exact h.unique a ha b hb hsome hsame
  · intro memory hmemory
    obtain rfl | ⟨hmemory, -⟩ := Table.mem_upsert.mp hmemory
    · obtain ⟨existing, hexisting, -, heq, -⟩ | ⟨-, heq, -⟩ := hid
      · rw [heq]
        refine (h.ids existing hexisting).imp_right ?_
        rintro ⟨w', hw', hw'Id⟩
        exact ⟨w', List.mem_append_left _ hw', hw'Id⟩
      · exact Or.inr ⟨w, by simp, heq.symm⟩
    · refine (h.ids memory hmemory).imp_right ?_
      rintro ⟨w', hw', hw'Id⟩
      exact ⟨w', List.mem_append_left _ hw', hw'Id⟩
  · intro memory hothers
    have hother : memory.slot ≠ some slot := fun heq =>
      hothers w (by simp) (hslot.trans heq.symm)
    rw [← h.untouched memory fun w' hw' => hothers w' (List.mem_append_left _ hw')]
    constructor
    · intro hmemory
      obtain rfl | ⟨hmemory, -⟩ := Table.mem_upsert.mp hmemory
      · exact absurd hrow hother
      · exact hmemory
    · exact fun hmemory => hkept memory hmemory hother
  · intro slot' hwrites
    by_cases hsame : slot' = slot
    · subst hsame
      have hfirst : writesInto slot' writes = [] →
          ∀ memory : MemoryItem, memory.slot = some slot' → (memory ∈ store ↔ memory ∈ before) := by
        intro hnone memory hmemorySlot
        refine h.untouched memory fun w' hw' heq => ?_
        exact List.filter_eq_nil_iff.mp hnone w' hw' (by simp [heq, hmemorySlot])
      refine ⟨row, Table.mem_upsert.mpr (Or.inl rfl), hrow, ?_⟩
      rw [writesInto_append_of_slot hslot, List.flatMap_append, List.flatMap_singleton]
      obtain ⟨existing, hexisting, hexistingSlot, heq, hevents⟩ | ⟨hfree, heq, hevents⟩ := hid
      · by_cases hnone : writesInto slot' writes = []
        · refine Or.inl ⟨existing, (hfirst hnone existing hexistingSlot).mp hexisting,
            hexistingSlot, heq, ?_⟩
          rw [hnone, List.flatMap_nil, List.nil_append, hevents]
        · obtain ⟨memory, hmemory, hmemorySlot, hheld⟩ := h.held slot' hnone
          obtain rfl : memory = existing := h.unique memory hmemory existing hexisting
            (by simp [hmemorySlot]) (hmemorySlot.trans hexistingSlot.symm)
          obtain ⟨first, hfirst, hfirstSlot, hfirstId, hfirstEvents⟩ | ⟨hnew, hhead, hall⟩ := hheld
          · refine Or.inl ⟨first, hfirst, hfirstSlot, heq.trans hfirstId, ?_⟩
            rw [hevents, hfirstEvents, List.append_assoc]
          · refine Or.inr ⟨hnew, ?_, ?_⟩
            · obtain ⟨w', rest, hcons⟩ := List.exists_cons_of_ne_nil hnone
              rw [hcons] at hhead ⊢
              rw [heq]
              exact hhead
            · rw [hevents, hall]
      · have hnone : writesInto slot' writes = [] := by
          by_contra hsome
          obtain ⟨memory, hmemory, hmemorySlot, -⟩ := h.held slot' hsome
          exact (hfree memory hmemory).1 hmemorySlot
        refine Or.inr ⟨fun m hm hmSlot => ?_, ?_, ?_⟩
        · exact (hfree m ((hfirst hnone m hmSlot).mpr hm)).1 hmSlot
        · rw [hnone, heq]
          rfl
        · rw [hnone, List.flatMap_nil, List.nil_append, hevents]
    · have hne : w.candidate.slot ≠ some slot' := fun heq =>
        hsame (Option.some.inj (heq.symm.trans hslot))
      rw [writesInto_append_of_ne hne] at hwrites ⊢
      obtain ⟨memory, hmemory, hmemorySlot, hheld⟩ := h.held slot' hwrites
      refine ⟨memory, hkept memory hmemory fun heq => ?_, hmemorySlot, hheld⟩
      exact hsame (Option.some.inj (hmemorySlot.symm.trans heq))

variable (backend sameValue) in
/-- **The step**: a write of an admissible candidate with a fresh id. -/
theorem Governed.write (h : Governed u before writes store) (hw : w.Admissible u)
    (hfresh : ∀ memory ∈ store, memory.memoryId ≠ w.candidate.memoryId) :
    Governed u before (if w.taken u backend store then writes ++ [w] else writes)
      (after (writeMemoryCandidate u (backend.register u) sameValue w) store) := by
  obtain ⟨slot, hslot⟩ := Option.ne_none_iff_exists'.mp hw.slot
  obtain ⟨htaken, e, hraises⟩ | ⟨htaken, hfree, hstored⟩ |
      ⟨existing, hexisting, htaken, hexistingSlot, hstored⟩ :=
    writeMemoryCandidate_cases backend sameValue h.normal hw.normal
      hw.permits hslot
  · rw [htaken, after_of_error hraises]
    exact h
  · rw [htaken, hstored]
    refine h.upsert hslot (created_slot.trans hslot) ?_ (Or.inr ⟨?_, rfl, rfl⟩)
    · exact ⟨hw.normal.content, hw.normal.ownerId, hw.normal.scopeId, hw.normal.scope,
        hw.normal.tags⟩
    · exact fun memory hmemory => ⟨hfree memory hmemory, hfresh memory hmemory⟩
  · rw [htaken, hstored]
    have hmerged := (h.normal existing hexisting).mergeMemory hw.normal
      (w.operation sameValue existing)
    refine h.upsert hslot (mergeMemory_slot hw.keys hexistingSlot hslot _) ?_
      (Or.inl ⟨existing, hexisting, hexistingSlot, mergeMemory_memoryId _, mergeMemory_events _⟩)
    exact ⟨hmerged.content, hmerged.ownerId, hmerged.scopeId, hmerged.scope, hmerged.tags⟩

/-- In memory no lookup fails, and over SQLite none does while the times of the stored memories
are in order. -/
theorem taken_of_ordered (hnormal : ∀ memory ∈ store, memory.Normal u)
    (hordered : backend = .inMemory ∨ ∀ memory ∈ store, memory.createdAt ≤ memory.updatedAt) :
    w.taken u backend store = true := by
  have hlist : ∀ query : MemoryQuery, ∃ listed, (backend.register u).list
      { query := some query, now := w.listedAt } {} w.scope store = .ok listed := by
    intro query
    rcases backend with _ | _
    · have hvalid : Validated u store := fun memory hmemory => by
        have hle := hordered.resolve_left (by simp) memory hmemory
        rw [(hnormal memory hmemory).validate_eq, if_neg (Int.not_lt.mpr hle)]
      exact ⟨_, @MemoryListing.sqlite_list u
        ⟨{ query := some query, now := w.listedAt }, {}, w.scope⟩ store hvalid⟩
    · exact ⟨_, rfl⟩
  rw [CandidateWrite.taken, findExistingMemory]
  rcases w.candidate.memoryKey with _ | key
  · rfl
  · obtain ⟨listed, hlisted⟩ := hlist (candidateQuery u w.candidate)
    simp only [hlisted]
    rfl

/-- What a merge leaves of the memory and takes from the candidate. -/
structure MergesInto (existing candidate merged : MemoryItem) : Prop where
  memoryId : merged.memoryId = existing.memoryId
  content : merged.content = existing.content
  kind : merged.kind = existing.kind
  scope : merged.scope = existing.scope ∧ merged.scopeId = existing.scopeId
  tags : merged.tags.Nodup ∧
    ∀ tag, tag ∈ merged.tags ↔ tag ∈ existing.tags ∨ tag ∈ candidate.tags
  priority : merged.priority = max existing.priority candidate.priority
  relevance : merged.relevance = max existing.relevance candidate.relevance
  confidence : merged.confidence = max existing.confidence candidate.confidence

/-- A write with the fingerprint of the memory that holds its slot merges into it. -/
theorem exists_mergesInto {existing : MemoryItem} (hnormal : ∀ memory ∈ store, memory.Normal u)
    (hunique : UniqueSlots store) (hw : w.Admissible u)
    (htaken : w.taken u backend store = true) (hexisting : existing ∈ store)
    (hslot : existing.slot = w.candidate.slot)
    (hsame : sameValue (existing.metadata.get "content_fingerprint")
      (w.candidate.metadata.get "content_fingerprint") = true) :
    ∃ merged ∈ after (writeMemoryCandidate u (backend.register u) sameValue w) store,
      merged.slot = w.candidate.slot ∧ MergesInto existing w.candidate merged := by
  obtain ⟨slot, hwslot⟩ := Option.ne_none_iff_exists'.mp hw.slot
  obtain ⟨hnot, -⟩ | ⟨-, hfree, -⟩ | ⟨held, hheld, -, hheldSlot, hstored⟩ :=
    writeMemoryCandidate_cases backend sameValue hnormal hw.normal
      hw.permits hwslot
  · rw [htaken] at hnot
    exact absurd hnot (by decide)
  · exact absurd (hslot.trans hwslot) (hfree existing hexisting)
  · obtain rfl : held = existing := hunique held hheld existing hexisting
      (by simp [hheldSlot]) (by rw [hheldSlot, hslot, hwslot])
    refine ⟨w.merged sameValue held, ?_, ?_, ?_⟩
    · rw [hstored]
      exact Table.mem_upsert.mpr (Or.inl rfl)
    · rw [hwslot]
      exact mergeMemory_slot hw.keys hheldSlot hwslot _
    · have hoperation : w.operation sameValue held = .merge := by
        rw [CandidateWrite.operation, if_pos hsame]
      simp only [CandidateWrite.merged, hoperation, mergeMemory, if_true]
      exact ⟨rfl, rfl, rfl, ⟨rfl, rfl⟩, ⟨nodup_mergedTags _ _, fun _ => mem_mergedTags⟩, rfl, rfl,
        rfl⟩

/-- The writes in order: those that got past their lookup, and the store they leave. -/
def writeMemoryCandidates (u : UnicodeTables) (backend : MemoryBackend)
    (sameValue : Option Value → Option Value → Bool) :
    List CandidateWrite → Store MemoryItem → List CandidateWrite × Store MemoryItem
  | [], store => ([], store)
  | w :: rest, store =>
    let (taken, last) := writeMemoryCandidates u backend sameValue rest
      (after (writeMemoryCandidate u (backend.register u) sameValue w) store)
    (if w.taken u backend store then w :: taken else taken, last)

variable (backend sameValue) in
/-- **The run.** -/
theorem Governed.writeAll (h : Governed u before writes store) {rest : List CandidateWrite}
    (hrest : ∀ w ∈ rest, w.Admissible u) (hids : (rest.map fun w => w.candidate.memoryId).Nodup)
    (hfresh : ∀ w ∈ rest, (∀ memory ∈ before, memory.memoryId ≠ w.candidate.memoryId) ∧
      ∀ earlier ∈ writes, earlier.candidate.memoryId ≠ w.candidate.memoryId) :
    Governed u before (writes ++ (writeMemoryCandidates u backend sameValue rest store).1)
      (writeMemoryCandidates u backend sameValue rest store).2 := by
  induction rest generalizing writes store with
  | nil =>
    rw [writeMemoryCandidates, List.append_nil]
    exact h
  | cons w rest ih =>
    rw [List.map_cons, List.nodup_cons] at hids
    have hfreshStore : ∀ memory ∈ store, memory.memoryId ≠ w.candidate.memoryId := by
      intro memory hmemory heq
      obtain ⟨m, hm, hmId⟩ | ⟨earlier, hearlier, hearlierId⟩ := h.ids memory hmemory
      · exact (hfresh w (by simp)).1 m hm (hmId.trans heq)
      · exact (hfresh w (by simp)).2 earlier hearlier (hearlierId.trans heq)
    have hstep := h.write backend sameValue (hrest w (by simp))
      hfreshStore
    have hnext := ih hstep (fun w' hw' => hrest w' (by simp [hw'])) hids.2 ?_
    · rw [writeMemoryCandidates]
      dsimp only
      split_ifs at hnext ⊢
      · rwa [List.append_assoc, List.singleton_append] at hnext
      · exact hnext
    · intro w' hw'
      refine ⟨(hfresh w' (by simp [hw'])).1, fun earlier hearlier => ?_⟩
      have hearlier' : earlier ∈ writes ∨ earlier = w := by
        split_ifs at hearlier
        · simpa using hearlier
        · exact Or.inl hearlier
      obtain hearlier' | rfl := hearlier'
      · exact (hfresh w' (by simp [hw'])).2 earlier hearlier'
      · exact fun heq => hids.1 (List.mem_map.mpr ⟨w', hw', heq.symm⟩)

private def foldedText : UnicodeTables where
  isSpace := Char.isWhitespace
  isWord := Char.isAlphanum
  casefold := String.toLower

private def teaWrite (memoryId event : String) : CandidateWrite where
  candidate :=
    { memoryId
      content := "Drinks tea"
      createdAt := 0
      updatedAt := 0
      metadata := [("memory_key", .str "drink"), ("content_fingerprint", .str "f")]
      provenance := some (.record event) }
  listedAt := 1
  replacedAt := 1

end Run

end EvernightAI
