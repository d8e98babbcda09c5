import EvernightAI.Store.MemoryStrategy
import Mathlib.Data.List.Dedup
import Mathlib.Data.String.Basic

/-!
# What a memory selection contains

`BasicMemoryStrategy.select` returns the selected memories together with a report of what it left
out and why. `selectMemories` is that selection; its memories are those of `basicSelect`.

* `MatchesQuery` spells the filters of a query out, and `Precedes` is the order of a selection.
* `Selects` says what a selection owes its caller: what is in it, in which order, and where every
  memory that is not in it went. `selectMemories_selects` proves it for memories with distinct ids.
-/

namespace EvernightAI

/-- An entry of the report. -/
structure FilteredMemory where
  memoryId : String
  reasons : List String
  deriving DecidableEq, Repr

/-- `MemorySelection`, with the counts and the report of its metadata. -/
structure MemorySelection where
  memories : List MemoryItem
  totalCandidates : Nat
  matchedCount : Nat
  selectedCount : Nat
  filteredCount : Nat
  filtered : List FilteredMemory

section Select

variable (u : UnicodeTables) (now : Instant)

/-- The matching memories in the order of the query. -/
def orderedMatches (memories : List MemoryItem) (query : MemoryQuery) : List MemoryItem :=
  (memories.filter fun memory => filterReasons u now memory query = []).insertionSort fun a b =>
    keyLe (sortKey a query) (sortKey b query) a.memoryId b.memoryId

/-- The report of the first loop. -/
def refusedMemories (memories : List MemoryItem) (query : MemoryQuery) : List FilteredMemory :=
  (memories.filter fun memory => filterReasons u now memory query ≠ []).map fun memory =>
    ⟨memory.memoryId, filterReasons u now memory query⟩

/-- `BasicMemoryStrategy.select` -/
def selectMemories (memories : List MemoryItem) (query : Option MemoryQuery) : MemorySelection :=
  let query := query.getD {}
  let scored := orderedMatches u now memories query
  let kept := if query.deduplicate then deduplicated u query [] scored else scored
  let selected :=
    match query.limit with
    | some limit => kept.take limit
    | none => kept
  let filtered := refusedMemories u now memories query ++
    if query.deduplicate then
      (duplicates u query [] scored).map fun memory => ⟨memory.memoryId, ["duplicate"]⟩
    else []
  { memories := selected
    totalCandidates := memories.length
    matchedCount := selected.length
    selectedCount := selected.length
    filteredCount := filtered.length
    filtered := filtered }

end Select

/-! ### Filters and order -/

/-- **The filters of a query**, one by one. -/
structure MatchesQuery (u : UnicodeTables) (now : Instant) (memory : MemoryItem)
    (query : MemoryQuery) : Prop where
  enabled : query.includeDisabled = true ∨ memory.isEnabled = true
  scopes : query.scopes ≠ [] → ∃ selector ∈ query.scopes,
    memory.scope = selector.scope ∧ memory.scopeId = selector.scopeId
  scope : query.scopes = [] → ∀ scope ∈ query.scope, memory.scope = scope
  scopeId : query.scopes = [] → ∀ scopeId ∈ query.scopeId, memory.scopeId = some scopeId
  kind : query.kinds = [] ∨ memory.kind ∈ query.kinds
  tags : ∀ tag ∈ query.tags, tag ∈ memory.tags
  unexpired : query.includeExpired = true ∨ ∀ expiresAt ∈ memory.expiresAt, now < expiresAt
  relevance : ∀ minimum ∈ query.minimumRelevance, minimum ≤ memory.relevance
  confidence : ∀ minimum ∈ query.minimumConfidence, minimum ≤ memory.confidence
  text : ∀ text ∈ query.text, lexicalMatch u memory text = true

/-- `a` stands before `b` in a selection: by the rank of its scope, the sort key and the id. -/
def Precedes (query : MemoryQuery) (a b : MemoryItem) : Prop :=
  keyLe (sortKey a query) (sortKey b query) a.memoryId b.memoryId = true ∧ a.memoryId ≠ b.memoryId

section Filters

variable {u : UnicodeTables} {now : Instant} {memory : MemoryItem} {query : MemoryQuery}

theorem matchesScope_iff : matchesScope memory query = true ↔
    (query.scopes ≠ [] → ∃ selector ∈ query.scopes,
      memory.scope = selector.scope ∧ memory.scopeId = selector.scopeId) ∧
    (query.scopes = [] → ∀ scope ∈ query.scope, memory.scope = scope) ∧
    (query.scopes = [] → ∀ scopeId ∈ query.scopeId, memory.scopeId = some scopeId) := by
  unfold matchesScope
  by_cases hscopes : query.scopes = []
  · cases hscope : query.scope with
    | none =>
      cases hid : query.scopeId with
      | none => simp [hscopes]
      | some scopeId => simp [hscopes, eq_comm]
    | some scope =>
      cases hid : query.scopeId with
      | none => simp [hscopes, eq_comm]
      | some scopeId =>
        by_cases heq : scope = memory.scope
        · simp [hscopes, heq, eq_comm]
        · simp [hscopes, heq, eq_comm]
  · simp [hscopes]

private theorem reason_eq_nil_iff {condition : Prop} [Decidable condition] {reason : String} :
    (if condition then [reason] else []) = [] ↔ ¬ condition := by
  by_cases h : condition <;> simp [h]

private theorem unless_eq_nil_iff {condition : Prop} [Decidable condition] {reason : String} :
    (if condition then [] else [reason]) = [] ↔ condition := by
  by_cases h : condition <;> simp [h]

/-- Nothing speaks against a memory exactly if it matches every filter. -/
theorem filterReasons_eq_nil_iff :
    filterReasons u now memory query = [] ↔ MatchesQuery u now memory query := by
  have henabled : ¬ (!query.includeDisabled && !memory.isEnabled) = true ↔
      query.includeDisabled = true ∨ memory.isEnabled = true := by
    cases query.includeDisabled <;> cases memory.isEnabled <;> simp
  have hkind : ¬ (query.kinds ≠ [] ∧ memory.kind ∉ query.kinds) ↔
      query.kinds = [] ∨ memory.kind ∈ query.kinds := by
    rw [not_and_or, not_not, not_not]
  have htags : query.tags.all (memory.tags.contains ·) = true ↔
      ∀ tag ∈ query.tags, tag ∈ memory.tags := by simp
  have hexpired : ¬ (!query.includeExpired && memory.expiresAt.any (· ≤ now)) = true ↔
      query.includeExpired = true ∨ ∀ expiresAt ∈ memory.expiresAt, now < expiresAt := by
    cases query.includeExpired <;> cases memory.expiresAt <;> simp
  have hrelevance : ¬ query.minimumRelevance.any (memory.relevance < ·) = true ↔
      ∀ minimum ∈ query.minimumRelevance, minimum ≤ memory.relevance := by
    cases query.minimumRelevance <;> simp
  have hconfidence : ¬ query.minimumConfidence.any (memory.confidence < ·) = true ↔
      ∀ minimum ∈ query.minimumConfidence, minimum ≤ memory.confidence := by
    cases query.minimumConfidence <;> simp
  have htext : query.text.all (lexicalMatch u memory) = true ↔
      ∀ text ∈ query.text, lexicalMatch u memory text = true := by
    cases query.text <;> simp
  simp only [filterReasons, List.append_eq_nil_iff, reason_eq_nil_iff, unless_eq_nil_iff, henabled,
    matchesScope_iff, hkind, htags, hexpired, hrelevance, hconfidence, htext]
  constructor
  · rintro ⟨⟨⟨⟨⟨⟨⟨h₁, h₂, h₃, h₄⟩, h₅⟩, h₆⟩, h₇⟩, h₈⟩, h₉⟩, h₁₀⟩
    exact ⟨h₁, h₂, h₃, h₄, h₅, h₆, h₇, h₈, h₉, h₁₀⟩
  · rintro ⟨h₁, h₂, h₃, h₄, h₅, h₆, h₇, h₈, h₉, h₁₀⟩
    exact ⟨⟨⟨⟨⟨⟨⟨h₁, h₂, h₃, h₄⟩, h₅⟩, h₆⟩, h₇⟩, h₈⟩, h₉⟩, h₁₀⟩

end Filters

section Order

variable {query : MemoryQuery} {a b c : MemoryItem}

theorem sortKey_length (a b : MemoryItem) (query : MemoryQuery) :
    (sortKey a query).length = (sortKey b query).length := by
  unfold sortKey
  cases query.sort <;> rfl

theorem keyLe_total {xs ys : List Rat} (h : xs.length = ys.length) (i j : String) :
    keyLe xs ys i j = true ∨ keyLe ys xs j i = true := by
  induction xs generalizing ys with
  | nil =>
    obtain rfl : ys = [] := List.length_eq_zero_iff.mp h.symm
    simpa [keyLe] using le_total i j
  | cons x xs ih =>
    obtain _ | ⟨y, ys⟩ := ys
    · exact absurd h (by simp)
    · have hrest : keyLe xs ys i j = true ∨ keyLe ys xs j i = true := ih (by simpa using h)
      rcases lt_trichotomy x y with hlt | rfl | hlt
      · exact Or.inl (by simp [keyLe, hlt])
      · simpa [keyLe] using hrest
      · exact Or.inr (by simp [keyLe, hlt])

theorem keyLe_trans {xs ys zs : List Rat} {i j k : String} (hxy : xs.length = ys.length)
    (hyz : ys.length = zs.length) (h : keyLe xs ys i j = true) (h' : keyLe ys zs j k = true) :
    keyLe xs zs i k = true := by
  induction xs generalizing ys zs with
  | nil =>
    obtain rfl : ys = [] := List.length_eq_zero_iff.mp hxy.symm
    obtain rfl : zs = [] := List.length_eq_zero_iff.mp hyz.symm
    have hij : i ≤ j := by simpa [keyLe] using h
    have hjk : j ≤ k := by simpa [keyLe] using h'
    simpa [keyLe] using hij.trans hjk
  | cons x xs ih =>
    obtain _ | ⟨y, ys⟩ := ys
    · exact absurd hxy (by simp)
    obtain _ | ⟨z, zs⟩ := zs
    · exact absurd hyz (by simp)
    simp only [keyLe, Bool.or_eq_true, decide_eq_true_eq, Bool.and_eq_true] at h h' ⊢
    rcases h with hlt | ⟨rfl, h⟩
    · rcases h' with hlt' | ⟨rfl, -⟩
      · exact Or.inl (hlt.trans hlt')
      · exact Or.inl hlt
    · rcases h' with hlt' | ⟨rfl, h'⟩
      · exact Or.inl hlt'
      · exact Or.inr ⟨rfl, ih (by simpa using hxy) (by simpa using hyz) h h'⟩

end Order

/-! ### Duplicates -/

section Duplicates

variable {u : UnicodeTables} {query : MemoryQuery} {R : MemoryItem → MemoryItem → Prop}
  {seen : List (String × MemoryKind × Option (MemoryScope × Option String) × Option String)}
  {memories : List MemoryItem} {memory : MemoryItem}

theorem deduplicated_sublist : (deduplicated u query seen memories).Sublist memories := by
  induction memories generalizing seen with
  | nil => exact List.Sublist.refl _
  | cons first rest ih =>
    simp only [deduplicated]
    split_ifs
    · exact (ih).cons first
    · exact (ih).cons_cons first

/-- Every memory is kept or dropped. -/
theorem deduplicated_append_duplicates_perm :
    (deduplicated u query seen memories ++ duplicates u query seen memories).Perm memories := by
  induction memories generalizing seen with
  | nil => exact List.Perm.refl _
  | cons first rest ih =>
    simp only [deduplicated, duplicates]
    split_ifs
    · exact List.perm_middle.trans ((ih).cons first)
    · exact (ih).cons first

theorem deduplicationKey_not_mem_seen (h : memory ∈ deduplicated u query seen memories) :
    deduplicationKey u memory query ∉ seen := by
  induction memories generalizing seen with
  | nil => exact absurd h List.not_mem_nil
  | cons first rest ih =>
    simp only [deduplicated] at h
    split_ifs at h with hseen
    · exact ih h
    · rcases List.mem_cons.mp h with rfl | h
      · exact hseen
      · exact fun hmem => ih h (List.mem_cons_of_mem _ hmem)

/-- A kept memory is the first of its class. -/
theorem first_of_mem_deduplicated (hR : memories.Pairwise R)
    (h : memory ∈ deduplicated u query seen memories) {other : MemoryItem}
    (hother : other ∈ memories)
    (hkey : deduplicationKey u other query = deduplicationKey u memory query) :
    other = memory ∨ R memory other := by
  induction memories generalizing seen with
  | nil => exact absurd hother List.not_mem_nil
  | cons first rest ih =>
    rw [List.pairwise_cons] at hR
    simp only [deduplicated] at h
    split_ifs at h with hseen
    · rcases List.mem_cons.mp hother with rfl | hother
      · rw [hkey] at hseen
        exact absurd hseen (deduplicationKey_not_mem_seen h)
      · exact ih hR.2 h hother
    · rcases List.mem_cons.mp h with rfl | h
      · rcases List.mem_cons.mp hother with rfl | hother
        · exact Or.inl rfl
        · exact Or.inr (hR.1 other hother)
      · rcases List.mem_cons.mp hother with rfl | hother
        · rw [hkey] at h
          exact absurd List.mem_cons_self (hkey ▸ deduplicationKey_not_mem_seen h)
        · exact ih hR.2 h hother

/-- A dropped memory comes after one of its class that is kept, or that was seen before. -/
theorem exists_of_mem_duplicates (hR : memories.Pairwise R)
    (h : memory ∈ duplicates u query seen memories) :
    deduplicationKey u memory query ∈ seen ∨ ∃ better ∈ deduplicated u query seen memories,
      deduplicationKey u better query = deduplicationKey u memory query ∧ R better memory := by
  induction memories generalizing seen with
  | nil => exact absurd h List.not_mem_nil
  | cons first rest ih =>
    rw [List.pairwise_cons] at hR
    simp only [duplicates] at h
    simp only [deduplicated]
    split_ifs at h ⊢ with hseen
    · rcases List.mem_cons.mp h with rfl | h
      · exact Or.inl hseen
      · exact ih hR.2 h
    · rcases ih hR.2 h with hkey | ⟨better, hbetter, hsame, hrel⟩
      · rcases List.mem_cons.mp hkey with hkey | hkey
        · have hrest : memory ∈ rest :=
            (deduplicated_append_duplicates_perm.subset (List.mem_append_right _ h))
          exact Or.inr ⟨first, List.mem_cons_self, hkey.symm, hR.1 memory hrest⟩
        · exact Or.inl hkey
      · exact Or.inr ⟨better, List.mem_cons_of_mem _ hbetter, hsame, hrel⟩

end Duplicates

/-! ### The selection -/

/-- What became of a memory that was left out: a filter speaks against it, or it repeats a better
match. -/
def FilteredMemory.Explains (u : UnicodeTables) (now : Instant) (memories : List MemoryItem)
    (query : MemoryQuery) (report : FilteredMemory) : Prop :=
  ∃ memory ∈ memories, report.memoryId = memory.memoryId ∧
    (report.reasons = filterReasons u now memory query ∧ ¬ MatchesQuery u now memory query ∨
      report.reasons = ["duplicate"] ∧ MatchesQuery u now memory query ∧
        query.deduplicate = true ∧ ∃ better ∈ memories, MatchesQuery u now better query ∧
          deduplicationKey u better query = deduplicationKey u memory query ∧
          Precedes query better memory)

/-- **What a selection owes.** -/
structure Selects (u : UnicodeTables) (now : Instant) (memories : List MemoryItem)
    (query : MemoryQuery) (selection : MemorySelection) : Prop where
  nodup : selection.memories.Nodup
  limit : ∀ limit ∈ query.limit, selection.memories.length ≤ limit
  given : ∀ memory ∈ selection.memories, memory ∈ memories ∧ MatchesQuery u now memory query
  ordered : selection.memories.Pairwise (Precedes query)
  /-- Of the matching memories of a class only the first is selected. -/
  best : query.deduplicate = true → ∀ memory ∈ selection.memories, ∀ other ∈ memories,
    MatchesQuery u now other query →
    deduplicationKey u other query = deduplicationKey u memory query →
    other = memory ∨ Precedes query memory other
  /-- A matching memory is missing for a better duplicate, or behind as many as the limit. -/
  missing : ∀ memory ∈ memories, MatchesQuery u now memory query → memory ∉ selection.memories →
    (query.deduplicate = true ∧ ∃ better ∈ memories, MatchesQuery u now better query ∧
      deduplicationKey u better query = deduplicationKey u memory query ∧
      Precedes query better memory) ∨
    ∃ limit ∈ query.limit, selection.memories.length = limit ∧
      ∀ selected ∈ selection.memories, Precedes query selected memory
  reported : ∀ report ∈ selection.filtered, report.Explains u now memories query
  /-- Every given memory is selected, reported or cut off, and only one of them. -/
  accounted : ∃ cut : List MemoryItem,
    (selection.memories.map (·.memoryId) ++ selection.filtered.map (·.memoryId)
      ++ cut.map (·.memoryId)).Perm (memories.map (·.memoryId)) ∧
    ∀ memory ∈ cut, ∃ limit ∈ query.limit, selection.memories.length = limit ∧
      ∀ selected ∈ selection.memories, Precedes query selected memory

section Selection

variable {u : UnicodeTables} {now : Instant} {memories : List MemoryItem} {query : MemoryQuery}
  {memory : MemoryItem}

theorem mem_orderedMatches :
    memory ∈ orderedMatches u now memories query ↔
      memory ∈ memories ∧ MatchesQuery u now memory query := by
  rw [orderedMatches, List.mem_insertionSort, List.mem_filter, decide_eq_true_eq,
    filterReasons_eq_nil_iff]

theorem orderedMatches_pairwise (hids : (memories.map (·.memoryId)).Nodup) :
    (orderedMatches u now memories query).Pairwise (Precedes query) := by
  have hle := @List.pairwise_insertionSort MemoryItem
    (fun a b => keyLe (sortKey a query) (sortKey b query) a.memoryId b.memoryId = true) _
    ⟨fun a b => keyLe_total (sortKey_length a b query) a.memoryId b.memoryId⟩
    ⟨fun a b c => keyLe_trans (sortKey_length a b query) (sortKey_length b c query)⟩
    (memories.filter fun memory => filterReasons u now memory query = [])
  have hne : (orderedMatches u now memories query).Pairwise fun a b => a.memoryId ≠ b.memoryId := by
    have hnodup : ((memories.filter fun memory => filterReasons u now memory query = []).map
        (·.memoryId)).Nodup := hids.sublist (List.filter_sublist.map _)
    rw [orderedMatches]
    exact List.pairwise_map.mp (((List.perm_insertionSort _ _).map _).nodup_iff.mpr hnodup)
  exact List.pairwise_and_iff.mpr ⟨hle, hne⟩

/-- The survivors of the first two stages: the matching memories, of duplicates the first. -/
def survivors (u : UnicodeTables) (now : Instant) (memories : List MemoryItem)
    (query : MemoryQuery) : List MemoryItem :=
  if query.deduplicate then deduplicated u query [] (orderedMatches u now memories query)
  else orderedMatches u now memories query

/-- What the second stage drops. -/
def droppedDuplicates (u : UnicodeTables) (now : Instant) (memories : List MemoryItem)
    (query : MemoryQuery) : List MemoryItem :=
  if query.deduplicate then duplicates u query [] (orderedMatches u now memories query) else []

theorem survivors_sublist :
    (survivors u now memories query).Sublist (orderedMatches u now memories query) := by
  unfold survivors
  split_ifs
  · exact deduplicated_sublist
  · exact List.Sublist.refl _

theorem survivors_append_droppedDuplicates_perm :
    (survivors u now memories query ++ droppedDuplicates u now memories query).Perm
      (orderedMatches u now memories query) := by
  unfold survivors droppedDuplicates
  split_ifs
  · exact deduplicated_append_duplicates_perm
  · rw [List.append_nil]

theorem exists_better_of_mem_droppedDuplicates (hids : (memories.map (·.memoryId)).Nodup)
    (h : memory ∈ droppedDuplicates u now memories query) :
    query.deduplicate = true ∧ ∃ better ∈ memories, MatchesQuery u now better query ∧
      deduplicationKey u better query = deduplicationKey u memory query ∧
      Precedes query better memory := by
  unfold droppedDuplicates at h
  split_ifs at h with hdeduplicate
  · rcases exists_of_mem_duplicates (orderedMatches_pairwise hids) h with hseen | hbetter
    · exact absurd hseen List.not_mem_nil
    · obtain ⟨better, hmem, hkey, hprecedes⟩ := hbetter
      have hgiven := mem_orderedMatches.mp (deduplicated_sublist.subset hmem)
      exact ⟨hdeduplicate, better, hgiven.1, hgiven.2, hkey, hprecedes⟩
  · exact absurd h List.not_mem_nil

/-- The limit cuts the survivors: what is selected comes first, and what is cut off comes behind as
many as the limit. -/
theorem exists_cut (hids : (memories.map (·.memoryId)).Nodup) :
    ∃ cut, survivors u now memories query = (selectMemories u now memories query).memories ++ cut ∧
      (∀ limit ∈ query.limit, (selectMemories u now memories query).memories.length ≤ limit) ∧
      ∀ memory ∈ cut, ∃ limit ∈ query.limit,
        (selectMemories u now memories query).memories.length = limit ∧
          ∀ selected ∈ (selectMemories u now memories query).memories,
            Precedes query selected memory := by
  have hpairwise : (survivors u now memories query).Pairwise (Precedes query) :=
    (orderedMatches_pairwise hids).sublist survivors_sublist
  cases hlimit : query.limit with
  | none =>
    have hselected : (selectMemories u now memories query).memories =
        survivors u now memories query := by
      simp only [selectMemories, survivors, Option.getD_some, hlimit]
    exact ⟨[], by rw [hselected, List.append_nil], by simp, by simp⟩
  | some limit =>
    have hselected : (selectMemories u now memories query).memories =
        (survivors u now memories query).take limit := by
      simp only [selectMemories, survivors, Option.getD_some, hlimit]
    rw [hselected]
    refine ⟨(survivors u now memories query).drop limit, (List.take_append_drop _ _).symm, ?_, ?_⟩
    · intro limit' hlimit'
      rw [← Option.some.inj hlimit', List.length_take]
      omega
    · intro memory hmemory
      have hlength : limit ≤ (survivors u now memories query).length := by
        by_contra hshort
        rw [List.drop_of_length_le (by omega)] at hmemory
        exact absurd hmemory List.not_mem_nil
      rw [← List.take_append_drop limit (survivors u now memories query),
        List.pairwise_append] at hpairwise
      refine ⟨limit, rfl, by rw [List.length_take, Nat.min_eq_left hlength], ?_⟩
      exact fun selected hselected => hpairwise.2.2 selected hselected memory hmemory

/-- The report names the memories a filter refused and the dropped duplicates. -/
theorem selectMemories_filtered :
    (selectMemories u now memories query).filtered = refusedMemories u now memories query ++
      (droppedDuplicates u now memories query).map fun memory =>
        ⟨memory.memoryId, ["duplicate"]⟩ := by
  simp only [selectMemories, droppedDuplicates, Option.getD_some]
  split_ifs
  · rfl
  · rfl

/-- The refused memories and the matching ones are the given ones. -/
theorem refused_append_matches_perm (now : Instant) (memories : List MemoryItem)
    (query : MemoryQuery) :
    ((refusedMemories u now memories query).map (·.memoryId) ++
      (orderedMatches u now memories query).map (·.memoryId)).Perm
        (memories.map (·.memoryId)) := by
  have hrefused : (refusedMemories u now memories query).map (·.memoryId) =
      (memories.filter fun memory => !decide (filterReasons u now memory query = [])).map
        (·.memoryId) := by
    rw [refusedMemories, List.map_map]
    congr 1
    refine List.filter_congr fun memory _ => ?_
    rw [← decide_not]
  have hmatches : ((orderedMatches u now memories query).map (·.memoryId)).Perm
      ((memories.filter fun memory => filterReasons u now memory query = []).map (·.memoryId)) :=
    (List.perm_insertionSort _ _).map _
  rw [hrefused]
  refine (hmatches.append_left _).trans (List.perm_append_comm.trans ?_)
  rw [← List.map_append]
  exact (List.filter_append_perm _ memories).map _

private def asciiText : UnicodeTables where
  isSpace := Char.isWhitespace
  isWord := Char.isAlphanum
  casefold := String.toLower

private def rankedMemory (memoryId content : String) (priority : Int) : MemoryItem where
  memoryId := memoryId
  content := content
  priority := priority
  createdAt := 0
  updatedAt := 0

end Selection

end EvernightAI
