import EvernightAI.Lib.Pagination
import EvernightAI.Store.Authorized
import EvernightAI.Store.MemoryListing

/-!
# Listing memories page by page

The route `GET /memories` builds a query from its parameters, without `scopes` and without a limit
of its own, and lists with the client's cursor and page size. The registers compare the cursor
with the ids *before* the selection orders the memories and drops duplicates.

* `MemoryListParams.memoryQuery`: the query of the route.
* `memoryPages_iff`: the pages join to the list when the query leaves the memories in the order of
  their ids and keeps duplicates, and otherwise not.
-/

namespace EvernightAI

/-- The parameters of the route that make up its query. -/
structure MemoryListParams where
  text : Option String := none
  scope : Option MemoryScope := none
  scopeId : Option String := none
  kind : Option (List MemoryKind) := none
  tag : Option (List String) := none
  minimumRelevance : Option Rat := none
  minimumConfidence : Option Rat := none
  includeDisabled : Option Bool := none
  includeExpired : Option Bool := none
  deduplicate : Option Bool := none
  sort : Option MemorySort := none
  deriving DecidableEq, Repr

/-- `_normalize_text`: runs of white space are one space; a blank text is none. -/
def normalizeText (u : UnicodeTables) (value : Option String) : Option String :=
  value.bind fun v =>
    let words := (wordRuns (fun c => !u.isSpace c) [] v.toList).map String.ofList
    if words = [] then none else some (" ".intercalate words)

/-- The query of `GET /memories`; without any parameter there is none. -/
def MemoryListParams.memoryQuery (u : UnicodeTables) (params : MemoryListParams) :
    Option MemoryQuery :=
  if params = {} then none
  else some {
    text := normalizeText u params.text
    scope := params.scope
    scopeId := MemoryItem.normalizeOptionalIdentity u params.scopeId
    kinds := params.kind.getD []
    tags := MemoryItem.normalizeTags u (params.tag.getD [])
    minimumRelevance := params.minimumRelevance
    minimumConfidence := params.minimumConfidence
    includeDisabled := params.includeDisabled.getD false
    includeExpired := params.includeExpired.getD false
    deduplicate := params.deduplicate.getD false
    sort := params.sort.getD .default }

/-- A client that lists the memories it may see: the parameters of its requests, the time, the
owner it asks for and its scope. -/
structure MemoryReader where
  params : MemoryListParams
  now : Instant
  ownerId : Option String := none
  scope : Option PrincipalScope := none
  deriving DecidableEq, Repr

namespace MemoryReader

variable {u : UnicodeTables} {reader : MemoryReader}

variable (u) in
/-- The call that one of its requests comes to. -/
def call (reader : MemoryReader) (cursor : Option String) (limit : Option Int) : MemoryListing where
  filter := { query := reader.params.memoryQuery u, now := reader.now }
  page := { cursor, limit, ownerId := reader.ownerId }
  scope := reader.scope

/-- What a register answers to one of its requests. -/
def list (memories : Register MemoryItem MemoryFilter) (store : Store MemoryItem)
    (u : UnicodeTables) (reader : MemoryReader) (cursor : Option String) (limit : Option Int) :
    Except Error (List MemoryItem) :=
  memories.list (reader.call u cursor limit).filter (reader.call u cursor limit).page
    (reader.call u cursor limit).scope store

/-- **Pages of `n` memories join to the whole list**, whatever was written to the register. -/
def PagesJoin (memories : Register MemoryItem MemoryFilter) (u : UnicodeTables)
    (reader : MemoryReader) (n : Nat) : Prop :=
  ∀ writes : List (MemoryWrite u), ∃ all,
    reader.list memories (written memories writes) u none none = .ok all ∧
    Pages MemoryItem.memoryId
      (fun cursor => reader.list memories (written memories writes) u cursor (some n)) none all

variable (u) in
/-- The query leaves the memories in the order of their ids and keeps duplicates, or accepts
none. -/
def ReadsById (reader : MemoryReader) : Prop :=
  (∀ query ∈ reader.params.memoryQuery u, query.sort = .memoryId ∧ query.deduplicate = false) ∨
  ∀ valid : ValidMemory u, ¬(reader.call u none none).Lists u valid.memory

/-! ### What a page holds -/

theorem of_mem_memoryQuery {params : MemoryListParams} {query : MemoryQuery}
    (h : query ∈ params.memoryQuery u) : query.scopes = [] ∧ query.limit = none := by
  rw [MemoryListParams.memoryQuery] at h
  split at h
  · cases h
  · cases h
    exact ⟨rfl, rfl⟩

/-- A query without `scopes` leaves to SQL only what keeps all it accepts. -/
theorem call_agrees (reader : MemoryReader) (cursor : Option String) {limit : Option Int}
    (hlimit : limit.all (0 ≤ ·) = true) : (reader.call u cursor limit).Agrees u := by
  refine MemoryListing.ClauseKeeps.agrees (Or.inr fun valid hlists => ?_)
  rcases hquery : (reader.call u cursor limit).filter.query with _ | query
  · exact hlimit
  · refine MemoryQuery.sqlClause_of_accepts (fun selector hselector => ?_)
      (hlists.2.2 query (by rw [hquery]; rfl))
    rw [(of_mem_memoryQuery (show query ∈ reader.params.memoryQuery u from hquery)).1] at hselector
    exact absurd hselector List.not_mem_nil

variable (u) in
/-- The memories a request without a page size is answered with. -/
def selected (reader : MemoryReader) (store : Store MemoryItem) (cursor : Option String) :
    List MemoryItem :=
  let rows := pagedRows { cursor, ownerId := reader.ownerId } reader.scope store
  match reader.params.memoryQuery u with
  | none => rows
  | some query => basicSelect u reader.now rows query

/-- Both registers answer with the selection, cut at the page size. -/
theorem list_eq (backend : Backend) (strategy : MemoryStrategy) (writes : List (MemoryWrite u))
    (cursor : Option String) {limit : Option Int} (hlimit : limit.all (0 ≤ ·) = true) :
    reader.list (storeRuntime backend u strategy).memoryRegister
        (written (storeRuntime backend u strategy).memoryRegister writes) u cursor limit =
      .ok (pySlice limit (reader.selected u (written (dictMemoryRegister u) writes) cursor)) := by
  have hdict : reader.list (dictMemoryRegister u) (written (dictMemoryRegister u) writes) u cursor
      limit = .ok (pySlice limit
        (reader.selected u (written (dictMemoryRegister u) writes) cursor)) := by
    exact MemoryListing.dict_list (reader.call u cursor limit) _
  cases backend with
  | sqlite => exact (call_agrees reader cursor hlimit writes).trans hdict
  | inMemory => exact hdict

/-- A page's rows are those of the whole listing after the cursor. -/
theorem pagedRows_cursor (ownerId cursor : Option String) (scope : Option PrincipalScope)
    (store : Store MemoryItem) : pagedRows { cursor, ownerId } scope store =
      (pagedRows { ownerId } scope store).filter fun memory => cursor.all (· < memory.memoryId) := by
  unfold pagedRows
  simp only
  rcases listedOwner scope ownerId with _ | owner
  · rfl
  · simp only [List.filter_filter, Option.all_none, Bool.true_and]
    rfl

/-- In the order of the ids and with duplicates kept, a selection only drops what is not
accepted. -/
theorem basicSelect_byId {now : Instant} {query : MemoryQuery} {rows : List MemoryItem}
    (hscopes : query.scopes = []) (hlimit : query.limit = none) (hsort : query.sort = .memoryId)
    (hkeep : query.deduplicate = false)
    (hrows : rows.Pairwise fun a b => a.memoryId < b.memoryId) :
    basicSelect u now rows (some query) =
      rows.filter fun memory => filterReasons u now memory query = [] := by
  have hle : (rows.filter fun memory => decide (filterReasons u now memory query = [])).Pairwise
      fun a b => keyLe (sortKey a query) (sortKey b query) a.memoryId b.memoryId = true := by
    refine (hrows.sublist List.filter_sublist).imp fun {a b} hab => ?_
    simpa [sortKey, hsort, scopeRank, hscopes, keyLe] using hab.le
  simp only [basicSelect, Option.getD_some, hkeep, hlimit, Bool.false_eq_true, if_false]
  exact List.Pairwise.insertionSort_eq hle

/-- What the reader's query accepts, of the rows it may see, in the order of their ids. -/
def accepted (u : UnicodeTables) (reader : MemoryReader) (store : Store MemoryItem) :
    List MemoryItem :=
  (pagedRows { ownerId := reader.ownerId } reader.scope store).filter fun memory =>
    (reader.params.memoryQuery u).all fun query => filterReasons u reader.now memory query = []

theorem selected_byId
    (h : ∀ query ∈ reader.params.memoryQuery u, query.sort = .memoryId ∧ query.deduplicate = false)
    (store : Store MemoryItem) (cursor : Option String) : reader.selected u store cursor =
      (reader.accepted u store).filter fun memory => cursor.all (· < memory.memoryId) := by
  unfold selected accepted
  simp only
  rw [pagedRows_cursor, List.filter_filter]
  rcases hquery : reader.params.memoryQuery u with _ | query
  · simp
  · obtain ⟨hscopes, hlimit⟩ := of_mem_memoryQuery hquery
    obtain ⟨hsort, hkeep⟩ := h query hquery
    have hrows : ((pagedRows { ownerId := reader.ownerId } reader.scope store).filter
        fun memory => cursor.all (· < memory.memoryId)).Pairwise
          fun a b => a.memoryId < b.memoryId :=
      (pairwise_pagedRows _ _ _).sublist List.filter_sublist
    refine (basicSelect_byId hscopes hlimit hsort hkeep hrows).trans ?_
    rw [List.filter_filter]
    simp only [Option.all_some, Bool.and_comm]

theorem accepts_of_mem_basicSelect {now : Instant} {query : MemoryQuery} {rows : List MemoryItem}
    {memory : MemoryItem} (h : memory ∈ basicSelect u now rows (some query)) :
    memory ∈ rows ∧ query.accepts u now memory := by
  have hsame : basicSelect u now (rows.filter fun memory => query.accepts u now memory)
      (some query) = basicSelect u now rows (some query) :=
    basicSelect_filter fun memory _ haccepts => decide_eq_true haccepts
  rw [← hsame] at h
  obtain ⟨hmem, haccepts⟩ := List.mem_filter.mp (basicSelect_subset u now _ _ h)
  exact ⟨hmem, of_decide_eq_true haccepts⟩

/-- Where nothing is accepted, nothing is selected. -/
theorem selected_nil (writes : List (MemoryWrite u))
    (h : ∀ valid : ValidMemory u, ¬(reader.call u none none).Lists u valid.memory)
    (cursor : Option String) :
    reader.selected u (written (dictMemoryRegister u) writes) cursor = [] := by
  refine List.eq_nil_iff_forall_not_mem.mpr fun memory hmemory => ?_
  have hrow : memory ∈ pagedRows { cursor, ownerId := reader.ownerId } reader.scope
      (written (dictMemoryRegister u) writes) ∧
      ∀ query ∈ reader.params.memoryQuery u, query.accepts u reader.now memory := by
    unfold selected at hmemory
    rcases hquery : reader.params.memoryQuery u with _ | query
    · rw [hquery] at hmemory
      exact ⟨hmemory, fun query hnone => by cases hnone⟩
    · rw [hquery] at hmemory
      obtain ⟨hrow, haccepts⟩ := accepts_of_mem_basicSelect hmemory
      exact ⟨hrow, fun q hq => Option.mem_some_iff.mp hq ▸ haccepts⟩
  rw [pagedRows_cursor] at hrow
  exact h ⟨memory, validated_written writes memory (mem_pagedRows (List.mem_of_mem_filter hrow.1))⟩
    (MemoryListing.lists_of_mem_pagedRows (List.mem_of_mem_filter hrow.1) hrow.2)

/-- **Reading in the order of the ids**, the pages join to the whole list. -/
theorem ReadsById.pagesJoin (h : reader.ReadsById u) (backend : Backend)
    (strategy : MemoryStrategy) {n : Nat} (hn : 0 < n) :
    reader.PagesJoin (storeRuntime backend u strategy).memoryRegister u n := by
  intro writes
  set store := written (dictMemoryRegister u) writes with hstore
  have hlist : ∀ cursor, reader.list (storeRuntime backend u strategy).memoryRegister
      (written (storeRuntime backend u strategy).memoryRegister writes) u cursor (some n) =
        .ok ((reader.selected u store cursor).take n) := by
    intro cursor
    rw [list_eq backend strategy writes cursor (by simp)]
    simp [pySlice, hstore]
  refine ⟨reader.selected u store none, list_eq backend strategy writes none rfl, ?_⟩
  rcases h with hsort | hnone
  · rw [selected_byId hsort]
    simp only [selected_byId hsort] at hlist
    exact pages_filter_take hn ((pairwise_pagedRows _ _ _).sublist List.filter_sublist) hlist none
  · rw [selected_nil writes hnone]
    exact .done (by rw [hlist, selected_nil writes hnone, List.take_nil])

/-! ### What goes wrong otherwise -/

/-- The same memory under another id, of a higher priority and some microseconds younger. -/
private def sibling (valid : ValidMemory u) (memoryId : String) (younger : Nat) :
    ValidMemory u where
  memory := { valid.memory with
    memoryId
    priority := valid.memory.priority + younger
    createdAt := valid.memory.createdAt + younger
    updatedAt := valid.memory.updatedAt + younger }
  valid := by
    have h := valid.valid
    simp only [MemoryItem.validate] at h ⊢
    split_ifs at h with hcontent hglobal hscope htime
    have hlater : ¬valid.memory.updatedAt + younger < valid.memory.createdAt + younger := fun hlt =>
      htime (Int.add_lt_add_iff_right _ |>.mp hlt)
    rw [if_neg hcontent, if_neg hglobal, if_neg hscope, if_neg hlater]
    exact congrArg (fun m : MemoryItem => Except.ok { m with
      memoryId
      priority := m.priority + younger
      createdAt := m.createdAt + younger
      updatedAt := m.updatedAt + younger }) (Except.ok.inj h)

/-- A query that accepts a memory accepts its siblings. -/
private theorem accepts_sibling {valid : ValidMemory u} {query : MemoryQuery} {now : Instant}
    {memoryId : String} {younger : Nat} (h : query.accepts u now valid.memory) :
    query.accepts u now (sibling valid memoryId younger).memory := h

/-- Two siblings, as they are stored. -/
private def pair (valid : ValidMemory u) (younger : Nat) : List (MemoryWrite u) :=
  [.register (sibling valid "a" 0) none, .register (sibling valid "b" younger) none]

private theorem pagedRows_pair {valid : ValidMemory u}
    (h : (reader.call u none none).Lists u valid.memory) (younger : Nat) :
    pagedRows { ownerId := reader.ownerId } reader.scope
        (written (dictMemoryRegister u) (pair valid younger)) =
      [(sibling valid "a" 0).memory, (sibling valid "b" younger).memory] := by
  obtain ⟨-, ⟨owner, howner, hwho⟩, -⟩ := h
  have hrows : sortById (written (dictMemoryRegister u) (pair valid younger)).rows =
      [(sibling valid "a" 0).memory, (sibling valid "b" younger).memory] := by
    have hstored : (written (dictMemoryRegister u) (pair valid younger)).rows =
        [(sibling valid "a" 0).memory, (sibling valid "b" younger).memory] := rfl
    have hab : ("a" : String) ≤ "b" := by decide
    rw [hstored]
    exact if_pos hab
  unfold pagedRows
  rw [show listedOwner reader.scope reader.ownerId = some owner from howner, hrows]
  refine List.filter_eq_self.mpr fun memory hmemory => ?_
  have howned : memory.ownerId = valid.memory.ownerId := by
    simp only [List.mem_cons, List.not_mem_nil, or_false] at hmemory
    rcases hmemory with rfl | rfl <;> rfl
  refine Bool.and_eq_true_iff.mpr ⟨rfl, ?_⟩
  rw [show Resource.ownerId memory = valid.memory.ownerId from howned]
  exact hwho

private theorem selected_of_query {query : MemoryQuery}
    (hquery : query ∈ reader.params.memoryQuery u) (store : Store MemoryItem)
    (cursor : Option String) : reader.selected u store cursor =
      basicSelect u reader.now ((pagedRows { ownerId := reader.ownerId } reader.scope store).filter
        fun memory => cursor.all (· < memory.memoryId)) (some query) := by
  unfold selected
  rw [pagedRows_cursor, Option.mem_def.mp hquery]

/-- Reading on behind the older sibling finds the younger one, and nothing behind that. -/
private theorem selected_after_pair {valid : ValidMemory u} {query : MemoryQuery}
    (hquery : query ∈ reader.params.memoryQuery u)
    (h : (reader.call u none none).Lists u valid.memory) (younger : Nat) :
    reader.selected u (written (dictMemoryRegister u) (pair valid younger)) (some "a") =
        [(sibling valid "b" younger).memory] ∧
      reader.selected u (written (dictMemoryRegister u) (pair valid younger)) (some "b") = [] := by
  have haccepts : query.accepts u reader.now valid.memory := h.2.2 query hquery
  have hlimit : query.limit ≠ some 0 := by
    rw [(of_mem_memoryQuery hquery).2]
    exact nofun
  rw [selected_of_query hquery, selected_of_query hquery, pagedRows_pair h]
  constructor
  · have hbehind : [(sibling valid "a" 0).memory, (sibling valid "b" younger).memory].filter
        (fun memory => (some "a").all (· < memory.memoryId)) =
          [(sibling valid "b" younger).memory] := by
      have hab : ("a" : String) < "b" := by decide
      have haa : ¬("a" : String) < "a" := lt_irrefl _
      simp only [sibling, Option.all_some, List.filter_cons, List.filter_nil, hab, haa, decide_true,
        decide_false, if_true, Bool.false_eq_true, if_false]
    rw [hbehind]
    exact basicSelect_singleton (accepts_sibling haccepts) hlimit
  · have hbehind : [(sibling valid "a" 0).memory, (sibling valid "b" younger).memory].filter
        (fun memory => (some "b").all (· < memory.memoryId)) = [] := by
      have hba : ¬("b" : String) < "a" := by decide
      have hbb : ¬("b" : String) < "b" := lt_irrefl _
      simp only [sibling, Option.all_some, List.filter_cons, List.filter_nil, hba, hbb, decide_false,
        Bool.false_eq_true, if_false]
    rw [hbehind, basicSelect_nil]

/-- The siblings the query accepts, before they are sorted. -/
private theorem selected_pair {valid : ValidMemory u} {query : MemoryQuery}
    (hquery : query ∈ reader.params.memoryQuery u)
    (h : (reader.call u none none).Lists u valid.memory) (younger : Nat) :
    reader.selected u (written (dictMemoryRegister u) (pair valid younger)) none =
      let sorted := [(sibling valid "a" 0).memory, (sibling valid "b" younger).memory].insertionSort
        fun a b => keyLe (sortKey a query) (sortKey b query) a.memoryId b.memoryId
      if query.deduplicate then deduplicated u query [] sorted else sorted := by
  have haccepts : query.accepts u reader.now valid.memory := h.2.2 query hquery
  have hboth : [(sibling valid "a" 0).memory, (sibling valid "b" younger).memory].filter
      (fun memory => decide (filterReasons u reader.now memory query = [])) =
        [(sibling valid "a" 0).memory, (sibling valid "b" younger).memory] := by
    refine List.filter_eq_self.mpr fun memory hmemory => ?_
    simp only [List.mem_cons, List.not_mem_nil, or_false] at hmemory
    rcases hmemory with rfl | rfl
    · exact decide_eq_true (p := query.accepts u reader.now _) (accepts_sibling haccepts)
    · exact decide_eq_true (p := query.accepts u reader.now _) (accepts_sibling haccepts)
  rw [selected_of_query hquery, pagedRows_pair h]
  simp only [Option.all_none, List.filter_true, basicSelect, Option.getD_some, hboth,
    (of_mem_memoryQuery hquery).2]

/-- Sorted by anything but the id, the younger sibling comes first. -/
private theorem selected_pair_sorted {valid : ValidMemory u} {query : MemoryQuery}
    (hquery : query ∈ reader.params.memoryQuery u) (hsort : query.sort ≠ .memoryId)
    (hkeep : query.deduplicate = false) (h : (reader.call u none none).Lists u valid.memory) :
    reader.selected u (written (dictMemoryRegister u) (pair valid 1)) none =
      [(sibling valid "b" 1).memory, (sibling valid "a" 0).memory] := by
  have hlater : keyLe (sortKey (sibling valid "a" 0).memory query)
      (sortKey (sibling valid "b" 1).memory query) "a" "b" = false := by
    have hscopes := (of_mem_memoryQuery hquery).1
    cases hs : query.sort with
    | memoryId => exact absurd hs hsort
    | _ => simp [sortKey, hs, scopeRank, hscopes, keyLe, sibling]
  rw [selected_pair hquery h, hkeep]
  exact if_neg (ne_true_of_eq_false hlater)

/-- Without duplicates, the first of two equal siblings is the whole list. -/
private theorem selected_pair_deduplicated {valid : ValidMemory u} {query : MemoryQuery}
    (hquery : query ∈ reader.params.memoryQuery u) (hdeduplicate : query.deduplicate = true)
    (h : (reader.call u none none).Lists u valid.memory) :
    reader.selected u (written (dictMemoryRegister u) (pair valid 0)) none =
      [(sibling valid "a" 0).memory] := by
  have hfirst : keyLe (sortKey (sibling valid "a" 0).memory query)
      (sortKey (sibling valid "b" 0).memory query) "a" "b" = true := by
    have hkey : sortKey (sibling valid "a" 0).memory query =
        sortKey (sibling valid "b" 0).memory query := rfl
    rw [hkey]
    have hself : ∀ l : List Rat, keyLe l l "a" "b" = true := by
      intro l
      induction l with
      | nil => decide
      | cons x l ih => simp [keyLe, ih]
    exact hself _
  have hsame : deduplicationKey u (sibling valid "b" 0).memory query =
      deduplicationKey u (sibling valid "a" 0).memory query := rfl
  rw [selected_pair hquery h, hdeduplicate]
  have hsorted : [(sibling valid "a" 0).memory, (sibling valid "b" 0).memory].insertionSort
      (fun a b => keyLe (sortKey a query) (sortKey b query) a.memoryId b.memoryId) =
        [(sibling valid "a" 0).memory, (sibling valid "b" 0).memory] := if_pos hfirst
  simp only [hsorted, if_true, deduplicated, List.not_mem_nil, if_false, hsame, List.mem_singleton]

/-- **Pages that join need the order of the ids.** Two siblings are enough to tell. -/
theorem PagesJoin.readsById {backend : Backend} {strategy : MemoryStrategy} {n : Nat} (hn : 0 < n)
    (h : reader.PagesJoin (storeRuntime backend u strategy).memoryRegister u n) :
    reader.ReadsById u := by
  by_contra hnot
  obtain ⟨hordered, hlisted⟩ := not_or.mp hnot
  obtain ⟨query, hquery, hbad⟩ : ∃ query, query ∈ reader.params.memoryQuery u ∧
      ¬(query.sort = .memoryId ∧ query.deduplicate = false) := by
    simpa only [not_forall, exists_prop] using hordered
  obtain ⟨valid, hvalid⟩ : ∃ valid : ValidMemory u,
      (reader.call u none none).Lists u valid.memory := by
    simpa only [not_forall, not_not] using hlisted
  -- A page is the selection behind its cursor, cut at `n`.
  have hpages : ∀ younger, ∃ fetch : Option String → Except Error (List MemoryItem),
      (∀ cursor, fetch cursor = .ok ((reader.selected u
        (written (dictMemoryRegister u) (pair valid younger)) cursor).take n)) ∧
      Pages MemoryItem.memoryId fetch none
        (reader.selected u (written (dictMemoryRegister u) (pair valid younger)) none) := by
    intro younger
    obtain ⟨all, hall, hjoin⟩ := h (pair valid younger)
    rw [list_eq backend strategy _ none rfl] at hall
    obtain rfl := Except.ok.inj hall
    refine ⟨_, fun cursor => ?_, hjoin⟩
    rw [list_eq backend strategy _ cursor (by simp)]
    simp [pySlice]
  by_cases hkeep : query.deduplicate = false
  · have hsort : query.sort ≠ .memoryId := fun hsort => hbad ⟨hsort, hkeep⟩
    obtain ⟨fetch, hfetch, hjoin⟩ := hpages 1
    obtain ⟨hagain, hbehind⟩ := selected_after_pair hquery hvalid 1
    rw [selected_pair_sorted hquery hsort hkeep hvalid] at hjoin
    have hfirst := hfetch none
    rw [selected_pair_sorted hquery hsort hkeep hvalid] at hfirst
    by_cases hone : n = 1
    · -- A page of one memory: the older sibling is skipped.
      subst hone
      have hempty := hfetch (some "b")
      rw [hbehind, List.take_nil] at hempty
      obtain ⟨rest, hrest, hnext⟩ := hjoin.of_fetch hfirst rfl
      rw [hnext.eq_nil hempty] at hrest
      simp at hrest
    · -- A page of both: the younger sibling is returned again.
      have htake : [(sibling valid "b" 1).memory, (sibling valid "a" 0).memory].take n =
          [(sibling valid "b" 1).memory, (sibling valid "a" 0).memory] :=
        List.take_of_length_le (by simp; omega)
      rw [htake] at hfirst
      obtain ⟨rest, hrest, hnext⟩ := hjoin.of_fetch hfirst rfl
      obtain rfl : rest = [] := by simpa using hrest
      have hlast := (hfetch (some "a")).symm.trans hnext.fetch_of_nil
      rw [hagain] at hlast
      simp at hlast
      omega
  · -- The duplicate that the list leaves out comes with the second page.
    have hdeduplicate : query.deduplicate = true := by simpa using hkeep
    obtain ⟨fetch, hfetch, hjoin⟩ := hpages 0
    obtain ⟨hagain, -⟩ := selected_after_pair hquery hvalid 0
    have hfirst := hfetch none
    rw [selected_pair_deduplicated hquery hdeduplicate hvalid] at hjoin hfirst
    rw [List.take_of_length_le (by simp; omega)] at hfirst
    obtain ⟨rest, hrest, hnext⟩ := hjoin.of_fetch hfirst rfl
    obtain rfl : rest = [] := by simpa using hrest
    have hlast := (hfetch (some "a")).symm.trans hnext.fetch_of_nil
    rw [hagain] at hlast
    simp at hlast
    omega

end MemoryReader

section Example

private def asciiCase : UnicodeTables := ⟨Char.isWhitespace, Char.isAlphanum, String.toLower⟩

/-- A client that sorts by priority. -/
private def byPriority : MemoryReader where
  params := { sort := some .priority }
  now := 0

/-- A client that sorts by id. -/
private def byId : MemoryReader where
  params := { sort := some .memoryId }
  now := 0

private def note : ValidMemory asciiCase where
  memory := { memoryId := "m", content := "x", createdAt := 0, updatedAt := 0 }
  valid := by decide +kernel

end Example

end EvernightAI
