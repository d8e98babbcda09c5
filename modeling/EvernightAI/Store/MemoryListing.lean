import EvernightAI.Store.ScopedAccess
import Mathlib.Data.String.Basic

/-!
# The two memory registers list alike

`SQLiteMemoryRegister.list_memories` leaves part of a query to its `WHERE` clause and the rest to
the selection that `MemoryRegister.list_memories` makes over all rows.

* `written_eq`: the same writes leave the same rows in both registers.
* `memoryListing_agrees_iff`: the registers answer a call alike after all writes when the clause
  keeps every memory that the call can list, and otherwise not.
* `MemoryQuery.sqlClause_of_accepts`: the clause keeps what the query accepts unless `scopes` holds
  a selector that differs from the query's own `scope` or `scope_id`.
-/

namespace EvernightAI

/-- A memory as the validators of `MemoryItem` leave it. -/
structure ValidMemory (u : UnicodeTables) where
  memory : MemoryItem
  valid : memory.validate u = .ok memory

/-- The writes of a memory register. -/
inductive MemoryWrite (u : UnicodeTables)
  | register (memory : ValidMemory u) (scope : Option PrincipalScope)
  | unregister (memoryId : String) (scope : Option PrincipalScope)

/-- A call of `list_memories`: the query and its time, the page and the scope. -/
structure MemoryListing where
  filter : MemoryFilter
  page : Page := {}
  scope : Option PrincipalScope := none
  deriving DecidableEq, Repr

/-! ### Writing -/

section SameRows

variable {ρ : Type} [Resource ρ]

open Resource

/-- The two registers delete the same rows, and refuse in the same cases. -/
theorem sqliteUnregister_eq_dictUnregister (recordId : String) (scope : Option PrincipalScope)
    (store : Store ρ) :
    sqliteUnregister recordId scope store = dictUnregister recordId scope store := by
  have hhas : sqliteHas recordId scope store = dictHas recordId scope store := by
    rw [Bool.eq_iff_iff, sqliteHas_iff, dictHas_iff]
  by_cases h : dictHas recordId scope store = true
  · obtain ⟨row, hrow, hkey, hpermits⟩ := dictHas_iff.mp h
    have hsome : (store.select (scopedIdentity recordId scope)).isEmpty = false := by
      simpa [sqliteHas] using hhas.trans h
    -- The key alone selects the row that the scope permits.
    have hsame : ∀ r ∈ store.rows,
        (!scopedIdentity recordId scope r) = !decide (key r = recordId) := by
      intro r hr
      congr 1
      rw [Bool.eq_iff_iff, scopedIdentity_iff, decide_eq_true_eq]
      refine ⟨And.left, fun hr' => ⟨hr', ?_⟩⟩
      rwa [Table.eq_of_key_eq hr hrow (hr'.trans hkey.symm)]
    have hdelete : store.deleteWhere (scopedIdentity recordId scope) =
        store.deleteWhere fun record => key record = recordId := by
      simp only [Table.deleteWhere, List.filter_congr hsame]
    rw [sqliteUnregister, dictUnregister, hsome, h, hdelete]
    rfl
  · have hnone : (store.select (scopedIdentity recordId scope)).isEmpty = true := by
      simpa [sqliteHas, h] using hhas
    rw [sqliteUnregister, dictUnregister, hnone, if_pos rfl, if_neg h]

end SameRows

section Writes

variable {u : UnicodeTables}

/-- The store after a write; a write that raises leaves it as it was. -/
def MemoryWrite.apply (memories : Register MemoryItem MemoryFilter) (store : Store MemoryItem) :
    MemoryWrite u → Store MemoryItem
  | .register valid scope => (memories.register valid.memory scope store).toOption.getD store
  | .unregister memoryId scope => (memories.unregister memoryId scope store).toOption.getD store

/-- The store after these writes, from the empty one. -/
def written (memories : Register MemoryItem MemoryFilter) (writes : List (MemoryWrite u)) :
    Store MemoryItem :=
  writes.foldl (MemoryWrite.apply memories) ∅

/-- The same writes leave the same rows in both registers. -/
theorem written_eq (writes : List (MemoryWrite u)) :
    written (sqliteMemoryRegister u) writes = written (dictMemoryRegister u) writes := by
  have happly : MemoryWrite.apply (u := u) (sqliteMemoryRegister u) =
      MemoryWrite.apply (dictMemoryRegister u) := by
    funext store write
    cases write with
    | register valid scope => rfl
    | unregister memoryId scope =>
      simp only [MemoryWrite.apply, sqliteMemoryRegister, dictMemoryRegister,
        sqliteUnregister_eq_dictUnregister]
  rw [written, written, happly]

/-- Every stored memory passes the validators unchanged. -/
def Validated (u : UnicodeTables) (store : Store MemoryItem) : Prop :=
  ∀ memory ∈ store, memory.validate u = .ok memory

/-- A write keeps a validated store validated. -/
theorem MemoryWrite.validated_apply {store : Store MemoryItem} (h : Validated u store)
    (write : MemoryWrite u) : Validated u (write.apply (dictMemoryRegister u) store) := by
  intro memory hmemory
  cases write with
  | register valid scope =>
    simp only [MemoryWrite.apply, dictMemoryRegister] at hmemory
    rcases hregister : registerRecord valid.memory scope store with _ | store'
    · rw [hregister] at hmemory
      exact h memory hmemory
    · rw [hregister] at hmemory
      obtain ⟨-, rfl⟩ := registerRecord_eq_ok hregister
      rcases Table.mem_upsert.mp hmemory with rfl | ⟨hold, -⟩
      · exact valid.valid
      · exact h memory hold
  | unregister memoryId scope =>
    simp only [MemoryWrite.apply, dictMemoryRegister, dictUnregister] at hmemory
    split at hmemory
    · exact h memory (Table.mem_deleteWhere.mp hmemory).1
    · exact h memory hmemory

/-- What was written is validated. -/
theorem validated_written (writes : List (MemoryWrite u)) :
    Validated u (written (dictMemoryRegister u) writes) := by
  have hfold : ∀ (store : Store MemoryItem), Validated u store →
      Validated u (writes.foldl (MemoryWrite.apply (dictMemoryRegister u)) store) := by
    induction writes with
    | nil => exact fun store h => h
    | cons write writes ih => exact fun store h => ih _ (write.validated_apply h)
  exact hfold ∅ fun memory h => absurd h (Table.not_mem_empty memory)

end Writes

/-! ### Listing -/

section Rows

variable {ρ : Type} [Resource ρ]

open Resource

/-- The stored rows within the page's cursor and owner, in the order of their ids. -/
def pagedRows (page : Page) (scope : Option PrincipalScope) (store : Store ρ) : List ρ :=
  match listedOwner scope page.ownerId with
  | none => []
  | some owner => (sortById store.rows).filter fun record =>
      page.cursor.all (· < key record) && owner.all (some · = ownerId record)

/-- In a store the ids are in strict order once sorted. -/
theorem pairwise_sortById (store : Store ρ) :
    (sortById store.rows).Pairwise fun a b => key a < key b := by
  have hle : (sortById store.rows).Pairwise fun a b => key a ≤ key b :=
    @List.pairwise_insertionSort ρ (fun a b => key a ≤ key b) _ ⟨fun a b => le_total _ _⟩
      ⟨fun a b c => le_trans⟩ store.rows
  have hne : (sortById store.rows).Pairwise fun a b => key a ≠ key b := by
    have hnodup : ((sortById store.rows).map key).Nodup :=
      ((List.perm_insertionSort _ store.rows).map key).nodup_iff.mpr store.nodup
    exact List.pairwise_map.mp hnodup
  exact (hle.and hne).imp fun h => lt_of_le_of_ne h.1 h.2

theorem pairwise_pagedRows (page : Page) (scope : Option PrincipalScope) (store : Store ρ) :
    (pagedRows page scope store).Pairwise fun a b => key a < key b := by
  unfold pagedRows
  split
  · exact List.Pairwise.nil
  · exact (pairwise_sortById store).sublist List.filter_sublist

/-- Rows may be picked before they are sorted. -/
theorem sortById_select (p : ρ → Bool) (store : Store ρ) :
    sortById (store.select p) = (sortById store.rows).filter p := by
  have hperm : (sortById (store.select p)).Perm ((sortById store.rows).filter p) :=
    (List.perm_insertionSort _ _).trans ((List.perm_insertionSort _ _).filter p).symm
  have hsorted : (sortById (store.select p)).Pairwise fun a b => key a ≤ key b :=
    @List.pairwise_insertionSort ρ (fun a b => key a ≤ key b) _ ⟨fun a b => le_total _ _⟩
      ⟨fun a b c => le_trans⟩ (store.select p)
  refine hperm.eq_of_pairwise (fun a b ha hb hab hba => ?_) hsorted
    (((pairwise_sortById store).sublist List.filter_sublist).imp le_of_lt)
  have ha' : a ∈ store := List.mem_of_mem_filter (mem_sortById.mp ha)
  have hb' : b ∈ store := mem_sortById.mp (List.mem_of_mem_filter hb)
  exact Table.eq_of_key_eq ha' hb' (le_antisymm hab hba)

theorem sqliteRows_eq (clause : ρ → Bool) (page : Page) (scope : Option PrincipalScope)
    (store : Store ρ) : sqliteRows clause page scope store =
      sqlLimit page.limit ((pagedRows page scope store).filter clause) := by
  unfold sqliteRows pagedRows
  rcases listedOwner scope page.ownerId with _ | owner
  · rcases page.limit with _ | n
    · rfl
    · simp [sqlLimit]
  · simp only [sortById_select, List.filter_filter, Bool.and_comm (clause _)]

theorem dictRows_eq {keep : List ρ → List ρ} (hkeep : keep [] = []) (page : Page)
    (scope : Option PrincipalScope) (store : Store ρ) :
    dictRows keep page scope store = pySlice page.limit (keep (pagedRows page scope store)) := by
  unfold dictRows pagedRows
  rcases listedOwner scope page.ownerId with _ | owner
  · rcases page.limit with _ | n
    · exact hkeep.symm
    · simp [hkeep, pySlice]
  · simp only [List.filter_filter, Bool.and_comm (owner.all _)]

theorem mem_pagedRows {page : Page} {scope : Option PrincipalScope} {store : Store ρ} {record : ρ}
    (h : record ∈ pagedRows page scope store) : record ∈ store := by
  unfold pagedRows at h
  split at h
  · exact absurd h List.not_mem_nil
  · exact mem_sortById.mp (List.mem_of_mem_filter h)

end Rows

/-! ### Selecting from the rows that the clause keeps -/

section Clause

variable (u : UnicodeTables) (now : Instant)

/-- What `_filter_reasons` finds no reason against. -/
def MemoryQuery.accepts (query : MemoryQuery) (memory : MemoryItem) : Prop :=
  filterReasons u now memory query = []

instance (query : MemoryQuery) (memory : MemoryItem) : Decidable (query.accepts u now memory) :=
  inferInstanceAs (Decidable (filterReasons u now memory query = []))

variable {u now}

/-- Rows that the query does not accept may be dropped before the selection. -/
theorem basicSelect_filter {p : MemoryItem → Bool} {query : MemoryQuery}
    {memories : List MemoryItem}
    (h : ∀ memory ∈ memories, query.accepts u now memory → p memory = true) :
    basicSelect u now (memories.filter p) (some query) =
      basicSelect u now memories (some query) := by
  have hsame : (memories.filter p).filter (fun memory =>
      decide (filterReasons u now memory query = [])) =
      memories.filter fun memory => filterReasons u now memory query = [] := by
    rw [List.filter_filter]
    refine List.filter_congr fun memory hmemory => ?_
    by_cases haccepts : filterReasons u now memory query = []
    · simp [haccepts, h memory hmemory haccepts]
    · simp [haccepts]
  simp only [basicSelect, Option.getD_some, hsame]

@[simp] theorem basicSelect_nil (query : Option MemoryQuery) : basicSelect u now [] query = [] :=
  List.subset_nil.mp (basicSelect_subset u now [] query)

/-- A selection from one memory that is accepted. -/
theorem basicSelect_singleton {query : MemoryQuery} {memory : MemoryItem}
    (h : query.accepts u now memory) (hlimit : query.limit ≠ some 0) :
    basicSelect u now [memory] (some query) = [memory] := by
  have hfilter : [memory].filter (fun m => decide (filterReasons u now m query = [])) =
      [memory] := by
    refine List.filter_eq_self.mpr fun m hm => ?_
    rw [List.mem_singleton.mp hm]
    exact decide_eq_true (p := query.accepts u now memory) h
  simp only [basicSelect, Option.getD_some, hfilter, List.insertionSort, List.foldr,
    List.orderedInsert, deduplicated, List.not_mem_nil, if_false, ite_self]
  cases hl : query.limit with
  | none => rfl
  | some n =>
    cases n with
    | zero => exact absurd hl hlimit
    | succ n => simp

end Clause

/-- **What the clause drops, the query refuses**, unless `scopes` holds a selector that is not the
query's own `scope` and `scope_id`. -/
theorem MemoryQuery.sqlClause_of_accepts {u : UnicodeTables} {now : Instant} {query : MemoryQuery}
    {memory : MemoryItem}
    (hscopes : ∀ selector ∈ query.scopes,
      query.scope.all (· = selector.scope) = true ∧
        query.scopeId.all (some · = selector.scopeId) = true)
    (h : query.accepts u now memory) : query.sqlClause memory = true := by
  simp only [MemoryQuery.accepts, filterReasons, List.append_eq_nil_iff, ite_eq_right_iff,
    ite_eq_left_iff, List.cons_ne_nil, imp_false, Bool.not_eq_true, and_assoc] at h
  obtain ⟨-, hscope, hkinds, -, -, hrelevance, hconfidence, -⟩ := h
  have hcolumns : query.scope.all (· = memory.scope) = true ∧
      query.scopeId.all (some · = memory.scopeId) = true := by
    rw [Bool.not_eq_false] at hscope
    unfold matchesScope at hscope
    split_ifs at hscope with hne hscope' hscopeId'
    · obtain ⟨selector, hselector, hfalls⟩ := List.any_eq_true.mp hscope
      obtain ⟨hs, hi⟩ : memory.scope = selector.scope ∧ memory.scopeId = selector.scopeId := by
        simpa using hfalls
      rw [hs, hi]
      exact hscopes selector hselector
    · refine ⟨?_, ?_⟩
      · rcases hq : query.scope with _ | scope
        · rfl
        · simpa [hq] using hscope'
      · rcases hq : query.scopeId with _ | scopeId
        · rfl
        · simpa [hq] using hscopeId'
  have hkind : (query.kinds.isEmpty || query.kinds.contains memory.kind) = true := by
    by_cases hempty : query.kinds = []
    · simp [hempty]
    · have hmem : memory.kind ∈ query.kinds := by
        by_contra hnot
        exact hkinds ⟨hempty, hnot⟩
      simp [hmem]
  have hmin : ∀ {minimum : Option Rat} {value : Rat},
      minimum.any (value < ·) = false → minimum.all (· ≤ value) = true := by
    intro minimum value hany
    rcases minimum with _ | bound
    · rfl
    · simpa using hany
  simp only [MemoryQuery.sqlClause, hcolumns.1, hcolumns.2, hkind, hmin hrelevance,
    hmin hconfidence, Bool.and_self]

/-! ### The registers agree -/

namespace MemoryListing

variable {u : UnicodeTables} {call : MemoryListing}

variable (u) in
/-- The two registers answer the call alike, whatever was written to both. -/
def Agrees (call : MemoryListing) : Prop :=
  ∀ writes : List (MemoryWrite u),
    (sqliteMemoryRegister u).list call.filter call.page call.scope
        (written (sqliteMemoryRegister u) writes) =
      (dictMemoryRegister u).list call.filter call.page call.scope
        (written (dictMemoryRegister u) writes)

variable (u) in
/-- The memory is within the cursor and the owner of the call, and its query accepts it. -/
def Lists (call : MemoryListing) (memory : MemoryItem) : Prop :=
  call.page.cursor.all (· < memory.memoryId) = true ∧
  (∃ owner, listedOwner call.scope call.page.ownerId = some owner ∧
    owner.all (some · = memory.ownerId) = true) ∧
  ∀ query ∈ call.filter.query, query.accepts u call.filter.now memory

variable (u) in
/-- **What the call leaves to SQL keeps every memory the call can list**: its `WHERE` clause, when
it has a query, and its `LIMIT`, when it has none. -/
def ClauseKeeps (call : MemoryListing) : Prop :=
  call.page.limit = some 0 ∨ ∀ valid : ValidMemory u, call.Lists u valid.memory →
    match call.filter.query with
    | none => call.page.limit.all (0 ≤ ·) = true
    | some query => query.sqlClause valid.memory = true

/-- The answer of `MemoryRegister`. -/
theorem dict_list (call : MemoryListing) (store : Store MemoryItem) :
    (dictMemoryRegister u).list call.filter call.page call.scope store =
      .ok (pySlice call.page.limit
        (match call.filter.query with
        | none => pagedRows call.page call.scope store
        | some query =>
          basicSelect u call.filter.now (pagedRows call.page call.scope store) query)) := by
  refine congrArg Except.ok (dictRows_eq ?_ call.page call.scope store)
  rcases call.filter.query with _ | query
  · rfl
  · exact basicSelect_nil (some query)

/-- A validated row is read as it was written. -/
theorem mapM_load {rows : List MemoryItem} (h : ∀ row ∈ rows, row.validate u = .ok row) :
    rows.mapM (Resource.load u) = .ok rows := by
  induction rows with
  | nil => rfl
  | cons row rows ih =>
    have hrow : Resource.load u row = .ok row := h row List.mem_cons_self
    rw [List.mapM_cons, hrow, ih fun r hr => h r (List.mem_cons_of_mem _ hr)]
    rfl

/-- The answer of `SQLiteMemoryRegister` over validated rows. -/
theorem sqlite_list {store : Store MemoryItem} (h : Validated u store) :
    (sqliteMemoryRegister u).list call.filter call.page call.scope store =
      .ok (match call.filter.query with
        | none => sqlLimit call.page.limit (pagedRows call.page call.scope store)
        | some query => pySlice call.page.limit (basicSelect u call.filter.now
            ((pagedRows call.page call.scope store).filter query.sqlClause) query)) := by
  simp only [sqliteMemoryRegister]
  rcases call.filter.query with _ | query
  · simp only [sqliteRows_eq]
    have hrows : (pagedRows call.page call.scope store).filter (fun _ => true) =
        pagedRows call.page call.scope store := List.filter_true _
    rw [hrows]
    exact mapM_load fun row hrow => h row (mem_pagedRows (mem_of_mem_sqlLimit hrow))
  · have hrows : sqliteRows query.sqlClause { call.page with limit := none } call.scope store =
        (pagedRows call.page call.scope store).filter query.sqlClause := sqliteRows_eq ..
    have hload : ((pagedRows call.page call.scope store).filter query.sqlClause).mapM
        (Resource.load u) = .ok ((pagedRows call.page call.scope store).filter query.sqlClause) :=
      mapM_load fun row hrow => h row (mem_pagedRows (List.mem_of_mem_filter hrow))
    simp only [hrows, hload]

/-- The rows of a page are within its cursor and its owner. -/
theorem lists_of_mem_pagedRows {store : Store MemoryItem} {memory : MemoryItem}
    (h : memory ∈ pagedRows call.page call.scope store)
    (haccepts : ∀ query ∈ call.filter.query, query.accepts u call.filter.now memory) :
    call.Lists u memory := by
  unfold pagedRows at h
  split at h
  · exact absurd h List.not_mem_nil
  · next owner howner =>
    obtain ⟨hcursor, hwho⟩ := Bool.and_eq_true_iff.mp (List.mem_filter.mp h).2
    exact ⟨hcursor, ⟨owner, howner, hwho⟩, haccepts⟩

/-- **The registers agree** where SQL keeps what the call can list. -/
theorem ClauseKeeps.agrees (h : call.ClauseKeeps u) : call.Agrees u := by
  intro writes
  have hvalid := validated_written writes
  rw [written_eq, sqlite_list hvalid, dict_list]
  congr 1
  set store := written (dictMemoryRegister u) writes
  rcases h with hzero | hkeeps
  · rcases call.filter.query with _ | query <;> simp [hzero, sqlLimit, pySlice]
  have hrow : ∀ memory ∈ pagedRows call.page call.scope store, ∃ valid : ValidMemory u,
      valid.memory = memory := fun memory hmemory =>
    ⟨⟨memory, hvalid memory (mem_pagedRows hmemory)⟩, rfl⟩
  rcases hquery : call.filter.query with _ | query
  · simp only [hquery] at hkeeps ⊢
    rcases hrows : pagedRows call.page call.scope store with _ | ⟨memory, rows⟩
    · rcases call.page.limit with _ | n
      · rfl
      · simp [sqlLimit, pySlice]
    · obtain ⟨valid, rfl⟩ := hrow memory (by rw [hrows]; exact List.mem_cons_self)
      have hlimit := hkeeps valid
        (lists_of_mem_pagedRows (by rw [hrows]; exact List.mem_cons_self) (by simp [hquery]))
      rcases hl : call.page.limit with _ | n
      · rfl
      · have hn : ¬n < 0 := by simpa [hl] using hlimit
        simp only [sqlLimit, pySlice, hn, if_false]
  · simp only [hquery] at hkeeps ⊢
    rw [basicSelect_filter fun memory hmemory haccepts => ?_]
    obtain ⟨valid, rfl⟩ := hrow memory hmemory
    refine hkeeps valid (lists_of_mem_pagedRows hmemory fun q hq => ?_)
    rw [hquery, Option.mem_some_iff] at hq
    exact hq ▸ haccepts

/-- The one write that stores this memory. -/
private def stored (valid : ValidMemory u) : List (MemoryWrite u) := [.register valid none]

private theorem written_stored (valid : ValidMemory u) :
    written (dictMemoryRegister u) (stored valid) = (∅ : Store MemoryItem).upsert valid.memory :=
  rfl

/-- A listed memory that is the only one stored is the page. -/
private theorem pagedRows_stored {valid : ValidMemory u} (h : call.Lists u valid.memory) :
    pagedRows call.page call.scope (written (dictMemoryRegister u) (stored valid)) =
      [valid.memory] := by
  obtain ⟨hcursor, ⟨owner, howner, hwho⟩, -⟩ := h
  have hrows : sortById (written (dictMemoryRegister u) (stored valid)).rows = [valid.memory] := by
    rw [written_stored]
    rfl
  unfold pagedRows
  rw [howner, hrows]
  refine List.filter_eq_self.mpr fun memory hmemory => ?_
  rw [List.mem_singleton.mp hmemory]
  exact Bool.and_eq_true_iff.mpr ⟨hcursor, hwho⟩

/-- **Agreement needs SQL to keep what the call can list.** One such memory that SQL drops is
enough to tell the registers apart. -/
theorem Agrees.clauseKeeps
    (hlimit : call.filter.query = none ∨ call.page.limit.all (0 ≤ ·) = true)
    (hquery : ∀ query ∈ call.filter.query, query.limit ≠ some 0) (h : call.Agrees u) :
    call.ClauseKeeps u := by
  by_cases hzero : call.page.limit = some 0
  · exact Or.inl hzero
  refine Or.inr fun valid hlists => ?_
  have hagree := h (stored valid)
  rw [written_eq, sqlite_list (validated_written _), dict_list, pagedRows_stored hlists] at hagree
  have hagree := Except.ok.inj hagree
  rcases hq : call.filter.query with _ | query
  · simp only [hq] at hagree ⊢
    rcases hl : call.page.limit with _ | n
    · rfl
    · simp only [hl, sqlLimit, pySlice] at hagree
      by_cases hn : n < 0
      · have hlength := congrArg List.length hagree
        have habs : n.natAbs ≠ 0 := by omega
        simp only [hn, if_true, List.length_singleton, List.length_take] at hlength
        omega
      · simpa using hn
  · simp only [hq] at hagree ⊢
    have haccepts := hlists.2.2 query (by simp [hq])
    by_contra hclause
    have hdropped : [valid.memory].filter query.sqlClause = [] := by
      rw [List.filter_cons_of_neg hclause, List.filter_nil]
    rw [hdropped, basicSelect_nil,
      basicSelect_singleton haccepts (hquery query (by simp [hq]))] at hagree
    rcases hl : call.page.limit with _ | n
    · simp [hl, pySlice] at hagree
    · have hn : ¬n < 0 := by
        rcases hlimit with hnone | hpos
        · rw [hq] at hnone
          cases hnone
        · simpa [hl] using hpos
      have hpos : n.toNat ≠ 0 := by
        rw [hl] at hzero
        intro h0
        exact hzero (by congr 1; omega)
      have hlength := congrArg List.length hagree
      simp only [hl, pySlice, hn, if_false, List.length_take, List.length_nil,
        List.length_singleton] at hlength
      omega

end MemoryListing

section Example

private def asciiFolding : UnicodeTables := ⟨Char.isWhitespace, Char.isAlphanum, String.toLower⟩

private def sessionMemory : ValidMemory asciiFolding where
  memory := {
    memoryId := "m", content := "x", scope := .session, scopeId := some "s"
    createdAt := 0, updatedAt := 0 }
  valid := by decide +kernel

/-- A query for the memories of a session that also names the scope of a user. -/
private def userScopedQuery : MemoryListing where
  filter := {
    query := some { scope := some .user, scopes := [{ scope := .session, scopeId := some "s" }] }
    now := 0 }

end Example

end EvernightAI
