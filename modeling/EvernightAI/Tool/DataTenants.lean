import EvernightAI.Store.Isolation
import EvernightAI.Store.MemoryListing
import EvernightAI.Tool.RuntimeData

/-!
# Which data tool calls keep tenants apart

The executors of the runtime data tools are not told for whom a call is made. A call keeps the
tenants apart when it creates nothing and the records it is about are not another principal's
(`DataToolManager.SparesOthers`): then nothing of another principal is returned, changed or
replaced, and runs on stores that differ in other principals' records only have the same results
(`dataTools_keepTenantsApart`).
-/

namespace EvernightAI

open Resource StatefulProgram TransitionSystem

/-- What a call is about: it creates a record, or works on one id or on all records of a kind. -/
inductive DataTarget
  | creates
  | row (kind : ResourceKind) (id : String)
  | all (kind : ResourceKind)
  deriving DecidableEq, Repr

/-- The target that the arguments of a call name. -/
def DataTools.target (tools : DataTools) (input : DataToolInput) (arguments : Dict) :
    DataTool → Except Error DataTarget
  | .createContext => (tools.contextArgument input arguments).map fun _ => .creates
  | .listContexts => .ok (.all .context)
  | .getContext =>
    (requiredString (arguments.get "context_id") "context_id").map (.row .context)
  | .appendContextMessage => (tools.messageArgument arguments).map fun m => .row .context m.1
  | .writeMemory => (tools.memoryArgument input arguments).map fun _ => .creates
  | .listMemories => .ok (.all .memory)
  | .getMemory => (requiredString (arguments.get "memory_id") "memory_id").map (.row .memory)
  | .createSession => (tools.sessionArgument input arguments).map fun _ => .creates
  | .listSessions => .ok (.all .session)
  | .getSession | .archiveSession =>
    (requiredString (arguments.get "session_id") "session_id").map (.row .session)

/-- No record of the target is another principal's, and none is created. -/
def DataTarget.Spares (P : Principal) (w : Stores) : DataTarget → Prop
  | .creates => False
  | .row kind id => ∀ record, w.Holds record → record.key = (kind, id) → ¬record.Foreign P
  | .all kind => ∀ record, w.Holds record → record.key.1 = kind → ¬record.Foreign P

namespace DataToolManager

variable (m : DataToolManager)

/-- The call is refused, or its target spares the other principals. -/
def SparesOthers (P : Principal) (w : Stores) (call : DataCall) : Prop :=
  ∀ tool arguments target, m.reached call.call = .ok (some tool, arguments) →
    m.tools.target call.input arguments tool = .ok target → target.Spares P w

/-- The stores after a call. -/
def step (w : Stores) (call : DataCall) : Option Stores := some (after (m.execute call) w)

/-- What the calls of a run return or raise. -/
def results : Stores → List DataCall → List (Except Error (List Record))
  | _, [] => []
  | w, call :: calls => outcome (m.execute call) w :: results (after (m.execute call) w) calls

/-- What the call returns is not read from another principal's rows. -/
def ReturnsNoOther (P : Principal) (u : UnicodeTables) (w : Stores) (call : DataCall) : Prop :=
  ∀ {records w'}, m.execute call w = .ok records w' → ∀ record ∈ records,
    ∃ row, w'.Holds row ∧ ¬row.Foreign P ∧ row.ReadsAs u record

end DataToolManager

/-- The stores hold the same records apart from those of principals other than `P`. -/
def Stores.SameApartFrom (P : Principal) (w w' : Stores) : Prop :=
  ∀ record : Record, ¬record.Foreign P → (w.Holds record ↔ w'.Holds record)

/-- The principal finds a record under this id. -/
def Stores.Reaches (rt : StoreRuntime) (P : Principal) (w : Stores) :
    ResourceKind × String → Prop
  | (.context, id) =>
    rt.contextRegister.has id (some (PrincipalScope.forPrincipal P)) w.contexts = true
  | (.session, id) =>
    rt.sessionRegister.has id (some (PrincipalScope.forPrincipal P)) w.sessions = true
  | (.memory, id) =>
    rt.memoryRegister.has id (some (PrincipalScope.forPrincipal P)) w.memories = true

/-- The record that the arguments of a creation describe. -/
def DataTools.created (tools : DataTools) (input : DataToolInput) (arguments : Dict) :
    DataTool → Option Record
  | .createContext => (tools.contextArgument input arguments).toOption.map .context
  | .writeMemory => (tools.memoryArgument input arguments).toOption.map .memory
  | .createSession => (tools.sessionArgument input arguments).toOption.map .session
  | _ => none

/-- What the call creates is the principal's afterwards, who reaches it. -/
def DataToolManager.CreatesOwn (m : DataToolManager) (P : Principal) (w : Stores)
    (call : DataCall) : Prop :=
  ∀ {tool arguments record}, m.reached call.call = .ok (some tool, arguments) →
    m.tools.created call.input arguments tool = some record →
    (after (m.execute call) w).Reaches m.tools.runtime P record.key ∧
    ∃ row, (after (m.execute call) w).Holds row ∧ row.key = record.key ∧
      row.ownerId = some P.principalId

/-- **Tenants kept apart** over a run of calls for `P`: nothing of another principal is returned;
another principal's records stay as they are, and none appears; what a call creates is `P`'s, and
`P` reaches it. -/
structure DataToolManager.KeepsApart (m : DataToolManager) (P : Principal) (w : Stores)
    (calls : List DataCall) : Prop where
  returned : Along m.step (m.ReturnsNoOther P m.tools.unicode) w calls
  stored : ∀ w', run m.step w calls = some w' →
    ∀ record, record.Foreign P → (w'.Holds record ↔ w.Holds record)
  created : Along m.step (m.CreatesOwn P) w calls

/-! ### One store -/

section OneStore

variable {ρ Filter : Type} [Resource ρ] {P : Principal} {u : UnicodeTables}
  {reg : Register ρ Filter} {s t : Store ρ}

/-- The row is another principal's. -/
def ForeignRow (P : Principal) (row : ρ) : Prop :=
  ∃ owner, ownerId row = some owner ∧ owner ≠ P.principalId

/-- The other principals' rows stay, and no key is new. -/
structure KeepsForeign (P : Principal) (s s' : Store ρ) : Prop where
  foreign : ∀ row : ρ, ForeignRow P row → (row ∈ s' ↔ row ∈ s)
  keys : ∀ row ∈ s', ∃ old ∈ s, key old = key row

theorem KeepsForeign.refl (s : Store ρ) : KeepsForeign P s s :=
  ⟨fun _ _ => Iff.rfl, fun row hrow => ⟨row, hrow, rfl⟩⟩

/-- Writing over a row that is not another principal's, for the same owner. -/
theorem keepsForeign_upsert {row new : ρ} (hrow : row ∈ s) (hspared : ¬ForeignRow P row)
    (hkey : key new = key row) (howner : ownerId new = ownerId row) :
    KeepsForeign P s (s.upsert new) := by
  have hnew : ¬ForeignRow P new := by
    rintro ⟨owner, hsome, hne⟩
    exact hspared ⟨owner, howner ▸ hsome, hne⟩
  refine ⟨fun other hother => ?_, fun other hother => ?_⟩
  · rw [Table.mem_upsert]
    constructor
    · rintro (rfl | h)
      · exact absurd hother hnew
      · exact h.1
    · refine fun hmem => Or.inr ⟨hmem, fun hk => hspared ?_⟩
      rwa [← Table.eq_of_key_eq hmem hrow (hk.trans hkey)]
  · rcases Table.mem_upsert.mp hother with rfl | ⟨hmem, -⟩
    · exact ⟨row, hrow, hkey.symm⟩
    · exact ⟨other, hmem, rfl⟩

/-- `record` is read from a row that is not another principal's. -/
def ReadSpared (P : Principal) (u : UnicodeTables) (record : ρ) (s : Store ρ) : Prop :=
  ∃ row ∈ s, ¬ForeignRow P row ∧ ReadsAs u row record

theorem does_get_spared (hreg : reg.Scoped u) {id : String}
    (hspared : ∀ row ∈ s, key row = id → ¬ForeignRow P row) :
    Does (Register.reading (reg.get id none)) s (KeepsForeign P s) (ReadSpared P u) := by
  rcases h : reg.get id none s with e | record
  · exact .of_error (Register.reading_of_error h) (.refl s)
  · obtain ⟨row, hrow, hkey, -, hreads⟩ := hreg.get h
    exact .of_ok (Register.reading_of_ok h) (.refl s) ⟨row, hrow, hspared row hrow hkey, hreads⟩

theorem does_list_spared (hreg : reg.Scoped u) (filter : Filter) (page : Page)
    (hspared : ∀ row ∈ s, ¬ForeignRow P row) :
    Does (Register.reading (reg.list filter page none)) s (KeepsForeign P s)
      fun records s' => ∀ record ∈ records, ReadSpared P u record s' := by
  rcases h : reg.list filter page none s with e | records
  · exact .of_error (Register.reading_of_error h) (.refl s)
  · refine .of_ok (Register.reading_of_ok h) (.refl s) fun record hrecord => ?_
    obtain ⟨row, hrow, -, hreads⟩ := hreg.list h record hrecord
    exact ⟨row, hrow, hspared row hrow, hreads⟩

/-! ### Two stores -/

/-- The stores have the same rows, apart from other principals'. -/
def SameRows (P : Principal) (s t : Store ρ) : Prop :=
  ∀ row : ρ, ¬ForeignRow P row → (row ∈ s ↔ row ∈ t)

/-- What a register reads without a scope depends on the rows only. -/
structure Register.ReadsRows (reg : Register ρ Filter) : Prop where
  get : ∀ {id : String} {s t : Store ρ}, s.find? id = t.find? id →
    reg.get id none s = reg.get id none t
  list : ∀ {filter : Filter} {page : Page} {s t : Store ρ}, (∀ row, row ∈ s ↔ row ∈ t) →
    reg.list filter page none s = reg.list filter page none t

/-- Under an id that no other principal uses, both stores have the same row. -/
theorem find?_eq_of_sameRows (h : SameRows P s t) {id : String}
    (hs : ∀ row ∈ s, key row = id → ¬ForeignRow P row)
    (ht : ∀ row ∈ t, key row = id → ¬ForeignRow P row) : s.find? id = t.find? id := by
  ext row
  rw [Table.find?_eq_some, Table.find?_eq_some]
  constructor
  · rintro ⟨hrow, hkey⟩
    exact ⟨(h row (hs row hrow hkey)).mp hrow, hkey⟩
  · rintro ⟨hrow, hkey⟩
    exact ⟨(h row (ht row hrow hkey)).mpr hrow, hkey⟩

theorem alike_reading {α : Type} {f : Store ρ → Except Error α} {R : Store ρ → Store ρ → Prop}
    (hf : f s = f t) (hR : R s t) : Alike R (Register.reading f s) (Register.reading f t) := by
  unfold Register.reading
  rw [← hf]
  rcases f s with e | a
  · exact .error hR
  · exact .ok hR

/-- Writing the same row over both stores. -/
theorem SameRows.upsert (h : SameRows P s t) (new : ρ) :
    SameRows P (s.upsert new) (t.upsert new) := by
  intro row hrow
  rw [Table.mem_upsert, Table.mem_upsert, h row hrow]

/-- Sorting forgets in which order the rows were written. -/
theorem sortById_congr (h : ∀ row, row ∈ s ↔ row ∈ t) : sortById s.rows = sortById t.rows := by
  have hperm : s.rows.Perm t.rows :=
    (List.perm_ext_iff_of_nodup s.nodup.of_map t.nodup.of_map).mpr h
  have hs : (sortById s.rows).Perm s.rows := List.perm_insertionSort _ _
  have ht : (sortById t.rows).Perm t.rows := List.perm_insertionSort _ _
  refine ((hs.trans hperm).trans ht.symm).eq_of_pairwise (fun a b ha hb hab hba => ?_)
    ((pairwise_sortById s).imp le_of_lt) ((pairwise_sortById t).imp le_of_lt)
  have ha' : a ∈ s := mem_sortById.mp ha
  have hb' : b ∈ s := (h b).mpr (mem_sortById.mp hb)
  exact Table.eq_of_key_eq ha' hb' (le_antisymm hab hba)

theorem sqliteRows_congr (h : ∀ row, row ∈ s ↔ row ∈ t) (clause : ρ → Bool) (page : Page)
    (scope : Option PrincipalScope) :
    sqliteRows clause page scope s = sqliteRows clause page scope t := by
  simp only [sqliteRows, sortById_select, sortById_congr h]

theorem dictRows_congr (h : ∀ row, row ∈ s ↔ row ∈ t) (keep : List ρ → List ρ) (page : Page)
    (scope : Option PrincipalScope) : dictRows keep page scope s = dictRows keep page scope t := by
  simp only [dictRows, sortById_congr h]

/-- Without a scope the statement selects by the key alone. -/
theorem head?_select_scopedIdentity (id : String) (s : Store ρ) :
    (s.select (scopedIdentity id none)).head? = s.find? id :=
  List.head?_filter

theorem sqliteGet_congr {id : String} (h : s.find? id = t.find? id) :
    sqliteGet u id none s = sqliteGet u id none t := by
  rw [sqliteGet, sqliteGet, head?_select_scopedIdentity, head?_select_scopedIdentity, h]

theorem dictGet_congr {id : String} (h : s.find? id = t.find? id) :
    dictGet id none s = dictGet id none t := by
  rw [dictGet, dictGet, dictHas, dictHas, h]

end OneStore

section Updates

variable {P : Principal} {u : UnicodeTables}

theorem does_archive_spared {reg : Register Session SessionFilter} (hreg : reg.Scoped u)
    {id : String} (now : Instant) {s : Store Session}
    (hspared : ∀ row ∈ s, key row = id → ¬ForeignRow P row) :
    Does (archiveSession reg id now none) s (KeepsForeign P s) (ReadSpared P u) := by
  unfold archiveSession
  rcases h : reg.get id none s with e | session
  · exact .of_error (bind_of_error (Register.reading_of_error h)) (.refl s)
  · obtain ⟨row, hrow, hkey, -, hreads⟩ := hreg.get h
    -- A session reads back as the row that was stored.
    obtain rfl : session = row := by
      rcases hreads with hreads | hreads
      · exact hreads
      · exact (Except.ok.inj hreads).symm
    have hnot := hspared session hrow hkey
    have hwrite : Register.writing
        (reg.register { session with status := .archived, updatedAt := now } none) s =
          .ok () (s.upsert { session with status := .archived, updatedAt := now }) := by
      refine Register.writing_of_ok ?_
      rw [hreg.register, registerRecord_of_permits s rfl]
    refine .bind_of_ok (Register.reading_of_ok h) (.bind_of_ok hwrite (.of_ok rfl ?_ ?_))
    · exact keepsForeign_upsert hrow hnot rfl rfl
    · exact ⟨_, Table.mem_upsert.mpr (Or.inl rfl), hnot, Or.inl rfl⟩

theorem does_append_spared {reg : ContextRegister} (hreg : reg.Appends) {id : String}
    (message : Content) {s : Store Context}
    (hspared : ∀ row ∈ s, key row = id → ¬ForeignRow P row) :
    Does (appendContext reg id message none none) s (KeepsForeign P s) (ReadSpared P u) := by
  rcases h : reg.appendMessage id message none none s with e | ⟨updated, s'⟩
  · have happend : appendContext reg id message none none s = .error e s := by
      simp only [appendContext, h]
    exact .of_error happend (.refl s)
  · obtain ⟨row, hrow, hkey, -, rfl, rfl⟩ := hreg.appendMessage h
    have happend : appendContext reg id message none none s =
        .ok (row.withMessage message) (s.upsert (row.withMessage message)) := by
      simp only [appendContext, h]
    have hnot := hspared row hrow hkey
    exact .of_ok happend (keepsForeign_upsert hrow hnot rfl rfl)
      ⟨_, Table.mem_upsert.mpr (Or.inl rfl), hnot, Or.inl rfl⟩

theorem alike_archive {reg : Register Session SessionFilter} (hreg : reg.Scoped u)
    (hreads : reg.ReadsRows) {id : String} (now : Instant) {s t : Store Session}
    (hfind : s.find? id = t.find? id) (h : SameRows P s t) :
    Alike (SameRows P) (archiveSession reg id now none s) (archiveSession reg id now none t) := by
  have hget := hreads.get hfind
  unfold archiveSession
  rcases hs : reg.get id none s with e | session
  · rw [bind_of_error (Register.reading_of_error hs),
      bind_of_error (Register.reading_of_error (hget.symm.trans hs))]
    exact .error h
  · have hwrite : ∀ r : Store Session, Register.writing
        (reg.register { session with status := .archived, updatedAt := now } none) r =
          .ok () (r.upsert { session with status := .archived, updatedAt := now }) := by
      refine fun r => Register.writing_of_ok ?_
      rw [hreg.register, registerRecord_of_permits r rfl]
    rw [bind_of_ok (Register.reading_of_ok hs),
      bind_of_ok (Register.reading_of_ok (hget.symm.trans hs)), bind_of_ok (hwrite s),
      bind_of_ok (hwrite t)]
    exact .ok (h.upsert _)

/-- Appending without a scope depends on the row of the context only. -/
structure ContextRegister.AppendsToRow (reg : ContextRegister) : Prop where
  appendMessage : ∀ {id : String} (message : Content) {s t : Store Context},
    s.find? id = t.find? id →
      (∃ e, reg.appendMessage id message none none s = .error e ∧
        reg.appendMessage id message none none t = .error e) ∨
      ∃ c, reg.appendMessage id message none none s = .ok (c, s.upsert c) ∧
        reg.appendMessage id message none none t = .ok (c, t.upsert c)

theorem alike_append {reg : ContextRegister} (hreg : reg.AppendsToRow) {id : String}
    (message : Content) {s t : Store Context} (hfind : s.find? id = t.find? id)
    (h : SameRows P s t) : Alike (SameRows P) (appendContext reg id message none none s)
      (appendContext reg id message none none t) := by
  rcases hreg.appendMessage message hfind with ⟨e, hs, ht⟩ | ⟨c, hs, ht⟩
  · simp only [appendContext, hs, ht]
    exact .error h
  · simp only [appendContext, hs, ht]
    exact .ok (h.upsert c)

theorem sqliteContextRegister_appendsToRow (u : UnicodeTables) :
    (sqliteContextRegister u).AppendsToRow where
  appendMessage := by
    intro id message s t hfind
    simp only [sqliteContextRegister, head?_select_scopedIdentity, ← hfind]
    rcases s.find? id with _ | row
    · exact Or.inl ⟨_, rfl, rfl⟩
    · exact Or.inr ⟨row.withMessage message, rfl, rfl⟩

theorem dictContextRegister_appendsToRow : dictContextRegister.AppendsToRow where
  appendMessage := by
    intro id message s t hfind
    simp only [dictContextRegister, ← dictGet_congr hfind]
    rcases dictGet id none s with e | row
    · exact Or.inl ⟨e, rfl, rfl⟩
    · exact Or.inr ⟨row.withMessage message, rfl, rfl⟩

end Updates

/-! ### The runtimes -/

/-- What the data tools need of the registers, besides the laws of the interfaces. -/
structure StoreRuntime.ReadsRows (rt : StoreRuntime) : Prop where
  contexts : rt.contextRegister.toRegister.ReadsRows
  contextsAppend : rt.contextRegister.AppendsToRow
  sessions : rt.sessionRegister.ReadsRows
  memories : rt.memoryRegister.ReadsRows

theorem storeRuntime_readsRows (backend : Backend) (u : UnicodeTables)
    (memoryStrategy : MemoryStrategy) : (storeRuntime backend u memoryStrategy).ReadsRows := by
  rcases backend with _ | _
  · exact {
      contexts := {
        get := sqliteGet_congr
        list := fun h => by
          simp only [storeRuntime, sqliteContextRegister, sqliteRows_congr h] }
      contextsAppend := sqliteContextRegister_appendsToRow u
      sessions := {
        get := sqliteGet_congr
        list := fun h => by
          simp only [storeRuntime, sqliteSessionRegister, sqliteRows_congr h] }
      memories := {
        get := sqliteGet_congr
        list := fun h => by
          simp only [storeRuntime, sqliteMemoryRegister, sqliteRows_congr h] } }
  · exact {
      contexts := {
        get := dictGet_congr
        list := fun h => by
          simp only [storeRuntime, dictContextRegister, dictRows_congr h] }
      contextsAppend := dictContextRegister_appendsToRow
      sessions := {
        get := dictGet_congr
        list := fun h => by
          simp only [storeRuntime, dictSessionRegister, dictRows_congr h] }
      memories := {
        get := dictGet_congr
        list := fun h => by
          simp only [storeRuntime, dictMemoryRegister, dictRows_congr h] } }

/-! ### One call -/

/-- The other principals' records stay, and nothing is stored under a new id. -/
structure Stores.Spared (P : Principal) (w w' : Stores) : Prop where
  foreign : ∀ record : Record, record.Foreign P → (w'.Holds record ↔ w.Holds record)
  keys : ∀ record, w'.Holds record → ∃ old, w.Holds old ∧ old.key = record.key

/-- `record` is read from a row that is not another principal's. -/
def Stores.ReadsSpared (P : Principal) (u : UnicodeTables) (w : Stores) (record : Record) : Prop :=
  ∃ row, w.Holds row ∧ ¬row.Foreign P ∧ row.ReadsAs u record

section Calls

variable {P : Principal} {u : UnicodeTables} {w w' : Stores}

theorem Stores.Spared.refl (w : Stores) : w.Spared P w :=
  ⟨fun _ _ => Iff.rfl, fun record hrecord => ⟨record, hrecord, rfl⟩⟩

end Calls

/-- One of the three stores, and its records among all of them. -/
structure StorePart (ρ : Type) [Resource ρ] where
  kind : ResourceKind
  get : Stores → Store ρ
  set : Store ρ → Stores → Stores
  record : ρ → Record
  holds : ∀ {w : Stores} {row : ρ}, w.Holds (record row) ↔ row ∈ get w
  holds_set : ∀ {w : Stores} {s : Store ρ} {r : Record},
    (set s w).Holds r ↔ (∃ row ∈ s, record row = r) ∨ r.key.1 ≠ kind ∧ w.Holds r
  key_record : ∀ row : ρ, (record row).key = (kind, key row)
  ownerId_record : ∀ row : ρ, (record row).ownerId = ownerId row
  readsAs_record : ∀ {u : UnicodeTables} {row row' : ρ}, ReadsAs u row row' →
    (record row).ReadsAs u (record row')

def contextPart : StorePart Context where
  kind := .context
  get := Stores.contexts
  set contexts w := { w with contexts }
  record := .context
  holds := Iff.rfl
  holds_set := by rintro w s (c | c | c) <;> simp [Stores.Holds, Record.key]
  key_record _ := rfl
  ownerId_record _ := rfl
  readsAs_record := id

def sessionPart : StorePart Session where
  kind := .session
  get := Stores.sessions
  set sessions w := { w with sessions }
  record := .session
  holds := Iff.rfl
  holds_set := by rintro w s (c | c | c) <;> simp [Stores.Holds, Record.key]
  key_record _ := rfl
  ownerId_record _ := rfl
  readsAs_record := id

def memoryPart : StorePart MemoryItem where
  kind := .memory
  get := Stores.memories
  set memories w := { w with memories }
  record := .memory
  holds := Iff.rfl
  holds_set := by rintro w s (c | c | c) <;> simp [Stores.Holds, Record.key]
  key_record _ := rfl
  ownerId_record _ := rfl
  readsAs_record := id

namespace StorePart

variable {ρ : Type} [Resource ρ] (part : StorePart ρ) {P : Principal} {u : UnicodeTables}
  {w w' : Stores}

theorem foreign_record {row : ρ} : (part.record row).Foreign P ↔ ForeignRow P row := by
  rw [Record.Foreign, ForeignRow, part.ownerId_record]

/-- A record of the kind that is stored is a row of the part. -/
theorem exists_row {r : Record} (hkind : r.key.1 = part.kind) (hr : w.Holds r)
    (hset : part.set (part.get w) w = w) : ∃ row ∈ part.get w, part.record row = r := by
  rw [← hset, part.holds_set] at hr
  exact hr.resolve_right fun h => h.1 hkind

theorem spared_of_row {id : String} (h : (DataTarget.row part.kind id).Spares P w) :
    ∀ row ∈ part.get w, key row = id → ¬ForeignRow P row := by
  intro row hrow hkey
  rw [← part.foreign_record]
  exact h _ (part.holds.mpr hrow) (by rw [part.key_record, hkey])

theorem spared_of_all (h : (DataTarget.all part.kind).Spares P w) :
    ∀ row ∈ part.get w, ¬ForeignRow P row := by
  intro row hrow
  rw [← part.foreign_record]
  exact h _ (part.holds.mpr hrow) (by rw [part.key_record])

/-- What keeps the rows of a part keeps all records. -/
theorem spared_set {s : Store ρ} (h : KeepsForeign P (part.get w) s)
    (hset : part.set (part.get w) w = w) : w.Spared P (part.set s w) := by
  refine ⟨fun r hr => ?_, fun r hr => ?_⟩
  · rw [part.holds_set]
    by_cases hkind : r.key.1 = part.kind
    · constructor
      · rintro (⟨row, hrow, rfl⟩ | ⟨hne, -⟩)
        · exact part.holds.mpr ((h.foreign row (part.foreign_record.mp hr)).mp hrow)
        · exact absurd hkind hne
      · intro hw
        obtain ⟨row, hrow, rfl⟩ := part.exists_row hkind hw hset
        exact Or.inl ⟨row, (h.foreign row (part.foreign_record.mp hr)).mpr hrow, rfl⟩
    · refine ⟨?_, fun hw => Or.inr ⟨hkind, hw⟩⟩
      rintro (⟨row, -, rfl⟩ | ⟨-, hw⟩)
      · exact absurd (congrArg Prod.fst (part.key_record row)) hkind
      · exact hw
  · rcases part.holds_set.mp hr with ⟨row, hrow, rfl⟩ | ⟨-, hw⟩
    · obtain ⟨old, hold, hkey⟩ := h.keys row hrow
      refine ⟨part.record old, part.holds.mpr hold, ?_⟩
      rw [part.key_record, part.key_record, hkey]
    · exact ⟨r, hw, rfl⟩

/-- What keeps two parts the same keeps the stores the same. -/
theorem sameApartFrom_set {s t : Store ρ} (h : SameRows P s t) (hw : w.SameApartFrom P w') :
    (part.set s w).SameApartFrom P (part.set t w') := by
  intro r hr
  rw [part.holds_set, part.holds_set, hw r hr]
  refine or_congr_left ?_
  constructor
  all_goals
    rintro ⟨row, hrow, rfl⟩
    have hrow' := h row fun hforeign => hr (part.foreign_record.mpr hforeign)
  · exact ⟨row, hrow'.mp hrow, rfl⟩
  · exact ⟨row, hrow'.mpr hrow, rfl⟩

/-- The parts of stores that are the same have the same rows. -/
theorem sameRows_get (hw : w.SameApartFrom P w') : SameRows P (part.get w) (part.get w') := by
  intro row hrow
  rw [← part.holds, ← part.holds]
  exact hw _ fun hforeign => hrow (part.foreign_record.mp hforeign)

/-- **A tool's step on one store.** -/
theorem does_zoom {α : Type} {x : EStateM Error (Store ρ) α} {g : α → List Record}
    {Q : α → Store ρ → Prop} (h : Does x (part.get w) (KeepsForeign P (part.get w)) Q)
    (hset : part.set (part.get w) w = w)
    (hQ : ∀ a s, Q a s → ∀ record ∈ g a, ∃ r, part.record r = record ∧ ReadSpared P u r s) :
    Does (do let a ← zoom part.get part.set x; return g a) w (w.Spared P)
      fun records w' => ∀ record ∈ records, w'.ReadsSpared P u record := by
  refine .zoom_map h (fun s hs => part.spared_set hs hset) fun a s _ ha record hrecord => ?_
  obtain ⟨r, rfl, row, hrow, hspared, hreads⟩ := hQ a s ha record hrecord
  refine ⟨part.record row, part.holds_set.mpr (Or.inl ⟨row, hrow, rfl⟩), ?_,
    part.readsAs_record hreads⟩
  rwa [part.foreign_record]

/-- **A tool's step on one store of each.** -/
theorem alike_zoom {α : Type} {x : EStateM Error (Store ρ) α} {g : α → List Record}
    (hw : w.SameApartFrom P w') (h : Alike (SameRows P) (x (part.get w)) (x (part.get w'))) :
    Alike (Stores.SameApartFrom P) ((do let a ← zoom part.get part.set x; return g a : StoreM _) w)
      ((do let a ← zoom part.get part.set x; return g a : StoreM _) w') :=
  Alike.zoom_map h fun _ _ hrows => part.sameApartFrom_set hrows hw

/-- Where no record of the kind is another principal's, both stores have the same rows. -/
theorem mem_iff_of_all (hw : w.SameApartFrom P w') (h : (DataTarget.all part.kind).Spares P w)
    (h' : (DataTarget.all part.kind).Spares P w') (row : ρ) :
    row ∈ part.get w ↔ row ∈ part.get w' :=
  ⟨fun hrow => (part.sameRows_get hw row (part.spared_of_all h row hrow)).mp hrow,
    fun hrow => (part.sameRows_get hw row (part.spared_of_all h' row hrow)).mpr hrow⟩

theorem find?_eq_of_row {id : String} (hw : w.SameApartFrom P w')
    (h : (DataTarget.row part.kind id).Spares P w)
    (h' : (DataTarget.row part.kind id).Spares P w') :
    (part.get w).find? id = (part.get w').find? id :=
  find?_eq_of_sameRows (part.sameRows_get hw) (part.spared_of_row h) (part.spared_of_row h')

end StorePart

namespace DataTools

variable {tools : DataTools} {P : Principal} {w w' : Stores} {input : DataToolInput}
  {arguments : Dict} {tool : DataTool}

private theorem of_mem_single {ρ : Type} [Resource ρ] {mk : ρ → Record} {a : ρ} {s : Store ρ}
    {u : UnicodeTables} (h : ReadSpared P u a s) :
    ∀ record ∈ [mk a], ∃ r, mk r = record ∧ ReadSpared P u r s := by
  intro record hrecord
  exact ⟨a, (List.mem_singleton.mp hrecord).symm, h⟩

private theorem of_mem_listed {ρ : Type} [Resource ρ] {mk : ρ → Record} {as : List ρ}
    {s : Store ρ} {u : UnicodeTables} (h : ∀ a ∈ as, ReadSpared P u a s) :
    ∀ record ∈ as.map mk, ∃ r, mk r = record ∧ ReadSpared P u r s := by
  intro record hrecord
  obtain ⟨a, ha, rfl⟩ := List.mem_map.mp hrecord
  exact ⟨a, rfl, h a ha⟩

/-- A step that reads the arguments, and what follows when it succeeds. -/
private theorem does_reading {α β : Type} {x : Except Error α} {f : α → StoreM β}
    {R : Stores → Prop} {Q : β → Stores → Prop} (hR : R w)
    (h : ∀ a, x = .ok a → Does (f a) w R Q) : Does (reading x >>= f) w R Q := by
  rcases x with e | a
  · exact .of_error (bind_of_error rfl) hR
  · exact .bind_of_ok rfl (h a rfl)

/-- **One executor.** Where its target spares the others, so does the executor. -/
theorem does_executor (hrt : tools.runtime.Lawful tools.unicode)
    (hspares : ∀ target, tools.target input arguments tool = .ok target → target.Spares P w) :
    Does (tools.executor input arguments tool) w (w.Spared P)
      fun records w' => ∀ record ∈ records, w'.ReadsSpared P tools.unicode record := by
  cases tool with
  | createContext =>
    refine does_reading (.refl w) fun context hcontext => absurd (hspares .creates ?_) id
    rw [target, hcontext]
    rfl
  | listContexts =>
    have hrows := contextPart.spared_of_all (hspares _ rfl)
    exact contextPart.does_zoom (does_list_spared hrt.contexts () {} hrows) rfl
      fun _ _ h => of_mem_listed h
  | getContext =>
    refine does_reading (.refl w) fun id hid => ?_
    have hrows := contextPart.spared_of_row (hspares (.row .context id) (by rw [target, hid]; rfl))
    exact contextPart.does_zoom (does_get_spared hrt.contexts hrows) rfl fun _ _ => of_mem_single
  | appendContextMessage =>
    refine does_reading (.refl w) fun message hmessage => ?_
    have hrows := contextPart.spared_of_row
      (hspares (.row .context message.1) (by rw [target, hmessage]; rfl))
    exact contextPart.does_zoom (does_append_spared hrt.contextsAppend message.2 hrows) rfl
      fun _ _ => of_mem_single
  | writeMemory =>
    refine does_reading (.refl w) fun memory hmemory => absurd (hspares .creates ?_) id
    rw [target, hmemory]
    rfl
  | listMemories =>
    have hrows := memoryPart.spared_of_all (hspares _ rfl)
    exact memoryPart.does_zoom (does_list_spared hrt.memories _ {} hrows) rfl
      fun _ _ h => of_mem_listed h
  | getMemory =>
    refine does_reading (.refl w) fun id hid => ?_
    have hrows := memoryPart.spared_of_row (hspares (.row .memory id) (by rw [target, hid]; rfl))
    exact memoryPart.does_zoom (does_get_spared hrt.memories hrows) rfl fun _ _ => of_mem_single
  | createSession =>
    refine does_reading (.refl w) fun session hsession => absurd (hspares .creates ?_) id
    rw [target, hsession]
    rfl
  | listSessions =>
    have hrows := sessionPart.spared_of_all (hspares _ rfl)
    exact sessionPart.does_zoom (does_list_spared hrt.sessions {} {} hrows) rfl
      fun _ _ h => of_mem_listed h
  | getSession =>
    refine does_reading (.refl w) fun id hid => ?_
    have hrows := sessionPart.spared_of_row (hspares (.row .session id) (by rw [target, hid]; rfl))
    exact sessionPart.does_zoom (does_get_spared hrt.sessions hrows) rfl fun _ _ => of_mem_single
  | archiveSession =>
    refine does_reading (.refl w) fun id hid => ?_
    have hrows := sessionPart.spared_of_row (hspares (.row .session id) (by rw [target, hid]; rfl))
    exact sessionPart.does_zoom (does_archive_spared hrt.sessions input.now hrows) rfl
      fun _ _ => of_mem_single

/-- A step that reads the arguments reads the same in both stores. -/
private theorem alike_bind_reading {α : Type} {x : Except Error α} {f : α → StoreM (List Record)}
    {R : Stores → Stores → Prop} (hR : R w w') (h : ∀ a, x = .ok a → Alike R (f a w) (f a w')) :
    Alike R ((reading x >>= f) w) ((reading x >>= f) w') := by
  rcases x with e | a
  · exact .error hR
  · exact h a rfl

/-- **One executor on two stores.** Where its target spares the others in both, they cannot be told
apart. -/
theorem alike_executor (hrt : tools.runtime.Lawful tools.unicode)
    (hreads : tools.runtime.ReadsRows) (hw : w.SameApartFrom P w')
    (h : ∀ target, tools.target input arguments tool = .ok target → target.Spares P w)
    (h' : ∀ target, tools.target input arguments tool = .ok target → target.Spares P w') :
    Alike (Stores.SameApartFrom P) (tools.executor input arguments tool w)
      (tools.executor input arguments tool w') := by
  cases tool with
  | createContext =>
    refine alike_bind_reading hw fun context hcontext => absurd (h .creates ?_) id
    rw [target, hcontext]
    rfl
  | listContexts =>
    exact contextPart.alike_zoom hw (alike_reading (hreads.contexts.list
      (contextPart.mem_iff_of_all hw (h _ rfl) (h' _ rfl))) (contextPart.sameRows_get hw))
  | getContext =>
    refine alike_bind_reading hw fun id hid => ?_
    have htarget : tools.target input arguments .getContext = .ok (.row .context id) := by
      rw [target, hid]
      rfl
    exact contextPart.alike_zoom hw (alike_reading (hreads.contexts.get
      (contextPart.find?_eq_of_row hw (h _ htarget) (h' _ htarget))) (contextPart.sameRows_get hw))
  | appendContextMessage =>
    refine alike_bind_reading hw fun message hmessage => ?_
    have htarget : tools.target input arguments .appendContextMessage =
        .ok (.row .context message.1) := by
      rw [target, hmessage]
      rfl
    exact contextPart.alike_zoom hw (alike_append hreads.contextsAppend message.2
      (contextPart.find?_eq_of_row hw (h _ htarget) (h' _ htarget)) (contextPart.sameRows_get hw))
  | writeMemory =>
    refine alike_bind_reading hw fun memory hmemory => absurd (h .creates ?_) id
    rw [target, hmemory]
    rfl
  | listMemories =>
    exact memoryPart.alike_zoom hw (alike_reading (hreads.memories.list
      (memoryPart.mem_iff_of_all hw (h _ rfl) (h' _ rfl))) (memoryPart.sameRows_get hw))
  | getMemory =>
    refine alike_bind_reading hw fun id hid => ?_
    have htarget : tools.target input arguments .getMemory = .ok (.row .memory id) := by
      rw [target, hid]
      rfl
    exact memoryPart.alike_zoom hw (alike_reading (hreads.memories.get
      (memoryPart.find?_eq_of_row hw (h _ htarget) (h' _ htarget))) (memoryPart.sameRows_get hw))
  | createSession =>
    refine alike_bind_reading hw fun session hsession => absurd (h .creates ?_) id
    rw [target, hsession]
    rfl
  | listSessions =>
    exact sessionPart.alike_zoom hw (alike_reading (hreads.sessions.list
      (sessionPart.mem_iff_of_all hw (h _ rfl) (h' _ rfl))) (sessionPart.sameRows_get hw))
  | getSession =>
    refine alike_bind_reading hw fun id hid => ?_
    have htarget : tools.target input arguments .getSession = .ok (.row .session id) := by
      rw [target, hid]
      rfl
    exact sessionPart.alike_zoom hw (alike_reading (hreads.sessions.get
      (sessionPart.find?_eq_of_row hw (h _ htarget) (h' _ htarget))) (sessionPart.sameRows_get hw))
  | archiveSession =>
    refine alike_bind_reading hw fun id hid => ?_
    have htarget : tools.target input arguments .archiveSession = .ok (.row .session id) := by
      rw [target, hid]
      rfl
    exact sessionPart.alike_zoom hw (alike_archive hrt.sessions hreads.sessions input.now
      (sessionPart.find?_eq_of_row hw (h _ htarget) (h' _ htarget)) (sessionPart.sameRows_get hw))

end DataTools

/-! ### Runs -/

namespace DataToolManager

variable {m : DataToolManager} {P : Principal} {w w' : Stores}

/-- A call does not get to a data tool, or is its executor with another error. -/
private theorem execute_cases (m : DataToolManager) (call : DataCall) :
    (∃ e, ∀ w, m.execute call w = .error e w) ∨ (∀ w, m.execute call w = .ok [] w) ∨
    ∃ tool arguments e, m.reached call.call = .ok (some tool, arguments) ∧
      m.execute call = orRaise e (m.tools.executor call.input arguments tool) := by
  rcases h : m.reached call.call with e | ⟨_ | tool, arguments⟩
  · exact Or.inl ⟨e, fun w => by simp only [execute, h]⟩
  · exact Or.inr (Or.inl fun w => by simp only [execute, h])
  · refine Or.inr (Or.inr ⟨tool, arguments, {
      errorType := .toolExecutionError
      message := "The tool " ++ tool.name ++ " execution failed" }, rfl, ?_⟩)
    funext w
    simp only [execute, h]

/-- **One call** whose target spares the others. -/
theorem does_execute (hrt : m.tools.runtime.Lawful m.tools.unicode) {call : DataCall}
    (h : m.SparesOthers P w call) :
    Does (m.execute call) w (w.Spared P)
      fun records w' => ∀ record ∈ records, w'.ReadsSpared P m.tools.unicode record := by
  rcases execute_cases m call with ⟨e, hrefused⟩ | hother | ⟨tool, arguments, e, hreached, hcall⟩
  · exact .of_error (hrefused w) (.refl w)
  · exact .of_ok (hother w) (.refl w) fun record hrecord => absurd hrecord List.not_mem_nil
  · rw [hcall]
    exact (DataTools.does_executor hrt fun target => h tool arguments target hreached).orRaise

/-- **One call on two stores.** -/
theorem alike_execute (hrt : m.tools.runtime.Lawful m.tools.unicode)
    (hreads : m.tools.runtime.ReadsRows) (hw : w.SameApartFrom P w') {call : DataCall}
    (h : m.SparesOthers P w call) (h' : m.SparesOthers P w' call) :
    Alike (Stores.SameApartFrom P) (m.execute call w) (m.execute call w') := by
  rcases execute_cases m call with ⟨e, hrefused⟩ | hother | ⟨tool, arguments, e, hreached, hcall⟩
  · rw [hrefused, hrefused]
    exact .error hw
  · rw [hother, hother]
    exact .ok hw
  · rw [hcall]
    exact (DataTools.alike_executor hrt hreads hw (fun target => h tool arguments target hreached)
      fun target => h' tool arguments target hreached).orRaise

/-- A call whose target spares the others creates nothing. -/
theorem created_eq_none {call : DataCall} (h : m.SparesOthers P w call) {tool : DataTool}
    {arguments : Dict} (hreached : m.reached call.call = .ok (some tool, arguments)) :
    m.tools.created call.input arguments tool = none := by
  have hspares := fun target => h tool arguments target hreached
  -- A creation whose arguments are read has the target `creates`, which spares no one.
  have hnone : ∀ {α : Type} {x : Except Error α} {mk : α → Record},
      (∀ target, x.map (fun _ => DataTarget.creates) = .ok target → target.Spares P w) →
        x.toOption.map mk = none := by
    rintro α (e | a) mk hx
    · rfl
    · exact absurd (hx .creates rfl) id
  cases tool with
  | createContext => exact hnone hspares
  | writeMemory => exact hnone hspares
  | createSession => exact hnone hspares
  | _ => rfl

/-- **Runs that spare the others** keep the tenants apart. -/
theorem keepsApart_of_sparesOthers (hrt : m.tools.runtime.Lawful m.tools.unicode) {w : Stores}
    {calls : List DataCall} (h : Along m.step (m.SparesOthers P) w calls) :
    m.KeepsApart P w calls := by
  induction calls generalizing w with
  | nil =>
    refine ⟨trivial, fun w' hrun record _ => ?_, trivial⟩
    obtain rfl : w = w' := Option.some.inj hrun
    exact Iff.rfl
  | cons call calls ih =>
    have hstep : m.step w call = some (after (m.execute call) w) := rfl
    obtain ⟨hcall, hrest⟩ := along_cons h hstep
    have hdoes := does_execute hrt hcall
    have hkeeps := ih hrest
    refine ⟨⟨fun hok => hdoes.value hok, hkeeps.returned⟩, fun w' hrun record hforeign => ?_,
      fun hreached hcreated => ?_, hkeeps.created⟩
    · rw [hkeeps.stored w' hrun record hforeign, hdoes.state.foreign record hforeign]
    · rw [created_eq_none hcall hreached] at hcreated
      exact absurd hcreated.symm (Option.some_ne_none _)

/-- **Two runs that spare the others** on stores that are the same apart from other principals'
records have the same results. -/
theorem results_eq_of_sparesOthers (hrt : m.tools.runtime.Lawful m.tools.unicode)
    (hreads : m.tools.runtime.ReadsRows) {w w' : Stores} {calls : List DataCall}
    (hw : w.SameApartFrom P w') (h : Along m.step (m.SparesOthers P) w calls)
    (h' : Along m.step (m.SparesOthers P) w' calls) : m.results w calls = m.results w' calls := by
  induction calls generalizing w w' with
  | nil => rfl
  | cons call calls ih =>
    have halike := alike_execute hrt hreads hw h.1 h'.1
    rw [results, results, halike.outcome, ih halike.after h.2 h'.2]

end DataToolManager

/-- The runtime data tools over one of the two backends. -/
def runtimeDataTools (backend : Backend) (u : UnicodeTables) (memoryStrategy : MemoryStrategy)
    (reader : ArgumentReader) (manager : ToolManager) : DataToolManager where
  manager := manager
  tools := { runtime := storeRuntime backend u memoryStrategy, unicode := u, reader := reader }

/-- **Data tools and tenants.** Over SQLite and over dictionaries, for every manager and from any
stores: a run whose calls spare the other principals keeps the tenants apart, and has the results
of any such run on stores that differ in other principals' records only. -/
theorem dataTools_keepTenantsApart (backend : Backend) (u : UnicodeTables)
    (memoryStrategy : MemoryStrategy) (reader : ArgumentReader) (manager : ToolManager)
    (P : Principal) {w : Stores} {calls : List DataCall}
    (h : Along (runtimeDataTools backend u memoryStrategy reader manager).step
      ((runtimeDataTools backend u memoryStrategy reader manager).SparesOthers P) w calls) :
    (runtimeDataTools backend u memoryStrategy reader manager).KeepsApart P w calls ∧
    ∀ w', w.SameApartFrom P w' →
      Along (runtimeDataTools backend u memoryStrategy reader manager).step
        ((runtimeDataTools backend u memoryStrategy reader manager).SparesOthers P) w' calls →
      (runtimeDataTools backend u memoryStrategy reader manager).results w calls =
        (runtimeDataTools backend u memoryStrategy reader manager).results w' calls := by
  have hrt := storeRuntime_lawful backend u memoryStrategy
  have hreads := storeRuntime_readsRows backend u memoryStrategy
  constructor
  · exact DataToolManager.keepsApart_of_sparesOthers hrt h
  · intro w' hw h'
    exact DataToolManager.results_eq_of_sparesOthers hrt hreads hw h h'

private def simpleTables : UnicodeTables := ⟨Char.isWhitespace, Char.isAlphanum, String.toLower⟩

/-- The runtime data tools as they are registered. -/
private def registeredDataTools : DataToolManager :=
  runtimeDataTools .sqlite simpleTables (basicMemoryStrategy simpleTables) {}
    { tool? := fun name => (DataTool.ofName? name).map DataTool.definition }

/-- A call in alice's run, of a context tool that is approved. -/
private def contextCall (name : String) : DataCall where
  call := {
    toolCallId := "call"
    toolCall := [("name", .str name)]
    metadata := [("owner_id", .str "alice"), ("approved", .bool true)] }
  input := { uuid := "0", now := 0 }

private def contextOfQuentin : Context := { contextId := "private", ownerId := "quentin" }

private def storesOfQuentin : Stores := { contexts := Table.upsert contextOfQuentin ∅ }

private def aliceAsking : Principal := { principalId := "alice" }

/-- Nothing is stored but quentin's context. -/
private theorem holds_storesOfQuentin {record : Record} (h : storesOfQuentin.Holds record) :
    record = .context contextOfQuentin := by
  rcases record with c | s | m
  · exact congrArg _ (List.mem_singleton.mp h)
  · exact absurd h List.not_mem_nil
  · exact absurd h List.not_mem_nil

private theorem foreign_contextOfQuentin : (Record.context contextOfQuentin).Foreign aliceAsking :=
  ⟨"quentin", rfl, by decide⟩

/-- In alice's run `list_contexts` returns quentin's context, `create_context` makes one that alice
does not own, and what she is told depends on his records. -/
theorem not_keepTenantsApart :
    ¬registeredDataTools.KeepsApart aliceAsking storesOfQuentin [contextCall "list_contexts"] ∧
    ¬registeredDataTools.KeepsApart aliceAsking {} [contextCall "create_context"] ∧
    storesOfQuentin.SameApartFrom aliceAsking {} ∧
    registeredDataTools.results storesOfQuentin [contextCall "list_contexts"] ≠
      registeredDataTools.results {} [contextCall "list_contexts"] := by
  refine ⟨fun h => ?_, fun h => ?_, fun record hrecord => ?_, by decide⟩
  · have hlisted : registeredDataTools.execute (contextCall "list_contexts") storesOfQuentin =
        .ok [.context contextOfQuentin] storesOfQuentin := rfl
    obtain ⟨row, hrow, hspared, -⟩ := h.returned.1 hlisted _ List.mem_cons_self
    rw [holds_storesOfQuentin hrow] at hspared
    exact hspared foreign_contextOfQuentin
  · have hreached : registeredDataTools.reached (contextCall "create_context").call =
        .ok (some .createContext, []) := by decide
    obtain ⟨-, row, hrow, -, howner⟩ := h.created.1 hreached rfl
    have hstored : after (registeredDataTools.execute (contextCall "create_context")) {} =
        { contexts := Table.upsert { contextId := "context-0" } ∅ } := rfl
    rw [hstored] at hrow
    rcases row with c | s | m
    · obtain rfl := List.mem_singleton.mp hrow
      exact absurd howner.symm (Option.some_ne_none _)
    · exact absurd hrow List.not_mem_nil
    · exact absurd hrow List.not_mem_nil
  · constructor
    · intro h
      rw [holds_storesOfQuentin h] at hrecord
      exact absurd foreign_contextOfQuentin hrecord
    · rcases record with c | s | m
      all_goals exact fun h => absurd h List.not_mem_nil

private def contextOfAlice : Context := { contextId := "own", ownerId := "alice" }

private def storesOfAlice : Stores := { contexts := Table.upsert contextOfAlice ∅ }

private def storesOfBoth : Stores :=
  { contexts := Table.upsert contextOfQuentin storesOfAlice.contexts }

private def getOwnContext : DataCall where
  call := {
    toolCallId := "call"
    toolCall := [("name", .str "get_context"), ("arguments", .other "own")]
    metadata := [("owner_id", .str "alice"), ("approved", .bool true)] }
  input := { uuid := "0", now := 0 }

/-- The data tools, with a reader for the arguments of `getOwnContext`. -/
private def readingDataTools : ToolManager where
  tool? name := (DataTool.ofName? name).map DataTool.definition
  parseObject _ := some [("context_id", .str "own")]

private theorem reached_getOwnContext :
    (runtimeDataTools .sqlite simpleTables (basicMemoryStrategy simpleTables) {}
      readingDataTools).reached getOwnContext.call =
        .ok (some .getContext, [("context_id", .str "own")]) := by decide

/-- The run of one call that reads alice's own context, beside a context of quentin's. -/
private theorem sparesOthers_getOwnContext {w : Stores}
    (hw : ∀ record, w.Holds record → record.key = (.context, "own") → ¬record.Foreign aliceAsking) :
    Along (runtimeDataTools .sqlite simpleTables (basicMemoryStrategy simpleTables) {}
        readingDataTools).step
      ((runtimeDataTools .sqlite simpleTables (basicMemoryStrategy simpleTables) {}
        readingDataTools).SparesOthers aliceAsking) w [getOwnContext] := by
  refine ⟨fun tool arguments target hreached htarget => ?_, trivial⟩
  rw [reached_getOwnContext] at hreached
  obtain ⟨rfl, rfl⟩ : DataTool.getContext = tool ∧ [("context_id", .str "own")] = arguments := by
    simpa using hreached
  obtain rfl : .row .context "own" = target := Except.ok.inj htarget
  exact hw

private theorem spared_of_contexts {contexts : Store Context}
    (h : ∀ c ∈ contexts, c.contextId = "own" → c.ownerId = some "alice") (record : Record)
    (hrecord : Stores.Holds { contexts } record) (hkey : record.key = (.context, "own")) :
    ¬record.Foreign aliceAsking := by
  rintro ⟨owner, howner, hne⟩
  rcases record with c | s | m
  · have hown := h c hrecord (congrArg Prod.snd hkey)
    exact hne (Option.some.inj (howner.symm.trans hown))
  · exact absurd hrecord List.not_mem_nil
  · exact absurd hrecord List.not_mem_nil

/-- Beside a context of quentin's, and without it. -/
theorem dataTools_keepTenantsApart_own :
    (runtimeDataTools .sqlite simpleTables (basicMemoryStrategy simpleTables) {}
      readingDataTools).KeepsApart aliceAsking storesOfBoth [getOwnContext] ∧
    (runtimeDataTools .sqlite simpleTables (basicMemoryStrategy simpleTables) {}
      readingDataTools).results storesOfBoth [getOwnContext] =
    (runtimeDataTools .sqlite simpleTables (basicMemoryStrategy simpleTables) {}
      readingDataTools).results storesOfAlice [getOwnContext] := by
  have hboth := sparesOthers_getOwnContext (w := storesOfBoth) (spared_of_contexts (by decide))
  have halice := sparesOthers_getOwnContext (w := storesOfAlice) (spared_of_contexts (by decide))
  have happly := dataTools_keepTenantsApart .sqlite simpleTables (basicMemoryStrategy simpleTables)
    {} readingDataTools aliceAsking hboth
  refine ⟨happly.1, happly.2 storesOfAlice (fun record hrecord => ?_) halice⟩
  rcases record with c | s | m
  · have hrows : ∀ c, c ∈ storesOfBoth.contexts ↔ c ∈ storesOfAlice.contexts ∨ c = contextOfQuentin
      := by
      intro c
      have hcases : c ∈ storesOfBoth.contexts ↔ c = contextOfAlice ∨ c = contextOfQuentin := by
        change c ∈ [contextOfAlice, contextOfQuentin] ↔ _
        simp
      rw [hcases]
      exact or_congr_left List.mem_singleton.symm
    constructor
    · rintro hc
      rcases (hrows c).mp hc with hc | rfl
      · exact hc
      · exact absurd foreign_contextOfQuentin hrecord
    · exact fun hc => (hrows c).mpr (Or.inl hc)
  · exact Iff.rfl
  · exact Iff.rfl

end EvernightAI
