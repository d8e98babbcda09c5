import EvernightAI.Lib.TransitionSystem
import EvernightAI.Store.Authorized

/-!
# Tenant isolation

A principal `P` works on the stores through its authorized interfaces. Two things are asked of a
session of requests: nothing of another owner is returned, and every record of another owner is
still stored afterwards as it was.

The first always holds (`perform_returns`): what a request returns is read from a row that carries
the principal's own id. The second holds exactly as long as no *creation* names an id under which
another owner's record is stored: `register` checks the owner of the record it writes, and its
upsert then replaces whatever row has that id. `Operation.creates` lists the ids a request creates
under — besides the record itself, a session brings the context it names into being when the
principal's scope does not show one — and `tenantIsolated_iff` is the resulting equivalence.
-/

namespace EvernightAI

open Resource StatefulProgram TransitionSystem

inductive ResourceKind
  | context | session | memory
  deriving DecidableEq, Repr

namespace Record

/-- The kind of a record and its id. -/
def key : Record → ResourceKind × String
  | .context c => (.context, c.contextId)
  | .session s => (.session, s.sessionId)
  | .memory m => (.memory, m.memoryId)

def ownerId : Record → Option String
  | .context c => c.ownerId
  | .session s => s.ownerId
  | .memory m => m.ownerId

/-- `record` is what reading the stored `row` hands out. -/
def ReadsAs (u : UnicodeTables) : Record → Record → Prop
  | .context row, .context record => EvernightAI.ReadsAs u row record
  | .session row, .session record => EvernightAI.ReadsAs u row record
  | .memory row, .memory record => EvernightAI.ReadsAs u row record
  | _, _ => False

/-- The record belongs to a principal other than `P`. -/
def Foreign (P : Principal) (record : Record) : Prop :=
  ∃ owner, record.ownerId = some owner ∧ owner ≠ P.principalId

end Record

/-- The record is stored, with this owner and this payload. -/
def Stores.Holds (w : Stores) : Record → Prop
  | .context c => c ∈ w.contexts
  | .session s => s ∈ w.sessions
  | .memory m => m ∈ w.memories

/-- The ids a request creates records under. -/
def Operation.creates (P : Principal) (w : Stores) : Operation → Set (ResourceKind × String)
  | .createContext context => {(.context, context.contextId)}
  | .createMemory memory => {(.memory, memory.memoryId)}
  | .createSession session => {(.context, session.contextId), (.session, session.sessionId)}
  | .replaceSession session _ =>
    {k | k = (.context, session.contextId) ∧
      ∃ row ∈ w.sessions, row.sessionId = session.sessionId ∧ row.ownerId = some P.principalId}
  | _ => ∅

/-- The stores after a request. -/
def AuthorizedInterface.step (api : AuthorizedInterface) (w : Stores) (op : Operation) :
    Option Stores := some (after (api.perform op) w)

/-- What `op` returns is read from rows of the principal's own. -/
def AuthorizedInterface.ReturnsOnlyOwn (api : AuthorizedInterface) (u : UnicodeTables)
    (w : Stores) (op : Operation) : Prop :=
  ∀ {records w'}, api.perform op w = .ok records w' → ∀ record ∈ records,
    ∃ row, w'.Holds row ∧ row.ownerId = some api.principal.principalId ∧ row.ReadsAs u record

/-- **Tenant isolation** of a session of requests: no record of another owner is returned, and
every one of them is still stored at the end as it was at the start. -/
structure AuthorizedInterface.TenantIsolated (api : AuthorizedInterface) (u : UnicodeTables)
    (w : Stores) (ops : List Operation) : Prop where
  returned : Along api.step (api.ReturnsOnlyOwn u) w ops
  stored : ∀ w', run api.step w ops = some w' →
    ∀ record, record.Foreign api.principal → w.Holds record → w'.Holds record

/-- No creation of the request names an id under which another owner's record is stored. -/
def Operation.CreatesOverNoOther (P : Principal) (w : Stores) (op : Operation) : Prop :=
  ∀ record, record.Foreign P → w.Holds record → record.key ∉ op.creates P w

/-! ### One store -/

section OneStore

variable {ρ Filter : Type} [Resource ρ] {P : Principal} {u : UnicodeTables}

/-- The rows of other owners in `s'` are those in `s` whose key is not in `K`. -/
def Keeps (P : Principal) (K : Set String) (s s' : Store ρ) : Prop :=
  ∀ row : ρ, ownerId row ≠ some P.principalId → (row ∈ s' ↔ row ∈ s ∧ key row ∉ K)

theorem Keeps.refl (s : Store ρ) : Keeps P ∅ s s := fun _ _ => by simp

/-- Writing a record of one's own takes the place of whatever had its key. -/
theorem keeps_upsert {record : ρ} (hown : ownerId record = some P.principalId) (s : Store ρ) :
    Keeps P {key record} s (s.upsert record) := by
  intro row hne
  rw [Table.mem_upsert, Set.mem_singleton_iff]
  constructor
  · rintro (rfl | h)
    · exact absurd hown hne
    · exact h
  · exact Or.inr

/-- Writing over a row of one's own touches no other owner. -/
theorem keeps_upsert_of_own {record row : ρ} {s : Store ρ}
    (hown : ownerId record = some P.principalId) (hrow : row ∈ s) (hkey : key row = key record)
    (hrowOwn : ownerId row = some P.principalId) : Keeps P ∅ s (s.upsert record) := by
  intro other hne
  rw [keeps_upsert hown s other hne, Set.mem_singleton_iff]
  refine and_congr_right fun hother => iff_of_true (fun hk => ?_) (Set.notMem_empty _)
  exact hne (Table.eq_of_key_eq hother hrow (hk.trans hkey.symm) ▸ hrowOwn)

variable (P) in
/-- The scope an authorized interface hands down. -/
private abbrev ownScope : Option PrincipalScope := some (PrincipalScope.forPrincipal P)

theorem scopePermits_own {owner : Option String} :
    scopePermits (ownScope P) owner = true ↔ owner = some P.principalId := by
  simp [scopePermits]

/-- `record` is read from a row of the principal's own. -/
def ReadOwn (P : Principal) (u : UnicodeTables) (record : ρ) (s : Store ρ) : Prop :=
  ∃ row ∈ s, ownerId row = some P.principalId ∧ ReadsAs u row record

theorem readOwn_of_visibleIn {record : ρ} {s : Store ρ}
    (h : VisibleIn u (ownScope P) s record) : ReadOwn P u record s := by
  obtain ⟨row, hmem, hperm, hreads⟩ := h
  exact ⟨row, hmem, scopePermits_own.mp hperm, hreads⟩

variable {reg : Register ρ Filter}

theorem does_reading_get (hreg : reg.Scoped u) (recordId : String) (s : Store ρ) :
    Does (Register.reading (reg.get recordId (ownScope P))) s (Keeps P ∅ s) (ReadOwn P u) := by
  cases h : reg.get recordId (ownScope P) s with
  | error e => exact .of_error (Register.reading_of_error h) (.refl s)
  | ok record =>
    obtain ⟨row, hmem, -, hperm, hreads⟩ := hreg.get h
    exact .of_ok (Register.reading_of_ok h) (.refl s)
      ⟨row, hmem, scopePermits_own.mp hperm, hreads⟩

theorem does_reading_list (hreg : reg.Scoped u) (filter : Filter) (page : Page) (s : Store ρ) :
    Does (Register.reading (reg.list filter page (ownScope P))) s (Keeps P ∅ s)
      fun records s' => ∀ record ∈ records, ReadOwn P u record s' := by
  cases h : reg.list filter page (ownScope P) s with
  | error e => exact .of_error (Register.reading_of_error h) (.refl s)
  | ok records =>
    exact .of_ok (Register.reading_of_ok h) (.refl s) fun record hr =>
      readOwn_of_visibleIn (hreg.list h record hr)

theorem does_writing_unregister (hreg : reg.Scoped u) (recordId : String) (s : Store ρ) :
    Does (Register.writing (reg.unregister recordId (ownScope P))) s (Keeps P ∅ s)
      fun _ _ => True := by
  cases h : reg.unregister recordId (ownScope P) s with
  | error e => exact .of_error (Register.writing_of_error h) (.refl s)
  | ok s' =>
    refine .of_ok (Register.writing_of_ok h) (fun row hne => ?_) trivial
    rw [hreg.unregister h, scopePermits_own]
    exact and_congr_right fun _ =>
      iff_of_true (fun hcon => hne hcon.2) (Set.notMem_empty _)

private theorem writing_own (hreg : reg.Scoped u) {record : ρ}
    (hown : ownerId record = some P.principalId) (s : Store ρ) :
    Register.writing (reg.register record (ownScope P)) s = .ok () (s.upsert record) :=
  Register.writing_of_ok (by
    rw [hreg.register, registerRecord_of_permits s (scopePermits_own.mpr hown)])

/-- Writing a record of one's own and reading it back. -/
private theorem does_write_get (hreg : reg.Scoped u) {record : ρ} {recordId : String}
    (hown : ownerId record = some P.principalId) {s : Store ρ} {K : Set String}
    (hkeeps : Keeps P K s (s.upsert record)) :
    Does (do
      Register.writing (reg.register record (ownScope P))
      Register.reading (reg.get recordId (ownScope P))) s (Keeps P K s) (ReadOwn P u) := by
  have hread := does_reading_get (P := P) hreg recordId (s.upsert record)
  refine .bind_of_ok (writing_own hreg hown s)
    (hread.mono (fun s' hs' row hne => ?_) fun _ _ _ h => h)
  rw [hs' row hne, hkeeps row hne]
  simp

theorem does_create (hreg : reg.Scoped u) (record : ρ)
    (hown : ownerId record = some P.principalId) (s : Store ρ) :
    Does (reg.create record (ownScope P)) s (Keeps P {key record} s) (ReadOwn P u) :=
  does_write_get hreg hown (keeps_upsert hown s)

/-- A creation returns when its payload reads back. -/
theorem create_of_getsWhatItHas (hreg : reg.Scoped u) (hgets : reg.GetsWhatItHas) {record : ρ}
    (hown : ownerId record = some P.principalId) (s : Store ρ) :
    ∃ created, reg.create record (ownScope P) s = .ok created (s.upsert record) := by
  have hmem : record ∈ s.upsert record := Table.mem_upsert.mpr (Or.inl rfl)
  obtain ⟨created, hget⟩ := hgets.get hmem (scopePermits_own.mpr hown)
  exact ⟨created, (bind_of_ok (writing_own hreg hown s)).trans (Register.reading_of_ok hget)⟩

theorem does_replace (hreg : reg.Scoped u) (stamp : ρ → ρ) (record : ρ)
    (hkey : key (stamp record) = key record)
    (hown : ownerId (stamp record) = some P.principalId) (s : Store ρ) :
    Does (reg.replace stamp record (ownScope P)) s (Keeps P ∅ s) (ReadOwn P u) := by
  have hget : (getThe (Store ρ) : EStateM Error (Store ρ) (Store ρ)) s = .ok s s := rfl
  refine .bind_of_ok hget ?_
  by_cases hhas : reg.has (key record) (ownScope P) s = true
  · obtain ⟨row, hmem, hrowKey, hperm⟩ := hreg.has.mp hhas
    rw [if_pos hhas]
    exact does_write_get hreg hown
      (keeps_upsert_of_own hown hmem (hrowKey.trans hkey.symm) (scopePermits_own.mp hperm))
  · rw [if_neg hhas]
    exact .of_error rfl (.refl s)

end OneStore

section Updates

variable {P : Principal} {u : UnicodeTables}

theorem does_archiveSession {reg : Register Session SessionFilter} (hreg : reg.Scoped u)
    (sessionId : String) (now : Instant) (s : Store Session) :
    Does (archiveSession reg sessionId now (ownScope P)) s (Keeps P ∅ s) (ReadOwn P u) := by
  unfold archiveSession
  cases h : reg.get sessionId (ownScope P) s with
  | error e => exact .of_error (bind_of_error (Register.reading_of_error h)) (.refl s)
  | ok session =>
    obtain ⟨row, hmem, -, hperm, hreads⟩ := hreg.get h
    -- A session reads back as the row that was stored.
    have hrow : session = row := by
      rcases hreads with hreads | hreads
      · exact hreads
      · cases hreads; rfl
    subst hrow
    have hown : session.ownerId = some P.principalId := scopePermits_own.mp hperm
    let updated := { session with status := .archived, updatedAt := now }
    have hupdated : ownerId updated = some P.principalId := hown
    exact .bind_of_ok (Register.reading_of_ok h) (.bind_of_ok (writing_own hreg hupdated s)
      (.of_ok rfl (keeps_upsert_of_own hupdated hmem rfl hown)
        ⟨updated, Table.mem_upsert.mpr (Or.inl rfl), hupdated, Or.inl rfl⟩))

theorem does_appendContext {reg : ContextRegister} (hreg : reg.Appends) (contextId : String)
    (message : Content) (expected : Option Nat) (s : Store Context) :
    Does (appendContext reg contextId message expected (ownScope P)) s (Keeps P ∅ s)
      (ReadOwn P u) := by
  cases h : reg.appendMessage contextId message expected (ownScope P) s with
  | error e => exact .of_error (by simp only [appendContext, h]; rfl) (.refl s)
  | ok result =>
    obtain ⟨updated, s'⟩ := result
    obtain ⟨row, hmem, -, hperm, rfl, rfl⟩ := hreg.appendMessage h
    have hown : row.ownerId = some P.principalId := scopePermits_own.mp hperm
    have hupdated : ownerId (row.withMessage message) = some P.principalId := hown
    exact .of_ok (by simp only [appendContext, h])
      (keeps_upsert_of_own hupdated hmem rfl hown)
      ⟨row.withMessage message, Table.mem_upsert.mpr (Or.inl rfl), hupdated, Or.inl rfl⟩

end Updates

/-! ### The three stores -/

/-- What the interfaces need of the registers they work on. -/
structure StoreRuntime.Lawful (u : UnicodeTables) (rt : StoreRuntime) : Prop where
  contexts : rt.contextRegister.toRegister.Scoped u
  contextsGet : rt.contextRegister.toRegister.GetsWhatItHas
  contextsAppend : rt.contextRegister.Appends
  sessions : rt.sessionRegister.Scoped u
  sessionsGet : rt.sessionRegister.GetsWhatItHas
  memories : rt.memoryRegister.Scoped u

theorem storeRuntime_lawful (backend : Backend) (u : UnicodeTables)
    (memoryStrategy : MemoryStrategy) : (storeRuntime backend u memoryStrategy).Lawful u := by
  cases backend with
  | sqlite =>
    exact {
      contexts := sqliteContextRegister_scoped u
      contextsGet := sqliteContextRegister_getsWhatItHas u
      contextsAppend := sqliteContextRegister_appends u
      sessions := sqliteSessionRegister_scoped u
      sessionsGet := sqliteSessionRegister_getsWhatItHas u
      memories := sqliteMemoryRegister_scoped u }
  | inMemory =>
    exact {
      contexts := dictContextRegister_scoped u
      contextsGet := dictContextRegister_getsWhatItHas
      contextsAppend := dictContextRegister_appends
      sessions := dictSessionRegister_scoped u
      sessionsGet := dictSessionRegister_getsWhatItHas
      memories := dictMemoryRegister_scoped u }

/-- The records of other owners in `w'` are those in `w` whose id is not in `K`. -/
def Stores.KeepsOthers (P : Principal) (K : Set (ResourceKind × String)) (w w' : Stores) : Prop :=
  ∀ record : Record, record.Foreign P → (w'.Holds record ↔ w.Holds record ∧ record.key ∉ K)

/-- `record` is read from a row of the principal's own. -/
def Stores.ReadOwn (P : Principal) (u : UnicodeTables) (w : Stores) (record : Record) : Prop :=
  ∃ row, w.Holds row ∧ row.ownerId = some P.principalId ∧ row.ReadsAs u record

section ThreeStores

variable {P : Principal} {u : UnicodeTables} {w : Stores}

theorem Stores.KeepsOthers.refl (w : Stores) : w.KeepsOthers P ∅ w := fun _ _ => by simp

theorem keepsOthers_contexts {K : Set String} {contexts : Store Context}
    (h : Keeps P K w.contexts contexts) :
    w.KeepsOthers P (Prod.mk .context '' K) { w with contexts } := by
  rintro (c | s | m) ⟨owner, howner, hne⟩ <;> simp only [Record.ownerId] at howner
  · simpa [Stores.Holds, Record.key, key] using
      h c (by simpa [ownerId, howner] using hne)
  · simp [Stores.Holds, Record.key]
  · simp [Stores.Holds, Record.key]

theorem keepsOthers_sessions {K : Set String} {sessions : Store Session}
    (h : Keeps P K w.sessions sessions) :
    w.KeepsOthers P (Prod.mk .session '' K) { w with sessions } := by
  rintro (c | s | m) ⟨owner, howner, hne⟩ <;> simp only [Record.ownerId] at howner
  · simp [Stores.Holds, Record.key]
  · simpa [Stores.Holds, Record.key, key] using
      h s (by simpa [ownerId, howner] using hne)
  · simp [Stores.Holds, Record.key]

theorem keepsOthers_memories {K : Set String} {memories : Store MemoryItem}
    (h : Keeps P K w.memories memories) :
    w.KeepsOthers P (Prod.mk .memory '' K) { w with memories } := by
  rintro (c | s | m) ⟨owner, howner, hne⟩ <;> simp only [Record.ownerId] at howner
  · simp [Stores.Holds, Record.key]
  · simp [Stores.Holds, Record.key]
  · simpa [Stores.Holds, Record.key, key] using
      h m (by simpa [ownerId, howner] using hne)

theorem readOwn_context {contexts : Store Context} {c : Context}
    (h : ReadOwn P u c contexts) : ({ w with contexts } : Stores).ReadOwn P u (.context c) := by
  obtain ⟨row, hmem, hown, hreads⟩ := h
  exact ⟨.context row, hmem, hown, hreads⟩

theorem readOwn_session {sessions : Store Session} {s : Session}
    (h : ReadOwn P u s sessions) : ({ w with sessions } : Stores).ReadOwn P u (.session s) := by
  obtain ⟨row, hmem, hown, hreads⟩ := h
  exact ⟨.session row, hmem, hown, hreads⟩

theorem readOwn_memory {memories : Store MemoryItem} {m : MemoryItem}
    (h : ReadOwn P u m memories) : ({ w with memories } : Stores).ReadOwn P u (.memory m) := by
  obtain ⟨row, hmem, hown, hreads⟩ := h
  exact ⟨.memory row, hmem, hown, hreads⟩

end ThreeStores

/-! ### The requests -/

section Requests

variable {api : AuthorizedInterface} {u : UnicodeTables}

variable (api u) in
/-- What a request may do: records of other owners are kept but for the ids in `K`, and only
records of the principal's own are returned. -/
private abbrev Isolates (K : Set (ResourceKind × String)) (x : StoreM (List Record)) (w : Stores) :
    Prop :=
  Does x w (w.KeepsOthers api.principal K) fun records w' =>
    ∀ record ∈ records, w'.ReadOwn api.principal u record

variable {w : Stores}

/-- A granted permission check does nothing. -/
private theorem isolates_require (hgrant : ∀ request, (api.authorizer request).allowed = true)
    {resource action : String} {resourceId : Option String} {K : Set (ResourceKind × String)}
    {x : StoreM (List Record)} (h : Isolates api u K x w) :
    Isolates api u K (do api.require resource action resourceId; x) w := by
  refine .bind_of_ok (?_ : api.require resource action resourceId w = .ok () w) h
  simp only [AuthorizedInterface.require, requirePermission_of_allowed hgrant]

private theorem isolates_onContexts {α : Type} {K : Set String} {K' : Set (ResourceKind × String)}
    {x : EStateM Error (Store Context) α} {g : α → List Record} {Q : α → Store Context → Prop}
    (h : Does x w.contexts (Keeps api.principal K w.contexts) Q) (hK : Prod.mk .context '' K = K')
    (hQ : ∀ a contexts, Q a contexts → ∀ record ∈ g a, ∃ r, record = .context r ∧
      ReadOwn api.principal u r contexts) :
    Isolates api u K' (do let a ← Stores.onContexts x; return g a) w := by
  subst hK
  refine .zoom_map h (fun _ hk => keepsOthers_contexts hk) fun a contexts _ ha record hr => ?_
  obtain ⟨r, rfl, hown⟩ := hQ a contexts ha record hr
  exact readOwn_context hown

private theorem isolates_onSessions {α : Type} {K : Set String} {K' : Set (ResourceKind × String)}
    {x : EStateM Error (Store Session) α} {g : α → List Record} {Q : α → Store Session → Prop}
    (h : Does x w.sessions (Keeps api.principal K w.sessions) Q) (hK : Prod.mk .session '' K = K')
    (hQ : ∀ a sessions, Q a sessions → ∀ record ∈ g a, ∃ r, record = .session r ∧
      ReadOwn api.principal u r sessions) :
    Isolates api u K' (do let a ← Stores.onSessions x; return g a) w := by
  subst hK
  refine .zoom_map h (fun _ hk => keepsOthers_sessions hk) fun a sessions _ ha record hr => ?_
  obtain ⟨r, rfl, hown⟩ := hQ a sessions ha record hr
  exact readOwn_session hown

private theorem isolates_onMemories {α : Type} {K : Set String} {K' : Set (ResourceKind × String)}
    {x : EStateM Error (Store MemoryItem) α} {g : α → List Record} {Q : α → Store MemoryItem → Prop}
    (h : Does x w.memories (Keeps api.principal K w.memories) Q) (hK : Prod.mk .memory '' K = K')
    (hQ : ∀ a memories, Q a memories → ∀ record ∈ g a, ∃ r, record = .memory r ∧
      ReadOwn api.principal u r memories) :
    Isolates api u K' (do let a ← Stores.onMemories x; return g a) w := by
  subst hK
  refine .zoom_map h (fun _ hk => keepsOthers_memories hk) fun a memories _ ha record hr => ?_
  obtain ⟨r, rfl, hown⟩ := hQ a memories ha record hr
  exact readOwn_memory hown

/-- `_ensure_context` never raises, and touches no context but the one the session names. -/
private theorem ensureContext_ok (hrt : api.runtime.Lawful u) {session : Session}
    (hown : session.ownerId = some api.principal.principalId) (w : Stores) :
    ∃ contexts, ensureContext api.runtime session api.scope w = .ok () { w with contexts } ∧
      Keeps api.principal {session.contextId} w.contexts contexts := by
  by_cases hhas : api.runtime.contextRegister.has session.contextId api.scope w.contexts = true
  · -- The row the scope shows is the only one under that id, and it is the principal's own.
    refine ⟨w.contexts, ?_, fun row hne => ?_⟩
    · refine (bind_of_ok (show (get : StoreM Stores) w = .ok w w from rfl)).trans ?_
      rw [if_pos hhas]
      rfl
    · obtain ⟨own, hmem, hkey, hperm⟩ := hrt.contexts.has.mp hhas
      refine ⟨fun hrow => ⟨hrow, fun hk => hne ?_⟩, And.left⟩
      rw [Table.eq_of_key_eq hrow hmem (hk.trans hkey.symm)]
      exact scopePermits_own.mp hperm
  · let context : Context := {
      contextId := session.contextId
      ownerId := session.ownerId
      metadata := [("session_id", .str session.sessionId)] }
    have hcontext : ownerId context = some api.principal.principalId := hown
    obtain ⟨created, hcreate⟩ :=
      create_of_getsWhatItHas hrt.contexts hrt.contextsGet hcontext w.contexts
    refine ⟨_, ?_, keeps_upsert hcontext w.contexts⟩
    refine (bind_of_ok (show (get : StoreM Stores) w = .ok w w from rfl)).trans ?_
    rw [if_neg hhas]
    refine bind_of_ok (a := created) ?_
    simp only [Stores.onContexts, zoom, AuthorizedInterface.scope]
    rw [hcreate]

/-- The own records a single-record answer is made of. -/
private theorem of_mem_singleton {ρ : Type} [Resource ρ] {P : Principal} (mk : ρ → Record) {a : ρ}
    {s : Store ρ} (ha : ReadOwn P u a s) :
    ∀ record ∈ [mk a], ∃ c, record = mk c ∧ ReadOwn P u c s := by
  intro record hr
  exact ⟨a, List.mem_singleton.mp hr, ha⟩

/-- The own records a list answer is made of. -/
private theorem of_mem_map {ρ : Type} [Resource ρ] {P : Principal} (mk : ρ → Record)
    {as : List ρ} {s : Store ρ} (ha : ∀ a ∈ as, ReadOwn P u a s) :
    ∀ record ∈ as.map mk, ∃ c, record = mk c ∧ ReadOwn P u c s := by
  intro record hr
  obtain ⟨a, hmem, rfl⟩ := List.mem_map.mp hr
  exact ⟨a, rfl, ha a hmem⟩

/-- Ensuring the session's context, then a step on the sessions. -/
private theorem isolates_ensureContext (hrt : api.runtime.Lawful u) (session : Session)
    (hown : session.ownerId = some api.principal.principalId)
    {x : EStateM Error (Store Session) Session} {K : Set String} {K' : Set (ResourceKind × String)}
    (hx : Does x w.sessions (Keeps api.principal K w.sessions) (ReadOwn api.principal u))
    (hK : insert (.context, session.contextId) (Prod.mk .session '' K) = K') :
    Isolates api u K' (do
      ensureContext api.runtime session api.scope
      let s ← Stores.onSessions x
      return [.session s]) w := by
  subst hK
  obtain ⟨contexts, hensure, hcontexts⟩ := ensureContext_ok hrt hown w
  have hsessions := @isolates_onSessions api u { w with contexts } _ _ _ _ (fun s => [.session s])
    _ hx rfl fun a s ha => of_mem_singleton .session ha
  refine .bind_of_ok hensure (hsessions.mono (fun w' hw' record hforeign => ?_) fun _ _ _ h => h)
  rw [hw' record hforeign, keepsOthers_contexts hcontexts record hforeign, Set.image_singleton,
    and_assoc, Set.mem_singleton_iff, Set.mem_insert_iff, not_or]

/-- A session is replaced — and its context ensured — only when it is the principal's own. -/
private theorem isolates_replaceSession (hrt : api.runtime.Lawful u) (session : Session)
    (now : Instant) : Isolates api u ((Operation.replaceSession session now).creates api.principal w)
      (do
        let session := { session with ownerId := api.owner }
        let _ ← Stores.onSessions
          (Register.reading (api.runtime.sessionRegister.get session.sessionId api.scope))
        ensureContext api.runtime session api.scope
        let replaced ← Stores.onSessions (api.runtime.sessionRegister.replace
          (fun s => { s with updatedAt := now }) session api.scope)
        return [.session replaced]) w := by
  cases hget : api.runtime.sessionRegister.get session.sessionId api.scope w.sessions with
  | error e =>
    refine @Does.of_error _ _ _ _ _ w e _ _ (bind_of_error ?_) fun record _ => ?_
    · simp only [Stores.onSessions, zoom, Register.reading_of_error hget]
    · refine ⟨fun hw => ⟨hw, ?_⟩, And.left⟩
      rintro ⟨-, row, hmem, hkey, hown⟩
      obtain ⟨found, hfound⟩ := hrt.sessionsGet.get hmem (scopePermits_own.mpr hown)
      rw [show key row = session.sessionId from hkey] at hfound
      cases hget.symm.trans hfound
  | ok found =>
    obtain ⟨row, hmem, hkey, hperm, -⟩ := hrt.sessions.get hget
    refine .bind_of_ok (a := found) (m := w) ?_ (isolates_ensureContext hrt
      { session with ownerId := api.owner } rfl
      (does_replace hrt.sessions (fun s => { s with updatedAt := now })
        { session with ownerId := api.owner } rfl rfl w.sessions) ?_)
    · simp only [Stores.onSessions, zoom, Register.reading_of_ok hget]
    · ext k
      simp only [Set.image_empty, Set.mem_insert_iff, Set.mem_empty_iff_false, or_false,
        Operation.creates, Set.mem_ofPred_eq]
      exact ⟨fun hk => ⟨hk, row, hmem, hkey, scopePermits_own.mp hperm⟩, And.left⟩

/-- Every request keeps the records of other owners but for those it creates over, and returns
only records of the principal's own. -/
theorem isolates_perform (hrt : api.runtime.Lawful u)
    (hgrant : ∀ request, (api.authorizer request).allowed = true) (op : Operation) (w : Stores) :
    Does (api.perform op) w (w.KeepsOthers api.principal (op.creates api.principal w))
      fun records w' => ∀ record ∈ records, w'.ReadOwn api.principal u record := by
  cases op with
  | createContext context =>
    exact isolates_require hgrant (isolates_onContexts
      (does_create hrt.contexts { context with ownerId := api.owner } rfl w.contexts)
      Set.image_singleton fun _ _ => of_mem_singleton .context)
  | getContext contextId =>
    exact isolates_require hgrant (isolates_onContexts
      (does_reading_get hrt.contexts contextId w.contexts)
      (Set.image_empty _) fun _ _ => of_mem_singleton .context)
  | appendContext contextId message expected =>
    exact isolates_require hgrant (isolates_onContexts
      (does_appendContext hrt.contextsAppend contextId message expected w.contexts)
      (Set.image_empty _) fun _ _ => of_mem_singleton .context)
  | replaceContext context =>
    exact isolates_require hgrant (isolates_onContexts
      (does_replace hrt.contexts (fun c => c)
        { context with ownerId := api.owner } rfl rfl w.contexts)
      (Set.image_empty _) fun _ _ => of_mem_singleton .context)
  | listContexts page =>
    exact isolates_require hgrant (isolates_onContexts
      (does_reading_list hrt.contexts () page w.contexts)
      (Set.image_empty _) fun _ _ => of_mem_map .context)
  | deleteContext contextId =>
    exact isolates_require hgrant (isolates_onContexts (g := fun _ => [])
      (does_writing_unregister hrt.contexts contextId w.contexts)
      (Set.image_empty _) fun _ _ _ _ hr => absurd hr List.not_mem_nil)
  | createMemory memory =>
    exact isolates_require hgrant (isolates_onMemories
      (does_create hrt.memories { memory with ownerId := api.owner } rfl w.memories)
      Set.image_singleton fun _ _ => of_mem_singleton .memory)
  | getMemory memoryId =>
    exact isolates_require hgrant (isolates_onMemories
      (does_reading_get hrt.memories memoryId w.memories)
      (Set.image_empty _) fun _ _ => of_mem_singleton .memory)
  | replaceMemory memory now =>
    exact isolates_require hgrant (isolates_onMemories
      (does_replace hrt.memories (fun m => { m with updatedAt := now })
        { memory with ownerId := api.owner } rfl rfl w.memories)
      (Set.image_empty _) fun _ _ => of_mem_singleton .memory)
  | listMemories page query now =>
    exact isolates_require hgrant (isolates_onMemories
      (does_reading_list hrt.memories { query, now } page w.memories)
      (Set.image_empty _) fun _ _ => of_mem_map .memory)
  | deleteMemory memoryId =>
    exact isolates_require hgrant (isolates_onMemories (g := fun _ => [])
      (does_writing_unregister hrt.memories memoryId w.memories)
      (Set.image_empty _) fun _ _ _ _ hr => absurd hr List.not_mem_nil)
  | selectMemories query now =>
    -- The strategy selects among the memories the scope shows.
    exact isolates_require hgrant (isolates_onMemories
      (does_reading_list hrt.memories { now } {} w.memories)
      (Set.image_empty _) fun memories _ hread => of_mem_map .memory fun memory hmem =>
        hread memory (api.runtime.memoryStrategy.subset now memories query hmem))
  | createSession session =>
    exact isolates_require hgrant (isolates_ensureContext hrt
      { session with ownerId := api.owner } rfl
      (does_create hrt.sessions { session with ownerId := api.owner } rfl w.sessions)
      (by rw [Set.image_singleton]; rfl))
  | getSession sessionId =>
    exact isolates_require hgrant (isolates_onSessions
      (does_reading_get hrt.sessions sessionId w.sessions)
      (Set.image_empty _) fun _ _ => of_mem_singleton .session)
  | replaceSession session now =>
    exact isolates_require hgrant (isolates_replaceSession hrt session now)
  | archiveSession sessionId now =>
    exact isolates_require hgrant (isolates_onSessions
      (does_archiveSession hrt.sessions sessionId now w.sessions)
      (Set.image_empty _) fun _ _ => of_mem_singleton .session)
  | listSessions page filter =>
    exact isolates_require hgrant (isolates_onSessions
      (does_reading_list hrt.sessions filter page w.sessions)
      (Set.image_empty _) fun _ _ => of_mem_map .session)
  | deleteSession sessionId =>
    exact isolates_require hgrant (isolates_onSessions (g := fun _ => [])
      (does_writing_unregister hrt.sessions sessionId w.sessions)
      (Set.image_empty _) fun _ _ _ _ hr => absurd hr List.not_mem_nil)

end Requests

/-! ### Sessions of requests -/

/-- Over any registers that follow the access rule, isolation is exactly that no creation of the
session names an id under which another owner's record is stored. -/
private theorem tenantIsolated_iff_of_lawful {api : AuthorizedInterface} {u : UnicodeTables}
    (hrt : api.runtime.Lawful u) (hgrant : ∀ request, (api.authorizer request).allowed = true)
    (w : Stores) (ops : List Operation) :
    api.TenantIsolated u w ops ↔
      Along api.step (Operation.CreatesOverNoOther api.principal) w ops := by
  have hreturned : ∀ ops w, Along api.step (api.ReturnsOnlyOwn u) w ops := by
    intro ops
    induction ops with
    | nil => exact fun _ => trivial
    | cons op ops ih =>
      exact fun w => ⟨fun h => (isolates_perform hrt hgrant op w).value h, ih _⟩
  -- A record of another owner is a property of the stores that a request can only lose.
  let Kept : {record : Record // record.Foreign api.principal} → Stores → Prop :=
    fun record w => w.Holds record.1
  have hstep : ∀ (record : {record : Record // record.Foreign api.principal}) w op w',
      api.step w op = some w' →
      (Kept record w' ↔ Kept record w ∧ ¬record.1.key ∈ op.creates api.principal w) := by
    intro record w op w' hw'
    cases hw'
    exact (isolates_perform hrt hgrant op w).state record.1 record.2
  have hruns : ∀ (ops : List Operation) w, ∃ w', run api.step w ops = some w' := by
    intro ops
    induction ops with
    | nil => exact fun w => ⟨w, rfl⟩
    | cons op ops ih => exact fun w => ih _
  have hgood : ∀ w (op : Operation), (∀ record, Kept record w → ¬record.1.key ∈ op.creates api.principal w) ↔
      op.CreatesOverNoOther api.principal w := fun w op =>
    ⟨fun h record hforeign hw => h ⟨record, hforeign⟩ hw, fun h record hw => h record.1 record.2 hw⟩
  obtain ⟨w', hrun⟩ := hruns ops w
  have hiff := keeps_run_iff hstep hrun
  simp only [hgood] at hiff
  rw [← hiff]
  constructor
  · exact fun h record hw => h.stored w' hrun record.1 record.2 hw
  · refine fun h => ⟨hreturned ops w, fun t ht record hforeign hw => ?_⟩
    cases hrun.symm.trans ht
    exact h ⟨record, hforeign⟩ hw

/-- **Tenant isolation.** Over SQLite and over dictionaries, from any stores and for any requests
the authorizer grants, no record of another owner is returned and all of them stay as they are if
and only if no creation names an id under which another owner's record is stored. -/
theorem tenantIsolated_iff (backend : Backend) (u : UnicodeTables) (memoryStrategy : MemoryStrategy)
    (authorizer : Authorizer) (hgrant : ∀ request, (authorizer request).allowed = true)
    (P : Principal) (w : Stores) (ops : List Operation) :
    AuthorizedInterface.TenantIsolated ⟨storeRuntime backend u memoryStrategy, authorizer, P⟩ u w
        ops ↔
      Along (AuthorizedInterface.step ⟨storeRuntime backend u memoryStrategy, authorizer, P⟩)
        (Operation.CreatesOverNoOther P) w ops :=
  tenantIsolated_iff_of_lawful (storeRuntime_lawful backend u memoryStrategy) hgrant w ops

private def asciiTables : UnicodeTables := ⟨Char.isWhitespace, Char.isAlphanum, String.toLower⟩

private def aliceOn (backend : Backend) : AuthorizedInterface where
  runtime := storeRuntime backend asciiTables (basicMemoryStrategy asciiTables)
  authorizer := allowAllAuthPolicy
  principal := { principalId := "alice" }

private def contextOfBob : Context := { contextId := "shared", ownerId := "bob" }

private def storesOfBob : Stores := { contexts := Table.upsert contextOfBob ∅ }

/-- Creating a context, or a session that names one, under the id of another tenant's context
destroys that context, in both backends. -/
theorem not_tenantIsolated_of_shared_id :
    ¬(aliceOn .sqlite).TenantIsolated asciiTables storesOfBob
        [.createContext { contextId := "shared" }] ∧
    ¬(aliceOn .inMemory).TenantIsolated asciiTables storesOfBob
        [.createSession { sessionId := "s", contextId := "shared", createdAt := 0, updatedAt := 0 }]
    := by
  have hbob : (Record.context contextOfBob).Foreign { principalId := "alice" } :=
    ⟨"bob", rfl, by decide⟩
  have hheld : storesOfBob.Holds (.context contextOfBob) := Table.mem_upsert.mpr (Or.inl rfl)
  refine ⟨fun h => ?_, fun h => ?_⟩
  · have hkept : contextOfBob ∈ (after ((aliceOn .sqlite).perform
      (.createContext { contextId := "shared" })) storesOfBob).contexts.rows :=
      h.stored _ rfl _ hbob hheld
    exact absurd hkept (by decide)
  · have hkept : contextOfBob ∈ (after ((aliceOn .inMemory).perform (.createSession
      { sessionId := "s", contextId := "shared", createdAt := 0, updatedAt := 0 }))
        storesOfBob).contexts.rows := h.stored _ rfl _ hbob hheld
    exact absurd hkept (by decide)

/-- The equivalence at a session that creates nothing over another owner's record. -/
theorem tenantIsolated_iff_fresh_id :
    (∀ request, (allowAllAuthPolicy request).allowed = true) ∧
    ((aliceOn .sqlite).TenantIsolated asciiTables storesOfBob
        [.createContext { contextId := "own" }] ↔
      Along (aliceOn .sqlite).step (Operation.CreatesOverNoOther { principalId := "alice" })
        storesOfBob [.createContext { contextId := "own" }]) :=
  ⟨allowAllAuthPolicy_allowed, tenantIsolated_iff .sqlite asciiTables
    (basicMemoryStrategy asciiTables) allowAllAuthPolicy allowAllAuthPolicy_allowed
    { principalId := "alice" } storesOfBob [.createContext { contextId := "own" }]⟩

end EvernightAI
