import EvernightAI.Store.Register

/-!
# What a register does within a scope

`Register.Scoped` states the access rule of a register once for both backends: reads hand out
stored rows the scope permits, `unregister` removes such rows only, and `register` looks at the
owner of the record it is given — never at the owner of the row it replaces. Each of the six
registers satisfies it.
-/

namespace EvernightAI

open Resource

section Rules

variable {ρ : Type} [Resource ρ] {u : UnicodeTables}

/-- `record` is what reading the stored `row` hands out: the row itself, or the row after the
schema's validators. -/
def ReadsAs (u : UnicodeTables) (row record : ρ) : Prop := record = row ∨ load u row = .ok record

/-- `record` is read from a stored row that the scope permits. -/
def VisibleIn (u : UnicodeTables) (scope : Option PrincipalScope) (store : Store ρ)
    (record : ρ) : Prop :=
  ∃ row ∈ store, scopePermits scope (ownerId row) = true ∧ ReadsAs u row record

/-- **The access rule of a register.** -/
structure Register.Scoped {Filter : Type} (u : UnicodeTables) (reg : Register ρ Filter) :
    Prop where
  register : ∀ record scope store, reg.register record scope store = registerRecord record scope store
  unregister : ∀ {recordId scope store store'}, reg.unregister recordId scope store = .ok store' →
    ∀ record, record ∈ store' ↔
      record ∈ store ∧ ¬(key record = recordId ∧ scopePermits scope (ownerId record) = true)
  get : ∀ {recordId scope store record}, reg.get recordId scope store = .ok record →
    ∃ row ∈ store, key row = recordId ∧ scopePermits scope (ownerId row) = true ∧
      ReadsAs u row record
  has : ∀ {recordId scope store}, reg.has recordId scope store = true ↔
    ∃ row ∈ store, key row = recordId ∧ scopePermits scope (ownerId row) = true
  list : ∀ {filter page scope store records}, reg.list filter page scope store = .ok records →
    ∀ record ∈ records, VisibleIn u scope store record

/-- **Writing.** A write succeeds when the scope permits the record written, whatever it replaces. -/
theorem registerRecord_of_permits {record : ρ} {scope : Option PrincipalScope} (store : Store ρ)
    (h : scopePermits scope (ownerId record) = true) :
    registerRecord record scope store = .ok (store.upsert record) := by
  simp only [registerRecord, requireScope, h, if_true]

theorem registerRecord_eq_ok {record : ρ} {scope : Option PrincipalScope} {store store' : Store ρ}
    (h : registerRecord record scope store = .ok store') :
    scopePermits scope (ownerId record) = true ∧ store' = store.upsert record := by
  by_cases hp : scopePermits scope (ownerId record) = true
  · rw [registerRecord_of_permits store hp] at h
    exact ⟨hp, (Except.ok.inj h).symm⟩
  · simp only [registerRecord, requireScope, hp] at h
    cases h

theorem scopedIdentity_iff {recordId : String} {scope : Option PrincipalScope} {record : ρ} :
    scopedIdentity recordId scope record = true ↔
      key record = recordId ∧ scopePermits scope (ownerId record) = true := by
  rcases scope with _ | ⟨_ | owner⟩ <;>
    simp [scopedIdentity, scopePermits, PrincipalScope.permits]

/-- The owner a listing is restricted to is one the scope permits. -/
theorem scopePermits_of_listedOwner {scope : Option PrincipalScope}
    {requested owner ownerId : Option String} (h : listedOwner scope requested = some owner)
    (howner : owner.all (some · = ownerId) = true) : scopePermits scope ownerId = true := by
  rcases scope with _ | ⟨_ | o⟩
  · rfl
  · simp [scopePermits, PrincipalScope.permits]
  · simp only [listedOwner, Option.bind_some] at h
    split at h
    · cases h
    · cases h
      simpa [scopePermits, PrincipalScope.permits, eq_comm] using howner

theorem mem_sortById {records : List ρ} {record : ρ} :
    record ∈ sortById records ↔ record ∈ records := List.mem_insertionSort _

omit [Resource ρ] in
theorem mem_of_mem_sqlLimit {limit : Option Int} {records : List ρ} {record : ρ}
    (h : record ∈ sqlLimit limit records) : record ∈ records := by
  unfold sqlLimit at h
  split at h
  · exact h
  · split at h
    · exact h
    · exact List.mem_of_mem_take h

omit [Resource ρ] in
theorem mem_of_mem_pySlice {limit : Option Int} {records : List ρ} {record : ρ}
    (h : record ∈ pySlice limit records) : record ∈ records := by
  unfold pySlice at h
  split at h
  · exact h
  · split at h <;> exact List.mem_of_mem_take h

/-- Every row of a listing is stored and within the scope. -/
theorem of_mem_sqliteRows {clause : ρ → Bool} {page : Page} {scope : Option PrincipalScope}
    {store : Store ρ} {row : ρ} (h : row ∈ sqliteRows clause page scope store) :
    row ∈ store ∧ scopePermits scope (ownerId row) = true := by
  unfold sqliteRows at h
  split at h
  · cases h
  · next owner howner =>
    have hrow := Table.mem_select.mp (mem_sortById.mp (mem_of_mem_sqlLimit h))
    simp only [Bool.and_eq_true] at hrow
    exact ⟨hrow.1, scopePermits_of_listedOwner howner hrow.2.1.2⟩

theorem of_mem_dictRows {keep : List ρ → List ρ} (hkeep : ∀ l, keep l ⊆ l) {page : Page}
    {scope : Option PrincipalScope} {store : Store ρ} {record : ρ}
    (h : record ∈ dictRows keep page scope store) :
    record ∈ store ∧ scopePermits scope (ownerId record) = true := by
  simp only [dictRows] at h
  split at h
  · cases h
  · next owner howner =>
    have hrow := List.mem_filter.mp (hkeep _ (mem_of_mem_pySlice h))
    exact ⟨mem_sortById.mp (List.mem_of_mem_filter hrow.1),
      scopePermits_of_listedOwner howner hrow.2⟩

/-- Each record of a listing that was read back comes from one of its rows. -/
theorem exists_load_of_mapM {rows records : List ρ} (h : rows.mapM (load u) = .ok records) :
    ∀ record ∈ records, ∃ row ∈ rows, load u row = .ok record := by
  induction rows generalizing records with
  | nil => cases h; intro record hr; cases hr
  | cons row rows ih =>
    rw [List.mapM_cons] at h
    cases hload : load u row with
    | error e => rw [hload] at h; cases h
    | ok first =>
      rw [hload] at h
      cases hrest : rows.mapM (load u) with
      | error e => rw [hrest] at h; cases h
      | ok rest =>
        rw [hrest] at h
        cases h
        intro record hr
        rcases List.mem_cons.mp hr with rfl | hr
        · exact ⟨row, List.mem_cons_self .., hload⟩
        · obtain ⟨row', hrow', hl⟩ := ih hrest record hr
          exact ⟨row', List.mem_cons_of_mem _ hrow', hl⟩

theorem visibleIn_of_sqliteRows {clause : ρ → Bool} {page : Page} {scope : Option PrincipalScope}
    {store : Store ρ} {records : List ρ}
    (h : (sqliteRows clause page scope store).mapM (load u) = .ok records) :
    ∀ record ∈ records, VisibleIn u scope store record := by
  intro record hr
  obtain ⟨row, hrow, hload⟩ := exists_load_of_mapM h record hr
  obtain ⟨hmem, hperm⟩ := of_mem_sqliteRows hrow
  exact ⟨row, hmem, hperm, Or.inr hload⟩

theorem sqliteHas_iff {recordId : String} {scope : Option PrincipalScope} {store : Store ρ} :
    sqliteHas recordId scope store = true ↔
      ∃ row ∈ store, key row = recordId ∧ scopePermits scope (ownerId row) = true := by
  simp only [sqliteHas, Bool.not_eq_true', List.isEmpty_eq_false_iff_exists_mem, Table.mem_select,
    scopedIdentity_iff]

theorem dictHas_iff {recordId : String} {scope : Option PrincipalScope} {store : Store ρ} :
    dictHas recordId scope store = true ↔
      ∃ row ∈ store, key row = recordId ∧ scopePermits scope (ownerId row) = true := by
  unfold dictHas
  constructor
  · intro h
    split at h
    · cases h
    · next row hrow =>
      obtain ⟨hmem, hkey⟩ := Table.find?_eq_some.mp hrow
      exact ⟨row, hmem, hkey, h⟩
  · rintro ⟨row, hmem, hkey, hperm⟩
    rw [Table.find?_eq_some.mpr ⟨hmem, hkey⟩]
    exact hperm

theorem sqliteGet_eq_ok {recordId : String} {scope : Option PrincipalScope} {store : Store ρ}
    {record : ρ} (h : sqliteGet u recordId scope store = .ok record) :
    ∃ row ∈ store, key row = recordId ∧ scopePermits scope (ownerId row) = true ∧
      ReadsAs u row record := by
  unfold sqliteGet at h
  split at h
  · cases h
  · next row hrow =>
    obtain ⟨hmem, hid⟩ := Table.mem_select.mp (List.mem_of_mem_head? hrow)
    obtain ⟨hkey, hperm⟩ := scopedIdentity_iff.mp hid
    exact ⟨row, hmem, hkey, hperm, Or.inr h⟩

theorem dictGet_eq_ok {recordId : String} {scope : Option PrincipalScope} {store : Store ρ}
    {record : ρ} (h : dictGet recordId scope store = .ok record) :
    record ∈ store ∧ key record = recordId ∧ scopePermits scope (ownerId record) = true := by
  unfold dictGet at h
  split at h
  · next hhas =>
    split at h
    · next row hrow =>
      cases h
      obtain ⟨hmem, hkey⟩ := Table.find?_eq_some.mp hrow
      exact ⟨hmem, hkey, by simpa only [dictHas, hrow] using hhas⟩
    · cases h
  · cases h

theorem mem_of_sqliteUnregister {recordId : String} {scope : Option PrincipalScope}
    {store store' : Store ρ} (h : sqliteUnregister recordId scope store = .ok store')
    (record : ρ) : record ∈ store' ↔
      record ∈ store ∧ ¬(key record = recordId ∧ scopePermits scope (ownerId record) = true) := by
  unfold sqliteUnregister at h
  split at h
  · cases h
  · cases h
    rw [Table.mem_deleteWhere, ← scopedIdentity_iff, Bool.not_eq_true]

theorem mem_of_dictUnregister {recordId : String} {scope : Option PrincipalScope}
    {store store' : Store ρ} (h : dictUnregister recordId scope store = .ok store')
    (record : ρ) : record ∈ store' ↔
      record ∈ store ∧ ¬(key record = recordId ∧ scopePermits scope (ownerId record) = true) := by
  unfold dictUnregister at h
  split at h
  · next hhas =>
    cases h
    obtain ⟨row, hmem, hkey, hperm⟩ := dictHas_iff.mp hhas
    rw [Table.mem_deleteWhere, decide_eq_false_iff_not]
    refine and_congr_right fun hr => not_congr ⟨fun hk => ⟨hk, ?_⟩, And.left⟩
    rwa [Table.eq_of_key_eq hr hmem (hk.trans hkey.symm)]
  · cases h

end Rules

section Members

variable (u : UnicodeTables)

theorem sqliteContextRegister_scoped : (sqliteContextRegister u).toRegister.Scoped u where
  register _ _ _ := rfl
  unregister := mem_of_sqliteUnregister
  get := sqliteGet_eq_ok
  has := sqliteHas_iff
  list := visibleIn_of_sqliteRows

theorem sqliteSessionRegister_scoped : (sqliteSessionRegister u).Scoped u where
  register _ _ _ := rfl
  unregister := mem_of_sqliteUnregister
  get := sqliteGet_eq_ok
  has := sqliteHas_iff
  list := visibleIn_of_sqliteRows

theorem sqliteMemoryRegister_scoped : (sqliteMemoryRegister u).Scoped u where
  register _ _ _ := rfl
  unregister := mem_of_sqliteUnregister
  get := sqliteGet_eq_ok
  has := sqliteHas_iff
  list := by
    intro filter page scope store records h
    simp only [sqliteMemoryRegister] at h
    split at h
    · exact visibleIn_of_sqliteRows h
    · split at h
      · cases h
      · next query _ memories hmem =>
        cases h
        intro record hr
        exact visibleIn_of_sqliteRows hmem record
          (basicSelect_subset u filter.now memories _ (mem_of_mem_pySlice hr))

private theorem dict_get_scoped {ρ : Type} [Resource ρ] {recordId : String}
    {scope : Option PrincipalScope} {store : Store ρ} {record : ρ}
    (h : dictGet recordId scope store = .ok record) :
    ∃ row ∈ store, key row = recordId ∧ scopePermits scope (ownerId row) = true ∧
      ReadsAs u row record := by
  obtain ⟨hmem, hkey, hperm⟩ := dictGet_eq_ok h
  exact ⟨record, hmem, hkey, hperm, Or.inl rfl⟩

private theorem dict_list_scoped {ρ : Type} [Resource ρ] {keep : List ρ → List ρ}
    (hkeep : ∀ l, keep l ⊆ l) {page : Page} {scope : Option PrincipalScope} {store : Store ρ} :
    ∀ record ∈ dictRows keep page scope store, VisibleIn u scope store record := by
  intro record hr
  obtain ⟨hmem, hperm⟩ := of_mem_dictRows hkeep hr
  exact ⟨record, hmem, hperm, Or.inl rfl⟩

theorem dictContextRegister_scoped : dictContextRegister.toRegister.Scoped u where
  register _ _ _ := rfl
  unregister := mem_of_dictUnregister
  get := dict_get_scoped u
  has := dictHas_iff
  list := by
    intro filter page scope store records h
    cases h
    exact dict_list_scoped u fun _ => List.Subset.refl _

theorem dictSessionRegister_scoped : dictSessionRegister.Scoped u where
  register _ _ _ := rfl
  unregister := mem_of_dictUnregister
  get := dict_get_scoped u
  has := dictHas_iff
  list := by
    intro filter page scope store records h
    cases h
    exact dict_list_scoped u fun _ => List.filter_subset_self _

theorem dictMemoryRegister_scoped : (dictMemoryRegister u).Scoped u where
  register _ _ _ := rfl
  unregister := mem_of_dictUnregister
  get := dict_get_scoped u
  has := dictHas_iff
  list := by
    intro filter page scope store records h
    cases h
    refine dict_list_scoped u fun l => ?_
    split
    · exact List.Subset.refl _
    · exact basicSelect_subset u filter.now l _

/-- A register that returns every record it has: its payloads read back without an error. -/
structure Register.GetsWhatItHas {ρ Filter : Type} [Resource ρ] (reg : Register ρ Filter) :
    Prop where
  get : ∀ {row : ρ} {scope} {store : Store ρ}, row ∈ store →
    scopePermits scope (ownerId row) = true → ∃ record, reg.get (key row) scope store = .ok record

private theorem sqliteGet_of_mem {ρ : Type} [Resource ρ]
    (hload : ∀ row : ρ, ∃ record, load u row = .ok record) {row : ρ}
    {scope : Option PrincipalScope} {store : Store ρ} (hmem : row ∈ store)
    (hperm : scopePermits scope (ownerId row) = true) :
    ∃ record, sqliteGet u (key row) scope store = .ok record := by
  have hrow : row ∈ store.select (scopedIdentity (key row) scope) :=
    Table.mem_select.mpr ⟨hmem, scopedIdentity_iff.mpr ⟨rfl, hperm⟩⟩
  simp only [sqliteGet]
  cases hsel : store.select (scopedIdentity (key row) scope) with
  | nil => rw [hsel] at hrow; cases hrow
  | cons first rest => exact hload first

private theorem dictGet_of_mem {ρ : Type} [Resource ρ] {row : ρ}
    {scope : Option PrincipalScope} {store : Store ρ} (hmem : row ∈ store)
    (hperm : scopePermits scope (ownerId row) = true) :
    ∃ record, dictGet (key row) scope store = .ok record := by
  have hfind := Table.find?_eq_some.mpr ⟨hmem, rfl⟩
  have hhas : dictHas (key row) scope store = true := dictHas_iff.mpr ⟨row, hmem, rfl, hperm⟩
  exact ⟨row, by simp only [dictGet, hhas, hfind, if_true]⟩

theorem sqliteContextRegister_getsWhatItHas :
    (sqliteContextRegister u).toRegister.GetsWhatItHas where
  get := sqliteGet_of_mem u fun row => ⟨row, rfl⟩

theorem dictContextRegister_getsWhatItHas : dictContextRegister.toRegister.GetsWhatItHas where
  get := dictGet_of_mem

theorem sqliteSessionRegister_getsWhatItHas : (sqliteSessionRegister u).GetsWhatItHas where
  get := sqliteGet_of_mem u fun row => ⟨row, rfl⟩

theorem dictSessionRegister_getsWhatItHas : dictSessionRegister.GetsWhatItHas where
  get := dictGet_of_mem

/-- **Appending.** A message is appended to a stored context the scope permits, whose owner stays. -/
structure ContextRegister.Appends (reg : ContextRegister) : Prop where
  appendMessage : ∀ {contextId message expected scope store updated store'},
    reg.appendMessage contextId message expected scope store = .ok (updated, store') →
    ∃ row ∈ store, row.contextId = contextId ∧ scopePermits scope row.ownerId = true ∧
      updated = row.withMessage message ∧ store' = store.upsert updated

theorem sqliteContextRegister_appends : (sqliteContextRegister u).Appends where
  appendMessage := by
    intro contextId message expected scope store updated store' h
    simp only [sqliteContextRegister] at h
    split at h
    · cases h
    · next row hrow =>
      obtain ⟨hmem, hid⟩ := Table.mem_select.mp (List.mem_of_mem_head? hrow)
      obtain ⟨hkey, hperm⟩ := scopedIdentity_iff.mp hid
      split at h
      · cases h
      · cases h
        exact ⟨row, hmem, hkey, hperm, rfl, rfl⟩

theorem dictContextRegister_appends : dictContextRegister.Appends where
  appendMessage := by
    intro contextId message expected scope store updated store' h
    simp only [dictContextRegister] at h
    split at h
    · cases h
    · next row hrow =>
      obtain ⟨hmem, hkey, hperm⟩ := dictGet_eq_ok hrow
      split at h
      · cases h
      · split at h
        · cases h
        · next hreg =>
          cases h
          exact ⟨row, hmem, hkey, hperm, rfl, (registerRecord_eq_ok hreg).2⟩

end Members

end EvernightAI
