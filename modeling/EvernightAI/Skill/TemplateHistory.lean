import EvernightAI.Skill.RunRevisions

/-!
# The templates of a runtime

The register, the manager and the store of a runtime hold the same templates at every moment,
and a revision stands for one configuration of its name.

* `SkillSystem.Valid` : the invariant of the templates, kept by the operations and by a restart.
* `SkillSystem.Installs` : a revision that was given before is registered only where it still was.
* `SkillSystem.Ledger` : configurations with one name and revision are related.
-/

namespace EvernightAI

open StatefulProgram

variable {p : SkillPlatform} {builtins : Table SkillRegistration.name}

/-! ### The templates -/

namespace SkillSystem

/-- **The invariant of the templates.** -/
structure Valid (builtins : Table SkillRegistration.name) (s : SkillSystem) : Prop where
  register : ∀ name, s.manager.register.find? name =
    ((s.manager.templates.find? name).map (·.registration)).or (builtins.find? name)
  stored : ∀ store, s.manager.store = some store → ∀ name,
    store.find? name = (s.manager.templates.find? name).map (·.stored)
  listed : ∀ config ∈ s.manager.configurations, config ∈ s.published
  apart : ∀ config ∈ s.published, builtins.find? config.name = none
  revised : ∀ config ∈ s.published, config.revision.isSome

variable {s s' : SkillSystem}

theorem mem_configurations {m : SkillManager} {config : SkillTemplateConfig} :
    config ∈ m.configurations ↔ config ∈ m.templates ∨ ∃ store, m.store = some store ∧
      config ∈ store := by
  rw [SkillManager.configurations, List.mem_append, Table.mem_rows]
  refine or_congr_right ?_
  cases m.store with
  | none => simp
  | some store => simp [Table.mem_rows]

/-- A template is published under its name. -/
theorem Valid.published (h : Valid builtins s) {name : String} {config : SkillTemplateConfig}
    (hfind : s.manager.templates.find? name = some config) :
    config ∈ s.published ∧ config.name = name :=
  have hmem := Table.find?_eq_some.mp hfind
  ⟨h.listed config (mem_configurations.mpr (Or.inl hmem.1)), hmem.2⟩

/-- The revision of the skill registered under a name, when there is one. -/
def current (s : SkillSystem) (name : String) : Option (Option String) :=
  (s.manager.register.find? name).map (·.definition.revision)

/-- What was registered at some time: a template that was published, or a skill of the code. -/
def Known (builtins : Table SkillRegistration.name) (s : SkillSystem)
    (registration : SkillRegistration) : Prop :=
  builtins.find? registration.name = some registration ∨
    ∃ config ∈ s.published, registration = config.registration

theorem Valid.known (h : Valid builtins s) {name : String} {registration : SkillRegistration}
    (hget : s.manager.get name = .ok registration) :
    Known builtins s registration ∧ registration.name = name ∧
      s.current name = some registration.definition.revision := by
  have hfind : s.manager.register.find? name = some registration := by
    rw [SkillManager.get] at hget
    split at hget
    · next hfind => rw [hfind, Except.ok.inj hget]
    · exact absurd hget (by simp)
  refine ⟨?_, (Table.find?_eq_some.mp hfind).2, by rw [current, hfind, Option.map_some]⟩
  rw [h.register, Option.or_eq_some_iff, Option.map_eq_some_iff] at hfind
  rcases hfind with ⟨config, hconfig, rfl⟩ | ⟨-, hbuiltin⟩
  · exact Or.inr ⟨config, (h.published hconfig).1, rfl⟩
  · refine Or.inl ?_
    rwa [(Table.find?_eq_some.mp hbuiltin).2]

/-! ### What an operation or a restart writes -/

/-- A configuration that an operation writes: under a new revision, or without a change. -/
inductive Written (builtins : Table SkillRegistration.name) (s : SkillSystem)
    (config : SkillTemplateConfig) : Prop
  | fresh (hname : builtins.find? config.name = none) (hfresh : config.revision ∉ s.issued)
    (hsome : config.revision.isSome)
  | same {current : SkillTemplateConfig}
    (hcurrent : s.manager.templates.find? config.name = some current)
    (hrevision : config.revision = current.revision) (hsame : config == current)

/-- **One operation.** -/
theorem Valid.of_writes (h : Valid builtins s) {op : TemplateOperation} {uuid : String}
    {m : SkillManager} (hfresh : some uuid ∉ s.issued) (hwrites : op.Writes uuid s.manager m) :
    (∃ config, Written builtins s config ∧ m = s.manager.withTemplate config ∧
      (op.finite → (∀ current ∈ s.manager.templates, current.finite) → config.finite)) ∨
    ∃ name, builtins.find? name = none ∧ m = s.manager.withoutTemplate name := by
  cases hwrites with
  | @create config hnone =>
    rw [h.register, Option.or_eq_none_iff] at hnone
    exact Or.inl ⟨config.created uuid, .fresh hnone.2 hfresh rfl, rfl, fun hfinite _ => hfinite⟩
  | @update name changes current hcurrent =>
    obtain ⟨hmem, rfl⟩ := h.published hcurrent
    refine Or.inl ⟨changes.revise uuid current, ?_, rfl, fun hfinite hall => ?_⟩
    · rw [SkillTemplateUpdate.revise]
      split
      · exact .fresh (h.apart current hmem) hfresh rfl
      · next hsame =>
        exact .same hcurrent rfl (by simpa [bne] using hsame)
    · have happly := SkillTemplateUpdate.finite_apply hfinite
        (hall current (Table.find?_eq_some.mp hcurrent).1)
      rw [SkillTemplateUpdate.revise]
      split
      · exact happly
      · exact happly
  | @delete name hsome =>
    obtain ⟨config, hconfig⟩ := Option.isSome_iff_exists.mp hsome
    obtain ⟨hmem, hname⟩ := h.published hconfig
    exact Or.inr ⟨name, hname ▸ h.apart config hmem, rfl⟩

theorem mem_configurations_withTemplate {m : SkillManager} {config config' : SkillTemplateConfig}
    (h : config' ∈ (m.withTemplate config).configurations) :
    config' = config ∨ (config' = config.stored ∧ m.store.isSome) ∨ config' ∈ m.configurations := by
  rcases mem_configurations.mp h with h | ⟨store', hstore', h⟩
  · rcases Table.mem_upsert.mp h with rfl | ⟨h, -⟩
    · exact Or.inl rfl
    · exact Or.inr (Or.inr (mem_configurations.mpr (Or.inl h)))
  · obtain ⟨store, hstore, rfl⟩ := Option.map_eq_some_iff.mp hstore'
    rcases Table.mem_upsert.mp h with rfl | ⟨h, -⟩
    · exact Or.inr (Or.inl ⟨rfl, by rw [hstore]; rfl⟩)
    · exact Or.inr (Or.inr (mem_configurations.mpr (Or.inr ⟨store, hstore, h⟩)))

theorem mem_configurations_withoutTemplate {m : SkillManager} {name : String}
    {config : SkillTemplateConfig} (h : config ∈ (m.withoutTemplate name).configurations) :
    config ∈ m.configurations := by
  rcases mem_configurations.mp h with h | ⟨store', hstore', h⟩
  · exact mem_configurations.mpr (Or.inl (Table.mem_deleteWhere.mp h).1)
  · obtain ⟨store, hstore, rfl⟩ := Option.map_eq_some_iff.mp hstore'
    exact mem_configurations.mpr (Or.inr ⟨store, hstore, (Table.mem_deleteWhere.mp h).1⟩)

/-- A written name belongs to no skill of the code. -/
theorem Valid.apart_written (h : Valid builtins s) {config : SkillTemplateConfig}
    (hwritten : Written builtins s config) :
    builtins.find? config.name = none ∧ config.revision.isSome := by
  cases hwritten with
  | fresh hname _ hsome => exact ⟨hname, hsome⟩
  | same hcurrent hrevision _ =>
    obtain ⟨hmem, hname⟩ := h.published hcurrent
    exact ⟨hname ▸ h.apart _ hmem, hrevision ▸ h.revised _ hmem⟩

theorem Valid.withTemplate (h : Valid builtins s) {config : SkillTemplateConfig}
    (hwritten : Written builtins s config) :
    Valid builtins (s.withManager (s.manager.withTemplate config)) := by
  have hnew : ∀ config' ∈ (s.withManager (s.manager.withTemplate config)).published,
      builtins.find? config'.name = none ∧ config'.revision.isSome := by
    intro config' hmem
    have hold : config' ∈ s.published →
        builtins.find? config'.name = none ∧ config'.revision.isSome := fun hmem =>
      ⟨h.apart config' hmem, h.revised config' hmem⟩
    rcases List.mem_append.mp hmem with hmem | hmem
    · exact hold hmem
    · rcases mem_configurations_withTemplate hmem with rfl | ⟨rfl, -⟩ | hmem
      · exact h.apart_written hwritten
      · exact show builtins.find? config.name = none ∧ config.revision.isSome from
          h.apart_written hwritten
      · exact hold (h.listed config' hmem)
  refine ⟨fun name => ?_, fun store hstore name => ?_, fun config' hmem =>
    List.mem_append_right _ hmem, fun config' hmem => (hnew config' hmem).1,
    fun config' hmem => (hnew config' hmem).2⟩
  · simp only [withManager, SkillManager.find?_register_withTemplate,
      SkillManager.find?_templates_withTemplate]
    by_cases hname : name = config.name
    · rw [if_pos hname, if_pos hname]
      rfl
    · rw [if_neg hname, if_neg hname, h.register]
  · obtain ⟨store₀, hstore₀, rfl⟩ := Option.map_eq_some_iff.mp hstore
    simp only [withManager, SkillManager.find?_templates_withTemplate,
      SkillManager.find?_store_withTemplate]
    by_cases hname : name = config.name
    · rw [if_pos hname, if_pos hname]
      rfl
    · rw [if_neg hname, if_neg hname, h.stored store₀ hstore₀]

theorem Valid.withoutTemplate (h : Valid builtins s) {skillName : String}
    (hbuiltin : builtins.find? skillName = none) :
    Valid builtins (s.withManager (s.manager.withoutTemplate skillName)) := by
  have hold : ∀ config ∈ (s.withManager (s.manager.withoutTemplate skillName)).published,
      config ∈ s.published := by
    intro config hmem
    rcases List.mem_append.mp hmem with hmem | hmem
    · exact hmem
    · exact h.listed config (mem_configurations_withoutTemplate hmem)
  refine ⟨fun name => ?_, fun store hstore name => ?_, fun config hmem =>
    List.mem_append_right _ hmem, fun config hmem => h.apart config (hold config hmem),
    fun config hmem => h.revised config (hold config hmem)⟩
  · simp only [withManager, SkillManager.find?_register_withoutTemplate,
      SkillManager.find?_templates_withoutTemplate]
    by_cases hname : name = skillName
    · rw [if_pos hname, if_pos hname, hname, hbuiltin]
      rfl
    · rw [if_neg hname, if_neg hname, h.register]
  · obtain ⟨store₀, hstore₀, rfl⟩ := Option.map_eq_some_iff.mp hstore
    rw [Table.find?_deleteWhere_key]
    simp only [withManager, SkillManager.find?_templates_withoutTemplate]
    by_cases hname : name = skillName
    · rw [if_pos hname, if_pos hname]
      rfl
    · rw [if_neg hname, if_neg hname, h.stored store₀ hstore₀]

/-- The store keeps payloads, and each is the one of the template with its name. -/
theorem Valid.mem_store (h : Valid builtins s) {store : TemplateTable}
    (hstore : s.manager.store = some store) {row : SkillTemplateConfig} (hrow : row ∈ store) :
    row ∈ s.published ∧ row.stored = row := by
  refine ⟨h.listed row (mem_configurations.mpr (Or.inr ⟨store, hstore, hrow⟩)), ?_⟩
  have hfind := Table.find?_eq_some.mpr ⟨hrow, rfl⟩
  rw [h.stored store hstore, Option.map_eq_some_iff] at hfind
  obtain ⟨config, -, rfl⟩ := hfind
  exact SkillTemplateConfig.stored_stored

/-- **A restart.** The templates are the rows of the store: they all have a revision. -/
theorem Valid.started (h : Valid builtins s) {draw : String → String} {templateFactory : Bool}
    {m : SkillManager}
    (hstart : SkillManager.start p draw templateFactory builtins s.manager.store = some m) :
    m.Started draw builtins s.manager.store ∧ (∀ name, m.templates.find? name =
      s.manager.store.bind fun store => store.find? name) ∧
      ∀ config ∈ m.configurations, config ∈ s.published := by
  have hstarted := start_started hstart fun t ht row hrow => (h.mem_store ht hrow).2
  have htemplates : ∀ name, m.templates.find? name =
      s.manager.store.bind fun store => store.find? name := by
    intro name
    rw [hstarted.templates]
    cases hstore : s.manager.store with
    | none => rfl
    | some store =>
      rw [Option.bind_some, Option.bind_some]
      cases hrow : store.find? name with
      | none => rfl
      | some row =>
        have hrevised := h.revised row (h.mem_store hstore (Table.find?_eq_some.mp hrow).1).1
        rw [Option.map_some, SkillTemplateConfig.restored_of_isSome hrevised]
  refine ⟨hstarted, htemplates, fun config hmem => ?_⟩
  have hrow : ∃ name, m.templates.find? name = some config := by
    rcases mem_configurations.mp hmem with hmem | ⟨store', hstore', hmem⟩
    · exact ⟨_, Table.find?_eq_some.mpr ⟨hmem, rfl⟩⟩
    · exact ⟨_, (hstarted.store store' hstore' _).symm.trans (Table.find?_eq_some.mpr ⟨hmem, rfl⟩)⟩
  obtain ⟨name, hname⟩ := hrow
  rw [htemplates, Option.bind_eq_some_iff] at hname
  obtain ⟨store, hstore, hname⟩ := hname
  exact (h.mem_store hstore (Table.find?_eq_some.mp hname).1).1

theorem Valid.restart (h : Valid builtins s) {draw : String → String} {templateFactory : Bool}
    {m : SkillManager}
    (hstart : SkillManager.start p draw templateFactory builtins s.manager.store = some m) :
    Valid builtins (s.withManager m) := by
  obtain ⟨hstarted, htemplates, hlisted⟩ := h.started hstart
  have hold : ∀ config ∈ (s.withManager m).published, config ∈ s.published := by
    intro config hmem
    rcases List.mem_append.mp hmem with hmem | hmem
    · exact hmem
    · exact hlisted config hmem
  refine ⟨hstarted.register, fun store' hstore' name => ?_, fun config hmem =>
    List.mem_append_right _ hmem, fun config hmem => h.apart config (hold config hmem),
    fun config hmem => h.revised config (hold config hmem)⟩
  rw [hstarted.store store' hstore']
  change m.templates.find? name = (m.templates.find? name).map (·.stored)
  cases hname : m.templates.find? name with
  | none => rfl
  | some config =>
    rw [htemplates, Option.bind_eq_some_iff] at hname
    obtain ⟨store, hstore, hrow⟩ := hname
    rw [Option.map_some, (h.mem_store hstore (Table.find?_eq_some.mp hrow).1).2]

/-! ### Revisions that do not come back -/

/-- **What is current was current.** After an operation or a restart, a revision that was known
before is registered only where it was registered before. -/
def Installs (builtins : Table SkillRegistration.name) (s s' : SkillSystem) : Prop :=
  ∀ registration, Known builtins s registration →
    s'.current registration.name = some registration.definition.revision →
    s.current registration.name = some registration.definition.revision

theorem Valid.installs_withTemplate (h : Valid builtins s) {config : SkillTemplateConfig}
    (hwritten : Written builtins s config) :
    Installs builtins s (s.withManager (s.manager.withTemplate config)) := by
  intro registration hknown hcurrent
  rw [current, withManager, SkillManager.find?_register_withTemplate] at hcurrent
  by_cases hname : registration.name = config.name
  · rw [if_pos hname, Option.map_some] at hcurrent
    have hrevision : config.revision = registration.definition.revision :=
      Option.some.inj hcurrent
    cases hwritten with
    | fresh hbuiltin hfresh _ =>
      rcases hknown with hknown | ⟨config', hmem, rfl⟩
      · rw [hname, hbuiltin] at hknown
        exact absurd hknown (by simp)
      · exact absurd (List.mem_map.mpr ⟨config', hmem, hrevision.symm⟩) hfresh
    | @same current' hcurrent' hrevision' _ =>
      rw [hname, current, h.register, hcurrent', ← hrevision, hrevision']
      rfl
  · rwa [if_neg hname] at hcurrent

theorem Valid.installs_withoutTemplate {skillName : String} :
    Installs builtins s (s.withManager (s.manager.withoutTemplate skillName)) := by
  intro registration _ hcurrent
  rw [current, withManager, SkillManager.find?_register_withoutTemplate] at hcurrent
  split at hcurrent
  · exact absurd hcurrent (by simp)
  · exact hcurrent

theorem Valid.installs_restart (h : Valid builtins s) {draw : String → String}
    {templateFactory : Bool} {m : SkillManager}
    (hstart : SkillManager.start p draw templateFactory builtins s.manager.store = some m) :
    Installs builtins s (s.withManager m) := by
  obtain ⟨hstarted, htemplates, -⟩ := h.started hstart
  intro registration _ hcurrent
  rw [current, withManager, hstarted.register, htemplates] at hcurrent
  rw [current, h.register]
  cases hconfig : s.manager.templates.find? registration.name with
  | none =>
    cases hstore : s.manager.store with
    | none =>
      rw [hstore] at hcurrent
      exact hcurrent
    | some store =>
      rw [hstore, Option.bind_some, h.stored store hstore, hconfig] at hcurrent
      exact hcurrent
  | some config =>
    obtain ⟨hmem, hname⟩ := h.published hconfig
    cases hstore : s.manager.store with
    | none =>
      -- Without a store the template is gone, and no skill of the code has its name.
      rw [hstore, Option.bind_none, Option.map_none, Option.none_or, ← hname,
        h.apart config hmem] at hcurrent
      exact absurd hcurrent (by simp)
    | some store =>
      rw [hstore, Option.bind_some, h.stored store hstore, hconfig] at hcurrent
      exact hcurrent

/-! ### What a name and a revision determine -/

/-- Configurations with one name and revision are related by `R`. -/
def Ledger (R : SkillTemplateConfig → SkillTemplateConfig → Prop) (s : SkillSystem) : Prop :=
  ∀ config ∈ s.published, ∀ config' ∈ s.published, config.name = config'.name →
    config.revision = config'.revision → R config config'

theorem Ledger.of_subset {R : SkillTemplateConfig → SkillTemplateConfig → Prop} (h : Ledger R s)
    (hsub : ∀ config ∈ s'.published, config ∈ s.published) : Ledger R s' :=
  fun config hmem config' hmem' => h config (hsub config hmem) config' (hsub config' hmem')

/-- **Writing a template.** A relation that allows an edit without a change, and the loss of what a
payload does not hold, is kept. -/
theorem Valid.ledger_withTemplate (hvalid : Valid builtins s)
    {R : SkillTemplateConfig → SkillTemplateConfig → Prop} (hR : Equivalence R)
    (hbeq : ∀ config config', config == config' → R config config') {config : SkillTemplateConfig}
    (hstored : s.manager.store.isSome → R config.stored config) (h : Ledger R s)
    (hwritten : Written builtins s config) :
    Ledger R (s.withManager (s.manager.withTemplate config)) := by
  have hold : ∀ config' ∈ s.published, config'.name = config.name →
      config'.revision = config.revision → R config' config := by
    intro config' hmem hname hrevision
    cases hwritten with
    | fresh _ hfresh _ => exact absurd (List.mem_map.mpr ⟨config', hmem, hrevision⟩) hfresh
    | same hcurrent hrevision' hsame =>
      obtain ⟨hmem', hname'⟩ := hvalid.published hcurrent
      exact hR.trans (h config' hmem _ hmem' (hname.trans hname'.symm)
        (hrevision.trans hrevision')) (hR.symm (hbeq _ _ hsame))
  have hall : ∀ config' ∈ (s.withManager (s.manager.withTemplate config)).published,
      config' ∈ s.published ∨
        (config'.name = config.name ∧ config'.revision = config.revision ∧ R config' config) := by
    intro config' hmem
    rcases List.mem_append.mp hmem with hmem | hmem
    · exact Or.inl hmem
    · rcases mem_configurations_withTemplate hmem with rfl | ⟨rfl, hstore⟩ | hmem
      · exact Or.inr ⟨rfl, rfl, hR.refl _⟩
      · exact Or.inr ⟨rfl, rfl, hstored hstore⟩
      · exact Or.inl (hvalid.listed config' hmem)
  intro config₁ hmem₁ config₂ hmem₂ hname hrevision
  rcases hall config₁ hmem₁ with h₁ | ⟨hname₁, hrevision₁, hR₁⟩
  · rcases hall config₂ hmem₂ with h₂ | ⟨hname₂, hrevision₂, hR₂⟩
    · exact h config₁ h₁ config₂ h₂ hname hrevision
    · exact hR.trans (hold config₁ h₁ (hname.trans hname₂) (hrevision.trans hrevision₂))
        (hR.symm hR₂)
  · rcases hall config₂ hmem₂ with h₂ | ⟨hname₂, hrevision₂, hR₂⟩
    · exact hR.trans hR₁ (hR.symm (hold config₂ h₂ (hname.symm.trans hname₁)
        (hrevision.symm.trans hrevision₁)))
    · exact hR.trans hR₁ (hR.symm hR₂)

end SkillSystem

end EvernightAI
