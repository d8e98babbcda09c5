import EvernightAI.Skill.Manager

/-!
# Starting a runtime on its store

A runtime starts with the skills that code registers and restores the stored templates. A row
that an earlier release wrote without a revision is given one first.

* `start_templates` : a started runtime holds the stored templates, each under its revision.
* `start_agree` : its register and its store agree with them.
-/

namespace EvernightAI

open StatefulProgram

variable {p : SkillPlatform} {draw : String → String}

/-! ### What a manager holds under a name -/

namespace SkillManager

variable {m : SkillManager} {config : SkillTemplateConfig} {skillName name : String}

theorem find?_templates_withTemplate : (m.withTemplate config).templates.find? name =
    if name = config.name then some config else m.templates.find? name := by
  by_cases hname : name = config.name
  · rw [if_pos hname, hname]
    exact Table.find?_upsert_self m.templates config
  · rw [if_neg hname]
    exact Table.find?_upsert_of_ne m.templates hname

theorem find?_register_withTemplate : (m.withTemplate config).register.find? name =
    if name = config.name then some config.registration else m.register.find? name := by
  by_cases hname : name = config.name
  · rw [if_pos hname, hname]
    exact Table.find?_upsert_self m.register config.registration
  · rw [if_neg hname]
    exact Table.find?_upsert_of_ne m.register hname

theorem find?_store_withTemplate {store : TemplateTable} :
    (store.upsert config.stored).find? name =
      if name = config.name then some config.stored else store.find? name := by
  by_cases hname : name = config.name
  · rw [if_pos hname, hname]
    exact Table.find?_upsert_self store config.stored
  · rw [if_neg hname]
    exact Table.find?_upsert_of_ne store hname

theorem find?_templates_withoutTemplate : (m.withoutTemplate skillName).templates.find? name =
    if name = skillName then none else m.templates.find? name :=
  Table.find?_deleteWhere_key m.templates skillName name

theorem find?_register_withoutTemplate : (m.withoutTemplate skillName).register.find? name =
    if name = skillName then none else m.register.find? name :=
  Table.find?_deleteWhere_key m.register skillName name

end SkillManager

/-! ### The loop of `restore` -/

@[simp] theorem SkillTemplateConfig.restored_name (config : SkillTemplateConfig) :
    (config.restored draw).name = config.name := by
  rw [restored]
  split <;> rfl

theorem SkillTemplateConfig.restored_revision (config : SkillTemplateConfig) :
    (config.restored draw).revision.isSome := by
  rw [restored]
  split
  · rfl
  · next h => simpa [Option.isNone_iff_eq_none, Option.isSome_iff_ne_none] using h

theorem SkillTemplateConfig.restored_of_isSome {config : SkillTemplateConfig}
    (h : config.revision.isSome) : config.restored draw = config := by
  rw [restored, if_neg (by rw [Option.isNone_iff_eq_none]; intro hnone; simp [hnone] at h)]

theorem SkillTemplateConfig.stored_restored {config : SkillTemplateConfig}
    (h : config.stored = config) : (config.restored draw).stored = config.restored draw := by
  rw [restored]
  split
  · have hfields : { config with revision := some (draw config.name) }.stored =
        { config.stored with revision := some (draw config.name) } := rfl
    rw [hfields, h]
  · exact h

/-- **One turn.** A row of the store that is restored is written to the three places. -/
theorem restoreTemplate_ok {config : SkillTemplateConfig} {m m' : SkillManager}
    {store : TemplateTable} (h : restoreTemplate p draw config m = .ok () m')
    (hstore : m.store = some store) (hrow : config ∈ store) (hstored : config.stored = config) :
    (m.register.find? config.name = none ∨ m.templates.find? config.name ≠ none) ∧
      m' = m.withTemplate (config.restored draw) := by
  by_cases hconflict : (m.register.find? config.name).isSome ∧ m.templates.find? config.name = none
  · simp only [restoreTemplate, bind, EStateM.bind, get_apply,
      if_pos hconflict, throw_apply] at h
    exact absurd h (by simp)
  · refine ⟨?_, ?_⟩
    · rw [not_and_or, Option.not_isSome_iff_eq_none] at hconflict
      exact hconflict
    · rcases hbuild : m.buildTemplate p (config.restored draw) with err | skill
      · have hraise : restoreTemplate p draw config m = .error err m := by
          simp only [restoreTemplate, bind, EStateM.bind, get_apply, if_neg hconflict, orThrow,
            hbuild]
        rw [hraise] at h
        exact absurd h (by simp)
      · obtain ⟨rfl, schema, hschema⟩ := SkillManager.buildTemplate_ok hbuild
        have hregister : ∀ m', registerSkill p (config.restored draw).registration m' =
            .ok () { m' with register := m'.register.upsert (config.restored draw).registration } := by
          intro m'
          simp only [registerSkill, orThrow, SkillTemplateConfig.registration, hschema, bind,
            EStateM.bind, modify_apply]
        by_cases hneeds : config.revision.isNone
        · have hsave : saveTemplate none (config.restored draw) m =
              .ok () { m with store := some (store.upsert (config.restored draw).stored) } := by
            simp only [saveTemplate, hstore]
          simp only [restoreTemplate, bind, EStateM.bind, get_apply, if_neg hconflict, orThrow,
            hbuild, if_pos hneeds, hsave, hregister, modify_apply, EStateM.Result.ok.injEq,
            true_and] at h
          rw [← h, SkillManager.withTemplate, hstore, Option.map_some]
        · have hsame : config.restored draw = config := if_neg hneeds
          simp only [restoreTemplate, bind, EStateM.bind, get_apply, if_neg hconflict, orThrow,
            hbuild, if_neg hneeds, hregister, modify_apply, EStateM.Result.ok.injEq, true_and] at h
          -- The row is written as it stands.
          have hkept : store.upsert config.stored = store := by
            rw [hstored]
            exact Table.upsert_eq_self_iff.mpr hrow
          rw [← h, SkillManager.withTemplate, hstore, Option.map_some, hsame, hkept, ← hstore]

/-- What a restored name holds. -/
structure SkillManager.Holds (m : SkillManager) (config : SkillTemplateConfig) : Prop where
  templates : m.templates.find? config.name = some config
  register : m.register.find? config.name = some config.registration
  store : m.store.bind (fun store => store.find? config.name) = some config

/-- **The whole loop.** Every row has its name to itself, and is restored; nothing else changes. -/
theorem forM_restoreTemplate {rows : List SkillTemplateConfig} {m m' : SkillManager}
    {store : TemplateTable} (h : (forM rows (restoreTemplate p draw) : SkillM Unit) m = .ok () m')
    (hstore : m.store = some store) (hrows : ∀ row ∈ rows, row ∈ store ∧ row.stored = row)
    (hnodup : (rows.map (·.name)).Nodup) (hnew : ∀ row ∈ rows, m.templates.find? row.name = none) :
    (∀ row ∈ rows, m.register.find? row.name = none ∧ m'.Holds (row.restored draw)) ∧
      (∃ store', m'.store = some store' ∧
        ∀ name, (∀ row ∈ rows, row.name ≠ name) → store'.find? name = store.find? name) ∧
      ∀ name, (∀ row ∈ rows, row.name ≠ name) →
        m'.templates.find? name = m.templates.find? name ∧
          m'.register.find? name = m.register.find? name := by
  induction rows generalizing m store with
  | nil =>
    obtain rfl : m = m' := by
      simpa only [List.forM_nil, pure, EStateM.pure, EStateM.Result.ok.injEq, true_and] using h
    refine ⟨fun row hrow => absurd hrow List.not_mem_nil, ⟨store, hstore, fun _ _ => rfl⟩,
      fun _ _ => ⟨rfl, rfl⟩⟩
  | cons row rows ih =>
    have hrow := hrows row (List.mem_cons_self ..)
    rw [List.map_cons, List.nodup_cons] at hnodup
    have hdistinct : ∀ row' ∈ rows, row'.name ≠ row.name := fun row' hrow' hname =>
      hnodup.1 (List.mem_map.mpr ⟨row', hrow', hname⟩)
    rw [List.forM_cons] at h
    rcases hturn : restoreTemplate p draw row m with ⟨u, m₁⟩ | ⟨err, m₁⟩
    · rw [bind_of_ok hturn] at h
      obtain ⟨hfree, rfl⟩ := restoreTemplate_ok hturn hstore hrow.1 hrow.2
      have hstore₁ : (m.withTemplate (row.restored draw)).store =
          some (store.upsert (row.restored draw).stored) := by
        rw [SkillManager.withTemplate, hstore, Option.map_some]
      have hkept : ∀ row' ∈ rows, row' ∈ store.upsert (row.restored draw).stored := fun row' hrow' =>
        Table.mem_upsert.mpr (Or.inr ⟨(hrows row' (List.mem_cons_of_mem _ hrow')).1,
          fun hkey => hdistinct row' hrow' (hkey.trans row.restored_name)⟩)
      obtain ⟨hinside, ⟨store', hstore', hother⟩, houtside⟩ := ih h hstore₁
        (fun row' hrow' => ⟨hkept row' hrow', (hrows row' (List.mem_cons_of_mem _ hrow')).2⟩)
        hnodup.2 (fun row' hrow' => by
          rw [SkillManager.find?_templates_withTemplate, row.restored_name,
            if_neg (hdistinct row' hrow')]
          exact hnew row' (List.mem_cons_of_mem _ hrow'))
      have hothers : ∀ {name}, (∀ row' ∈ row :: rows, row'.name ≠ name) →
          (∀ row' ∈ rows, row'.name ≠ name) ∧ name ≠ (row.restored draw).name := by
        intro name hname
        refine ⟨fun row' hrow' => hname row' (List.mem_cons_of_mem _ hrow'), ?_⟩
        rw [row.restored_name]
        exact (hname row (List.mem_cons_self ..)).symm
      refine ⟨?_, ⟨store', hstore', fun name hname => ?_⟩, fun name hname => ?_⟩
      · intro row' hrow'
        rcases List.mem_cons.mp hrow' with rfl | hrow'
        · have hnew' := hnew row' (List.mem_cons_self ..)
          have hlast := houtside row'.name hdistinct
          refine ⟨hfree.resolve_right fun hne => hne hnew', ?_, ?_, ?_⟩
          · rw [row'.restored_name, hlast.1, SkillManager.find?_templates_withTemplate,
              if_pos row'.restored_name.symm]
          · rw [row'.restored_name, hlast.2, SkillManager.find?_register_withTemplate,
              if_pos row'.restored_name.symm]
          · rw [row'.restored_name, hstore', Option.bind_some, hother row'.name hdistinct,
              SkillManager.find?_store_withTemplate, if_pos row'.restored_name.symm,
              SkillTemplateConfig.stored_restored hrow.2]
        · obtain ⟨hregister, hholds⟩ := hinside row' hrow'
          rw [SkillManager.find?_register_withTemplate, row.restored_name,
            if_neg (hdistinct row' hrow')] at hregister
          exact ⟨hregister, hholds⟩
      · rw [hother name (hothers hname).1, SkillManager.find?_store_withTemplate,
          if_neg (hothers hname).2]
      · obtain ⟨htemplates, hregister⟩ := houtside name (hothers hname).1
        rw [htemplates, hregister, SkillManager.find?_templates_withTemplate,
          SkillManager.find?_register_withTemplate, if_neg (hothers hname).2,
          if_neg (hothers hname).2]
        exact ⟨rfl, rfl⟩
    · rw [bind_of_error hturn] at h
      exact absurd h (by simp)

/-! ### A started runtime -/

variable (p draw) in
/-- **Start a runtime**: the skills that code registers, and `restore`. A runtime whose `restore`
raises is not started. -/
def SkillManager.start (templateFactory : Bool) (builtins : Table SkillRegistration.name)
    (store : Option TemplateTable) : Option SkillManager :=
  match restoreTemplates p draw { register := builtins, templates := ∅, store, templateFactory } with
  | .ok _ m => some m
  | .error _ _ => none

theorem mem_listConfigs {store : TemplateTable} {config : SkillTemplateConfig} :
    config ∈ listConfigs store ↔ config ∈ store :=
  List.mem_insertionSort _

theorem nodup_listConfigs (store : TemplateTable) :
    ((listConfigs store).map (·.name)).Nodup :=
  ((List.perm_insertionSort _ _).map _).nodup_iff.mpr store.nodup

/-- What the start of a runtime leaves, by name. -/
structure SkillManager.Started (draw : String → String) (builtins : Table SkillRegistration.name)
    (store : Option TemplateTable) (m : SkillManager) : Prop where
  templates : ∀ name, m.templates.find? name =
    store.bind fun store => (store.find? name).map (·.restored draw)
  disjoint : ∀ name, m.templates.find? name ≠ none → builtins.find? name = none
  register : ∀ name, m.register.find? name =
    ((m.templates.find? name).map (·.registration)).or (builtins.find? name)
  persisted : m.store.isSome = store.isSome
  store : ∀ store', m.store = some store' → ∀ name, store'.find? name = m.templates.find? name

/-- **Starting.** The store holds payloads only. -/
theorem start_started {templateFactory : Bool} {builtins : Table SkillRegistration.name}
    {store : Option TemplateTable} {m : SkillManager}
    (h : SkillManager.start p draw templateFactory builtins store = some m)
    (hstored : ∀ t, store = some t → ∀ row ∈ t, row.stored = row) :
    m.Started draw builtins store := by
  rw [SkillManager.start] at h
  rcases hrestore : restoreTemplates p draw
      { register := builtins, templates := ∅, store, templateFactory } with ⟨u, m'⟩ | ⟨err, m'⟩
  · rw [hrestore] at h
    obtain rfl := Option.some.inj h
    cases store with
    | none =>
      simp only [restoreTemplates, bind, EStateM.bind, get_apply,
        pure, EStateM.pure, EStateM.Result.ok.injEq, true_and] at hrestore
      subst hrestore
      have hempty : ∀ name, (∅ : TemplateTable).find? name = none := fun _ => rfl
      refine ⟨fun name => hempty name, fun name hne => absurd (hempty name) hne, fun name => ?_, rfl,
        fun store' hstore' => absurd hstore' (by simp)⟩
      rw [hempty]
      rfl
    | some store =>
      simp only [restoreTemplates, bind, EStateM.bind, get_apply] at hrestore
      obtain ⟨hinside, ⟨store', hstore', hother⟩, houtside⟩ := forM_restoreTemplate hrestore rfl
        (fun row hrow => ⟨mem_listConfigs.mp hrow, hstored store rfl row (mem_listConfigs.mp hrow)⟩)
        (nodup_listConfigs store) fun row _ => rfl
      -- Each name belongs to a row, which is restored, or to no row at all.
      have hname : ∀ name, (∃ row, store.find? name = some row ∧ row ∈ listConfigs store ∧
            row.name = name) ∨
          store.find? name = none ∧ ∀ row ∈ listConfigs store, row.name ≠ name := by
        intro name
        cases hrow : store.find? name with
        | none =>
          exact Or.inr ⟨rfl, fun row hmem =>
            Table.find?_eq_none.mp hrow row (mem_listConfigs.mp hmem)⟩
        | some row =>
          have hfound := Table.find?_eq_some.mp hrow
          exact Or.inl ⟨row, rfl, mem_listConfigs.mpr hfound.1, hfound.2⟩
      have htemplates : ∀ name, m'.templates.find? name =
          (store.find? name).map (·.restored draw) := by
        intro name
        rcases hname name with ⟨row, hrow, hmem, rfl⟩ | ⟨hnone, hout⟩
        · have hholds := (hinside row hmem).2.templates
          rw [row.restored_name] at hholds
          rw [hholds, hrow, Option.map_some]
        · rw [(houtside name hout).1, hnone]
          rfl
      refine ⟨htemplates, fun name hne => ?_, fun name => ?_, by rw [hstore']; rfl,
        fun store'' hstore'' name => ?_⟩
      · rcases hname name with ⟨row, -, hmem, rfl⟩ | ⟨hnone, -⟩
        · exact (hinside row hmem).1
        · rw [htemplates, hnone] at hne
          exact absurd rfl hne
      · rcases hname name with ⟨row, hrow, hmem, rfl⟩ | ⟨hnone, hout⟩
        · have hholds := (hinside row hmem).2.register
          rw [row.restored_name] at hholds
          rw [hholds, htemplates, hrow]
          rfl
        · rw [(houtside name hout).2, htemplates, hnone]
          rfl
      · obtain rfl : store' = store'' := Option.some.inj (hstore'.symm.trans hstore'')
        rcases hname name with ⟨row, hrow, hmem, rfl⟩ | ⟨hnone, hout⟩
        · have hholds := (hinside row hmem).2.store
          rw [hstore', Option.bind_some, row.restored_name] at hholds
          rw [hholds, htemplates, hrow, Option.map_some]
        · rw [hother name hout, htemplates, hnone]
          rfl
  · rw [hrestore] at h
    exact absurd h (by simp)

end EvernightAI
