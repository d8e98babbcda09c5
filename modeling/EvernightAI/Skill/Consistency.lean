import EvernightAI.Skill.TrackedRun

/-!
# Consistent skills

The revisions stand for the contents of the skills: a run that finds them unchanged hands over
messages rendered from what was registered when it recorded them, and a configuration is determined
by its name and revision.

* `renderedFrom_of_run` : the requests of every run.
* `skillConsistent_of_finite` : the main result. Only a template with an infinity or a NaN, which
  its JSON payload cannot hold, comes back different from the store.
* `not_skillConsistent` : such a template.
-/

namespace EvernightAI

open StatefulProgram TransitionSystem

variable {p : SkillPlatform} {builtins : Table SkillRegistration.name}

/-! ### The property -/

/-- The register, the manager and the store hold the same templates, beside the skills that code
registers. -/
structure SkillManager.Agree (builtins : Table SkillRegistration.name) (m : SkillManager) : Prop where
  register : ∀ name, m.register.find? name =
    ((m.templates.find? name).map (·.registration)).or (builtins.find? name)
  store : ∀ store, m.store = some store → ∀ name, store.find? name = m.templates.find? name

/-- **Skill consistency.** -/
structure SkillConsistent (p : SkillPlatform) (builtins : Table SkillRegistration.name)
    (s : SkillSystem) : Prop where
  rendered : ∀ messages ∈ s.run.handed, RenderedFrom p s.run.recorded s.run.skills messages
  unambiguous : ∀ config ∈ s.published, ∀ config' ∈ s.published, config.name = config'.name →
    config.revision = config'.revision → config == config'
  unchanged : ∀ (op : TemplateOperation) (uuid : String) (fault : Option SkillError) {err m},
    op.perform p uuid fault s.manager = .error err m → m = s.manager
  agree : s.manager.Agree builtins

namespace SkillSystem

variable {s s' : SkillSystem}

/-! ### The first start -/

theorem stored_of_mem_savedStore {saved : List SkillTemplateConfig} {config : SkillTemplateConfig}
    (h : config ∈ savedStore saved) : config.stored = config := by
  have hfold : ∀ (saved : List SkillTemplateConfig) (store : TemplateTable),
      (∀ row ∈ store, row.stored = row) →
      ∀ row ∈ saved.foldl (fun store config => store.upsert config.stored) store,
        row.stored = row := by
    intro saved
    induction saved with
    | nil => exact fun store hstore => hstore
    | cons config saved ih =>
      refine fun store hstore => ih (store.upsert config.stored) fun row hrow => ?_
      rcases Table.mem_upsert.mp hrow with rfl | ⟨hrow, -⟩
      · exact SkillTemplateConfig.stored_stored
      · exact hstore row hrow
  exact hfold saved ∅ (fun row hrow => absurd hrow (Table.not_mem_empty row)) config h

/-- A template that its payload holds has finite values. -/
theorem finite_of_stored {config : SkillTemplateConfig} (h : config.stored = config) :
    config.finite := by
  have hfinite : config.stored.finite := SkillTemplateConfig.finite_stored
  rwa [h] at hfinite

/-- What a runtime holds after its first start. -/
theorem start_configurations {draw : String → String} {saved : Option (List SkillTemplateConfig)}
    {m : SkillManager}
    (hstarted : m.Started draw builtins (saved.map savedStore)) {config : SkillTemplateConfig}
    (hmem : config ∈ m.configurations) :
    m.templates.find? config.name = some config ∧ config.stored = config ∧
      config.revision.isSome := by
  have hfind : m.templates.find? config.name = some config := by
    rcases mem_configurations.mp hmem with hmem | ⟨store, hstore, hmem⟩
    · exact Table.find?_eq_some.mpr ⟨hmem, rfl⟩
    · rw [← hstarted.store store hstore]
      exact Table.find?_eq_some.mpr ⟨hmem, rfl⟩
  refine ⟨hfind, ?_⟩
  rw [hstarted.templates, Option.bind_eq_some_iff] at hfind
  obtain ⟨store, hstore, hrow⟩ := hfind
  obtain ⟨saved', -, rfl⟩ := Option.map_eq_some_iff.mp hstore
  obtain ⟨row, hrow, rfl⟩ := Option.map_eq_some_iff.mp hrow
  have hstored := stored_of_mem_savedStore (Table.find?_eq_some.mp hrow).1
  exact ⟨SkillTemplateConfig.stored_restored hstored, row.restored_revision⟩

theorem started_of_start {draw : String → String} {saved : Option (List SkillTemplateConfig)}
    {skills : List ChatSkill} (h : start p draw builtins saved skills = some s) :
    s.manager.Started draw builtins (saved.map savedStore) ∧ s.run = { skills } ∧
      s.published = s.manager.configurations := by
  obtain ⟨m, hstart, rfl⟩ := Option.map_eq_some_iff.mp h
  refine ⟨start_started hstart fun store hstore row hrow => ?_, rfl, rfl⟩
  obtain ⟨saved', -, rfl⟩ := Option.map_eq_some_iff.mp hstore
  exact stored_of_mem_savedStore hrow

theorem sound_of_start {draw : String → String} {saved : Option (List SkillTemplateConfig)}
    {skills : List ChatSkill} (h : start p draw builtins saved skills = some s) :
    Sound p builtins s := by
  obtain ⟨hstarted, hrun, hpublished⟩ := started_of_start h
  refine ⟨⟨hstarted.register, fun store hstore name => ?_, fun config hmem => hpublished ▸ hmem,
    fun config hmem => ?_, fun config hmem => ?_⟩, fun config hmem config' hmem' hname _ => ?_, ?_⟩
  · rw [hstarted.store store hstore]
    cases hname : s.manager.templates.find? name with
    | none => rfl
    | some config =>
      have hmem := mem_configurations.mpr (Or.inl (Table.find?_eq_some.mp hname).1)
      rw [Option.map_some, (start_configurations hstarted hmem).2.1]
  · rw [hpublished] at hmem
    refine hstarted.disjoint config.name ?_
    rw [(start_configurations hstarted hmem).1]
    simp
  · rw [hpublished] at hmem
    exact (start_configurations hstarted hmem).2.2
  · rw [hpublished] at hmem hmem'
    have hsame := (start_configurations hstarted hmem).1
    rw [hname, (start_configurations hstarted hmem').1] at hsame
    rw [Option.some.inj hsame]
  · refine ⟨fun revisions hsome => ?_, fun skill hskill => ?_, fun skill hskill => ?_,
      fun tools registration done todo hphase => ?_, fun messages hmessages => ?_, fun _ => ?_⟩
    · rw [hrun] at hsome
      exact absurd hsome (by simp)
    · rw [hrun] at hskill
      exact absurd hskill List.not_mem_nil
    · rw [hrun] at hskill
      exact absurd hskill List.not_mem_nil
    · rw [hrun] at hphase
      exact absurd hphase (by simp)
    · rw [hrun] at hmessages
      exact absurd hmessages List.not_mem_nil
    · rw [hrun]

/-! ### Finite templates -/

/-- A step that gives a database no infinity and no NaN to keep. -/
def FiniteStep (s : SkillSystem) : SkillLabel → Prop
  | .operate op _ _ => s.manager.store.isNone ∨ op.finite
  | _ => True

/-- What the runs keep whose templates are finite. -/
structure Exact (s : SkillSystem) : Prop where
  ledger : Ledger (fun config config' => config == config') s
  finite : s.manager.store.isSome → ∀ config ∈ s.manager.templates, config.finite

theorem beq_equivalence : Equivalence fun config config' : SkillTemplateConfig =>
    (config == config') = true where
  refl _ := SkillTemplateConfig.beq_iff.mpr rfl
  symm h := SkillTemplateConfig.beq_iff.mpr (SkillTemplateConfig.beq_iff.mp h).symm
  trans h h' := SkillTemplateConfig.beq_iff.mpr
    ((SkillTemplateConfig.beq_iff.mp h).trans (SkillTemplateConfig.beq_iff.mp h'))

theorem exact_of_start {draw : String → String} {saved : Option (List SkillTemplateConfig)}
    {skills : List ChatSkill} (h : start p draw builtins saved skills = some s) : Exact s := by
  obtain ⟨hstarted, -, hpublished⟩ := started_of_start h
  constructor
  · intro config hmem config' hmem' hname _
    rw [hpublished] at hmem hmem'
    have hsame := (start_configurations hstarted hmem).1
    rw [hname, (start_configurations hstarted hmem').1] at hsame
    rw [Option.some.inj hsame]
    exact beq_equivalence.refl config
  · intro _ config hmem
    exact finite_of_stored
      (start_configurations hstarted (mem_configurations.mpr (Or.inl hmem))).2.1

/-- **One finite step.** -/
theorem Exact.step (h : Exact s) (hsound : Sound p builtins s) {label : SkillLabel}
    (hfinite : FiniteStep s label) (hstep : SkillSystem.step p builtins s label = some s') :
    Exact s' := by
  have hrun : (SkillSystem.runStep p s.manager s.run label).map (fun run => { s with run }) =
      some s' → Exact s' := by
    intro hstep
    obtain ⟨run, -, rfl⟩ := Option.map_eq_some_iff.mp hstep
    exact ⟨h.ledger, h.finite⟩
  cases label with
  | operate op uuid fault =>
    simp only [SkillSystem.step] at hstep
    split_ifs at hstep with hfresh
    obtain rfl := Option.some.inj hstep
    rcases op.perform_cases p uuid fault s.manager with
      ⟨err, hperform⟩ | ⟨definition, m, hperform, hwrites⟩
    · rw [after_of_error hperform]
      refine ⟨h.ledger.of_subset fun config hmem => ?_, h.finite⟩
      rcases List.mem_append.mp hmem with hmem | hmem
      · exact hmem
      · exact hsound.valid.listed config hmem
    · rw [after_of_ok hperform]
      rcases hsound.valid.of_writes hfresh hwrites with
        ⟨config, hwritten, rfl, hconfig⟩ | ⟨name, hname, rfl⟩
      · have hfinite' : s.manager.store.isSome → config.finite := by
          intro hstore
          refine hconfig (hfinite.resolve_left fun hnone => ?_) (h.finite hstore)
          rw [Option.isNone_iff_eq_none] at hnone
          rw [hnone] at hstore
          exact absurd hstore (by simp)
        constructor
        · refine hsound.valid.ledger_withTemplate beq_equivalence (fun _ _ hsame => hsame)
            (fun hstore => ?_) h.ledger hwritten
          rw [SkillTemplateConfig.stored_of_finite (hfinite' hstore)]
          exact beq_equivalence.refl config
        · intro hstore config' hmem
          have hstore' : s.manager.store.isSome := by
            simpa [withManager, SkillManager.withTemplate] using hstore
          rcases Table.mem_upsert.mp hmem with rfl | ⟨hmem, -⟩
          · exact hfinite' hstore'
          · exact h.finite hstore' config' hmem
      · constructor
        · refine h.ledger.of_subset fun config hmem => ?_
          rcases List.mem_append.mp hmem with hmem | hmem
          · exact hmem
          · exact hsound.valid.listed config (mem_configurations_withoutTemplate hmem)
        · intro hstore config hmem
          refine h.finite ?_ config (Table.mem_deleteWhere.mp hmem).1
          simpa [withManager, SkillManager.withoutTemplate] using hstore
  | restart draw saved =>
    simp only [SkillSystem.step] at hstep
    obtain ⟨m, hstart, rfl⟩ := Option.map_eq_some_iff.mp hstep
    obtain ⟨-, htemplates, hlisted⟩ := hsound.valid.started hstart
    constructor
    · refine h.ledger.of_subset fun config hmem => ?_
      rcases List.mem_append.mp hmem with hmem | hmem
      · exact hmem
      · exact hlisted config hmem
    · intro _ config hmem
      have hfind : m.templates.find? config.name = some config :=
        Table.find?_eq_some.mpr ⟨hmem, rfl⟩
      rw [htemplates, Option.bind_eq_some_iff] at hfind
      obtain ⟨store, hstore, hrow⟩ := hfind
      exact finite_of_stored (hsound.valid.mem_store hstore (Table.find?_eq_some.mp hrow).1).2
  | record => exact hrun hstep
  | check => exact hrun hstep
  | chat tools => exact hrun hstep
  | compose fault imageFault => exact hrun hstep
  | rendered answer imageFault => exact hrun hstep
  | respond finished => exact hrun hstep
  | fail err => exact hrun hstep
  | pause => exact hrun hstep
  | resume => exact hrun hstep

/-- The three places agree when the store loses nothing. -/
theorem Sound.agree (h : Sound p builtins s) (hexact : Exact s) : s.manager.Agree builtins := by
  refine ⟨h.valid.register, fun store hstore name => ?_⟩
  rw [h.valid.stored store hstore]
  cases hname : s.manager.templates.find? name with
  | none => rfl
  | some config =>
    have hfinite := hexact.finite (by rw [hstore]; rfl) config (Table.find?_eq_some.mp hname).1
    rw [Option.map_some, SkillTemplateConfig.stored_of_finite hfinite]

/-- **Requests of every run.** The skill messages handed to the provider are rendered from what was
registered when the revisions were recorded, whatever happens to the templates. -/
theorem renderedFrom_of_run {draw : String → String} {saved : Option (List SkillTemplateConfig)}
    {skills : List ChatSkill} {labels : List SkillLabel}
    (hstart : start p draw builtins saved skills = some s)
    (hrun : TransitionSystem.run (SkillSystem.step p builtins) s labels = some s') :
    ∀ messages ∈ s'.run.handed, RenderedFrom p s'.run.recorded s'.run.skills messages :=
  (run_invariant (I := Sound p builtins) (fun _ _ _ h hstep => h.step hstep)
    (sound_of_start hstart) hrun).tracked.rendered

end SkillSystem

/-! ### The result -/

/-- **Skill consistency.** In every run of a runtime, from its first start and through restarts, in
which no operation gives its database an infinity or a NaN to keep. -/
theorem skillConsistent_of_finite {draw : String → String}
    {saved : Option (List SkillTemplateConfig)} {skills : List ChatSkill}
    {labels : List SkillLabel} {s s' : SkillSystem}
    (hstart : SkillSystem.start p draw builtins saved skills = some s)
    (hrun : run (SkillSystem.step p builtins) s labels = some s')
    (hfinite : Along (SkillSystem.step p builtins) SkillSystem.FiniteStep s labels) :
    SkillConsistent p builtins s' := by
  obtain ⟨hsound, hexact⟩ := run_invariant_of_along
    (I := fun s => SkillSystem.Sound p builtins s ∧ SkillSystem.Exact s)
    (fun _ _ _ h hgood hstep => ⟨h.1.step hstep, h.2.step h.1 hgood hstep⟩)
    ⟨SkillSystem.sound_of_start hstart, SkillSystem.exact_of_start hstart⟩ hrun hfinite
  refine ⟨hsound.tracked.rendered, hexact.ledger, fun op uuid fault err m hraise => ?_,
    hsound.agree hexact⟩
  rcases op.perform_cases p uuid fault s'.manager with
    ⟨err', hperform⟩ | ⟨definition, m', hperform, -⟩
  · rw [hraise] at hperform
    exact (EStateM.Result.error.inj hperform).2
  · rw [hraise] at hperform
    exact absurd hperform (by simp)

/-! ### A template with an infinity -/

/-- A process whose JSON Schema library accepts every schema and every input. -/
private def lenientPlatform : SkillPlatform where
  unicode := { isSpace := fun c => c = ' ', isWord := Char.isAlphanum, casefold := id }
  reprFloat := fun value => toString value.num
  checkSchema := fun _ => .valid
  iterErrors := fun _ _ => .valid

private def weighted (weight : PyJson) : SkillTemplateConfig where
  name := "style"
  description := "Style"
  prompt := "Be calm"
  capabilities := [.agent]
  metadata := [("weight", weight)]

private def freshRuntime : SkillSystem where
  manager := { register := ∅, templates := ∅, store := some ∅ }
  run := { skills := [{ skillName := "style" }] }
  published := []

private theorem start_freshRuntime : SkillSystem.start lenientPlatform id ∅ (some [])
    [{ skillName := "style" }] = some freshRuntime := rfl

private def createSpiky : List SkillLabel :=
  [.operate (.create (weighted (.infinity false))) "r1" none]

private def restartedRun : List SkillLabel :=
  [.operate (.create (weighted (.int 1))) "r1" none, .record, .chat [], .restart id true,
    .operate (.update "style" { metadata := some [("weight", .bool true)] }) "r2" none, .resume]

private theorem restartedRun_enabled :
    (run (SkillSystem.step lenientPlatform ∅) freshRuntime restartedRun).isSome := rfl

/-- A run goes on under an update that gives the weight `True` for `1`. -/
theorem skillConsistent_of_finite_restarted :
    SkillConsistent lenientPlatform ∅ (reached _ freshRuntime restartedRun restartedRun_enabled) :=
  skillConsistent_of_finite start_freshRuntime (run_reached restartedRun_enabled)
    ⟨Or.inr rfl, trivial, trivial, trivial, Or.inr rfl, trivial, trivial⟩

/-- The store of a runtime in which a template with an infinite weight was created holds `null`. -/
theorem not_skillConsistent :
    ∃ s', run (SkillSystem.step lenientPlatform ∅) freshRuntime createSpiky = some s' ∧
      ¬SkillConsistent lenientPlatform ∅ s' := by
  refine ⟨_, rfl, fun h => ?_⟩
  have hstore := h.agree.store _ rfl "style"
  have hweight := congrArg (Option.map fun config => config.metadata) hstore
  have hnull : [("weight", PyJson.null)] = [("weight", PyJson.infinity false)] :=
    Option.some.inj hweight
  exact absurd hnull (by simp)

end EvernightAI
