import EvernightAI.Lib.StatefulProgram
import EvernightAI.Lib.Table
import EvernightAI.Skill.Template

/-!
# The skill manager

`SkillManager` keeps each template in three places: the definition and the renderer in the
register, the configuration in a dictionary of its own, and, with a database, its JSON payload in
the store. The operations on templates write the three one after the other and may raise in
between, so they are programs on the whole manager. `restore` rebuilds the first two from the store
when a runtime starts.

* `SkillPlatform` is what the manager asks of its libraries.
* `perform_error` : an operation that raises leaves the manager as it was.
* `perform_ok` : an operation that returns has written one template to the three places, or has
  taken one from them.
-/

namespace EvernightAI

open StatefulProgram

/-! ### The libraries -/

/-- The answer of `validator_for` and `check_schema` to an input schema. -/
inductive SchemaCheck
  | valid
  | unsupportedDraft
  | invalid
  | raises (err : SkillError)

/-- The answer of `iter_errors` to the variables of a request. -/
inductive InputCheck
  | valid
  | unresolvable
  | recursion
  | violates (jsonPath constraint : String) (path schemaPath : List PyJson)

/-- The Unicode data, the float formatter and the JSON Schema library the process runs with. -/
structure SkillPlatform where
  unicode : UnicodeTables
  reprFloat : Rat → String
  checkSchema : PyDict → SchemaCheck
  iterErrors : PyDict → PyDict → InputCheck

variable (p : SkillPlatform)

/-- `_input_validator`: the schema that the variables of a request are checked against. -/
def inputValidator (skill : SkillDefinition) : Except SkillError (Option PyDict) :=
  match skill.inputSchema with
  | none => .ok none
  | some schema =>
    match p.checkSchema schema with
    | .valid => .ok (some schema)
    | .unsupportedDraft => .error {
        errorType := .configuration
        message := "The skill " ++ skill.name ++
          " input schema declares an unsupported JSON Schema draft" }
    | .invalid => .error {
        errorType := .configuration
        message := "The skill " ++ skill.name ++ " input schema is invalid" }
    | .raises err => .error err

/-! ### The manager -/

/-- The key of a template. -/
def SkillTemplateConfig.key (config : SkillTemplateConfig) : String := config.name

/-- The configurations of templates, one for each name. -/
abbrev TemplateTable := Table SkillTemplateConfig.key

structure SkillManager where
  register : Table SkillRegistration.name
  templates : TemplateTable
  /-- What the payloads of the store read back as. -/
  store : Option TemplateTable
  /-- Whether a template factory is configured. -/
  templateFactory : Bool := true

/-- A program of the manager. -/
abbrev SkillM := EStateM SkillError SkillManager

/-- `raise` what a part without effects raised. -/
def orThrow {α : Type} (result : Except SkillError α) : SkillM α := fun m =>
  match result with
  | .ok a => .ok a m
  | .error err => .error err m

namespace SkillManager

variable (m : SkillManager)

/-- `SkillRegister.get` -/
def get (skillName : String) : Except SkillError SkillRegistration :=
  match m.register.find? skillName with
  | some skill => .ok skill
  | none => .error {
      errorType := .notFound
      message := "The skill " ++ skillName ++ " is not found" }

/-- `supports` -/
def supports (skillName : String) (capability : SkillCapability) : Except SkillError Bool := do
  let skill ← m.get skillName
  return skill.definition.isEnabled && skill.definition.capabilities.contains capability

/-- `validate_input` -/
def validateInput (request : SkillRenderRequest) : Except SkillError Unit := do
  if p.unicode.strip request.skillName = "" then
    throw { errorType := .input, message := "The skill render request must include a skill name" }
  if p.unicode.strip request.renderId = "" then
    throw { errorType := .input, message := "The skill render request must include a render ID" }
  let skill ← m.get request.skillName
  let name := skill.definition.name
  if !skill.definition.isEnabled then
    throw { errorType := .disabled, message := "The skill " ++ name ++ " is disabled" }
  match ← inputValidator p skill.definition with
  | none => return
  | some schema =>
    match p.iterErrors schema request.«variables» with
    | .valid => return
    | .unresolvable => throw {
        errorType := .configuration
        message := "The skill " ++ name ++ " input schema contains an unresolved reference" }
    | .recursion => throw {
        errorType := .configuration
        message := "The skill " ++ name ++
          " input schema exceeds the supported validation depth" }
    | .violates jsonPath constraint path schemaPath => throw {
        errorType := .input
        message := "The skill " ++ name ++ " input at " ++ jsonPath ++ " violates " ++ constraint
        detail := some (.constraint (.str "variables" :: path) schemaPath constraint) }

/-- `render`, up to the call of the renderer. -/
def renderer (request : SkillRenderRequest) : Except SkillError SkillRegistration := do
  m.validateInput p request
  m.get request.skillName

/-- `_build_template` -/
def buildTemplate (config : SkillTemplateConfig) : Except SkillError SkillRegistration := do
  if !m.templateFactory then
    throw {
      errorType := .configuration
      message := "Skill template creation is not configured" }
  let _ ← inputValidator p config.definition
  let renderer ← createTemplateRenderer config
  return { definition := config.definition, renderer }

/-- `get_template` -/
def getTemplate (skillName : String) : Except SkillError SkillTemplateConfig := do
  let _ ← m.get skillName
  match m.templates.find? skillName with
  | some config => return config
  | none => throw {
      errorType := .configuration
      message := "The skill " ++ skillName ++ " is read-only" }

end SkillManager

/-! ### Writing the three places -/

/-- `SkillTemplateStore.save`; `fault` is what the database raises instead. -/
def saveTemplate (fault : Option SkillError) (config : SkillTemplateConfig) : SkillM Unit := fun m =>
  match m.store, fault with
  | none, _ => .ok () m
  | some _, some err => .error err m
  | some store, none => .ok () { m with store := some (store.upsert config.stored) }

/-- `SkillTemplateStore.delete` -/
def deleteStoredTemplate (fault : Option SkillError) (skillName : String) : SkillM Unit := fun m =>
  match m.store, fault with
  | none, _ => .ok () m
  | some _, some err => .error err m
  | some store, none =>
    if (store.find? skillName).isSome then
      .ok () { m with store := some (store.deleteWhere fun config => config.key = skillName) }
    else .error {
      errorType := .notFound
      message := "The skill template " ++ skillName ++ " is not found" } m

/-- `SkillRegister.register` -/
def registerSkill (skill : SkillRegistration) : SkillM Unit := do
  let _ ← orThrow (inputValidator p skill.definition)
  modify fun m => { m with register := m.register.upsert skill }

/-- `SkillRegister.unregister` -/
def unregisterSkill (skillName : String) : SkillM Unit := fun m =>
  if (m.register.find? skillName).isSome then
    .ok () { m with register := m.register.deleteWhere fun skill => skill.name = skillName }
  else .error {
    errorType := .notFound
    message := "The skill " ++ skillName ++ " is not registered" } m

/-- The end of `create_template` and of `update_template`. -/
def publishTemplate (fault : Option SkillError) (config : SkillTemplateConfig) :
    SkillM SkillDefinition := do
  let skill ← orThrow ((← get).buildTemplate p config)
  saveTemplate fault config
  registerSkill p skill
  modify fun m => { m with templates := m.templates.upsert config }
  return skill.definition

/-- The configuration that `create_template` gives a revision. -/
def SkillTemplateConfig.created (config : SkillTemplateConfig) (uuid : String) :
    SkillTemplateConfig :=
  { config with isTemplate := true, revision := some uuid }

/-- `create_template`; `uuid` is the `uuid4().hex` drawn. -/
def createTemplate (uuid : String) (fault : Option SkillError) (config : SkillTemplateConfig) :
    SkillM SkillDefinition := do
  if ((← get).register.find? config.name).isSome then
    throw {
      errorType := .conflict
      message := "The skill " ++ config.name ++ " already exists" }
  publishTemplate p fault (config.created uuid)

/-- The configuration an update leads to: a revision of its own, unless nothing has changed. -/
def SkillTemplateUpdate.revise (update : SkillTemplateUpdate) (uuid : String)
    (current : SkillTemplateConfig) : SkillTemplateConfig :=
  if update.apply current != current then { update.apply current with revision := some uuid }
  else update.apply current

/-- `update_template` -/
def updateTemplate (uuid : String) (fault : Option SkillError) (skillName : String)
    (update : SkillTemplateUpdate) : SkillM SkillDefinition := do
  let current ← orThrow ((← get).getTemplate skillName)
  publishTemplate p fault (update.revise uuid current)

/-- `delete_template` -/
def deleteTemplate (fault : Option SkillError) (skillName : String) : SkillM Unit := do
  let _ ← orThrow ((← get).getTemplate skillName)
  deleteStoredTemplate fault skillName
  unregisterSkill skillName
  modify fun m =>
    { m with templates := m.templates.deleteWhere fun config => config.key = skillName }

/-! ### Starting a runtime -/

/-- A stored template under the revision it is restored with. -/
def SkillTemplateConfig.restored (draw : String → String) (config : SkillTemplateConfig) :
    SkillTemplateConfig :=
  if config.revision.isNone then { config with revision := some (draw config.name) } else config

/-- One turn of the loop of `restore`; `draw` gives the `uuid4().hex` drawn for a name. -/
def restoreTemplate (draw : String → String) (config : SkillTemplateConfig) : SkillM Unit := do
  let m ← get
  if (m.register.find? config.name).isSome ∧ m.templates.find? config.name = none then
    throw {
      errorType := .conflict
      message := "The stored skill " ++ config.name ++ " conflicts with a registered skill" }
  let skill ← orThrow (m.buildTemplate p (config.restored draw))
  if config.revision.isNone then
    saveTemplate none (config.restored draw)
  registerSkill p skill
  modify fun m => { m with templates := m.templates.upsert (config.restored draw) }

/-- `list_configs`: the rows in the order of their names. -/
def listConfigs (store : TemplateTable) : List SkillTemplateConfig :=
  store.rows.insertionSort fun config config' => config.name ≤ config'.name

/-- `restore` -/
def restoreTemplates (draw : String → String) : SkillM Unit := do
  match (← get).store with
  | none => return
  | some store => forM (listConfigs store) (restoreTemplate p draw)

/-! ### The operations on templates -/

/-- An operation of the management routes; a template is disabled by an update. -/
inductive TemplateOperation
  | create (config : SkillTemplateConfig)
  | update (skillName : String) (changes : SkillTemplateUpdate)
  | delete (skillName : String)

/-- No infinity and no NaN in the values an operation gives. -/
def TemplateOperation.finite : TemplateOperation → Bool
  | create config => config.finite
  | update _ changes => changes.finite
  | delete _ => true

/-- Carry out an operation; the uuid it would draw and the fault of the database are given. -/
def TemplateOperation.perform (uuid : String) (fault : Option SkillError) :
    TemplateOperation → SkillM (Option SkillDefinition)
  | create config => some <$> createTemplate p uuid fault config
  | update skillName changes => some <$> updateTemplate p uuid fault skillName changes
  | delete skillName => do deleteTemplate fault skillName; return none

/-! ### What an operation writes -/

namespace SkillManager

/-- The manager with a template written to the three places. -/
def withTemplate (m : SkillManager) (config : SkillTemplateConfig) : SkillManager :=
  { m with
    register := m.register.upsert config.registration
    templates := m.templates.upsert config
    store := m.store.map fun store => store.upsert config.stored }

/-- The manager with a template taken from the three places. -/
def withoutTemplate (m : SkillManager) (skillName : String) : SkillManager :=
  { m with
    register := m.register.deleteWhere fun skill => skill.name = skillName
    templates := m.templates.deleteWhere fun config => config.key = skillName
    store := m.store.map fun store => store.deleteWhere fun config => config.key = skillName }

variable {p} {m : SkillManager} {config : SkillTemplateConfig} {skillName : String}

theorem buildTemplate_ok {skill : SkillRegistration} (h : m.buildTemplate p config = .ok skill) :
    skill = config.registration ∧ ∃ schema, inputValidator p config.definition = .ok schema := by
  rw [buildTemplate] at h
  split at h
  · exact absurd h (by simp [bind, Except.bind, throw, throwThe, MonadExceptOf.throw])
  · obtain ⟨schema, hschema, h⟩ := exists_of_bind_eq_ok h
    obtain ⟨renderer, hrenderer, h⟩ := exists_of_bind_eq_ok h
    rw [createTemplateRenderer] at hrenderer
    split at hrenderer
    · have hrenderer := Except.ok.inj hrenderer
      have hskill := Except.ok.inj h
      exact ⟨by rw [← hskill, ← hrenderer]; rfl, schema, hschema⟩
    · exact absurd hrenderer (by simp)

theorem getTemplate_ok (h : m.getTemplate skillName = .ok config) :
    m.templates.find? skillName = some config ∧ (m.register.find? skillName).isSome := by
  obtain ⟨skill, hskill, h⟩ := exists_of_bind_eq_ok h
  rw [SkillManager.get] at hskill
  cases hregistered : m.register.find? skillName with
  | none =>
    rw [hregistered] at hskill
    exact absurd hskill (by simp)
  | some registered =>
    cases hconfig : m.templates.find? skillName with
    | none =>
      rw [hconfig] at h
      exact absurd h (by simp [throw, throwThe, MonadExceptOf.throw])
    | some config' =>
      rw [hconfig] at h
      exact ⟨congrArg some (Except.ok.inj h), rfl⟩

end SkillManager

section Programs

variable (fault : Option SkillError) (config : SkillTemplateConfig) (m : SkillManager)

theorem publishTemplate_cases :
    (∃ err, publishTemplate p fault config m = .error err m) ∨
      publishTemplate p fault config m = .ok config.definition (m.withTemplate config) := by
  rcases hbuild : m.buildTemplate p config with err | skill
  · left
    exact ⟨err, by simp only [publishTemplate, orThrow, hbuild, bind, EStateM.bind, get_apply]⟩
  · obtain ⟨rfl, schema, hschema⟩ := SkillManager.buildTemplate_ok hbuild
    have hregister : ∀ m', registerSkill p config.registration m' =
        .ok () { m' with register := m'.register.upsert config.registration } := by
      intro m'
      simp only [registerSkill, orThrow, SkillTemplateConfig.registration, hschema, bind,
        EStateM.bind, modify_apply]
    -- Whatever can raise has been tried before the first write, or is the first write.
    have hrest : publishTemplate p fault config m = (saveTemplate fault config >>= fun _ =>
        registerSkill p config.registration >>= fun _ =>
          modify (fun m => { m with templates := m.templates.upsert config }) >>= fun _ =>
            pure config.definition) m := by
      simp only [publishTemplate, orThrow, hbuild, bind, EStateM.bind, get_apply,
        SkillTemplateConfig.registration]
    rw [hrest]
    cases hstore : m.store with
    | none =>
      right
      have hsave : saveTemplate fault config m = .ok () m := by
        simp only [saveTemplate, hstore]
      rw [bind_of_ok hsave, bind_of_ok (hregister m)]
      simp only [bind, EStateM.bind, pure, EStateM.pure, modify_apply, SkillManager.withTemplate,
        hstore, Option.map_none]
    | some store =>
      cases fault with
      | some err =>
        left
        refine ⟨err, bind_of_error ?_⟩
        simp only [saveTemplate, hstore]
      | none =>
        right
        have hsave : saveTemplate none config m =
            .ok () { m with store := some (store.upsert config.stored) } := by
          simp only [saveTemplate, hstore]
        rw [bind_of_ok hsave, bind_of_ok (hregister _)]
        simp only [bind, EStateM.bind, pure, EStateM.pure, modify_apply, SkillManager.withTemplate,
          hstore, Option.map_some]

theorem createTemplate_cases (uuid : String) :
    (∃ err, createTemplate p uuid fault config m = .error err m) ∨
      m.register.find? config.name = none ∧ createTemplate p uuid fault config m =
        .ok (config.created uuid).definition (m.withTemplate (config.created uuid)) := by
  cases hregistered : m.register.find? config.name with
  | some skill =>
    left
    refine ⟨{
      errorType := .conflict
      message := "The skill " ++ config.name ++ " already exists" }, ?_⟩
    simp only [createTemplate, bind, EStateM.bind, get_apply,
      hregistered, Option.isSome_some, if_true, throw_apply]
  | none =>
    have hcreate : createTemplate p uuid fault config m =
        publishTemplate p fault (config.created uuid) m := by
      simp [createTemplate, bind, EStateM.bind, get_apply,
        hregistered]
    rw [hcreate]
    rcases publishTemplate_cases p fault (config.created uuid) m with h | h
    · exact Or.inl h
    · exact Or.inr ⟨rfl, h⟩

theorem updateTemplate_cases (uuid skillName : String) (changes : SkillTemplateUpdate) :
    (∃ err, updateTemplate p uuid fault skillName changes m = .error err m) ∨
      ∃ current, m.templates.find? skillName = some current ∧
        updateTemplate p uuid fault skillName changes m =
          .ok (changes.revise uuid current).definition
            (m.withTemplate (changes.revise uuid current)) := by
  rcases hcurrent : m.getTemplate skillName with err | current
  · left
    exact ⟨err, by simp only [updateTemplate, bind, EStateM.bind, get_apply, orThrow, hcurrent]⟩
  · have hupdate : updateTemplate p uuid fault skillName changes m =
        publishTemplate p fault (changes.revise uuid current) m := by
      simp only [updateTemplate, bind, EStateM.bind, get_apply,
        orThrow, hcurrent]
    rw [hupdate]
    rcases publishTemplate_cases p fault (changes.revise uuid current) m with h | h
    · exact Or.inl h
    · exact Or.inr ⟨current, (SkillManager.getTemplate_ok hcurrent).1, h⟩

theorem deleteTemplate_cases (skillName : String) :
    (∃ err, deleteTemplate fault skillName m = .error err m) ∨
      (m.templates.find? skillName).isSome ∧
        deleteTemplate fault skillName m = .ok () (m.withoutTemplate skillName) := by
  rcases hcurrent : m.getTemplate skillName with err | current
  · left
    exact ⟨err, by simp only [deleteTemplate, bind, EStateM.bind, get_apply, orThrow, hcurrent]⟩
  · obtain ⟨htemplate, hregistered⟩ := SkillManager.getTemplate_ok hcurrent
    have hrest : deleteTemplate fault skillName m = (deleteStoredTemplate fault skillName >>=
        fun _ => unregisterSkill skillName >>= fun _ => modify fun m =>
          { m with templates := m.templates.deleteWhere fun config => config.key = skillName }) m := by
      simp only [deleteTemplate, bind, EStateM.bind, get_apply,
        orThrow, hcurrent]
    -- The store and the register hold the name, so only the database can raise.
    have hwritten : ∀ store', deleteStoredTemplate fault skillName m =
        .ok () { m with store := store' } →
        store' = m.store.map (fun store => store.deleteWhere fun config => config.key = skillName) →
        deleteTemplate fault skillName m = .ok () (m.withoutTemplate skillName) := by
      intro store' hdelete hstore'
      rw [hrest, bind_of_ok hdelete]
      have hunregister : unregisterSkill skillName { m with store := store' } = .ok ()
          { m with store := store', register := m.register.deleteWhere fun skill =>
            skill.name = skillName } := by
        simp only [unregisterSkill, hregistered, if_true]
      rw [bind_of_ok hunregister, hstore']
      rfl
    cases hstore : m.store with
    | none =>
      refine Or.inr ⟨by rw [htemplate]; rfl, hwritten none ?_ (by rw [hstore]; rfl)⟩
      simp only [deleteStoredTemplate, hstore]
      rw [← hstore]
    | some store =>
      cases fault with
      | some err =>
        left
        refine ⟨err, hrest.trans (bind_of_error ?_)⟩
        simp only [deleteStoredTemplate, hstore]
      | none =>
        by_cases hfound : (store.find? skillName).isSome
        · refine Or.inr ⟨by rw [htemplate]; rfl,
            hwritten (some (store.deleteWhere fun config => config.key = skillName)) ?_
              (by rw [hstore]; rfl)⟩
          simp only [deleteStoredTemplate, hstore, hfound, if_true]
        · left
          refine ⟨{
            errorType := .notFound
            message := "The skill template " ++ skillName ++ " is not found" },
            hrest.trans (bind_of_error ?_)⟩
          simp only [deleteStoredTemplate, hstore, hfound]
          rfl

end Programs

/-! ### What an operation does -/

/-- The manager after an operation that returned. -/
inductive TemplateOperation.Writes (uuid : String) (m : SkillManager) :
    TemplateOperation → SkillManager → Prop
  | create {config : SkillTemplateConfig} (h : m.register.find? config.name = none) :
    Writes uuid m (.create config) (m.withTemplate (config.created uuid))
  | update {skillName : String} {changes : SkillTemplateUpdate} {current : SkillTemplateConfig}
    (h : m.templates.find? skillName = some current) :
    Writes uuid m (.update skillName changes) (m.withTemplate (changes.revise uuid current))
  | delete {skillName : String} (h : (m.templates.find? skillName).isSome) :
    Writes uuid m (.delete skillName) (m.withoutTemplate skillName)

/-- **One operation.** It raises and leaves the manager as it was, or it returns and has written
one template to the three places or taken one from them. -/
theorem TemplateOperation.perform_cases (uuid : String) (fault : Option SkillError)
    (op : TemplateOperation) (m : SkillManager) :
    (∃ err, op.perform p uuid fault m = .error err m) ∨
      ∃ definition m', op.perform p uuid fault m = .ok definition m' ∧ op.Writes uuid m m' := by
  cases op with
  | create config =>
    rcases createTemplate_cases p fault config m uuid with ⟨err, h⟩ | ⟨hnone, h⟩
    · exact Or.inl ⟨err, by simp only [perform, Functor.map, EStateM.map, h]⟩
    · exact Or.inr ⟨_, _, by simp only [perform, Functor.map, EStateM.map, h]; rfl, .create hnone⟩
  | update skillName changes =>
    rcases updateTemplate_cases p fault m uuid skillName changes with
      ⟨err, h⟩ | ⟨current, hcurrent, h⟩
    · exact Or.inl ⟨err, by simp only [perform, Functor.map, EStateM.map, h]⟩
    · exact Or.inr ⟨_, _, by simp only [perform, Functor.map, EStateM.map, h]; rfl,
        .update hcurrent⟩
  | delete skillName =>
    rcases deleteTemplate_cases fault m skillName with ⟨err, h⟩ | ⟨hsome, h⟩
    · exact Or.inl ⟨err, bind_of_error h⟩
    · exact Or.inr ⟨none, _, bind_of_ok h, .delete hsome⟩

end EvernightAI
