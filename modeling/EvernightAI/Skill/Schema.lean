import EvernightAI.Lib.PyJson
import EvernightAI.Schema.Content

/-!
# Skills and skill templates

A skill is a definition and a renderer; a template is a skill whose renderer fills in a prompt. The
server gives each template a revision. A template's schemas and metadata are open JSON values.

* `SkillTemplateConfig` compares as its class does, field by field with Python's `==`.
* `SkillTemplateConfig.stored` is a template after its JSON payload was written and read back.
* `SkillTemplateUpdate.apply` is the validated merge of an update into a template.
-/

namespace EvernightAI

/-! ### Errors -/

/-- What the detail of an error says. -/
inductive SkillErrorDetail
  | changed (reason : String) (skillNames : List String)
  | missingFields (names : List String)
  | constraint (path schemaPath : List PyJson) (constraint : String)

inductive SkillErrorType
  | input | notFound | configuration | render | conflict | disabled
  | other (name : String)
  deriving DecidableEq, Repr

/-- An error raised by the skill code, or by what it calls. -/
structure SkillError where
  errorType : SkillErrorType
  message : String
  detail : Option SkillErrorDetail := none

/-! ### Definitions and templates -/

inductive SkillCapability
  | chat | toolUse | memory | context | agent | streaming
  deriving DecidableEq, Repr

/-- `SkillCapability.value` -/
def SkillCapability.value : SkillCapability → String
  | .chat => "chat"
  | .toolUse => "tool_use"
  | .memory => "memory"
  | .context => "context"
  | .agent => "agent"
  | .streaming => "streaming"

structure SkillDefinition where
  name : String
  description : String
  isEnabled : Bool := true
  isTemplate : Bool := false
  revision : Option String := none
  inputSchema : Option PyDict := none
  outputSchema : Option PyDict := none
  capabilities : List SkillCapability := []
  requiredTools : List String := []
  metadata : PyDict := []

structure SkillTemplateConfig extends SkillDefinition where
  prompt : String

/-- The definition that `_build_template` gives a template. -/
def SkillTemplateConfig.definition (config : SkillTemplateConfig) : SkillDefinition :=
  { config.toSkillDefinition with isTemplate := true }

/-- `SkillTemplateUpdate`: a field that is unset leaves the template's; only a schema can be
cleared. -/
structure SkillTemplateUpdate where
  description : Option String := none
  prompt : Option String := none
  isEnabled : Option Bool := none
  inputSchema : Option (Option PyDict) := none
  outputSchema : Option (Option PyDict) := none
  capabilities : Option (List SkillCapability) := none
  requiredTools : Option (List String) := none
  metadata : Option PyDict := none

/-- `{**current.model_dump(), **update.model_dump(exclude_unset=True)}` -/
def SkillTemplateUpdate.apply (update : SkillTemplateUpdate) (current : SkillTemplateConfig) :
    SkillTemplateConfig :=
  { current with
    description := update.description.getD current.description
    prompt := update.prompt.getD current.prompt
    isEnabled := update.isEnabled.getD current.isEnabled
    inputSchema := update.inputSchema.getD current.inputSchema
    outputSchema := update.outputSchema.getD current.outputSchema
    capabilities := update.capabilities.getD current.capabilities
    requiredTools := update.requiredTools.getD current.requiredTools
    metadata := update.metadata.getD current.metadata }

namespace SkillTemplateConfig

variable (config : SkillTemplateConfig)

/-! ### Equality of templates -/

/-- The fields of a template up to `==`. -/
structure Compared where
  texts : List String
  flags : List Bool
  revision : Option String
  capabilities : List SkillCapability
  requiredTools : List String
  schemas : List (Option (List PyJson.Token))
  metadata : List PyJson.Token
  deriving DecidableEq

def compared : Compared where
  texts := [config.name, config.description, config.prompt]
  flags := [config.isEnabled, config.isTemplate]
  revision := config.revision
  capabilities := config.capabilities
  requiredTools := config.requiredTools
  schemas := [config.inputSchema, config.outputSchema].map fun schema =>
    schema.map fun schema => (PyJson.dict schema).tokens
  metadata := (PyJson.dict config.metadata).tokens

/-- `config == config'` -/
instance : BEq SkillTemplateConfig := ⟨fun config config' => config.compared = config'.compared⟩

theorem beq_iff {config config' : SkillTemplateConfig} :
    (config == config') = true ↔ config.compared = config'.compared := decide_eq_true_iff

theorem prompt_of_beq {config config' : SkillTemplateConfig} (h : config == config') :
    config.prompt = config'.prompt := by
  have htexts := congrArg Compared.texts (beq_iff.mp h)
  simp only [compared, List.cons.injEq, and_true] at htexts
  exact htexts.2.2

/-! ### Persisting a template -/

/-- `model_dump_json`, read back by `model_validate_json`. -/
def stored : SkillTemplateConfig :=
  { config with
    inputSchema := config.inputSchema.map PyJson.storedEntries
    outputSchema := config.outputSchema.map PyJson.storedEntries
    metadata := PyJson.storedEntries config.metadata }

/-- No infinity and no NaN in a schema or in the metadata. -/
def finite : Bool :=
  config.inputSchema.all PyJson.finiteEntries && config.outputSchema.all PyJson.finiteEntries &&
    PyJson.finiteEntries config.metadata

@[simp] theorem stored_name : config.stored.name = config.name := rfl

@[simp] theorem stored_revision : config.stored.revision = config.revision := rfl

@[simp] theorem stored_prompt : config.stored.prompt = config.prompt := rfl

variable {config}

theorem stored_of_finite (h : config.finite) : config.stored = config := by
  simp only [finite, Bool.and_eq_true] at h
  obtain ⟨⟨hinput, houtput⟩, hmetadata⟩ := h
  have hschema : ∀ {schema : Option PyDict}, schema.all PyJson.finiteEntries →
      schema.map PyJson.storedEntries = schema := by
    intro schema hschema
    cases schema with
    | none => rfl
    | some schema => exact congrArg some (PyJson.storedEntries_of_finite schema hschema)
  rw [stored, hschema hinput, hschema houtput, PyJson.storedEntries_of_finite _ hmetadata]

theorem finite_stored : config.stored.finite := by
  have hschema : ∀ schema : Option PyDict,
      (schema.map PyJson.storedEntries).all PyJson.finiteEntries := by
    intro schema
    cases schema with
    | none => rfl
    | some schema => exact PyJson.finite_storedEntries schema
  simp only [finite, stored, hschema, PyJson.finite_storedEntries, Bool.and_true]

@[simp] theorem stored_stored : config.stored.stored = config.stored :=
  stored_of_finite finite_stored

end SkillTemplateConfig

/-- No infinity and no NaN in the values an update sets. -/
def SkillTemplateUpdate.finite (update : SkillTemplateUpdate) : Bool :=
  update.inputSchema.all (·.all PyJson.finiteEntries) &&
    update.outputSchema.all (·.all PyJson.finiteEntries) &&
    update.metadata.all PyJson.finiteEntries

theorem SkillTemplateUpdate.finite_apply {update : SkillTemplateUpdate}
    {current : SkillTemplateConfig} (h : update.finite) (hcurrent : current.finite) :
    (update.apply current).finite := by
  simp only [SkillTemplateUpdate.finite, SkillTemplateConfig.finite, Bool.and_eq_true] at h hcurrent
  have hset : ∀ {α : Type} {p : α → Bool} {field : Option α} {value : α}, field.all p →
      p value → p (field.getD value) := by
    intro α p field value hfield hvalue
    cases field with
    | none => exact hvalue
    | some value' => exact hfield
  simp only [SkillTemplateConfig.finite, SkillTemplateUpdate.apply, Bool.and_eq_true]
  exact ⟨⟨hset h.1.1 hcurrent.1.1, hset h.1.2 hcurrent.1.2⟩, hset h.2 hcurrent.2⟩

/-! ### Rendering -/

/-- A skill a chat or an agent request asks for. -/
structure ChatSkill where
  skillName : String
  renderId : Option String := none
  «variables» : PyDict := []

structure SkillRenderRequest where
  renderId : String
  skillName : String
  «variables» : PyDict := []

structure RenderedSkill where
  renderId : String
  skillName : String
  messages : List Content := []

end EvernightAI
