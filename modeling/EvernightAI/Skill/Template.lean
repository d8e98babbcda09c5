import EvernightAI.Skill.Schema

/-!
# Rendering a skill

A skill is rendered by its renderer: a template's fills in the prompt, a skill registered by
code runs that code. `Renderer.render` is the awaited call, `SkillRegistration.check` what the
manager requires of its result.
-/

namespace EvernightAI

/-! ### `string.Template` -/

namespace PromptTemplate

/-- A piece of a prompt: a character, a placeholder, or a `$` that starts neither. -/
inductive Segment
  | char (c : Char)
  | placeholder (name : String)
  | invalid
  deriving DecidableEq

/-- Where the scan of a prompt stands: in the text, behind a `$`, or in a name. -/
inductive Mode
  | text
  | dollar
  | named (name : List Char)
  | braced (name : List Char)

def idStart (c : Char) : Bool := c.isAlpha || c == '_'

def idContinue (c : Char) : Bool := c.isAlphanum || c == '_'

/-- The matches of `Template.pattern`, with the text between them. -/
def scan : Mode → List Char → List Segment
  | .text, [] => []
  | .text, c :: cs => if c = '$' then scan .dollar cs else .char c :: scan .text cs
  | .dollar, [] => [.invalid]
  | .dollar, c :: cs =>
    if c = '$' then .char '$' :: scan .text cs
    else if c = '{' then scan (.braced []) cs
    else if idStart c then scan (.named [c]) cs
    else .invalid :: .char c :: scan .text cs
  | .named name, [] => [.placeholder (String.ofList name)]
  | .named name, c :: cs =>
    if idContinue c then scan (.named (name ++ [c])) cs
    else if c = '$' then .placeholder (String.ofList name) :: scan .dollar cs
    else .placeholder (String.ofList name) :: .char c :: scan .text cs
  | .braced _, [] => [.invalid]
  | .braced name, c :: cs =>
    if c = '}' ∧ name ≠ [] then .placeholder (String.ofList name) :: scan .text cs
    else if (if name = [] then idStart c else idContinue c) then scan (.braced (name ++ [c])) cs
    -- the braces do not match, so the `$` is invalid and the template is refused
    else [.invalid]

def segments (prompt : String) : List Segment := scan .text prompt.toList

/-- `Template(prompt).is_valid()` -/
def isValid (prompt : String) : Bool := !(segments prompt).contains .invalid

/-- `Template(prompt).get_identifiers()` -/
def getIdentifiers (prompt : String) : List String :=
  ((segments prompt).filterMap fun
    | .placeholder name => some name
    | _ => none).eraseDups

/-- `Template(prompt).substitute(values)` -/
def substitute (prompt : String) (values : String → String) : String :=
  (segments prompt).foldl (fun text segment =>
    match segment with
    | .char c => text.push c
    | .placeholder name => text ++ values name
    | .invalid => text) ""

end PromptTemplate

/-! ### Renderers -/

/-- The render function that `create_template_renderer` returns for a template. -/
def renderTemplate (reprFloat : Rat → String) (config : SkillTemplateConfig)
    (request : SkillRenderRequest) : Except SkillError RenderedSkill :=
  let missing := (PromptTemplate.getIdentifiers config.prompt).filter fun name =>
    !(request.«variables».any fun entry => entry.1 == name)
  if missing = [] then
    let value := fun name =>
      match request.«variables».lookup name with
      | some (.str s) => s
      | some value => value.dumps reprFloat
      | none => ""
    .ok {
      renderId := request.renderId
      skillName := request.skillName
      messages := [{
        role := .system
        content := some [{
          type := .text
          text := some (PromptTemplate.substitute config.prompt value) }] }] }
  else
    .error {
      errorType := .input
      message := "Missing template variables"
      detail := some (.missingFields missing) }

/-- A renderer: of a template, or code that is awaited and answered from outside, which raises or
returns what may not be a rendered skill. -/
inductive Renderer
  | template (config : SkillTemplateConfig)
  | builtin (render : SkillRenderRequest → PyJson → Except SkillError (Option RenderedSkill))

/-- `await renderer(request)` -/
def Renderer.render (reprFloat : Rat → String) (renderer : Renderer) (request : SkillRenderRequest)
    (answer : PyJson) : Except SkillError (Option RenderedSkill) :=
  match renderer with
  | template config => some <$> renderTemplate reprFloat config request
  | builtin render => render request answer

/-- `create_template_renderer` -/
def createTemplateRenderer (config : SkillTemplateConfig) : Except SkillError Renderer :=
  if PromptTemplate.isValid config.prompt then .ok (.template config)
  else .error {
    errorType := .configuration
    message := "Invalid template placeholder; use $name or $\x7bname\x7d, and $$ for a literal " ++
      "dollar" }

/-- A registered skill. -/
structure SkillRegistration where
  definition : SkillDefinition
  renderer : Renderer

/-- The key of a registration. -/
def SkillRegistration.name (skill : SkillRegistration) : String := skill.definition.name

/-- The registration of a template. -/
def SkillTemplateConfig.registration (config : SkillTemplateConfig) : SkillRegistration where
  definition := config.definition
  renderer := .template config

@[simp] theorem SkillTemplateConfig.registration_name (config : SkillTemplateConfig) :
    config.registration.name = config.name := rfl

/-- `SkillManager.render` from the call of the renderer on. -/
def SkillRegistration.render (reprFloat : Rat → String) (skill : SkillRegistration)
    (request : SkillRenderRequest) (answer : PyJson) : Except SkillError RenderedSkill :=
  match skill.renderer.render reprFloat request answer with
  | .error err =>
    if err.errorType = .input ∨ err.errorType = .render then .error err
    else .error {
      errorType := .render
      message := "The skill " ++ skill.name ++ " render failed" }
  | .ok none => .error {
      errorType := .render
      message := "The skill " ++ skill.name ++ " renderer returned an invalid result" }
  | .ok (some rendered) =>
    if rendered.skillName = request.skillName ∧ rendered.renderId = request.renderId then
      .ok rendered
    else .error {
      errorType := .render
      message := "The skill " ++ skill.name ++
        " renderer returned a mismatched skill name or render ID" }

/-! ### What a rendering depends on -/

/-- A template is rendered from its prompt and the request, whatever else it holds. -/
theorem renderTemplate_congr {reprFloat : Rat → String} {config config' : SkillTemplateConfig}
    (h : config.prompt = config'.prompt) (request : SkillRenderRequest) :
    renderTemplate reprFloat config request = renderTemplate reprFloat config' request := by
  simp only [renderTemplate, h]

/-- The rendered messages of two templates with one prompt are the same. -/
theorem SkillRegistration.render_congr {reprFloat : Rat → String} {skill skill' : SkillRegistration}
    {config config' : SkillTemplateConfig} (hskill : skill.renderer = .template config)
    (hskill' : skill'.renderer = .template config') (h : config.prompt = config'.prompt)
    {request : SkillRenderRequest} {answer : PyJson} {rendered : RenderedSkill}
    (hrender : skill.render reprFloat request answer = .ok rendered) :
    skill'.render reprFloat request answer = .ok rendered := by
  have hsame : skill'.renderer.render reprFloat request answer =
      skill.renderer.render reprFloat request answer := by
    rw [hskill, hskill', Renderer.render, Renderer.render, renderTemplate_congr h]
  rw [SkillRegistration.render] at hrender ⊢
  rw [hsame]
  rcases hr : skill.renderer.render reprFloat request answer with err | (_ | rendered')
  · simp only [hr] at hrender
    split at hrender <;> exact absurd hrender (by simp)
  · simp only [hr] at hrender
    exact absurd hrender (by simp)
  · simp only [hr] at hrender ⊢
    split at hrender
    · next hmatch => rw [if_pos hmatch, ← hrender]
    · exact absurd hrender (by simp)

end EvernightAI
