import EvernightAI.Lib.TransitionSystem
import EvernightAI.Skill.Restart

/-!
# Agent runs and the revisions of their skills

An agent run records the revisions of its skills when it starts and compares them before each
action. Its chat requests are composed in between: the context and the memories are awaited, the
skills are rendered one by one, each renderer is awaited, and the revisions are compared once more
before the request is handed to the provider.

The system is one run beside the template operations of its runtime. Between two awaits the run is
not interrupted, so a step is what happens from one await to the next; the labels carry what is
left open: which operation comes when, what a renderer is answered, when the run calls a tool, chats
again, pauses or is resumed, and when the runtime is started again. The streamed and the plain chat
go through the same awaits and comparisons.

`recorded`, `handed` and `published` are histories that no code reads.
-/

namespace EvernightAI

open StatefulProgram

/-! ### Comparing revisions -/

/-- `dict.fromkeys(skill.skill_name for skill in skills)` -/
def skillNames (skills : List ChatSkill) : List String := (skills.map (·.skillName)).eraseDups

/-- One turn of the loop of `_check_skill_revisions`. -/
def checkSkillRevision (m : SkillManager) (revision : Option String) (name : String) :
    Except SkillError Unit :=
  match m.get name with
  | .error err => .error {
      errorType := .notFound
      message := err.message
      detail := some (.changed "deleted" [name]) }
  | .ok skill =>
    if !skill.definition.isEnabled then .error {
      errorType := .disabled
      message := "The skill " ++ name ++ " is disabled"
      detail := some (.changed "disabled" [name]) }
    else if skill.definition.revision ≠ revision then .error {
      errorType := .conflict
      message := "The skill " ++ name ++ " changed during the agent run; start a new run"
      detail := some (.changed "revision_changed" [name]) }
    else .ok ()

/-- `_check_skill_revisions` -/
def checkSkillRevisions (m : SkillManager) (skills : List ChatSkill)
    (skillRevisions : Option (List (String × Option String))) : Except SkillError Unit :=
  let names := skillNames skills
  if names = [] ∧ skillRevisions.getD [] = [] then .ok ()
  else
    let unavailable : SkillError := {
      errorType := .conflict
      message := "Agent skill versions are unavailable; start a new run"
      detail := some (.changed "revision_unavailable" names) }
    match skillRevisions with
    | none => .error unavailable
    | some revisions =>
      if names ⊆ revisions.map Prod.fst ∧ revisions.map Prod.fst ⊆ names then
        names.forM fun name => checkSkillRevision m ((revisions.lookup name).getD none) name
      else .error unavailable

/-! ### Rendering the skills of a request -/

/-- The render request of the skill at a position: `render_id or f"{skill_name}-{index}"`. -/
def ChatSkill.renderRequest (skill : ChatSkill) (index : Nat) : SkillRenderRequest where
  renderId := match skill.renderId with
    | some renderId => if renderId = "" then skill.skillName ++ "-" ++ toString index else renderId
    | none => skill.skillName ++ "-" ++ toString index
  skillName := skill.skillName
  «variables» := skill.«variables»

/-- One turn of the loop of `render_chat_skill_messages`, up to the call of the renderer. -/
def beginSkill (p : SkillPlatform) (m : SkillManager) (capability : SkillCapability)
    (tools : List String) (skill : ChatSkill) (index : Nat) :
    Except SkillError SkillRegistration := do
  let definition := (← m.get skill.skillName).definition
  if !definition.isEnabled then
    throw { errorType := .disabled, message := "The skill " ++ skill.skillName ++ " is disabled" }
  let missing := definition.requiredTools.filter fun name => !tools.contains name
  if missing ≠ [] then
    throw {
      errorType := .input
      message := "The skill " ++ skill.skillName ++ " requires tools: " ++ ", ".intercalate missing }
  if !(← m.supports skill.skillName capability) then
    throw {
      errorType := .input
      message := "The skill " ++ skill.skillName ++ " does not support " ++ capability.value }
  m.renderer p (skill.renderRequest index)

/-! ### The run -/

/-- Where a run stands between two of its steps. -/
inductive SkillPhase
  | created
  | running
  | composing (tools : List String)
  | rendering (tools : List String) (skill : SkillRegistration) (done : List RenderedSkill)
    (todo : List ChatSkill)
  | awaiting
  | paused
  | ended (error : Option SkillError)

structure SkillRun where
  skills : List ChatSkill
  skillRevisions : Option (List (String × Option String)) := none
  phase : SkillPhase := .created
  /-- What was registered for each skill when the revisions were recorded. -/
  recorded : List SkillRegistration := []
  /-- The skill messages of the requests handed to the provider. -/
  handed : List (List Content) := []

namespace SkillRun

/-- The run after `_check_skill_revisions`: it fails, or goes on as `next`. -/
def checked (m : SkillManager) (run next : SkillRun) : SkillRun :=
  match checkSkillRevisions m run.skills run.skillRevisions with
  | .ok () => next
  | .error err => { run with phase := .ended (some err) }

/-- Compose from the skill `todo` starts with, to the next await: a renderer, or the provider when
no skill is left; `imageFault` is what the image references of the request raise. -/
def advance (p : SkillPlatform) (m : SkillManager) (tools : List String) (done : List RenderedSkill)
    (todo : List ChatSkill) (imageFault : Option SkillError) (run : SkillRun) : SkillRun :=
  match todo with
  | [] => run.checked m <|
    match imageFault with
    | some err => { run with phase := .ended (some err) }
    | none => { run with
        phase := .awaiting
        handed := run.handed ++ [done.flatMap (·.messages)] }
  | skill :: todo =>
    match beginSkill p m .agent tools skill done.length with
    | .ok registration => { run with phase := .rendering tools registration done (skill :: todo) }
    | .error err => { run with phase := .ended (some err) }

end SkillRun

/-! ### The system -/

structure SkillSystem where
  manager : SkillManager
  run : SkillRun
  /-- The configurations that the manager or the store has held since the first start. -/
  published : List SkillTemplateConfig

/-- The configurations of a manager and of its store. -/
def SkillManager.configurations (m : SkillManager) : List SkillTemplateConfig :=
  m.templates.rows ++ (m.store.map fun store => store.rows).getD []

inductive SkillLabel
  | operate (op : TemplateOperation) (uuid : String) (fault : Option SkillError)
  | restart (draw : String → String) (saved : Bool)
  | record
  | check
  | chat (tools : List String)
  | compose (fault imageFault : Option SkillError)
  | rendered (answer : PyJson) (imageFault : Option SkillError)
  | respond (finished : Bool)
  | fail (err : SkillError)
  | pause
  | resume

namespace SkillSystem

/-- The revisions given so far. -/
def issued (s : SkillSystem) : List (Option String) := s.published.map (·.revision)

/-- The system with another manager. -/
def withManager (s : SkillSystem) (m : SkillManager) : SkillSystem :=
  { s with manager := m, published := s.published ++ m.configurations }

/-- What the start of a new process leaves of a run: its persisted state, paused for recovery. The
revisions are lost when the process ended before the state was saved. -/
def recovered (run : SkillRun) (saved : Bool) : SkillRun :=
  { run with
    skillRevisions := if saved then run.skillRevisions else none
    phase := match run.phase with
      | .ended err => .ended err
      | _ => .paused }

/-- A step of the run. -/
def runStep (p : SkillPlatform) (m : SkillManager) (run : SkillRun) : SkillLabel → Option SkillRun
  | .record =>
    match run.phase with
    | .created =>
      match run.skills.mapM fun skill => m.get skill.skillName with
      | .ok recorded => some { run with
          phase := .running
          skillRevisions := some (recorded.map fun skill => (skill.name, skill.definition.revision))
          recorded }
      | .error err => some { run with phase := .ended (some err) }
    | _ => none
  | .check =>
    match run.phase with
    | .running => some (run.checked m run)
    | _ => none
  | .chat tools =>
    match run.phase with
    | .running => some (run.checked m { run with phase := .composing tools })
    | _ => none
  | .compose fault imageFault =>
    match run.phase, fault with
    | .composing _, some err => some { run with phase := .ended (some err) }
    | .composing tools, none => some (run.advance p m tools [] run.skills imageFault)
    | _, _ => none
  | .rendered answer imageFault =>
    match run.phase with
    | .rendering tools registration done (skill :: todo) =>
      match registration.render p.reprFloat (skill.renderRequest done.length) answer with
      | .ok rendered => some (run.advance p m tools (done ++ [rendered]) todo imageFault)
      | .error err => some { run with phase := .ended (some err) }
    | _ => none
  | .respond finished =>
    match run.phase with
    | .awaiting => some { run with phase := if finished then .ended none else .running }
    | _ => none
  | .fail err =>
    match run.phase with
    | .running | .awaiting => some { run with phase := .ended (some err) }
    | _ => none
  | .pause =>
    match run.phase with
    | .running => some { run with phase := .paused }
    | _ => none
  | .resume =>
    match run.phase with
    -- a resume that is refused leaves the paused run as it was
    | .paused =>
      match checkSkillRevisions m run.skills run.skillRevisions with
      | .ok () => some { run with phase := .running }
      | .error _ => some run
    | _ => none
  | .operate .. | .restart .. => none

/-- **One step.** An operation needs a uuid that was never given, as does the restore of a template
without a revision. -/
def step (p : SkillPlatform) (builtins : Table SkillRegistration.name) (s : SkillSystem)
    (label : SkillLabel) : Option SkillSystem :=
  match label with
  | .operate op uuid fault =>
    if some uuid ∈ s.issued then none
    else some (s.withManager (after (op.perform p uuid fault) s.manager))
  | .restart draw saved =>
    (SkillManager.start p draw s.manager.templateFactory builtins s.manager.store).map fun m =>
      { s.withManager m with run := recovered s.run saved }
  | label => (runStep p s.manager s.run label).map fun run => { s with run }

/-- The store of a database in which earlier releases saved the given templates. -/
def savedStore (saved : List SkillTemplateConfig) : TemplateTable :=
  saved.foldl (fun store config => store.upsert config.stored) ∅

/-- **The first start** of a runtime, in memory or on a database, and a run of it. -/
def start (p : SkillPlatform) (draw : String → String) (builtins : Table SkillRegistration.name)
    (saved : Option (List SkillTemplateConfig)) (skills : List ChatSkill) : Option SkillSystem :=
  (SkillManager.start p draw true builtins (saved.map savedStore)).map fun manager =>
    { manager, run := { skills }, published := manager.configurations }

end SkillSystem

end EvernightAI
