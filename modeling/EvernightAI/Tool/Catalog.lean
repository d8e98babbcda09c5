import EvernightAI.Lib.Table
import EvernightAI.Schema.Auth
import EvernightAI.Tool.Manager
import Mathlib.Data.List.Dedup

/-!
# The tool catalog and the executor

`ToolManager.list_tools` previews what the manager would decide about a call without approval, and
`ToolManager.execute` decides again before it invokes the executor.

* `BasicToolSafetyPolicy.authorize_allowed_iff`: what the safety policy allows.
* `ToolManager.Admits`: what holds of a call whose executor is invoked.
* `toolAuthorization_complete`: the executor is invoked for admitted calls only, with a context and
  a directory that are not the model's choice, and never for a tool the catalog leaves out.
-/

namespace EvernightAI

/-! ### The safety policy -/

namespace BasicToolSafetyPolicy

variable {policy : BasicToolSafetyPolicy} {tool : ToolDefinition} {call : ToolCall}

/-- No permission of the tool is blocked. -/
theorem blocked_eq_nil_iff :
    tool.permissions.dedup.filter (policy.blockedPermissions.contains ·) = [] ↔
      ∀ permission ∈ tool.permissions, permission ∉ policy.blockedPermissions := by
  simp [List.filter_eq_nil_iff, List.mem_dedup]

/-- **What the safety policy allows.** -/
theorem authorize_allowed_iff : (policy.authorize tool call).allowed = true ↔
    (∀ permission ∈ tool.permissions, permission ∉ policy.blockedPermissions) ∧
      hasApproval call .denied = false ∧ hasApproval call .expired = false ∧
      (policy.requiresApproval tool = true → approved call = true) := by
  have hasks : (policy.requiresApproval tool = true → approved call = true) ↔
      ¬(policy.requiresApproval tool && !approved call) = true := by
    rcases policy.requiresApproval tool <;> rcases approved call <;> simp
  rw [hasks, ← blocked_eq_nil_iff]
  unfold authorize
  by_cases hblocked : tool.permissions.dedup.filter (policy.blockedPermissions.contains ·) = []
  · rw [if_neg (not_not.mpr hblocked)]
    rcases happroval : call.approval with _ | approval
    · have hnone : ∀ status, hasApproval call status = false := fun status => by
        rw [hasApproval, happroval, Option.any_none]
      by_cases hrequires : (policy.requiresApproval tool && !approved call) = true
      · simp only [hrequires, if_true, not_true_eq_false, and_false, Bool.false_eq_true]
      · simpa [hnone, hrequires] using blocked_eq_nil_iff.mp hblocked
    · by_cases hrefused : (hasApproval call .denied || hasApproval call .expired) = true
      · simp only [if_pos hrefused, Bool.false_eq_true, false_iff, not_and]
        intro _ hdenied hexpired
        rw [hdenied, hexpired] at hrefused
        cases hrefused
      · obtain ⟨hdenied, hexpired⟩ := Bool.or_eq_false_iff.mp (Bool.not_eq_true _ ▸ hrefused)
        by_cases hrequires : (policy.requiresApproval tool && !approved call) = true
        · simp only [if_neg hrefused, hrequires, if_true, not_true_eq_false, and_false,
            Bool.false_eq_true]
        · simpa [hrequires, hdenied, hexpired] using blocked_eq_nil_iff.mp hblocked
  · simp only [ne_eq, hblocked, not_false_eq_true, if_true, Bool.false_eq_true, false_and]

/-- Without an approval the policy refuses a tool outright only for its permissions. -/
theorem blocked_of_authorize (happroval : call.approval = none)
    (hallowed : (policy.authorize tool call).allowed = false)
    (hrequires : (policy.authorize tool call).requiresApproval = false) :
    ∃ permission ∈ tool.permissions, permission ∈ policy.blockedPermissions := by
  by_contra hnone
  have hblocked := blocked_eq_nil_iff.mpr fun permission hpermission hmem =>
    hnone ⟨permission, hpermission, hmem⟩
  unfold authorize at hallowed hrequires
  rw [if_neg (not_not.mpr hblocked), happroval] at hallowed hrequires
  simp only at hallowed hrequires
  split at hallowed
  · next h => rw [if_pos h] at hrequires; cases hrequires
  · cases hallowed

end BasicToolSafetyPolicy

/-! ### The register and the catalog -/

/-- `ToolRegister`, by its snapshot: the definitions under their names, the names that have an
executor, and the preflight policies. -/
structure ToolRegister where
  tools : Table ToolDefinition.name := ∅
  executors : List String := []
  preflightPolicies : List (String × (ToolDefinition → Dict → Option ToolSafetyDecision)) := []

namespace ToolRegister

variable (register : ToolRegister)

def has (toolName : String) : Bool :=
  (register.tools.find? toolName).isSome && register.executors.contains toolName

/-- A tool manager over this register. -/
def manager (safetyPolicy : BasicToolSafetyPolicy)
    (configured : Option String → String → Option ToolAccessMode)
    (parseObject : String → Option Dict) (objectText : Dict → String) : ToolManager where
  tool? name := if register.has name then register.tools.find? name else none
  safetyPolicy := safetyPolicy
  configured := configured
  preflight? name := register.preflightPolicies.lookup name
  parseObject := parseObject
  objectText := objectText

end ToolRegister

/-- What a person is shown of a tool. -/
structure ToolPolicySummary where
  tool : ToolDefinition
  mode : ToolAccessMode
  defaultMode : ToolAccessMode
  configuredMode : Option ToolAccessMode := none
  blockedReason : Option String := none
  deriving DecidableEq, Repr

namespace ToolManager

variable (tools : ToolManager)

/-- `_decision_mode` -/
def decisionMode (decision : ToolSafetyDecision) : ToolAccessMode :=
  if decision.allowed then .allow else if decision.requiresApproval then .ask else .deny

/-- The call by which a tool is previewed. -/
def previewCall (tool : ToolDefinition) (scope : Option PrincipalScope) : ToolCall where
  toolCallId := "policy-preview"
  toolCall := [("name", .str tool.name), ("arguments", .other "{}")]
  metadata := [("owner_id", .ofText (scope.bind (·.ownerId)))]

/-- `_policy_summary` -/
def policySummary (tool : ToolDefinition) (scope : Option PrincipalScope) : ToolPolicySummary :=
  let configured := tools.configured (scope.bind (·.ownerId)) tool.name
  let call := previewCall tool scope
  let default := tools.safetyPolicy.authorize tool call
  let effective := tools.safetyPolicy.authorize (effectiveDefinition tool configured) call
  { tool
    mode := if configured = some .deny then .deny else decisionMode effective
    defaultMode := decisionMode default
    configuredMode := configured
    blockedReason :=
      if !effective.allowed && !effective.requiresApproval then effective.reason else none }

/-- `list_tool_policies` over the definitions of the register. -/
def listToolPolicies (definitions : List ToolDefinition) (scope : Option PrincipalScope) :
    List ToolPolicySummary :=
  definitions.map fun tool => tools.policySummary tool scope

/-- `list_tools` -/
def listTools (definitions : List ToolDefinition) (scope : Option PrincipalScope) :
    List ToolDefinition :=
  (tools.listToolPolicies definitions scope).filterMap fun setting =>
    if setting.mode = .deny then none
    else some { effectiveDefinition setting.tool setting.configuredMode with
      requiresApproval := setting.mode = .ask }

/-! ### Execution -/

/-- The key that makes a repeated call idempotent is an argument of the tool's choice. -/
def withIdempotencyKey (tool : ToolDefinition) (call : ToolCall) (arguments : Dict) : Dict :=
  match tool.idempotencyKeyParameter, call.metadata.get "idempotency_key" with
  | some parameter, some (.str key) =>
    if key = "" then arguments else arguments.set parameter (.str key)
  | _, _ => arguments

/-- `execute`: the arguments the executor is invoked with, or the error raised before. -/
def execute (call : ToolCall) : Except Error Dict := do
  let name ← getToolName call
  let arguments ← tools.getArguments call
  let tool ← tools.getTool name
  let decision ← tools.authorize call
  if decision.allowed then
    return withIdempotencyKey tool call (tools.executionArguments tool call arguments)
  else throw (toolPolicyRejection name decision)

/-- The definition by which the tool is judged, under the stored mode. -/
def effective (owner : Option String) (tool : ToolDefinition) (name : String) : ToolDefinition :=
  effectiveDefinition tool (tools.configured owner name)

/-- What the preflight policy says of the call. -/
def preflightVerdict (owner : Option String) (name : String) (tool : ToolDefinition)
    (call : ToolCall) (arguments : Dict) : Option ToolSafetyDecision :=
  (tools.preflight? name).bind fun preflight =>
    preflight (tools.effective owner tool name) (tools.executionArguments tool call arguments)

/-- **What holds of a call whose executor is invoked**, for the owner, the tool and the arguments
it names. -/
structure Admits (call : ToolCall) (owner : Option String) (name : String) (tool : ToolDefinition)
    (arguments : Dict) : Prop where
  owned : ownerOf call = .ok owner
  named : call.toolName = some name
  read : tools.getArguments call = .ok arguments
  registered : tools.tool? name = some tool
  notDenied : tools.configured owner name ≠ some .deny
  notBlocked : ∀ permission ∈ tool.permissions,
    permission ∉ tools.safetyPolicy.blockedPermissions
  notRefused : ∀ verdict, tools.preflightVerdict owner name tool call arguments = some verdict →
    verdict.allowed = true ∨ verdict.requiresApproval = true
  notDecided : ∀ approval, call.approval = some approval →
    approval.toolCallId = call.toolCallId → approval.status ≠ .denied ∧ approval.status ≠ .expired
  approved : (tools.safetyPolicy.requiresApproval (tools.effective owner tool name) = true ∨
      ∃ verdict, tools.preflightVerdict owner name tool call arguments = some verdict ∧
        verdict.allowed = false) →
    BasicToolSafetyPolicy.approved call = true

end ToolManager

/-- The arguments that the manager sets itself for a tool that supports them. -/
def ToolDefinition.Controls (tool : ToolDefinition) (key : String) : Prop :=
  (key = "_execution_context" ∧
    (tool.metadata.get "supports_execution_context").any (·.truthy) = true) ∨
  (key = "_working_directory" ∧
    (tool.metadata.get "supports_working_directory").any (·.truthy) = true)

namespace ToolManager

variable {tools : ToolManager} {call : ToolCall}

@[simp] theorem permissions_effectiveDefinition (tool : ToolDefinition)
    (mode : Option ToolAccessMode) : (effectiveDefinition tool mode).permissions = tool.permissions := by
  rcases mode with _ | _ | _ | _ <;> rfl

@[simp] theorem name_effectiveDefinition (tool : ToolDefinition) (mode : Option ToolAccessMode) :
    (effectiveDefinition tool mode).name = tool.name := by
  rcases mode with _ | _ | _ | _ <;> rfl

/-- An allowed call is one the safety policy allows, by a definition that asks whenever the
effective one or the preflight policy does. -/
theorem allowed_authorizeTool {owner : Option String} {name : String} {tool : ToolDefinition}
    {arguments : Dict}
    (h : (tools.authorizeTool owner name tool arguments call).allowed = true) :
    tools.configured owner name ≠ some .deny ∧
      ∃ judged : ToolDefinition, judged.permissions = tool.permissions ∧
        (tools.safetyPolicy.authorize judged call).allowed = true ∧
        (tools.safetyPolicy.requiresApproval (tools.effective owner tool name) = true →
          tools.safetyPolicy.requiresApproval judged = true) ∧
        ∀ verdict, ((tools.preflight? name).bind fun preflight =>
            preflight (tools.effective owner tool name) arguments) = some verdict →
          verdict.allowed = true ∨ (verdict.requiresApproval = true ∧
            tools.safetyPolicy.requiresApproval judged = true) := by
  unfold authorizeTool at h
  by_cases hdeny : tools.configured owner name = some .deny
  · simp [hdeny] at h
  refine ⟨hdeny, ?_⟩
  simp only [if_neg hdeny] at h
  rcases hverdict : ((tools.preflight? name).bind fun preflight =>
      preflight (tools.effective owner tool name) arguments) with _ | verdict
  · have hverdict' : ((tools.preflight? name).bind fun preflight => preflight
        (effectiveDefinition tool (tools.configured owner name)) arguments) = none := hverdict
    rw [hverdict'] at h
    exact ⟨tools.effective owner tool name, permissions_effectiveDefinition .., h, id, nofun⟩
  · have hverdict' : ((tools.preflight? name).bind fun preflight => preflight
        (effectiveDefinition tool (tools.configured owner name)) arguments) = some verdict := hverdict
    rw [hverdict'] at h
    simp only at h
    by_cases hpass : verdict.allowed = true
    · rw [if_pos hpass] at h
      refine ⟨tools.effective owner tool name, permissions_effectiveDefinition .., h, id, ?_⟩
      rintro _ ⟨⟩
      exact Or.inl hpass
    · rw [if_neg hpass] at h
      by_cases hask : verdict.requiresApproval = true
      · -- The preflight policy asks: the tool is judged as one that requires an approval.
        simp only [hask, Bool.not_true, Bool.false_eq_true, if_false] at h
        refine ⟨effectiveDefinition (tools.effective owner tool name) (some .ask), ?_, h, ?_, ?_⟩
        · rw [permissions_effectiveDefinition]
          exact permissions_effectiveDefinition ..
        · exact fun _ => rfl
        · rintro _ ⟨⟩
          exact Or.inr ⟨hask, rfl⟩
      · simp only [Bool.not_eq_true _ ▸ hask, Bool.not_false, if_true] at h
        exact absurd h hpass

theorem execute_eq_ok {args : Dict} (h : tools.execute call = .ok args) :
    ∃ name tool arguments decision, call.toolName = some name ∧
      tools.getArguments call = .ok arguments ∧ tools.tool? name = some tool ∧
      tools.authorize call = .ok decision ∧ decision.allowed = true ∧
      args = withIdempotencyKey tool call (tools.executionArguments tool call arguments) := by
  obtain ⟨name, hname, h⟩ := exists_of_bind_eq_ok h
  obtain ⟨arguments, harguments, h⟩ := exists_of_bind_eq_ok h
  obtain ⟨tool, htool, h⟩ := exists_of_bind_eq_ok h
  obtain ⟨decision, hdecision, h⟩ := exists_of_bind_eq_ok h
  by_cases hallowed : decision.allowed = true
  · rw [if_pos hallowed] at h
    refine ⟨name, tool, arguments, decision, ?_, harguments, ?_, hdecision, hallowed,
      (Except.ok.inj h).symm⟩
    · unfold getToolName at hname
      split at hname
      · next found hfound => rw [hfound, Except.ok.inj hname]
      · cases hname
    · unfold getTool at htool
      split at htool
      · next found hfound => rw [hfound, Except.ok.inj htool]
      · cases htool
  · rw [if_neg hallowed] at h
    cases h

/-- **An executor is invoked for admitted calls only.** -/
theorem admits_of_execute {args : Dict} (h : tools.execute call = .ok args) :
    ∃ owner name tool arguments, tools.Admits call owner name tool arguments ∧
      args = withIdempotencyKey tool call (tools.executionArguments tool call arguments) := by
  obtain ⟨name, tool, arguments, decision, hname, hread, htool, hdecision, hallowed, hargs⟩ :=
    execute_eq_ok h
  obtain ⟨owner, name', arguments', tool', hname', hread', htool', howner, rfl⟩ :=
    authorize_eq_ok hdecision
  obtain rfl : name = name' := Option.some.inj (hname.symm.trans hname')
  obtain rfl : arguments = arguments' := Except.ok.inj (hread.symm.trans hread')
  obtain rfl : tool = tool' := Option.some.inj (htool.symm.trans htool')
  obtain ⟨hdeny, judged, hpermissions, hjudged, hmode, hpreflight⟩ := allowed_authorizeTool hallowed
  obtain ⟨hblocked, hdenied, hexpired, happroved⟩ :=
    BasicToolSafetyPolicy.authorize_allowed_iff.mp hjudged
  refine ⟨owner, name, tool, arguments, {
    owned := howner, named := hname, read := hread, registered := htool, notDenied := hdeny
    notBlocked := hpermissions ▸ hblocked
    notRefused := fun verdict hverdict => (hpreflight verdict hverdict).imp_right And.left
    notDecided := fun approval happroval hid => ⟨fun hstatus => ?_, fun hstatus => ?_⟩
    approved := fun hrequires => happroved ?_ }, hargs⟩
  · simp [BasicToolSafetyPolicy.hasApproval, happroval, hid, hstatus] at hdenied
  · simp [BasicToolSafetyPolicy.hasApproval, happroval, hid, hstatus] at hexpired
  · rcases hrequires with hrequires | ⟨verdict, hverdict, hnot⟩
    · exact hmode hrequires
    · rcases hpreflight verdict hverdict with hpass | ⟨-, hask⟩
      · rw [hnot] at hpass
        cases hpass
      · exact hask

/-- **The manager's own arguments.** What stands under a key the manager controls does not depend
on the arguments of the call. -/
theorem get_of_controls {tool : ToolDefinition} {key : String} (hkey : tool.Controls key)
    {other : ToolCall} (hid : other.toolCallId = call.toolCallId)
    (hmetadata : other.metadata = call.metadata) (arguments arguments' : Dict) :
    (withIdempotencyKey tool other (tools.executionArguments tool other arguments')).get key =
      (withIdempotencyKey tool call (tools.executionArguments tool call arguments)).get key := by
  have hbase : (tools.executionArguments tool other arguments').get key =
      (tools.executionArguments tool call arguments).get key := by
    rcases hkey with ⟨rfl, hcontext⟩ | ⟨rfl, hdirectory⟩
    · have hne : ("_execution_context" : String) ≠ "_idempotency_key" := by decide
      have hne' : ("_execution_context" : String) ≠ "_working_directory" := by decide
      simp only [executionArguments, hcontext, if_true, hid, hmetadata]
      split_ifs <;> simp only [Dict.get_set_of_ne _ _ hne', Dict.get_erase_of_ne _ hne',
        Dict.get_erase_of_ne _ hne, Dict.get_set_self]
    · simp only [executionArguments, hdirectory, if_true, hmetadata]
      by_cases hnone : (call.metadata.get "working_directory").getD .none ≠ .none
      · simp only [if_pos hnone, Dict.get_set_self]
      · simp only [if_neg hnone, Dict.get_erase_self]
  unfold withIdempotencyKey
  rw [hmetadata]
  split
  · next parameter value _ _ =>
    split
    · exact hbase
    · by_cases hsame : key = parameter
      · rw [hsame, Dict.get_set_self, Dict.get_set_self]
      · rw [Dict.get_set_of_ne _ _ hsame, Dict.get_set_of_ne _ _ hsame, hbase]
  · exact hbase

/-- A tool that the catalog leaves out is denied or has a blocked permission. -/
theorem denied_or_blocked_of_not_listed {definitions : List ToolDefinition}
    {scope : Option PrincipalScope} {tool : ToolDefinition} (hmem : tool ∈ definitions)
    (h : ∀ listed ∈ tools.listTools definitions scope, listed.name ≠ tool.name) :
    tools.configured (scope.bind (·.ownerId)) tool.name = some .deny ∨
      ∃ permission ∈ tool.permissions, permission ∈ tools.safetyPolicy.blockedPermissions := by
  have hmode : (tools.policySummary tool scope).mode = .deny := by
    by_contra hmode
    refine h _ (List.mem_filterMap.mpr ⟨tools.policySummary tool scope,
      List.mem_map.mpr ⟨tool, hmem, rfl⟩, if_neg hmode⟩) ?_
    exact name_effectiveDefinition tool _
  by_cases hdeny : tools.configured (scope.bind (·.ownerId)) tool.name = some .deny
  · exact Or.inl hdeny
  · right
    simp only [policySummary, if_neg hdeny, decisionMode] at hmode
    split_ifs at hmode with hallowed hrequires
    have hnone : (previewCall tool scope).approval = none := rfl
    obtain ⟨permission, hpermission, hblocked⟩ := BasicToolSafetyPolicy.blocked_of_authorize hnone
      (Bool.not_eq_true _ ▸ hallowed) (Bool.not_eq_true _ ▸ hrequires)
    exact ⟨permission, permissions_effectiveDefinition tool _ ▸ hpermission, hblocked⟩

end ToolManager

/-- With an approval of its own a call of a writing tool is executed, in the directory of its
metadata and not in the one the model asks for. -/
example : (ToolRegister.manager
      { tools := Table.upsert { name := "save", permissions := [.write]
                                metadata := [("supports_working_directory", .bool true)] } ∅
        executors := ["save"] } {} (fun _ _ => none)
      (fun _ => some [("_working_directory", .str "/etc")]) (fun _ => "{}")).execute
    { toolCallId := "t", toolCall := [("name", .str "save"), ("arguments", .other "{…}")]
      approval := some { approvalId := "t:approval", toolCallId := "t", status := .approved }
      metadata := [("working_directory", .str "/workspace")] } =
    .ok [("_working_directory", .str "/workspace")] := by decide

end EvernightAI
