import EvernightAI.Schema.Tool
import Mathlib.Data.List.Sort

/-!
# The tool manager

`ToolManager` asks three parties whether a call may run: the owner's tool policy, the preflight
policy of the tool, and the safety policy. Only the safety policy looks at the call's approval, and
only `execute` hands a call to an executor, after it has asked all three again.

The executors are not part of the model. What the manager reads in a nested object of a call
(`arguments`) it reads through `parseObject`.
-/

namespace EvernightAI

def ToolPermission.value : ToolPermission → String
  | .read => "read"
  | .write => "write"
  | .process => "process"
  | .network => "network"
  | .filesystem => "filesystem"
  | .shell => "shell"
  | .database => "database"
  | .externalApi => "external_api"
  | .destructive => "destructive"

def ToolApprovalStatus.value : ToolApprovalStatus → String
  | .requested => "requested"
  | .approved => "approved"
  | .denied => "denied"
  | .expired => "expired"

/-- `text or fallback` for an optional text. -/
def textOr (text : Option String) (fallback : String) : String :=
  match text with
  | some text => if text = "" then fallback else text
  | none => fallback

/-! ### The safety policy -/

/-- `BasicToolSafetyPolicy`, by its two sets of permissions. -/
structure BasicToolSafetyPolicy where
  blockedPermissions : List ToolPermission := [.shell, .destructive]
  approvalRequiredPermissions : List ToolPermission :=
    [.write, .process, .network, .database, .externalApi]

namespace BasicToolSafetyPolicy

variable (policy : BasicToolSafetyPolicy) (tool : ToolDefinition) (call : ToolCall)

/-- `_format_permissions` -/
def formatPermissions (permissions : List ToolPermission) : String :=
  String.intercalate ", " ((permissions.map (·.value)).insertionSort (· ≤ ·))

/-- The directory an approval names for a tool that works in one. -/
def approvalMetadata : Dict :=
  match call.metadata.get "working_directory" with
  | some directory =>
    if ((tool.metadata.get "supports_working_directory").any (·.truthy)) ∧ directory ≠ .none then
      [("working_directory", directory)]
    else []
  | none => []

/-- `_approval_request` -/
def approvalRequest : ToolApprovalRequest where
  approvalId := call.toolCallId ++ ":approval"
  toolCallId := call.toolCallId
  toolName := tool.name
  toolCall := call.toolCall
  permissions := tool.permissions
  safetyLevel := tool.safetyLevel
  reason := some "Tool call requires approval"
  metadata := approvalMetadata tool call

/-- The tool may only run with an approval. -/
def requiresApproval : Bool :=
  match tool.approvalMode with
  | .required => true
  | .never => false
  | .auto => tool.requiresApproval || tool.safetyLevel ≠ .safe ||
      tool.permissions.any (policy.approvalRequiredPermissions.contains ·)

/-- The call's approval, when it is for this call and has the status. -/
def hasApproval (status : ToolApprovalStatus) : Bool :=
  call.approval.any fun approval =>
    approval.toolCallId = call.toolCallId && approval.status = status

def approved : Bool :=
  hasApproval call .approved || call.metadata.get "approved" = some (.bool true)

/-- `authorize` -/
def authorize : ToolSafetyDecision :=
  let blocked := tool.permissions.dedup.filter (policy.blockedPermissions.contains ·)
  let request := approvalRequest tool call
  if blocked ≠ [] then {
    allowed := false, reason := some ("Blocked permissions: " ++ formatPermissions blocked) }
  else
    match call.approval with
    | some approval =>
      let refusal := textOr approval.reason ("Tool approval " ++ approval.status.value)
      if hasApproval call .denied || hasApproval call .expired then {
        allowed := false, reason := some refusal, requiresApproval := true,
        approvalRequest := some request }
      else if policy.requiresApproval tool && !approved call then {
        allowed := false, reason := some refusal, requiresApproval := true,
        approvalRequest := some request
        metadata := [("approval_status", .str approval.status.value),
          ("approval_id", .str approval.approvalId)] }
      else {
        allowed := true
        requiresApproval := policy.requiresApproval tool
        approvalRequest := if policy.requiresApproval tool then some request else none
        metadata := [("policy", .str "BasicToolSafetyPolicy"), ("approved", .bool (approved call)),
          ("approval_id", .str approval.approvalId)] }
    | none =>
      if policy.requiresApproval tool && !approved call then {
        allowed := false, reason := some "Tool call requires approval"
        metadata := approvalMetadata tool call
        requiresApproval := true, approvalRequest := some request }
      else {
        allowed := true
        requiresApproval := policy.requiresApproval tool
        approvalRequest := if policy.requiresApproval tool then some request else none
        metadata := [("policy", .str "BasicToolSafetyPolicy"), ("approved", .bool (approved call)),
          ("approval_id", .none)] }

variable {policy tool call}

/-- **Approvals are asked of the tool, not of the call.** What the policy asks an approval for, it
allows with an approval of that very call only. -/
theorem approved_of_authorize (hasks : (policy.authorize tool { call with approval := none }).allowed
      = false)
    (hallowed : (policy.authorize tool call).allowed = true) : approved call = true := by
  by_contra hnot
  have hfalse : approved call = false := by simpa using hnot
  have hnone : approved { call with approval := none } = false := by
    have hmetadata : call.metadata.get "approved" ≠ some (.bool true) := by
      intro h
      simp [approved, h] at hfalse
    simp [approved, hasApproval, hmetadata]
  unfold authorize at hasks hallowed
  by_cases hblocked : tool.permissions.dedup.filter (policy.blockedPermissions.contains ·) ≠ []
  · simp only [if_pos hblocked, Bool.false_eq_true] at hallowed
  · simp only [if_neg hblocked, hfalse, hnone, Bool.not_false, Bool.and_true] at hasks hallowed
    -- Both sides now depend on the tool alone, apart from a refused approval.
    cases hrequires : policy.requiresApproval tool with
    | false => simp [hrequires] at hasks
    | true =>
      simp only [hrequires, if_true] at hallowed
      split at hallowed
      · split at hallowed <;> simp at hallowed
      · simp at hallowed

end BasicToolSafetyPolicy

/-! ### The manager -/

structure ToolManager where
  /-- The tools that have a definition and an executor. -/
  tool? : String → Option ToolDefinition
  safetyPolicy : BasicToolSafetyPolicy := {}
  /-- The policy store: what an owner configured for a tool. -/
  configured : Option String → String → Option ToolAccessMode := fun _ _ => none
  preflight? : String → Option (ToolDefinition → Dict → Option ToolSafetyDecision) := fun _ => none
  /-- A nested object read back from its text, `none` when the value is no object. -/
  parseObject : String → Option Dict := fun _ => none
  /-- The text of a nested object. -/
  objectText : Dict → String := fun _ => "{}"

/-- `_tool_name` of the agent -/
def ToolCall.toolName (call : ToolCall) : Option String :=
  let named : Option Value :=
    match call.toolCall.get "tool_name" with
    | some value => if value.truthy then some value else call.toolCall.get "name"
    | none => call.toolCall.get "name"
  match named with
  | some (.str name) => if name = "" then none else some name
  | _ => none

/-- `tool_policy_rejection` -/
def toolPolicyRejection (toolName : String) (decision : ToolSafetyDecision) : Error where
  errorType := .other "ToolPolicyError"
  message := "The tool " ++ toolName ++ " call was rejected by policy"
  detail := decision.reason

namespace ToolManager

variable (tools : ToolManager)

/-- `_get_tool_name` -/
def getToolName (call : ToolCall) : Except Error String :=
  match call.toolName with
  | some name => .ok name
  | none => .error {
      errorType := .other "ToolInputError", message := "The tool call must include a tool name" }

/-- `_get_arguments` -/
def getArguments (call : ToolCall) : Except Error Dict :=
  match (call.toolCall.get "arguments").orElse fun _ => call.toolCall.get "args" with
  | none => .ok []
  | some value =>
    match (match value with | .other json => tools.parseObject json | _ => none) with
    | some arguments => .ok arguments
    | none => .error {
        errorType := .other "ToolInputError"
        message := "The tool call arguments must be a dictionary" }

/-- `register.get` -/
def getTool (name : String) : Except Error ToolDefinition :=
  match tools.tool? name with
  | some tool => .ok tool
  | none => .error {
      errorType := .toolNotFoundError, message := "The tool " ++ name ++ " is not found" }

/-- `_execution_arguments` for the tool of the call. -/
def executionArguments (tool : ToolDefinition) (call : ToolCall) (arguments : Dict) : Dict :=
  let metadata (key : String) : Value := (call.metadata.get key).getD .none
  let arguments :=
    if (tool.metadata.get "supports_execution_context").any (·.truthy) then
      (arguments.set "_execution_context" (.other (tools.objectText [
        ("owner_id", metadata "owner_id"), ("session_id", metadata "session_id"),
        ("run_id", metadata "run_id"), ("tool_call_id", .str call.toolCallId)]))).erase
        "_idempotency_key"
    else arguments
  if (tool.metadata.get "supports_working_directory").any (·.truthy) then
    let arguments := arguments.erase "_working_directory"
    if metadata "working_directory" ≠ .none then
      arguments.set "_working_directory" (metadata "working_directory")
    else arguments
  else arguments

/-- `PrincipalScope(owner_id=…)`: the owner a call is made for, which must be a text. -/
def ownerOf (call : ToolCall) : Except Error (Option String) :=
  match call.metadata.get "owner_id" with
  | some (.str owner) => .ok (some owner)
  | some .none | none => .ok none
  | some _ => .error {
      errorType := .validationError, message := "Input should be a valid string" }

/-- `_effective_definition` -/
def effectiveDefinition (tool : ToolDefinition) : Option ToolAccessMode → ToolDefinition
  | some .allow => { tool with approvalMode := .never, requiresApproval := false }
  | some .ask => { tool with approvalMode := .required, requiresApproval := true }
  | _ => tool

/-- The part of `authorize` after the tool is found, its arguments and the owner are read. -/
def authorizeTool (owner : Option String) (name : String) (tool : ToolDefinition)
    (arguments : Dict) (call : ToolCall) : ToolSafetyDecision :=
  let mode := tools.configured owner name
  if mode = some .deny then {
    allowed := false, reason := some "Tool is disabled by your tool policy" }
  else
    let tool := effectiveDefinition tool mode
    match (tools.preflight? name).bind fun preflight => preflight tool arguments with
    | some refusal =>
      if refusal.allowed then tools.safetyPolicy.authorize tool call
      else if !refusal.requiresApproval then refusal
      else
        let decision := tools.safetyPolicy.authorize (effectiveDefinition tool (some .ask)) call
        { decision with
          approvalRequest := decision.approvalRequest.map fun request => { request with
            reason := refusal.reason, metadata := request.metadata.update refusal.metadata }
          reason :=
            if !decision.allowed && decision.requiresApproval &&
                call.approval.all (·.status = .requested) then refusal.reason
            else decision.reason }
    | none => tools.safetyPolicy.authorize tool call

/-- `authorize` -/
def authorize (call : ToolCall) : Except Error ToolSafetyDecision := do
  let name ← getToolName call
  let arguments ← tools.getArguments call
  let tool ← tools.getTool name
  let owner ← ownerOf call
  return tools.authorizeTool owner name tool (tools.executionArguments tool call arguments) call

/-- `execute` up to the call of the executor: the error, when it is not reached. -/
def refuse? (call : ToolCall) : Option Error :=
  match tools.authorize call with
  | .error e => some e
  | .ok decision =>
    if decision.allowed then none
    else some (toolPolicyRejection (call.toolName.getD "") decision)

/-- The manager asks for an approval before this call runs: without one it is not allowed, and the
refusal requires an approval. -/
def asksApproval (call : ToolCall) : Bool :=
  match tools.authorize { call with approval := none } with
  | .ok decision => decision.requiresApproval && !decision.allowed
  | .error _ => false

variable {tools} {call : ToolCall}

theorem authorize_eq_ok {decision : ToolSafetyDecision} (h : tools.authorize call = .ok decision) :
    ∃ owner name arguments tool, call.toolName = some name ∧
      tools.getArguments call = .ok arguments ∧ tools.tool? name = some tool ∧
      ownerOf call = .ok owner ∧ decision = tools.authorizeTool owner name tool
        (tools.executionArguments tool call arguments) call := by
  obtain ⟨name, hname, h⟩ := exists_of_bind_eq_ok h
  obtain ⟨arguments, harguments, h⟩ := exists_of_bind_eq_ok h
  obtain ⟨tool, htool, h⟩ := exists_of_bind_eq_ok h
  obtain ⟨owner, howner, h⟩ := exists_of_bind_eq_ok h
  refine ⟨owner, name, arguments, tool, ?_, harguments, ?_, howner, (Except.ok.inj h).symm⟩
  · unfold getToolName at hname
    split at hname
    · next found hfound => rw [hfound, Except.ok.inj hname]
    · cases hname
  · unfold getTool at htool
    split at htool
    · next found hfound => rw [hfound, Except.ok.inj htool]
    · cases htool

/-- **An executor is reached with an approval.** A call an approval is asked for is handed to its
executor only when it carries one that is APPROVED and names this call — or the mark `approved`
in its metadata. -/
theorem approved_of_refuse?_eq_none (hasks : tools.asksApproval call = true)
    (hreached : tools.refuse? call = none) : BasicToolSafetyPolicy.approved call = true := by
  unfold asksApproval at hasks
  unfold refuse? at hreached
  split at hasks
  case h_2 => cases hasks
  next asked hasked =>
  split at hreached
  case h_1 => cases hreached
  next granted hgranted =>
  obtain ⟨owner, name, arguments, tool, hname, harguments, htool, howner, rfl⟩ :=
    authorize_eq_ok hgranted
  obtain ⟨owner', name', arguments', tool', hname', harguments', htool', howner', rfl⟩ :=
    authorize_eq_ok hasked
  -- Neither the name, the arguments nor the owner of the call depend on its approval.
  obtain rfl : owner = owner' := Except.ok.inj (howner.symm.trans howner')
  obtain rfl : name = name' := Option.some.inj (hname.symm.trans hname')
  obtain rfl : arguments = arguments' := Except.ok.inj (harguments.symm.trans harguments')
  obtain rfl : tool = tool' := Option.some.inj (htool.symm.trans htool')
  have hallowed : (tools.authorizeTool owner name tool
      (tools.executionArguments tool call arguments) call).allowed = true := by
    by_contra hnot
    rw [if_neg hnot] at hreached
    cases hreached
  have hdenied := (Bool.and_eq_true_iff.mp hasks)
  have harg : tools.executionArguments tool { call with approval := none } arguments
      = tools.executionArguments tool call arguments := rfl
  rw [harg] at hdenied
  unfold authorizeTool at hallowed hdenied
  by_cases hdeny : tools.configured owner name = some .deny
  · simp [hdeny] at hallowed
  · simp only [if_neg hdeny] at hallowed hdenied
    split at hallowed
    · next refusal hrefusal =>
      simp only [hrefusal] at hdenied
      by_cases hpass : refusal.allowed = true
      · simp only [if_pos hpass] at hallowed hdenied
        exact BasicToolSafetyPolicy.approved_of_authorize (by simpa using hdenied.2) hallowed
      · simp only [if_neg hpass] at hallowed hdenied
        by_cases hask : (!refusal.requiresApproval) = true
        · simp only [if_pos hask] at hallowed
          exact absurd hallowed hpass
        · simp only [if_neg hask] at hallowed hdenied
          exact BasicToolSafetyPolicy.approved_of_authorize (by simpa using hdenied.2) hallowed
    · next hrefusal =>
      simp only [hrefusal] at hdenied
      exact BasicToolSafetyPolicy.approved_of_authorize (by simpa using hdenied.2) hallowed

/-- The idempotency key is no part of what is authorized. -/
theorem authorize_set_metadata (key : String) (value : Value) (call : ToolCall)
    (hkey : key ∉ ["owner_id", "session_id", "run_id", "working_directory", "approved"]) :
    tools.authorize { call with metadata := call.metadata.set key value } = tools.authorize call := by
  simp only [List.mem_cons, List.not_mem_nil, or_false, not_or] at hkey
  obtain ⟨howner, hsession, hrun, hdirectory, happroved⟩ := hkey
  have hget : ∀ {k : String}, ¬key = k → (call.metadata.set key value).get k = call.metadata.get k :=
    fun h => Dict.get_set_of_ne _ _ (Ne.symm h)
  have hsafety : ∀ tool, tools.safetyPolicy.authorize tool
      { call with metadata := call.metadata.set key value }
        = tools.safetyPolicy.authorize tool call := fun tool => by
    have happ : BasicToolSafetyPolicy.approved
        { call with metadata := call.metadata.set key value }
          = BasicToolSafetyPolicy.approved call := by
      rw [BasicToolSafetyPolicy.approved, BasicToolSafetyPolicy.approved, hget happroved]
      rfl
    have hmeta : BasicToolSafetyPolicy.approvalMetadata tool
        { call with metadata := call.metadata.set key value }
          = BasicToolSafetyPolicy.approvalMetadata tool call := by
      rw [BasicToolSafetyPolicy.approvalMetadata, hget hdirectory]
      rfl
    unfold BasicToolSafetyPolicy.authorize BasicToolSafetyPolicy.approvalRequest
    rw [happ, hmeta]
    rfl
  have harguments : ∀ tool arguments, tools.executionArguments tool
      { call with metadata := call.metadata.set key value } arguments
        = tools.executionArguments tool call arguments := fun tool arguments => by
    simp only [executionArguments, hget howner, hget hsession, hget hrun, hget hdirectory]
  have hownerOf : ownerOf { call with metadata := call.metadata.set key value } = ownerOf call := by
    rw [ownerOf, hget howner]
    rfl
  unfold authorize
  simp only [harguments, authorizeTool, hsafety, hownerOf]
  rfl

end ToolManager

end EvernightAI
