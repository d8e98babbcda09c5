import EvernightAI.Agent.Schema
import EvernightAI.Tool.Manager

/-!
# Approvals of a run

A run keeps the decisions it was given in its request, each with the tool round it is for. Before
the safety policy sees a call of a response, the call is *prepared*: its `approval` is replaced by
the run's own decision for the current round, the mark `approved` is taken out of its metadata, and
the run writes its owner, directory, session and id there. What a response says about the approval
of its own calls is gone by then.
-/

namespace EvernightAI

/-- `approval.tool_round or 1`: a decision without a round comes with the run request, for its first
response. -/
def ToolApprovalDecision.round (approval : ToolApprovalDecision) : Nat :=
  match approval.toolRound with
  | some toolRound => if toolRound = 0 then 1 else toolRound
  | none => 1

/-- The decision as it is kept for a round. -/
def ToolApprovalDecision.forRound (approval : ToolApprovalDecision) (toolRound : Nat) :
    ToolApprovalDecision := { approval with toolRound }

/-- `_round_tool_approvals(approvals, toolRound).get(toolCallId)`: a later decision replaces an
earlier one. -/
def roundToolApproval (approvals : List ToolApprovalDecision) (toolRound : Nat)
    (toolCallId : String) : Option ToolApprovalDecision :=
  (approvals.filter (·.round = toolRound)).reverse.find? (·.toolCallId = toolCallId)

/-- The dictionary of `_merge_tool_approvals`, in insertion order. -/
private abbrev ApprovalDict := List ((Nat × String) × ToolApprovalDecision)

private def setApproval (key : Nat × String) (approval : ToolApprovalDecision) :
    ApprovalDict → ApprovalDict
  | [] => [(key, approval)]
  | (k, a) :: rest => if k = key then (k, approval) :: rest else (k, a) :: setApproval key approval rest

/-- `_merge_tool_approvals`: the new decisions are for the given round, whatever they name. -/
def mergeToolApprovals (existing new : List ToolApprovalDecision) (toolRound : Nat) :
    List ToolApprovalDecision :=
  let approvals := existing.foldl
    (fun approvals a => setApproval (a.round, a.toolCallId) a approvals) []
  (new.foldl (fun approvals a => setApproval (toolRound, a.toolCallId) (a.forRound toolRound) approvals)
    approvals).map (·.2)

theorem roundToolApproval_eq_some {approvals : List ToolApprovalDecision} {toolRound : Nat}
    {toolCallId : String} {approval : ToolApprovalDecision}
    (h : roundToolApproval approvals toolRound toolCallId = some approval) :
    approval ∈ approvals ∧ approval.round = toolRound ∧ approval.toolCallId = toolCallId := by
  have hmem := List.mem_of_find?_eq_some h
  rw [List.mem_reverse, List.mem_filter] at hmem
  exact ⟨hmem.1, by simpa using hmem.2, by simpa using List.find?_some h⟩

/-! ### What a merge keeps -/

/-- The keys of the dictionary are its decisions' own, and no key is there twice. -/
private structure WellKeyed (approvals : ApprovalDict) : Prop where
  own : ∀ entry ∈ approvals, entry.1 = (entry.2.round, entry.2.toolCallId)
  nodup : (approvals.map (·.1)).Nodup

private theorem mem_setApproval {key : Nat × String} {approval : ToolApprovalDecision}
    {approvals : ApprovalDict} (hnodup : (approvals.map (·.1)).Nodup)
    {entry : (Nat × String) × ToolApprovalDecision} :
    entry ∈ setApproval key approval approvals ↔
      entry = (key, approval) ∨ entry ∈ approvals ∧ entry.1 ≠ key := by
  induction approvals with
  | nil => simp [setApproval]
  | cons kv rest ih =>
    obtain ⟨k, a⟩ := kv
    rw [List.map_cons, List.nodup_cons] at hnodup
    unfold setApproval
    split
    · next hk =>
      subst hk
      have hrest : ∀ other ∈ rest, other.1 ≠ k := by
        intro other hother hkey
        exact hnodup.1 (List.mem_map.mpr ⟨other, hother, hkey⟩)
      constructor
      · intro he
        rcases List.mem_cons.mp he with rfl | he
        · exact Or.inl rfl
        · exact Or.inr ⟨List.mem_cons_of_mem _ he, hrest _ he⟩
      · rintro (rfl | ⟨he, hne⟩)
        · exact List.mem_cons_self ..
        · rcases List.mem_cons.mp he with rfl | he
          · exact absurd rfl hne
          · exact List.mem_cons_of_mem _ he
    · next hk =>
      rw [List.mem_cons, ih hnodup.2, List.mem_cons]
      constructor
      · rintro (rfl | rfl | ⟨he, hne⟩)
        · exact Or.inr ⟨Or.inl rfl, hk⟩
        · exact Or.inl rfl
        · exact Or.inr ⟨Or.inr he, hne⟩
      · rintro (rfl | ⟨rfl | he, hne⟩)
        · exact Or.inr (Or.inl rfl)
        · exact Or.inl rfl
        · exact Or.inr (Or.inr ⟨he, hne⟩)

private theorem keys_setApproval (key : Nat × String) (approval : ToolApprovalDecision)
    (approvals : ApprovalDict) : (setApproval key approval approvals).map (·.1) =
      if key ∈ approvals.map (·.1) then approvals.map (·.1) else approvals.map (·.1) ++ [key] := by
  induction approvals with
  | nil => rfl
  | cons kv rest ih =>
    obtain ⟨k, a⟩ := kv
    unfold setApproval
    by_cases hk : k = key
    · simp [hk]
    · have hne : ¬key = k := fun e => hk e.symm
      rw [if_neg hk, List.map_cons, ih, List.map_cons]
      by_cases hmem : key ∈ rest.map (·.1)
      · simp [hmem]
      · simp [hmem, hne]

private theorem wellKeyed_setApproval {key : Nat × String} {approval : ToolApprovalDecision}
    {approvals : ApprovalDict} (h : WellKeyed approvals)
    (hkey : key = (approval.round, approval.toolCallId)) :
    WellKeyed (setApproval key approval approvals) := by
  refine ⟨fun entry hentry => ?_, ?_⟩
  · rcases (mem_setApproval h.nodup).mp hentry with rfl | ⟨hentry, -⟩
    · exact hkey
    · exact h.own entry hentry
  · rw [keys_setApproval]
    split
    · exact h.nodup
    · next hmem =>
      have hdisjoint : List.Disjoint (approvals.map (·.1)) [key] := by
        simpa [List.disjoint_singleton] using hmem
      exact List.Nodup.append h.nodup (List.nodup_singleton _) hdisjoint

/-- In a well keyed dictionary, the decision in force for a round and a call is its entry. -/
private theorem roundToolApproval_eq_some_iff {approvals : ApprovalDict} (h : WellKeyed approvals)
    {toolRound : Nat} {toolCallId : String} {approval : ToolApprovalDecision} :
    roundToolApproval (approvals.map (·.2)) toolRound toolCallId = some approval ↔
      ((toolRound, toolCallId), approval) ∈ approvals := by
  have hunique : ∀ {e e' : (Nat × String) × ToolApprovalDecision}, e ∈ approvals →
      e' ∈ approvals → e.1 = e'.1 → e = e' := fun he he' hkey =>
    List.inj_on_of_nodup_map h.nodup he he' hkey
  have hown : ∀ {key : Nat × String} {a : ToolApprovalDecision}, (key, a) ∈ approvals →
      key = (a.round, a.toolCallId) := fun hmem => h.own _ hmem
  constructor
  · intro hfind
    obtain ⟨hmem, hround, hid⟩ := roundToolApproval_eq_some hfind
    obtain ⟨⟨key, a⟩, hentry, rfl⟩ := List.mem_map.mp hmem
    have hkey := hown hentry
    rw [hround, hid] at hkey
    exact hkey ▸ hentry
  · intro hentry
    have hkey := hown hentry
    obtain ⟨hround, hid⟩ := Prod.mk.inj hkey
    cases hfind : roundToolApproval (approvals.map (·.2)) toolRound toolCallId with
    | none =>
      have hnone := List.find?_eq_none.mp hfind approval (by
        rw [List.mem_reverse, List.mem_filter]
        exact ⟨List.mem_map.mpr ⟨_, hentry, rfl⟩, by simpa using hround.symm⟩)
      exact absurd hid.symm (by simpa using hnone)
    | some found =>
      obtain ⟨hmem, hround', hid'⟩ := roundToolApproval_eq_some hfind
      obtain ⟨⟨key, a⟩, hentry', rfl⟩ := List.mem_map.mp hmem
      have hkey' := hown hentry'
      rw [hround', hid'] at hkey'
      have heq := hunique hentry hentry' hkey'.symm
      exact congrArg some (congrArg Prod.snd heq).symm

private theorem wellKeyed_foldl (l : List ToolApprovalDecision)
    (key : ToolApprovalDecision → Nat × String)
    (value : ToolApprovalDecision → ToolApprovalDecision)
    (hkey : ∀ a, key a = ((value a).round, (value a).toolCallId)) {approvals : ApprovalDict}
    (h : WellKeyed approvals) :
    WellKeyed (l.foldl (fun approvals a => setApproval (key a) (value a) approvals) approvals) := by
  induction l generalizing approvals with
  | nil => exact h
  | cons a l ih => exact ih (wellKeyed_setApproval h (hkey a))

/-- What a fold of insertions leaves under a key is the last insertion under it, or what was there. -/
private theorem mem_foldl_setApproval {l : List ToolApprovalDecision}
    {key : ToolApprovalDecision → Nat × String}
    {value : ToolApprovalDecision → ToolApprovalDecision}
    (hkey : ∀ a, key a = ((value a).round, (value a).toolCallId)) {approvals : ApprovalDict}
    (h : WellKeyed approvals) {entry : (Nat × String) × ToolApprovalDecision} :
    entry ∈ l.foldl (fun approvals a => setApproval (key a) (value a) approvals) approvals ↔
      match l.reverse.find? (key · = entry.1) with
      | some a => entry.2 = value a
      | none => entry ∈ approvals := by
  induction l generalizing approvals with
  | nil => rfl
  | cons a l ih =>
    rw [List.foldl_cons, ih (wellKeyed_setApproval h (hkey a)), List.reverse_cons,
      List.find?_append]
    cases hfind : l.reverse.find? (key · = entry.1) with
    | some b => rfl
    | none =>
      simp only [Option.none_or, List.find?_singleton]
      rw [mem_setApproval h.nodup]
      by_cases hentry : key a = entry.1
      · simp only [hentry, decide_true, if_true, ne_eq, not_true_eq_false, and_false, or_false]
        constructor
        · intro heq; exact congrArg Prod.snd heq
        · intro hvalue; exact Prod.ext rfl hvalue
      · have hne : entry ≠ (key a, value a) := fun e => hentry (by rw [e])
        have hne' : entry.1 ≠ key a := fun e => hentry e.symm
        simp [hentry, hne, hne']

private theorem wellKeyed_nil : WellKeyed [] := ⟨fun _ h => absurd h List.not_mem_nil, List.nodup_nil⟩

/-- A decision of a merge is an old one, or a new one kept for the round. -/
theorem mem_mergeToolApprovals {existing new : List ToolApprovalDecision} {toolRound : Nat}
    {approval : ToolApprovalDecision} (h : approval ∈ mergeToolApprovals existing new toolRound) :
    approval ∈ existing ∨ ∃ a ∈ new, approval = a.forRound toolRound := by
  have hset : ∀ {key : Nat × String} {value : ToolApprovalDecision} {approvals : ApprovalDict}
      {entry : (Nat × String) × ToolApprovalDecision}, entry ∈ setApproval key value approvals →
      entry.2 = value ∨ entry ∈ approvals := by
    intro key value approvals
    induction approvals with
    | nil => intro entry hentry; exact Or.inl (by rw [List.mem_singleton.mp hentry])
    | cons kv rest ih =>
      obtain ⟨k, a⟩ := kv
      intro entry hentry
      unfold setApproval at hentry
      split at hentry
      · rcases List.mem_cons.mp hentry with rfl | hentry
        · exact Or.inl rfl
        · exact Or.inr (List.mem_cons_of_mem _ hentry)
      · rcases List.mem_cons.mp hentry with rfl | hentry
        · exact Or.inr (List.mem_cons_self ..)
        · exact (ih hentry).imp_right (List.mem_cons_of_mem _)
  have hfold : ∀ (l : List ToolApprovalDecision) (key : ToolApprovalDecision → Nat × String)
      (value : ToolApprovalDecision → ToolApprovalDecision) (approvals : ApprovalDict)
      (entry : (Nat × String) × ToolApprovalDecision),
      entry ∈ l.foldl (fun approvals a => setApproval (key a) (value a) approvals) approvals →
      (∃ a ∈ l, entry.2 = value a) ∨ entry ∈ approvals := by
    intro l key value
    induction l with
    | nil => exact fun _ _ h => Or.inr h
    | cons a l ih =>
      intro approvals entry hentry
      rcases ih _ _ hentry with ⟨b, hb, hvalue⟩ | hentry
      · exact Or.inl ⟨b, List.mem_cons_of_mem _ hb, hvalue⟩
      · exact (hset hentry).imp_left fun hvalue => ⟨a, List.mem_cons_self .., hvalue⟩
  obtain ⟨entry, hentry, rfl⟩ := List.mem_map.mp h
  rcases hfold _ _ _ _ _ hentry with ⟨a, ha, hvalue⟩ | hentry
  · exact Or.inr ⟨a, ha, hvalue⟩
  · rcases hfold _ _ (fun a => a) _ _ hentry with ⟨a, ha, hvalue⟩ | hentry
    · exact Or.inl (hvalue ▸ ha)
    · exact absurd hentry List.not_mem_nil

/-! ### Preparing a call -/

/-- `_apply_tool_approval` -/
def ToolCall.applyToolApproval (call : ToolCall) (approval : Option ToolApprovalDecision) :
    ToolCall :=
  { call with approval, metadata := call.metadata.erase "approved" }

namespace AgentRunState

variable (state : AgentRunState)

/-- What the run writes into the metadata of a call before it authorizes it. -/
def bindToolCall (call : ToolCall) : ToolCall :=
  { call with
    metadata := (((call.metadata.set "working_directory" (.ofText state.request.workingDirectory)).set
      "owner_id" (.ofText state.ownerId)).set
      "session_id" ((state.request.metadata.get "session_id").getD .none)).set
      "run_id" (.str state.runId) }

/-- The decision of the current round on a call. The dictionary it is read from is built when the
loop is entered; neither the request nor the round changes before it is left. -/
def toolApproval (toolCallId : String) : Option ToolApprovalDecision :=
  roundToolApproval state.request.toolApprovals state.currentToolRound toolCallId

/-- The call as the loop authorizes and executes it. -/
def preparedCall (call : ToolCall) : ToolCall :=
  state.bindToolCall (call.applyToolApproval (state.toolApproval call.toolCallId))

@[simp] theorem toolCallId_preparedCall (call : ToolCall) :
    (state.preparedCall call).toolCallId = call.toolCallId := rfl

@[simp] theorem approval_preparedCall (call : ToolCall) :
    (state.preparedCall call).approval = state.toolApproval call.toolCallId := rfl

theorem approved_preparedCall (call : ToolCall) :
    (state.preparedCall call).metadata.get "approved" = none := by
  simp only [preparedCall, bindToolCall, ToolCall.applyToolApproval]
  rw [Dict.get_set_of_ne _ _ (by decide), Dict.get_set_of_ne _ _ (by decide),
    Dict.get_set_of_ne _ _ (by decide), Dict.get_set_of_ne _ _ (by decide), Dict.get_erase_self]

end AgentRunState

/-! ### The decision of the safety policy -/

/-- `_tool_safety_decision` -/
def toolSafetyDecision (tools : ToolManager) (call : ToolCall) : Option ToolSafetyDecision :=
  match call.toolName with
  | none => none
  | some _ =>
    match tools.authorize call with
    | .ok decision => some decision
    | .error e => some {
        allowed := false
        reason := some ("Tool safety policy failed: " ++ e.message)
        metadata := [("safety_policy_error", .bool true),
          ("error_type", .str e.errorType.className)] }

/-- `_policy_rejection`: a failing policy check keeps the executor's original error. -/
def policyRejection (call : ToolCall) (decision : Option ToolSafetyDecision) : Option Error :=
  match call.toolName, decision with
  | some name, some decision =>
    if decision.allowed then none
    else if (decision.metadata.get "safety_policy_error").any (·.truthy) then none
    else some (toolPolicyRejection name decision)
  | _, _ => none

/-- `_should_pause_for_approval` -/
def shouldPauseForApproval (call : ToolCall) (decision : ToolSafetyDecision) : Bool :=
  decision.requiresApproval && !decision.allowed && decision.approvalRequest.isSome &&
    call.approval = none

/-- The events `_trace_tool_approval` adds to the trace. -/
def toolApprovalEvents (call : ToolCall) (decision : Option ToolSafetyDecision)
    (includeApprovalRequest : Bool) : List AgentTraceEvent :=
  match decision with
  | none => []
  | some decision =>
    if decision.approvalRequest = none ∧ ¬decision.requiresApproval then []
    else
      (if includeApprovalRequest then [{
        eventType := .toolApprovalRequested
        toolCall := some call
        approvalRequest := decision.approvalRequest
        metadata := [("allowed", .bool decision.allowed),
          ("requires_approval", .bool decision.requiresApproval),
          ("reason", .ofText decision.reason)] }] else []) ++
      (match call.approval with
      | some approval => [{
          eventType := .toolApprovalDecided
          toolCall := some call
          approvalRequest := decision.approvalRequest
          approvalDecision := some approval
          metadata := [("allowed", .bool decision.allowed)] }]
      | none => [])

end EvernightAI
