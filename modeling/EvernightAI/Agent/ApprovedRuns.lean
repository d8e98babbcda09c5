import EvernightAI.Agent.RunPolicy

/-!
# Approvals over a run

A call reaches its executor after the manager authorized it with the decision the run has for it.
Here that decision is followed back through every pause, crash, recovery and resume to the caller who
supplied it: `RunWorld.supplied` holds the decisions of the run request and of every resume that went
on, each with the round it counts for.

* `AgentRunState.Supplied`: what a snapshot keeps in its request was supplied.
* `CallSite.Prepared`: a call between its preparation and its execution has the decision its own
  round has for it, and no mark of its own.
* `RunWorld.authorized` is the policy, and `granted_of_invoked` what it says of a run.
-/

namespace EvernightAI

/-! ### Where a decision comes from -/

/-- Every decision of the snapshot was supplied for its round. A snapshot with a response is in
round 1 or later: decisions on its calls are kept for no round 0. -/
structure AgentRunState.Supplied (supplied : List (Nat × ToolApprovalDecision))
    (state : AgentRunState) : Prop where
  approvals : ∀ approval ∈ state.request.toolApprovals, (approval.round, approval) ∈ supplied
  answered : state.response ≠ none → 0 < state.currentToolRound

/-- The call has the decision in force for it, and nothing else that approves it. -/
structure CallSite.Prepared (site : CallSite) (state : AgentRunState) : Prop where
  approval : site.call.approval = state.toolApproval site.call.toolCallId
  unmarked : site.call.metadata.get "approved" = none

section Frame

variable {supplied supplied' : List (Nat × ToolApprovalDecision)} {state state' : AgentRunState}

theorem AgentRunState.Supplied.congr (h : state.Supplied supplied)
    (happrovals : state'.request.toolApprovals = state.request.toolApprovals)
    (hresponse : state'.response = state.response)
    (hround : state.currentToolRound ≤ state'.currentToolRound) : state'.Supplied supplied where
  approvals := fun approval hmem => h.approvals approval (happrovals ▸ hmem)
  answered := fun hne => (h.answered (hresponse ▸ hne)).trans_le hround

theorem AgentRunState.Supplied.mono (h : state.Supplied supplied) (hsub : supplied ⊆ supplied') :
    state.Supplied supplied' where
  approvals := fun approval hmem => hsub (h.approvals approval hmem)
  answered := h.answered

theorem AgentRunState.Supplied.alike (h : state.Supplied supplied) (halike : state.Alike state') :
    state'.Supplied supplied :=
  h.congr halike.approvals halike.response (AgentRunState.currentToolRound_congr halike.steps).ge

theorem CallSite.Prepared.alike {site : CallSite} (h : site.Prepared state)
    (halike : state.Alike state') : site.Prepared state' where
  approval := by
    rw [h.approval, AgentRunState.toolApproval, AgentRunState.toolApproval, halike.approvals,
      AgentRunState.currentToolRound_congr halike.steps]
  unmarked := h.unmarked

theorem CallSite.prepared_preparedCall (state : AgentRunState) (call : ToolCall)
    (rest : List ToolCall) (requested : List String) :
    CallSite.Prepared ⟨state.preparedCall call, rest, requested⟩ state where
  approval := state.approval_preparedCall call
  unmarked := state.approved_preparedCall call

/-- A decision in force for a prepared call was supplied for the round of the call. -/
theorem CallSite.Prepared.mem_supplied {site : CallSite} (h : site.Prepared state)
    (hsupplied : state.Supplied supplied) {approval : ToolApprovalDecision}
    (happroval : site.call.approval = some approval) :
    (state.currentToolRound, approval) ∈ supplied := by
  obtain ⟨hmem, hround, -⟩ := roundToolApproval_eq_some (h.approval.symm.trans happroval)
  exact hround ▸ hsupplied.approvals approval hmem

end Frame

/-! ### What a restoration keeps of the approvals -/

section Restore

variable {supplied : List (Nat × ToolApprovalDecision)} {state state' : AgentRunState}

theorem AgentRunState.le_currentToolRound_append {steps : List AgentStep}
    (hsteps : state'.steps = state.steps ++ steps) :
    state.currentToolRound ≤ state'.currentToolRound := by
  rw [AgentRunState.currentToolRound, AgentRunState.currentToolRound, hsteps, List.countP_append]
  exact Nat.le_add_right _ _

/-- Restoring a snapshot leaves its request alone, and restores a response as a step. -/
theorem AgentRunState.Supplied.restoreEvent {event : AgentTraceEvent} (h : state.Supplied supplied)
    (hok : EvernightAI.restoreEvent event state = .ok state') : state'.Supplied supplied := by
  have happend : ∀ {state' : AgentRunState} (steps : List AgentStep),
      state'.request = state.request → state'.response = state.response →
      state'.steps = state.steps ++ steps → state'.Supplied supplied :=
    fun steps hrequest hresponse hsteps =>
      h.congr (by rw [hrequest]) hresponse (AgentRunState.le_currentToolRound_append hsteps)
  rw [EvernightAI.restoreEvent] at hok
  split at hok
  · split at hok
    · exact absurd hok (by simp)
    · obtain rfl := Except.ok.inj hok
      refine ⟨h.approvals, fun _ => ?_⟩
      rw [AgentRunState.currentToolRound, List.countP_append]
      exact Nat.succ_pos _
  · split at hok
    · exact absurd hok (by simp)
    · obtain rfl := Except.ok.inj hok
      exact happend _ rfl rfl rfl
  · split at hok
    · exact absurd hok (by simp)
    · obtain rfl := Except.ok.inj hok
      exact happend _ rfl rfl rfl
  · split at hok
    · obtain rfl := Except.ok.inj hok
      exact h
    · obtain rfl := Except.ok.inj hok
      exact happend [] rfl rfl (List.append_nil _).symm
  · obtain rfl := Except.ok.inj hok
    exact happend _ rfl rfl rfl
  · split at hok
    · exact absurd hok (by simp)
    · next stopReason status _ =>
      obtain rfl := Except.ok.inj hok
      cases stopReason with
      | none => exact happend [] rfl rfl (List.append_nil _).symm
      | some reason =>
        by_cases hstop : state.steps.any (·.stepType = .stop) = true
        · exact happend [] rfl rfl ((if_pos hstop).trans (List.append_nil _).symm)
        · exact happend _ rfl rfl (if_neg hstop)
  · obtain rfl := Except.ok.inj hok
    exact h

theorem AgentRunState.Supplied.advanceTo (h : state.Supplied supplied) (event : AgentTraceEvent) :
    (state.advanceTo event).Supplied supplied := by
  rw [AgentRunState.advanceTo]
  split
  · exact h.congr rfl rfl (le_refl _)
  · exact h

theorem AgentRunState.Supplied.restoreEvents (applied : List Nat) (tail : List AgentTraceEvent)
    (h : state.Supplied supplied) :
    (EvernightAI.restoreEvents applied tail state).1.Supplied supplied := by
  fun_induction EvernightAI.restoreEvents applied tail state with
  | case1 => exact h
  | case2 _ event _ state _ ih => exact ih (h.advanceTo event)
  | case3 => exact h
  | case4 _ event _ _ _ _ hok state ih =>
    refine ih ?_
    have hrestored := (h.restoreEvent hok).advanceTo event
    split
    · exact hrestored
    · exact hrestored.congr rfl rfl (le_refl _)

theorem AgentRunState.Supplied.inspect (h : state.Supplied supplied) (events : List AgentTraceEvent)
    (toolExecutions : Option (List ToolExecutionAttempt)) :
    (inspectAgentRunCheckpoint events toolExecutions state).2.Supplied supplied := by
  have hrestore : (restoreCheckpointData events state).1.Supplied supplied := by
    rw [restoreCheckpointData]
    split
    · exact h
    · next tail _ =>
      have hevents := h.restoreEvents (state.steps.filterMap (·.traceEventId)) tail
      split
      · next hpair => rw [hpair] at hevents; exact hevents
      · next hpair => rw [hpair] at hevents; exact hevents.congr rfl rfl (le_refl _)
  rw [inspectAgentRunCheckpoint]
  split <;> (next hpair => rw [hpair] at hrestore; exact hrestore)

theorem AgentRunState.supplied_addStep (h : state.Supplied supplied) (step : AgentStep) :
    (state.addStep step).Supplied supplied := by
  have happend : (state.addStep step).steps = state.steps ++ [step] := rfl
  exact h.congr rfl rfl (AgentRunState.le_currentToolRound_append happend)

end Restore

/-! ### The policy -/

namespace RunWorld

/-- The caller supplied an APPROVED decision on the call, for this round. -/
def Granted (world : RunWorld) (toolRound : Nat) (toolCallId : String) : Prop :=
  ∃ approval, (toolRound, approval) ∈ world.supplied ∧ approval.toolCallId = toolCallId ∧
    approval.status = .approved

variable {runtime : AgentRuntime} {world : RunWorld} {state : AgentRunState}

/-- Neither the manager's question nor its answer depends on the idempotency key. -/
theorem asksApproval_persistedCall (tools : ToolManager) (site : CallSite)
    (attempt : Option ToolExecutionAttempt) :
    tools.asksApproval (site.persistedCall attempt) = tools.asksApproval site.call := by
  cases attempt with
  | none => rfl
  | some attempt =>
    rw [ToolManager.asksApproval, ToolManager.asksApproval]
    have hsame := @ToolManager.authorize_set_metadata tools "idempotency_key"
      (.str attempt.idempotencyKey) { site.call with approval := none } (by decide)
    rw [← hsame]
    rfl

/-- What approves a prepared call is its own decision. -/
theorem approval_of_approved {site : CallSite} (hsite : site.Prepared state)
    {attempt : Option ToolExecutionAttempt}
    (happroved : BasicToolSafetyPolicy.approved (site.persistedCall attempt) = true) :
    ∃ approval, site.call.approval = some approval ∧
      approval.toolCallId = site.call.toolCallId ∧ approval.status = .approved := by
  have hunmarked : (site.persistedCall attempt).metadata.get "approved" = none := by
    cases attempt with
    | none => exact hsite.unmarked
    | some attempt => exact (Dict.get_set_of_ne _ _ (by decide)).trans hsite.unmarked
  have hsame : (site.persistedCall attempt).approval = site.call.approval ∧
      (site.persistedCall attempt).toolCallId = site.call.toolCallId := by
    cases attempt with
    | none => exact ⟨rfl, rfl⟩
    | some attempt => exact ⟨rfl, rfl⟩
  rw [BasicToolSafetyPolicy.approved, hunmarked, BasicToolSafetyPolicy.hasApproval, hsame.1,
    hsame.2] at happroved
  cases happroval : site.call.approval with
  | none =>
    rw [happroval] at happroved
    exact absurd happroved (by simp)
  | some approval =>
    rw [happroval] at happroved
    obtain ⟨hid, hstatus⟩ : approval.toolCallId = site.call.toolCallId ∧
        approval.status = .approved := by simpa using happroved
    exact ⟨approval, rfl, hid, hstatus⟩

/-- What is merged into a snapshot was supplied for its round, which is no round 0. -/
theorem supplied_merge {supplied : List (Nat × ToolApprovalDecision)}
    (hstate : state.Supplied supplied) (approvals : List ToolApprovalDecision) {toolRound : Nat}
    (hround : 0 < toolRound) :
    ({ state with
      request := { state.request with
        toolApprovals := mergeToolApprovals state.request.toolApprovals approvals toolRound } } :
      AgentRunState).Supplied
        (supplied ++ approvals.map fun approval => (toolRound, approval.forRound toolRound)) where
  approvals := fun approval hmem => by
    rcases mem_mergeToolApprovals hmem with hold | ⟨given, hgiven, rfl⟩
    · exact List.mem_append_left _ (hstate.approvals approval hold)
    · refine List.mem_append_right _ (List.mem_map.mpr ⟨given, hgiven, ?_⟩)
      rw [ToolApprovalDecision.round, ToolApprovalDecision.forRound]
      exact Prod.ext (if_neg hround.ne').symm rfl
  answered := hstate.answered

/-- **Every approval was supplied.** The decisions of a snapshot are the caller's, the call on its
way to an executor is prepared, and a call that reached one was granted where an approval is asked
for. -/
def authorized (runtime : AgentRuntime) : RunPolicy runtime where
  snapshot supplied state := state.Supplied supplied
  duty state
    | .call site => site.Prepared state
    | _ => True
  journal _ := True
  invoked supplied toolRound call := runtime.tools.asksApproval call = true →
    ∃ approval, (toolRound, approval) ∈ supplied ∧ approval.toolCallId = call.toolCallId ∧
      approval.status = .approved
  snapshot_alike h halike := h.alike halike
  duty_alike {_ _ d} h halike := by
    cases d with
    | call site => exact CallSite.Prepared.alike h halike
    | _ => trivial
  snapshot_supply _ h := h.mono (List.subset_append_left ..)
  invoked_supply _ h hasks := by
    obtain ⟨approval, hsupplied, hgranted⟩ := h hasks
    exact ⟨approval, List.mem_append_left _ hsupplied, hgranted⟩
  record_plain _ := trivial
  journal_plain _ _ := trivial
  merge approvals h hle hround := by
    refine supplied_merge h approvals ?_
    rcases hround with hresponse | hround
    · exact (h.answered hresponse).trans_le hle
    · exact hround
  reenter _ := trivial
  enter h _ := h.congr rfl rfl (le_refl _)
  next _ := trivial
  prepare raw rest requested _ := CallSite.prepared_preparedCall _ raw rest requested
  endRound h _ := ⟨h.congr rfl rfl (le_refl _), trivial⟩
  invoke attempt h hsite hreached hasks := by
    have happroved := ToolManager.approved_of_refuse?_eq_none
      ((asksApproval_persistedCall runtime.tools _ attempt).trans hasks) hreached
    obtain ⟨approval, happroval, hid, hstatus⟩ := approval_of_approved hsite happroved
    exact ⟨approval, CallSite.Prepared.mem_supplied hsite h happroval, hid, hstatus⟩
  finish h _ _ := ⟨AgentRunState.supplied_addStep h _, trivial, fun _ _ => trivial⟩

/-- A response makes its snapshot one of round 1 or later. -/
theorem upheld_authorized (h : world.Follows (authorized runtime)) :
    world.Upheld (authorized runtime) where
  respond hsession response := by
    have hstate := (h.session _ _ hsession).snapshot
    refine h.goOn _ _ trivial h.stored _ _ ⟨⟨hstate.approvals, fun _ => ?_⟩, ?_⟩
    · rw [AgentRunState.currentToolRound, AgentRunState.addStep, List.countP_append]
      exact Nat.succ_pos _
    · exact List.forall_mem_cons.mpr ⟨trivial, List.forall_mem_singleton.mpr trivial⟩
  store _ := trivial
  inspect hstate toolExecutions := by
    rcases hstate with rfl | ⟨attempts, hsession⟩
    · exact (h.stored.alike (AgentRunState.alike_queriedState _)).inspect _ _
    · exact (h.session _ _ hsession).snapshot.inspect _ _

/-- **No execution without its own approval.** Over every run — any responses with any ids, approvals
and metadata in their calls, any crashes, recoveries, pauses and resumes with any decisions — a call
the manager asks an approval for reaches its executor only in a round the caller supplied an APPROVED
decision for, on this id. -/
theorem granted_of_invoked (runtime : AgentRuntime) (runId : String) (now : Instant)
    (request : AgentRunRequest) (context : List Content) (ledger : Option Ledger)
    {operations : List RunOperation}
    (hrun : TransitionSystem.run (operate runtime) (started runId now request context ledger)
      operations = some world)
    {toolRound : Nat} {call : ToolCall}
    (hinvoked : ToolInvocation.invoked toolRound call ∈ world.invocations)
    (hasks : runtime.tools.asksApproval call = true) : world.Granted toolRound call.toolCallId :=
  have hstate : (AgentRunState.newRunState runId now request).Supplied
      (request.toolApprovals.map fun approval => (approval.round, approval)) :=
    ⟨fun _ hmem => List.mem_map_of_mem hmem, fun hne => absurd rfl hne⟩
  (TransitionSystem.run_invariant (I := Follows (authorized runtime))
    (fun _ _ _ h hstep => h.operate (upheld_authorized h) hstep)
    (follows_started runId now request context ledger trivial hstate) hrun).invoked
    toolRound call hinvoked hasks

section Example

private def payRuntime : AgentRuntime where
  tools := { tool? := fun name =>
    if name = "pay" then some { name := "pay", approvalMode := .required } else none }

/-- The approval in the call and the mark in its metadata are the model's. -/
private def forgedPay : ToolCall where
  toolCallId := "p"
  toolCall := [("name", .str "pay")]
  approval := some { approvalId := "p:approval", toolCallId := "p", status := .approved }
  metadata := [("approved", .bool true)]

private def payAnswer : ChatResponse where
  modelId := "m"
  message := { role := .assistant, toolCalls := some [forgedPay] }

private def payRun : RunWorld :=
  .started "r" 0 { contextId := "c", modelId := "m", maxToolRounds := 2 } [] none

/-- The run pauses for the approval, is resumed with it, and the tool is called. -/
private def payOperations : List RunOperation :=
  List.replicate 4 (.step .go) ++ [.step (.respond payAnswer)] ++ List.replicate 15 (.step .go) ++
    [.step (.resume [{ approvalId := "p:approval", toolCallId := "p", status := .approved }])] ++
    List.replicate 13 (.step .go)

private def paying : RunWorld :=
  TransitionSystem.reached (operate payRuntime) payRun payOperations (by decide)

private def preparedPay : ToolCall where
  toolCallId := "p"
  toolCall := [("name", .str "pay")]
  approval := some {
    approvalId := "p:approval", toolCallId := "p", status := .approved, toolRound := some 1 }
  metadata := [("working_directory", .none), ("owner_id", .none), ("session_id", .none),
    ("run_id", .str "r")]

theorem granted_of_invoked_paying : paying.Granted 1 "p" :=
  granted_of_invoked payRuntime "r" 0 { contextId := "c", modelId := "m", maxToolRounds := 2 } [] none
    (TransitionSystem.run_reached (by decide))
    (by decide : ToolInvocation.invoked 1 preparedPay ∈ paying.invocations) (by decide)

end Example

end RunWorld

end EvernightAI
