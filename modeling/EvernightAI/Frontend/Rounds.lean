import EvernightAI.Frontend.Snapshot
import Mathlib.Data.List.Nodup

/-!
# The rounds of a run

A run goes in rounds: text that is streamed, the completed response, and the events of the tools it
calls (`Round`). `expectedEntries` is what a transcript should show of them: the text of each
response and each call with what its own events say (`callActivity`). `Emitted` is the shape of the
trace of a backend.

* `Tidy` is what every block of a run keeps: no two entries are of one call.
* `Holds` says which activities a block shows for the calls of a round; the events and the pending
  approvals of these calls change nothing else.
-/

namespace EvernightAI.Frontend

/-! ### What is shown -/

/-- What the page shows of an entry. -/
structure Shown where
  role : MessageRole
  text : String
  activity : Option ToolActivity
  deriving DecidableEq, Repr

def Entry.shown (entry : Entry) : Shown := ⟨entry.role, entry.text, entry.toolActivity⟩

def Shown.ofText (text : String) : Shown := ⟨.assistant, text, none⟩

def Shown.ofTool (activity : ToolActivity) : Shown := ⟨.tool, "", some activity⟩

/-- The call a shown entry is of. -/
def Shown.callId (shown : Shown) : Option String := shown.activity.map (·.callId)

/-- A round: streamed text, the response, and the events of its tools. -/
structure Round where
  streamed : List AgentTraceEvent
  completed : AgentTraceEvent
  response : ChatResponse
  tools : List AgentTraceEvent
  deriving DecidableEq, Repr

namespace Round

def events (round : Round) : List AgentTraceEvent :=
  round.streamed ++ round.completed :: round.tools

def calls (round : Round) : List ToolCall := round.response.message.toolCalls.getD []

def text (round : Round) : String := visibleTextFromContent round.response.message

end Round

/-- Text is streamed, or nothing is shown of the event. -/
def Streams (event : AgentTraceEvent) : Prop :=
  (∃ text, eventEffect event = .delta text) ∨ eventEffect event = .ignore

/-- The shape of a round as a backend emits it. -/
structure Round.Emitted (round : Round) : Prop where
  streamed : ∀ event ∈ round.streamed, Streams event
  completed : round.completed.eventType = .chatCompleted
  response : round.completed.response = some round.response
  role : round.response.message.role = .assistant
  tools : ∀ event ∈ round.tools, eventEffect event = .ignore ∨
    ∃ call status, eventEffect event = .update call status ∧
      ∃ call' ∈ round.calls,
        call'.toolCallId = call.toolCallId ∧ call'.toolCall = call.toolCall

/-- The shape of a trace as a backend emits it: every round but the last calls tools, text may
follow if the last round does too, and approvals are pending for calls of the last round. -/
structure Emitted (run : Run) (rounds : List Round) (rest : List AgentTraceEvent) : Prop where
  trace : unseenEvents [] run.events = rounds.flatMap Round.events ++ rest
  emitted : ∀ round ∈ rounds, round.Emitted
  goesOn : ∀ round ∈ rounds.dropLast, round.calls ≠ []
  streams : ∀ event ∈ rest, Streams event
  restGoesOn : (∃ event ∈ rest, ∃ text, eventEffect event = .delta text) →
    ∀ round ∈ rounds.getLast?, round.calls ≠ []
  approvals : ∀ approval ∈ run.pendingApprovalRequests, ∃ round ∈ rounds.getLast?,
    ∃ call ∈ round.calls, call.toolCallId = approval.toolCallId ∧
      approval.toolCall = some call.toolCall

section Expected

variable (b : Browser) (run : Run)

/-- What an event tells about a call. -/
def tellActivity (call : ToolCall) (activity : ToolActivity) (event : AgentTraceEvent) :
    ToolActivity :=
  match eventEffect event with
  | .update call' status =>
    if activity.callId = call'.toolCallId then
      updatedActivity b call (eventUpdate b event status) (some activity)
    else activity
  | _ => activity

/-- The event that shows a pending approval. -/
def approvalEvent (approval : ApprovalRequest) : AgentTraceEvent :=
  { eventType := .toolApprovalRequested, approvalRequest := some approval }

/-- A decision on the approval's call is in the trace. -/
def decidedApproval (approval : ApprovalRequest) : Bool :=
  run.events.any fun event =>
    event.eventType = .toolApprovalDecided &&
      ((nonEmpty (event.toolCall.map (·.toolCallId))) <|>
        event.approvalDecision.map (·.toolCallId)) = some approval.toolCallId

/-- The call waits for the approval: it has not gone on, and nothing is decided. -/
def awaits (approval : ApprovalRequest) (activity : ToolActivity) : Bool :=
  !([ToolStatus.running, .completed, .failed, .canceled].contains activity.status) &&
    !(activity.status = .pending && decidedApproval run approval)

/-- What a pending approval tells about a call. -/
def askActivity (call : ToolCall) (activity : ToolActivity) (approval : ApprovalRequest) :
    ToolActivity :=
  if activity.callId = approval.toolCallId ∧ awaits run approval activity then
    updatedActivity b call (eventUpdate b (approvalEvent approval) .approval) (some activity)
  else activity

/-- The activity of a call that has been opened. -/
def openActivity (call : ToolCall) : ToolActivity :=
  updatedActivity b call { status := .pending, preserveStatus := true } none

/-- **The activity of a call**, from its own events and approvals only. -/
def callActivity (call : ToolCall) (events : List AgentTraceEvent)
    (approvals : List ApprovalRequest) : ToolActivity :=
  let told := events.foldl (tellActivity b call) (openActivity b call)
  let asked := approvals.foldl (askActivity b run call) told
  if run.stopped then settleActivity run asked else asked

/-- The text of a round, if it has one. -/
def Round.shownText (round : Round) : List Shown :=
  if round.text = "" then [] else [.ofText round.text]

/-- The entries a round should have. -/
def Round.expected (round : Round) (approvals : List ApprovalRequest) : List Shown :=
  round.shownText ++
    round.calls.map fun call => .ofTool (callActivity b run call round.tools approvals)

/-- **The entries of a run**: approvals are pending in the last round only. -/
def expectedEntries : List Round → List Shown
  | [] => []
  | [round] => round.expected b run run.pendingApprovalRequests
  | round :: rounds => round.expected b run [] ++ expectedEntries rounds

end Expected

/-! ### Tidy blocks -/

/-- The calls that the entries are of. -/
def callIds (block : List Entry) : List String :=
  block.filterMap fun entry => entry.toolActivity.map (·.callId)

/-- No two entries are of one call, and none is of the user. -/
structure Tidy (runId : String) (block : List Entry) : Prop where
  isBlock : Block runId block
  notUser : ∀ entry ∈ block, entry.role ≠ .user
  toolText : ∀ entry ∈ block, entry.toolActivity ≠ none → entry.text = ""
  nodup : (callIds block).Nodup

/-- An activity of a call is replaced. -/
def retell (callId : String) (f : ToolActivity → ToolActivity) (shown : List Shown) :
    List Shown :=
  shown.map fun s =>
    match s.activity with
    | some activity => if activity.callId = callId then .ofTool (f activity) else s
    | none => s

section Tidy

variable {b : Browser} {runId : String} {block : List Entry} {callId : String}

theorem callIds_append (block block' : List Entry) :
    callIds (block ++ block') = callIds block ++ callIds block' :=
  List.filterMap_append ..

theorem mem_callIds_iff {callId : String} :
    callId ∈ callIds block ↔
      ∃ entry ∈ block, ∃ activity, entry.toolActivity = some activity ∧
        activity.callId = callId := by
  simp only [callIds, List.mem_filterMap, Option.map_eq_some_iff]

theorem Tidy.nil : Tidy runId [] := ⟨.nil, by simp, by simp, List.nodup_nil⟩

/-- Without entries of the user, every entry of a call is found. -/
theorem Tidy.toolIndex_eq_none_iff (h : Tidy runId block) :
    toolIndex block callId runId = none ↔ callId ∉ callIds block := by
  have hturn : (lastIndex block fun entry _ => decide (entry.role = .user)) = none :=
    lastIndex_eq_none_iff.mpr fun i entry hentry =>
      decide_eq_false (h.notUser entry (List.mem_of_getElem? hentry))
  rw [toolIndex, hturn, lastIndex_eq_none_iff, mem_callIds_iff]
  constructor
  · rintro hnone ⟨entry, hentry, activity, hactivity, hid⟩
    obtain ⟨i, hi⟩ := List.mem_iff_getElem?.mp hentry
    have := hnone i entry hi
    simp [hactivity, hid, h.isBlock.ofRun entry hentry] at this
  · intro hnot i entry hentry
    have hmem := List.mem_of_getElem? hentry
    rcases hactivity : entry.toolActivity with _ | activity
    · simp
    · have hid : activity.callId ≠ callId :=
        fun hid => hnot ⟨entry, hmem, activity, hactivity, hid⟩
      simp [hid]

theorem Tidy.concat_tool (h : Tidy runId block) (entryId : String) {activity : ToolActivity}
    (hnew : activity.callId ∉ callIds block) :
    Tidy runId (block ++ [toolEntry entryId activity.callId runId activity]) where
  isBlock := h.isBlock.append (block_toolEntry _ _ _)
  notUser := List.forall_mem_append.mpr ⟨h.notUser, by simp [toolEntry]⟩
  toolText := List.forall_mem_append.mpr ⟨h.toolText, by simp [toolEntry]⟩
  nodup := by
    have hsingle : callIds [toolEntry entryId activity.callId runId activity] =
        [activity.callId] := rfl
    rw [callIds_append, hsingle]
    exact h.nodup.append (List.nodup_singleton _) (List.disjoint_singleton.mpr hnew)

theorem Tidy.concat_text (h : Tidy runId block) {entry : Entry} (hofRun : entry.ofRun runId = true)
    (hnotice : entry.runNotice = none) (hactivity : entry.toolActivity = none)
    (hrole : entry.role ≠ .user) : Tidy runId (block ++ [entry]) where
  isBlock := h.isBlock.append (.singleton hofRun hnotice fun hne => absurd hactivity hne)
  notUser := List.forall_mem_append.mpr ⟨h.notUser, by simpa using hrole⟩
  toolText := List.forall_mem_append.mpr ⟨h.toolText, by simp [hactivity]⟩
  nodup := by
    rw [callIds_append]
    simpa [callIds, hactivity] using h.nodup

theorem Tidy.dropLast (h : Tidy runId block) : Tidy runId block.dropLast where
  isBlock := h.isBlock.of_subset (List.dropLast_subset block)
  notUser := fun entry hentry => h.notUser entry (List.dropLast_subset block hentry)
  toolText := fun entry hentry => h.toolText entry (List.dropLast_subset block hentry)
  nodup := h.nodup.sublist ((List.dropLast_sublist block).filterMap _)

theorem retell_append (f : ToolActivity → ToolActivity) (shown shown' : List Shown) :
    retell callId f (shown ++ shown') = retell callId f shown ++ retell callId f shown' :=
  List.map_append ..

theorem retell_of_not_mem {f : ToolActivity → ToolActivity} {shown : List Shown}
    (h : callId ∉ shown.filterMap Shown.callId) : retell callId f shown = shown := by
  refine (List.map_congr_left fun s hs => ?_).trans (List.map_id shown)
  rcases hactivity : s.activity with _ | activity
  · rfl
  · have hid : activity.callId ≠ callId := fun hid =>
      h (List.mem_filterMap.mpr ⟨s, hs, by simp [Shown.callId, hactivity, hid]⟩)
    simp [hid]

theorem filterMap_callId_shown (block : List Entry) :
    (block.map Entry.shown).filterMap Shown.callId = callIds block := by
  rw [List.filterMap_map]
  rfl

/-- **Replacing an entry** of a tidy block: only what is shown of its call changes. -/
theorem Tidy.set_tool (h : Tidy runId block) {i : Nat} (hi : toolIndex block callId runId = some i)
    (entryId : String) (f : ToolActivity → ToolActivity)
    (hf : ∀ activity, (f activity).callId = callId) :
    ∃ activity, block[i]?.bind (·.toolActivity) = some activity ∧
      Tidy runId (block.set i (toolEntry entryId callId runId (f activity))) ∧
      (block.set i (toolEntry entryId callId runId (f activity))).map Entry.shown =
        retell callId f (block.map Entry.shown) ∧
      callIds (block.set i (toolEntry entryId callId runId (f activity))) = callIds block := by
  obtain ⟨entry, activity, hentry, hactivity, hid⟩ := exists_of_toolIndex hi
  obtain ⟨hlt, hget⟩ := List.getElem?_eq_some_iff.mp hentry
  have hmem : entry ∈ block := List.mem_of_getElem? hentry
  have hself : block = block.take i ++ entry :: block.drop (i + 1) := by
    conv_lhs => rw [← List.set_getElem_self hlt, List.set_eq_take_append_cons_drop, if_pos hlt]
    rw [hget]
  have hset : block.set i (toolEntry entryId callId runId (f activity)) =
      block.take i ++ toolEntry entryId callId runId (f activity) :: block.drop (i + 1) := by
    rw [List.set_eq_take_append_cons_drop, if_pos hlt]
  have hids : callIds (block.set i (toolEntry entryId callId runId (f activity))) =
      callIds block := by
    conv_rhs => rw [hself]
    rw [hset, callIds_append, callIds_append]
    simp [callIds, toolEntry, hf, hactivity, hid]
  refine ⟨activity, by simp [hentry, hactivity], ?_, ?_, hids⟩
  · refine ⟨h.isBlock.set i, fun entry' hentry' => ?_, fun entry' hentry' => ?_, hids ▸ h.nodup⟩
    · obtain hentry' | rfl := List.mem_or_eq_of_mem_set hentry'
      · exact h.notUser entry' hentry'
      · exact fun hrole => MessageRole.noConfusion hrole
    · obtain hentry' | rfl := List.mem_or_eq_of_mem_set hentry'
      · exact h.toolText entry' hentry'
      · exact fun _ => rfl
  · have hnodup := h.nodup
    rw [hself, callIds_append, List.nodup_append] at hnodup
    have hcons : callIds (entry :: block.drop (i + 1)) =
        callId :: callIds (block.drop (i + 1)) := by
      simp [callIds, hactivity, hid]
    rw [hcons, List.nodup_cons] at hnodup
    have hfront : callId ∉ ((block.take i).map Entry.shown).filterMap Shown.callId := by
      rw [filterMap_callId_shown]
      exact fun hfound => hnodup.2.2 _ hfound _ List.mem_cons_self rfl
    have hbehind : callId ∉ ((block.drop (i + 1)).map Entry.shown).filterMap Shown.callId := by
      rw [filterMap_callId_shown]
      exact hnodup.2.1.1
    conv_rhs => rw [hself, List.map_append, retell_append, retell_of_not_mem hfront, List.map_cons]
    rw [hset, List.map_append, List.map_cons]
    congr 1
    have hrest := retell_of_not_mem (f := f) hbehind
    rw [retell] at hrest ⊢
    rw [List.map_cons, hrest]
    simp [Entry.shown, toolEntry, hactivity, hid, Shown.ofTool]

end Tidy

/-! ### The events of a call -/

/-- The block shows the calls with these activities, between other entries. -/
structure Holds (runId : String) (block : List Entry) (pre : List Shown) (calls : List ToolCall)
    (A : ToolCall → ToolActivity) (post : List Shown) : Prop where
  tidy : Tidy runId block
  shown : block.map Entry.shown = pre ++ calls.map (fun call => .ofTool (A call)) ++ post
  callId : ∀ call, (A call).callId = call.toolCallId
  nodup : (calls.map (·.toolCallId)).Nodup
  apart : ∀ call ∈ calls, call.toolCallId ∉ pre.filterMap Shown.callId ∧
    call.toolCallId ∉ post.filterMap Shown.callId

section Holds

variable {b : Browser} {runId : String} {block : List Entry} {pre post : List Shown}
  {calls : List ToolCall} {A : ToolCall → ToolActivity}

theorem updatedActivity_congr {call call' : ToolCall} (hid : call.toolCallId = call'.toolCallId)
    (hcall : call.toolCall = call'.toolCall) (update : ToolUpdate)
    (previous : Option ToolActivity) :
    updatedActivity b call update previous = updatedActivity b call' update previous := by
  simp only [updatedActivity, calledName, calledArguments, hid, hcall]

/-- A call of the list has its entry in the block. -/
theorem Holds.mem_callIds (h : Holds runId block pre calls A post) {call : ToolCall}
    (hcall : call ∈ calls) : call.toolCallId ∈ callIds block := by
  rw [← filterMap_callId_shown, h.shown, List.filterMap_append, List.filterMap_append]
  refine List.mem_append_left _ (List.mem_append_right _ (List.mem_filterMap.mpr ?_))
  exact ⟨.ofTool (A call), List.mem_map_of_mem hcall, congrArg some (h.callId call)⟩

/-- **Updating a call** of the list: its activity changes, and nothing else does. -/
theorem Holds.upsertBlock (h : Holds runId block pre calls A post) (newId : String)
    {call' : ToolCall} {update : ToolUpdate} (hpreserve : update.preserveStatus = false)
    (hcall : ∃ call ∈ calls, call.toolCallId = call'.toolCallId ∧
      call.toolCall = call'.toolCall) :
    Holds runId (upsertBlock b newId block call' runId update) pre calls
        (fun call => if (A call).callId = call'.toolCallId then
          updatedActivity b call update (some (A call)) else A call) post ∧
      lastText (Frontend.upsertBlock b newId block call' runId update) = lastText block ∧
      (Frontend.upsertBlock b newId block call' runId update).getLast?.any
          (·.toolActivity.isNone) = block.getLast?.any (·.toolActivity.isNone) := by
  obtain ⟨call, hmem, hid, hdict⟩ := hcall
  obtain ⟨i, hi⟩ : ∃ i, toolIndex block call'.toolCallId runId = some i := by
    refine Option.ne_none_iff_exists'.mp fun hnone => ?_
    exact h.tidy.toolIndex_eq_none_iff.mp hnone (hid ▸ h.mem_callIds hmem)
  obtain ⟨activity, hactivity, htidy, hshown, -⟩ := h.tidy.set_tool hi
    ((nonEmpty (block[i]?.map (·.entryId))).getD newId)
    (fun activity => updatedActivity b call' update (some activity)) fun _ => rfl
  have hupsert : Frontend.upsertBlock b newId block call' runId update =
      block.set i (toolEntry ((nonEmpty (block[i]?.map (·.entryId))).getD newId)
        call'.toolCallId runId (updatedActivity b call' update (some activity))) := by
    rw [Frontend.upsertBlock, hi]
    simp only [hpreserve, hactivity]
    rfl
  obtain ⟨hkeys, hlastText⟩ := @callKey_set runId block h.tidy.isBlock i call'.toolCallId
    ((nonEmpty (block[i]?.map (·.entryId))).getD newId)
    (updatedActivity b call' update (some activity)) hi rfl
  rw [hupsert]
  refine ⟨⟨htidy, ?_, fun c => ?_, h.nodup, h.apart⟩, hlastText, isNone_getLast_congr hkeys⟩
  · have hpre : retell call'.toolCallId
        (fun activity => updatedActivity b call' update (some activity)) pre = pre :=
      retell_of_not_mem (hid ▸ (h.apart call hmem).1)
    have hpost : retell call'.toolCallId
        (fun activity => updatedActivity b call' update (some activity)) post = post :=
      retell_of_not_mem (hid ▸ (h.apart call hmem).2)
    rw [hshown, h.shown, retell_append, retell_append, hpre, hpost, retell, List.map_map]
    congr 2
    refine List.map_congr_left fun c hc => ?_
    by_cases hc' : (A c).callId = call'.toolCallId
    · have hsame : c = call :=
        List.inj_on_of_nodup_map h.nodup hc hmem ((h.callId c).symm.trans (hc'.trans hid.symm))
      simp only [Function.comp_apply, Shown.ofTool, hc', if_true]
      rw [hsame, updatedActivity_congr hid hdict]
    · simp only [Function.comp_apply, Shown.ofTool, hc', if_false]
  · split_ifs
    · rfl
    · exact h.callId c

/-- An event of the round's tools. -/
theorem Holds.eventBlock (h : Holds runId block pre calls A post) (offset : Nat)
    {event : AgentTraceEvent}
    (hevent : eventEffect event = .ignore ∨ ∃ call status,
      eventEffect event = .update call status ∧ ∃ call' ∈ calls,
        call'.toolCallId = call.toolCallId ∧ call'.toolCall = call.toolCall) :
    Holds runId (eventBlock b offset runId block event) pre calls
        (fun call => tellActivity b call (A call) event) post ∧
      lastText (Frontend.eventBlock b offset runId block event) = lastText block ∧
      (Frontend.eventBlock b offset runId block event).getLast?.any (·.toolActivity.isNone) =
        block.getLast?.any (·.toolActivity.isNone) := by
  obtain hignore | ⟨call, status, hupdate, hcall⟩ := hevent
  · simp only [Frontend.eventBlock, tellActivity, hignore]
    exact ⟨h, trivial, trivial⟩
  · simp only [Frontend.eventBlock, tellActivity, hupdate]
    exact h.upsertBlock _ rfl hcall

theorem Holds.foldl_eventBlock {events : List AgentTraceEvent}
    (h : Holds runId block pre calls A post) (offset : Nat)
    (hevents : ∀ event ∈ events, eventEffect event = .ignore ∨ ∃ call status,
      eventEffect event = .update call status ∧ ∃ call' ∈ calls,
        call'.toolCallId = call.toolCallId ∧ call'.toolCall = call.toolCall) :
    Holds runId (events.foldl (Frontend.eventBlock b offset runId) block) pre calls
        (fun call => events.foldl (tellActivity b call) (A call)) post ∧
      lastText (events.foldl (Frontend.eventBlock b offset runId) block) = lastText block ∧
      (events.foldl (Frontend.eventBlock b offset runId) block).getLast?.any
          (·.toolActivity.isNone) = block.getLast?.any (·.toolActivity.isNone) := by
  induction events generalizing block A with
  | nil => exact ⟨h, rfl, rfl⟩
  | cons event events ih =>
    obtain ⟨hevent, hrest⟩ := List.forall_mem_cons.mp hevents
    obtain ⟨hnext, htext, hlast⟩ := h.eventBlock (b := b) offset hevent
    obtain ⟨hall, htext', hlast'⟩ := ih hnext hrest
    exact ⟨hall, htext'.trans htext, hlast'.trans hlast⟩

/-- A pending approval of a call of the list. -/
theorem Holds.approvalBlock {run : Run} (h : Holds run.runId block pre calls A post) (offset : Nat)
    {approval : ApprovalRequest}
    (happroval : ∃ call ∈ calls, call.toolCallId = approval.toolCallId ∧
      approval.toolCall = some call.toolCall) :
    Holds run.runId (approvalBlock b offset run block approval) pre calls
      (fun call => askActivity b run call (A call) approval) post := by
  obtain ⟨call, hmem, hid, hdict⟩ := happroval
  obtain ⟨activity, hrecorded, hactivity⟩ : ∃ activity,
      (block.reverse.find? fun entry =>
        entry.toolActivity.any (·.callId = approval.toolCallId)).bind (·.toolActivity) =
          some activity ∧ activity = A call := by
    obtain ⟨entry, hentry, activity, hactivity, hcallId⟩ :=
      mem_callIds_iff.mp (hid ▸ h.mem_callIds hmem)
    obtain ⟨entry', hfind⟩ : ∃ entry', (block.reverse.find? fun entry =>
        entry.toolActivity.any (·.callId = approval.toolCallId)) = some entry' := by
      refine Option.isSome_iff_exists.mp (List.find?_isSome.mpr ⟨entry, by simpa using hentry, ?_⟩)
      simp [hactivity, hcallId]
    have hfound := List.find?_some hfind
    obtain ⟨activity', hactivity', hcallId'⟩ := (Option.any_eq_true _ _).mp hfound
    rw [decide_eq_true_eq] at hcallId'
    refine ⟨activity', by rw [hfind]; exact hactivity', ?_⟩
    have hshown : entry'.shown ∈ pre ++ calls.map (fun call => .ofTool (A call)) ++ post :=
      h.shown ▸ List.mem_map_of_mem (List.mem_reverse.mp (List.mem_of_find?_eq_some hfind))
    have hshownId : entry'.shown.callId = some call.toolCallId := by
      simp [Shown.callId, Entry.shown, hactivity', hcallId', hid]
    obtain (hpre | hcalls) | hpost := (List.mem_append.mp hshown).imp_left List.mem_append.mp
    · exact absurd (List.mem_filterMap.mpr ⟨_, hpre, hshownId⟩) (h.apart call hmem).1
    · obtain ⟨call', hmem', heq⟩ := List.mem_map.mp hcalls
      have hactivityEq : some (A call') = entry'.toolActivity := congrArg Shown.activity heq
      rw [hactivity', Option.some.injEq] at hactivityEq
      have hsame : call' = call := List.inj_on_of_nodup_map h.nodup hmem' hmem (by
        rw [← h.callId call', hactivityEq, hcallId', hid])
      rw [← hactivityEq, hsame]
    · exact absurd (List.mem_filterMap.mpr ⟨_, hpost, hshownId⟩) (h.apart call hmem).2
  have hblock : Frontend.approvalBlock b offset run block approval =
      if awaits run approval (A call) then
        Frontend.eventBlock b offset run.runId block (approvalEvent approval) else block := by
    unfold Frontend.approvalBlock
    dsimp only
    rw [hrecorded, hactivity]
    simp only [Option.any_some]
    rw [awaits]
    by_cases hdone : [ToolStatus.running, .completed, .failed, .canceled].contains
        (A call).status = true
    · rw [if_pos hdone, hdone]
      rfl
    · rw [if_neg hdone, Bool.eq_false_of_not_eq_true hdone]
      by_cases hdecided : (decide ((A call).status = .pending) &&
          decidedApproval run approval) = true
      · rw [hdecided]
        exact if_pos hdecided
      · rw [Bool.eq_false_of_not_eq_true hdecided]
        exact if_neg hdecided
  have hask : ∀ c ∈ calls, askActivity b run c (A c) approval =
      if awaits run approval (A call) then tellActivity b c (A c) (approvalEvent approval)
      else A c := by
    intro c hc
    have htell : tellActivity b c (A c) (approvalEvent approval) =
        if (A c).callId = approval.toolCallId then
          updatedActivity b c (eventUpdate b (approvalEvent approval) .approval) (some (A c))
        else A c := rfl
    rw [askActivity, htell]
    by_cases hcId : (A c).callId = approval.toolCallId
    · have hsame : c = call := List.inj_on_of_nodup_map h.nodup hc hmem
        ((h.callId c).symm.trans (hcId.trans hid.symm))
      rw [hsame] at hcId ⊢
      simp only [hcId, true_and, if_true]
    · simp only [hcId, false_and, if_false, ite_self]
  have hcongr : ∀ {A' : ToolCall → ToolActivity} {block'},
      Holds run.runId block' pre calls A' post →
      (∀ c ∈ calls, askActivity b run c (A c) approval = A' c) →
      Holds run.runId block' pre calls (fun c => askActivity b run c (A c) approval) post := by
    intro A' block' h' hsame
    refine { h' with shown := ?_, callId := fun c => ?_ }
    · rw [h'.shown]
      congr 2
      exact List.map_congr_left fun c hc => congrArg _ (hsame c hc).symm
    · rw [askActivity]
      split_ifs
      · rfl
      · exact h.callId c
  rw [hblock]
  split_ifs with hawaits
  · have hcall : call.toolCall =
        approval.toolCall.getD [("name", .str approval.toolName)] := by
      rw [hdict]
      rfl
    refine hcongr (h.eventBlock offset (.inr ⟨_, .approval, rfl, call, hmem, hid, hcall⟩)).1
      fun c hc => ?_
    rw [hask c hc, if_pos hawaits]
  · exact hcongr h fun c hc => by rw [hask c hc, if_neg hawaits]

end Holds

end EvernightAI.Frontend
