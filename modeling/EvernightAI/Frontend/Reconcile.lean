import EvernightAI.Frontend.Transcript
import Mathlib.Data.List.Find
import Mathlib.Data.List.Induction

/-!
# Reconciling a transcript with a run

`reconcileRunTranscript` cuts the entries of a run out and replays the run where they began. What
it replays over, the entries before them, is foreign to the run, and every function of the page
leaves foreign entries alone.

* `Block` is what a replay has put behind the foreign entries; each function of the page has a
  lemma on what it makes of the block (`completeStreamedResponse_append`, `applyChatTrace_append`,
  `showApproval_append`).
* `reconcile_of_split` takes a reconciliation apart.
-/

namespace EvernightAI.Frontend

/-! ### The last index -/

section LastIndex

variable {α : Type} {condition : α → Nat → Bool}

@[simp] theorem lastIndex_nil : lastIndex [] condition = none := rfl

theorem lastIndex_concat (entries : List α) (entry : α) :
    lastIndex (entries ++ [entry]) condition =
      if condition entry entries.length then some entries.length
      else lastIndex entries condition := by
  rw [lastIndex, List.zipIdx_append, List.reverse_append, List.find?_append]
  by_cases h : condition entry entries.length = true
  · simp [h]
  · simp [h, lastIndex]

/-- The second list is searched first. -/
theorem lastIndex_append (front entries : List α) :
    lastIndex (front ++ entries) condition =
      match lastIndex entries fun entry i => condition entry (front.length + i) with
      | some i => some (front.length + i)
      | none => lastIndex front condition := by
  induction entries using List.reverseRecOn with
  | nil => simp
  | append_singleton entries entry ih =>
    rw [← List.append_assoc, lastIndex_concat, lastIndex_concat, List.length_append]
    by_cases h : condition entry (front.length + entries.length) = true
    · simp [h]
    · simp [h, ih]

theorem lastIndex_eq_none_iff {entries : List α} :
    lastIndex entries condition = none ↔
      ∀ i entry, entries[i]? = some entry → condition entry i = false := by
  simp only [lastIndex, Option.map_eq_none_iff, List.find?_eq_none, List.mem_reverse, Prod.forall,
    List.mk_mem_zipIdx_iff_getElem?, Bool.not_eq_true]
  constructor
  · exact fun h i entry hentry => h entry i hentry
  · exact fun h entry i hentry => h i entry hentry

/-- A found index holds an entry that satisfies the condition. -/
theorem lastIndex_eq_some {entries : List α} {i : Nat} (h : lastIndex entries condition = some i) :
    ∃ entry, entries[i]? = some entry ∧ condition entry i = true := by
  obtain ⟨⟨entry, j⟩, hfind, rfl⟩ := Option.map_eq_some_iff.mp h
  have hmem := List.mem_of_find?_eq_some hfind
  have hcondition := List.find?_some hfind
  rw [List.mem_reverse, List.mk_mem_zipIdx_iff_getElem?] at hmem
  exact ⟨entry, hmem, hcondition⟩

theorem lastIndex_congr {entries : List α} {condition' : α → Nat → Bool}
    (h : ∀ i entry, entries[i]? = some entry → condition entry i = condition' entry i) :
    lastIndex entries condition = lastIndex entries condition' := by
  induction entries using List.reverseRecOn with
  | nil => rfl
  | append_singleton entries entry ih =>
    rw [lastIndex_concat, lastIndex_concat, h entries.length entry (by simp), ih]
    intro i entry' hentry'
    refine h i entry' ?_
    have hlt : i < entries.length := (List.getElem?_eq_some_iff.mp hentry').1
    rw [List.getElem?_append_left hlt, hentry']

end LastIndex

/-! ### Foreign entries and the block of a run -/

/-- No entry is of the run. -/
def Foreign (runId : String) (entries : List Entry) : Prop :=
  ∀ entry ∈ entries, entry.ofRun runId = false

/-- The entries a replay puts behind the foreign ones. -/
structure Block (runId : String) (block : List Entry) : Prop where
  ofRun : ∀ entry ∈ block, entry.ofRun runId = true
  runNotice : ∀ entry ∈ block, entry.runNotice = none
  role : ∀ entry ∈ block, entry.toolActivity ≠ none → entry.role = .tool

/-- The entry of a call. -/
def toolEntry (entryId callId runId : String) (activity : ToolActivity) : Entry where
  entryId := entryId
  role := .tool
  text := ""
  content := { role := .tool, toolCallId := some callId }
  streamRunId := some runId
  toolActivity := some activity

section Blocks

variable {b : Browser} {runId : String} {front block : List Entry}

theorem Block.nil : Block runId [] := ⟨by simp, by simp, by simp⟩

theorem Block.append {block' : List Entry} (h : Block runId block) (h' : Block runId block') :
    Block runId (block ++ block') where
  ofRun := fun entry hentry => (List.mem_append.mp hentry).elim (h.ofRun entry) (h'.ofRun entry)
  runNotice := fun entry hentry =>
    (List.mem_append.mp hentry).elim (h.runNotice entry) (h'.runNotice entry)
  role := fun entry hentry => (List.mem_append.mp hentry).elim (h.role entry) (h'.role entry)

theorem Block.of_subset {block' : List Entry} (h : Block runId block) (hsub : block' ⊆ block) :
    Block runId block' where
  ofRun := fun entry hentry => h.ofRun entry (hsub hentry)
  runNotice := fun entry hentry => h.runNotice entry (hsub hentry)
  role := fun entry hentry => h.role entry (hsub hentry)

theorem Block.singleton {entry : Entry} (h₁ : entry.ofRun runId = true)
    (h₂ : entry.runNotice = none) (h₃ : entry.toolActivity ≠ none → entry.role = .tool) :
    Block runId [entry] :=
  ⟨by simpa using h₁, by simpa using h₂, by simpa using h₃⟩

theorem block_toolEntry (entryId callId : String) (activity : ToolActivity) :
    Block runId [toolEntry entryId callId runId activity] :=
  .singleton (by simp [Entry.ofRun, toolEntry]) rfl fun _ => rfl

theorem Block.set {entryId callId : String} {activity : ToolActivity} (h : Block runId block)
    (i : Nat) : Block runId (block.set i (toolEntry entryId callId runId activity)) := by
  have hmem : ∀ entry ∈ block.set i (toolEntry entryId callId runId activity),
      entry ∈ block ++ [toolEntry entryId callId runId activity] := by
    intro entry hentry
    obtain hentry | rfl := List.mem_or_eq_of_mem_set hentry
    · exact List.mem_append_left _ hentry
    · simp
  exact (h.append (block_toolEntry entryId callId activity)).of_subset hmem

/-- The foreign entries do not matter for where a call's entry is. -/
theorem toolIndex_append (hfront : Foreign runId front) (callId : String) :
    toolIndex (front ++ block) callId runId =
      (toolIndex block callId runId).map (front.length + ·) := by
  have hnone : ∀ turnStart : Option Nat, lastIndex front (fun entry i => turnStart.all (· < i) &&
      entry.toolActivity.any (·.callId = callId) && entry.ofRun runId) = none := by
    intro turnStart
    refine lastIndex_eq_none_iff.mpr fun i entry hentry => ?_
    rw [hfront entry (List.mem_of_getElem? hentry), Bool.and_false]
  have hturn : ∀ i entry, block[i]? = some entry →
      ((lastIndex (front ++ block) fun entry _ => entry.role = .user).all
          (· < front.length + i) &&
        entry.toolActivity.any (·.callId = callId) && entry.ofRun runId) =
      ((lastIndex block fun entry _ => entry.role = .user).all (· < i) &&
        entry.toolActivity.any (·.callId = callId) && entry.ofRun runId) := by
    intro i entry _
    congr 2
    rw [lastIndex_append]
    rcases hlast : lastIndex block fun entry _ => decide (entry.role = .user) with _ | j
    · rcases hfrontLast : lastIndex front fun entry _ => decide (entry.role = .user) with _ | j
      · simp
      · obtain ⟨entry', hentry', -⟩ := lastIndex_eq_some hfrontLast
        have hlt : j < front.length := (List.getElem?_eq_some_iff.mp hentry').1
        simp only [Option.all_some, Option.all_none, decide_eq_true_eq]
        omega
    · simp
  rw [toolIndex, toolIndex, lastIndex_append, hnone, lastIndex_congr hturn]
  rcases lastIndex block _ with _ | i
  · rfl
  · rfl

/-- The entry at the index of a call has an activity. -/
theorem exists_of_toolIndex {callId : String} {i : Nat}
    (h : toolIndex block callId runId = some i) :
    ∃ entry activity, block[i]? = some entry ∧ entry.toolActivity = some activity ∧
      activity.callId = callId := by
  rw [toolIndex] at h
  obtain ⟨entry, hentry, hcondition⟩ := lastIndex_eq_some h
  simp only [Bool.and_eq_true, Option.any_eq_true, decide_eq_true_eq] at hcondition
  obtain ⟨⟨-, activity, hactivity, hcallId⟩, -⟩ := hcondition
  exact ⟨entry, activity, hentry, hactivity, hcallId⟩

/-- What `upsertTool` makes of a block; the id of a new entry is its own. -/
def upsertBlock (b : Browser) (newId : String) (block : List Entry) (call : ToolCall)
    (runId : String) (update : ToolUpdate) : List Entry :=
  match toolIndex block call.toolCallId runId with
  | none => block ++ [toolEntry newId call.toolCallId runId (updatedActivity b call update none)]
  | some i =>
    if update.preserveStatus then block
    else block.set i (toolEntry
      ((nonEmpty (block[i]?.map (·.entryId))).getD newId) call.toolCallId runId
      (updatedActivity b call update (block[i]?.bind (·.toolActivity))))

/-- **A tool entry** is added or replaced behind the foreign entries. -/
theorem upsertTool_append (hfront : Foreign runId front) (call : ToolCall)
    (update : ToolUpdate) :
    upsertTool b (front ++ block) call runId update = front ++ upsertBlock b
      ("tool-" ++ runId ++ "-" ++ toString (front ++ block).length ++ "-" ++ call.toolCallId)
      block call runId update := by
  rw [upsertTool, toolIndex_append hfront, upsertBlock]
  rcases hindex : toolIndex block call.toolCallId runId with _ | i
  · simp [toolEntry, nonEmpty]
  · obtain ⟨entry, activity, hentry, hactivity, -⟩ := exists_of_toolIndex hindex
    have hget : (front ++ block)[front.length + i]? = some entry := by
      rw [List.getElem?_append_right (by omega), Nat.add_sub_cancel_left, hentry]
    simp only [Option.map_some, Option.bind_some, hget, hentry, hactivity, Option.isSome_some,
      Bool.true_and]
    split_ifs
    · rfl
    · rw [List.set_append_right _ _ (by omega), Nat.add_sub_cancel_left]
      rfl

theorem block_upsertBlock (h : Block runId block) (newId : String) (call : ToolCall)
    (update : ToolUpdate) : Block runId (upsertBlock b newId block call runId update) := by
  unfold upsertBlock
  split
  · exact h.append (block_toolEntry _ _ _)
  · split_ifs
    · exact h
    · exact h.set _

/-! ### A response -/

/-- The id of a new tool entry. -/
def toolEntryId (runId : String) (length : Nat) (callId : String) : String :=
  "tool-" ++ runId ++ "-" ++ toString length ++ "-" ++ callId

/-- The entry of a completed response. -/
def responseEntry (response : ChatResponse) (length : Nat) (runId : String) : Entry :=
  { assistantEntry response (length + 1) with
    entryId := match nonEmpty response.responseId with
      | some responseId => runId ++ "-response-" ++ responseId
      | none => runId ++ "-assistant-" ++ toString (length + 1)
    streamRunId := some runId
    streaming := some false }

/-- The last entry of the block that is not a tool's. -/
def lastText (block : List Entry) : Option Entry :=
  block.reverse.find? fun item => item.toolActivity.isNone

def hasCall (block : List Entry) (callId : String) : Bool :=
  block.any fun item => item.toolActivity.any (·.callId = callId)

/-- The last entry, if it is a text being streamed. -/
def streamedText (block : List Entry) : Option Entry :=
  block.getLast?.filter fun item => item.streaming = some true && item.toolActivity.isNone

/-- The block has the response already, as far as `completeStreamedResponse` can tell. -/
def shows (block : List Entry) (response : ChatResponse) (entryId : String) : Bool :=
  (lastText block).any fun item =>
    item.streaming ≠ some true &&
    (((nonEmpty response.responseId).isSome && item.entryId = entryId) ||
      (item.text = visibleTextFromContent response.message &&
        (block.getLast?.any (·.toolActivity.isNone) ||
          (!(response.message.toolCalls.getD []).isEmpty &&
            (response.message.toolCalls.getD []).all fun call =>
              hasCall block call.toolCallId))))

/-- The text of a response in a block. -/
def closeText (block : List Entry) (response : ChatResponse) (entry : Entry) : List Entry :=
  match streamedText block with
  | some item =>
    if visibleTextFromContent response.message ≠ "" then
      block.dropLast ++ [{ entry with entryId := item.entryId }]
    else block.dropLast
  | none =>
    if visibleTextFromContent response.message ≠ "" && !shows block response entry.entryId then
      block ++ [entry]
    else block

/-- The calls of a response in a block behind `offset` entries. -/
def openCalls (b : Browser) (offset : Nat) (runId : String) (block : List Entry)
    (calls : List ToolCall) : List Entry :=
  calls.foldl (fun block call =>
    upsertBlock b (toolEntryId runId (offset + block.length) call.toolCallId) block call runId
      { status := .pending, preserveStatus := true }) block

/-- What `completeStreamedResponse` makes of a block behind `offset` entries. -/
def completeBlock (b : Browser) (offset : Nat) (block : List Entry) (response : ChatResponse)
    (runId : String) : List Entry :=
  openCalls b offset runId
    (closeText block response (responseEntry response (offset + block.length) runId))
    (response.message.toolCalls.getD [])

theorem block_openCalls (h : Block runId block) (offset : Nat) (calls : List ToolCall) :
    Block runId (openCalls b offset runId block calls) := by
  induction calls generalizing block with
  | nil => exact h
  | cons call calls ih => exact ih (block_upsertBlock h _ _ _)

theorem foldl_upsertTool_append (hfront : Foreign runId front) (calls : List ToolCall) :
    calls.foldl (fun result call =>
        upsertTool b result call runId { status := .pending, preserveStatus := true })
      (front ++ block) = front ++ openCalls b front.length runId block calls := by
  induction calls generalizing block with
  | nil => rfl
  | cons call calls ih =>
    rw [List.foldl_cons, upsertTool_append hfront, ih, List.length_append]
    rfl

theorem block_closeText (h : Block runId block) (response : ChatResponse) (length : Nat) :
    Block runId (closeText block response (responseEntry response length runId)) := by
  have hentry : ∀ entryId, Block runId
      [{ responseEntry response length runId with entryId := entryId }] :=
    fun entryId => .singleton (by simp [Entry.ofRun, responseEntry]) rfl
      fun hactivity => absurd rfl hactivity
  have hlast : Block runId block.dropLast := h.of_subset (List.dropLast_subset block)
  unfold closeText
  split
  · split_ifs
    · exact hlast.append (hentry _)
    · exact hlast
  · split_ifs
    · exact h.append (hentry _)
    · exact h

theorem block_completeBlock (h : Block runId block) (offset : Nat) (response : ChatResponse) :
    Block runId (completeBlock b offset block response runId) :=
  block_openCalls (block_closeText h response _) offset _

theorem Foreign.filter (h : Foreign runId front) :
    front.filter (fun entry => entry.ofRun runId) = [] :=
  List.filter_eq_nil_iff.mpr fun entry hentry => by simp [h entry hentry]

theorem Block.filter (h : Block runId block) :
    block.filter (fun entry => entry.ofRun runId) = block :=
  List.filter_eq_self.mpr h.ofRun

/-- **A completed response** changes the block only, if what comes behind the block is foreign. -/
theorem completeStreamedResponse_append {trailing : List Entry} (hfront : Foreign runId front)
    (hblock : Block runId block) (htrailing : Foreign runId trailing)
    (hplace : block ≠ [] ∨ trailing = []) (response : ChatResponse) :
    completeStreamedResponse b (front ++ block ++ trailing) response runId =
      front ++ completeBlock b front.length block response runId ++ trailing := by
  have hnone : ∀ entries, Foreign runId entries →
      lastIndex entries (fun item _ => item.ofRun runId) = none := fun entries h =>
    lastIndex_eq_none_iff.mpr fun i entry hentry => h entry (List.mem_of_getElem? hentry)
  have hparts : ∃ last?, lastIndex (front ++ block ++ trailing)
      (fun item _ => item.ofRun runId) = last? ∧
      (last?.elim [] fun i => (front ++ block ++ trailing).drop (i + 1)) = trailing ∧
      (last?.elim (front ++ block ++ trailing) fun i =>
        (front ++ block ++ trailing).take (i + 1)) = front ++ block := by
    refine ⟨_, rfl, ?_⟩
    rw [lastIndex_append, hnone trailing htrailing]
    rcases block.eq_nil_or_concat with rfl | ⟨rest, last, rfl⟩
    · obtain rfl : trailing = [] := hplace.resolve_left (by simp)
      simp [hnone front hfront]
    · rw [List.concat_eq_append] at hblock ⊢
      have hlast : last.ofRun runId = true := hblock.ofRun last (by simp)
      rw [← List.append_assoc, lastIndex_concat, if_pos hlast]
      constructor
      · refine List.drop_left' ?_
        simp [Nat.add_assoc]
      · refine List.take_left' ?_
        simp [Nat.add_assoc]
  obtain ⟨last?, hlast, hdrop, htake⟩ := hparts
  have hfilter : (front ++ block).filter (fun item => item.ofRun runId) = block := by
    rw [List.filter_append, hfront.filter, hblock.filter, List.nil_append]
  have hprevious : (front ++ block).reverse.find? (fun item =>
      item.ofRun runId && item.toolActivity.isNone && item.runNotice.isNone) = lastText block := by
    have hnoneFront : front.reverse.find? (fun item =>
        item.ofRun runId && item.toolActivity.isNone && item.runNotice.isNone) = none := by
      refine List.find?_eq_none.mpr fun item hitem => ?_
      simp [hfront item (List.mem_reverse.mp hitem)]
    rw [List.reverse_append, List.find?_append, hnoneFront, Option.or_none, lastText]
    refine List.find?_congr fun item hitem => ?_
    have hmem := List.mem_reverse.mp hitem
    simp [hblock.ofRun item hmem, hblock.runNotice item hmem]
  have hlastIsPrevious : (block.getLast?.any fun item =>
      item.toolActivity.isNone && item.runNotice.isNone) =
        block.getLast?.any (·.toolActivity.isNone) := by
    rcases hget : block.getLast? with _ | item
    · rfl
    · simp [hblock.runNotice item (List.mem_of_getLast? hget)]
  have hhasCall : ∀ callId, ((front ++ block).any fun item =>
      item.ofRun runId && item.toolActivity.any (·.callId = callId)) = hasCall block callId := by
    intro callId
    have hfrontAny : (front.any fun item =>
        item.ofRun runId && item.toolActivity.any (·.callId = callId)) = false := by
      refine List.any_eq_false.mpr fun item hitem => ?_
      simp [hfront item hitem]
    rw [List.any_append, hfrontAny, Bool.false_or, hasCall]
    rw [Bool.eq_iff_iff, List.any_eq_true, List.any_eq_true]
    refine exists_congr fun item => and_congr_right fun hitem => ?_
    rw [hblock.ofRun item hitem, Bool.true_and]
  have hstreamed : ∀ item, block.getLast? = some item → (front ++ block).dropLast =
      front ++ block.dropLast := by
    intro item hitem
    exact List.dropLast_append_of_ne_nil (by rintro rfl; simp at hitem)
  rw [completeStreamedResponse, hlast]
  simp only [hdrop, htake, hfilter, hprevious, hlastIsPrevious, hhasCall]
  rw [List.append_cancel_right_eq, completeBlock, ← List.length_append,
    ← foldl_upsertTool_append hfront]
  congr 1
  rw [closeText]
  rcases hitem : streamedText block with _ | item
  · rw [streamedText] at hitem
    rw [hitem]
    dsimp only
    rw [apply_ite (front ++ ·), List.append_assoc]
    rfl
  · obtain ⟨hget, -⟩ := Option.filter_eq_some_iff.mp hitem
    rw [streamedText] at hitem
    rw [hitem, hstreamed item hget]
    dsimp only
    rw [apply_ite (front ++ ·), List.append_assoc]
    rfl

/-! ### Events, approvals and the whole block -/

/-- The entry of a text being streamed. -/
def deltaEntry (entryId text runId : String) : Entry where
  entryId := entryId
  role := .assistant
  text := text
  streamRunId := some runId
  streaming := some true
  content := { role := .assistant, content := some [{ type := .text, text := some text }] }

/-- What a text delta makes of a block. -/
def deltaBlock (newId : String) (block : List Entry) (delta runId : String) : List Entry :=
  match streamedText block with
  | some item => block.dropLast ++ [deltaEntry item.entryId (item.text ++ delta) runId]
  | none => block ++ [deltaEntry newId ("" ++ delta) runId]

theorem applyDelta_append (hfront : Foreign runId front) (hblock : Block runId block)
    (delta : String) :
    applyDelta (front ++ block) delta runId = front ++ deltaBlock
      ("stream-" ++ runId ++ "-" ++ toString (front.length + block.length)) block delta runId := by
  have hcontinued : ((front ++ block).getLast?.filter fun last =>
      last.ofRun runId && last.streaming = some true && last.toolActivity.isNone) =
        streamedText block := by
    rcases block.eq_nil_or_concat with rfl | ⟨rest, last, rfl⟩
    · rw [List.append_nil]
      refine Option.filter_eq_none_iff.mpr fun last hlast => ?_
      simp [hfront last (List.mem_of_getLast? hlast)]
    · have hlast : last.ofRun runId = true := hblock.ofRun last (by simp)
      simp [streamedText, Option.filter, hlast]
  rw [applyDelta, hcontinued, deltaBlock, List.length_append]
  rcases hitem : streamedText block with _ | item
  · dsimp only [Option.elim]
    rw [List.append_assoc]
    rfl
  · have hne : block ≠ [] := by
      rintro rfl
      simp [streamedText] at hitem
    dsimp only [Option.elim]
    rw [List.dropLast_append_of_ne_nil hne, List.append_assoc]
    rfl

theorem block_deltaBlock (h : Block runId block) (newId delta : String) :
    Block runId (deltaBlock newId block delta runId) := by
  have hentry : ∀ entryId text, Block runId [deltaEntry entryId text runId] := fun entryId text =>
    .singleton (by simp [Entry.ofRun, deltaEntry]) rfl fun hactivity => absurd rfl hactivity
  unfold deltaBlock
  split
  · exact (h.of_subset (List.dropLast_subset block)).append (hentry _ _)
  · exact h.append (hentry _ _)

/-- What an event asks of the transcript. -/
inductive EventEffect
  | complete (response : ChatResponse)
  | update (call : ToolCall) (status : ToolStatus)
  | delta (text : String)
  | ignore
  deriving DecidableEq, Repr

def eventEffect (event : AgentTraceEvent) : EventEffect :=
  match event.eventType, event.response with
  | .chatCompleted, some response => .complete response
  | _, _ =>
    match eventCall event, eventStatus event with
    | some call, some status => .update call status
    | _, _ =>
      match event.eventType, nonEmpty event.textDelta with
      | .chatDelta, some delta => .delta delta
      | _, _ => .ignore

theorem eventType_of_complete {event : AgentTraceEvent} {response : ChatResponse}
    (h : eventEffect event = .complete response) :
    event.eventType = .chatCompleted ∧ event.response = some response := by
  unfold eventEffect at h
  generalize eventCall event = call, eventStatus event = status,
    nonEmpty event.textDelta = delta at h
  split at h
  · next htype hresponse =>
    exact ⟨htype, hresponse.trans (congrArg some (EventEffect.complete.inj h))⟩
  · rcases call with _ | call <;> rcases status with _ | status <;> grind

theorem eventCall_of_update {event : AgentTraceEvent} {call : ToolCall} {status : ToolStatus}
    (h : eventEffect event = .update call status) :
    eventCall event = some call ∧ eventStatus event = some status := by
  unfold eventEffect at h
  grind

theorem textDelta_of_delta {event : AgentTraceEvent} {text : String}
    (h : eventEffect event = .delta text) :
    event.eventType = .chatDelta ∧ nonEmpty event.textDelta = some text := by
  unfold eventEffect at h
  grind

theorem applyChatTrace_eq (entries : List Entry) (event : AgentTraceEvent) :
    applyChatTrace b entries event runId =
      match eventEffect event with
      | .complete response => completeStreamedResponse b entries response runId
      | .update call status => upsertTool b entries call runId (eventUpdate b event status)
      | .delta text => applyDelta entries text runId
      | .ignore => entries := by
  unfold applyChatTrace eventEffect
  generalize eventCall event = call, eventStatus event = status,
    nonEmpty event.textDelta = delta, event.response = response, event.eventType = eventType
  cases eventType <;> cases response <;> cases call <;> cases status <;> cases delta <;> rfl

/-- What an event makes of a block behind `offset` entries. -/
def eventBlock (b : Browser) (offset : Nat) (runId : String) (block : List Entry)
    (event : AgentTraceEvent) : List Entry :=
  match eventEffect event with
  | .complete response => completeBlock b offset block response runId
  | .update call status =>
    upsertBlock b (toolEntryId runId (offset + block.length) call.toolCallId) block call runId
      (eventUpdate b event status)
  | .delta text =>
    deltaBlock ("stream-" ++ runId ++ "-" ++ toString (offset + block.length)) block text runId
  | .ignore => block

/-- **An event** changes the block only. -/
theorem applyChatTrace_append (hfront : Foreign runId front) (hblock : Block runId block)
    (event : AgentTraceEvent) :
    applyChatTrace b (front ++ block) event runId =
      front ++ eventBlock b front.length runId block event := by
  rw [applyChatTrace_eq, eventBlock]
  rcases eventEffect event with response | ⟨call, status⟩ | text | _
  · have h := completeStreamedResponse_append (b := b) hfront hblock
      (List.forall_mem_nil _ : Foreign runId []) (Or.inr rfl) response
    rwa [List.append_nil, List.append_nil] at h
  · dsimp only
    rw [upsertTool_append hfront, List.length_append]
    rfl
  · exact applyDelta_append hfront hblock text
  · rfl

theorem block_eventBlock (h : Block runId block) (offset : Nat) (event : AgentTraceEvent) :
    Block runId (eventBlock b offset runId block event) := by
  rw [eventBlock]
  rcases eventEffect event with response | ⟨call, status⟩ | text | _
  · exact block_completeBlock h offset response
  · exact block_upsertBlock h _ _ _
  · exact block_deltaBlock h _ _
  · exact h

theorem foldl_applyChatTrace (hfront : Foreign runId front) (hblock : Block runId block)
    (events : List AgentTraceEvent) :
    events.foldl (fun entries event => applyChatTrace b entries event runId) (front ++ block) =
        front ++ events.foldl (eventBlock b front.length runId) block ∧
      Block runId (events.foldl (eventBlock b front.length runId) block) := by
  induction events generalizing block with
  | nil => exact ⟨rfl, hblock⟩
  | cons event events ih =>
    rw [List.foldl_cons, List.foldl_cons, applyChatTrace_append hfront hblock]
    exact ih (block_eventBlock hblock _ _)

/-- What a pending approval makes of a block behind `offset` entries. -/
def approvalBlock (b : Browser) (offset : Nat) (run : Run) (block : List Entry)
    (approval : ApprovalRequest) : List Entry :=
  let recorded := (block.reverse.find? fun entry =>
    entry.toolActivity.any (·.callId = approval.toolCallId)).bind (·.toolActivity)
  let decided := run.events.any fun event =>
    event.eventType = .toolApprovalDecided &&
      ((nonEmpty (event.toolCall.map (·.toolCallId))) <|>
        event.approvalDecision.map (·.toolCallId)) = some approval.toolCallId
  if recorded.any (fun activity =>
      [ToolStatus.running, .completed, .failed, .canceled].contains activity.status) then block
  else if recorded.any (·.status = .pending) && decided then block
  else eventBlock b offset run.runId block
    { eventType := .toolApprovalRequested, approvalRequest := some approval }

theorem showApproval_append {run : Run} (hfront : Foreign run.runId front)
    (hblock : Block run.runId block) (approval : ApprovalRequest) :
    showApproval b run (front ++ block) approval =
        front ++ approvalBlock b front.length run block approval ∧
      Block run.runId (approvalBlock b front.length run block approval) := by
  have hrecorded : (front ++ block).reverse.find? (fun entry => entry.ofRun run.runId &&
      entry.toolActivity.any (·.callId = approval.toolCallId)) =
        block.reverse.find? fun entry =>
          entry.toolActivity.any (·.callId = approval.toolCallId) := by
    have hnone : front.reverse.find? (fun entry => entry.ofRun run.runId &&
        entry.toolActivity.any (·.callId = approval.toolCallId)) = none := by
      refine List.find?_eq_none.mpr fun item hitem => ?_
      simp [hfront item (List.mem_reverse.mp hitem)]
    rw [List.reverse_append, List.find?_append, hnone, Option.or_none]
    refine List.find?_congr fun item hitem => ?_
    rw [hblock.ofRun item (List.mem_reverse.mp hitem), Bool.true_and]
  unfold showApproval approvalBlock
  rw [hrecorded]
  dsimp only
  split_ifs
  · exact ⟨rfl, hblock⟩
  · exact ⟨rfl, hblock⟩
  · exact ⟨applyChatTrace_append hfront hblock _, block_eventBlock hblock _ _⟩

theorem foldl_showApproval {run : Run} (hfront : Foreign run.runId front)
    (hblock : Block run.runId block) (approvals : List ApprovalRequest) :
    approvals.foldl (showApproval b run) (front ++ block) =
        front ++ approvals.foldl (approvalBlock b front.length run) block ∧
      Block run.runId (approvals.foldl (approvalBlock b front.length run) block) := by
  induction approvals generalizing block with
  | nil => exact ⟨rfl, hblock⟩
  | cons approval approvals ih =>
    obtain ⟨hshow, hnext⟩ := showApproval_append (b := b) hfront hblock approval
    rw [List.foldl_cons, List.foldl_cons, hshow]
    exact ih hnext

/-- The block that events and approvals make behind `offset` entries. -/
def replayedBlock (b : Browser) (offset : Nat) (run : Run) : List Entry :=
  run.pendingApprovalRequests.foldl (approvalBlock b offset run)
    ((unseenEvents [] run.events).foldl (eventBlock b offset run.runId) [])

/-- The block of a run behind `offset` entries. -/
def runBlock (b : Browser) (offset : Nat) (run : Run) : List Entry :=
  (if run.stopped then (replayedBlock b offset run).map (settleEntry run)
    else replayedBlock b offset run) ++ (noticeEntry run).toList

theorem settleEntry_ofRun (run : Run) (entry : Entry) (runId : String) :
    (settleEntry run entry).ofRun runId = entry.ofRun runId := by
  unfold settleEntry
  split_ifs <;> rfl

theorem settleEntry_runNotice (run : Run) (entry : Entry) :
    (settleEntry run entry).runNotice = entry.runNotice := by
  unfold settleEntry
  split_ifs <;> rfl

theorem ofRun_of_mem_runBlock {run : Run} {offset : Nat}
    (hreplayed : Block run.runId (replayedBlock b offset run)) :
    ∀ entry ∈ runBlock b offset run, entry.ofRun run.runId = true := by
  intro entry hentry
  obtain hentry | hentry := List.mem_append.mp hentry
  · split_ifs at hentry
    · obtain ⟨entry', hentry', rfl⟩ := List.mem_map.mp hentry
      rw [settleEntry_ofRun]
      exact hreplayed.ofRun entry' hentry'
    · exact hreplayed.ofRun entry hentry
  · rw [Option.mem_toList, noticeEntry] at hentry
    split at hentry
    · rw [Option.some.injEq] at hentry
      subst hentry
      simp [Entry.ofRun]
    · rw [Option.some.injEq] at hentry
      subst hentry
      simp [Entry.ofRun]
    · cases hentry

/-- The loops of a reconciliation over foreign entries. -/
theorem replay_append {run : Run} (hfront : Foreign run.runId front) :
    run.pendingApprovalRequests.foldl (showApproval b run)
        (replayEvents b front run.events run.runId) =
        front ++ replayedBlock b front.length run ∧
      Block run.runId (replayedBlock b front.length run) := by
  obtain ⟨hevents, hblock⟩ := foldl_applyChatTrace (b := b) hfront (@Block.nil run.runId)
    (unseenEvents [] run.events)
  rw [List.append_nil] at hevents
  rw [replayEvents, hevents]
  exact foldl_showApproval hfront hblock _

/-- **A reconciliation**: the entries before, the block of the run, and what came behind. -/
theorem reconcile_of_split {run : Run} {entries trailing : List Entry}
    (hsplit : splitTranscript entries run = (front, trailing))
    (hfront : Foreign run.runId front) :
    reconcileRunTranscript b entries run =
      front ++ runBlock b front.length run ++ trailing := by
  obtain ⟨hreplay, hblock⟩ := replay_append (b := b) hfront
  have hsettleFront : front.map (settleEntry run) = front := by
    refine (List.map_congr_left fun entry hentry => ?_).trans front.map_id
    rw [settleEntry, if_neg (by simp [hfront entry hentry]), id]
  have hkeepFront : front.filter (fun entry =>
      !(entry.ofRun run.runId && entry.runNotice.isSome)) = front :=
    List.filter_eq_self.mpr fun entry hentry => by simp [hfront entry hentry]
  have hkeep : ∀ block : List Entry, (∀ entry ∈ block, entry.runNotice = none) →
      block.filter (fun entry => !(entry.ofRun run.runId && entry.runNotice.isSome)) = block :=
    fun block h => List.filter_eq_self.mpr fun entry hentry => by simp [h entry hentry]
  have hsettled : ∀ entry ∈ (replayedBlock b front.length run).map (settleEntry run),
      entry.runNotice = none := by
    intro entry hentry
    obtain ⟨entry', hentry', rfl⟩ := List.mem_map.mp hentry
    rw [settleEntry_runNotice]
    exact hblock.runNotice entry' hentry'
  simp only [reconcileRunTranscript, hsplit, hreplay, runBlock]
  split_ifs
  · rw [List.map_append, hsettleFront, List.filter_append, hkeepFront, hkeep _ hsettled]
    simp [List.append_assoc]
  · rw [List.filter_append, hkeepFront, hkeep _ hblock.runNotice]
    simp [List.append_assoc]

end Blocks

end EvernightAI.Frontend
