import EvernightAI.Frontend.Reconcile

/-!
# What a snapshot settles

A reconciliation reads two things of a transcript: the entries that are not of the run, and where
the first entry of the run is. What it puts there depends on the snapshot alone, up to the ids of
new entries; whether it puts anything there does not even depend on these (`HasShape`). So a
second reconciliation finds the same place and changes nothing.

A finished run has its last response in the transcript (`Completed`), and completing the response
again changes nothing, if no later event of the trace brought text or another call.
-/

namespace EvernightAI.Frontend

/-! ### Where the entries are cut -/

/-- The entries that are not of the run. -/
def foreignEntries (runId : String) (entries : List Entry) : List Entry :=
  entries.filter fun entry => !entry.ofRun runId

section Cut

variable {b : Browser} {runId : String} {run : Run} {entries front : List Entry}

theorem foreign_foreignEntries : Foreign runId (foreignEntries runId entries) := by
  intro entry hentry
  simpa using (List.mem_filter.mp hentry).2

theorem Foreign.of_subset (h : Foreign runId entries) (hsub : front ⊆ entries) :
    Foreign runId front :=
  fun entry hentry => h entry (hsub hentry)

theorem Foreign.foreignEntries_eq (h : Foreign runId front) :
    foreignEntries runId front = front :=
  List.filter_eq_self.mpr fun entry hentry => by simp [h entry hentry]

theorem foreignEntries_append (entries entries' : List Entry) :
    foreignEntries runId (entries ++ entries') =
      foreignEntries runId entries ++ foreignEntries runId entries' :=
  List.filter_append ..

theorem foreignEntries_eq_nil (h : ∀ entry ∈ entries, entry.ofRun runId = true) :
    foreignEntries runId entries = [] :=
  List.filter_eq_nil_iff.mpr fun entry hentry => by simp [h entry hentry]

/-- What comes before the place of the run, and what comes behind it. -/
def cutAt (place : Option Nat) (foreign : List Entry) : List Entry × List Entry :=
  match place with
  | none => (foreign, [])
  | some first => (foreign.take first, foreign.drop first)

theorem cutAt_append (place : Option Nat) (foreign : List Entry) :
    (cutAt place foreign).1 ++ (cutAt place foreign).2 = foreign := by
  rcases place with _ | first
  · exact List.append_nil foreign
  · exact List.take_append_drop first foreign

/-- Only the foreign entries and the place of the run matter for the cut. -/
theorem splitTranscript_eq (hevents : run.events ≠ []) :
    splitTranscript entries run =
      cutAt (entries.findIdx? (·.ofRun run.runId)) (foreignEntries run.runId entries) := by
  rw [splitTranscript, if_neg (by simpa using hevents)]
  rcases hplace : entries.findIdx? (·.ofRun run.runId) with _ | first
  · have hforeign : Foreign run.runId entries := List.findIdx?_eq_none_iff.mp hplace
    rw [hforeign.foreignEntries_eq, hplace]
    rfl
  · obtain ⟨hlt, -, hbefore⟩ := List.findIdx?_eq_some_iff_getElem.mp hplace
    have hforeign : Foreign run.runId (entries.take first) := by
      intro entry hentry
      obtain ⟨i, hi, rfl⟩ := List.mem_iff_getElem.mp hentry
      rw [List.getElem_take]
      rw [List.length_take] at hi
      simpa using hbefore i (by omega)
    have hparts : foreignEntries run.runId entries =
        entries.take first ++ foreignEntries run.runId (entries.drop first) := by
      have happend := @foreignEntries_append run.runId (entries.take first) (entries.drop first)
      rwa [List.take_append_drop, hforeign.foreignEntries_eq] at happend
    have hlength : (entries.take first).length = first := by
      rw [List.length_take]
      omega
    rw [hparts, hplace]
    dsimp only [cutAt]
    rw [List.take_left' hlength, List.drop_left' hlength]
    rfl

/-- **A reconciliation** puts the block of the run where the foreign entries are cut. -/
theorem reconcile_eq (hevents : run.events ≠ []) (entries : List Entry) :
    ∃ front trailing,
      cutAt (entries.findIdx? (·.ofRun run.runId)) (foreignEntries run.runId entries) =
        (front, trailing) ∧
      Foreign run.runId front ∧ Foreign run.runId trailing ∧
      reconcileRunTranscript b entries run =
        front ++ runBlock b front.length run ++ trailing ∧
      ∀ entry ∈ runBlock b front.length run, entry.ofRun run.runId = true := by
  obtain ⟨front, trailing, hcut⟩ : ∃ front trailing,
      cutAt (entries.findIdx? (·.ofRun run.runId)) (foreignEntries run.runId entries) =
        (front, trailing) := ⟨_, _, rfl⟩
  have happend := cutAt_append (entries.findIdx? (·.ofRun run.runId))
    (foreignEntries run.runId entries)
  rw [hcut] at happend
  have hfront : Foreign run.runId front :=
    foreign_foreignEntries.of_subset (happend ▸ List.subset_append_left _ _)
  have htrailing : Foreign run.runId trailing :=
    foreign_foreignEntries.of_subset (happend ▸ List.subset_append_right _ _)
  exact ⟨front, trailing, hcut, hfront, htrailing,
    reconcile_of_split ((splitTranscript_eq hevents).trans hcut) hfront,
    ofRun_of_mem_runBlock (replay_append hfront).2⟩

/-- Foreign entries stay as they are and in their order. -/
theorem foreignEntries_reconcile (hevents : run.events ≠ []) (entries : List Entry) :
    foreignEntries run.runId (reconcileRunTranscript b entries run) =
      foreignEntries run.runId entries := by
  obtain ⟨front, trailing, hcut, hfront, htrailing, hresult, hblock⟩ :=
    reconcile_eq (b := b) hevents entries
  have happend := cutAt_append (entries.findIdx? (·.ofRun run.runId))
    (foreignEntries run.runId entries)
  rw [hcut] at happend
  rw [hresult, foreignEntries_append, foreignEntries_append, foreignEntries_eq_nil hblock,
    hfront.foreignEntries_eq, htrailing.foreignEntries_eq, List.append_nil]
  exact happend

theorem reconcile_congr {entries' : List Entry} (hevents : run.events ≠ [])
    (hforeign : foreignEntries run.runId entries = foreignEntries run.runId entries')
    (hplace : entries.findIdx? (·.ofRun run.runId) = entries'.findIdx? (·.ofRun run.runId)) :
    reconcileRunTranscript b entries run = reconcileRunTranscript b entries' run := by
  obtain ⟨front, trailing, hcut, -, -, hresult, -⟩ := reconcile_eq (b := b) hevents entries
  obtain ⟨front', trailing', hcut', -, -, hresult', -⟩ := reconcile_eq (b := b) hevents entries'
  rw [hforeign, hplace, hcut', Prod.mk.injEq] at hcut
  rw [hresult, hresult', hcut.1, hcut.2]

end Cut

/-! ### Whether a run has entries -/

/-- The entry is a text being streamed. -/
def Entry.streams (entry : Entry) : Bool :=
  entry.streaming = some true && entry.toolActivity.isNone

/-- What matters of a block for whether it ends up empty. -/
inductive Shape
  | empty
  | streaming
  | solid
  deriving DecidableEq, Repr

/-- A block is empty, a single text being streamed, or has an entry that stays. -/
def HasShape (shape : Shape) (block : List Entry) : Prop :=
  match shape with
  | .empty => block = []
  | .streaming => ∃ entry, block = [entry] ∧ entry.streams = true
  | .solid => ∃ entry ∈ block, entry.streams = false

/-- The shape after an event. -/
def Shape.next (shape : Shape) (event : AgentTraceEvent) : Shape :=
  match eventEffect event with
  | .complete response =>
    if visibleTextFromContent response.message = "" ∧
        response.message.toolCalls.getD [] = [] ∧ shape ≠ .solid then .empty
    else .solid
  | .update _ _ => .solid
  | .delta _ => if shape = .solid then .solid else .streaming
  | .ignore => shape

section Shapes

variable {b : Browser} {runId : String} {block : List Entry} {shape : Shape}

theorem HasShape.eq_nil_iff (h : HasShape shape block) : block = [] ↔ shape = .empty := by
  cases shape with
  | empty => exact iff_of_true h rfl
  | streaming =>
    obtain ⟨entry, rfl, -⟩ := h
    simp
  | solid =>
    obtain ⟨entry, hentry, -⟩ := h
    simp [List.ne_nil_of_mem hentry]

theorem hasShape_upsertBlock (newId : String) (call : ToolCall) (update : ToolUpdate) :
    HasShape .solid (upsertBlock b newId block call runId update) := by
  have htool : ∀ entryId activity,
      (toolEntry entryId call.toolCallId runId activity).streams = false :=
    fun entryId activity => by simp [Entry.streams, toolEntry]
  rw [upsertBlock]
  rcases hindex : toolIndex block call.toolCallId runId with _ | i
  · exact ⟨_, List.mem_append_right _ (List.mem_singleton_self _), htool _ _⟩
  · obtain ⟨entry, activity, hentry, hactivity, -⟩ := exists_of_toolIndex hindex
    dsimp only
    split_ifs
    · exact ⟨entry, List.mem_of_getElem? hentry, by simp [Entry.streams, hactivity]⟩
    · have hlt : i < block.length := (List.getElem?_eq_some_iff.mp hentry).1
      exact ⟨_, List.mem_set hlt _, htool _ _⟩

theorem hasShape_openCalls {calls : List ToolCall} (h : calls = [] → HasShape .solid block)
    (offset : Nat) : HasShape .solid (openCalls b offset runId block calls) := by
  induction calls generalizing block with
  | nil => exact h rfl
  | cons call calls ih => exact ih fun _ => hasShape_upsertBlock _ _ _

theorem streamedText_eq_some {item : Entry} (h : streamedText block = some item) :
    ∃ rest, block = rest ++ [item] ∧ item.streams = true := by
  obtain ⟨hlast, hstreams⟩ := Option.filter_eq_some_iff.mp h
  obtain ⟨rest, rfl⟩ := List.getLast?_eq_some_iff.mp hlast
  exact ⟨rest, rfl, hstreams⟩

/-- A text being streamed at the end of the block is not what makes it solid. -/
theorem hasShape_dropLast {rest : List Entry} {item : Entry} (hitem : item.streams = true)
    (h : HasShape .solid (rest ++ [item])) : HasShape .solid rest := by
  obtain ⟨entry, hentry, hstreams⟩ := h
  obtain hentry | hentry := List.mem_append.mp hentry
  · exact ⟨entry, hentry, hstreams⟩
  · rw [List.mem_singleton] at hentry
    rw [hentry, hitem] at hstreams
    exact absurd hstreams Bool.noConfusion

theorem HasShape.append_solid {entry : Entry} (h : HasShape .solid block) :
    HasShape .solid (block ++ [entry]) := by
  obtain ⟨entry', hentry', hstreams⟩ := h
  exact ⟨entry', List.mem_append_left _ hentry', hstreams⟩

theorem hasShape_closeText (h : HasShape shape block) (response : ChatResponse) (length : Nat) :
    HasShape (if visibleTextFromContent response.message = "" ∧ shape ≠ .solid then .empty
      else .solid) (closeText block response (responseEntry response length runId)) := by
  have hentry : ∀ rest entryId, HasShape .solid
      (rest ++ [{ responseEntry response length runId with entryId := entryId }]) :=
    fun rest entryId => ⟨_, List.mem_append_right _ (List.mem_singleton_self _), rfl⟩
  rw [closeText]
  rcases hstreamed : streamedText block with _ | item
  · by_cases htext : visibleTextFromContent response.message = ""
    · simp only [htext, true_and, ne_eq, not_true, decide_false, Bool.false_and,
        Bool.false_eq_true, if_false]
      cases shape with
      | empty => exact h
      | streaming =>
        -- a single text being streamed is at the end
        obtain ⟨entry, rfl, hstreams⟩ := h
        have : streamedText [entry] = some entry :=
          Option.filter_eq_some_iff.mpr ⟨rfl, hstreams⟩
        rw [this] at hstreamed
        exact absurd hstreamed (Option.some_ne_none _)
      | solid => exact h
    · rw [if_neg fun hboth => htext hboth.1]
      simp only [ne_eq, htext, not_false_eq_true, decide_true, Bool.true_and]
      split_ifs with hshown
      · exact hentry block _
      · rw [Bool.not_eq_true, Bool.not_eq_false', shows, Option.any_eq_true] at hshown
        obtain ⟨last, hlast, hshown⟩ := hshown
        rw [Bool.and_eq_true, decide_eq_true_eq] at hshown
        refine ⟨last, List.mem_reverse.mp (List.mem_of_find?_eq_some hlast), ?_⟩
        rw [Entry.streams, decide_eq_false hshown.1, Bool.false_and]
  · obtain ⟨rest, rfl, hitem⟩ := streamedText_eq_some hstreamed
    dsimp only
    rw [List.dropLast_concat]
    by_cases htext : visibleTextFromContent response.message = ""
    · rw [if_neg (not_not.mpr htext)]
      cases shape with
      | empty => exact absurd h (by simp [HasShape])
      | streaming =>
        obtain ⟨entry, hsingle, -⟩ := h
        obtain ⟨hrest, -⟩ := List.append_eq_singleton_iff.mp hsingle |>.resolve_right (by simp)
        rw [if_pos ⟨htext, by decide⟩]
        exact hrest
      | solid =>
        rw [if_neg (by simp)]
        exact hasShape_dropLast hitem h
    · rw [if_pos htext, if_neg fun hboth => htext hboth.1]
      exact hentry rest _

theorem hasShape_deltaBlock (h : HasShape shape block) (newId delta : String) :
    HasShape (if shape = .solid then .solid else .streaming)
      (deltaBlock newId block delta runId) := by
  have hdelta : ∀ entryId text, (deltaEntry entryId text runId).streams = true :=
    fun entryId text => rfl
  rw [deltaBlock]
  rcases hstreamed : streamedText block with _ | item
  · cases shape with
    | empty =>
      obtain rfl : block = [] := h
      exact ⟨_, rfl, hdelta _ _⟩
    | streaming =>
      obtain ⟨entry, rfl, hstreams⟩ := h
      have : streamedText [entry] = some entry := Option.filter_eq_some_iff.mpr ⟨rfl, hstreams⟩
      rw [this] at hstreamed
      exact absurd hstreamed (Option.some_ne_none _)
    | solid => exact h.append_solid
  · obtain ⟨rest, rfl, hitem⟩ := streamedText_eq_some hstreamed
    dsimp only
    rw [List.dropLast_concat]
    cases shape with
    | empty => exact absurd h (by simp [HasShape])
    | streaming =>
      obtain ⟨entry, hsingle, -⟩ := h
      obtain ⟨rfl, -⟩ := List.append_eq_singleton_iff.mp hsingle |>.resolve_right (by simp)
      exact ⟨_, rfl, hdelta _ _⟩
    | solid => exact (hasShape_dropLast hitem h).append_solid

/-- **One event**: the shape after it depends on the shape before it only. -/
theorem hasShape_eventBlock (h : HasShape shape block) (offset : Nat) (event : AgentTraceEvent) :
    HasShape (shape.next event) (eventBlock b offset runId block event) := by
  rw [Shape.next, eventBlock]
  rcases eventEffect event with response | ⟨call, status⟩ | text | _
  · dsimp only [completeBlock]
    have hclose := @hasShape_closeText runId block shape h response (offset + block.length)
    by_cases hcalls : response.message.toolCalls.getD [] = []
    · rw [hcalls]
      simpa [openCalls] using hclose
    · rw [if_neg fun hall => hcalls hall.2.1]
      exact hasShape_openCalls (fun hnil => absurd hnil hcalls) offset
  · exact hasShape_upsertBlock _ _ _
  · exact hasShape_deltaBlock h _ _
  · exact h

theorem hasShape_foldl_eventBlock (h : HasShape shape block) (offset : Nat)
    (events : List AgentTraceEvent) :
    HasShape (events.foldl Shape.next shape)
      (events.foldl (eventBlock b offset runId) block) := by
  induction events generalizing block shape with
  | nil => exact h
  | cons event events ih => exact ih (hasShape_eventBlock h offset event)

theorem hasShape_approvalBlock (offset : Nat) (run : Run) (approval : ApprovalRequest) :
    HasShape .solid (approvalBlock b offset run block approval) := by
  have hrecorded : ∀ p : ToolActivity → Bool,
      ((block.reverse.find? fun entry =>
        entry.toolActivity.any (·.callId = approval.toolCallId)).bind (·.toolActivity)).any p →
      HasShape .solid block := by
    intro p hp
    rw [Option.any_eq_true] at hp
    obtain ⟨activity, hactivity, -⟩ := hp
    obtain ⟨entry, hfind, hentry⟩ := Option.bind_eq_some_iff.mp hactivity
    refine ⟨entry, List.mem_reverse.mp (List.mem_of_find?_eq_some hfind), ?_⟩
    simp [Entry.streams, hentry]
  unfold approvalBlock
  dsimp only
  split_ifs with hdone hpending
  · exact hrecorded _ hdone
  · exact hrecorded _ (Bool.and_eq_true .. ▸ hpending).1
  · exact hasShape_upsertBlock _ _ _

theorem hasShape_foldl_approvalBlock (h : HasShape shape block) (offset : Nat) (run : Run)
    (approvals : List ApprovalRequest) :
    HasShape (if approvals = [] then shape else .solid)
      (approvals.foldl (approvalBlock b offset run) block) := by
  induction approvals generalizing block shape with
  | nil => exact h
  | cons approval approvals ih =>
    have hnext := ih (@hasShape_approvalBlock b block offset run approval)
    rw [ite_self] at hnext
    exact hnext

/-- Where a run is put does not matter for whether it has entries. -/
theorem runBlock_eq_nil_iff (run : Run) (offset offset' : Nat) :
    runBlock b offset run = [] ↔ runBlock b offset' run = [] := by
  have hreplayed : ∀ offset, ∃ block, replayedBlock b offset run = block ∧
      HasShape (if run.pendingApprovalRequests = [] then
        (unseenEvents [] run.events).foldl Shape.next .empty else .solid) block := fun offset =>
    have hempty : HasShape .empty ([] : List Entry) := rfl
    ⟨_, rfl,
      hasShape_foldl_approvalBlock (hasShape_foldl_eventBlock hempty offset _) offset run _⟩
  obtain ⟨block, hblock, hshape⟩ := hreplayed offset
  obtain ⟨block', hblock', hshape'⟩ := hreplayed offset'
  have hnil : block = [] ↔ block' = [] := hshape.eq_nil_iff.trans hshape'.eq_nil_iff.symm
  rw [runBlock, runBlock, hblock, hblock', List.append_eq_nil_iff, List.append_eq_nil_iff]
  split_ifs
  · rw [List.map_eq_nil_iff, List.map_eq_nil_iff, hnil]
  · rw [hnil]

theorem reconcile_reconcile {run : Run} (hevents : run.events ≠ []) (entries : List Entry) :
    reconcileRunTranscript b (reconcileRunTranscript b entries run) run =
      reconcileRunTranscript b entries run := by
  obtain ⟨front, trailing, -, hfront, htrailing, hresult, hofRun⟩ :=
    reconcile_eq (b := b) hevents entries
  rw [hresult]
  rcases hblock : runBlock b front.length run with _ | ⟨entry, rest⟩
  · -- the run has no entries, and none at the end either
    have hforeign : Foreign run.runId (front ++ [] ++ trailing) := by
      rw [List.append_nil]
      exact fun entry hentry => (List.mem_append.mp hentry).elim (hfront entry) (htrailing entry)
    have hplace := List.findIdx?_eq_none_iff.mpr hforeign
    obtain ⟨front', trailing', hcut', -, -, hresult', -⟩ :=
      reconcile_eq (b := b) hevents (front ++ [] ++ trailing)
    rw [hplace, cutAt, hforeign.foreignEntries_eq, Prod.mk.injEq] at hcut'
    obtain ⟨rfl, rfl⟩ := hcut'
    rw [hresult', (runBlock_eq_nil_iff run _ front.length).mpr hblock, List.append_nil,
      List.append_nil]
  · have hentry : entry.ofRun run.runId = true := hofRun entry (by simp [hblock])
    have hplace : (front ++ entry :: rest ++ trailing).findIdx? (·.ofRun run.runId) =
        some front.length := by
      have hnone : front.findIdx? (·.ofRun run.runId) = none :=
        List.findIdx?_eq_none_iff.mpr hfront
      rw [List.append_assoc, List.findIdx?_append, hnone, List.cons_append, List.findIdx?_cons,
        if_pos hentry]
      simp
    have hforeign : foreignEntries run.runId (front ++ entry :: rest ++ trailing) =
        front ++ trailing := by
      rw [foreignEntries_append, foreignEntries_append, hfront.foreignEntries_eq,
        htrailing.foreignEntries_eq, foreignEntries_eq_nil (hblock ▸ hofRun), List.append_nil]
    obtain ⟨front', trailing', hcut', -, -, hresult', -⟩ :=
      reconcile_eq (b := b) hevents (front ++ entry :: rest ++ trailing)
    rw [hplace, hforeign, cutAt, List.take_left, List.drop_left, Prod.mk.injEq] at hcut'
    obtain ⟨rfl, rfl⟩ := hcut'
    rw [hresult', hblock]

end Shapes

/-! ### The last response -/

/-- What the search for a call's entry reads of an entry. -/
def Entry.callKey (runId : String) (entry : Entry) : Bool × Bool × Option String :=
  (entry.role = .user, entry.ofRun runId, entry.toolActivity.map (·.callId))

/-- The response is in the block of its run. -/
structure Completed (runId : String) (response : ChatResponse) (block : List Entry) : Prop where
  calls : ∀ call ∈ response.message.toolCalls.getD [],
    toolIndex block call.toolCallId runId ≠ none
  text : visibleTextFromContent response.message ≠ "" → ∃ item, lastText block = some item ∧
    ((nonEmpty response.responseId).isSome = true ∧
        item.entryId = (responseEntry response 0 runId).entryId ∨
      item.text = visibleTextFromContent response.message ∧
        (response.message.toolCalls.getD [] = [] →
          block.getLast?.any (·.toolActivity.isNone) = true))

section LastResponse

variable {b : Browser} {runId : String} {block block' : List Entry} {response : ChatResponse}

theorem lastIndex_map {α β : Type} (f : α → β) (condition : β → Nat → Bool) (entries : List α) :
    lastIndex (entries.map f) condition =
      lastIndex entries fun entry i => condition (f entry) i := by
  induction entries using List.reverseRecOn with
  | nil => rfl
  | append_singleton entries entry ih =>
    rw [List.map_append, List.map_singleton, lastIndex_concat, lastIndex_concat, ih,
      List.length_map]

/-- The search reads keys only. -/
theorem toolIndex_eq_keys (block : List Entry) (callId : String) :
    toolIndex block callId runId =
      lastIndex (block.map (Entry.callKey runId)) fun key i =>
        (lastIndex (block.map (Entry.callKey runId)) fun key _ => key.1).all (· < i) &&
          key.2.2.any (· = callId) && key.2.1 := by
  rw [lastIndex_map, lastIndex_map, toolIndex]
  refine lastIndex_congr fun i entry _ => ?_
  simp only [Entry.callKey, Option.any_map]

theorem toolIndex_congr (h : block.map (Entry.callKey runId) = block'.map (Entry.callKey runId))
    (callId : String) : toolIndex block callId runId = toolIndex block' callId runId := by
  rw [toolIndex_eq_keys, toolIndex_eq_keys, h]

theorem isNone_getLast_congr
    (h : block.map (Entry.callKey runId) = block'.map (Entry.callKey runId)) :
    block.getLast?.any (·.toolActivity.isNone) = block'.getLast?.any (·.toolActivity.isNone) := by
  have hkey : ∀ block : List Entry, block.getLast?.any (·.toolActivity.isNone) =
      (block.map (Entry.callKey runId)).getLast?.any (·.2.2.isNone) := by
    intro block
    rw [List.getLast?_map, Option.any_map]
    simp only [Entry.callKey, Option.isNone_map]
  rw [hkey, hkey, h]

theorem lastText_append (block block' : List Entry) :
    lastText (block ++ block') = (lastText block').or (lastText block) := by
  rw [lastText, List.reverse_append, List.find?_append]
  rfl

theorem lastText_concat (entry : Entry) :
    lastText (block ++ [entry]) =
      if entry.toolActivity.isNone then some entry else lastText block := by
  rw [lastText_append]
  by_cases h : entry.toolActivity.isNone = true
  · simp [lastText, h]
  · simp [lastText, h]

/-- The entry of a call may be replaced by another of the call. -/
theorem callKey_set (hblock : Block runId block) {i : Nat} {callId entryId : String}
    (activity : ToolActivity) (h : toolIndex block callId runId = some i)
    (hactivity : activity.callId = callId) :
    (block.set i (toolEntry entryId callId runId activity)).map (Entry.callKey runId) =
        block.map (Entry.callKey runId) ∧
      lastText (block.set i (toolEntry entryId callId runId activity)) = lastText block := by
  obtain ⟨entry, activity', hentry, hactivity', hcallId⟩ := exists_of_toolIndex h
  obtain ⟨hlt, hget⟩ := List.getElem?_eq_some_iff.mp hentry
  have hmem : entry ∈ block := List.mem_of_getElem? hentry
  have hrole := hblock.role entry hmem (by simp [hactivity'])
  have hself : block = block.take i ++ entry :: block.drop (i + 1) := by
    conv_lhs => rw [← List.set_getElem_self hlt, List.set_eq_take_append_cons_drop, if_pos hlt]
    rw [hget]
  have hset : ∀ new, block.set i new = block.take i ++ new :: block.drop (i + 1) :=
    fun new => by rw [List.set_eq_take_append_cons_drop, if_pos hlt]
  have hkey : (toolEntry entryId callId runId activity).callKey runId = entry.callKey runId := by
    have hofRun : entry.streamRunId = some runId := of_decide_eq_true (hblock.ofRun entry hmem)
    simp [Entry.callKey, toolEntry, hrole, hactivity', hcallId, hactivity, Entry.ofRun, hofRun]
  constructor
  · conv_rhs => rw [hself]
    rw [hset, List.map_append, List.map_append, List.map_cons, List.map_cons, hkey]
  · conv_rhs => rw [hself]
    rw [hset, List.append_cons, List.append_cons (List.take i block) entry]
    have htool : lastText [toolEntry entryId callId runId activity] = none := by
      simp [lastText, toolEntry]
    have hold : lastText [entry] = none := by simp [lastText, hactivity']
    simp only [lastText_append, htool, hold]

theorem toolIndex_concat (entryId callId : String) (activity : ToolActivity) (id : String) :
    toolIndex (block ++ [toolEntry entryId callId runId activity]) id runId =
      if activity.callId = id then some block.length else toolIndex block id runId := by
  have hturn : (lastIndex (block ++ [toolEntry entryId callId runId activity])
      fun entry _ => decide (entry.role = .user)) =
      lastIndex block fun entry _ => decide (entry.role = .user) := by
    rw [lastIndex_concat]
    exact if_neg (by simp [toolEntry])
  have hbefore : (lastIndex block fun entry _ => decide (entry.role = .user)).all
      (· < block.length) = true := by
    rcases hlast : lastIndex block fun entry _ => decide (entry.role = .user) with _ | i
    · rfl
    · obtain ⟨entry, hentry, -⟩ := lastIndex_eq_some hlast
      exact decide_eq_true (List.getElem?_eq_some_iff.mp hentry).1
  rw [toolIndex, hturn, lastIndex_concat, hbefore, toolIndex]
  simp [toolEntry, Entry.ofRun]

/-- A tool entry that is added or replaced is found, and every one found before still is. -/
theorem toolIndex_upsertBlock (hblock : Block runId block) (newId : String) (call : ToolCall)
    (update : ToolUpdate) (id : String)
    (h : id = call.toolCallId ∨ toolIndex block id runId ≠ none) :
    toolIndex (upsertBlock b newId block call runId update) id runId ≠ none := by
  rw [upsertBlock]
  rcases hindex : toolIndex block call.toolCallId runId with _ | i
  · dsimp only
    rw [toolIndex_concat]
    split_ifs with hid
    · exact Option.some_ne_none _
    · exact h.resolve_left fun heq => hid heq.symm
  · dsimp only
    have hfound : toolIndex block id runId ≠ none := by
      obtain rfl | hid := h
      · rw [hindex]
        exact Option.some_ne_none _
      · exact hid
    split_ifs
    · exact hfound
    · rw [toolIndex_congr (callKey_set hblock _ hindex rfl).1]
      exact hfound

theorem lastText_upsertBlock (hblock : Block runId block) (newId : String) (call : ToolCall)
    (update : ToolUpdate) :
    lastText (upsertBlock b newId block call runId update) = lastText block := by
  rw [upsertBlock]
  rcases hindex : toolIndex block call.toolCallId runId with _ | i
  · rw [lastText_concat]
    rfl
  · dsimp only
    split_ifs
    · rfl
    · exact (callKey_set hblock _ hindex rfl).2

theorem openCalls_found (hblock : Block runId block) (offset : Nat) (calls : List ToolCall)
    (id : String) (h : (∃ call ∈ calls, id = call.toolCallId) ∨ toolIndex block id runId ≠ none) :
    toolIndex (openCalls b offset runId block calls) id runId ≠ none := by
  induction calls generalizing block with
  | nil => exact h.resolve_left (by simp)
  | cons call calls ih =>
    refine ih (block_upsertBlock hblock _ call _) ?_
    obtain ⟨call', hcall', hid⟩ | hfound := h
    · obtain rfl | hcall' := List.mem_cons.mp hcall'
      · exact .inr (toolIndex_upsertBlock hblock _ _ _ id (.inl hid))
      · exact .inl ⟨call', hcall', hid⟩
    · exact .inr (toolIndex_upsertBlock hblock _ _ _ id (.inr hfound))

theorem lastText_openCalls (hblock : Block runId block) (offset : Nat) (calls : List ToolCall) :
    lastText (openCalls b offset runId block calls) = lastText block := by
  induction calls generalizing block with
  | nil => rfl
  | cons call calls ih =>
    exact (ih (block_upsertBlock hblock _ call _)).trans (lastText_upsertBlock hblock _ _ _)

theorem textFromContent_of_ne {message : Content} (h : visibleTextFromContent message ≠ "") :
    textFromContent message = visibleTextFromContent message :=
  if_pos h

/-- **Completing** a response puts it into the block. -/
theorem completed_completeBlock (hblock : Block runId block) (offset : Nat) :
    Completed runId response (completeBlock b offset block response runId) := by
  have hclosed := block_closeText hblock response (offset + block.length)
  refine ⟨fun call hcall => openCalls_found hclosed _ _ _ (.inl ⟨call, hcall, rfl⟩),
    fun htext => ?_⟩
  suffices h : ∃ item, lastText (closeText block response
      (responseEntry response (offset + block.length) runId)) = some item ∧
      ((nonEmpty response.responseId).isSome = true ∧
          item.entryId = (responseEntry response 0 runId).entryId ∨
        item.text = visibleTextFromContent response.message ∧
          (response.message.toolCalls.getD [] = [] → (closeText block response (responseEntry
            response (offset + block.length) runId)).getLast?.any (·.toolActivity.isNone))) by
    obtain ⟨item, hitem, hsame⟩ := h
    refine ⟨item, (lastText_openCalls hclosed _ _).trans hitem, hsame.imp_right ?_⟩
    intro ⟨hitemText, hlast⟩
    refine ⟨hitemText, fun hnil => ?_⟩
    rw [completeBlock, hnil]
    exact hlast hnil
  have hentry : ∀ (rest : List Entry) (entryId : String), ∃ item,
      lastText (rest ++ [{ responseEntry response (offset + block.length) runId with
        entryId := entryId }]) = some item ∧
      item.text = visibleTextFromContent response.message := fun rest entryId =>
    ⟨_, lastText_concat _, textFromContent_of_ne htext⟩
  rw [closeText]
  rcases hstreamed : streamedText block with _ | item
  · dsimp only
    split_ifs with hshown
    · obtain ⟨item, hitem, hitemText⟩ := hentry block _
      exact ⟨item, hitem, .inr ⟨hitemText, fun _ => by simp [responseEntry, assistantEntry]⟩⟩
    · simp only [ne_eq, htext, not_false_eq_true, decide_true, Bool.true_and, Bool.not_eq_true',
        Bool.not_eq_false, shows, Option.any_eq_true] at hshown
      obtain ⟨item, hitem, hshown⟩ := hshown
      rw [Bool.and_eq_true, Bool.or_eq_true, Bool.and_eq_true, Bool.and_eq_true, Bool.or_eq_true,
        decide_eq_true_eq, decide_eq_true_eq, decide_eq_true_eq] at hshown
      refine ⟨item, hitem, ?_⟩
      obtain ⟨-, ⟨hid, hentryId⟩ | ⟨hitemText, hlast | hcalls⟩⟩ := hshown
      · refine .inl ⟨hid, hentryId.trans ?_⟩
        obtain ⟨responseId, hresponseId⟩ := Option.isSome_iff_exists.mp hid
        simp only [responseEntry, hresponseId]
      · exact .inr ⟨hitemText, fun _ => hlast⟩
      · exact .inr ⟨hitemText, fun hnil => by simp [hnil] at hcalls⟩
  · dsimp only
    rw [if_pos htext]
    obtain ⟨item', hitem', hitemText⟩ := hentry block.dropLast item.entryId
    exact ⟨item', hitem', .inr ⟨hitemText, fun _ => by simp [responseEntry, assistantEntry]⟩⟩

/-- Replacing the entry of a call of the response does not matter. -/
theorem Completed.upsertBlock (h : Completed runId response block) (hblock : Block runId block)
    (newId : String) {call : ToolCall} (update : ToolUpdate)
    (hcall : ∃ call' ∈ response.message.toolCalls.getD [],
      call'.toolCallId = call.toolCallId) :
    Completed runId response (upsertBlock b newId block call runId update) := by
  obtain ⟨call', hcall', hid⟩ := hcall
  have hfound := h.calls call' hcall'
  rw [hid] at hfound
  rw [Frontend.upsertBlock]
  rcases hindex : toolIndex block call.toolCallId runId with _ | i
  · exact absurd hindex hfound
  · dsimp only
    split_ifs
    · exact h
    · obtain ⟨hkeys, hlastText⟩ := @callKey_set runId block hblock i call.toolCallId
        ((nonEmpty (block[i]?.map (·.entryId))).getD newId)
        (updatedActivity b call update (block[i]?.bind (·.toolActivity))) hindex rfl
      refine ⟨fun call hcall => ?_, fun htext => ?_⟩
      · rw [toolIndex_congr hkeys]
        exact h.calls call hcall
      · rw [hlastText, isNone_getLast_congr hkeys]
        exact h.text htext

/-- An event that brings no text and concerns no call but those of the response. -/
structure Concerns (response : ChatResponse) (event : AgentTraceEvent) : Prop where
  completed : event.eventType ≠ .chatCompleted
  delta : event.eventType = .chatDelta → nonEmpty event.textDelta = none
  call : ∀ call, eventCall event = some call → (eventStatus event).isSome = true →
    ∃ call' ∈ response.message.toolCalls.getD [], call'.toolCallId = call.toolCallId

theorem Completed.eventBlock {event : AgentTraceEvent} (h : Completed runId response block)
    (hblock : Block runId block) (hevent : Concerns response event) (offset : Nat) :
    Completed runId response (eventBlock b offset runId block event) := by
  rw [Frontend.eventBlock]
  rcases heffect : eventEffect event with response' | ⟨call, status⟩ | text | _
  · exact absurd (eventType_of_complete heffect).1 hevent.completed
  · obtain ⟨hcall, hstatus⟩ := eventCall_of_update heffect
    exact h.upsertBlock hblock _ _ (hevent.call call hcall (by simp [hstatus]))
  · obtain ⟨htype, htext⟩ := textDelta_of_delta heffect
    rw [hevent.delta htype] at htext
    exact absurd htext.symm (Option.some_ne_none _)
  · exact h

theorem Completed.foldl_eventBlock {events : List AgentTraceEvent}
    (h : Completed runId response block) (hblock : Block runId block)
    (hevents : ∀ event ∈ events, Concerns response event) (offset : Nat) :
    Completed runId response (events.foldl (Frontend.eventBlock b offset runId) block) := by
  induction events generalizing block with
  | nil => exact h
  | cons event events ih =>
    obtain ⟨hevent, hrest⟩ := List.forall_mem_cons.mp hevents
    exact ih (h.eventBlock hblock hevent offset) (block_eventBlock hblock offset event) hrest

theorem Completed.foldl_approvalBlock {run : Run} {approvals : List ApprovalRequest}
    (h : Completed run.runId response block) (hblock : Block run.runId block)
    (happrovals : ∀ approval ∈ approvals, ∃ call ∈ response.message.toolCalls.getD [],
      call.toolCallId = approval.toolCallId) (offset : Nat) :
    Completed run.runId response (approvals.foldl (approvalBlock b offset run) block) ∧
      Block run.runId (approvals.foldl (approvalBlock b offset run) block) := by
  induction approvals generalizing block with
  | nil => exact ⟨h, hblock⟩
  | cons approval approvals ih =>
    obtain ⟨hcall, hrest⟩ := List.forall_mem_cons.mp happrovals
    have hconcerns : Concerns response
        { eventType := .toolApprovalRequested, approvalRequest := some approval } := by
      refine ⟨by simp, by simp, fun call hcallEq _ => ?_⟩
      obtain rfl := Option.some.inj hcallEq
      exact hcall
    rw [List.foldl_cons]
    refine ih ?_ ?_ hrest
    · unfold approvalBlock
      dsimp only
      split_ifs
      · exact h
      · exact h
      · exact h.eventBlock hblock hconcerns offset
    · unfold approvalBlock
      dsimp only
      split_ifs
      · exact hblock
      · exact hblock
      · exact block_eventBlock hblock offset _

/-- **Completing again**: once the run is settled, nothing is left to add. -/
theorem Completed.complete_settled {run : Run} (h : Completed run.runId response block)
    (hblock : Block run.runId block) (offset : Nat) :
    completeBlock b offset (block.map (settleEntry run)) response run.runId =
      block.map (settleEntry run) := by
  have hsettle : ∀ entry ∈ block, settleEntry run entry =
      { entry with
        streaming := some false
        toolActivity := entry.toolActivity.map (settleActivity run) } :=
    fun entry hentry => if_pos (hblock.ofRun entry hentry)
  have hcallId : ∀ activity, (settleActivity run activity).callId = activity.callId := by
    intro activity
    unfold settleActivity
    split_ifs <;> rfl
  have hkeys : (block.map (settleEntry run)).map (Entry.callKey run.runId) =
      block.map (Entry.callKey run.runId) := by
    rw [List.map_map]
    refine List.map_congr_left fun entry hentry => ?_
    simp only [Function.comp_apply, hsettle entry hentry, Entry.callKey, Entry.ofRun,
      Option.map_map, Function.comp_def, hcallId]
  have hopen : ∀ calls : List ToolCall, (∀ call ∈ calls,
      toolIndex (block.map (settleEntry run)) call.toolCallId run.runId ≠ none) →
      openCalls b offset run.runId (block.map (settleEntry run)) calls =
        block.map (settleEntry run) := by
    intro calls hcalls
    induction calls with
    | nil => rfl
    | cons call calls ih =>
      obtain ⟨hcall, hrest⟩ := List.forall_mem_cons.mp hcalls
      obtain ⟨i, hi⟩ := Option.ne_none_iff_exists'.mp hcall
      rw [openCalls, List.foldl_cons, Frontend.upsertBlock, hi]
      exact ih hrest
  have hstreamed : streamedText (block.map (settleEntry run)) = none := by
    refine Option.filter_eq_none_iff.mpr fun item hitem => ?_
    obtain ⟨entry, hentry, rfl⟩ := List.mem_map.mp (List.mem_of_getLast? hitem)
    simp [hsettle entry hentry]
  have hfound : ∀ call ∈ response.message.toolCalls.getD [],
      toolIndex (block.map (settleEntry run)) call.toolCallId run.runId ≠ none := by
    intro call hcall
    rw [toolIndex_congr hkeys]
    exact h.calls call hcall
  have hclose : closeText (block.map (settleEntry run)) response
      (responseEntry response (offset + (block.map (settleEntry run)).length) run.runId) =
        block.map (settleEntry run) := by
    rw [closeText, hstreamed]
    dsimp only
    by_cases htext : visibleTextFromContent response.message = ""
    · simp [htext]
    obtain ⟨item, hitem, hsame⟩ := h.text htext
    have hmem : item ∈ block := List.mem_reverse.mp (List.mem_of_find?_eq_some hitem)
    have hlastText : lastText (block.map (settleEntry run)) = some (settleEntry run item) := by
      rw [lastText, ← List.map_reverse, List.find?_map]
      have hcongr : block.reverse.find? ((fun item => item.toolActivity.isNone) ∘
          settleEntry run) = lastText block := by
        refine List.find?_congr fun entry hentry => ?_
        rw [Function.comp_apply, hsettle entry (List.mem_reverse.mp hentry), Option.isNone_map]
      rw [hcongr, hitem]
      rfl
    have hasCall_of_found : ∀ call ∈ response.message.toolCalls.getD [],
        hasCall (block.map (settleEntry run)) call.toolCallId = true := by
      intro call hcall
      obtain ⟨i, hi⟩ := Option.ne_none_iff_exists'.mp (hfound call hcall)
      obtain ⟨entry, activity, hentry, hactivity, hid⟩ := exists_of_toolIndex hi
      refine List.any_eq_true.mpr ⟨entry, List.mem_of_getElem? hentry, ?_⟩
      simp [hactivity, hid]
    have hshows : shows (block.map (settleEntry run)) response
        (responseEntry response (offset + (block.map (settleEntry run)).length)
          run.runId).entryId = true := by
      rw [shows, hlastText, Option.any_some, hsettle item hmem]
      obtain ⟨hid, hentryId⟩ | ⟨hitemText, hlast⟩ := hsame
      · obtain ⟨responseId, hresponseId⟩ := Option.isSome_iff_exists.mp hid
        simp [hentryId, responseEntry, hresponseId]
      · by_cases hnil : response.message.toolCalls.getD [] = []
        · rw [isNone_getLast_congr hkeys, hlast hnil]
          simp [hitemText]
        · have hall : (response.message.toolCalls.getD []).all (fun call =>
              hasCall (block.map (settleEntry run)) call.toolCallId) = true :=
            List.all_eq_true.mpr hasCall_of_found
          simp [hitemText, hall, hnil]
    rw [hshows]
    simp
  rw [completeBlock, hclose]
  exact hopen _ hfound

/-- **A finished run**: completing its last response again changes nothing. -/
theorem complete_reconcile {run : Run} (hevents : run.events ≠ [])
    (hfinished : run.status = some .finished) {completed : AgentTraceEvent}
    {before after : List AgentTraceEvent}
    (htrace : unseenEvents [] run.events = before ++ completed :: after)
    (htype : completed.eventType = .chatCompleted) (hresponse : completed.response = some response)
    (hafter : ∀ event ∈ after, Concerns response event)
    (happrovals : ∀ approval ∈ run.pendingApprovalRequests,
      ∃ call ∈ response.message.toolCalls.getD [], call.toolCallId = approval.toolCallId)
    (entries : List Entry) :
    completeStreamedResponse b (reconcileRunTranscript b entries run) response run.runId =
      reconcileRunTranscript b entries run := by
  obtain ⟨front, trailing, -, hfront, htrailing, hresult, -⟩ :=
    reconcile_eq (b := b) hevents entries
  have hreplayed : Completed run.runId response (replayedBlock b front.length run) ∧
      Block run.runId (replayedBlock b front.length run) := by
    have heffect : eventEffect completed = .complete response := by
      simp only [eventEffect, htype, hresponse]
    obtain ⟨-, hbefore⟩ := foldl_applyChatTrace (b := b) hfront (@Block.nil run.runId) before
    have hcomplete : Completed run.runId response (eventBlock b front.length run.runId
        (before.foldl (eventBlock b front.length run.runId) []) completed) := by
      rw [eventBlock, heffect]
      exact completed_completeBlock hbefore front.length
    have hblock := block_eventBlock (b := b) hbefore front.length completed
    obtain ⟨-, hafterBlock⟩ := foldl_applyChatTrace (b := b) hfront hblock after
    rw [replayedBlock, htrace, List.foldl_append, List.foldl_cons]
    exact (hcomplete.foldl_eventBlock hblock hafter front.length).foldl_approvalBlock hafterBlock
      happrovals front.length
  have hstopped : run.stopped = true := by simp [Run.stopped, hfinished]
  have hrunBlock : runBlock b front.length run =
      (replayedBlock b front.length run).map (settleEntry run) := by
    simp [runBlock, hstopped, noticeEntry, hfinished]
  have hsettled : Block run.runId ((replayedBlock b front.length run).map (settleEntry run)) := by
    refine ⟨fun entry hentry => ?_, fun entry hentry => ?_, fun entry hentry hactivity => ?_⟩ <;>
      obtain ⟨entry, hmem, rfl⟩ := List.mem_map.mp hentry
    · exact (settleEntry_ofRun run entry run.runId).trans (hreplayed.2.ofRun entry hmem)
    · exact (settleEntry_runNotice run entry).trans (hreplayed.2.runNotice entry hmem)
    · have hsettle : settleEntry run entry = _ := if_pos (hreplayed.2.ofRun entry hmem)
      rw [hsettle] at hactivity ⊢
      refine hreplayed.2.role entry hmem fun hnone => hactivity ?_
      rw [hnone]
      rfl
  have hcomplete : ∀ offset, completeBlock b offset
      ((replayedBlock b front.length run).map (settleEntry run)) response run.runId =
        (replayedBlock b front.length run).map (settleEntry run) :=
    fun offset => hreplayed.1.complete_settled hreplayed.2 offset
  rw [hresult, hrunBlock]
  by_cases hnil : (replayedBlock b front.length run).map (settleEntry run) = []
  · -- no entry of the run: all entries are before its place
    have hall : Foreign run.runId (front ++ trailing) :=
      fun entry hentry => (List.mem_append.mp hentry).elim (hfront entry) (htrailing entry)
    have happend := completeStreamedResponse_append (b := b) hall hsettled
      (List.forall_mem_nil _ : Foreign run.runId []) (.inr rfl) response
    rw [hcomplete, hnil, List.append_nil, List.append_nil] at happend
    rw [hnil, List.append_nil]
    exact happend
  · rw [completeStreamedResponse_append hfront hsettled htrailing (.inl hnil) response, hcomplete]

end LastResponse

/-! ### Idempotence and finality -/

/-- **A snapshot with a trace**: reconciling again changes nothing; foreign entries stay as they
are; only they and the place of the run's first entry matter; and a finished run has its last
response, if the events after it bring no text and concern its calls only. -/
theorem reconcileRunTranscript_settled (b : Browser) (run : Run) (htrace : run.trace ≠ []) :
    (∀ entries, reconcileRunTranscript b (reconcileRunTranscript b entries run) run =
        reconcileRunTranscript b entries run) ∧
      (∀ entries, (reconcileRunTranscript b entries run).filter
          (fun entry => !entry.ofRun run.runId) =
        entries.filter fun entry => !entry.ofRun run.runId) ∧
      (∀ entries entries' : List Entry,
        (entries.filter fun entry => !entry.ofRun run.runId) =
            entries'.filter (fun entry => !entry.ofRun run.runId) →
        entries.findIdx? (·.ofRun run.runId) = entries'.findIdx? (·.ofRun run.runId) →
        reconcileRunTranscript b entries run = reconcileRunTranscript b entries' run) ∧
      ∀ entries response before completed after,
        run.status = some .finished → run.response = some response →
        unseenEvents [] run.trace = before ++ completed :: after →
        completed.eventType = .chatCompleted → completed.response = some response →
        (∀ event ∈ after, Concerns response event) →
        (∀ approval ∈ run.pendingApprovalRequests,
          ∃ call ∈ response.message.toolCalls.getD [], call.toolCallId = approval.toolCallId) →
        completeStreamedResponse b (reconcileRunTranscript b entries run) response run.runId =
          reconcileRunTranscript b entries run := by
  have hevents : run.events = run.trace := if_pos (by simpa using htrace)
  have hne : run.events ≠ [] := hevents ▸ htrace
  refine ⟨reconcile_reconcile hne, foreignEntries_reconcile hne,
    fun entries entries' hforeign hplace => reconcile_congr hne hforeign hplace, ?_⟩
  intro entries response before completed after hfinished _ hsplit htype hresponse hafter happrovals
  rw [← hevents] at hsplit
  exact complete_reconcile hne hfinished hsplit htype hresponse hafter happrovals entries

/-- A browser that prints nothing and finds any two values different. -/
private def plainBrowser : Browser where
  stringify := fun _ => ""
  stringifyRecord := fun _ => ""
  sortedText := fun _ => ""
  sortedRecordText := fun _ => ""
  strictEquals := fun _ _ => false
  localeCompare := fun _ _ => 0

private def doneResponse : ChatResponse where
  modelId := "m"
  message := { role := .assistant, content := some [{ type := .text, text := some "Done" }] }

/-- A run that said "Done", with these events behind. -/
private def doneRun (after : List AgentTraceEvent) : Run where
  runId := "r"
  request := { contextId := "c" }
  status := some .finished
  response := some doneResponse
  trace := { eventType := .chatCompleted, response := some doneResponse } :: after

/-- **A run that is done**, and a notice of another run. -/
theorem reconcileRunTranscript_settled_done :
    (doneRun []).trace ≠ [] ∧
      completeStreamedResponse plainBrowser
          (reconcileRunTranscript plainBrowser [] (doneRun [])) doneResponse "r" =
        reconcileRunTranscript plainBrowser [] (doneRun []) :=
  ⟨by decide, (reconcileRunTranscript_settled plainBrowser (doneRun []) (by decide)).2.2.2 []
    doneResponse [] _ [] rfl rfl rfl rfl rfl (by simp) (by simp [doneRun])⟩

/-- **A stray delta**: text that is streamed after the last response hides it, and completing the
response of the finished run adds its text once more. -/
theorem stray_delta_completes_twice :
    ¬ ∀ (b : Browser) (run : Run) (entries : List Entry) (response : ChatResponse)
        (before : List AgentTraceEvent) (completed : AgentTraceEvent)
        (after : List AgentTraceEvent),
      run.status = some .finished → run.response = some response →
      run.trace = before ++ completed :: after →
      completed.eventType = .chatCompleted → completed.response = some response →
      (∀ event ∈ after, event.eventType ≠ .chatCompleted) →
      (completeStreamedResponse b (reconcileRunTranscript b entries run) response
          run.runId).map (·.text) =
        (reconcileRunTranscript b entries run).map (·.text) := by
  intro h
  have hsame := h plainBrowser
    (doneRun [{ eventType := .chatDelta, textDelta := some "again" }]) [] doneResponse [] _
    [{ eventType := .chatDelta, textDelta := some "again" }] rfl rfl rfl rfl rfl (by simp)
  revert hsame
  decide +kernel

end EvernightAI.Frontend
