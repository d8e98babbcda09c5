import EvernightAI.Frontend.Rounds

/-!
# When a run shows all its rounds

`Settles` ties a block to what it shows, between two rounds; `settles_round` is what a round adds:
its text, unless the response `repeats` the newest one that is shown, and its calls.

`expected_sublist_iff` is the condition under which a reconciled run shows every round: no call id
is used twice, and no response that was not streamed repeats the id of the one shown before it.
-/

namespace EvernightAI.Frontend

/-! ### Ids of entries -/

theorem streamChars_ne (r u v : List Char) :
    "stream-".toList ++ (r ++ '-' :: u) ≠ r ++ ("-response-".toList ++ v) := by
  -- peel `stream-` off the run id, as long as it begins with it
  match r with
  | [] => simp
  | [_] => simp
  | [_, _] => simp
  | [_, _, _] => simp
  | [_, _, _, _] => simp
  | [_, _, _, _, _] => simp
  | [_, _, _, _, _, _] => simp
  | c₁ :: c₂ :: c₃ :: c₄ :: c₅ :: c₆ :: c₇ :: r =>
    intro h
    have hrest := streamChars_ne r u v
    simp at h hrest
    obtain ⟨rfl, rfl, rfl, rfl, rfl, rfl, rfl, h⟩ := h
    exact hrest h

/-- The id of a response's entry. -/
def responseEntryId (runId responseId : String) : String := runId ++ "-response-" ++ responseId

theorem streamId_ne (runId rest responseId : String) :
    "stream-" ++ runId ++ "-" ++ rest ≠ responseEntryId runId responseId := by
  intro h
  have hchars := congrArg String.toList h
  simp only [responseEntryId, String.toList_append, List.append_assoc] at hchars
  exact streamChars_ne runId.toList rest.toList responseId.toList (by simpa using hchars)

theorem assistantId_ne (runId rest responseId : String) :
    runId ++ "-assistant-" ++ rest ≠ responseEntryId runId responseId := by
  intro h
  have hchars := congrArg String.toList h
  simp [responseEntryId, String.toList_append] at hchars

theorem responseEntryId_inj {runId responseId responseId' : String} :
    responseEntryId runId responseId = responseEntryId runId responseId' ↔
      responseId = responseId' := by
  simp [responseEntryId, String.ext_iff, String.toList_append]

/-! ### Texts that repeat -/

/-- The event brings text. -/
def isDelta (event : AgentTraceEvent) : Bool :=
  match eventEffect event with
  | .delta _ => true
  | _ => false

namespace Round

def isStreamed (round : Round) : Bool := round.streamed.any isDelta

/-- The id of the newest response shown, if it was not streamed. -/
def next (newest : Option String) (round : Round) : Option String :=
  if round.text = "" then newest
  else if round.isStreamed then none
  else nonEmpty round.response.responseId

/-- The response was not streamed, and has the id of the newest one shown. -/
def repeats (newest : Option String) (round : Round) : Bool :=
  round.text ≠ "" && !round.isStreamed && (nonEmpty round.response.responseId).isSome &&
    newest = nonEmpty round.response.responseId

/-- The text that is shown of the round. -/
def keptText (newest : Option String) (round : Round) : List Shown :=
  if round.repeats newest then [] else round.shownText

end Round

/-- No response repeats the one shown before it. -/
def noRepeat : Option String → List Round → Bool
  | _, [] => true
  | newest, round :: rounds => !round.repeats newest && noRepeat (round.next newest) rounds

/-! ### Blocks between rounds -/

/-- A block that is not being streamed, what it shows, and the newest response in it. -/
structure Settles (runId : String) (newest : Option String) (block : List Entry)
    (shown : List Shown) : Prop where
  tidy : Tidy runId block
  shows : block.map Entry.shown = shown
  rests : streamedText block = none
  fresh : lastText block = none → newest = none
  newestId : ∀ item, lastText block = some item → item.streaming ≠ some true ∧
    ∀ id, item.entryId = responseEntryId runId id ↔ newest = some id

/-- An entry of the run whose text is being streamed. -/
structure Streaming (runId : String) (item : Entry) : Prop where
  streams : item.streams = true
  ofRun : item.ofRun runId = true
  role : item.role = .assistant
  runNotice : item.runNotice = none
  entryId : ∀ id, item.entryId ≠ responseEntryId runId id

/-- A settled block, possibly with an entry that is being streamed behind it. -/
def Tail (runId : String) (streamed : Bool) (block block' : List Entry) : Prop :=
  if streamed then ∃ item, Streaming runId item ∧ block' = block ++ [item] else block' = block

section Settles

variable {b : Browser} {runId : String} {newest : Option String} {block block' : List Entry}
  {shown : List Shown} {round : Round}

theorem Settles.callIds_eq (h : Settles runId newest block shown) :
    callIds block = shown.filterMap Shown.callId := by
  rw [← h.shows, filterMap_callId_shown]

theorem settles_nil : Settles runId none [] [] :=
  ⟨.nil, rfl, rfl, fun _ => rfl, fun item hitem => by cases hitem⟩

theorem Streaming.activity {item : Entry} (h : Streaming runId item) :
    item.toolActivity = none := by
  have := h.streams
  rw [Entry.streams, Bool.and_eq_true, Option.isNone_iff_eq_none] at this
  exact this.2

theorem streamedText_concat {item : Entry} (h : item.streams = true) :
    streamedText (block ++ [item]) = some item := by
  rw [streamedText, List.getLast?_concat]
  exact Option.filter_eq_some_iff.mpr ⟨rfl, h⟩

/-- A last entry that is a tool's is not being streamed. -/
theorem streamedText_of_tool (h : block.getLast?.any (·.toolActivity.isNone) = false) :
    streamedText block = none := by
  refine Option.filter_eq_none_iff.mpr fun item hitem => ?_
  rw [hitem, Option.any_some] at h
  simp [h]

theorem streaming_deltaEntry {entryId : String}
    (h : ∀ id, entryId ≠ responseEntryId runId id) (text : String) :
    Streaming runId (deltaEntry entryId text runId) :=
  ⟨rfl, by simp [Entry.ofRun, deltaEntry], rfl, rfl, h⟩

/-- **Streamed text** ends in one entry behind the block. -/
theorem tail_foldl (h : streamedText block = none) (offset : Nat) {events : List AgentTraceEvent}
    (hevents : ∀ event ∈ events, Streams event) :
    Tail runId (events.any isDelta) block (events.foldl (eventBlock b offset runId) block) := by
  induction events using List.reverseRecOn with
  | nil => exact rfl
  | append_singleton events event ih =>
    have hevent := hevents event (by simp)
    have htail := ih fun e he => hevents e (List.mem_append_left _ he)
    rw [List.foldl_append, List.any_append, List.foldl_cons, List.foldl_nil]
    obtain ⟨text, hdelta⟩ | hignore := hevent
    · have hisDelta : [event].any isDelta = true := by simp [isDelta, hdelta]
      rw [hisDelta, Bool.or_true, eventBlock, hdelta]
      dsimp only
      by_cases hbefore : events.any isDelta = true
      · rw [Tail, if_pos hbefore] at htail
        obtain ⟨item, hitem, hblock⟩ := htail
        refine ⟨_, streaming_deltaEntry hitem.entryId (item.text ++ text), ?_⟩
        rw [hblock, deltaBlock, streamedText_concat hitem.streams]
        dsimp only
        rw [List.dropLast_concat]
      · rw [Tail, if_neg hbefore] at htail
        have hid : ∀ id, "stream-" ++ runId ++ "-" ++ toString (offset + block.length) ≠
            responseEntryId runId id := fun id => streamId_ne runId _ id
        refine ⟨_, streaming_deltaEntry hid ("" ++ text), ?_⟩
        rw [htail, deltaBlock, h]
    · have hisDelta : [event].any isDelta = false := by simp [isDelta, hignore]
      rw [hisDelta, Bool.or_false, eventBlock, hignore]
      exact htail

/-- An entry of a text that is not being streamed. -/
theorem Settles.concat_text (h : Settles runId newest block shown) {entry : Entry}
    {newest' : Option String} (hofRun : entry.ofRun runId = true) (hnotice : entry.runNotice = none)
    (hactivity : entry.toolActivity = none) (hrole : entry.role = .assistant)
    (hstreaming : entry.streaming = some false)
    (hid : ∀ id, entry.entryId = responseEntryId runId id ↔ newest' = some id) :
    Settles runId newest' (block ++ [entry]) (shown ++ [.ofText entry.text]) where
  tidy := h.tidy.concat_text hofRun hnotice hactivity (by simp [hrole])
  shows := by
    rw [List.map_append, h.shows, List.map_singleton, Entry.shown, hrole, hactivity, Shown.ofText]
  rests := by
    rw [streamedText, List.getLast?_concat]
    refine Option.filter_eq_none_iff.mpr fun item hitem => ?_
    obtain rfl := Option.some.inj hitem
    simp [hstreaming]
  fresh := fun hnone => by simp [lastText_concat, hactivity] at hnone
  newestId := fun item hitem => by
    rw [lastText_concat, hactivity] at hitem
    obtain rfl := Option.some.inj hitem
    exact ⟨by simp [hstreaming], hid⟩

/-- What `completeStreamedResponse` recognises in a settled block. -/
theorem Settles.shows_iff (h : Settles runId newest block shown)
    (hlast : block.getLast?.any (·.toolActivity.isNone) = false)
    (hnew : ∀ call ∈ round.calls, call.toolCallId ∉ callIds block) (length : Nat) :
    Frontend.shows block round.response (responseEntry round.response length runId).entryId = true ↔
      (nonEmpty round.response.responseId).isSome = true ∧
        newest = nonEmpty round.response.responseId := by
  have hcalls : (!(round.response.message.toolCalls.getD []).isEmpty &&
      (round.response.message.toolCalls.getD []).all fun call =>
        hasCall block call.toolCallId) = false := by
    rcases heq : round.response.message.toolCalls.getD [] with _ | ⟨call, rest⟩
    · rfl
    · have hcall : hasCall block call.toolCallId = false := by
        have hnot := hnew call (by rw [Round.calls, heq]; exact List.mem_cons_self)
        rw [mem_callIds_iff] at hnot
        refine List.any_eq_false.mpr fun item hitem hany => hnot ?_
        obtain ⟨activity, hactivity, hid⟩ := (Option.any_eq_true _ _).mp hany
        exact ⟨item, hitem, activity, hactivity, of_decide_eq_true hid⟩
      simp [hcall]
  rw [Frontend.shows, hlast, hcalls]
  rcases hitem : lastText block with _ | item
  · rw [h.fresh hitem]
    simp only [Option.any_none, Bool.false_eq_true, false_iff, not_and]
    intro hsome hnone
    rw [← hnone] at hsome
    exact Bool.noConfusion hsome
  · obtain ⟨hstreaming, hid⟩ := h.newestId item hitem
    simp only [Option.any_some, ne_eq, hstreaming, not_false_eq_true, decide_true, Bool.or_false,
      Bool.and_false, Bool.true_and, Bool.and_eq_true, decide_eq_true_eq]
    refine and_congr_right fun hsome => ?_
    obtain ⟨responseId, hresponseId⟩ := Option.isSome_iff_exists.mp hsome
    have hentryId : (responseEntry round.response length runId).entryId =
        responseEntryId runId responseId := by
      simp only [responseEntry, hresponseId, responseEntryId]
    rw [hentryId, hid responseId, hresponseId]

/-- **The response** of a round closes the text being streamed, or adds its own. -/
theorem Settles.closeText (h : Settles runId newest block shown)
    (hlast : block.getLast?.any (·.toolActivity.isNone) = false)
    (hrole : round.response.message.role = .assistant)
    (hnew : ∀ call ∈ round.calls, call.toolCallId ∉ callIds block)
    (htail : Tail runId round.isStreamed block block') (length : Nat) :
    Settles runId (round.next newest)
      (closeText block' round.response (responseEntry round.response length runId))
      (shown ++ round.keptText newest) := by
  have hofRun : ∀ entryId, ({ responseEntry round.response length runId with
      entryId := entryId } : Entry).ofRun runId = true := fun entryId => by
    simp [Entry.ofRun, responseEntry]
  have htext : round.text ≠ "" →
      (responseEntry round.response length runId).text = round.text := fun hne =>
    textFromContent_of_ne hne
  rw [Frontend.closeText]
  by_cases hstreamed : round.isStreamed = true
  · rw [Tail, if_pos hstreamed] at htail
    obtain ⟨item, hitem, rfl⟩ := htail
    rw [streamedText_concat hitem.streams]
    dsimp only
    rw [List.dropLast_concat]
    have hkept : round.keptText newest = round.shownText := by
      simp [Round.keptText, Round.repeats, hstreamed]
    by_cases hne : visibleTextFromContent round.response.message = ""
    · rw [if_neg (not_not.mpr hne), hkept, Round.shownText, Round.next, Round.text, if_pos hne,
        if_pos hne, List.append_nil]
      exact h
    · rw [if_pos hne, hkept, Round.shownText, Round.next, Round.text, if_neg hne, if_neg hne,
        if_pos hstreamed, ← Round.text, ← htext hne]
      exact h.concat_text (hofRun item.entryId) rfl rfl hrole rfl fun id =>
        iff_of_false (hitem.entryId id) (by simp)
  · rw [Tail, if_neg hstreamed] at htail
    subst htail
    rw [h.rests]
    dsimp only
    have hshows := h.shows_iff hlast hnew length
    by_cases hne : visibleTextFromContent round.response.message = ""
    · have hkept : round.keptText newest = [] := by
        simp [Round.keptText, Round.repeats, Round.shownText, Round.text, hne]
      rw [hkept, List.append_nil, Round.next, Round.text, if_pos hne]
      simpa [hne] using h
    · by_cases hrepeats : (nonEmpty round.response.responseId).isSome = true ∧
          newest = nonEmpty round.response.responseId
      · have hkept : round.keptText newest = [] := by
          simp [Round.keptText, Round.repeats, Round.text, hne, hstreamed, hrepeats]
        rw [hkept, List.append_nil, Round.next, Round.text, if_neg hne, if_neg hstreamed,
          hshows.mpr hrepeats, ← hrepeats.2]
        simpa using h
      · have hkept : round.keptText newest = [.ofText round.text] := by
          have hnot : round.repeats newest = false := by
            rw [← Bool.not_eq_true, Round.repeats]
            simp only [Bool.and_eq_true, decide_eq_true_eq]
            exact fun hall => hrepeats ⟨hall.1.2, hall.2⟩
          simp [Round.keptText, hnot, Round.shownText, Round.text, hne]
        have hfalse : Frontend.shows block' round.response
            (responseEntry round.response length runId).entryId = false :=
          Bool.eq_false_of_not_eq_true fun htrue => hrepeats (hshows.mp htrue)
        rw [hfalse, hkept, Round.next, if_neg (by exact hne), if_neg hstreamed,
          if_pos (by simp [hne]), ← htext hne]
        refine h.concat_text (hofRun _) rfl rfl hrole rfl fun id => ?_
        rcases hid : nonEmpty round.response.responseId with _ | responseId
        · simp only [responseEntry, hid]
          exact iff_of_false (assistantId_ne _ _ _) (by simp)
        · simp only [responseEntry, hid, Option.some.injEq]
          exact responseEntryId_inj

/-- Its calls are opened behind the text. -/
theorem Settles.openCalls {calls : List ToolCall} (h : Settles runId newest block shown)
    (hnodup : (calls.map (·.toolCallId)).Nodup)
    (hnew : ∀ call ∈ calls, call.toolCallId ∉ callIds block) (offset : Nat) :
    Settles runId newest (openCalls b offset runId block calls)
        (shown ++ calls.map fun call => .ofTool (openActivity b call)) ∧
      (calls ≠ [] → (Frontend.openCalls b offset runId block calls).getLast?.any
        (·.toolActivity.isNone) = false) := by
  induction calls generalizing block shown with
  | nil => exact ⟨(List.append_nil shown).symm ▸ h, fun hne => absurd rfl hne⟩
  | cons call calls ih =>
    obtain ⟨hcall, hrest⟩ := List.forall_mem_cons.mp hnew
    rw [List.map_cons, List.nodup_cons] at hnodup
    have hnone := h.tidy.toolIndex_eq_none_iff.mpr hcall
    obtain ⟨newId, hnewId⟩ : ∃ newId, toolEntryId runId (offset + block.length) call.toolCallId =
      newId := ⟨_, rfl⟩
    have hupsert : upsertBlock b newId block call runId
        { status := .pending, preserveStatus := true } =
          block ++ [toolEntry newId call.toolCallId runId (openActivity b call)] := by
      rw [upsertBlock, hnone]
      rfl
    have hopen : (openActivity b call).callId = call.toolCallId := rfl
    have hids : callIds (block ++ [toolEntry newId call.toolCallId runId (openActivity b call)]) =
        callIds block ++ [call.toolCallId] := by
      rw [callIds_append]
      rfl
    have hnext : Settles runId newest
        (block ++ [toolEntry newId call.toolCallId runId (openActivity b call)])
        (shown ++ [.ofTool (openActivity b call)]) :=
      { tidy := hopen ▸ h.tidy.concat_tool newId hcall
        shows := by
          rw [List.map_append, h.shows]
          rfl
        rests := streamedText_of_tool (by simp [toolEntry])
        fresh := fun hnone => h.fresh (by simpa [lastText_concat, toolEntry] using hnone)
        newestId := fun item hitem =>
          h.newestId item (by simpa [lastText_concat, toolEntry] using hitem) }
    have hnewRest : ∀ call' ∈ calls, call'.toolCallId ∉ callIds
        (block ++ [toolEntry newId call.toolCallId runId (openActivity b call)]) := by
      intro call' hcall' hmem
      rw [hids, List.mem_append, List.mem_singleton] at hmem
      obtain hmem | hid := hmem
      · exact hrest call' hcall' hmem
      · exact hnodup.1 (hid ▸ List.mem_map_of_mem hcall')
    obtain ⟨hall, hlast⟩ := ih hnext hnodup.2 hnewRest
    rw [Frontend.openCalls, List.foldl_cons, hnewId, hupsert, ← Frontend.openCalls, List.map_cons]
    rw [List.append_assoc, List.singleton_append] at hall
    refine ⟨hall, fun _ => ?_⟩
    rcases calls with _ | ⟨call', calls⟩
    · simp [Frontend.openCalls, toolEntry]
    · exact hlast (List.cons_ne_nil _ _)

/-- What the events of a round tell about a call. -/
def toldActivity (b : Browser) (round : Round) (call : ToolCall) : ToolActivity :=
  round.tools.foldl (tellActivity b call) (openActivity b call)

theorem toldActivity_callId (round : Round) (call : ToolCall) :
    (toldActivity b round call).callId = call.toolCallId := by
  have htell : ∀ (events : List AgentTraceEvent) (activity : ToolActivity),
      activity.callId = call.toolCallId →
      (events.foldl (tellActivity b call) activity).callId = call.toolCallId := by
    intro events
    induction events with
    | nil => exact fun _ hactivity => hactivity
    | cons event events ih =>
      intro activity hactivity
      refine ih _ ?_
      rw [tellActivity]
      split
      · split_ifs
        · rfl
        · exact hactivity
      · exact hactivity
  exact htell round.tools _ rfl

/-- **A round** adds its text, unless it repeats, and its calls with what their events say. -/
theorem settles_round (h : Settles runId newest block shown)
    (hlast : block.getLast?.any (·.toolActivity.isNone) = false) (hround : round.Emitted)
    (hnodup : (round.calls.map (·.toolCallId)).Nodup)
    (hnew : ∀ call ∈ round.calls, call.toolCallId ∉ callIds block) (offset : Nat) :
    Settles runId (round.next newest) (round.events.foldl (eventBlock b offset runId) block)
        (shown ++ round.keptText newest ++
          round.calls.map fun call => .ofTool (toldActivity b round call)) ∧
      (round.calls ≠ [] → (round.events.foldl (eventBlock b offset runId) block).getLast?.any
        (·.toolActivity.isNone) = false) := by
  have htail := @tail_foldl b runId block h.rests offset round.streamed hround.streamed
  obtain ⟨block', hblock'⟩ : ∃ block', round.streamed.foldl (eventBlock b offset runId) block =
    block' := ⟨_, rfl⟩
  rw [hblock'] at htail
  have heffect : eventEffect round.completed = .complete round.response := by
    simp only [eventEffect, hround.completed, hround.response]
  have hclosed := h.closeText hlast hround.role hnew htail (offset + block'.length)
  have hclosedNew : ∀ call ∈ round.calls, call.toolCallId ∉ callIds (closeText block'
      round.response (responseEntry round.response (offset + block'.length) runId)) := by
    intro call hcall
    have hnoText : (round.keptText newest).filterMap Shown.callId = [] := by
      rw [Round.keptText, Round.shownText]
      split_ifs <;> rfl
    rw [hclosed.callIds_eq, List.filterMap_append, hnoText, List.append_nil, ← h.callIds_eq]
    exact hnew call hcall
  obtain ⟨hopened, hopenedLast⟩ := hclosed.openCalls (b := b) hnodup hclosedNew offset
  have hholds : Holds runId (completeBlock b offset block' round.response runId)
      (shown ++ round.keptText newest) round.calls (openActivity b) [] :=
    { tidy := hopened.tidy
      shown := hopened.shows.trans (List.append_nil _).symm
      callId := fun _ => rfl
      nodup := hnodup
      apart := fun call hcall => by
        rw [← hclosed.callIds_eq]
        exact ⟨hclosedNew call hcall, by simp⟩ }
  obtain ⟨htold, htext, htoldLast⟩ := hholds.foldl_eventBlock (b := b) offset hround.tools
  have hevents : round.events.foldl (eventBlock b offset runId) block =
      round.tools.foldl (eventBlock b offset runId)
        (completeBlock b offset block' round.response runId) := by
    rw [Round.events, List.foldl_append, hblock', List.foldl_cons, eventBlock, heffect]
  rw [hevents]
  have hrests : streamedText (round.tools.foldl (eventBlock b offset runId)
      (completeBlock b offset block' round.response runId)) = none := by
    by_cases hcalls : round.calls = []
    · -- without calls no event of a tool changes the block
      have hsame : round.tools.foldl (eventBlock b offset runId)
          (completeBlock b offset block' round.response runId) =
            completeBlock b offset block' round.response runId := by
        refine (List.foldl_ext _ (fun block _ => block) _ fun block event hevent => ?_).trans
          (List.foldl_fixed _)
        obtain hignore | ⟨call, status, -, call', hcall', -⟩ := hround.tools event hevent
        · rw [eventBlock, hignore]
        · rw [hcalls] at hcall'
          cases hcall'
      rw [hsame]
      exact hopened.rests
    · exact streamedText_of_tool (htoldLast.trans (hopenedLast hcalls))
  refine ⟨⟨htold.tidy, htold.shown.trans (List.append_nil _), hrests,
    fun hnone => hopened.fresh (htext ▸ hnone), fun item hitem =>
      hopened.newestId item (htext ▸ hitem)⟩, fun hcalls => htoldLast.trans (hopenedLast hcalls)⟩

end Settles

/-! ### All rounds -/

/-- The entries that are kept of rounds, with activities `A`, and `L` in the last round. -/
def keptWith (A L : Round → ToolCall → ToolActivity) : Option String → List Round → List Shown
  | _, [] => []
  | newest, [round] =>
    round.keptText newest ++ round.calls.map fun call => .ofTool (L round call)
  | newest, round :: rounds =>
    round.keptText newest ++ (round.calls.map fun call => .ofTool (A round call)) ++
      keptWith A L (round.next newest) rounds

/-- What is shown once the run is settled. -/
def settleShown (run : Run) (shown : Shown) : Shown :=
  if run.stopped then { shown with activity := shown.activity.map (settleActivity run) }
  else shown

section Rounds

variable {b : Browser} {runId : String} {run : Run} {newest : Option String} {block : List Entry}
  {shown : List Shown} {rounds : List Round} {rest : List AgentTraceEvent}
  {A L : Round → ToolCall → ToolActivity}

theorem keptWith_cons (newest : Option String) (round : Round) (rounds : List Round) :
    keptWith A A newest (round :: rounds) =
      round.keptText newest ++ (round.calls.map fun call => .ofTool (A round call)) ++
        keptWith A A (round.next newest) rounds := by
  rcases rounds with _ | ⟨round', rounds⟩
  · exact (List.append_nil _).symm
  · rfl

theorem keptWith_cons_cons (newest : Option String) (round round' : Round) (rounds : List Round) :
    keptWith A L newest (round :: round' :: rounds) =
      round.keptText newest ++ (round.calls.map fun call => .ofTool (A round call)) ++
        keptWith A L (round.next newest) (round' :: rounds) := rfl

theorem keptWith_concat (newest : Option String) (init : List Round) (last : Round) :
    keptWith A L newest (init ++ [last]) =
      keptWith A A newest init ++ (last.keptText (init.foldl Round.next newest) ++
        last.calls.map fun call => .ofTool (L last call)) := by
  induction init generalizing newest with
  | nil => rfl
  | cons round init ih =>
    rw [keptWith_cons, List.foldl_cons, List.append_assoc, ← ih]
    rcases init with _ | ⟨round', init⟩
    · rfl
    · rfl

/-- **The rounds of a trace**, one after the other. -/
theorem settles_rounds (h : Settles runId newest block shown)
    (hlast : block.getLast?.any (·.toolActivity.isNone) = false)
    (hemitted : ∀ round ∈ rounds, round.Emitted)
    (hgoesOn : ∀ round ∈ rounds.dropLast, round.calls ≠ [])
    (hnodup : ((rounds.flatMap Round.calls).map (·.toolCallId)).Nodup)
    (hnew : ∀ call ∈ rounds.flatMap Round.calls, call.toolCallId ∉ callIds block)
    (offset : Nat) :
    Settles runId (rounds.foldl Round.next newest)
      ((rounds.flatMap Round.events).foldl (eventBlock b offset runId) block)
      (shown ++ keptWith (toldActivity b) (toldActivity b) newest rounds) := by
  induction rounds generalizing newest block shown with
  | nil => exact (List.append_nil shown).symm ▸ h
  | cons round rounds ih =>
    obtain ⟨hround, hrounds⟩ := List.forall_mem_cons.mp hemitted
    rw [List.flatMap_cons, List.map_append, List.nodup_append] at hnodup
    rw [List.flatMap_cons] at hnew
    have hroundNew : ∀ call ∈ round.calls, call.toolCallId ∉ callIds block :=
      fun call hcall => hnew call (List.mem_append_left _ hcall)
    obtain ⟨hnext, hnextLast⟩ := settles_round (b := b) h hlast hround hnodup.1 hroundNew offset
    rw [List.flatMap_cons, List.foldl_append, List.foldl_cons, keptWith_cons, ← List.append_assoc,
      ← List.append_assoc]
    rcases rounds with _ | ⟨round', rounds⟩
    · rw [keptWith, List.append_nil]
      exact hnext
    · refine ih hnext (hnextLast (hgoesOn round (by simp))) hrounds
        (fun r hr => hgoesOn r (List.mem_cons_of_mem _ hr)) hnodup.2.1 fun call hcall hmem => ?_
      rw [hnext.callIds_eq, List.filterMap_append, List.filterMap_append, List.mem_append,
        List.mem_append] at hmem
      obtain (hmem | hmem) | hmem := hmem
      · exact hnew call (List.mem_append_right _ hcall) (h.callIds_eq ▸ hmem)
      · obtain ⟨s, hs, hid⟩ := List.mem_filterMap.mp hmem
        rw [Round.keptText, Round.shownText] at hs
        split_ifs at hs
        · cases hs
        · cases hs
        · rw [List.mem_singleton.mp hs] at hid
          cases hid
      · obtain ⟨s, hs, hid⟩ := List.mem_filterMap.mp hmem
        obtain ⟨call', hcall', rfl⟩ := List.mem_map.mp hs
        have htold : (toldActivity b round call').callId = call.toolCallId := Option.some.inj hid
        rw [toldActivity_callId] at htold
        exact hnodup.2.2 _ (List.mem_map_of_mem hcall') _ (List.mem_map_of_mem hcall) htold

theorem Holds.foldl_approvalBlock {pre post : List Shown} {calls : List ToolCall}
    {A : ToolCall → ToolActivity} {approvals : List ApprovalRequest}
    (h : Holds run.runId block pre calls A post) (offset : Nat)
    (happrovals : ∀ approval ∈ approvals, ∃ call ∈ calls,
      call.toolCallId = approval.toolCallId ∧ approval.toolCall = some call.toolCall) :
    Holds run.runId (approvals.foldl (Frontend.approvalBlock b offset run) block) pre calls
      (fun call => approvals.foldl (askActivity b run call) (A call)) post := by
  induction approvals generalizing block A with
  | nil => exact h
  | cons approval approvals ih =>
    obtain ⟨happroval, hrest⟩ := List.forall_mem_cons.mp happrovals
    exact ih (h.approvalBlock offset happroval) hrest

/-- What is shown of a settled block. -/
theorem shown_settled (hblock : Block run.runId block) :
    (if run.stopped then block.map (settleEntry run) else block).map Entry.shown =
      (block.map Entry.shown).map (settleShown run) := by
  by_cases hstopped : run.stopped = true
  · rw [if_pos hstopped, List.map_map, List.map_map]
    refine List.map_congr_left fun entry hentry => ?_
    have hsettle : settleEntry run entry = _ := if_pos (hblock.ofRun entry hentry)
    simp only [Function.comp_apply, settleShown, hstopped, if_true, hsettle, Entry.shown]
  · rw [if_neg hstopped]
    refine (List.map_id _).symm.trans (List.map_congr_left fun s _ => ?_)
    rw [settleShown, if_neg hstopped, id]

/-- An activity once the run is settled. -/
def settledActivity (run : Run) (activity : ToolActivity) : ToolActivity :=
  if run.stopped then settleActivity run activity else activity

theorem settleShown_ofTool (activity : ToolActivity) :
    settleShown run (.ofTool activity) = .ofTool (settledActivity run activity) := by
  rw [settleShown, settledActivity]
  split_ifs <;> rfl

theorem map_settleShown_keptText (newest : Option String) (round : Round) :
    (round.keptText newest).map (settleShown run) = round.keptText newest := by
  have htext : settleShown run (.ofText round.text) = .ofText round.text := by
    rw [settleShown]
    split_ifs <;> rfl
  rw [Round.keptText, Round.shownText]
  split_ifs
  · rfl
  · rfl
  · rw [List.map_singleton, htext]

theorem map_settleShown_keptWith (newest : Option String) (rounds : List Round) :
    (keptWith A L newest rounds).map (settleShown run) =
      keptWith (fun round call => settledActivity run (A round call))
        (fun round call => settledActivity run (L round call)) newest rounds := by
  have hcalls : ∀ (A : Round → ToolCall → ToolActivity) (round : Round),
      (round.calls.map fun call => Shown.ofTool (A round call)).map (settleShown run) =
        round.calls.map fun call => .ofTool (settledActivity run (A round call)) := by
    intro A round
    rw [List.map_map]
    exact List.map_congr_left fun call _ => settleShown_ofTool _
  induction rounds generalizing newest with
  | nil => rfl
  | cons round rounds ih =>
    rcases rounds with _ | ⟨round', rounds⟩
    · rw [keptWith, List.map_append, map_settleShown_keptText, hcalls, keptWith]
    · rw [keptWith_cons_cons, List.map_append, List.map_append, map_settleShown_keptText, hcalls,
        ih, keptWith_cons_cons]

/-- The activities of the calls, as `callActivity` has them. -/
abbrev keptEntries (b : Browser) (run : Run) (newest : Option String) (rounds : List Round) :
    List Shown :=
  keptWith (fun round call => callActivity b run call round.tools [])
    (fun round call => callActivity b run call round.tools run.pendingApprovalRequests) newest
    rounds

/-- **The block of a run**: what is kept of its rounds, text being streamed, and its notice. -/
theorem shown_runBlock (h : Emitted run rounds rest)
    (hnodup : ((rounds.flatMap Round.calls).map (·.toolCallId)).Nodup) (offset : Nat) :
    ∃ post, (post = [] ∨ (∃ text, post = [.ofText text]) ∧ rest.any isDelta = true) ∧
      (runBlock b offset run).map Entry.shown =
        keptEntries b run none rounds ++ post ++ (noticeEntry run).toList.map Entry.shown := by
  have hrounds := settles_rounds (b := b) (@settles_nil run.runId) rfl h.emitted h.goesOn hnodup
    (fun call _ => by simp [callIds]) offset
  obtain ⟨block, hblock⟩ : ∃ block, (rounds.flatMap Round.events).foldl
    (eventBlock b offset run.runId) [] = block := ⟨_, rfl⟩
  obtain ⟨block', hblock'⟩ : ∃ block', rest.foldl (eventBlock b offset run.runId) block = block' :=
    ⟨_, rfl⟩
  rw [hblock, List.nil_append] at hrounds
  have htail := @tail_foldl b run.runId block hrounds.rests offset rest h.streams
  rw [hblock'] at htail
  obtain ⟨post, hpost, htidy, hshown⟩ : ∃ post,
      (post = [] ∨ (∃ text, post = [Shown.ofText text]) ∧ rest.any isDelta = true) ∧
      Tidy run.runId block' ∧ block'.map Entry.shown =
        keptWith (toldActivity b) (toldActivity b) none rounds ++ post := by
    by_cases hdelta : rest.any isDelta = true
    · rw [Tail, if_pos hdelta] at htail
      obtain ⟨item, hitem, rfl⟩ := htail
      refine ⟨[.ofText item.text], .inr ⟨⟨_, rfl⟩, hdelta⟩, ?_, ?_⟩
      · exact hrounds.tidy.concat_text hitem.ofRun hitem.runNotice hitem.activity
          (by simp [hitem.role])
      · rw [List.map_append, hrounds.shows, List.map_singleton, Entry.shown, hitem.role,
          hitem.activity, Shown.ofText]
    · rw [Tail, if_neg hdelta] at htail
      subst htail
      exact ⟨[], .inl rfl, hrounds.tidy, hrounds.shows.trans (List.append_nil _).symm⟩
  have hreplayed : replayedBlock b offset run =
      run.pendingApprovalRequests.foldl (approvalBlock b offset run) block' := by
    rw [replayedBlock, h.trace, List.foldl_append, hblock, hblock']
  have happroved : Tidy run.runId (replayedBlock b offset run) ∧
      (replayedBlock b offset run).map Entry.shown =
        keptWith (toldActivity b) (fun round call => run.pendingApprovalRequests.foldl
          (askActivity b run call) (toldActivity b round call)) none rounds ++ post := by
    rw [hreplayed]
    rcases rounds.eq_nil_or_concat with rfl | ⟨init, last, rfl⟩
    · have hnone : run.pendingApprovalRequests = [] := by
        refine List.eq_nil_iff_forall_not_mem.mpr fun approval happroval => ?_
        obtain ⟨round, hround, -⟩ := h.approvals approval happroval
        cases hround
      rw [hnone]
      exact ⟨htidy, hshown⟩
    · rw [List.concat_eq_append] at h hshown hrounds ⊢
      have happrovals : ∀ approval ∈ run.pendingApprovalRequests, ∃ call ∈ last.calls,
          call.toolCallId = approval.toolCallId ∧ approval.toolCall = some call.toolCall := by
        intro approval happroval
        obtain ⟨round, hround, hcall⟩ := h.approvals approval happroval
        rw [List.getLast?_concat, Option.mem_def, Option.some.injEq] at hround
        exact hround ▸ hcall
      rw [keptWith_concat, ← List.append_assoc] at hshown
      have hpostIds : post.filterMap Shown.callId = [] := by
        obtain rfl | ⟨⟨text, rfl⟩, -⟩ := hpost <;> rfl
      have hlastIds : (last.calls.map fun call => Shown.ofTool (toldActivity b last call)).filterMap
          Shown.callId = last.calls.map (·.toolCallId) := by
        rw [List.filterMap_map, ← List.filterMap_eq_map]
        exact List.filterMap_congr fun call _ => congrArg some (toldActivity_callId last call)
      have hids := htidy.nodup
      rw [← filterMap_callId_shown, hshown, List.filterMap_append, List.filterMap_append, hlastIds,
        hpostIds, List.append_nil, List.nodup_append] at hids
      have hholds : Holds run.runId block' (keptWith (toldActivity b) (toldActivity b) none init ++
          last.keptText (init.foldl Round.next none)) last.calls (toldActivity b last) post :=
        { tidy := htidy
          shown := hshown
          callId := toldActivity_callId last
          nodup := hids.2.1
          apart := fun call hcall =>
            ⟨fun hmem => hids.2.2 _ hmem _ (List.mem_map_of_mem hcall) rfl, by simp [hpostIds]⟩ }
      have hasked := hholds.foldl_approvalBlock (b := b) offset happrovals
      refine ⟨hasked.tidy, hasked.shown.trans ?_⟩
      rw [keptWith_concat, ← List.append_assoc]
  have hpostSettled : post.map (settleShown run) = post := by
    obtain rfl | ⟨⟨text, rfl⟩, -⟩ := hpost
    · rfl
    · rw [List.map_singleton, settleShown]
      split_ifs <;> rfl
  refine ⟨post, hpost, ?_⟩
  rw [runBlock, List.map_append, shown_settled happroved.1.isBlock, happroved.2, List.map_append,
    hpostSettled, map_settleShown_keptWith]
  rfl

/-! ### What should be shown -/

theorem keptText_of_not {newest : Option String} {round : Round}
    (h : round.repeats newest = false) : round.keptText newest = round.shownText := by
  rw [Round.keptText, h]
  rfl

/-- Nothing is missing if no response repeats. -/
theorem keptEntries_eq (newest : Option String) (rounds : List Round)
    (h : noRepeat newest rounds = true) :
    keptEntries b run newest rounds = expectedEntries b run rounds := by
  induction rounds generalizing newest with
  | nil => rfl
  | cons round rounds ih =>
    rw [noRepeat, Bool.and_eq_true, Bool.not_eq_true'] at h
    rcases rounds with _ | ⟨round', rounds⟩
    · rw [keptEntries, keptWith, keptText_of_not h.1]
      rfl
    · rw [keptEntries, keptWith_cons_cons, keptText_of_not h.1]
      exact congrArg _ (ih _ h.2)

/-- A text is missing if one repeats. -/
theorem length_keptEntries (newest : Option String) (rounds : List Round) :
    (keptEntries b run newest rounds).length ≤ (expectedEntries b run rounds).length ∧
      (noRepeat newest rounds = false →
        (keptEntries b run newest rounds).length < (expectedEntries b run rounds).length) := by
  have htext : ∀ (newest : Option String) (round : Round),
      (round.keptText newest).length ≤ round.shownText.length ∧
        (round.repeats newest = true →
          (round.keptText newest).length < round.shownText.length) := by
    intro newest round
    rcases hrepeats : round.repeats newest with _ | _
    · rw [keptText_of_not hrepeats]
      exact ⟨le_refl _, fun h => Bool.noConfusion h⟩
    · have hne : round.text ≠ "" := by
        rw [Round.repeats, Bool.and_eq_true, Bool.and_eq_true, Bool.and_eq_true,
          decide_eq_true_eq] at hrepeats
        exact hrepeats.1.1.1
      simp [Round.keptText, hrepeats, Round.shownText, hne]
  induction rounds generalizing newest with
  | nil => exact ⟨le_refl _, fun h => Bool.noConfusion h⟩
  | cons round rounds ih =>
    obtain ⟨hle, hlt⟩ := htext newest round
    obtain ⟨hrestLe, hrestLt⟩ := ih (round.next newest)
    have hno : noRepeat newest (round :: rounds) = false →
        round.repeats newest = true ∨ noRepeat (round.next newest) rounds = false := by
      intro h
      rw [noRepeat, Bool.and_eq_false_iff, Bool.not_eq_false'] at h
      exact h
    rcases rounds with _ | ⟨round', rounds⟩
    · simp only [keptEntries, keptWith, expectedEntries, Round.expected, List.length_append,
        List.length_map]
      refine ⟨by omega, fun h => ?_⟩
      obtain hrepeats | hnil := hno h
      · have := hlt hrepeats
        omega
      · cases hnil
    · have hexpected : expectedEntries b run (round :: round' :: rounds) =
          round.expected b run [] ++ expectedEntries b run (round' :: rounds) := rfl
      rw [keptEntries, keptWith_cons_cons, hexpected, Round.expected]
      simp only [List.length_append, List.length_map]
      rw [keptEntries] at hrestLe hrestLt
      refine ⟨by omega, fun h => ?_⟩
      obtain hrepeats | hrest := hno h
      · have := hlt hrepeats
        omega
      · have := hrestLt hrest
        omega

theorem expectedEntries_concat (init : List Round) (last : Round) :
    ∃ front, expectedEntries b run (init ++ [last]) =
      front ++ last.calls.map fun call =>
        .ofTool (callActivity b run call last.tools run.pendingApprovalRequests) := by
  induction init with
  | nil => exact ⟨last.shownText, rfl⟩
  | cons round init ih =>
    obtain ⟨front, hfront⟩ := ih
    refine ⟨round.expected b run [] ++ front, ?_⟩
    rw [List.append_assoc, ← hfront]
    rcases init with _ | ⟨round', init⟩ <;> rfl

/-- Entries of the assistant and of tools. -/
theorem role_of_mem_expectedEntries {s : Shown} (rounds : List Round)
    (h : s ∈ expectedEntries b run rounds) : s.role ≠ .system := by
  have hround : ∀ (round : Round) approvals, s ∈ round.expected b run approvals →
      s.role ≠ .system := by
    intro round approvals hs
    obtain hs | hs := List.mem_append.mp hs
    · rw [Round.shownText] at hs
      split_ifs at hs
      · cases hs
      · rw [List.mem_singleton.mp hs]
        exact fun hrole => MessageRole.noConfusion hrole
    · obtain ⟨call, -, rfl⟩ := List.mem_map.mp hs
      exact fun hrole => MessageRole.noConfusion hrole
  induction rounds with
  | nil => cases h
  | cons round rounds ih =>
    rcases rounds with _ | ⟨round', rounds⟩
    · exact hround round _ h
    · obtain hs | hs := List.mem_append.mp h
      · exact hround round _ hs
      · exact ih hs

theorem callIds_expectedEntries (rounds : List Round) :
    (expectedEntries b run rounds).filterMap Shown.callId =
      (rounds.flatMap Round.calls).map (·.toolCallId) := by
  have hcall : ∀ (round : Round) call approvals,
      (callActivity b run call round.tools approvals).callId = call.toolCallId := by
    intro round call approvals
    have hask : ∀ (approvals : List ApprovalRequest) (activity : ToolActivity),
        activity.callId = call.toolCallId →
        (approvals.foldl (askActivity b run call) activity).callId = call.toolCallId := by
      intro approvals
      induction approvals with
      | nil => exact fun _ hactivity => hactivity
      | cons approval approvals ih =>
        intro activity hactivity
        refine ih _ ?_
        rw [askActivity]
        split_ifs
        · rfl
        · exact hactivity
    have hasked := hask approvals _ (toldActivity_callId (b := b) round call)
    rw [callActivity]
    split_ifs
    · rw [settleActivity]
      split_ifs <;> exact hasked
    · exact hasked
  have hround : ∀ (round : Round) approvals,
      (round.expected b run approvals).filterMap Shown.callId =
        round.calls.map (·.toolCallId) := by
    intro round approvals
    have htext : round.shownText.filterMap Shown.callId = [] := by
      rw [Round.shownText]
      split_ifs <;> rfl
    rw [Round.expected, List.filterMap_append, htext, List.nil_append, List.filterMap_map,
      ← List.filterMap_eq_map]
    exact List.filterMap_congr fun call _ => congrArg some (hcall round call approvals)
  induction rounds with
  | nil => rfl
  | cons round rounds ih =>
    rw [List.flatMap_cons, List.map_append, ← ih]
    rcases rounds with _ | ⟨round', rounds⟩
    · exact (hround round run.pendingApprovalRequests).trans (List.append_nil _).symm
    · have hexpected : expectedEntries b run (round :: round' :: rounds) =
          round.expected b run [] ++ expectedEntries b run (round' :: rounds) := rfl
      rw [hexpected, List.filterMap_append, hround]

end Rounds

/-! ### Tidiness of every trace -/

section Tidiness

variable {b : Browser} {runId : String} {run : Run} {block : List Entry} {rounds : List Round}
  {rest : List AgentTraceEvent}

theorem Tidy.upsertBlock (h : Tidy runId block) (newId : String) (call : ToolCall)
    (update : ToolUpdate) : Tidy runId (upsertBlock b newId block call runId update) := by
  rw [Frontend.upsertBlock]
  rcases hindex : toolIndex block call.toolCallId runId with _ | i
  · have hnew : (updatedActivity b call update none).callId ∉ callIds block :=
      h.toolIndex_eq_none_iff.mp hindex
    exact h.concat_tool newId hnew
  · obtain ⟨activity, hactivity, htidy, -⟩ := h.set_tool hindex
      ((nonEmpty (block[i]?.map (·.entryId))).getD newId)
      (fun activity => updatedActivity b call update (some activity)) fun _ => rfl
    dsimp only
    split_ifs
    · exact h
    · rw [hactivity]
      exact htidy

theorem Tidy.closeText (h : Tidy runId block) {response : ChatResponse}
    (hrole : response.message.role = .assistant) (length : Nat) :
    Tidy runId (closeText block response (responseEntry response length runId)) := by
  have hofRun : ∀ entryId, ({ responseEntry response length runId with
      entryId := entryId } : Entry).ofRun runId = true := fun entryId => by
    simp [Entry.ofRun, responseEntry]
  have hnotUser : (responseEntry response length runId).role ≠ .user := by
    rw [responseEntry, assistantEntry, hrole]
    exact fun hrole => MessageRole.noConfusion hrole
  rw [Frontend.closeText]
  split
  · split_ifs
    · exact h.dropLast.concat_text (hofRun _) rfl rfl hnotUser
    · exact h.dropLast
  · split_ifs
    · exact h.concat_text (hofRun _) rfl rfl hnotUser
    · exact h

theorem Tidy.openCalls (h : Tidy runId block) (offset : Nat) (calls : List ToolCall) :
    Tidy runId (openCalls b offset runId block calls) := by
  induction calls generalizing block with
  | nil => exact h
  | cons call calls ih => exact ih (h.upsertBlock _ call _)

theorem Tidy.deltaBlock (h : Tidy runId block) (newId delta : String) :
    Tidy runId (deltaBlock newId block delta runId) := by
  have hofRun : ∀ entryId text, (deltaEntry entryId text runId).ofRun runId = true :=
    fun entryId text => by simp [Entry.ofRun, deltaEntry]
  have hnotUser : ∀ entryId text, (deltaEntry entryId text runId).role ≠ .user :=
    fun entryId text hrole => MessageRole.noConfusion hrole
  rw [Frontend.deltaBlock]
  split
  · exact h.dropLast.concat_text (hofRun _ _) rfl rfl (hnotUser _ _)
  · exact h.concat_text (hofRun _ _) rfl rfl (hnotUser _ _)

theorem Tidy.eventBlock (h : Tidy runId block) {event : AgentTraceEvent}
    (hrole : ∀ response, eventEffect event = .complete response →
      response.message.role = .assistant) (offset : Nat) :
    Tidy runId (eventBlock b offset runId block event) := by
  rw [Frontend.eventBlock]
  rcases heffect : eventEffect event with response | ⟨call, status⟩ | text | _
  · exact (h.closeText (hrole response heffect) _).openCalls offset _
  · exact h.upsertBlock _ _ _
  · exact h.deltaBlock _ _
  · exact h

theorem Tidy.foldl_eventBlock {events : List AgentTraceEvent} (h : Tidy runId block)
    (hroles : ∀ event ∈ events, ∀ response, eventEffect event = .complete response →
      response.message.role = .assistant) (offset : Nat) :
    Tidy runId (events.foldl (Frontend.eventBlock b offset runId) block) := by
  induction events generalizing block with
  | nil => exact h
  | cons event events ih =>
    obtain ⟨hevent, hrest⟩ := List.forall_mem_cons.mp hroles
    exact ih (h.eventBlock hevent offset) hrest

theorem Tidy.foldl_approvalBlock {approvals : List ApprovalRequest} (h : Tidy run.runId block)
    (offset : Nat) : Tidy run.runId (approvals.foldl (approvalBlock b offset run) block) := by
  induction approvals generalizing block with
  | nil => exact h
  | cons approval approvals ih =>
    refine ih ?_
    unfold approvalBlock
    dsimp only
    split_ifs
    · exact h
    · exact h
    · exact h.eventBlock (fun response hresponse => by cases hresponse) offset

/-- Only the responses of the rounds are completed. -/
theorem Emitted.role_of_complete (h : Emitted run rounds rest) {event : AgentTraceEvent}
    (hevent : event ∈ unseenEvents [] run.events) {response : ChatResponse}
    (heffect : eventEffect event = .complete response) :
    response.message.role = .assistant := by
  have hstreams : ∀ {event}, Streams event → eventEffect event ≠ .complete response := by
    rintro event (⟨text, hdelta⟩ | hignore) hcomplete
    · rw [hdelta] at hcomplete
      cases hcomplete
    · rw [hignore] at hcomplete
      cases hcomplete
  rw [h.trace] at hevent
  obtain hevent | hevent := List.mem_append.mp hevent
  · obtain ⟨round, hround, hevent⟩ := List.mem_flatMap.mp hevent
    have hemitted := h.emitted round hround
    obtain hevent | hevent := List.mem_append.mp hevent
    · exact absurd heffect (hstreams (hemitted.streamed event hevent))
    · obtain rfl | hevent := List.mem_cons.mp hevent
      · obtain ⟨-, hresponse⟩ := eventType_of_complete heffect
        rw [hemitted.response, Option.some.injEq] at hresponse
        exact hresponse ▸ hemitted.role
      · obtain hignore | ⟨call, status, hupdate, -⟩ := hemitted.tools event hevent
        · rw [hignore] at heffect
          cases heffect
        · rw [hupdate] at heffect
          cases heffect
  · exact absurd heffect (hstreams (h.streams event hevent))

/-- Whatever is emitted, no two entries shown for the run are of one call. -/
theorem nodup_callIds_runBlock (h : Emitted run rounds rest) (offset : Nat) :
    (((runBlock b offset run).map Entry.shown).filterMap Shown.callId).Nodup := by
  have htidy : Tidy run.runId (replayedBlock b offset run) :=
    (Tidy.nil.foldl_eventBlock (fun event hevent response heffect =>
      h.role_of_complete hevent heffect) offset).foldl_approvalBlock offset
  have hsettle : ∀ s, (settleShown run s).callId = s.callId := by
    intro s
    have hactivity : ∀ activity, (settleActivity run activity).callId = activity.callId := by
      intro activity
      rw [settleActivity]
      split_ifs <;> rfl
    rw [settleShown]
    split_ifs
    · simp only [Shown.callId, Option.map_map, Function.comp_def, hactivity]
    · rfl
  have hnotice : (((noticeEntry run).toList.map Entry.shown).filterMap Shown.callId) = [] := by
    rw [noticeEntry]
    split <;> rfl
  rw [runBlock, List.map_append, List.filterMap_append, hnotice, List.append_nil,
    shown_settled htidy.isBlock, List.filterMap_map]
  have hcongr : Shown.callId ∘ settleShown run = Shown.callId := funext hsettle
  rw [hcongr, filterMap_callId_shown]
  exact htidy.nodup

end Tidiness

/-! ### The rounds of a reconciled run -/

/-- **A reconciled run shows all its rounds**, in order, exactly if no call id is used twice and no
response that was not streamed repeats the id of the one shown before it. -/
theorem expected_sublist_iff (b : Browser) {run : Run} {rounds : List Round}
    {rest : List AgentTraceEvent} (h : Emitted run rounds rest) (entries : List Entry) :
    (expectedEntries b run rounds).Sublist
        (((reconcileRunTranscript b entries run).filter (·.ofRun run.runId)).map Entry.shown) ↔
      ((rounds.flatMap Round.calls).map (·.toolCallId)).Nodup ∧ noRepeat none rounds = true := by
  by_cases hevents : run.events = []
  · have hrounds : rounds = [] := by
      have htrace := h.trace
      rw [hevents] at htrace
      refine List.eq_nil_iff_forall_not_mem.mpr fun round hround => ?_
      have hnil := (List.append_eq_nil_iff.mp htrace.symm).1
      have hempty := List.flatMap_eq_nil_iff.mp hnil round hround
      simp [Round.events] at hempty
    subst hrounds
    exact iff_of_true (List.nil_sublist _) ⟨List.nodup_nil, rfl⟩
  obtain ⟨front, trailing, -, hfront, htrailing, hresult, hofRun⟩ :=
    reconcile_eq (b := b) hevents entries
  have hfilter : (reconcileRunTranscript b entries run).filter (·.ofRun run.runId) =
      runBlock b front.length run := by
    rw [hresult, List.filter_append, List.filter_append, hfront.filter, htrailing.filter,
      List.filter_eq_self.mpr hofRun, List.nil_append, List.append_nil]
  rw [hfilter]
  constructor
  · intro hsub
    have hnodup : ((rounds.flatMap Round.calls).map (·.toolCallId)).Nodup := by
      rw [← @callIds_expectedEntries b run]
      exact (nodup_callIds_runBlock h front.length).sublist (hsub.filterMap _)
    refine ⟨hnodup, ?_⟩
    by_contra hno
    obtain ⟨post, hpost, hshown⟩ := shown_runBlock (b := b) h hnodup front.length
    have hlt := (@length_keptEntries b run none rounds).2
      (Bool.eq_false_of_not_eq_true hno)
    -- the notice is the system's
    have hsub' : (expectedEntries b run rounds).Sublist
        (keptEntries b run none rounds ++ post) := by
      have hkeep : (expectedEntries b run rounds).filter (fun s => s.role ≠ .system) =
          expectedEntries b run rounds :=
        List.filter_eq_self.mpr fun s hs =>
          decide_eq_true (role_of_mem_expectedEntries rounds hs)
      have hnotice : ((noticeEntry run).toList.map Entry.shown).filter
          (fun s => s.role ≠ .system) = [] := by
        rw [noticeEntry]
        split <;> rfl
      have hboth := hsub.filter fun s => s.role ≠ .system
      rw [hkeep, hshown, List.filter_append, hnotice, List.append_nil] at hboth
      exact hboth.trans List.filter_sublist
    obtain rfl | ⟨⟨text, rfl⟩, hdelta⟩ := hpost
    · rw [List.append_nil] at hsub'
      exact absurd hsub'.length_le (by omega)
    · -- behind text that is streamed, the last round has calls
      have hne : rounds ≠ [] := by
        rintro rfl
        exact hno rfl
      obtain ⟨init, last, rfl⟩ := (List.eq_nil_or_concat rounds).resolve_left hne
      rw [List.concat_eq_append] at h hsub' hlt
      obtain ⟨event, hevent, heffect⟩ := List.any_eq_true.mp hdelta
      have hcalls : last.calls ≠ [] := by
        refine h.restGoesOn ⟨event, hevent, ?_⟩ last (by simp)
        rw [isDelta] at heffect
        split at heffect
        · exact ⟨_, by assumption⟩
        · cases heffect
      obtain ⟨calls, call, hlast⟩ := (List.eq_nil_or_concat last.calls).resolve_left hcalls
      obtain ⟨expectedFront, hexpected⟩ := @expectedEntries_concat b run init last
      rw [hlast, List.concat_eq_append, List.map_append, List.map_singleton,
        ← List.append_assoc] at hexpected
      have hsmall : (expectedEntries b run (init ++ [last])).Sublist
          (keptEntries b run none (init ++ [last])) := by
        rw [hexpected] at hsub' ⊢
        have hreverse := List.reverse_sublist.mpr hsub'
        rw [List.reverse_concat, List.reverse_concat] at hreverse
        obtain hcons | ⟨heq, -⟩ := List.cons_sublist_cons'.mp hreverse
        · rw [← List.reverse_sublist, List.reverse_concat]
          exact hcons
        · exact absurd (congrArg Shown.role heq) fun hrole => MessageRole.noConfusion hrole
      exact absurd hsmall.length_le (by omega)
  · rintro ⟨hnodup, hno⟩
    obtain ⟨post, -, hshown⟩ := shown_runBlock (b := b) h hnodup front.length
    rw [hshown, keptEntries_eq none rounds hno]
    exact (List.sublist_append_left _ _).trans (List.sublist_append_left _ _)

private def silentBrowser : Browser where
  stringify := fun _ => ""
  stringifyRecord := fun _ => ""
  sortedText := fun _ => ""
  sortedRecordText := fun _ => ""
  strictEquals := fun _ _ => false
  localeCompare := fun _ _ => 0

/-- A round that says something and reads a file. -/
private def readingRound (text callId : String) : Round :=
  let call : ToolCall := { toolCallId := callId, toolCall := [("name", .str "read_file")] }
  let response : ChatResponse :=
    { modelId := "m"
      message :=
        { role := .assistant
          content := some [{ type := .text, text := some text }]
          toolCalls := some [call] } }
  { streamed := []
    completed := { eventType := .chatCompleted, response := some response }
    response
    tools := [{ eventType := .toolStarted, toolCall := some call },
      { eventType := .toolCompleted, toolCall := some call }] }

/-- A run of two such rounds. -/
private def readingRun (callId callId' : String) : Run where
  runId := "r"
  request := { contextId := "c" }
  status := some .running
  trace := [readingRound "One" callId, readingRound "Two" callId'].flatMap Round.events

private theorem emitted_readingRun (callId callId' : String) :
    Emitted (readingRun callId callId')
      [readingRound "One" callId, readingRound "Two" callId'] [] := by
  have hround : ∀ text callId, (readingRound text callId).Emitted := by
    intro text callId
    refine ⟨by simp [readingRound], rfl, rfl, rfl, fun event hevent => .inr ?_⟩
    simp only [readingRound, List.mem_cons, List.not_mem_nil, or_false] at hevent
    obtain rfl | rfl := hevent
    · exact ⟨_, .running, rfl, _, List.mem_singleton_self _, rfl, rfl⟩
    · exact ⟨_, .completed, rfl, _, List.mem_singleton_self _, rfl, rfl⟩
  exact
    { trace := rfl
      emitted := by simp [hround]
      goesOn := by simp [readingRound, Round.calls]
      streams := by simp
      restGoesOn := by simp
      approvals := by simp [readingRun] }

/-- **Two calls with ids of their own** are both shown. -/
theorem expected_sublist_reading :
    (expectedEntries silentBrowser (readingRun "a" "b")
        [readingRound "One" "a", readingRound "Two" "b"]).Sublist
      (((reconcileRunTranscript silentBrowser [] (readingRun "a" "b")).filter
        (·.ofRun (readingRun "a" "b").runId)).map Entry.shown) :=
  (expected_sublist_iff silentBrowser (emitted_readingRun "a" "b") []).mpr
    ⟨by decide +kernel, by decide +kernel⟩

/-- **A call id that is used again**: the entry of the first round becomes the second's. -/
theorem reused_call_id_hides :
    ¬ ∀ (b : Browser) (run : Run) (rounds : List Round) (rest : List AgentTraceEvent)
        (entries : List Entry), Emitted run rounds rest →
      (expectedEntries b run rounds).Sublist
        (((reconcileRunTranscript b entries run).filter (·.ofRun run.runId)).map Entry.shown) := by
  intro h
  have hsub := h silentBrowser _ _ _ [] (emitted_readingRun "a" "a")
  have hlength := hsub.length_le
  revert hlength
  decide +kernel

end EvernightAI.Frontend
