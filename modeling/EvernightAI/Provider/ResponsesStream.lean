import EvernightAI.Provider.ResponsesCalls
import EvernightAI.Provider.ResponsesText
import Mathlib.Tactic.IntervalCases

/-!
# Streaming a response and mapping it in one piece

* `StreamOf response events`: the events before the end of a stream of this response. They open an
  item before they say anything else of it, the deltas of a text or of the arguments of a call are
  the beginning of it, and no delta of a text comes after an event that has it whole. Every other
  event may be missing, or come again.
* `responsesStream_eq`: every text is emitted once, and a stream that comes in order emits what
  `fromOpenaiResponse` gives.
* `responsesStream_ne`: a text that is still open when the next one begins is emitted too late, and
  a refusal is emitted besides a text.
-/

namespace EvernightAI

open Reassembly OpenAIResponsesStreamNormalizer

/-! ### Streams of a response -/

/-- What an item is when it is opened. -/
def ResponseOutputItem.Opens : ResponseOutputItem → ResponseOutputItem → Prop
  | .functionCall call, .functionCall final =>
    ∃ arguments, call = { final with arguments } ∧ arguments.toList <+: final.arguments.toList
  | .message _, .message _ => True
  | .other type, .other type' => type = type'
  | _, _ => False

namespace ResponseStreamEvent

/-- The item an event is about, when it does not open it. -/
def item? : ResponseStreamEvent → Option Nat
  | .outputTextDelta _ outputIndex _ _ | .outputTextDone _ outputIndex _ _
  | .refusalDelta _ outputIndex _ _ | .refusalDone _ outputIndex _ _
  | .contentPartDone _ outputIndex _ _ | .functionCallArgumentsDelta _ outputIndex _
  | .functionCallArgumentsDone _ outputIndex _ _ | .outputItemDone outputIndex _ =>
    some outputIndex
  | _ => none

/-- The event closes the call of an item. -/
def closesCall (outputIndex : Nat) : ResponseStreamEvent → Bool
  | .functionCallArgumentsDone _ index _ _ | .outputItemDone index _ => index = outputIndex
  | _ => false

/-- An event before the end, as far as the items of the response are concerned. -/
def Fits (response : Response) : ResponseStreamEvent → Prop
  | .outputItemAdded outputIndex item =>
    ∃ final, response.output[outputIndex]? = some final ∧ item.Opens final
  | .functionCallArgumentsDelta itemId outputIndex _ =>
    ∃ call, response.call? outputIndex = some call ∧ call.id = some itemId
  | .functionCallArgumentsDone itemId outputIndex name arguments =>
    ∃ call, response.call? outputIndex = some call ∧ call.id = some itemId ∧
      (name = none ∨ name = some call.name) ∧ arguments = call.arguments
  | .outputItemDone outputIndex item => response.output[outputIndex]? = some item
  | .completed _ | .incomplete _ | .failed _ | .error .. => False
  | .other _ final => ∀ r, final = some r → r.error = none
  | _ => True

end ResponseStreamEvent

/-- The deltas of the arguments of a call. -/
def argumentDeltas (outputIndex : Nat) (events : List ResponseStreamEvent) : List Char :=
  events.flatMap fun
    | .functionCallArgumentsDelta _ index delta => if index = outputIndex then delta.toList else []
    | _ => []

/-- **The events before the end of a stream of a response.** -/
structure StreamOf (response : Response) (events : List ResponseStreamEvent) : Prop where
  fits : ∀ event ∈ events, event.Fits response
  opened : ∀ before event after outputIndex, events = before ++ event :: after →
    event.item? = some outputIndex → ∃ item, .outputItemAdded outputIndex item ∈ before
  texts : Splits response.text (events.flatMap ResponseStreamEvent.textPieces)
  arguments : ∀ outputIndex call, response.call? outputIndex = some call →
    argumentDeltas outputIndex events <+: call.arguments.toList

/-- **The calls come once and in order.** The ids of the items tell the calls apart, the arguments
of a call are done once and before its item is, and a call is done after the earlier calls are. -/
structure CallsInOrder (loads : String → Option Value) (response : Response)
    (events : List ResponseStreamEvent) : Prop where
  distinct : response.DistinctCalls
  named : ∀ itemId outputIndex name arguments call,
    .functionCallArgumentsDone itemId outputIndex name arguments ∈ events →
      response.call? outputIndex = some call → itemId ≠ "" ∧ call.callId ≠ "" ∧ call.name ≠ ""
  once : ∀ before itemId outputIndex name arguments after,
    events = before ++ .functionCallArgumentsDone itemId outputIndex name arguments :: after →
      ∀ event ∈ before, ¬ event.closesCall outputIndex
  inOrder : InOrder (response.toolCall loads) (response.callKeys loads)
    (events.flatMap (callPieces loads response))

/-- The text of a chat response. -/
def ChatResponse.text (chat : ChatResponse) : String :=
  String.join ((chat.message.content.getD []).filterMap ContentPart.text)

variable {loads : String → Option Value} {response : Response} {events : List ResponseStreamEvent}

theorem StreamOf.of_append {events' : List ResponseStreamEvent}
    (h : StreamOf response (events ++ events')) : StreamOf response events where
  fits event hevent := h.fits event (List.mem_append_left _ hevent)
  opened before event after outputIndex hevents :=
    h.opened before event (after ++ events') outputIndex (by simp [hevents])
  texts := by
    have htexts := h.texts
    rw [List.flatMap_append] at htexts
    exact htexts.of_append
  arguments outputIndex call hcall := by
    have hall := h.arguments outputIndex call hcall
    rw [argumentDeltas, List.flatMap_append] at hall
    exact (List.prefix_append _ _).trans hall

theorem StreamOf.not_isError (h : StreamOf response events) (herror : response.error = none) :
    ∀ event ∈ events ++ [.completed response], event.isError = false := by
  intro event hevent
  rcases List.mem_append.mp hevent with hevent | hevent
  · have hfits := h.fits event hevent
    cases event with
    | completed r | incomplete r | failed r | error code message => exact absurd hfits id
    | other type final =>
      cases final with
      | none => rfl
      | some r =>
        have hnone := hfits r rfl
        simp [ResponseStreamEvent.isError, ResponseStreamEvent.response?, hnone]
    | _ => rfl
  · obtain rfl := List.mem_singleton.mp hevent
    simp [ResponseStreamEvent.isError, ResponseStreamEvent.response?, herror]

/-! ### The texts -/

/-- The pieces of text in a stream: what comes before the end, and all texts whole. -/
theorem textPieces_completed : (events ++ [ResponseStreamEvent.completed response]).flatMap
      ResponseStreamEvent.textPieces =
    events.flatMap ResponseStreamEvent.textPieces ++ wholes response.text response.textKeys := by
  rw [List.flatMap_append, List.flatMap_singleton]
  exact congrArg _ Response.itemPieces_eq_wholes

/-- At the end every text has arrived. -/
theorem StreamOf.arrived_text (h : StreamOf response events) :
    arrived response.text (events.flatMap ResponseStreamEvent.textPieces ++
      wholes response.text response.textKeys) = response.text := by
  funext key
  by_cases hkey : key ∈ response.textKeys
  · exact arrived_append_wholes hkey
  · have hnil : response.text key = [] := by
      by_contra hne
      exact hkey (Response.mem_textKeys_of_text_ne_nil hne)
    have hle := arrived_isPrefix (h.texts.append_wholes response.textKeys) key
    rw [hnil] at hle ⊢
    exact List.prefix_nil.mp hle

/-- The stream is mapped, and what it emits is what a receiver of the texts forwards. -/
theorem StreamOf.mapStream_texts (h : StreamOf response events) (herror : response.error = none)
    (loads : String → Option Value) :
    ∃ out normalizer forwarded,
      mapStream loads {} (events ++ [.completed response]) = .ok (out, normalizer) ∧
      Emits out forwarded ∧
      receiveAll (fun _ => []) (events.flatMap ResponseStreamEvent.textPieces ++
        wholes response.text response.textKeys) = some (response.text, forwarded) ∧
      ∀ key, forwardedUnder key forwarded = response.text key := by
  have hsplits := h.texts.append_wholes response.textKeys
  obtain ⟨forwarded, hrun, hunder⟩ := receiveAll_of_splits hsplits
  rw [h.arrived_text] at hrun hunder
  have hrun' : receiveAll ({} : OpenAIResponsesStreamNormalizer).seenTexts
      ((events ++ [ResponseStreamEvent.completed response]).flatMap
        ResponseStreamEvent.textPieces) = some (response.text, forwarded) := by
    rw [textPieces_completed]
    exact hrun
  obtain ⟨out, normalizer, hmap, -, hemits⟩ := mapStream_receives loads _ {}
    (h.not_isError herror) _ _ hrun'
  exact ⟨out, normalizer, forwarded, hmap, hemits, hrun, hunder⟩

/-- What was forwarded of a part is its text. -/
theorem forwarded_part {forwarded : List (TextKey × List Char)}
    (hunder : ∀ key, forwardedUnder key forwarded = response.text key)
    (outputIndex contentIndex : Nat) :
    (forwarded.flatMap fun kv =>
      if (kv.1.1, kv.1.2.1) = (outputIndex, contentIndex) then kv.2 else []) =
        response.partText outputIndex contentIndex := by
  -- nothing is forwarded under a key that has no text
  have hnil : ∀ kv ∈ forwarded, response.text kv.1 = [] → kv.2 = [] := by
    intro kv hkv htext
    have hall := hunder kv.1
    rw [htext, forwardedUnder, List.flatMap_eq_nil_iff] at hall
    simpa using hall kv hkv
  rw [Response.partText]
  cases htext : (response.part? outputIndex contentIndex).bind (·.text?) with
  | none =>
    rw [Option.map_none, Option.getD_none, List.flatMap_eq_nil_iff]
    intro kv hkv
    split_ifs with hplace
    · refine hnil kv hkv ?_
      obtain ⟨h₁, h₂⟩ := Prod.mk.inj hplace
      rw [Response.text, h₁, h₂, htext]
    · rfl
  | some t =>
    obtain ⟨kind, text⟩ := t
    rw [Option.map_some, Option.getD_some]
    have hvalue : response.text (outputIndex, contentIndex, kind) = text.toList := by
      rw [Response.text, htext]
      simp
    rw [← hvalue, ← hunder, forwardedUnder]
    refine List.flatMap_congr fun kv hkv => ?_
    obtain ⟨⟨i, j, kind'⟩, delta⟩ := kv
    by_cases hplace : (i, j) = (outputIndex, contentIndex)
    · obtain ⟨rfl, rfl⟩ := Prod.mk.inj hplace
      by_cases hkind : kind' = kind
      · rw [if_pos rfl, if_pos (by rw [hkind])]
      · have hdelta := hnil _ hkv (by
          rw [Response.text, htext]
          exact if_neg fun heq => hkind heq.symm)
        rw [if_pos rfl, if_neg fun heq => hkind (Prod.mk.inj (Prod.mk.inj heq).2).2]
        exact hdelta
    · have hkey : (i, j, kind') ≠ (outputIndex, contentIndex, kind) := fun heq => by
        obtain ⟨rfl, hrest⟩ := Prod.mk.inj heq
        obtain ⟨rfl, -⟩ := Prod.mk.inj hrest
        exact hplace rfl
      rw [if_neg hplace, if_neg hkey]

/-! ### The calls -/

/-- Of an item that was opened the table has the call. -/
def Known (response : Response) (events : List ResponseStreamEvent)
    (functionCalls : String → Option FunctionCallState) : Prop :=
  ∀ outputIndex call itemId item, response.call? outputIndex = some call →
    call.id = some itemId → itemId ≠ "" → .outputItemAdded outputIndex item ∈ events →
      ∃ state, functionCalls itemId = some state ∧ state.callId = some call.callId ∧
        state.name = some call.name ∧ (call.arguments = "" → state.arguments = "")

theorem itemKey_of_id {call : ResponseFunctionToolCall} {itemId : String}
    (hid : call.id = some itemId) (hne : itemId ≠ "") : itemKey call = itemId := by
  simp [itemKey, hid, hne]

/-- An item id tells the place and the call. -/
theorem Response.DistinctCalls.eq_of_id (h : response.DistinctCalls) {i j : Nat}
    {call call' : ResponseFunctionToolCall} {itemId : String} (hi : response.call? i = some call)
    (hj : response.call? j = some call') (hid : call.id = some itemId)
    (hid' : call'.id = some itemId) (hne : itemId ≠ "") : i = j ∧ call = call' := by
  have hij := h.eq hi hj ((itemKey_of_id hid hne).trans (itemKey_of_id hid' hne).symm)
  subst hij
  exact ⟨rfl, Option.some.inj (hi.symm.trans hj)⟩

theorem CallsInOrder.of_append {events' : List ResponseStreamEvent}
    (h : CallsInOrder loads response (events ++ events')) : CallsInOrder loads response events where
  distinct := h.distinct
  named itemId outputIndex name arguments call hmem hcall :=
    h.named itemId outputIndex name arguments call (List.mem_append_left _ hmem) hcall
  once before itemId outputIndex name arguments after hevents :=
    h.once before itemId outputIndex name arguments (after ++ events') (by simp [hevents])
  inOrder := by
    have hall := h.inOrder
    rw [List.flatMap_append] at hall
    exact hall.of_append

/-- The pieces of calls are pieces of the calls of the response. -/
theorem StreamOf.splits_calls (h : StreamOf response events)
    (hcalls : CallsInOrder loads response events) :
    Splits (response.toolCall loads) (events.flatMap (callPieces loads response)) := by
  have hitem : ∀ item ∈ response.output, ∀ piece ∈ itemCallPieces loads item,
      ∃ key, piece = .whole key (response.toolCall loads key) := by
    intro item hmem piece hpiece
    obtain ⟨kv, hkv, rfl⟩ := Option.map_eq_some_iff.mp (Option.mem_toList.mp hpiece)
    have hmem' : kv ∈ response.keyedCalls loads := List.mem_filterMap.mpr ⟨item, hmem, hkv⟩
    exact ⟨kv.1, by rw [hcalls.distinct.toolCall_eq hmem']⟩
  have hwhole : ∀ piece ∈ events.flatMap (callPieces loads response),
      ∃ key, piece = .whole key (response.toolCall loads key) := by
    intro piece hpiece
    obtain ⟨event, hevent, hpiece⟩ := List.mem_flatMap.mp hpiece
    have hfits := h.fits event hevent
    cases event with
    | functionCallArgumentsDone itemId outputIndex name arguments =>
      obtain ⟨call, hcall, hid, -, -⟩ := hfits
      obtain ⟨toolCall, htool, rfl⟩ := Option.map_eq_some_iff.mp (Option.mem_toList.mp hpiece)
      rw [hcall, Option.bind_some] at htool
      obtain ⟨hne, -, -⟩ := hcalls.named itemId outputIndex name arguments call hevent hcall
      obtain ⟨item, hitem', hcall'⟩ := Option.bind_eq_some_iff.mp hcall
      have hmem : (itemId, toolCall) ∈ response.keyedCalls loads := by
        refine List.mem_filterMap.mpr ⟨item, List.mem_of_getElem? hitem', ?_⟩
        rw [keyedCall, hcall', Option.bind_some, htool, Option.map_some, itemKey_of_id hid hne]
      exact ⟨itemId, by rw [hcalls.distinct.toolCall_eq hmem]⟩
    | outputItemDone outputIndex item =>
      exact hitem item (List.mem_of_getElem? hfits) piece hpiece
    | completed final | incomplete final => exact absurd hfits id
    | _ => exact absurd hpiece (by simp [callPieces])
  refine ⟨fun key v hv => ?_, fun key => ?_, fun pre key part post hpieces => ?_⟩
  · obtain ⟨key', heq⟩ := hwhole _ hv
    obtain ⟨rfl, rfl⟩ := Piece.whole.inj heq
    rfl
  · have hnil : parts key (events.flatMap (callPieces loads response)) = [] := by
      rw [parts, List.flatMap_eq_nil_iff]
      intro piece hpiece
      obtain ⟨key', rfl⟩ := hwhole piece hpiece
      rfl
    rw [hnil]
    exact List.nil_prefix
  · obtain ⟨key', heq⟩ := hwhole (.more key part) (by simp [hpieces])
    exact absurd heq (by simp)

theorem callTable_outputItemAdded (normalizer : OpenAIResponsesStreamNormalizer)
    (outputIndex : Nat) (call : ResponseFunctionToolCall) :
    callTable loads normalizer (.outputItemAdded outputIndex (.functionCall call)) =
      match call.id with
      | none => normalizer.functionCalls
      | some itemId => Function.update normalizer.functionCalls itemId (some {
          callId := some call.callId, name := some call.name, arguments := call.arguments }) := by
  rw [callTable, mapOutputItemAdded]
  cases call.id <;> rfl

/-- The table keeps the calls of the items that were opened. -/
theorem Known.step (hcalls : response.DistinctCalls) {event : ResponseStreamEvent}
    (h : StreamOf response (events ++ [event])) {normalizer : OpenAIResponsesStreamNormalizer}
    (hknown : Known response events normalizer.functionCalls) :
    Known response (events ++ [event]) (callTable loads normalizer event) := by
  intro outputIndex call itemId item hcall hid hne hadded
  have hfits := h.fits event (by simp)
  -- an event that does not open the item leaves it opened before
  have hbefore : (∀ i, event ≠ .outputItemAdded outputIndex i) →
      ∃ state, normalizer.functionCalls itemId = some state ∧ state.callId = some call.callId ∧
        state.name = some call.name ∧ (call.arguments = "" → state.arguments = "") := by
    intro hnot
    refine hknown outputIndex call itemId item hcall hid hne ?_
    rcases List.mem_append.mp hadded with hmem | hmem
    · exact hmem
    · exact absurd (List.mem_singleton.mp hmem).symm (hnot item)
  cases event with
  | outputItemAdded index opened =>
    obtain ⟨final, hfinal, hopens⟩ := hfits
    by_cases hindex : index = outputIndex
    · subst hindex
      obtain ⟨final', hfinal', hcall'⟩ := Option.bind_eq_some_iff.mp hcall
      obtain rfl := Option.some.inj (hfinal.symm.trans hfinal')
      cases final with
      | functionCall c =>
        obtain rfl := Option.some.inj hcall'
        cases opened with
        | functionCall o =>
          obtain ⟨arguments, rfl, hle⟩ := hopens
          rw [callTable_outputItemAdded]
          simp only [hid]
          rw [Function.update_self]
          refine ⟨_, rfl, rfl, rfl, fun hempty => ?_⟩
          rw [hempty] at hle
          exact String.toList_eq_nil_iff.mp (List.prefix_nil.mp hle)
        | message content | other type => exact absurd hopens id
      | message content | other type => exact absurd hcall' (by simp [ResponseOutputItem.call?])
    · have hstate := hbefore fun i heq => hindex (ResponseStreamEvent.outputItemAdded.inj heq).1
      cases opened with
      | functionCall o =>
        rw [callTable_outputItemAdded]
        cases hopened : o.id with
        | none => exact hstate
        | some openedId =>
          dsimp only
          rw [Function.update_of_ne]
          · exact hstate
          · rintro rfl
            cases final with
            | functionCall c =>
              obtain ⟨arguments, rfl, -⟩ := hopens
              have hc : response.call? index = some c := by
                rw [Response.call?, hfinal]
                rfl
              exact hindex (hcalls.eq_of_id hc hcall hopened hid hne).1
            | message content | other type => exact absurd hopens id
      | message content | other type => exact hstate
  | functionCallArgumentsDelta deltaId index delta =>
    obtain ⟨state, hstate, hcallId, hname, harguments⟩ := hbefore (by simp)
    rw [callTable, mapFunctionArgumentsDelta]
    split_ifs with hdelta
    · exact ⟨state, hstate, hcallId, hname, harguments⟩
    · dsimp only
      by_cases hsame : deltaId = itemId
      · subst hsame
        obtain ⟨call', hcall', hid'⟩ := hfits
        obtain ⟨rfl, rfl⟩ := hcalls.eq_of_id hcall' hcall hid' hid hne
        rw [Function.update_self]
        refine ⟨_, rfl, ?_, ?_, fun hempty => absurd ?_ hdelta⟩
        · rw [hstate]
          exact hcallId
        · rw [hstate]
          exact hname
        -- a call without arguments has no delta
        · have hle := h.arguments index call' hcall
          rw [hempty, argumentDeltas, List.flatMap_append] at hle
          have hnil := (List.append_eq_nil_iff.mp (List.prefix_nil.mp hle)).2
          exact String.toList_eq_nil_iff.mp (by simpa using hnil)
      · rw [Function.update_of_ne (Ne.symm hsame)]
        exact ⟨state, hstate, hcallId, hname, harguments⟩
  | functionCallArgumentsDone doneId index name arguments =>
    obtain ⟨state, hstate, hcallId, hname, harguments⟩ := hbefore (by simp)
    have htable : callTable loads normalizer
        (.functionCallArgumentsDone doneId index name arguments) =
          Function.update normalizer.functionCalls doneId
            (some (normalizer.argumentsDoneState doneId name arguments)) := by
      rw [callTable, mapFunctionArgumentsDone]
      dsimp only
      split <;> rfl
    rw [htable]
    by_cases hsame : doneId = itemId
    · subst hsame
      obtain ⟨call', hcall', hid', hnames, rfl⟩ := hfits
      obtain ⟨rfl, rfl⟩ := hcalls.eq_of_id hcall' hcall hid' hid hne
      rw [Function.update_self]
      refine ⟨_, rfl, ?_, ?_, fun hempty => ?_⟩
      · rw [argumentsDoneState, hstate]
        exact hcallId
      · rw [argumentsDoneState, hstate]
        rcases hnames with rfl | rfl
        · exact hname
        · rfl
      · rw [argumentsDoneState, hstate]
        dsimp only
        rw [if_pos hempty]
        exact harguments hempty
    · rw [Function.update_of_ne (Ne.symm hsame)]
      exact ⟨state, hstate, hcallId, hname, harguments⟩
  | _ => exact hbefore (by simp)

/-- When the arguments of a call are done, the call is completed as the response has it. -/
theorem StreamOf.toolCall_of_done {itemId : String} {outputIndex : Nat} {name : Option String}
    {arguments : String}
    (h : StreamOf response (events ++ [.functionCallArgumentsDone itemId outputIndex name arguments]))
    (hcalls : CallsInOrder loads response
      (events ++ [.functionCallArgumentsDone itemId outputIndex name arguments]))
    {normalizer : OpenAIResponsesStreamNormalizer}
    (hknown : Known response events normalizer.functionCalls) :
    ¬ Closed itemId (events.flatMap (callPieces loads response)) ∧ ∃ toolCall,
      (response.call? outputIndex).bind (·.toolCall? loads) = some toolCall ∧
        toolCallFromState loads itemId (normalizer.argumentsDoneState itemId name arguments) =
          some toolCall := by
  obtain ⟨call, hcall, hid, hnames, rfl⟩ := h.fits _ (List.mem_append_right _
    (List.mem_singleton_self _))
  obtain ⟨hne, hcallId, hname⟩ := hcalls.named itemId outputIndex name call.arguments call (by simp)
    hcall
  obtain ⟨item, hadded⟩ := h.opened events _ [] outputIndex rfl rfl
  obtain ⟨state, hstate, hstateId, hstateName, hstateArgs⟩ :=
    hknown outputIndex call itemId item hcall hid hne hadded
  constructor
  · intro hclosed
    obtain ⟨v, hv⟩ := closed_iff.mp hclosed
    obtain ⟨event, hevent, hpiece⟩ := List.mem_flatMap.mp hv
    have hopen := hcalls.once events itemId outputIndex name call.arguments [] rfl event hevent
    have hfits := h.fits event (List.mem_append_left _ hevent)
    cases event with
    | functionCallArgumentsDone doneId index name' arguments' =>
      obtain ⟨call', hcall', hid', -, -⟩ := hfits
      obtain ⟨toolCall, -, heq⟩ := Option.map_eq_some_iff.mp (Option.mem_toList.mp hpiece)
      obtain ⟨rfl, -⟩ := Piece.whole.inj heq
      obtain ⟨rfl, -⟩ := hcalls.distinct.eq_of_id hcall' hcall hid' hid hne
      exact hopen (by simp [ResponseStreamEvent.closesCall])
    | outputItemDone index item' =>
      obtain ⟨kv, hkv, heq⟩ := Option.map_eq_some_iff.mp (Option.mem_toList.mp hpiece)
      obtain ⟨rfl, -⟩ := Piece.whole.inj heq
      obtain ⟨call', hcall', hmap⟩ := Option.bind_eq_some_iff.mp hkv
      obtain ⟨toolCall, -, rfl⟩ := Option.map_eq_some_iff.mp hmap
      have hcall'' : response.call? index = some call' := by
        rw [Response.call?, show response.output[index]? = some item' from hfits]
        exact hcall'
      obtain rfl := hcalls.distinct.eq hcall'' hcall (itemKey_of_id hid hne).symm
      exact hopen (by simp [ResponseStreamEvent.closesCall])
    | completed final | incomplete final => exact absurd hfits id
    | _ => exact absurd hpiece (by simp [callPieces])
  · have hdone : normalizer.argumentsDoneState itemId name call.arguments =
        { callId := some call.callId, name := some call.name, arguments := call.arguments } := by
      have hname' : name.or state.name = some call.name := by
        rcases hnames with rfl | rfl
        · exact hstateName
        · rfl
      have harguments : (if call.arguments = "" then state.arguments else call.arguments) =
          call.arguments := by
        split_ifs with hempty
        · rw [hstateArgs hempty, hempty]
        · rfl
      rw [argumentsDoneState, hstate]
      simp only [Option.getD_some, hstateId, hname', harguments]
    refine ⟨_, by rw [hcall, Option.bind_some, ResponseFunctionToolCall.toolCall?, if_neg hcallId,
      if_neg hname], ?_⟩
    rw [hdone, toolCallFromState]
    simp [hcallId]

theorem mapStream_concat {normalizer normalizer' : OpenAIResponsesStreamNormalizer}
    {event : ResponseStreamEvent} {out : List ChatStreamEvent}
    (h : mapStream loads normalizer (events ++ [event]) = .ok (out, normalizer')) :
    ∃ first n mapped, mapStream loads normalizer events = .ok (first, n) ∧
      n.mapEvents loads event = .ok (mapped, normalizer') ∧ out = first ++ mapped := by
  induction events generalizing normalizer out with
  | nil =>
    obtain ⟨⟨mapped, n⟩, hmap, h⟩ := exists_of_bind_eq_ok h
    obtain ⟨⟨rest, n'⟩, hrest, h⟩ := exists_of_bind_eq_ok h
    obtain ⟨rfl, rfl⟩ := Prod.mk.inj (Except.ok.inj hrest)
    obtain ⟨rfl, rfl⟩ := Prod.mk.inj (Except.ok.inj h)
    exact ⟨[], normalizer, mapped, rfl, hmap, by simp⟩
  | cons e events ih =>
    obtain ⟨⟨mapped, n⟩, hmap, h⟩ := exists_of_bind_eq_ok h
    obtain ⟨⟨rest, n'⟩, hrest, h⟩ := exists_of_bind_eq_ok h
    obtain ⟨rfl, rfl⟩ := Prod.mk.inj (Except.ok.inj h)
    obtain ⟨first, n₁, last, hfirst, hlast, rfl⟩ := ih hrest
    refine ⟨mapped ++ first, n₁, last, ?_, hlast, by simp⟩
    rw [mapStream]
    simp [hmap, hfirst, bind, Except.bind]

/-- **The run lemma** for the calls before the end. -/
theorem StreamOf.callsAt (h : StreamOf response events) (herror : response.error = none)
    (hcalls : CallsInOrder loads response events) {out : List ChatStreamEvent}
    {normalizer : OpenAIResponsesStreamNormalizer}
    (hrun : mapStream loads {} events = .ok (out, normalizer)) :
    CallsAt (response.toolCall loads) (events.flatMap (callPieces loads response)) normalizer
        (completedCalls out) ∧
      Known response events normalizer.functionCalls := by
  induction events using List.reverseRecOn generalizing out normalizer with
  | nil =>
    obtain ⟨rfl, rfl⟩ := Prod.mk.inj (Except.ok.inj hrun)
    exact ⟨callsAt_nil, fun _ _ _ _ _ _ _ hmem => absurd hmem (by simp)⟩
  | append_singleton events event ih =>
    obtain ⟨first, n, mapped, hfirst, hmap, rfl⟩ := mapStream_concat hrun
    obtain ⟨hat, hknown⟩ := ih h.of_append hcalls.of_append hfirst
    have hsplits := h.splits_calls hcalls
    rw [List.flatMap_append, List.flatMap_singleton] at hsplits ⊢
    obtain ⟨hat', htable⟩ := hat.mapEvents (h.not_isError herror event (by simp)) hsplits
      (fun itemId outputIndex name arguments heq => by
        subst heq
        exact h.toolCall_of_done hcalls hknown) hmap
    rw [completedCalls_append]
    exact ⟨hat', htable ▸ hknown.step hcalls.distinct h⟩

/-- The calls that are completed are those of the response, in order. -/
theorem StreamOf.completedCalls_eq (h : StreamOf response events) (herror : response.error = none)
    (hcalls : CallsInOrder loads response events) {out : List ChatStreamEvent}
    {normalizer : OpenAIResponsesStreamNormalizer}
    (hrun : mapStream loads {} (events ++ [.completed response]) = .ok (out, normalizer)) :
    completedCalls out = outputToolCalls loads response.output := by
  obtain ⟨first, n, mapped, hfirst, hmap, rfl⟩ := mapStream_concat hrun
  obtain ⟨hat, -⟩ := h.callsAt herror hcalls hfirst
  have hpieces : callPieces loads response (.completed response) =
      wholes (response.toolCall loads) (response.callKeys loads) := hcalls.distinct.pieces_eq_wholes
  have hsplits := (h.splits_calls hcalls).append_wholes (response.callKeys loads)
  have hnodup := hcalls.distinct.nodup_callKeys loads
  obtain ⟨hall, -⟩ := hat.mapEvents
    (h.not_isError herror (.completed response) (by simp)) (hpieces.symm ▸ hsplits)
    (fun _ _ _ _ heq => absurd heq (by simp)) hmap
  rw [hpieces] at hall
  obtain ⟨forwarded, hrec, hemitted⟩ := hall.forwarded
  rw [completedCalls_append, hemitted, forwarded_eq_of_inOrder hnodup
    (fun key => mem_callKeys_of_toolCall_ne_nil) hsplits (hcalls.inOrder.append_wholes hnodup) hrec,
    ← hcalls.distinct.flatMap_toolCall]
  exact List.flatMap_congr fun key hkey => arrived_append_wholes hkey

/-! ### The result -/

/-- **Streaming equals mapping in one piece.** A stream of a response without error is mapped, and
every text of the response is emitted exactly once. When no text begins before the earlier texts are
complete, and the response has not both a text and a refusal, the emitted text is the text that
`from_openai_response` gives; when the calls come once and in order, the completed calls are its
calls. -/
theorem responsesStream_eq (loads : String → Option Value) (response : Response)
    (events : List ResponseStreamEvent) (herror : response.error = none)
    (h : StreamOf response events) :
    ∃ out normalizer chat,
      mapStream loads {} (events ++ [.completed response]) = .ok (out, normalizer) ∧
      fromOpenaiResponse loads response = .ok chat ∧
      (∀ outputIndex contentIndex, emittedPart out outputIndex contentIndex =
        response.partText outputIndex contentIndex) ∧
      (InOrder response.text response.textKeys (events.flatMap ResponseStreamEvent.textPieces) →
        (outputText response.output = "" ∨ outputRefusal response.output = "") →
          emittedText out = chat.text.toList) ∧
      (CallsInOrder loads response events →
        completedCalls out = chat.message.toolCalls.getD []) := by
  obtain ⟨out, normalizer, forwarded, hrun, hemits, hrec, hunder⟩ := h.mapStream_texts herror loads
  have hchat : ∃ chat, fromOpenaiResponse loads response = .ok chat ∧
      chat.text = (if outputText response.output ≠ "" then outputText response.output
        else outputRefusal response.output) ∧
      chat.message.toolCalls.getD [] = outputToolCalls loads response.output := by
    rw [fromOpenaiResponse, if_neg (by simp [herror])]
    generalize (if outputText response.output ≠ "" then outputText response.output
      else outputRefusal response.output) = text
    refine ⟨_, rfl, ?_, ?_⟩
    · rw [ChatResponse.text]
      by_cases htext : text = ""
      · simp [htext, String.join]
      · simp [htext, String.join]
    · by_cases hcalls : outputToolCalls loads response.output = []
      · simp [hcalls]
      · simp [hcalls]
  obtain ⟨chat, hchat, htext, hcalls⟩ := hchat
  refine ⟨out, normalizer, chat, hrun, hchat, fun outputIndex contentIndex => ?_,
    fun horder hkind => ?_, fun horder => ?_⟩
  · rw [hemits.emittedPart_eq]
    exact forwarded_part hunder outputIndex contentIndex
  · have hsplits := h.texts.append_wholes response.textKeys
    rw [hemits.emittedText_eq, forwarded_eq_of_inOrder Response.nodup_textKeys
      (fun key => Response.mem_textKeys_of_text_ne_nil) hsplits
      (horder.append_wholes Response.nodup_textKeys) hrec, h.arrived_text, htext]
    exact Response.flatMap_text_eq hkind
  · rw [hcalls]
    exact h.completedCalls_eq herror horder hrun

section Example

/-- A message and a call; the message is closed by the response only. -/
private def greeting : Response where
  id := "r"
  model := "m"
  output := [.message [.outputText "Hi"],
    .functionCall { id := some "f", callId := "c", name := "tool", arguments := "1" }]

private def greetingEvents : List ResponseStreamEvent :=
  [.outputItemAdded 0 (.message []), .outputTextDelta "m" 0 0 "H",
    .outputItemAdded 1 (.functionCall { id := some "f", callId := "c", name := "tool", arguments := "" }),
    .functionCallArgumentsDone "f" 1 none "1"]

/-- A condition on the splits of a list is one on its positions. -/
private theorem of_forall_getElem {α : Type} {P : List α → α → Prop} {l : List α}
    (h : ∀ i (hi : i < l.length), P (l.take i) l[i]) {before after : List α} {a : α}
    (hl : l = before ++ a :: after) : P before a := by
  have hsplit := h before.length (by simp [hl])
  simpa [hl] using hsplit

private theorem streamOf_greeting : StreamOf greeting greetingEvents where
  fits := by
    simp [greetingEvents, ResponseStreamEvent.Fits, greeting, ResponseOutputItem.Opens,
      Response.call?, ResponseOutputItem.call?]
  opened before event after outputIndex hevents := by
    refine of_forall_getElem (P := fun before event => event.item? = some outputIndex →
      ∃ item, .outputItemAdded outputIndex item ∈ before) (fun i hi => ?_) hevents
    have hi' : i < 4 := hi
    interval_cases i <;> simp [greetingEvents, ResponseStreamEvent.item?]
    · rintro rfl
      simp
    · rintro rfl
      simp
  texts := by
    refine ⟨?_, fun key => ?_, fun pre key part post hpieces => ?_⟩
    · simp [greetingEvents, ResponseStreamEvent.textPieces, deltaPieces]
    · by_cases hkey : (0, 0, TextKind.outputText) = key
      · subst hkey
        decide
      · simp [greetingEvents, ResponseStreamEvent.textPieces, deltaPieces, parts, hkey]
    · refine of_forall_getElem (P := fun pre piece => ∀ key part, piece = .more key part →
        ¬ Closed key pre) (fun i hi => ?_) hpieces _ _ rfl
      have hi' : i < 1 := hi
      interval_cases i
      simp
  arguments outputIndex call hcall := by
    simp [argumentDeltas, greetingEvents]

private theorem callsInOrder_greeting (loads : String → Option Value) :
    CallsInOrder loads greeting greetingEvents where
  distinct := by
    rw [Response.DistinctCalls]
    decide
  named itemId outputIndex name arguments call hmem hcall := by
    obtain ⟨rfl, rfl, -⟩ : itemId = "f" ∧ outputIndex = 1 ∧ name = none := by
      simp [greetingEvents] at hmem
      exact ⟨hmem.1, hmem.2.1, hmem.2.2.1⟩
    obtain rfl : call = { id := some "f", callId := "c", name := "tool", arguments := "1" } :=
      (Option.some.inj hcall).symm
    decide
  once before itemId outputIndex name arguments after hevents event hevent := by
    refine of_forall_getElem (P := fun before event => ∀ itemId outputIndex name arguments,
      event = .functionCallArgumentsDone itemId outputIndex name arguments →
        ∀ event ∈ before, ¬ event.closesCall outputIndex) (fun i hi => ?_) hevents itemId outputIndex
          name arguments rfl event hevent
    have hi' : i < 4 := hi
    interval_cases i <;> simp [greetingEvents, ResponseStreamEvent.closesCall]
  inOrder pre piece post hpieces hnot earlier later hkeys key hkey := by
    have hone : (greeting.callKeys loads).length = 1 := rfl
    have hnil : earlier = [] := by
      rw [hkeys, List.length_append, List.length_cons] at hone
      exact List.length_eq_zero_iff.mp (by omega)
    rw [hnil] at hkey
    exact absurd hkey (by simp)

theorem responsesStream_eq_greeting :
    ∃ out normalizer, mapStream (fun _ => none) {} (greetingEvents ++ [.completed greeting]) =
      .ok (out, normalizer) ∧ emittedText out = "Hi".toList ∧ (completedCalls out).length = 1 := by
  obtain ⟨out, normalizer, chat, hrun, hchat, -, htext, hcalls⟩ :=
    responsesStream_eq (fun _ => none) greeting greetingEvents rfl streamOf_greeting
  obtain rfl := Except.ok.inj hchat
  refine ⟨out, normalizer, hrun, (htext (fun pre piece post _ _ earlier later hkeys key hkey => ?_)
    (Or.inr rfl)).trans rfl, ?_⟩
  · have hone : greeting.textKeys.length = 1 := rfl
    have hnil : earlier = [] := by
      rw [hkeys, List.length_append, List.length_cons] at hone
      exact List.length_eq_zero_iff.mp (by omega)
    rw [hnil] at hkey
    exact absurd hkey (by simp)
  · rw [hcalls (callsInOrder_greeting _)]
    rfl

/-- A text that is open when the next one begins. -/
private def late : Response where
  id := "r"
  model := "m"
  output := [.message [.outputText "ab", .outputText "c"]]

private def lateEvents : List ResponseStreamEvent :=
  [.outputItemAdded 0 (.message []), .outputTextDelta "m" 0 0 "a", .outputTextDelta "m" 0 1 "c"]

/-- A text and a refusal. -/
private def refused : Response where
  id := "r"
  model := "m"
  output := [.message [.outputText "a", .refusal "b"]]

private def refusedEvents : List ResponseStreamEvent := [.outputItemAdded 0 (.message [])]

theorem responsesStream_ne :
    (StreamOf late lateEvents ∧
      (mapStream (fun _ => none) {} (lateEvents ++ [.completed late])).map (emittedText ·.1) =
        .ok "acb".toList ∧
      (fromOpenaiResponse (fun _ => none) late).map (·.text) = .ok "abc") ∧
    StreamOf refused refusedEvents ∧
      (mapStream (fun _ => none) {} (refusedEvents ++ [.completed refused])).map (emittedText ·.1) =
        .ok "ab".toList ∧
      (fromOpenaiResponse (fun _ => none) refused).map (·.text) = .ok "a" := by
  refine ⟨⟨?_, rfl, rfl⟩, ?_, rfl, rfl⟩
  · refine ⟨?_, fun before event after outputIndex hevents => ?_,
      ⟨?_, fun key => ?_, fun pre key part post hpieces => ?_⟩, fun outputIndex call hcall => ?_⟩
    · simp [lateEvents, ResponseStreamEvent.Fits, late, ResponseOutputItem.Opens]
    · refine of_forall_getElem (P := fun before event => event.item? = some outputIndex →
        ∃ item, .outputItemAdded outputIndex item ∈ before) (fun i hi => ?_) hevents
      have hi' : i < 3 := hi
      interval_cases i <;> simp [lateEvents, ResponseStreamEvent.item?]
      · rintro rfl
        simp
      · rintro rfl
        simp
    · simp [lateEvents, ResponseStreamEvent.textPieces, deltaPieces]
    · by_cases hkey : (0, 0, TextKind.outputText) = key
      · subst hkey
        decide
      · by_cases hkey' : (0, 1, TextKind.outputText) = key
        · subst hkey'
          decide
        · simp [lateEvents, ResponseStreamEvent.textPieces, deltaPieces, parts, hkey, hkey']
    · refine of_forall_getElem (P := fun pre piece => ∀ key part, piece = .more key part →
        ¬ Closed key pre) (fun i hi => ?_) hpieces _ _ rfl
      have hi' : i < 2 := hi
      interval_cases i <;> simp [lateEvents, ResponseStreamEvent.textPieces, deltaPieces]
    · simp [argumentDeltas, lateEvents]
  · refine ⟨?_, fun before event after outputIndex hevents => ?_,
      ⟨?_, fun key => ?_, fun pre key part post hpieces => ?_⟩, fun outputIndex call hcall => ?_⟩
    · simp [refusedEvents, ResponseStreamEvent.Fits, refused, ResponseOutputItem.Opens]
    · refine of_forall_getElem (P := fun before event => event.item? = some outputIndex →
        ∃ item, .outputItemAdded outputIndex item ∈ before) (fun i hi => ?_) hevents
      have hi' : i < 1 := hi
      interval_cases i
      simp [refusedEvents, ResponseStreamEvent.item?]
    · simp [refusedEvents, ResponseStreamEvent.textPieces]
    · simp [refusedEvents, ResponseStreamEvent.textPieces]
    · exact absurd hpieces (by simp [refusedEvents, ResponseStreamEvent.textPieces])
    · simp [argumentDeltas, refusedEvents]

end Example

end EvernightAI
