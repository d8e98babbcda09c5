import EvernightAI.Lib.Reassembly
import EvernightAI.Provider.ResponsesMapper

/-!
# The calls of a Responses stream

A call arrives whole or not at all: when its arguments are done, when its item is done, and with the
response. The normalizer completes an item that is done, or comes with the response, unless it has
completed it before. It does not ask that when the arguments of a call are done.

* `Response.keyedCalls` are the calls of a response under the ids of their items.
* `CallsAt`: what was completed is what a receiver of the calls has forwarded.
* `CallsAt.mapEvents`: so it stays when an event is mapped.
-/

namespace EvernightAI

open Reassembly OpenAIResponsesStreamNormalizer

/-! ### The calls of a response -/

def ResponseOutputItem.call? : ResponseOutputItem → Option ResponseFunctionToolCall
  | .functionCall call => some call
  | _ => none

/-- The call at a place. -/
def Response.call? (response : Response) (outputIndex : Nat) : Option ResponseFunctionToolCall :=
  response.output[outputIndex]?.bind (·.call?)

variable (loads : String → Option Value)

/-- The call in an item, under the id of the item. -/
def keyedCall (item : ResponseOutputItem) : Option (String × ToolCall) :=
  item.call?.bind fun call => (call.toolCall? loads).map fun toolCall => (itemKey call, toolCall)

/-- The calls of a response, in order. -/
def Response.keyedCalls (response : Response) : List (String × ToolCall) :=
  response.output.filterMap (keyedCall loads)

/-- The call under a key, as a value that is whole or not there. -/
def Response.toolCall (response : Response) (key : String) : List ToolCall :=
  ((response.keyedCalls loads).lookup key).toList

/-- The ids of the items with a call, in order. -/
def Response.callKeys (response : Response) : List String := (response.keyedCalls loads).map Prod.fst

/-- No two calls have the same id. -/
def Response.DistinctCalls (response : Response) : Prop :=
  (response.output.filterMap fun item => item.call?.map itemKey).Nodup

/-- The call in an item that is done. -/
def itemCallPieces (item : ResponseOutputItem) : List (Piece String ToolCall) :=
  ((keyedCall loads item).map fun kv => .whole kv.1 [kv.2]).toList

/-- The calls in an event. -/
def callPieces (response : Response) : ResponseStreamEvent → List (Piece String ToolCall)
  | .functionCallArgumentsDone itemId outputIndex _ _ =>
    (((response.call? outputIndex).bind (·.toolCall? loads)).map fun toolCall =>
      .whole itemId [toolCall]).toList
  | .outputItemDone _ item => itemCallPieces loads item
  | .completed final | .incomplete final => final.output.flatMap (itemCallPieces loads)
  | _ => []

/-- The calls that some events complete. -/
def completedCalls (events : List ChatStreamEvent) : List ToolCall :=
  events.filterMap fun event => if event.eventType = .toolCallCompleted then event.toolCall else none

section Response

variable {loads} {response : Response}

/-- Two places with one value. -/
theorem eq_of_nodup_filterMap {α β : Type} {f : α → Option β} {l : List α}
    (h : (l.filterMap f).Nodup) {i j : Nat} {b : β} (hi : l[i]?.bind f = some b)
    (hj : l[j]?.bind f = some b) : i = j := by
  have hlt : ∀ i j : Nat, i < j → l[i]?.bind f = some b → l[j]?.bind f = some b → False := by
    intro i j hij hi hj
    obtain ⟨x, hx, hfx⟩ := Option.bind_eq_some_iff.mp hi
    obtain ⟨y, hy, hfy⟩ := Option.bind_eq_some_iff.mp hj
    obtain ⟨hi', rfl⟩ := List.getElem?_eq_some_iff.mp hx
    obtain ⟨hj', rfl⟩ := List.getElem?_eq_some_iff.mp hy
    exact List.pairwise_iff_getElem.mp (List.pairwise_filterMap.mp h) i j hi' hj' hij b hfx b hfy rfl
  rcases Nat.lt_trichotomy i j with hij | hij | hij
  · exact absurd hj fun hj => hlt i j hij hi hj
  · exact hij
  · exact absurd hi fun hi => hlt j i hij hj hi

/-- A key is the key of one call. -/
theorem Response.DistinctCalls.eq {i j : Nat} {call call' : ResponseFunctionToolCall}
    (h : response.DistinctCalls) (hi : response.call? i = some call)
    (hj : response.call? j = some call') (hkey : itemKey call = itemKey call') : i = j := by
  have hbind : ∀ (k : Nat) (c : ResponseFunctionToolCall), response.call? k = some c →
      (response.output[k]?.bind fun item => item.call?.map itemKey) = some (itemKey c) := by
    intro k c hk
    obtain ⟨item, hitem, hcall⟩ := Option.bind_eq_some_iff.mp hk
    rw [hitem, Option.bind_some, hcall, Option.map_some]
  exact eq_of_nodup_filterMap h (hbind i call hi) (hkey ▸ hbind j call' hj)

theorem outputToolCalls_eq :
    outputToolCalls loads response.output = (response.keyedCalls loads).map Prod.snd := by
  rw [outputToolCalls, Response.keyedCalls, List.map_filterMap]
  refine List.filterMap_congr fun item _ => ?_
  cases item with
  | functionCall call =>
    rw [keyedCall, ResponseOutputItem.call?, Option.bind_some, Option.map_map]
    exact (congrFun Option.map_id _).symm
  | message content | other type => rfl

theorem Response.DistinctCalls.nodup_callKeys (loads : String → Option Value) (h : response.DistinctCalls) :
    (response.callKeys loads).Nodup := by
  rw [Response.callKeys, Response.keyedCalls, List.map_filterMap, List.Nodup,
    List.pairwise_filterMap]
  refine (List.pairwise_filterMap.mp h).imp fun {a b} hne key hkey key' hkey' => ?_
  have hof : ∀ (item : ResponseOutputItem) (k : String),
      (keyedCall loads item).map Prod.fst = some k → item.call?.map itemKey = some k := by
    intro item k hk
    obtain ⟨kv, hkv, rfl⟩ := Option.map_eq_some_iff.mp hk
    obtain ⟨call, hcall, hmap⟩ := Option.bind_eq_some_iff.mp hkv
    obtain ⟨toolCall, -, rfl⟩ := Option.map_eq_some_iff.mp hmap
    rw [hcall, Option.map_some]
  exact hne key (hof a key hkey) key' (hof b key' hkey')

/-- The value under the key of a call is the call. -/
theorem Response.DistinctCalls.toolCall_eq (h : response.DistinctCalls) {kv : String × ToolCall}
    (hkv : kv ∈ response.keyedCalls loads) : response.toolCall loads kv.1 = [kv.2] := by
  have hnodup := h.nodup_callKeys loads
  rw [Response.callKeys] at hnodup
  rw [Response.toolCall]
  suffices hlookup : (response.keyedCalls loads).lookup kv.1 = some kv.2 by rw [hlookup]; rfl
  generalize response.keyedCalls loads = l at hkv hnodup
  induction l with
  | nil => exact absurd hkv (by simp)
  | cons x l ih =>
    rw [List.map_cons, List.nodup_cons] at hnodup
    rw [List.lookup_cons]
    rcases List.mem_cons.mp hkv with rfl | hkv
    · simp
    · have hne : (kv.1 == x.1) = false := by
        rw [beq_eq_false_iff_ne]
        intro heq
        exact hnodup.1 (heq ▸ List.mem_map_of_mem hkv)
      rw [hne]
      exact ih hkv hnodup.2

theorem mem_callKeys_of_toolCall_ne_nil {key : String} (h : response.toolCall loads key ≠ []) :
    key ∈ response.callKeys loads := by
  rw [Response.toolCall] at h
  cases hlookup : (response.keyedCalls loads).lookup key with
  | none => rw [hlookup] at h; exact absurd rfl h
  | some toolCall =>
    rw [Response.callKeys]
    by_contra hnot
    have hnone : (response.keyedCalls loads).lookup key = none := by
      rw [List.lookup_eq_none_iff]
      intro p hp
      rw [bne_iff_ne]
      rintro rfl
      exact hnot (List.mem_map_of_mem hp)
    rw [hnone] at hlookup
    exact absurd hlookup (by simp)

/-- The final response has the calls whole and in order. -/
theorem Response.DistinctCalls.pieces_eq_wholes (h : response.DistinctCalls) :
    response.output.flatMap (itemCallPieces loads) =
      wholes (response.toolCall loads) (response.callKeys loads) := by
  have hpieces : response.output.flatMap (itemCallPieces loads) =
      (response.keyedCalls loads).map fun kv => .whole kv.1 [kv.2] := by
    rw [Response.keyedCalls]
    induction response.output with
    | nil => rfl
    | cons item output ih =>
      rw [List.flatMap_cons, ih, itemCallPieces, List.filterMap_cons]
      cases keyedCall loads item <;> rfl
  rw [hpieces, wholes, Response.callKeys, List.map_map]
  refine List.map_congr_left fun kv hkv => ?_
  rw [Function.comp_apply, h.toolCall_eq hkv]

/-- The calls under the keys are the calls of the response. -/
theorem Response.DistinctCalls.flatMap_toolCall (h : response.DistinctCalls) :
    (response.callKeys loads).flatMap (response.toolCall loads) =
      outputToolCalls loads response.output := by
  rw [Response.callKeys, List.flatMap_map, outputToolCalls_eq]
  have hcongr : (response.keyedCalls loads).flatMap (fun kv => response.toolCall loads kv.1) =
      (response.keyedCalls loads).flatMap fun kv => [kv.2] :=
    List.flatMap_congr fun kv hkv => h.toolCall_eq hkv
  rw [hcongr]
  exact List.map_eq_flatMap.symm

end Response

/-! ### The calls that are completed -/

section CallsAt

variable {loads} {value : String → List ToolCall} {pieces pieces' : List (Piece String ToolCall)}
  {normalizer normalizer' : OpenAIResponsesStreamNormalizer} {emitted : List ToolCall}
  {key : String} {toolCall : ToolCall}

/-- The calls that were completed are what a receiver of these pieces has forwarded. -/
structure CallsAt (value : String → List ToolCall) (pieces : List (Piece String ToolCall))
    (normalizer : OpenAIResponsesStreamNormalizer) (emitted : List ToolCall) : Prop where
  completed : ∀ key, key ∈ normalizer.completedItemIds ↔ Closed key pieces
  parts : ∀ key, parts key pieces = []
  forwarded : ∃ forwarded, receiveAll (fun _ => []) pieces =
    some (arrived value pieces, forwarded) ∧ emitted = forwarded.flatMap Prod.snd

theorem callsAt_nil : CallsAt value [] {} [] where
  completed key := by simp
  parts key := rfl
  forwarded := ⟨[], by simp [receiveAll], rfl⟩

theorem CallsAt.congr (h : CallsAt value pieces normalizer emitted)
    (hcompleted : normalizer'.completedItemIds = normalizer.completedItemIds) :
    CallsAt value pieces normalizer' emitted where
  completed := hcompleted ▸ h.completed
  parts := h.parts
  forwarded := h.forwarded

/-- A call comes that was completed before, or that is completed now. -/
theorem CallsAt.whole (h : CallsAt value pieces normalizer emitted)
    (hsplits : Splits value (pieces ++ [.whole key [toolCall]])) :
    CallsAt value (pieces ++ [.whole key [toolCall]])
      { normalizer with completedItemIds := normalizer.completedItemIds.insert key }
      (emitted ++ if Closed key pieces then [] else [toolCall]) where
  completed key' := by
    rw [closed_append, closed_whole, ← h.completed]
    dsimp only
    rw [List.mem_insert_iff, or_comm, eq_comm]
  parts key' := by
    rw [parts_append, h.parts]
    rfl
  forwarded := by
    obtain ⟨fwd, hrun, rfl⟩ := h.forwarded
    refine ⟨fwd ++ [(key, gain value pieces (.whole key [toolCall]))], ?_, ?_⟩
    · rw [receiveAll_append, hrun]
      simp [receiveAll, receive_arrived hsplits, Piece.key]
    · rw [List.flatMap_append]
      congr 1
      have hvalue : value key = [toolCall] := (hsplits.whole key _ (by simp)).symm
      split_ifs with hclosed
      · simp [gain, arrived_of_closed hclosed, hvalue]
      · simp [gain, arrived_of_not_closed hclosed, h.parts]

/-- `_map_output_item_done` completes the call of the item unless that was done. -/
theorem CallsAt.mapOutputItemDone (h : CallsAt value pieces normalizer emitted) (type : String)
    (outputIndex : Nat) (item : ResponseOutputItem)
    (hsplits : Splits value (pieces ++ itemCallPieces loads item)) :
    CallsAt value (pieces ++ itemCallPieces loads item)
      (normalizer.mapOutputItemDone loads type outputIndex item).2
      (emitted ++
        completedCalls (normalizer.mapOutputItemDone loads type outputIndex item).1.toList) := by
  cases item with
  | functionCall call =>
    rw [OpenAIResponsesStreamNormalizer.mapOutputItemDone]
    rw [itemCallPieces, keyedCall, ResponseOutputItem.call?, Option.bind_some] at hsplits ⊢
    cases htool : call.toolCall? loads with
    | none =>
      rw [Option.map_none, Option.map_none, Option.toList_none, List.append_nil]
      dsimp only
      split_ifs
      · simpa [completedCalls] using h
      · simpa [completedCalls] using h
    | some toolCall =>
      rw [htool, Option.map_some, Option.map_some, Option.toList_some] at hsplits
      rw [Option.map_some, Option.map_some, Option.toList_some]
      have hwhole := h.whole hsplits
      dsimp only
      split_ifs with hdone
      · rw [if_pos ((h.completed _).mp hdone)] at hwhole
        exact hwhole.congr (List.insert_of_mem hdone).symm
      · rw [if_neg fun hclosed => hdone ((h.completed _).mpr hclosed)] at hwhole
        exact hwhole
  | message content | other type =>
    simpa [itemCallPieces, keyedCall, ResponseOutputItem.call?,
      OpenAIResponsesStreamNormalizer.mapOutputItemDone, completedCalls] using h

end CallsAt

/-! ### What leaves the calls alone -/

section Frame

variable {loads} {normalizer normalizer' : OpenAIResponsesStreamNormalizer}
  {events : List ChatStreamEvent}

theorem completedCalls_append (events events' : List ChatStreamEvent) :
    completedCalls (events ++ events') = completedCalls events ++ completedCalls events' :=
  List.filterMap_append

/-- The calls are as they were, and none was completed. -/
structure SameCalls (normalizer normalizer' : OpenAIResponsesStreamNormalizer)
    (events : List ChatStreamEvent) : Prop where
  functionCalls : normalizer'.functionCalls = normalizer.functionCalls
  completedItemIds : normalizer'.completedItemIds = normalizer.completedItemIds
  events : completedCalls events = []

theorem sameCalls_nil : SameCalls normalizer normalizer [] := ⟨rfl, rfl, rfl⟩

theorem SameCalls.append {normalizer'' : OpenAIResponsesStreamNormalizer}
    {events' : List ChatStreamEvent} (h : SameCalls normalizer normalizer' events)
    (h' : SameCalls normalizer' normalizer'' events') :
    SameCalls normalizer normalizer'' (events ++ events') where
  functionCalls := h'.functionCalls.trans h.functionCalls
  completedItemIds := h'.completedItemIds.trans h.completedItemIds
  events := by rw [completedCalls_append, h.events, h'.events, List.append_nil]

theorem completedCalls_textEvent (payload : TextPayload) (delta : String) :
    completedCalls (textEvent payload delta).toList = [] := by
  rw [textEvent]
  split_ifs <;> rfl

theorem mapText_sameCalls {payload : TextPayload} {text : String} {kind : TextKind} {final : Bool}
    {mapped : Option ChatStreamEvent}
    (h : normalizer.mapText payload text kind final = .ok (mapped, normalizer')) :
    SameCalls normalizer normalizer' mapped.toList := by
  rw [mapText] at h
  dsimp only at h
  split at h
  · exact absurd h (by simp)
  · obtain ⟨rfl, rfl⟩ := Prod.mk.inj (Except.ok.inj h)
    exact ⟨rfl, rfl, completedCalls_textEvent _ _⟩

theorem finalPartsText_sameCalls {payload : TextPayload} {content : List ResponseContentPart}
    {index : Nat} (h : finalPartsText payload normalizer index content = .ok (events, normalizer')) :
    SameCalls normalizer normalizer' events := by
  induction content generalizing normalizer index events with
  | nil =>
    obtain ⟨rfl, rfl⟩ := Prod.mk.inj (Except.ok.inj h)
    exact sameCalls_nil
  | cons part content ih =>
    rw [finalPartsText] at h
    split at h
    · exact ih h
    · obtain ⟨⟨mapped, n⟩, hmap, h⟩ := exists_of_bind_eq_ok h
      obtain ⟨⟨rest, n'⟩, hrest, h⟩ := exists_of_bind_eq_ok h
      obtain ⟨rfl, rfl⟩ := Prod.mk.inj (Except.ok.inj h)
      exact (mapText_sameCalls hmap).append (ih hrest)

theorem finalItemText_sameCalls {item : ResponseOutputItem} {payload : TextPayload}
    (h : normalizer.finalItemText item payload = .ok (events, normalizer')) :
    SameCalls normalizer normalizer' events := by
  cases item with
  | message content => exact finalPartsText_sameCalls h
  | functionCall call | other type =>
    obtain ⟨rfl, rfl⟩ := Prod.mk.inj (Except.ok.inj h)
    exact sameCalls_nil

theorem mapOutputItemDone_functionCalls (type : String) (outputIndex : Nat)
    (item : ResponseOutputItem) :
    (normalizer.mapOutputItemDone loads type outputIndex item).2.functionCalls =
      normalizer.functionCalls := by
  cases item with
  | functionCall call =>
    rw [mapOutputItemDone]
    split_ifs
    · rfl
    · cases call.toolCall? loads <;> rfl
  | message content | other type => rfl

/-- The calls of the final response. -/
theorem CallsAt.finalItems {value : String → List ToolCall} {pieces : List (Piece String ToolCall)}
    {emitted : List ToolCall} {type : String} {output : List ResponseOutputItem} {index : Nat}
    (h : CallsAt value pieces normalizer emitted)
    (hsplits : Splits value (pieces ++ output.flatMap (itemCallPieces loads)))
    (hrun : finalItems loads type normalizer index output = .ok (events, normalizer')) :
    CallsAt value (pieces ++ output.flatMap (itemCallPieces loads)) normalizer'
      (emitted ++ completedCalls events) ∧ normalizer'.functionCalls = normalizer.functionCalls := by
  induction output generalizing normalizer pieces emitted index events with
  | nil =>
    obtain ⟨rfl, rfl⟩ := Prod.mk.inj (Except.ok.inj hrun)
    exact ⟨by simpa [completedCalls] using h, rfl⟩
  | cons item output ih =>
    rw [finalItems] at hrun
    obtain ⟨⟨texts, n⟩, htexts, hrun⟩ := exists_of_bind_eq_ok hrun
    obtain ⟨⟨rest, n'⟩, hrest, hrun⟩ := exists_of_bind_eq_ok hrun
    obtain ⟨rfl, rfl⟩ := Prod.mk.inj (Except.ok.inj hrun)
    have hsame := finalItemText_sameCalls htexts
    rw [List.flatMap_cons, ← List.append_assoc] at hsplits ⊢
    have hitem := (h.congr hsame.completedItemIds).mapOutputItemDone type index item
      hsplits.of_append
    obtain ⟨hall, htable⟩ := ih hitem hsplits hrest
    refine ⟨?_, htable.trans ((mapOutputItemDone_functionCalls _ _ _).trans hsame.functionCalls)⟩
    rw [completedCalls_append, completedCalls_append, hsame.events, List.nil_append,
      ← List.append_assoc]
    exact hall

/-! ### The calls in an event -/

/-- The calls the table has after an event. -/
def callTable (loads : String → Option Value) (normalizer : OpenAIResponsesStreamNormalizer) :
    ResponseStreamEvent → String → Option FunctionCallState
  | .outputItemAdded outputIndex item =>
    (normalizer.mapOutputItemAdded outputIndex item).2.functionCalls
  | .functionCallArgumentsDelta itemId outputIndex delta =>
    (normalizer.mapFunctionArgumentsDelta itemId outputIndex delta).2.functionCalls
  | .functionCallArgumentsDone itemId outputIndex name arguments =>
    (normalizer.mapFunctionArgumentsDone loads itemId outputIndex name arguments).2.functionCalls
  | _ => normalizer.functionCalls

theorem completedCalls_getD_raw (mapped : Option ChatStreamEvent) (event : ResponseStreamEvent) :
    completedCalls [mapped.getD (rawEvent event)] = completedCalls mapped.toList := by
  cases mapped <;> rfl

/-- A text event. -/
theorem mapText_orRaw_sameCalls {payload : TextPayload} {text : String} {kind : TextKind}
    {final : Bool} {event : ResponseStreamEvent}
    (h : (((normalizer.mapText payload text kind final).map fun mapped =>
      (mapped.1.getD (rawEvent event), mapped.2)).map fun mapped => ([mapped.1], mapped.2)) =
        .ok (events, normalizer')) :
    SameCalls normalizer normalizer' events := by
  cases hmap : normalizer.mapText payload text kind final with
  | error err =>
    rw [hmap] at h
    exact absurd h (by simp [Except.map])
  | ok r =>
    rw [hmap] at h
    obtain ⟨rfl, rfl⟩ := Prod.mk.inj (Except.ok.inj h)
    have hsame : SameCalls normalizer r.2 r.1.toList := mapText_sameCalls hmap
    exact ⟨hsame.functionCalls, hsame.completedItemIds,
      (completedCalls_getD_raw _ _).trans hsame.events⟩

/-- A delta. -/
theorem mapDelta_sameCalls {payload : TextPayload} {delta : String} {kind : TextKind}
    {event : ResponseStreamEvent}
    (h : ((if delta = "" then .ok (rawEvent event, normalizer)
      else (normalizer.mapText payload delta kind false).map fun mapped =>
        (mapped.1.getD (rawEvent event), mapped.2)).map fun mapped => ([mapped.1], mapped.2)) =
        .ok (events, normalizer')) :
    SameCalls normalizer normalizer' events := by
  split_ifs at h
  · obtain ⟨rfl, rfl⟩ := Prod.mk.inj (Except.ok.inj h)
    exact ⟨rfl, rfl, rfl⟩
  · exact mapText_orRaw_sameCalls h

/-- **An event is the calls in it**, unless the arguments of a call are done that was completed. -/
theorem CallsAt.mapEvents {value : String → List ToolCall} {pieces : List (Piece String ToolCall)}
    {emitted : List ToolCall} {response : Response} {event : ResponseStreamEvent}
    (h : CallsAt value pieces normalizer emitted) (herror : event.isError = false)
    (hsplits : Splits value (pieces ++ callPieces loads response event))
    (hdone : ∀ itemId outputIndex name arguments,
      event = .functionCallArgumentsDone itemId outputIndex name arguments →
        ¬ Closed itemId pieces ∧ ∃ toolCall,
          (response.call? outputIndex).bind (·.toolCall? loads) = some toolCall ∧
          toolCallFromState loads itemId (normalizer.argumentsDoneState itemId name arguments) =
            some toolCall)
    (hrun : normalizer.mapEvents loads event = .ok (events, normalizer')) :
    CallsAt value (pieces ++ callPieces loads response event) normalizer'
        (emitted ++ completedCalls events) ∧
      normalizer'.functionCalls = callTable loads normalizer event := by
  have hkeep : callPieces loads response event = [] →
      normalizer'.completedItemIds = normalizer.completedItemIds → completedCalls events = [] →
      CallsAt value (pieces ++ callPieces loads response event) normalizer'
        (emitted ++ completedCalls events) := by
    intro hnil hcompleted hevents
    rw [hnil, hevents, List.append_nil, List.append_nil]
    exact h.congr hcompleted
  have hframe : callPieces loads response event = [] →
      callTable loads normalizer event = normalizer.functionCalls →
      SameCalls normalizer normalizer' events →
      CallsAt value (pieces ++ callPieces loads response event) normalizer'
          (emitted ++ completedCalls events) ∧
        normalizer'.functionCalls = callTable loads normalizer event := by
    intro hnil htable hsame
    exact ⟨hkeep hnil hsame.completedItemIds hsame.events, hsame.functionCalls.trans htable.symm⟩
  cases event with
  | outputTextDelta itemId outputIndex contentIndex delta
  | refusalDelta itemId outputIndex contentIndex delta =>
    rw [mapEvents_of_finalEvents_nil herror fun _ => rfl] at hrun
    exact hframe rfl rfl (mapDelta_sameCalls hrun)
  | outputTextDone itemId outputIndex contentIndex text
  | refusalDone itemId outputIndex contentIndex text =>
    rw [mapEvents_of_finalEvents_nil herror fun _ => rfl] at hrun
    exact hframe rfl rfl (mapText_orRaw_sameCalls hrun)
  | contentPartDone itemId outputIndex contentIndex part =>
    rw [mapEvents_of_finalEvents_nil herror fun _ => rfl, mapPayload] at hrun
    refine hframe rfl rfl ?_
    cases htext : part.text? with
    | none =>
      rw [htext] at hrun
      obtain ⟨rfl, rfl⟩ := Prod.mk.inj (Except.ok.inj hrun)
      exact ⟨rfl, rfl, rfl⟩
    | some t =>
      rw [htext] at hrun
      exact mapText_orRaw_sameCalls hrun
  | outputItemAdded outputIndex item =>
    rw [mapEvents_of_finalEvents_nil herror fun _ => rfl] at hrun
    obtain ⟨rfl, rfl⟩ := Prod.mk.inj (Except.ok.inj hrun)
    refine ⟨hkeep rfl ?_ ((completedCalls_getD_raw _ _).trans ?_), rfl⟩
    · cases item with
      | functionCall call =>
        rw [mapOutputItemAdded]
        cases call.id <;> rfl
      | message content | other type => rfl
    · cases item <;> rfl
  | functionCallArgumentsDelta itemId outputIndex delta =>
    rw [mapEvents_of_finalEvents_nil herror fun _ => rfl] at hrun
    obtain ⟨rfl, rfl⟩ := Prod.mk.inj (Except.ok.inj hrun)
    refine ⟨hkeep rfl ?_ ((completedCalls_getD_raw _ _).trans ?_), rfl⟩
    · rw [mapFunctionArgumentsDelta]
      split_ifs <;> rfl
    · rw [mapFunctionArgumentsDelta]
      split_ifs <;> rfl
  | functionCallArgumentsDone itemId outputIndex name arguments =>
    rw [mapEvents_of_finalEvents_nil herror fun _ => rfl] at hrun
    obtain ⟨rfl, rfl⟩ := Prod.mk.inj (Except.ok.inj hrun)
    obtain ⟨hopen, toolCall, hcall, hstate⟩ := hdone itemId outputIndex name arguments rfl
    refine ⟨?_, rfl⟩
    have hpieces : callPieces loads response
        (.functionCallArgumentsDone itemId outputIndex name arguments) =
          [.whole itemId [toolCall]] := by
      rw [callPieces, hcall]
      rfl
    rw [hpieces] at hsplits ⊢
    have hwhole := h.whole hsplits
    rw [if_neg hopen] at hwhole
    rw [completedCalls_getD_raw, mapFunctionArgumentsDone]
    simp only [hstate]
    exact hwhole.congr rfl
  | outputItemDone outputIndex item =>
    rw [mapEvents_of_not_isError herror] at hrun
    obtain ⟨⟨texts, n⟩, htexts, hrun⟩ := exists_of_bind_eq_ok hrun
    obtain ⟨rfl, rfl⟩ := Prod.mk.inj (Except.ok.inj hrun)
    have hsame := finalItemText_sameCalls htexts
    have hitem := (h.congr hsame.completedItemIds).mapOutputItemDone "response.output_item.done"
      outputIndex item hsplits
    refine ⟨?_, (mapOutputItemDone_functionCalls _ _ _).trans hsame.functionCalls⟩
    rw [completedCalls_append, hsame.events, List.nil_append, completedCalls_getD_raw]
    exact hitem
  | completed final | incomplete final =>
    rw [mapEvents_of_not_isError herror] at hrun
    obtain ⟨⟨finals, n⟩, hfinals, hrun⟩ := exists_of_bind_eq_ok hrun
    obtain ⟨rfl, rfl⟩ := Prod.mk.inj (Except.ok.inj hrun)
    obtain ⟨hall, htable⟩ := h.finalItems hsplits hfinals
    refine ⟨?_, htable⟩
    have hlast : ∀ type : String, completedCalls [mapResponseCompleted type final] = [] :=
      fun _ => rfl
    rw [completedCalls_append, hlast, List.append_nil]
    exact hall
  | failed final | error code message =>
    exact absurd herror (by simp [ResponseStreamEvent.isError])
  | other type response =>
    rw [mapEvents_of_finalEvents_nil herror fun _ => rfl] at hrun
    obtain ⟨rfl, rfl⟩ := Prod.mk.inj (Except.ok.inj hrun)
    exact hframe rfl rfl ⟨rfl, rfl, rfl⟩

end Frame

end EvernightAI
