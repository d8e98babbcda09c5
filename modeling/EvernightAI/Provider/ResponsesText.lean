import EvernightAI.Lib.Reassembly
import EvernightAI.Provider.ResponsesMapper

/-!
# The text of a Responses stream

The texts of a response are values that arrive in pieces, one for every part, and the normalizer is
the receiver of these pieces.

* `ResponseStreamEvent.textPieces` are the pieces in an event: a delta is more of a text, and the
  events that close a part, an item or the response have texts whole.
* `mapStream_receives`: the normalizer maps a stream when the receiver takes its pieces, and the
  message deltas it emits are what the receiver forwards.
* `Response.textKeys`, `Response.text` are the texts of a response in order.
-/

namespace EvernightAI

open Reassembly

/-- The place of a text in a response: the item, the part, and its kind. -/
abbrev TextKey := Nat × Nat × TextKind

/-! ### The pieces -/

/-- The texts of the parts of a message, whole. -/
def partPieces (outputIndex : Nat) (content : List (ResponseContentPart × Nat)) :
    List (Piece TextKey Char) :=
  content.flatMap fun part =>
    match part.1.text? with
    | none => []
    | some (kind, text) => [.whole (outputIndex, part.2, kind) text.toList]

/-- The texts of an item, whole. -/
def ResponseOutputItem.textPieces (outputIndex : Nat) :
    ResponseOutputItem → List (Piece TextKey Char)
  | .message content => partPieces outputIndex content.zipIdx
  | _ => []

/-- The texts of some items, whole. -/
def itemPieces (output : List (ResponseOutputItem × Nat)) : List (Piece TextKey Char) :=
  output.flatMap fun item => item.1.textPieces item.2

/-- A delta; an empty one is passed over. -/
def deltaPieces (key : TextKey) (delta : String) : List (Piece TextKey Char) :=
  if delta = "" then [] else [.more key delta.toList]

/-- The pieces of texts in an event. -/
def ResponseStreamEvent.textPieces : ResponseStreamEvent → List (Piece TextKey Char)
  | .outputTextDelta _ outputIndex contentIndex delta =>
    deltaPieces (outputIndex, contentIndex, .outputText) delta
  | .refusalDelta _ outputIndex contentIndex delta =>
    deltaPieces (outputIndex, contentIndex, .refusal) delta
  | .outputTextDone _ outputIndex contentIndex text =>
    [.whole (outputIndex, contentIndex, .outputText) text.toList]
  | .refusalDone _ outputIndex contentIndex refusal =>
    [.whole (outputIndex, contentIndex, .refusal) refusal.toList]
  | .contentPartDone _ outputIndex contentIndex part =>
    partPieces outputIndex [(part, contentIndex)]
  | .outputItemDone outputIndex item => item.textPieces outputIndex
  | .completed response | .incomplete response => itemPieces response.output.zipIdx
  | _ => []

/-! ### The text that is emitted -/

/-- The text of an event, under the place its metadata name. -/
def ChatStreamEvent.text? (event : ChatStreamEvent) : Option ((Nat × Nat) × List Char) :=
  match event.eventType, event.textDelta, event.outputIndex, event.contentIndex with
  | .messageDelta, some delta, some outputIndex, some contentIndex =>
    some ((outputIndex, contentIndex), delta.toList)
  | _, _, _, _ => none

/-- The text that some events emit. -/
def emittedText (events : List ChatStreamEvent) : List Char :=
  events.flatMap fun event => (event.text?.map Prod.snd).getD []

/-- The text that some events emit for a part. -/
def emittedPart (events : List ChatStreamEvent) (outputIndex contentIndex : Nat) : List Char :=
  events.flatMap fun event =>
    match event.text? with
    | some (place, delta) => if place = (outputIndex, contentIndex) then delta else []
    | none => []

/-- The events emit what was forwarded, and nothing for a piece that has nothing new. -/
def Emits (events : List ChatStreamEvent) (forwarded : List (TextKey × List Char)) : Prop :=
  events.filterMap ChatStreamEvent.text? = forwarded.filterMap fun kv =>
    if kv.2 = [] then none else some ((kv.1.1, kv.1.2.1), kv.2)

section Emits

variable {events events' : List ChatStreamEvent} {forwarded forwarded' : List (TextKey × List Char)}

theorem Emits.append (h : Emits events forwarded) (h' : Emits events' forwarded') :
    Emits (events ++ events') (forwarded ++ forwarded') := by
  rw [Emits, List.filterMap_append, List.filterMap_append, h, h']

theorem emits_nil : Emits [] [] := rfl

/-- A fold of the emitted events is one of what was forwarded. -/
theorem Emits.flatMap_eq (h : Emits events forwarded) (f : Nat × Nat → List Char → List Char)
    (hf : ∀ place, f place [] = []) :
    (events.flatMap fun event =>
        match event.text? with
        | some (place, delta) => f place delta
        | none => []) =
      forwarded.flatMap fun kv => f (kv.1.1, kv.1.2.1) kv.2 := by
  have hevents : ∀ l : List ChatStreamEvent, (l.flatMap fun event =>
      match event.text? with
      | some (place, delta) => f place delta
      | none => []) = (l.filterMap ChatStreamEvent.text?).flatMap fun t => f t.1 t.2 := by
    intro l
    induction l with
    | nil => rfl
    | cons event l ih =>
      rw [List.flatMap_cons, ih, List.filterMap_cons]
      cases event.text? with
      | none => rfl
      | some t => rw [List.flatMap_cons]
  rw [hevents, h]
  clear h hevents
  induction forwarded with
  | nil => rfl
  | cons kv forwarded ih =>
    rw [List.filterMap_cons, List.flatMap_cons, ← ih]
    by_cases hnil : kv.2 = []
    · rw [if_pos hnil, hnil, hf, List.nil_append]
    · rw [if_neg hnil, List.flatMap_cons]

theorem Emits.emittedText_eq (h : Emits events forwarded) :
    emittedText events = forwarded.flatMap Prod.snd := by
  rw [← h.flatMap_eq (fun _ delta => delta) fun _ => rfl, emittedText]
  refine List.flatMap_congr fun event _ => ?_
  cases event.text? <;> rfl

theorem Emits.emittedPart_eq (h : Emits events forwarded) (outputIndex contentIndex : Nat) :
    emittedPart events outputIndex contentIndex = forwarded.flatMap fun kv =>
      if (kv.1.1, kv.1.2.1) = (outputIndex, contentIndex) then kv.2 else [] :=
  h.flatMap_eq (fun place delta => if place = (outputIndex, contentIndex) then delta else [])
    fun _ => ite_self []

end Emits

/-! ### The normalizer is the receiver -/

namespace OpenAIResponsesStreamNormalizer

variable {normalizer normalizer' : OpenAIResponsesStreamNormalizer}
  {loads : String → Option Value} {seen : TextKey → List Char}
  {forwarded : List (TextKey × List Char)}

/-- The texts the normalizer has seen. -/
def seenTexts (normalizer : OpenAIResponsesStreamNormalizer) (key : TextKey) : List Char :=
  (normalizer.textParts key).toList

/-- The normalizer maps to these events when the receiver takes these pieces, and then the events
are what the receiver forwards. The calls are as they were. -/
def Receives (normalizer : OpenAIResponsesStreamNormalizer) (pieces : List (Piece TextKey Char))
    (result : Except Error (List ChatStreamEvent × OpenAIResponsesStreamNormalizer)) : Prop :=
  ∀ seen forwarded, receiveAll normalizer.seenTexts pieces = some (seen, forwarded) →
    ∃ events normalizer', result = .ok (events, normalizer') ∧ normalizer'.seenTexts = seen ∧
      Emits events forwarded

theorem seenTexts_update (normalizer : OpenAIResponsesStreamNormalizer) (key : TextKey)
    (text : String) :
    seenTexts { normalizer with textParts := Function.update normalizer.textParts key text } =
      Function.update normalizer.seenTexts key text.toList := by
  funext key'
  rw [seenTexts]
  dsimp only
  by_cases h : key' = key
  · subst h
    rw [Function.update_self, Function.update_self]
  · rw [Function.update_of_ne h, Function.update_of_ne h, seenTexts]

/-- The piece that `_map_text` takes. -/
def textPiece (payload : TextPayload) (text : String) (kind : TextKind) (final : Bool) :
    Piece TextKey Char :=
  if final then .whole (payload.outputIndex, payload.contentIndex, kind) text.toList
  else .more (payload.outputIndex, payload.contentIndex, kind) text.toList

theorem emits_textEvent (payload : TextPayload) (kind : TextKind) (delta : String) :
    Emits (textEvent payload delta).toList
      [((payload.outputIndex, payload.contentIndex, kind), delta.toList)] := by
  rw [textEvent]
  split_ifs with h
  · rw [h]
    rfl
  · rw [Emits]
    simp [ChatStreamEvent.text?, h]

/-- `_map_text` takes one piece. -/
theorem mapText_receives (normalizer : OpenAIResponsesStreamNormalizer) (payload : TextPayload)
    (text : String) (kind : TextKind) (final : Bool) {gain : List Char}
    (h : receive normalizer.seenTexts (textPiece payload text kind final) = some (seen, gain)) :
    ∃ mapped normalizer', normalizer.mapText payload text kind final = .ok (mapped, normalizer') ∧
      normalizer'.seenTexts = seen ∧
      Emits mapped.toList [((payload.outputIndex, payload.contentIndex, kind), gain)] := by
  cases final with
  | false =>
    obtain ⟨rfl, rfl⟩ := Prod.mk.inj (Option.some.inj h)
    refine ⟨_, _, rfl, ?_, emits_textEvent payload kind text⟩
    simp only [Bool.false_eq_true, if_false]
    rw [seenTexts_update, String.toList_append]
    rfl
  | true =>
    rw [textPiece, if_pos rfl, receive] at h
    split_ifs at h with hle
    obtain ⟨rfl, rfl⟩ := Prod.mk.inj (Option.some.inj h)
    have hle' : (true && !(normalizer.textParts (payload.outputIndex, payload.contentIndex,
        kind)).toList.isPrefixOf text.toList) = false := by
      rw [Bool.true_and, Bool.not_eq_false']
      exact hle
    have hemits := emits_textEvent payload kind (String.ofList (text.toList.drop
      (normalizer.textParts (payload.outputIndex, payload.contentIndex, kind)).toList.length))
    rw [String.toList_ofList] at hemits
    refine ⟨_, _, ?_, seenTexts_update normalizer _ text, hemits⟩
    rw [mapText]
    simp only [hle', Bool.false_eq_true, if_false, if_true]

theorem finalPartsText_receives (payload : TextPayload) (content : List ResponseContentPart)
    (normalizer : OpenAIResponsesStreamNormalizer) (index : Nat) :
    Receives normalizer (partPieces payload.outputIndex (content.zipIdx index))
      (finalPartsText payload normalizer index content) := by
  induction content generalizing normalizer index with
  | nil =>
    intro seen forwarded h
    obtain ⟨rfl, rfl⟩ := Prod.mk.inj (Option.some.inj h)
    exact ⟨[], normalizer, rfl, rfl, emits_nil⟩
  | cons part content ih =>
    intro seen forwarded h
    rw [List.zipIdx_cons, partPieces, List.flatMap_cons, ← partPieces] at h
    rw [finalPartsText]
    cases htext : part.text? with
    | none =>
      simp only [htext, List.nil_append] at h
      exact ih normalizer (index + 1) seen forwarded h
    | some t =>
      obtain ⟨kind, text⟩ := t
      simp only [htext, List.singleton_append] at h
      obtain ⟨seen₁, gain, later, hfirst, hlater, rfl⟩ := exists_of_receiveAll_cons h
      obtain ⟨mapped, n, hmap, rfl, hemits⟩ := normalizer.mapText_receives
        { payload with contentIndex := index } text kind true hfirst
      obtain ⟨events, n', hrest, hseen, hemits'⟩ := ih n (index + 1) seen later hlater
      refine ⟨mapped.toList ++ events, n', ?_, hseen, hemits.append hemits'⟩
      simp [hmap, hrest, bind, Except.bind]

theorem finalItemText_receives (normalizer : OpenAIResponsesStreamNormalizer)
    (item : ResponseOutputItem) (payload : TextPayload) :
    Receives normalizer (item.textPieces payload.outputIndex)
      (normalizer.finalItemText item payload) := by
  cases item with
  | message content => exact finalPartsText_receives payload content normalizer 0
  | functionCall call | other type =>
    intro seen forwarded h
    obtain ⟨rfl, rfl⟩ := Prod.mk.inj (Option.some.inj h)
    exact ⟨[], normalizer, rfl, rfl, emits_nil⟩

/-- A step that emits no text. -/
theorem receives_nil {events : List ChatStreamEvent} (hseen : normalizer'.seenTexts =
    normalizer.seenTexts) (hevents : ∀ event ∈ events, event.text? = none) :
    Receives normalizer [] (.ok (events, normalizer')) := by
  intro seen forwarded h
  obtain ⟨rfl, rfl⟩ := Prod.mk.inj (Option.some.inj h)
  exact ⟨events, normalizer', rfl, hseen, by
    rw [Emits, List.filterMap_eq_nil_iff.mpr hevents]; rfl⟩

/-- The calls have no texts. -/
theorem mapOutputItemDone_text (loads : String → Option Value)
    (normalizer : OpenAIResponsesStreamNormalizer) (type : String)
    (index : Nat) (item : ResponseOutputItem) :
    (normalizer.mapOutputItemDone loads type index item).2.seenTexts = normalizer.seenTexts ∧
      ∀ event ∈ (normalizer.mapOutputItemDone loads type index item).1, event.text? = none := by
  cases item with
  | functionCall call =>
    rw [mapOutputItemDone]
    split_ifs
    · exact ⟨rfl, by simp⟩
    · cases call.toolCall? loads with
      | none => exact ⟨rfl, by simp⟩
      | some toolCall =>
        refine ⟨rfl, fun event hevent => ?_⟩
        obtain rfl := Option.some.inj hevent
        rfl
  | message content | other type => exact ⟨rfl, by simp [mapOutputItemDone]⟩

theorem finalItems_receives (type : String) (output : List ResponseOutputItem)
    (normalizer : OpenAIResponsesStreamNormalizer) (index : Nat) :
    Receives normalizer (itemPieces (output.zipIdx index))
      (finalItems loads type normalizer index output) := by
  induction output generalizing normalizer index with
  | nil =>
    intro seen forwarded h
    obtain ⟨rfl, rfl⟩ := Prod.mk.inj (Option.some.inj h)
    exact ⟨[], normalizer, rfl, rfl, emits_nil⟩
  | cons item output ih =>
    intro seen forwarded h
    rw [List.zipIdx_cons, itemPieces, List.flatMap_cons, ← itemPieces] at h
    obtain ⟨seen₁, first, later, hfirst, hlater, rfl⟩ := exists_of_receiveAll_append h
    obtain ⟨texts, n, htexts, rfl, hemits⟩ := normalizer.finalItemText_receives item
      { outputIndex := index } seen₁ first hfirst
    obtain ⟨hseen, hnone⟩ := mapOutputItemDone_text loads n type index item
    rw [← hseen] at hlater
    obtain ⟨events, n', hrest, hseen', hemits'⟩ := ih _ (index + 1) seen later hlater
    have hmapped : Emits (n.mapOutputItemDone loads type index item).1.toList [] := by
      rw [Emits]
      exact List.filterMap_eq_nil_iff.mpr fun event hevent =>
        hnone event (Option.mem_toList.mp hevent)
    refine ⟨texts ++ (n.mapOutputItemDone loads type index item).1.toList ++ events, n', ?_, hseen',
      ?_⟩
    · rw [finalItems]
      simp [htexts, hrest, bind, Except.bind]
    · have hall := (hemits.append hmapped).append hemits'
      rwa [List.append_nil] at hall

/-- An event that is mapped, or else passed on raw. -/
theorem emits_getD_raw {mapped : Option ChatStreamEvent} (event : ResponseStreamEvent)
    (h : Emits mapped.toList forwarded) : Emits [mapped.getD (rawEvent event)] forwarded := by
  cases mapped with
  | none => exact h
  | some e => exact h

/-- The text events of `_map_payload`. -/
theorem mapText_orRaw_receives (normalizer : OpenAIResponsesStreamNormalizer)
    (event : ResponseStreamEvent) (payload : TextPayload) (text : String) (kind : TextKind)
    (final : Bool) :
    Receives normalizer [textPiece payload text kind final]
      (((normalizer.mapText payload text kind final).map fun mapped =>
        (mapped.1.getD (rawEvent event), mapped.2)).map fun mapped => ([mapped.1], mapped.2)) := by
  intro seen forwarded h
  obtain ⟨seen₁, gain, later, hfirst, hlater, rfl⟩ := exists_of_receiveAll_cons h
  obtain ⟨rfl, rfl⟩ := Prod.mk.inj (Option.some.inj hlater)
  obtain ⟨mapped, n, hmap, hseen, hemits⟩ := normalizer.mapText_receives payload text kind final
    hfirst
  refine ⟨[mapped.getD (rawEvent event)], n, by rw [hmap]; rfl, hseen, ?_⟩
  have hkey : (textPiece payload text kind final).key =
      (payload.outputIndex, payload.contentIndex, kind) := by cases final <;> rfl
  rw [hkey]
  exact emits_getD_raw event hemits

/-- The mapped event of a call has no text. -/
theorem receives_call (event : ResponseStreamEvent)
    (mapped : Option ChatStreamEvent × OpenAIResponsesStreamNormalizer)
    (hseen : mapped.2.seenTexts = normalizer.seenTexts)
    (htext : ∀ e ∈ mapped.1, e.text? = none) :
    Receives normalizer [] (.ok ([mapped.1.getD (rawEvent event)], mapped.2)) := by
  refine receives_nil hseen fun e he => ?_
  obtain rfl := List.mem_singleton.mp he
  cases hmapped : mapped.1 with
  | none => rfl
  | some e => exact htext e hmapped

/-- After what comes before an event, an event without text. -/
theorem Receives.append_event {pieces : List (Piece TextKey Char)}
    {first : Except Error (List ChatStreamEvent × OpenAIResponsesStreamNormalizer)}
    (h : Receives normalizer pieces first)
    (last : OpenAIResponsesStreamNormalizer →
      Except Error (ChatStreamEvent × OpenAIResponsesStreamNormalizer))
    (hlast : ∀ n, ∃ e n', last n = .ok (e, n') ∧ n'.seenTexts = n.seenTexts ∧ e.text? = none) :
    Receives normalizer pieces (first >>= fun r => last r.2 >>= fun mapped =>
      .ok (r.1 ++ [mapped.1], mapped.2)) := by
  intro seen forwarded hrec
  obtain ⟨events, n, rfl, hseen, hemits⟩ := h seen forwarded hrec
  obtain ⟨e, n', hlast, hseen', htext⟩ := hlast n
  refine ⟨events ++ [e], n', ?_, hseen'.trans hseen, ?_⟩
  · simp only [bind, Except.bind, hlast]
  · have he : Emits [e] [] := by
      rw [Emits, List.filterMap_cons, htext]
      rfl
    have hall := hemits.append he
    rwa [List.append_nil] at hall

/-- **An event is the pieces of text in it.** -/
theorem mapEvents_receives (loads : String → Option Value)
    (normalizer : OpenAIResponsesStreamNormalizer)
    {event : ResponseStreamEvent} (herror : event.isError = false) :
    Receives normalizer event.textPieces (normalizer.mapEvents loads event) := by
  have hdelta : ∀ (payload : TextPayload) (delta : String) (kind : TextKind),
      Receives normalizer (deltaPieces (payload.outputIndex, payload.contentIndex, kind) delta)
        ((if delta = "" then .ok (rawEvent event, normalizer)
          else (normalizer.mapText payload delta kind false).map fun mapped =>
            (mapped.1.getD (rawEvent event), mapped.2)).map fun mapped =>
              ([mapped.1], mapped.2)) := by
    intro payload delta kind
    rw [deltaPieces]
    split_ifs
    · exact receives_call event (none, normalizer) rfl (by simp)
    · exact normalizer.mapText_orRaw_receives event payload delta kind false
  cases event with
  | outputTextDelta itemId outputIndex contentIndex delta =>
    rw [mapEvents_of_finalEvents_nil herror fun _ => rfl]
    exact hdelta { type := some _, itemId := some itemId, outputIndex, contentIndex } delta _
  | refusalDelta itemId outputIndex contentIndex delta =>
    rw [mapEvents_of_finalEvents_nil herror fun _ => rfl]
    exact hdelta { type := some _, itemId := some itemId, outputIndex, contentIndex } delta _
  | outputTextDone itemId outputIndex contentIndex text =>
    rw [mapEvents_of_finalEvents_nil herror fun _ => rfl]
    exact normalizer.mapText_orRaw_receives _
      { type := some _, itemId := some itemId, outputIndex, contentIndex } text .outputText true
  | refusalDone itemId outputIndex contentIndex refusal =>
    rw [mapEvents_of_finalEvents_nil herror fun _ => rfl]
    exact normalizer.mapText_orRaw_receives _
      { type := some _, itemId := some itemId, outputIndex, contentIndex } refusal .refusal true
  | contentPartDone itemId outputIndex contentIndex part =>
    rw [mapEvents_of_finalEvents_nil herror fun _ => rfl, ResponseStreamEvent.textPieces, partPieces,
      List.flatMap_singleton, mapPayload]
    cases htext : part.text? with
    | none => exact receives_call _ (none, normalizer) rfl (by simp)
    | some t =>
      exact normalizer.mapText_orRaw_receives _
        { type := some _, itemId := some itemId, outputIndex, contentIndex } t.2 t.1 true
  | outputItemAdded outputIndex item =>
    rw [mapEvents_of_finalEvents_nil herror fun _ => rfl]
    refine receives_call _ (normalizer.mapOutputItemAdded outputIndex item) ?_ ?_
    · cases item with
      | functionCall call =>
        rw [mapOutputItemAdded]
        cases call.id <;> rfl
      | message content | other type => rfl
    · cases item with
      | functionCall call =>
        intro e he
        obtain rfl := Option.some.inj he
        rfl
      | message content | other type => simp [mapOutputItemAdded]
  | functionCallArgumentsDelta itemId outputIndex delta =>
    rw [mapEvents_of_finalEvents_nil herror fun _ => rfl]
    refine receives_call _ (normalizer.mapFunctionArgumentsDelta itemId outputIndex delta) ?_ ?_
    all_goals
      rw [mapFunctionArgumentsDelta]
      split_ifs
    · rfl
    · rfl
    · simp
    · intro e he
      obtain rfl := Option.some.inj he
      rfl
  | functionCallArgumentsDone itemId outputIndex name arguments =>
    rw [mapEvents_of_finalEvents_nil herror fun _ => rfl]
    refine receives_call _
      (normalizer.mapFunctionArgumentsDone loads itemId outputIndex name arguments) ?_ ?_
    all_goals
      rw [mapFunctionArgumentsDone]
      dsimp only
      split
    · rfl
    · rfl
    · simp
    · intro e he
      obtain rfl := Option.some.inj he
      rfl
  | outputItemDone outputIndex item =>
    rw [mapEvents_of_not_isError herror]
    refine (normalizer.finalItemText_receives item
      { type := some "response.output_item.done", outputIndex }).append_event
        (·.mapPayload loads (.outputItemDone outputIndex item)) fun n => ?_
    obtain ⟨hseen, htext⟩ := mapOutputItemDone_text loads n "response.output_item.done" outputIndex
      item
    refine ⟨_, _, rfl, hseen, ?_⟩
    cases hmapped : (n.mapOutputItemDone loads "response.output_item.done" outputIndex item).1 with
    | none => simp [ResponseStreamEvent.type, hmapped, rawEvent, ChatStreamEvent.text?]
    | some e => simpa [ResponseStreamEvent.type, hmapped] using htext e hmapped
  | completed response | incomplete response =>
    rw [mapEvents_of_not_isError herror]
    exact (finalItems_receives _ response.output normalizer 0).append_event
      (·.mapPayload loads _) fun n => ⟨_, n, rfl, rfl, rfl⟩
  | failed response | error code message => exact absurd herror (by simp [ResponseStreamEvent.isError])
  | other type response =>
    rw [mapEvents_of_finalEvents_nil herror fun _ => rfl]
    exact receives_call _ (none, normalizer) rfl (by simp)

/-- **A stream is the pieces of text in it.** -/
theorem mapStream_receives (loads : String → Option Value) (events : List ResponseStreamEvent)
    (normalizer : OpenAIResponsesStreamNormalizer)
    (herror : ∀ event ∈ events, event.isError = false) :
    Receives normalizer (events.flatMap ResponseStreamEvent.textPieces)
      (mapStream loads normalizer events) := by
  induction events generalizing normalizer with
  | nil => exact receives_nil rfl (by simp)
  | cons event events ih =>
    intro seen forwarded h
    rw [List.flatMap_cons] at h
    obtain ⟨seen₁, first, later, hfirst, hlater, rfl⟩ := exists_of_receiveAll_append h
    obtain ⟨mapped, n, hmap, rfl, hemits⟩ := mapEvents_receives loads normalizer
      (herror event List.mem_cons_self) seen₁ first hfirst
    obtain ⟨rest, n', hrest, hseen, hemits'⟩ := ih n
      (fun e he => herror e (List.mem_cons_of_mem _ he)) seen later hlater
    refine ⟨mapped ++ rest, n', ?_, hseen, hemits.append hemits'⟩
    rw [mapStream]
    simp [hmap, hrest, bind, Except.bind]

end OpenAIResponsesStreamNormalizer

/-! ### The texts of a response -/

namespace Response

variable (response : Response)

/-- The part at a place. -/
def part? (outputIndex contentIndex : Nat) : Option ResponseContentPart :=
  match response.output[outputIndex]? with
  | some (.message content) => content[contentIndex]?
  | _ => none

/-- The text at a place, of either kind. -/
def partText (outputIndex contentIndex : Nat) : List Char :=
  (((response.part? outputIndex contentIndex).bind (·.text?)).map (·.2.toList)).getD []

/-- The text under a key: nothing when the part is of the other kind. -/
def text (key : TextKey) : List Char :=
  match (response.part? key.1 key.2.1).bind (·.text?) with
  | some (kind, text) => if kind = key.2.2 then text.toList else []
  | none => []

/-- The keys of the texts, in order. -/
def textKeys : List TextKey := (itemPieces response.output.zipIdx).map Piece.key

variable {response} {piece : Piece TextKey Char} {key : TextKey}

theorem mem_itemPieces : piece ∈ itemPieces response.output.zipIdx ↔
    ∃ outputIndex contentIndex part kind text,
      response.part? outputIndex contentIndex = some part ∧ part.text? = some (kind, text) ∧
        piece = .whole (outputIndex, contentIndex, kind) text.toList := by
  rw [itemPieces, List.mem_flatMap]
  constructor
  · rintro ⟨⟨item, outputIndex⟩, hitem, hpiece⟩
    have hitem' : response.output[outputIndex]? = some item := List.mem_zipIdx_iff_getElem?.mp hitem
    cases item with
    | message content =>
      obtain ⟨⟨part, contentIndex⟩, hpart, hpiece⟩ := List.mem_flatMap.mp hpiece
      have hpart' : content[contentIndex]? = some part := List.mem_zipIdx_iff_getElem?.mp hpart
      dsimp only at hpiece
      cases htext : part.text? with
      | none => simp [htext] at hpiece
      | some t =>
        obtain ⟨kind, text⟩ := t
        rw [htext] at hpiece
        refine ⟨outputIndex, contentIndex, part, kind, text, ?_, htext, List.mem_singleton.mp hpiece⟩
        rw [part?, hitem']
        exact hpart'
    | functionCall call | other type => exact absurd hpiece (by simp [ResponseOutputItem.textPieces])
  · rintro ⟨outputIndex, contentIndex, part, kind, text, hpart, htext, rfl⟩
    rw [part?] at hpart
    split at hpart
    · next content hitem =>
      refine ⟨(.message content, outputIndex), List.mem_zipIdx_iff_getElem?.mpr hitem, ?_⟩
      refine List.mem_flatMap.mpr
        ⟨(part, contentIndex), List.mem_zipIdx_iff_getElem?.mpr hpart, ?_⟩
      simp [htext]
    · exact absurd hpart (by simp)

theorem eq_whole_of_mem_itemPieces (h : piece ∈ itemPieces response.output.zipIdx) :
    piece = .whole piece.key (response.text piece.key) := by
  obtain ⟨outputIndex, contentIndex, part, kind, text, hpart, htext, rfl⟩ := mem_itemPieces.mp h
  simp [Piece.key, Response.text, hpart, htext]

/-- The final response has the texts whole and in order. -/
theorem itemPieces_eq_wholes :
    itemPieces response.output.zipIdx = wholes response.text response.textKeys := by
  rw [wholes, textKeys, List.map_map]
  exact (List.map_id _).symm.trans
    (List.map_congr_left fun piece hpiece => eq_whole_of_mem_itemPieces hpiece)

theorem mem_textKeys_of_text_ne_nil (h : response.text key ≠ []) : key ∈ response.textKeys := by
  rw [Response.text] at h
  split at h
  · next kind text htext =>
    obtain ⟨part, hpart, htext⟩ := Option.bind_eq_some_iff.mp htext
    split_ifs at h with hkind
    · refine List.mem_map.mpr ⟨.whole (key.1, key.2.1, kind) text.toList, mem_itemPieces.mpr
        ⟨key.1, key.2.1, part, kind, text, hpart, htext, rfl⟩, ?_⟩
      rw [Piece.key, hkind]
    · exact absurd rfl h
  · exact absurd rfl h

theorem zipIdx_pairwise {α : Type} (l : List α) : l.zipIdx.Pairwise fun a b => a.2 ≠ b.2 := by
  have h : ((l.zipIdx).map Prod.snd).Nodup := by
    rw [List.zipIdx_map_snd]
    exact List.nodup_range'
  exact List.pairwise_map.mp h

theorem fst_of_mem_textPieces {item : ResponseOutputItem} {outputIndex : Nat}
    (h : piece ∈ item.textPieces outputIndex) : piece.key.1 = outputIndex := by
  cases item with
  | message content =>
    obtain ⟨part, -, hpiece⟩ := List.mem_flatMap.mp h
    split at hpiece
    · exact absurd hpiece (by simp)
    · rw [List.mem_singleton.mp hpiece]
      rfl
  | functionCall call | other type => exact absurd h (by simp [ResponseOutputItem.textPieces])

/-- A key is the key of one text. -/
theorem nodup_textKeys : response.textKeys.Nodup := by
  rw [textKeys, List.Nodup, List.pairwise_map, itemPieces, List.pairwise_flatMap]
  constructor
  · rintro ⟨item, outputIndex⟩ -
    cases item with
    | message content =>
      rw [ResponseOutputItem.textPieces, partPieces, List.pairwise_flatMap]
      constructor
      · rintro ⟨part, contentIndex⟩ -
        dsimp only
        cases part.text? <;> simp
      · refine (zipIdx_pairwise content).imp fun {a b} hne p hp q hq heq => hne ?_
        dsimp only at hp hq
        split at hp
        · exact absurd hp (by simp)
        · split at hq
          · exact absurd hq (by simp)
          · rw [List.mem_singleton.mp hp, List.mem_singleton.mp hq] at heq
            exact congrArg (·.2.1) heq
    | functionCall call | other type => simp [ResponseOutputItem.textPieces]
  · refine (zipIdx_pairwise response.output).imp fun {a b} hne p hp q hq heq => hne ?_
    rw [← fst_of_mem_textPieces hp, ← fst_of_mem_textPieces hq, heq]

/-- All texts of an item, in order. -/
def itemText : ResponseOutputItem → List Char
  | .message content => content.flatMap fun part => ((part.text?).map (·.2.toList)).getD []
  | _ => []

theorem flatMap_zipIdx_fst {α β : Type} (l : List α) (f : α → List β) :
    (l.zipIdx.flatMap fun a => f a.1) = l.flatMap f := by
  have h : (l.zipIdx.map Prod.fst).flatMap f = l.zipIdx.flatMap fun a => f a.1 :=
    List.flatMap_map Prod.fst f _
  rw [← h, List.zipIdx_map_fst]

theorem content_textPieces (item : ResponseOutputItem) (outputIndex : Nat) :
    (item.textPieces outputIndex).flatMap Piece.content = itemText item := by
  cases item with
  | message content =>
    rw [ResponseOutputItem.textPieces, partPieces, List.flatMap_assoc, itemText]
    have hpart : ∀ part : ResponseContentPart × Nat,
        (match part.1.text? with
          | none => ([] : List (Piece TextKey Char))
          | some (kind, text) => [.whole (outputIndex, part.2, kind) text.toList]).flatMap
          Piece.content = ((part.1.text?).map (·.2.toList)).getD [] := by
      intro part
      cases part.1.text? with
      | none => rfl
      | some t => simp [Piece.content]
    exact (List.flatMap_congr fun part _ => hpart part).trans (flatMap_zipIdx_fst content
      fun part : ResponseContentPart => ((part.text?).map (·.2.toList)).getD [])
  | functionCall call | other type => rfl

/-- The texts under the keys are the texts of the items. -/
theorem flatMap_text : response.textKeys.flatMap response.text = response.output.flatMap itemText := by
  rw [textKeys, List.flatMap_map]
  calc (itemPieces response.output.zipIdx).flatMap (fun piece => response.text piece.key)
      = (itemPieces response.output.zipIdx).flatMap Piece.content :=
        List.flatMap_congr fun piece hpiece => by
          rw [congrArg Piece.content (eq_whole_of_mem_itemPieces hpiece)]
          rfl
    _ = response.output.zipIdx.flatMap fun item => itemText item.1 := by
        rw [itemPieces, List.flatMap_assoc]
        exact List.flatMap_congr fun item _ => content_textPieces item.1 item.2
    _ = response.output.flatMap itemText :=
        flatMap_zipIdx_fst response.output itemText

/-- An item that has texts of one kind only. -/
theorem flatMap_texts (kind : TextKind) (item : ResponseOutputItem)
    (hother : ∀ kind', kind' ≠ kind → ∀ s ∈ item.texts kind', s = "") :
    (item.texts kind).flatMap String.toList = itemText item := by
  cases item with
  | message content =>
    rw [itemText, ResponseOutputItem.texts]
    simp only [ResponseOutputItem.texts] at hother
    induction content with
    | nil => rfl
    | cons part content ih =>
      rw [List.filterMap_cons, List.flatMap_cons]
      have hrest := ih fun kind' hne s hs => hother kind' hne s (by
        rw [List.filterMap_cons]
        split
        · exact hs
        · exact List.mem_cons_of_mem _ hs)
      cases htext : part.text? with
      | none => simpa using hrest
      | some t =>
        obtain ⟨kind', text⟩ := t
        by_cases hkind : kind' = kind
        · simpa [hkind] using hrest
        · have hnil : text = "" := hother kind' hkind text (by simp [htext])
          simpa [hkind, hnil] using hrest
  | functionCall call | other type => rfl

theorem eq_empty_of_join {output : List ResponseOutputItem} {kind : TextKind}
    (h : String.join (output.flatMap (·.texts kind)) = "") :
    ∀ item ∈ output, ∀ s ∈ item.texts kind, s = "" := by
  intro item hitem s hs
  have hnil := congrArg String.toList h
  rw [String.toList_join, String.toList_empty, List.flatMap_eq_nil_iff] at hnil
  exact String.toList_eq_nil_iff.mp (hnil s (List.mem_flatMap.mpr ⟨item, hitem, hs⟩))

/-- A response that has texts of one kind only. -/
theorem flatMap_text_eq (h : outputText response.output = "" ∨ outputRefusal response.output = "") :
    response.textKeys.flatMap response.text =
      (if outputText response.output ≠ "" then outputText response.output
        else outputRefusal response.output).toList := by
  have hjoin : ∀ kind : TextKind,
      (∀ kind', kind' ≠ kind → String.join (response.output.flatMap (·.texts kind')) = "") →
      (String.join (response.output.flatMap (·.texts kind))).toList =
        response.output.flatMap itemText := by
    intro kind hother
    rw [String.toList_join, List.flatMap_assoc]
    exact List.flatMap_congr fun item hitem => flatMap_texts kind item fun kind' hne =>
      eq_empty_of_join (hother kind' hne) item hitem
  rw [flatMap_text]
  by_cases htext : outputText response.output = ""
  · rw [if_neg (not_not.mpr htext)]
    refine (hjoin .refusal fun kind' hne => ?_).symm
    cases kind' with
    | outputText => exact htext
    | refusal => exact absurd rfl hne
  · rw [if_pos htext]
    refine (hjoin .outputText fun kind' hne => ?_).symm
    cases kind' with
    | outputText => exact absurd rfl hne
    | refusal => exact h.resolve_left htext

end Response

end EvernightAI
