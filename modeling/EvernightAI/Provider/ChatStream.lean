import EvernightAI.Provider.ChatMapper
import EvernightAI.Provider.ResponsesStream

/-!
# Streaming a chat completion

A provider may cut a completion into chunks anywhere: the text and the arguments of the calls in any
places, the fragments of different calls in any order, the usage in any chunk. `CutOf` says what the
chunks have to do with the completion.

* `mapDeltas_unfinished` : until the choice finishes, the normalizer collects the fragments of every
  call under its index.
* `chatStream_eq` : it emits the text and the calls of the completion in one piece.
-/

namespace EvernightAI

open OpenAIChatStreamNormalizer KeyedFold

/-- The text that some events emit. -/
def streamedText (events : List ChatStreamEvent) : List Char :=
  events.flatMap fun event => (event.textDelta.getD "").toList

/-- What the chunks have of the choice, in order. -/
def choiceDeltas (chunks : List ChatCompletionChunk) : List ChoiceDelta := chunks.flatMap (·.choices)

/-- The fragments of the tool calls, in order. -/
def callFragments (chunks : List ChatCompletionChunk) : List ToolCallDelta :=
  (choiceDeltas chunks).flatMap (·.toolCalls)

/-- The tool calls of a choice. -/
def ChatCompletionChoice.calls (choice : ChatCompletionChoice) : List OpenAIToolCall :=
  choice.message.toolCalls.getD []

/-- A fragment belongs to the call under its index, and names no other. -/
def ToolCallDelta.Of (calls : List OpenAIToolCall) (delta : ToolCallDelta) : Prop :=
  ∃ i call, delta.index = some i ∧ calls[i]? = some call ∧
    (delta.id.getD "" = "" ∨ delta.id = some call.id) ∧
    (delta.name.getD "" = "" ∨ delta.name = some call.name)

/-- **The chunks of a choice.** -/
structure CutOf (choice : ChatCompletionChoice) (chunks : List ChatCompletionChunk) : Prop where
  text : (choiceDeltas chunks).flatMap (fun delta => (delta.content.getD "").toList) =
    (choice.message.content.getD "").toList
  belongs : ∀ delta ∈ callFragments chunks, delta.Of choice.calls
  identified : ∀ i call, choice.calls[i]? = some call →
    ∃ delta ∈ callFragments chunks, delta.index = some i ∧ delta.id = some call.id
  named : ∀ i call, choice.calls[i]? = some call →
    ∃ delta ∈ callFragments chunks, delta.index = some i ∧ delta.name = some call.name
  arguments : ∀ i call, choice.calls[i]? = some call →
    ((callFragments chunks).filter (·.index = some i)).flatMap
      (fun delta => (delta.arguments.getD "").toList) = call.arguments.toList
  finishes : ∃ before last, choiceDeltas chunks = before ++ [last] ∧
    (∀ delta ∈ before, delta.finishReason = none) ∧ last.finishReason = some choice.finishReason

/-- The choice finishes, and not because it was truncated. -/
def ChatCompletionChoice.Completes (choice : ChatCompletionChoice) : Prop :=
  choice.finishReason ≠ "" ∧ choice.finishReason ∉ truncatingFinishReasons

instance (choice : ChatCompletionChoice) : Decidable choice.Completes :=
  inferInstanceAs (Decidable (_ ∧ _))

/-! ### Chunk by chunk is choice by choice -/

section Chunks

variable (loads : String → Option Value)

/-- The normalizer on what the chunks have of the choice. -/
def mapDeltas : OpenAIChatStreamNormalizer → List (ChatCompletionChunk × ChoiceDelta) →
    List ChatStreamEvent × OpenAIChatStreamNormalizer
  | normalizer, [] => ([], normalizer)
  | normalizer, (chunk, delta) :: deltas =>
    let mapped := normalizer.mapChoice loads chunk delta
    let rest := mapDeltas mapped.2 deltas
    (mapped.1 ++ rest.1, rest.2)

variable {loads} {normalizer : OpenAIChatStreamNormalizer}

theorem mapChoices_eq (chunk : ChatCompletionChunk) (choices : List ChoiceDelta) :
    mapChoices loads chunk normalizer choices = mapDeltas loads normalizer (choices.map (chunk, ·)) := by
  induction choices generalizing normalizer with
  | nil => rfl
  | cons choice choices ih =>
    rw [mapChoices, List.map_cons, mapDeltas, ih]

theorem mapDeltas_append (deltas more : List (ChatCompletionChunk × ChoiceDelta)) :
    mapDeltas loads normalizer (deltas ++ more) =
      ((mapDeltas loads normalizer deltas).1 ++
        (mapDeltas loads (mapDeltas loads normalizer deltas).2 more).1,
        (mapDeltas loads (mapDeltas loads normalizer deltas).2 more).2) := by
  induction deltas generalizing normalizer with
  | nil => rfl
  | cons delta deltas ih =>
    obtain ⟨chunk, delta⟩ := delta
    simp only [List.cons_append, mapDeltas, ih, List.append_assoc]

/-- What a reader of text and calls takes from some events. -/
def observed (events : List ChatStreamEvent) : List Char × List ToolCall :=
  (streamedText events, completedCalls events)

theorem streamedText_append (events more : List ChatStreamEvent) :
    streamedText (events ++ more) = streamedText events ++ streamedText more :=
  List.flatMap_append

theorem observed_append (events more : List ChatStreamEvent) :
    observed (events ++ more) =
      ((observed events).1 ++ (observed more).1, (observed events).2 ++ (observed more).2) := by
  simp only [observed, streamedText_append, completedCalls_append]

/-- Usage and raw events carry neither. -/
theorem observed_mapChunk (chunk : ChatCompletionChunk) :
    observed (normalizer.mapChunk loads chunk).1 =
      observed (mapChoices loads chunk normalizer chunk.choices).1 := by
  have husage : observed (if chunk.usage then [event chunk .usage] else []) = ([], []) := by
    split_ifs <;> rfl
  simp only [mapChunk]
  generalize (if chunk.usage then [event chunk .usage] else []) = usage at husage ⊢
  split_ifs with hempty
  · have hnone := (List.append_eq_nil_iff.mp hempty).2
    rw [hnone]
    rfl
  · rw [observed_append, husage]
    rfl

/-- **Chunk by chunk is choice by choice.** -/
theorem mapChunks_eq (chunks : List ChatCompletionChunk) :
    observed (normalizer.mapChunks loads chunks).1 =
        observed (mapDeltas loads normalizer (chunks.flatMap fun c => c.choices.map (c, ·))).1 ∧
      (normalizer.mapChunks loads chunks).2 =
        (mapDeltas loads normalizer (chunks.flatMap fun c => c.choices.map (c, ·))).2 := by
  induction chunks generalizing normalizer with
  | nil => exact ⟨rfl, rfl⟩
  | cons chunk chunks ih =>
    have hstate : (normalizer.mapChunk loads chunk).2 =
        (mapDeltas loads normalizer (chunk.choices.map (chunk, ·))).2 := by
      rw [mapChunk, mapChoices_eq]
    rw [List.flatMap_cons, mapDeltas_append, mapChunks, observed_append, observed_append,
      observed_mapChunk, mapChoices_eq, hstate]
    rw [ih.1, ih.2]
    exact ⟨rfl, rfl⟩

end Chunks

/-! ### Collecting -/

section Collecting

variable {loads : String → Option Value} {normalizer : OpenAIChatStreamNormalizer}
  {chunk : ChatCompletionChunk}

/-- A fragment under its index. -/
def ToolCallDelta.keyed (delta : ToolCallDelta) : ℕ × ToolCallDelta := (delta.index.getD 0, delta)

/-- The calls after some fragments. -/
def collected (normalizer : OpenAIChatStreamNormalizer) (deltas : List ToolCallDelta) :
    OpenAIChatStreamNormalizer :=
  { normalizer with
    toolCalls := collect ChatCallState.merge {} normalizer.toolCalls (deltas.map ToolCallDelta.keyed) }

theorem observed_mapToolCallDelta (delta : ToolCallDelta) :
    observed (normalizer.mapToolCallDelta chunk delta).1 = ([], []) := by
  simp only [mapToolCallDelta]
  split_ifs <;> rfl

theorem mapToolCallDeltas_eq (normalizer : OpenAIChatStreamNormalizer) (chunk : ChatCompletionChunk)
    {deltas : List ToolCallDelta}
    (hindex : ∀ delta ∈ deltas, delta.index.isSome) :
    observed (normalizer.mapToolCallDeltas chunk deltas).1 = ([], []) ∧
      (normalizer.mapToolCallDeltas chunk deltas).2 = collected normalizer deltas := by
  induction deltas generalizing normalizer with
  | nil => exact ⟨rfl, rfl⟩
  | cons delta deltas ih =>
    obtain ⟨hdelta, hdeltas⟩ := List.forall_mem_cons.mp hindex
    obtain ⟨i, hi⟩ := Option.isSome_iff_exists.mp hdelta
    have hstate : (normalizer.mapToolCallDelta chunk delta).2 = collected normalizer [delta] := by
      simp only [mapToolCallDelta, collected, collect, indexOf, ToolCallDelta.keyed, hi,
        Option.getD_some, List.map_cons, List.map_nil, List.foldl_cons, List.foldl_nil]
    rw [mapToolCallDeltas, observed_append, observed_mapToolCallDelta, hstate,
      (ih _ hdeltas).1, (ih _ hdeltas).2]
    exact ⟨rfl, rfl⟩

/-- What a choice says before its fragments. -/
theorem observed_started (choice : ChoiceDelta) :
    observed ((if choice.role = some "assistant" then [event chunk .messageStart] else []) ++
      (if choice.content.getD "" ≠ "" then
        [{ event chunk .messageDelta with textDelta := choice.content }] else [])) =
      ((choice.content.getD "").toList, []) := by
  by_cases hcontent : choice.content.getD "" = ""
  · rw [if_neg (not_not.mpr hcontent), List.append_nil, hcontent]
    split_ifs <;> rfl
  · rw [if_pos hcontent]
    split_ifs <;> simp [observed, streamedText, completedCalls, event]

/-- **A choice that goes on.** -/
theorem mapChoice_unfinished (loads : String → Option Value) (normalizer : OpenAIChatStreamNormalizer)
    (chunk : ChatCompletionChunk) {choice : ChoiceDelta}
    (hindex : ∀ delta ∈ choice.toolCalls, delta.index.isSome)
    (hfinish : choice.finishReason = none) :
    observed (normalizer.mapChoice loads chunk choice).1 = ((choice.content.getD "").toList, []) ∧
      (normalizer.mapChoice loads chunk choice).2 = collected normalizer choice.toolCalls := by
  have hmapped := mapToolCallDeltas_eq normalizer chunk hindex
  rw [mapChoice, hfinish, if_pos (Option.getD_none)]
  refine ⟨?_, hmapped.2⟩
  rw [observed_append, observed_started, hmapped.1]
  simp

theorem collected_append (deltas more : List ToolCallDelta) :
    collected normalizer (deltas ++ more) = collected (collected normalizer deltas) more := by
  simp only [collected, collect, List.map_append, List.foldl_append]

/-- **Until the choice finishes.** -/
theorem mapDeltas_unfinished (loads : String → Option Value) (normalizer : OpenAIChatStreamNormalizer)
    {deltas : List (ChatCompletionChunk × ChoiceDelta)}
    (hindex : ∀ delta ∈ deltas.flatMap (·.2.toolCalls), delta.index.isSome)
    (hfinish : ∀ delta ∈ deltas, delta.2.finishReason = none) :
    observed (mapDeltas loads normalizer deltas).1 =
        (deltas.flatMap fun delta => (delta.2.content.getD "").toList, []) ∧
      (mapDeltas loads normalizer deltas).2 = collected normalizer (deltas.flatMap (·.2.toolCalls)) := by
  induction deltas generalizing normalizer with
  | nil => exact ⟨rfl, rfl⟩
  | cons delta deltas ih =>
    obtain ⟨chunk, delta⟩ := delta
    obtain ⟨hdelta, hdeltas⟩ := List.forall_mem_cons.mp hfinish
    rw [List.flatMap_cons] at hindex
    have hfirst := mapChoice_unfinished loads normalizer chunk
      (fun d hd => hindex d (List.mem_append_left _ hd)) hdelta
    have hrest := ih (collected normalizer delta.toolCalls)
      (fun d hd => hindex d (List.mem_append_right _ hd)) hdeltas
    rw [mapDeltas, observed_append, hfirst.1, hfirst.2, hrest.1, hrest.2, List.flatMap_cons,
      List.flatMap_cons, collected_append]
    exact ⟨rfl, rfl⟩

/-! ### The entry of a call -/

/-- The fragments of a call. -/
theorem ofKey_keyed (i : ℕ) {deltas : List ToolCallDelta} (hindex : ∀ delta ∈ deltas, delta.index.isSome) :
    ofKey i (deltas.map ToolCallDelta.keyed) = deltas.filter (·.index = some i) := by
  induction deltas with
  | nil => rfl
  | cons delta deltas ih =>
    obtain ⟨hdelta, hdeltas⟩ := List.forall_mem_cons.mp hindex
    obtain ⟨j, hj⟩ := Option.isSome_iff_exists.mp hdelta
    rw [List.map_cons, ofKey_cons, ih hdeltas, List.filter_cons]
    simp only [ToolCallDelta.keyed, hj, Option.getD_some, Option.some.injEq, decide_eq_true_eq]

/-- The arguments are put together in order. -/
theorem arguments_foldl_merge (call : ChatCallState) (deltas : List ToolCallDelta) :
    (deltas.foldl ChatCallState.merge call).arguments.toList =
      call.arguments.toList ++ deltas.flatMap fun delta => (delta.arguments.getD "").toList := by
  induction deltas generalizing call with
  | nil => simp
  | cons delta deltas ih =>
    rw [List.foldl_cons, ih, List.flatMap_cons]
    simp only [ChatCallState.merge, String.toList_append, List.append_assoc]

/-- A text that any of the fragments gives, and no other. -/
theorem field_foldl_merge (field : ChatCallState → Option String) (given : ToolCallDelta → Option String)
    (hmerge : ∀ call delta, field (call.merge delta) =
      if (given delta).getD "" ≠ "" then given delta else field call)
    {text : String} (htext : text ≠ "") {deltas : List ToolCallDelta}
    (hgiven : ∀ delta ∈ deltas, (given delta).getD "" = "" ∨ given delta = some text)
    (call : ChatCallState) (hsome : field call = some text ∨ ∃ delta ∈ deltas, given delta = some text) :
    field (deltas.foldl ChatCallState.merge call) = some text := by
  induction deltas generalizing call with
  | nil =>
    rcases hsome with hcall | ⟨delta, hmem, -⟩
    · exact hcall
    · exact absurd hmem List.not_mem_nil
  | cons delta deltas ih =>
    obtain ⟨hdelta, hdeltas⟩ := List.forall_mem_cons.mp hgiven
    refine ih hdeltas _ ?_
    rw [hmerge]
    rcases hdelta with hnone | hdelta
    · rw [if_neg (not_not.mpr hnone)]
      rcases hsome with hcall | ⟨other, hmem, hother⟩
      · exact Or.inl hcall
      · rcases List.mem_cons.mp hmem with rfl | hmem
        · rw [hother, Option.getD_some] at hnone
          exact absurd hnone htext
        · exact Or.inr ⟨other, hmem, hother⟩
    · rw [hdelta, Option.getD_some, if_pos htext]
      exact Or.inl rfl

/-- What the normalizer knows of a call when the choice finishes. -/
def OpenAIToolCall.state (call : OpenAIToolCall) : ChatCallState where
  id := some call.id
  name := some call.name
  arguments := call.arguments

theorem CutOf.index_isSome {choice : ChatCompletionChoice} {chunks : List ChatCompletionChunk}
    (h : CutOf choice chunks) : ∀ delta ∈ callFragments chunks, delta.index.isSome := by
  intro delta hdelta
  obtain ⟨i, call, hi, -⟩ := h.belongs delta hdelta
  exact Option.isSome_iff_exists.mpr ⟨i, hi⟩

/-- **The entry of a call** is the call. -/
theorem CutOf.lookup_collected {choice : ChatCompletionChoice} {chunks : List ChatCompletionChunk}
    (h : CutOf choice chunks) (hcalls : ∀ call ∈ choice.calls, call.id ≠ "" ∧ call.name ≠ "") (i : ℕ) :
    (collected {} (callFragments chunks)).toolCalls.lookup i = (choice.calls[i]?).map OpenAIToolCall.state := by
  have hlookup : (collected {} (callFragments chunks)).toolCalls.lookup i =
      if (callFragments chunks).filter (·.index = some i) = [] then none
      else some (((callFragments chunks).filter (·.index = some i)).foldl ChatCallState.merge {}) := by
    rw [collected, lookup_collect, ofKey_keyed i h.index_isSome]
    rfl
  rw [hlookup]
  have hown : ∀ delta ∈ (callFragments chunks).filter (·.index = some i),
      delta ∈ callFragments chunks ∧ delta.index = some i := by
    intro delta hdelta
    simpa using List.mem_filter.mp hdelta
  cases hcall : choice.calls[i]? with
  | none =>
    rw [if_pos]
    · rfl
    · refine List.eq_nil_iff_forall_not_mem.mpr fun delta hdelta => ?_
      obtain ⟨hmem, hi⟩ := hown delta hdelta
      obtain ⟨j, call, hj, hsome, -⟩ := h.belongs delta hmem
      obtain rfl : i = j := Option.some.inj (hi.symm.trans hj)
      exact absurd (hcall.symm.trans hsome) (by simp)
  | some call =>
    obtain ⟨hid, hname⟩ := hcalls call (List.mem_of_getElem? hcall)
    have hfragment : ∀ delta ∈ (callFragments chunks).filter (·.index = some i),
        (delta.id.getD "" = "" ∨ delta.id = some call.id) ∧
          (delta.name.getD "" = "" ∨ delta.name = some call.name) := by
      intro delta hdelta
      obtain ⟨hmem, hi⟩ := hown delta hdelta
      obtain ⟨j, call', hj, hsome, hfields⟩ := h.belongs delta hmem
      obtain rfl : i = j := Option.some.inj (hi.symm.trans hj)
      obtain rfl : call = call' := Option.some.inj (hcall.symm.trans hsome)
      exact hfields
    obtain ⟨identified, hidentified, hindex, hidentifies⟩ := h.identified i call hcall
    obtain ⟨named, hnamed, hindex', hnames⟩ := h.named i call hcall
    have hidentified : identified ∈ (callFragments chunks).filter (·.index = some i) :=
      List.mem_filter.mpr ⟨hidentified, by simpa using hindex⟩
    have hnamed : named ∈ (callFragments chunks).filter (·.index = some i) :=
      List.mem_filter.mpr ⟨hnamed, by simpa using hindex'⟩
    rw [if_neg (List.ne_nil_of_mem hidentified), Option.map_some, Option.some.injEq]
    have hidField := field_foldl_merge ChatCallState.id ToolCallDelta.id
      (fun _ _ => rfl) hid (fun delta hdelta => (hfragment delta hdelta).1) {}
      (Or.inr ⟨identified, hidentified, hidentifies⟩)
    have hnameField := field_foldl_merge ChatCallState.name ToolCallDelta.name
      (fun _ _ => rfl) hname (fun delta hdelta => (hfragment delta hdelta).2) {}
      (Or.inr ⟨named, hnamed, hnames⟩)
    have harguments := arguments_foldl_merge {} ((callFragments chunks).filter (·.index = some i))
    rw [h.arguments i call hcall] at harguments
    have harguments := String.toList_inj.mp harguments
    generalize ((callFragments chunks).filter (·.index = some i)).foldl ChatCallState.merge {} = state at *
    obtain ⟨id, name, arguments⟩ := state
    simp only at hidField hnameField harguments
    rw [hidField, hnameField, harguments]
    rfl

/-! ### The end of the choice -/

theorem observed_completedToolCallEvents (chunk : ChatCompletionChunk) (finishReason : String) :
    observed (normalizer.completedToolCallEvents loads chunk finishReason) =
      ([], (sortedItems normalizer.toolCalls).filterMap fun item => toolCallFromStreamState loads item.2) := by
  rw [completedToolCallEvents]
  induction sortedItems normalizer.toolCalls with
  | nil => rfl
  | cons item items ih =>
    rw [List.filterMap_cons, List.filterMap_cons]
    cases hcall : toolCallFromStreamState loads item.2 with
    | none => exact ih
    | some call =>
      simp only [Option.map_some]
      rw [← List.singleton_append, observed_append, ih]
      rfl

/-- A choice that finishes completes the calls. -/
theorem observed_finish (loads : String → Option Value) (normalizer : OpenAIChatStreamNormalizer)
    (chunk : ChatCompletionChunk) {finishReason : String} (hfinish : finishReason ∉ truncatingFinishReasons) :
    observed (normalizer.finish loads chunk finishReason).1 =
      ([], (sortedItems normalizer.toolCalls).filterMap fun item => toolCallFromStreamState loads item.2) := by
  rw [← observed_completedToolCallEvents chunk finishReason]
  simp only [finish, if_neg hfinish]
  split_ifs with hevents
  · rfl
  · rw [not_or, not_not] at hevents
    rw [hevents.1]
    rfl

/-- A call of the completion, mapped. -/
def mappedCall (loads : String → Option Value) (call : OpenAIToolCall) : ToolCall where
  toolCallId := call.id
  toolCall := [("name", .str call.name), ("arguments", parseJsonArguments loads call.arguments)]

/-- The calls in the order of their indices. -/
theorem CutOf.sortedItems_collected {choice : ChatCompletionChoice} {chunks : List ChatCompletionChunk}
    (h : CutOf choice chunks) (hcalls : ∀ call ∈ choice.calls, call.id ≠ "" ∧ call.name ≠ "") :
    ((sortedItems (collected {} (callFragments chunks)).toolCalls).filterMap fun item =>
      toolCallFromStreamState loads item.2) = choice.calls.map (mappedCall loads) := by
  have hlookup : ∀ k, (collected {} (callFragments chunks)).toolCalls.lookup k =
      if k < choice.calls.length then some (((choice.calls[k]?).map OpenAIToolCall.state).getD {})
      else none := by
    intro k
    rw [h.lookup_collected hcalls]
    split_ifs with hk
    · rw [List.getElem?_eq_getElem hk]
      rfl
    · rw [List.getElem?_eq_none (by omega)]
      rfl
  have hnodup : ((collected {} (callFragments chunks)).toolCalls.map Prod.fst).Nodup :=
    nodup_keys_collect List.nodup_nil
  rw [sortedItems_eq_range hnodup hlookup]
  have hcall : ∀ call ∈ choice.calls, toolCallFromStreamState loads call.state =
      some (mappedCall loads call) := by
    intro call hmem
    obtain ⟨hid, hname⟩ := hcalls call hmem
    rw [toolCallFromStreamState, OpenAIToolCall.state, Option.getD_some, if_neg hid, Option.getD_some,
      if_neg hname]
    rfl
  rw [List.filterMap_map]
  have hcongr : (List.range choice.calls.length).filterMap ((fun item : ℕ × ChatCallState =>
        toolCallFromStreamState loads item.2) ∘
        fun k => (k, ((choice.calls[k]?).map OpenAIToolCall.state).getD {})) =
      (List.range choice.calls.length).filterMap fun k => (choice.calls[k]?).map (mappedCall loads) := by
    refine List.filterMap_congr fun k hk => ?_
    have hk := List.mem_range.mp hk
    simp only [Function.comp_apply, List.getElem?_eq_getElem hk, Option.map_some, Option.getD_some]
    exact hcall _ (List.getElem_mem hk)
  rw [hcongr, filterMap_range_getElem?]

end Collecting

/-! ### The whole stream -/

section Stream

variable {loads : String → Option Value} {choice : ChatCompletionChoice}
  {chunks : List ChatCompletionChunk}

/-- **The stream of a choice.** -/
theorem CutOf.observed_mapChunks (loads : String → Option Value) (h : CutOf choice chunks) (hcompletes : choice.Completes)
    (hcalls : ∀ call ∈ choice.calls, call.id ≠ "" ∧ call.name ≠ "") :
    observed (mapChunks loads {} chunks).1 =
        ((choice.message.content.getD "").toList, choice.calls.map (mappedCall loads)) ∧
      (mapChunks loads {} chunks).2.isComplete = true := by
  obtain ⟨before, last, hdeltas, hbefore, hlast⟩ := h.finishes
  -- the choice deltas with their chunks, cut before the last
  have hpairs : (chunks.flatMap fun c => c.choices.map (c, ·)).map Prod.snd = before ++ [last] := by
    rw [← hdeltas, choiceDeltas, List.map_flatMap]
    simp [Function.comp_def]
  obtain ⟨pairs, final, hchunks, hpairsBefore, hfinal⟩ := List.map_eq_append_iff.mp hpairs
  obtain ⟨⟨chunk, delta⟩, rfl, rfl⟩ := List.map_eq_singleton_iff.mp hfinal
  have hcontent : (pairs.flatMap fun p => (p.2.content.getD "").toList) ++ (delta.content.getD "").toList =
      (choice.message.content.getD "").toList := by
    rw [← h.text, hdeltas, ← hpairsBefore]
    simp [List.flatMap_append, List.flatMap_map]
  have hfragments : pairs.flatMap (·.2.toolCalls) ++ delta.toolCalls = callFragments chunks := by
    rw [callFragments, hdeltas, ← hpairsBefore]
    simp [List.flatMap_append, List.flatMap_map]
  have hunfinished := mapDeltas_unfinished loads {}
    (fun d hd => h.index_isSome d (hfragments ▸ List.mem_append_left _ hd))
    (fun p hp => hbefore _ (hpairsBefore ▸ List.mem_map_of_mem hp))
  have hmapped := mapToolCallDeltas_eq (collected {} (pairs.flatMap (·.2.toolCalls))) chunk
    (fun d hd => h.index_isSome d (hfragments ▸ List.mem_append_right _ hd))
  rw [← collected_append, hfragments] at hmapped
  have hreason : delta.finishReason.getD "" = choice.finishReason := by rw [hlast, Option.getD_some]
  have hfinished := observed_finish loads (collected {} (callFragments chunks)) chunk hcompletes.2
  rw [h.sortedItems_collected hcalls] at hfinished
  have hchoice : observed ((collected {} (pairs.flatMap (·.2.toolCalls))).mapChoice loads chunk delta).1 =
        ((delta.content.getD "").toList, choice.calls.map (mappedCall loads)) ∧
      ((collected {} (pairs.flatMap (·.2.toolCalls))).mapChoice loads chunk delta).2.isComplete = true := by
    rw [mapChoice, hreason, if_neg hcompletes.1]
    refine ⟨?_, rfl⟩
    rw [observed_append, observed_append, observed_started, hmapped.1, hmapped.2, hfinished]
    simp
  rw [(mapChunks_eq chunks).1, (mapChunks_eq chunks).2, hchunks, mapDeltas_append, observed_append,
    hunfinished.1, hunfinished.2]
  refine ⟨?_, hchoice.2⟩
  rw [mapDeltas, observed_append, hchoice.1, ← hcontent]
  simp [mapDeltas, observed, streamedText, completedCalls]

/-- What the calls in one piece are mapped to. -/
theorem mapM_fromOpenaiToolCall {calls : List OpenAIToolCall} {toolCalls : List ToolCall}
    (h : calls.mapM (fromOpenaiToolCall loads) = .ok toolCalls) :
    toolCalls = calls.map (mappedCall loads) := by
  induction calls generalizing toolCalls with
  | nil => exact (Except.ok.inj h).symm
  | cons call calls ih =>
    rw [List.mapM_cons] at h
    obtain ⟨first, hfirst, h⟩ := exists_of_bind_eq_ok h
    obtain ⟨rest, hrest, h⟩ := exists_of_bind_eq_ok h
    have hcall : first = mappedCall loads call := by
      rw [fromOpenaiToolCall] at hfirst
      split_ifs at hfirst
      exact (Except.ok.inj hfirst).symm
    rw [← Except.ok.inj h, hcall, ih hrest, List.map_cons]

/-- The response in one piece. -/
theorem fromOpenaiChatCompletion_eq {response : ChatCompletion} {chat : ChatResponse}
    (hchoices : response.choices = [choice]) (h : fromOpenaiChatCompletion loads response = .ok chat) :
    chat.text = choice.message.content.getD "" ∧
      chat.message.toolCalls.getD [] = choice.calls.map (mappedCall loads) := by
  rw [fromOpenaiChatCompletion, hchoices] at h
  obtain ⟨toolCalls, hcalls, h⟩ := exists_of_bind_eq_ok h
  obtain rfl := Except.ok.inj h
  have hcalls := mapM_fromOpenaiToolCall hcalls
  constructor
  · simp only [ChatResponse.text]
    cases choice.message.content with
    | none => rfl
    | some text =>
      by_cases htext : text = ""
      · subst htext
        rfl
      · simp [htext]
  · rw [ChatCompletionChoice.calls, ← hcalls]
    by_cases hempty : toolCalls = []
    · simp [hempty]
    · simp [hempty]

/-- **Streaming is faithful.** However a completion is cut into chunks, the normalizer emits the text and
the calls, each once and in order, that the completion is mapped to in one piece. -/
theorem chatStream_eq (loads : String → Option Value) {response : ChatCompletion}
    {choice : ChatCompletionChoice} {chunks : List ChatCompletionChunk} {chat : ChatResponse}
    (hchoices : response.choices = [choice]) (hcompletes : choice.Completes)
    (hcalls : ∀ call ∈ choice.calls, call.id ≠ "" ∧ call.name ≠ "") (hcut : CutOf choice chunks)
    (hchat : fromOpenaiChatCompletion loads response = .ok chat) :
    streamedText (mapChunks loads {} chunks).1 = chat.text.toList ∧
      completedCalls (mapChunks loads {} chunks).1 = chat.message.toolCalls.getD [] ∧
      (mapChunks loads {} chunks).2.isComplete = true := by
  obtain ⟨htext, htoolCalls⟩ := fromOpenaiChatCompletion_eq hchoices hchat
  obtain ⟨hobserved, hcomplete⟩ := hcut.observed_mapChunks loads hcompletes hcalls
  rw [htext, htoolCalls]
  exact ⟨congrArg Prod.fst hobserved, congrArg Prod.snd hobserved, hcomplete⟩

/-- A completion with a text and two calls. -/
private def weatherChoice : ChatCompletionChoice where
  message := {
    content := some "Looking."
    toolCalls := some [{ id := "a", name := "weather", arguments := "{}" },
      { id := "b", name := "clock", arguments := "" }] }
  finishReason := "stop"

/-- The name of the first call comes after its arguments, and between the fragments of the second. -/
private def weatherChunks : List ChatCompletionChunk := [
  { id := "r", model := "m", choices := [{ role := some "assistant", content := some "Loo" }] },
  { id := "r", model := "m", choices := [{
      content := some "king."
      toolCalls := [{ index := some 1, id := some "b" }, { index := some 0, arguments := some "\x7b" }] }] },
  { id := "r", model := "m", usage := true, choices := [
      { toolCalls := [{ index := some 0, id := some "a", name := some "weather" }] },
      { toolCalls := [{ index := some 1, name := some "clock" }, { index := some 0, arguments := some "\x7d" }]
        finishReason := some "stop" }] },
  { id := "r", model := "m", usage := true }]

theorem chatStream_eq_weather :
    let response : ChatCompletion := { id := "r", model := "m", created := 0, choices := [weatherChoice] }
    ∃ chat, fromOpenaiChatCompletion (fun _ => none) response = .ok chat ∧
      streamedText (mapChunks (fun _ => none) {} weatherChunks).1 = chat.text.toList ∧
      completedCalls (mapChunks (fun _ => none) {} weatherChunks).1 = chat.message.toolCalls.getD [] ∧
      (mapChunks (fun _ => none) {} weatherChunks).2.isComplete = true := by
  have hcalls : ∀ {P : ℕ → OpenAIToolCall → Prop},
      P 0 { id := "a", name := "weather", arguments := "{}" } →
      P 1 { id := "b", name := "clock", arguments := "" } →
      ∀ i call, weatherChoice.calls[i]? = some call → P i call := by
    intro P hfirst hsecond i call hcall
    match i with
    | 0 => exact Option.some.inj hcall ▸ hfirst
    | 1 => exact Option.some.inj hcall ▸ hsecond
    | i + 2 => exact absurd hcall (by simp [weatherChoice, ChatCompletionChoice.calls])
  have hbelongs : ∀ delta ∈ callFragments weatherChunks, delta.Of weatherChoice.calls := by
    simp only [weatherChunks, callFragments, choiceDeltas, List.flatMap_cons, List.flatMap_nil,
      List.append_nil, List.cons_append, List.nil_append, List.forall_mem_cons]
    exact ⟨⟨1, _, rfl, rfl, by decide, by decide⟩, ⟨0, _, rfl, rfl, by decide, by decide⟩,
      ⟨0, _, rfl, rfl, by decide, by decide⟩, ⟨1, _, rfl, rfl, by decide, by decide⟩,
      ⟨0, _, rfl, rfl, by decide, by decide⟩, by simp⟩
  have hcut : CutOf weatherChoice weatherChunks :=
    ⟨by decide, hbelongs, hcalls (by decide) (by decide), hcalls (by decide) (by decide),
      hcalls (by decide) (by decide), [_, _, _], _, rfl, by decide, rfl⟩
  obtain ⟨chat, hchat⟩ : ∃ chat, fromOpenaiChatCompletion (fun _ => none)
      { id := "r", model := "m", created := 0, choices := [weatherChoice] } = .ok chat := ⟨_, rfl⟩
  exact ⟨chat, hchat, chatStream_eq (fun _ => none) rfl (show weatherChoice.Completes by decide)
    (by decide) hcut hchat⟩

end Stream

end EvernightAI
