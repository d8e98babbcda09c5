import EvernightAI.Provider.GeminiMapper
import Mathlib.Data.List.Flatten
import Mathlib.Data.List.Forall2

/-!
# Streaming a Gemini message

The parts of a message come in chunks, and three pieces of code read them: the stream, which emits
their text and calls as they come; the mapper of a whole response, which reads them all once more at
the end; and the check of a message that is sent back. `TreatedAlike` says of the parts of a chunk
that the three do not differ on them.

* `mapChunks_eq_ok` : what a stream has emitted and collected.
* `geminiStream_roundTrip_iff` : the three agree about a stream exactly when they treat the parts of
  all its chunks alike.
-/

namespace EvernightAI

open GeminiStreamNormalizer

/-! ### Parts kept by some readers only -/

section Sublists

variable {α β : Type*} {f g : α → List β}

/-- A list put together from less is the same only when each piece is. -/
theorem flatMap_eq_iff_of_sublist (h : ∀ a, (g a).Sublist (f a)) (l : List α) :
    l.flatMap g = l.flatMap f ↔ ∀ a ∈ l, g a = f a := by
  induction l with
  | nil => exact ⟨fun _ _ ha => absurd ha List.not_mem_nil, fun _ => rfl⟩
  | cons a l ih =>
    rw [List.flatMap_cons, List.flatMap_cons, List.forall_mem_cons, ← ih]
    constructor
    · intro heq
      have hhead : (g a).length ≤ (f a).length := (h a).length_le
      have htail : (l.flatMap g).length ≤ (l.flatMap f).length :=
        (List.Sublist.flatMap_right l fun a _ => h a).length_le
      have hlength : (g a).length + (l.flatMap g).length = (f a).length + (l.flatMap f).length := by
        rw [← List.length_append, ← List.length_append, heq]
      have hsame : g a = f a := (h a).eq_of_length (by omega)
      exact ⟨hsame, List.append_cancel_left (hsame ▸ heq)⟩
    · rintro ⟨hhead, htail⟩
      rw [hhead, htail]

end Sublists

/-! ### What the readers take from a part -/

/-- What a call of the part is to the stream: one whose arguments are no object is not emitted. -/
def streamedFunctions (part : PyJson) : List FunctionCall :=
  ((part.dict?.bind namedCall).filter fun functionCall => (functionArgs functionCall).dict?.isSome).toList.map
    calledFunction

/-- What it is to the other readers. -/
def partFunctions (part : PyJson) : List FunctionCall :=
  (part.dict?.bind namedCall).toList.map calledFunction

/-- The text of a part, to all readers. -/
def textOf (part : PyJson) : String := (part.dict?.bind partText).getD ""

/-- The parts of a chunk. -/
def chunkParts (chunk : PyDict) : List PyJson :=
  ((firstCandidate chunk).map candidateParts).getD []

/-- The text a chunk emits: none with an error. -/
def chunkText (chunk : PyDict) : String :=
  if (chunkError chunk).isSome then "" else partsText (chunkParts chunk)

/-- The functions a chunk emits calls of. -/
def chunkFunctions (chunk : PyDict) : List FunctionCall :=
  if (chunkError chunk).isSome then [] else (chunkParts chunk).flatMap streamedFunctions

/-- **The parts of a chunk are treated alike**: all are objects, the arguments of their calls are
objects or missing, and a chunk with an error has neither text nor calls. -/
structure TreatedAlike (chunk : PyDict) : Prop where
  objects : ∀ part ∈ chunkParts chunk, part.dict?.isSome
  arguments : ∀ part ∈ chunkParts chunk, ∀ functionCall ∈ part.dict?.bind namedCall,
    (functionArgs functionCall).dict?.isSome
  error : (chunkError chunk).isSome → ∀ part ∈ chunkParts chunk,
    textOf part = "" ∧ part.dict?.bind namedCall = none

instance (chunk : PyDict) : Decidable (TreatedAlike chunk) :=
  decidable_of_iff (_ ∧ _ ∧ _) ⟨fun h => ⟨h.1, h.2.1, h.2.2⟩, fun h => ⟨h.objects, h.arguments, h.error⟩⟩

section Parts

variable {part : PyJson} {parts : List PyJson}

theorem streamedFunctions_sublist (part : PyJson) :
    (streamedFunctions part).Sublist (partFunctions part) := by
  rw [streamedFunctions, partFunctions]
  cases part.dict?.bind namedCall with
  | none => exact List.Sublist.refl _
  | some functionCall =>
    by_cases h : (functionArgs functionCall).dict?.isSome
    · simp [Option.filter, h]
    · simp [Option.filter, h]

theorem streamedFunctions_eq_iff : streamedFunctions part = partFunctions part ↔
    ∀ functionCall ∈ part.dict?.bind namedCall, (functionArgs functionCall).dict?.isSome := by
  rw [streamedFunctions, partFunctions]
  cases part.dict?.bind namedCall with
  | none => simp
  | some functionCall =>
    by_cases h : (functionArgs functionCall).dict?.isSome
    · simp [Option.filter, h]
    · simp [Option.filter, h]

theorem partFunctions_eq_nil_iff : partFunctions part = [] ↔ part.dict?.bind namedCall = none := by
  rw [partFunctions, List.map_eq_nil_iff, Option.toList_eq_nil_iff]

theorem partsText_cons : partsText (part :: parts) = textOf part ++ partsText parts := by
  rw [partsText, List.filterMap_cons, textOf]
  cases part.dict?.bind partText with
  | none => rw [Option.getD_none, String.empty_append]; rfl
  | some text => rw [String.join_cons]; rfl

theorem partsText_append (more : List PyJson) :
    partsText (parts ++ more) = partsText parts ++ partsText more := by
  rw [partsText, List.filterMap_append, String.join_append]
  rfl

theorem partsText_eq_empty_iff : partsText parts = "" ↔ ∀ part ∈ parts, textOf part = "" := by
  induction parts with
  | nil => exact ⟨fun _ _ h => absurd h List.not_mem_nil, fun _ => rfl⟩
  | cons part parts ih =>
    rw [partsText_cons, List.forall_mem_cons, ← ih, String.append_eq_empty_iff]

/-- The functions of the calls in one piece. -/
theorem map_function_partsCalls (hex : ℕ → String) (responseId : Option String) (index : ℕ) :
    (partsCalls hex responseId index parts).map (·.function) = parts.flatMap partFunctions := by
  induction parts generalizing index with
  | nil => rfl
  | cons part parts ih =>
    have hpart : (part.dict?.bind (toolCallFromGeminiPart hex · responseId index)).toList.map (·.function) =
        partFunctions part := by
      rw [partFunctions]
      cases part.dict? with
      | none => rfl
      | some object =>
        rw [Option.bind_some, Option.bind_some, toolCallFromGeminiPart]
        cases namedCall object with
        | none => rfl
        | some functionCall => rfl
    rw [partsCalls, List.map_append, hpart, ih, List.flatMap_cons]

end Parts

/-! ### What a chunk emits -/

/-- The identifiers of calls that are the provider's own. -/
def KeepsId (call : NativeToolCall) (functionCall : PyDict) : Prop :=
  (functionCall.str? "id").getD "" = "" ∨ (functionCall.str? "id").getD "" = call.toolCallId

section Events

variable {py : PyJson.PythonText} {responseId modelId : Option String} {candidateIndex : PyJson}

theorem functions_append (events more : List NativeStreamEvent) :
    (nativeCalls (events ++ more)).map (·.function) =
      (nativeCalls events).map (·.function) ++ (nativeCalls more).map (·.function) := by
  rw [nativeCalls_append, List.map_append]

/-- The event of a function call. -/
theorem geminiFunctionCallEvent_eq (py : PyJson.PythonText) (responseId modelId : Option String)
    (candidateIndex : PyJson) (functionCall : PyDict) (partIndex : ℕ) :
    (geminiFunctionCallEvent py responseId modelId candidateIndex functionCall partIndex = none ∧
      ((functionCall.str? "name").getD "" = "" ∨ (functionArgs functionCall).dict? = none)) ∨
    ∃ event call, geminiFunctionCallEvent py responseId modelId candidateIndex functionCall partIndex =
        some event ∧ event.eventType = .toolCallCompleted ∧ event.textDelta = none ∧
      event.toolCall = some call ∧ call.function = calledFunction functionCall ∧
      KeepsId call functionCall ∧ (functionCall.str? "name").getD "" ≠ "" ∧
      (functionArgs functionCall).dict?.isSome := by
  simp only [geminiFunctionCallEvent]
  by_cases hname : (functionCall.str? "name").getD "" = ""
  · exact Or.inl ⟨if_pos hname, Or.inl hname⟩
  · rw [if_neg hname]
    cases hargs : (functionArgs functionCall).dict? with
    | none => exact Or.inl ⟨rfl, Or.inr rfl⟩
    | some args =>
      refine Or.inr ⟨_, _, rfl, rfl, rfl, rfl, ?_, ?_, hname, rfl⟩
      · simp only [NativeToolCall.function, calledFunction, hargs, Option.getD_some]
      · by_cases hid : (functionCall.str? "id").getD "" = ""
        · exact Or.inl hid
        · refine Or.inr ?_
          simp only [if_pos (show (functionCall.str? "id").getD "" ≠ "" from hid)]

/-- **What a part emits.** -/
structure PartEmits (part : PyJson) (events : List NativeStreamEvent) : Prop where
  text : deltaText events = textOf part
  functions : (nativeCalls events).map (·.function) = streamedFunctions part
  ids : (∀ functionCall ∈ part.dict?.bind namedCall, (functionArgs functionCall).dict?.isSome) →
    List.Forall₂ KeepsId (nativeCalls events) (part.dict?.bind namedCall).toList
  unfinished : ∀ event ∈ events, event.eventType ≠ .messageCompleted

theorem partEmits_partEvents (partIndex : ℕ) (object : PyDict) :
    PartEmits (.dict object) (partEvents py responseId modelId candidateIndex partIndex object) := by
  have htext : ∀ events : List NativeStreamEvent,
      events = (if (partText object).getD "" ≠ "" then
        [{ chunkEvent responseId modelId .messageDelta with
            role := some .assistant
            textDelta := partText object
            metadata := partMetadata candidateIndex partIndex }]
        else []) → deltaText events = (partText object).getD "" ∧ nativeCalls events = [] ∧
          ∀ event ∈ events, event.eventType ≠ .messageCompleted := by
    rintro events rfl
    by_cases hempty : (partText object).getD "" = ""
    · rw [if_neg (not_not.mpr hempty), hempty]
      exact ⟨rfl, rfl, fun event h => absurd h List.not_mem_nil⟩
    · rw [if_pos hempty]
      refine ⟨by simp [deltaText], rfl, ?_⟩
      rintro event hevent
      rw [List.mem_singleton.mp hevent]
      exact ChatStreamEventType.noConfusion
  obtain ⟨hdelta, hnone, hunfinished⟩ := htext _ rfl
  have hobject : (PyJson.dict object).dict?.bind namedCall = namedCall object := rfl
  -- the three readers find the same function call in the part
  have hnamed : ∀ functionCall, object.dict? "functionCall" = some functionCall →
      namedCall object = if (functionCall.str? "name").getD "" = "" then none else some functionCall := by
    intro functionCall h
    rw [namedCall, h]
    rfl
  rw [partEvents]
  cases hcall : object.dict? "functionCall" with
  | none =>
    have hmissing : namedCall object = none := by rw [namedCall, hcall]; rfl
    rw [Option.bind_none, Option.toList_none, List.append_nil]
    refine ⟨hdelta, ?_, ?_, hunfinished⟩
    · rw [hnone, streamedFunctions, hobject, hmissing]
      rfl
    · rw [hnone, hobject, hmissing]
      exact fun _ => List.Forall₂.nil
  | some functionCall =>
    rw [Option.bind_some]
    rcases geminiFunctionCallEvent_eq py responseId modelId candidateIndex functionCall partIndex with
      ⟨hevent, hreason⟩ | ⟨event, call, hevent, htype, hdelta', htoolCall, hfunction, hid, hname, hargs⟩
    · rw [hevent, Option.toList_none, List.append_nil]
      refine ⟨hdelta, ?_, ?_, hunfinished⟩
      · rw [hnone, streamedFunctions, hobject, hnamed functionCall hcall]
        rcases hreason with hname | hargs
        · rw [if_pos hname]
          rfl
        · split_ifs
          · rfl
          · simp [Option.filter, hargs]
      · rw [hnone, hobject, hnamed functionCall hcall]
        intro harguments
        rcases hreason with hname | hargs
        · rw [if_pos hname]
          exact List.Forall₂.nil
        · split_ifs at harguments ⊢
          · exact List.Forall₂.nil
          · exact absurd (harguments functionCall rfl) (by simp [hargs])
    · have hcalls : nativeCalls [event] = [call] := by
        rw [nativeCalls, List.filterMap_cons, if_pos htype, htoolCall]
        rfl
      have hempty : deltaText [event] = "" := by simp [deltaText, hdelta']
      rw [hevent, Option.toList_some]
      refine ⟨?_, ?_, ?_, ?_⟩
      · rw [deltaText_append, hdelta, hempty, String.append_empty]
        rfl
      · rw [nativeCalls_append, hnone, hcalls, streamedFunctions, hobject, hnamed functionCall hcall,
          if_neg hname]
        simp [Option.filter, hargs, hfunction]
      · intro _
        rw [nativeCalls_append, hnone, hcalls, hobject, hnamed functionCall hcall, if_neg hname]
        exact List.Forall₂.cons hid List.Forall₂.nil
      · intro last hlast
        rcases List.mem_append.mp hlast with hlast | hlast
        · exact hunfinished last hlast
        · rw [List.mem_singleton.mp hlast, htype]
          exact ChatStreamEventType.noConfusion

/-- **What some parts emit.** -/
structure PartsEmit (parts : List PyJson) (events : List NativeStreamEvent) : Prop where
  text : deltaText events = partsText parts
  functions : (nativeCalls events).map (·.function) = parts.flatMap streamedFunctions
  ids : (∀ part ∈ parts, ∀ functionCall ∈ part.dict?.bind namedCall,
      (functionArgs functionCall).dict?.isSome) →
    List.Forall₂ KeepsId (nativeCalls events) (parts.filterMap fun part => part.dict?.bind namedCall)
  unfinished : ∀ event ∈ events, event.eventType ≠ .messageCompleted

theorem partsEmit_partsEvents (py : PyJson.PythonText) (responseId modelId : Option String)
    (candidateIndex : PyJson) (parts : List PyJson) (partIndex : ℕ) :
    PartsEmit parts (partsEvents py responseId modelId candidateIndex partIndex parts) := by
  induction parts generalizing partIndex with
  | nil => exact ⟨rfl, rfl, fun _ => List.Forall₂.nil, fun event h => absurd h List.not_mem_nil⟩
  | cons part parts ih =>
    have hpart : PartEmits part
        ((part.dict?.map (partEvents py responseId modelId candidateIndex partIndex)).getD []) := by
      cases hobject : part.dict? with
      | none =>
        refine ⟨?_, ?_, ?_, fun event h => absurd h List.not_mem_nil⟩
        · rw [textOf, hobject]
          rfl
        · rw [streamedFunctions, hobject]
          rfl
        · rw [hobject]
          exact fun _ => List.Forall₂.nil
      | some object =>
        rw [PyJson.dict?_eq_some.mp hobject]
        exact partEmits_partEvents partIndex object
    obtain ⟨htext, hfunctions, hids, hunfinished⟩ := ih (partIndex + 1)
    rw [partsEvents]
    refine ⟨?_, ?_, ?_, ?_⟩
    · rw [deltaText_append, hpart.text, htext, partsText_cons]
    · rw [functions_append, hpart.functions, hfunctions, List.flatMap_cons]
    · intro harguments
      obtain ⟨hfirst, hrest⟩ := List.forall_mem_cons.mp harguments
      have happend := List.rel_append (hpart.ids hfirst) (hids hrest)
      rw [nativeCalls_append, List.filterMap_cons]
      cases hcall : part.dict?.bind namedCall with
      | none => simpa [hcall] using happend
      | some functionCall => simpa [hcall] using happend
    · intro event hevent
      rcases List.mem_append.mp hevent with hevent | hevent
      · exact hpart.unfinished event hevent
      · exact hunfinished event hevent

end Events

/-! ### Chunk by chunk -/

section Chunks

variable {normalizer next : GeminiStreamNormalizer} {chunk : PyDict}
  {events : List NativeStreamEvent}

/-- The chunk that is mapped differs in the identifier and in the other candidates. -/
theorem lookup_normalized {key : String} (hid : key ≠ "responseId") (hcandidates : key ≠ "candidates") :
    (normalizer.normalized chunk).lookup key = chunk.lookup key := by
  have hfirst : (KeyedFold.modify .null "responseId" (fun _ => .str normalizer.responseId) chunk).lookup key =
      chunk.lookup key := by
    rw [KeyedFold.lookup_modify, if_neg hid]
  simp only [normalized]
  split
  · rw [KeyedFold.lookup_modify, if_neg hcandidates, hfirst]
  · exact hfirst

theorem candidates_normalized :
    (((normalizer.normalized chunk).list? "candidates").getD []).filterMap PyJson.dict? =
      (firstCandidate chunk).toList := by
  have hkept : ∀ chunk' : PyDict, chunk'.lookup "candidates" = chunk.lookup "candidates" →
      chunk'.list? "candidates" = chunk.list? "candidates" := by
    intro chunk' h
    rw [PyDict.list?, h]
    rfl
  have hfirst : (KeyedFold.modify .null "responseId" (fun _ => .str normalizer.responseId) chunk).lookup
      "candidates" = chunk.lookup "candidates" := by
    rw [KeyedFold.lookup_modify, if_neg (by decide)]
  rw [firstCandidate, normalized]
  cases hlist : chunk.list? "candidates" with
  | none =>
    simp only []
    rw [hkept _ hfirst, hlist]
    rfl
  | some candidates =>
    cases candidates with
    | nil =>
      simp only []
      rw [hkept _ hfirst, hlist]
      rfl
    | cons candidate candidates =>
      simp only []
      rw [PyDict.list?, KeyedFold.lookup_modify, if_pos rfl]
      change [candidate].filterMap PyJson.dict? = candidate.dict?.toList
      rw [List.filterMap_cons]
      cases candidate.dict? with
      | none => rfl
      | some object => rfl

theorem chunkError_normalized : chunkError (normalizer.normalized chunk) = chunkError chunk := by
  have hdict : ∀ key, key ≠ "responseId" → key ≠ "candidates" →
      (normalizer.normalized chunk).dict? key = chunk.dict? key := by
    intro key hid hcandidates
    rw [PyDict.dict?, lookup_normalized hid hcandidates]
    rfl
  rw [chunkError, hdict "error" (by decide) (by decide), hdict "promptFeedback" (by decide) (by decide)]
  rfl

/-- **What a chunk emits**, before the end of the message is taken out. -/
structure ChunkEmits (chunk : PyDict) (events : List NativeStreamEvent) : Prop where
  text : deltaText events = chunkText chunk
  functions : (nativeCalls events).map (·.function) = chunkFunctions chunk
  ids : TreatedAlike chunk → List.Forall₂ KeepsId (nativeCalls events)
    ((chunkParts chunk).filterMap fun part => part.dict?.bind namedCall)

/-- Events that are neither text nor calls. -/
theorem emits_nothing {event : NativeStreamEvent} (htype : event.eventType ≠ .toolCallCompleted)
    (htext : event.textDelta = none) : deltaText [event] = "" ∧ nativeCalls [event] = [] := by
  constructor
  · simp [deltaText, htext]
  · simp [nativeCalls, htype]

/-- The end of the message carries neither. -/
theorem emits_filter (h : ∀ event ∈ events, event.eventType = .messageCompleted → event.textDelta = none) :
    deltaText (events.filter (·.eventType ≠ .messageCompleted)) = deltaText events ∧
      nativeCalls (events.filter (·.eventType ≠ .messageCompleted)) = nativeCalls events := by
  induction events with
  | nil => exact ⟨rfl, rfl⟩
  | cons event events ih =>
    obtain ⟨hevent, hevents⟩ := List.forall_mem_cons.mp h
    obtain ⟨htext, hcalls⟩ := ih hevents
    have hcons : ∀ rest : List NativeStreamEvent, event :: rest = [event] ++ rest := fun _ => rfl
    by_cases htype : event.eventType = .messageCompleted
    · obtain ⟨hempty, hnone⟩ := emits_nothing (by rw [htype]; exact ChatStreamEventType.noConfusion)
        (hevent htype)
      rw [List.filter_cons_of_neg (by simp [htype]), htext, hcalls, hcons events, deltaText_append,
        nativeCalls_append, hempty, hnone, String.empty_append]
      exact ⟨rfl, rfl⟩
    · rw [List.filter_cons_of_pos (by simp [htype]), hcons, hcons events, deltaText_append,
        nativeCalls_append, htext, hcalls, deltaText_append, nativeCalls_append]
      exact ⟨rfl, rfl⟩

/-- The chunk with an error. -/
theorem chunkEmits_of_error (herror : (chunkError chunk).isSome) (hevents : events.map (·.eventType) = [.error])
    (htext : ∀ event ∈ events, event.textDelta = none) : ChunkEmits chunk events := by
  obtain ⟨event, rfl, htype⟩ : ∃ event, events = [event] ∧ event.eventType = .error := by
    obtain ⟨event, hevent, htype⟩ := List.map_eq_singleton_iff.mp hevents
    exact ⟨event, hevent, htype⟩
  obtain ⟨hempty, hnone⟩ := emits_nothing (by rw [htype]; exact ChatStreamEventType.noConfusion)
    (htext event (List.mem_singleton.mpr rfl))
  refine ⟨?_, ?_, fun halike => ?_⟩
  · rw [hempty, chunkText, if_pos herror]
  · rw [hnone, chunkFunctions, if_pos herror]
    rfl
  · have hcalls : ((chunkParts chunk).filterMap fun part => part.dict?.bind namedCall) = [] :=
      List.filterMap_eq_nil_iff.mpr fun part hpart => (halike.error herror part hpart).2
    rw [hnone, hcalls]
    exact List.Forall₂.nil

/-- What the first candidate emits. -/
structure CandidateEmits (chunk : PyDict) (events : List NativeStreamEvent) : Prop where
  parts : ∃ emitted finish, events = emitted ++ finish ∧ PartsEmit (chunkParts chunk) emitted ∧
    deltaText finish = "" ∧ nativeCalls finish = []
  finished : ∀ event ∈ events, event.eventType = .messageCompleted → event.textDelta = none

theorem candidateEmits (py : PyJson.PythonText) (chunk : PyDict) (responseId modelId : Option String)
    (partOffset : ℕ) :
    CandidateEmits chunk ((firstCandidate chunk).toList.flatMap
      (geminiCandidateStreamEvents py responseId modelId · partOffset)) := by
  cases hcandidate : firstCandidate chunk with
  | none =>
    have hparts : chunkParts chunk = [] := by rw [chunkParts, hcandidate]; rfl
    refine ⟨⟨[], [], rfl, ?_, rfl, rfl⟩, fun event h => absurd h List.not_mem_nil⟩
    rw [hparts]
    exact ⟨rfl, rfl, fun _ => List.Forall₂.nil, fun event h => absurd h List.not_mem_nil⟩
  | some candidate =>
    have hparts : chunkParts chunk = candidateParts candidate := by rw [chunkParts, hcandidate]; rfl
    let candidateIndex := (candidate.lookup "index").getD (.int 0)
    have hemit := partsEmit_partsEvents py responseId modelId candidateIndex (candidateParts candidate)
      partOffset
    have hfinish : ∀ finish : List NativeStreamEvent,
        finish = (if (candidate.str? "finishReason").getD "" ≠ "" then
          [{ chunkEvent responseId modelId .messageCompleted with
              finishReason := some ((candidate.str? "finishReason").getD "")
              metadata := [("candidate_index", candidateIndex)] }]
          else []) → deltaText finish = "" ∧ nativeCalls finish = [] ∧
            ∀ event ∈ finish, event.textDelta = none := by
      rintro finish rfl
      split_ifs
      · exact ⟨rfl, rfl, fun event h => by rw [List.mem_singleton.mp h]; rfl⟩
      · exact ⟨rfl, rfl, fun event h => absurd h List.not_mem_nil⟩
    obtain ⟨hempty, hnone, hplain⟩ := hfinish _ rfl
    rw [Option.toList_some, List.flatMap_cons, List.flatMap_nil, List.append_nil]
    refine ⟨⟨_, _, rfl, hparts ▸ hemit, hempty, hnone⟩, fun event hevent htype => ?_⟩
    rcases List.mem_append.mp hevent with hevent | hevent
    · exact absurd htype (hemit.unfinished event hevent)
    · exact hplain event hevent

/-- **A chunk**: what it emits, and that the end of a message is no text. -/
theorem chunkEmits (py : PyJson.PythonText) (normalizer : GeminiStreamNormalizer) (chunk : PyDict)
    (partOffset : ℕ) :
    ChunkEmits chunk (fromGeminiStreamChunk py (normalizer.normalized chunk) partOffset) ∧
      ∀ event ∈ fromGeminiStreamChunk py (normalizer.normalized chunk) partOffset,
        event.eventType = .messageCompleted → event.textDelta = none := by
  simp only [fromGeminiStreamChunk, chunkError_normalized, candidates_normalized]
  cases herror : chunkError chunk with
  | some error =>
    have htext : ∀ event : NativeStreamEvent, event.textDelta = none →
        ∀ event' ∈ [event], event'.textDelta = none := by
      intro event h event' hevent
      rwa [List.mem_singleton.mp hevent]
    exact ⟨chunkEmits_of_error (by rw [herror]; rfl) rfl (htext _ rfl), fun event h _ => htext _ rfl event h⟩
  | none =>
    have hnoError : ¬(chunkError chunk).isSome := by rw [herror]; exact Bool.false_ne_true
    obtain ⟨⟨emitted, finish, hsplit, hparts, hempty, hnone⟩, hfinished⟩ := candidateEmits py chunk
      ((normalizer.normalized chunk).str? "responseId")
      ((normalizer.normalized chunk).str? "modelVersion") partOffset
    have hemits : ∀ silent : List NativeStreamEvent, deltaText silent = "" → nativeCalls silent = [] →
        ChunkEmits chunk (silent ++ (emitted ++ finish)) := by
      intro silent htext hcalls
      have hcalls : nativeCalls (silent ++ (emitted ++ finish)) = nativeCalls emitted := by
        rw [nativeCalls_append, nativeCalls_append, hcalls, hnone, List.nil_append, List.append_nil]
      refine ⟨?_, ?_, fun halike => ?_⟩
      · rw [deltaText_append, deltaText_append, htext, hempty, hparts.text, String.empty_append,
          String.append_empty, chunkText, if_neg hnoError]
      · rw [hcalls, hparts.functions, chunkFunctions, if_neg hnoError]
      · rw [hcalls]
        exact hparts.ids halike.arguments
    have husage : ∀ usage : List NativeStreamEvent,
        usage = (if ((normalizer.normalized chunk).dict? "usageMetadata").isSome then
          [chunkEvent ((normalizer.normalized chunk).str? "responseId")
            ((normalizer.normalized chunk).str? "modelVersion") .usage] else []) →
        deltaText usage = "" ∧ nativeCalls usage = [] ∧ ∀ event ∈ usage, event.textDelta = none := by
      rintro usage rfl
      split_ifs
      · exact ⟨rfl, rfl, fun event h => by rw [List.mem_singleton.mp h]; rfl⟩
      · exact ⟨rfl, rfl, fun event h => absurd h List.not_mem_nil⟩
    obtain ⟨htext, hcalls, hplain⟩ := husage _ rfl
    rw [hsplit] at hfinished ⊢
    generalize (if ((normalizer.normalized chunk).dict? "usageMetadata").isSome then _ else _) = usage
      at htext hcalls hplain ⊢
    split_ifs with hraw
    · have hnothing : emitted ++ finish = [] := (List.append_eq_nil_iff.mp (List.isEmpty_iff.mp hraw)).2
      have hsilent := hemits [chunkEvent ((normalizer.normalized chunk).str? "responseId")
        ((normalizer.normalized chunk).str? "modelVersion") .raw] rfl rfl
      rw [hnothing, List.append_nil] at hsilent
      exact ⟨hsilent, fun event h _ => by rw [List.mem_singleton.mp h]; rfl⟩
    · refine ⟨hemits _ htext hcalls, fun event hevent htype => ?_⟩
      rcases List.mem_append.mp hevent with hevent | hevent
      · exact hplain event hevent
      · exact hfinished event hevent htype

/-! ### What is collected -/

/-- The calls of a chunk are added in order. -/
theorem addCalls_eq_ok (h : normalizer.addCalls events = .ok next) :
    ∃ callIds, next = { normalizer with callIds, calls := normalizer.calls ++ nativeCalls events } := by
  induction events generalizing normalizer with
  | nil =>
    obtain rfl := Except.ok.inj h
    exact ⟨normalizer.callIds, by rw [show nativeCalls [] = [] from rfl, List.append_nil]⟩
  | cons event events ih =>
    rw [addCalls] at h
    split_ifs at h with htype hduplicate
    · exact absurd h (by simp [geminiError])
    · obtain ⟨callIds, rfl⟩ := ih h
      refine ⟨callIds, ?_⟩
      have hcalls : nativeCalls (event :: events) = event.toolCall.toList ++ nativeCalls events := by
        rw [nativeCalls, List.filterMap_cons, if_pos htype]
        cases event.toolCall with
        | none => rfl
        | some call => rfl
      rw [hcalls, List.append_assoc]
    · obtain ⟨callIds, rfl⟩ := ih h
      refine ⟨callIds, ?_⟩
      have hcalls : nativeCalls (event :: events) = nativeCalls events := by
        rw [nativeCalls, List.filterMap_cons, if_neg htype]
        rfl
      rw [hcalls]

/-- **A chunk is mapped**: what it emits is also what is collected of it. -/
structure Maps (normalizer : GeminiStreamNormalizer) (chunks : List PyDict)
    (events : List NativeStreamEvent) (next : GeminiStreamNormalizer) : Prop where
  text : deltaText events = String.join (chunks.map chunkText)
  functions : (nativeCalls events).map (·.function) = chunks.flatMap chunkFunctions
  ids : (∀ chunk ∈ chunks, TreatedAlike chunk) → List.Forall₂ KeepsId (nativeCalls events)
    ((chunks.flatMap chunkParts).filterMap fun part => part.dict?.bind namedCall)
  parts : next.parts = normalizer.parts ++ chunks.flatMap chunkParts
  calls : next.calls = normalizer.calls ++ nativeCalls events

theorem maps_mapChunk (py : PyJson.PythonText) (h : normalizer.mapChunk py chunk = .ok (events, next)) :
    Maps normalizer [chunk] events next := by
  obtain ⟨added, hadded, h⟩ := exists_of_bind_eq_ok h
  obtain ⟨callIds, rfl⟩ := addCalls_eq_ok hadded
  obtain ⟨hevents, hnext⟩ := Prod.mk.inj (Except.ok.inj h)
  obtain ⟨hemits, hfinished⟩ := chunkEmits py (normalizer.identified chunk) chunk
    (normalizer.identified chunk).parts.length
  obtain ⟨htext, hcalls⟩ := emits_filter hfinished
  rw [hevents] at htext hcalls
  refine ⟨?_, ?_, ?_, ?_, ?_⟩
  · rw [htext, hemits.text, List.map_singleton, String.join_cons]
    exact String.append_empty.symm
  · rw [hcalls, hemits.functions, List.flatMap_cons, List.flatMap_nil, List.append_nil]
  · intro halike
    rw [hcalls, List.flatMap_cons, List.flatMap_nil, List.append_nil]
    exact hemits.ids (halike chunk (List.mem_singleton.mpr rfl))
  · rw [← hnext, addParts, List.flatMap_cons, List.flatMap_nil, List.append_nil, chunkParts]
    cases firstCandidate chunk with
    | none => exact (List.append_nil _).symm
    | some candidate => rfl
  · rw [← hnext, hcalls, addParts]
    cases firstCandidate chunk with
    | none => rfl
    | some candidate => rfl

theorem Maps.append {mapped : GeminiStreamNormalizer} {chunks more : List PyDict}
    {rest : List NativeStreamEvent} (h : Maps normalizer chunks events mapped)
    (hmore : Maps mapped more rest next) : Maps normalizer (chunks ++ more) (events ++ rest) next := by
  refine ⟨?_, ?_, fun halike => ?_, ?_, ?_⟩
  · rw [deltaText_append, h.text, hmore.text, List.map_append, String.join_append]
  · rw [functions_append, h.functions, hmore.functions, List.flatMap_append]
  · rw [List.forall_mem_append] at halike
    rw [nativeCalls_append, List.flatMap_append, List.filterMap_append]
    exact List.rel_append (h.ids halike.1) (hmore.ids halike.2)
  · rw [hmore.parts, h.parts, List.flatMap_append, List.append_assoc]
  · rw [hmore.calls, h.calls, nativeCalls_append, List.append_assoc]

/-- **All chunks.** -/
theorem maps_mapChunks (py : PyJson.PythonText) {chunks : List PyDict}
    (h : normalizer.mapChunks py chunks = .ok (events, next)) : Maps normalizer chunks events next := by
  induction chunks generalizing normalizer events with
  | nil =>
    obtain ⟨rfl, rfl⟩ := Prod.mk.inj (Except.ok.inj h)
    exact ⟨rfl, rfl, fun _ => List.Forall₂.nil, (List.append_nil _).symm, (List.append_nil _).symm⟩
  | cons chunk chunks ih =>
    rw [mapChunks] at h
    obtain ⟨⟨first, mapped⟩, hfirst, h⟩ := exists_of_bind_eq_ok h
    obtain ⟨⟨rest, last⟩, hrest, h⟩ := exists_of_bind_eq_ok h
    obtain ⟨rfl, rfl⟩ := Prod.mk.inj (Except.ok.inj h)
    exact (maps_mapChunk py hfirst).append (ih hrest)

end Chunks

/-! ### The completed message -/

/-- A response that holds some parts, and no others. -/
def HoldsParts (response : PyDict) (parts : List PyJson) : Prop :=
  ∃ (candidate content : PyDict) (candidates : List PyJson),
    response.list? "candidates" = some (.dict candidate :: candidates) ∧
      candidate.dict? "content" = some content ∧ content.list? "parts" = some parts

/-- **The round trip**: the message has the emitted text and the emitted calls, these are the functions
of a response in one piece that holds the same parts, and the message can be sent back. -/
structure RoundTrips (parts : List PyJson) (emitted : List NativeStreamEvent) (message : NativeMessage) :
    Prop where
  text : message.textContent = deltaText emitted
  calls : message.calls = nativeCalls emitted
  functions : ∀ hex response modelId chat, HoldsParts response parts →
    fromGeminiResponse hex response modelId = .ok chat →
    message.calls.map (·.function) = chat.message.calls.map (·.function)
  request : ∃ request, toGeminiRequest [message] = .ok request

section Completed

variable {parts : List PyJson}

/-- A response in one piece. -/
theorem fromGeminiResponse_eq_ok {hex : ℕ → String} {response : PyDict} {modelId : String}
    {chat : NativeResponse} (hparts : HoldsParts response parts)
    (h : fromGeminiResponse hex response modelId = .ok chat) :
    chat.message.textContent = partsText parts ∧
      chat.message.calls.map (·.function) = parts.flatMap partFunctions ∧ chat.message.native = parts := by
  obtain ⟨candidate, content, candidates, hcandidates, hcontent, hlist⟩ := hparts
  have hlookup : ((content.lookup "parts").getD (.list [])).list? = some parts := by
    cases hvalue : content.lookup "parts" with
    | none => rw [PyDict.list?, hvalue] at hlist; exact absurd hlist (Option.some_ne_none parts).symm
    | some value => rw [PyDict.list?, hvalue] at hlist; exact hlist
  rw [fromGeminiResponse, hcandidates] at h
  simp only [Option.getD_some, PyJson.dict?, hcontent, hlookup] at h
  by_cases hnodup : ((partsCalls hex (response.str? "responseId") 0 parts).map (·.toolCallId)).Nodup
  · rw [if_neg (not_not.mpr hnodup)] at h
    obtain ⟨responseId, -, h⟩ := exists_of_bind_eq_ok h
    obtain ⟨version, -, h⟩ := exists_of_bind_eq_ok h
    obtain ⟨finishReason, -, h⟩ := exists_of_bind_eq_ok h
    rw [← Except.ok.inj h, NativeMessage.textContent_ofContent, NativeMessage.calls_ofContent,
      NativeMessage.native_ofContent, map_function_partsCalls]
    exact ⟨rfl, rfl, rfl⟩
  · rw [if_pos hnodup] at h
    exact absurd h (by simp [geminiError])

/-- **The end of a stream**: the message of all parts, with the calls of the chunks. -/
theorem completedEvent_eq_ok {hex : ℕ → String} {normalizer : GeminiStreamNormalizer}
    {completed : NativeStreamEvent} {message : NativeMessage}
    (h : normalizer.completedEvent hex = .ok completed) (hmessage : completed.message = some message) :
    message.textContent = partsText normalizer.parts ∧ message.calls = normalizer.calls ∧
      message.native = normalizer.parts ∧
      ∃ response modelId chat, HoldsParts response normalizer.parts ∧
        fromGeminiResponse hex response modelId = .ok chat := by
  rw [completedEvent] at h
  split at h
  · exact absurd h (by simp [geminiError])
  · rename_i candidate _
    obtain ⟨response, hresponse, h⟩ := exists_of_bind_eq_ok h
    have hholds : HoldsParts [("responseId", .str normalizer.responseId),
        ("modelVersion", (normalizer.modelId.map .str).getD .null),
        ("candidates", .list [.dict (KeyedFold.modify .null "content"
          (fun _ => .dict [("parts", .list normalizer.parts)]) candidate)])] normalizer.parts := by
      refine ⟨_, [("parts", .list normalizer.parts)], _, rfl, ?_, rfl⟩
      rw [PyDict.dict?, KeyedFold.lookup_modify, if_pos rfl]
      rfl
    obtain ⟨htext, -, hnative⟩ := fromGeminiResponse_eq_ok hholds hresponse
    rw [← Except.ok.inj h] at hmessage
    obtain rfl := Option.some.inj hmessage
    refine ⟨htext, ?_, hnative, _, _, response, hholds, hresponse⟩
    change (if normalizer.calls.isEmpty then none else some normalizer.calls).getD [] = normalizer.calls
    cases normalizer.calls with
    | nil => rfl
    | cons call calls => rfl

theorem nativeIdsMatch_of_forall₂ {calls : List NativeToolCall} {functionCalls : List PyDict}
    (h : List.Forall₂ KeepsId calls functionCalls) : nativeIdsMatch functionCalls calls = true := by
  induction h with
  | nil => rfl
  | cons hid _ ih =>
    rw [nativeIdsMatch, ih, Bool.and_true]
    exact (Bool.or_eq_true _ _).mpr (hid.imp decide_eq_true decide_eq_true)

/-- A message that can be sent back. -/
theorem exists_toGeminiRequest_iff {message : NativeMessage} :
    (∃ request, toGeminiRequest [message] = .ok request) ↔
      validatePreservedParts message message.native = .ok () := by
  have hrequest : toGeminiRequest [message] =
      (validatePreservedParts message message.native).bind fun _ =>
        .ok [("contents", .list [.dict [("role", .str "model"), ("parts", .list message.native)]])] := by
    rw [toGeminiRequest, List.mapM_cons, List.mapM_nil, messageParts]
    cases validatePreservedParts message message.native with
    | error err => rfl
    | ok valid => rfl
  rw [hrequest]
  cases validatePreservedParts message message.native with
  | error err => exact ⟨fun ⟨_, h⟩ => absurd h (by simp [Except.bind]), fun h => absurd h (by simp)⟩
  | ok valid => exact ⟨fun _ => rfl, fun _ => ⟨_, rfl⟩⟩

instance : ReflBEq FunctionCall where
  rfl := by
    intro call
    have harguments : (call.arguments == call.arguments) = true := PyJson.beq_iff.mpr rfl
    change (call.name == call.name && call.arguments == call.arguments) = true
    rw [harguments, beq_self_eq_true]
    rfl

/-- A message whose parts are objects with its text, its calls and their identifiers. -/
theorem validatePreservedParts_eq_ok {message : NativeMessage}
    (hobjects : ∀ part ∈ parts, part.dict?.isSome) (htext : message.textContent = partsText parts)
    (hfunctions : message.calls.map (·.function) = parts.flatMap partFunctions)
    (hids : List.Forall₂ KeepsId message.calls (parts.filterMap fun part => part.dict?.bind namedCall)) :
    validatePreservedParts message parts = .ok () := by
  have hall : parts.any (·.dict?.isNone) = false := by
    refine List.any_eq_false.mpr fun part hpart hnone => ?_
    rw [Option.isNone_iff_eq_none] at hnone
    exact absurd (hobjects part hpart) (by rw [hnone]; exact Bool.false_ne_true)
  have hcalled : (parts.filterMap fun part => part.dict?.bind namedCall).map calledFunction =
      parts.flatMap partFunctions := by
    rw [List.filterMap_eq_flatMap_toList, List.map_flatMap]
    rfl
  have hmatch : ¬(partsText parts ≠ message.textContent ∨
      (parts.filterMap fun part => part.dict?.bind namedCall).map calledFunction !=
        message.calls.map (·.function) ∨
      ¬nativeIdsMatch (parts.filterMap fun part => part.dict?.bind namedCall) message.calls) := by
    have hsame : (message.calls.map (·.function) != message.calls.map (·.function)) = false := by
      rw [bne, BEq.rfl, Bool.not_true]
    rw [hcalled, ← hfunctions, hsame, nativeIdsMatch_of_forall₂ hids, htext]
    simp
  rw [validatePreservedParts, hall, if_neg Bool.false_ne_true]
  exact if_neg hmatch

end Completed

/-! ### When the readers agree -/

section RoundTrip

variable {chunks : List PyDict}

/-- The text of a chunk is all of its text, or none. -/
theorem chunkText_sublist (chunk : PyDict) :
    (chunkText chunk).toList.Sublist (partsText (chunkParts chunk)).toList := by
  rw [chunkText]
  split_ifs
  · exact List.nil_sublist _
  · exact List.Sublist.refl _

theorem chunkFunctions_sublist (chunk : PyDict) :
    (chunkFunctions chunk).Sublist ((chunkParts chunk).flatMap partFunctions) := by
  rw [chunkFunctions]
  split_ifs
  · exact List.nil_sublist _
  · exact List.Sublist.flatMap_right _ fun part _ => streamedFunctions_sublist part

theorem toList_join_map {α : Type*} (f : α → String) (l : List α) :
    (String.join (l.map f)).toList = l.flatMap fun a => (f a).toList := by
  induction l with
  | nil => rfl
  | cons a l ih => rw [List.map_cons, String.join_cons, String.toList_append, ih, List.flatMap_cons]

theorem partsText_flatMap : partsText (chunks.flatMap chunkParts) =
    String.join (chunks.map fun chunk => partsText (chunkParts chunk)) := by
  induction chunks with
  | nil => rfl
  | cons chunk chunks ih => rw [List.flatMap_cons, partsText_append, ih, List.map_cons, String.join_cons]

/-- **The text agrees** when every chunk emits the text of its parts. -/
theorem join_chunkText_iff : String.join (chunks.map chunkText) = partsText (chunks.flatMap chunkParts) ↔
    ∀ chunk ∈ chunks, chunkText chunk = partsText (chunkParts chunk) := by
  rw [partsText_flatMap, ← String.toList_inj, toList_join_map, toList_join_map,
    flatMap_eq_iff_of_sublist chunkText_sublist]
  exact forall₂_congr fun chunk _ => String.toList_inj

/-- **The calls agree** when every chunk emits the calls of its parts. -/
theorem flatMap_chunkFunctions_iff :
    chunks.flatMap chunkFunctions = (chunks.flatMap chunkParts).flatMap partFunctions ↔
      ∀ chunk ∈ chunks, chunkFunctions chunk = (chunkParts chunk).flatMap partFunctions := by
  rw [List.flatMap_assoc, flatMap_eq_iff_of_sublist chunkFunctions_sublist]

/-- A chunk whose parts are treated alike, reader by reader. -/
theorem treatedAlike_iff (chunk : PyDict) : TreatedAlike chunk ↔
    (∀ part ∈ chunkParts chunk, part.dict?.isSome) ∧ chunkText chunk = partsText (chunkParts chunk) ∧
      chunkFunctions chunk = (chunkParts chunk).flatMap partFunctions := by
  rw [chunkText, chunkFunctions]
  constructor
  · intro h
    refine ⟨h.objects, ?_, ?_⟩
    · split_ifs with herror
      · exact (partsText_eq_empty_iff.mpr fun part hpart => (h.error herror part hpart).1).symm
      · rfl
    · split_ifs with herror
      · refine (List.flatMap_eq_nil_iff.mpr fun part hpart => ?_).symm
        exact partFunctions_eq_nil_iff.mpr (h.error herror part hpart).2
      · refine (flatMap_eq_iff_of_sublist streamedFunctions_sublist _).mpr fun part hpart => ?_
        exact streamedFunctions_eq_iff.mpr (h.arguments part hpart)
  · rintro ⟨hobjects, htext, hfunctions⟩
    by_cases herror : (chunkError chunk).isSome
    · rw [if_pos herror] at htext hfunctions
      have hnone : ∀ part ∈ chunkParts chunk, part.dict?.bind namedCall = none := fun part hpart =>
        partFunctions_eq_nil_iff.mp (List.flatMap_eq_nil_iff.mp hfunctions.symm part hpart)
      refine ⟨hobjects, fun part hpart functionCall hcall => ?_, fun _ part hpart => ?_⟩
      · exact absurd (Option.mem_def.mp hcall) (by rw [hnone part hpart]; exact (Option.some_ne_none _).symm)
      · exact ⟨partsText_eq_empty_iff.mp htext.symm part hpart, hnone part hpart⟩
    · rw [if_neg herror] at hfunctions
      refine ⟨hobjects, fun part hpart => ?_, fun h => absurd h herror⟩
      exact streamedFunctions_eq_iff.mp
        ((flatMap_eq_iff_of_sublist streamedFunctions_sublist _).mp hfunctions part hpart)

/-- **Exactly when a stream round-trips.** The message of a completed stream has the emitted text, the
emitted calls and those of one response with the same parts, and can be sent back, exactly if the parts
of every chunk are treated alike. -/
theorem geminiStream_roundTrip_iff (py : PyJson.PythonText) (hex : ℕ → String) {responseId : String}
    {emitted : List NativeStreamEvent} {normalizer : GeminiStreamNormalizer}
    {completed : NativeStreamEvent} {message : NativeMessage}
    (hrun : mapChunks py { responseId } chunks = .ok (emitted, normalizer))
    (hcompleted : normalizer.completedEvent hex = .ok completed)
    (hmessage : completed.message = some message) :
    RoundTrips (chunks.flatMap chunkParts) emitted message ↔ ∀ chunk ∈ chunks, TreatedAlike chunk := by
  obtain ⟨htext, hfunctions, hids, hparts, hcalls⟩ := maps_mapChunks py hrun
  obtain ⟨hmessageText, hmessageCalls, hnative, response, modelId, chat, hholds, hchat⟩ :=
    completedEvent_eq_ok hcompleted hmessage
  rw [List.nil_append] at hparts hcalls
  rw [hparts] at hmessageText hholds hnative
  rw [hcalls] at hmessageCalls
  have hwhole : ∀ {hex response modelId chat}, HoldsParts response (chunks.flatMap chunkParts) →
      fromGeminiResponse hex response modelId = .ok chat →
      (message.calls.map (·.function) = chat.message.calls.map (·.function) ↔
        ∀ chunk ∈ chunks, chunkFunctions chunk = (chunkParts chunk).flatMap partFunctions) := by
    intro hex response modelId chat hholds hchat
    rw [hmessageCalls, hfunctions, (fromGeminiResponse_eq_ok hholds hchat).2.1, flatMap_chunkFunctions_iff]
  constructor
  · intro h chunk hchunk
    refine (treatedAlike_iff chunk).mpr ⟨fun part hpart => ?_, ?_, ?_⟩
    · have hvalid := exists_toGeminiRequest_iff.mp h.request
      rw [validatePreservedParts, hnative] at hvalid
      split_ifs at hvalid with hobjects
      rw [Bool.not_eq_true, List.any_eq_false] at hobjects
      have hsome := hobjects part (List.mem_flatMap.mpr ⟨chunk, hchunk, hpart⟩)
      exact Option.isSome_iff_ne_none.mpr fun hnone => hsome (Option.isNone_iff_eq_none.mpr hnone)
    · exact join_chunkText_iff.mp (htext.symm.trans (h.text.symm.trans hmessageText)) chunk hchunk
    · exact (hwhole hholds hchat).mp (h.functions hex response modelId chat hholds hchat) chunk hchunk
  · intro h
    have halike := fun chunk hchunk => (treatedAlike_iff chunk).mp (h chunk hchunk)
    have hsame := join_chunkText_iff.mpr fun chunk hchunk => (halike chunk hchunk).2.1
    have hall : message.calls.map (·.function) = (chunks.flatMap chunkParts).flatMap partFunctions := by
      rw [hmessageCalls, hfunctions]
      exact flatMap_chunkFunctions_iff.mpr fun chunk hchunk => (halike chunk hchunk).2.2
    refine ⟨hmessageText.trans (hsame.symm.trans htext.symm), hmessageCalls, ?_, ?_⟩
    · intro hex response modelId chat hholds hchat
      exact (hwhole hholds hchat).mpr fun chunk hchunk => (halike chunk hchunk).2.2
    · rw [exists_toGeminiRequest_iff, hnative]
      refine validatePreservedParts_eq_ok ?_ hmessageText hall (hmessageCalls ▸ hids h)
      intro part hpart
      obtain ⟨chunk, hchunk, hpart⟩ := List.mem_flatMap.mp hpart
      exact (halike chunk hchunk).1 part hpart

/-- A message of a text, a call and a thought, in two chunks. -/
private def twoChunks (args : PyJson) : List PyDict := [
  [("modelVersion", .str "gemini"), ("candidates", .list [.dict [("content", .dict [("parts", .list [
    .dict [("text", .str "Look"), ("thought", .bool true)], .dict [("text", .str "Looking")]])])]])],
  [("candidates", .list [.dict [("content", .dict [("parts", .list [
    .dict [("functionCall", .dict [("name", .str "clock"), ("args", args)])]])]),
    ("finishReason", .str "STOP")]])]]

private def bareGemini : PyJson.PythonText := ⟨fun _ => "0.0", id⟩

theorem geminiStream_roundTrip_iff_twoChunks :
    let chunks := twoChunks (.dict [])
    ∃ emitted normalizer completed message,
      mapChunks bareGemini { responseId := "gemini-1" } chunks = .ok (emitted, normalizer) ∧
      normalizer.completedEvent (fun _ => "") = .ok completed ∧ completed.message = some message ∧
      (RoundTrips (chunks.flatMap chunkParts) emitted message ↔ ∀ chunk ∈ chunks, TreatedAlike chunk) := by
  intro chunks
  obtain ⟨⟨emitted, normalizer⟩, hrun⟩ : ∃ mapped,
      mapChunks bareGemini { responseId := "gemini-1" } chunks = .ok mapped := ⟨_, rfl⟩
  obtain ⟨completed, message, hcompleted, hmessage⟩ : ∃ completed message,
      normalizer.completedEvent (fun _ => "") = .ok completed ∧ completed.message = some message := by
    obtain ⟨rfl, rfl⟩ := Prod.mk.inj (Except.ok.inj hrun)
    exact ⟨_, _, rfl, rfl⟩
  exact ⟨emitted, normalizer, completed, message, hrun, hcompleted, hmessage,
    geminiStream_roundTrip_iff bareGemini (fun _ => "") hrun hcompleted hmessage⟩

/-- **A call without arguments**: the stream drops a call whose arguments are null, and the message, which
still has its part, cannot be sent back. -/
theorem not_roundTrips_null :
    let chunks := twoChunks .null
    ∃ emitted normalizer completed message,
      mapChunks bareGemini { responseId := "gemini-1" } chunks = .ok (emitted, normalizer) ∧
      normalizer.completedEvent (fun _ => "") = .ok completed ∧ completed.message = some message ∧
      ¬RoundTrips (chunks.flatMap chunkParts) emitted message ∧ message.calls = [] ∧
      toGeminiRequest [message] = .error {
        errorType := .other "ChatInputError"
        message := "Preserved Gemini content does not match the assistant message" } := by
  intro chunks
  refine ⟨_, _, _, _, rfl, rfl, rfl, fun h => ?_, rfl, by rfl⟩
  obtain ⟨request, hrequest⟩ := h.request
  exact absurd hrequest (by rintro ⟨⟩)

end RoundTrip

end EvernightAI
