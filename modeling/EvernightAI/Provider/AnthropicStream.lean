import EvernightAI.Lib.TransitionSystem
import EvernightAI.Provider.AnthropicMapper

/-!
# Streaming an Anthropic message

The events of a stream open, fill and close the blocks of a message. Three accounts of the message are
kept on the way: the deltas and completed calls that are emitted, the blocks, and the message made of
the blocks when the stream stops.

* `accounts_mapEvent` : while the blocks are opened one after the other, an event keeps them equal.
* `anthropicStream_roundTrip` : the completed message has the text and the calls that were emitted, and
  is sent back with the same text and calls.
-/

namespace EvernightAI

open AnthropicStreamNormalizer KeyedFold

/-! ### The blocks as text and calls -/

/-- The blocks of a normalizer, under their index. -/
abbrev Blocks := List (Int × PyDict)

/-- The text of some blocks. -/
def Blocks.text (blocks : Blocks) : String := String.join (blocks.filterMap fun entry => blockText entry.2)

/-- The tool calls of some blocks. -/
def Blocks.calls (blocks : Blocks) : List NativeToolCall :=
  blocks.filterMap fun entry => toolCallFromAnthropicContent entry.2

/-- What is sent of some blocks. -/
def Blocks.content (blocks : Blocks) : List PyJson := blocks.map fun entry => .dict entry.2

theorem contentText_content (blocks : Blocks) : contentText blocks.content = blocks.text := by
  rw [contentText, Blocks.content, List.filterMap_map]
  rfl

theorem contentCalls_content (blocks : Blocks) : contentCalls blocks.content = blocks.calls := by
  rw [contentCalls, Blocks.content, List.filterMap_map]
  rfl

namespace Blocks

variable {blocks more : Blocks}

theorem text_append : text (blocks ++ more) = text blocks ++ text more := by
  rw [text, List.filterMap_append, String.join_append]
  rfl

theorem calls_append : calls (blocks ++ more) = calls blocks ++ calls more := List.filterMap_append

theorem text_cons (entry : Int × PyDict) :
    text (entry :: blocks) = (blockText entry.2).getD "" ++ text blocks := by
  rw [text, List.filterMap_cons]
  cases blockText entry.2 with
  | none => rw [Option.getD_none, String.empty_append]; rfl
  | some value => rw [String.join_cons]; rfl

theorem calls_singleton (entry : Int × PyDict) :
    calls [entry] = (toolCallFromAnthropicContent entry.2).toList := by
  rw [calls, List.filterMap_cons]
  cases toolCallFromAnthropicContent entry.2 with
  | none => rfl
  | some call => rfl

end Blocks

/-! ### Fields of a block -/

section Fields

variable {block : PyDict} {field value key : String} {py : PyJson.PythonText}

theorem lookup_addToField_of_ne (h : key ≠ field) :
    (addToField py field value block).lookup key = block.lookup key := by
  rw [addToField, lookup_modify, if_neg h]

theorem str?_addToField_of_ne (h : key ≠ field) :
    (addToField py field value block).str? key = block.str? key := by
  rw [PyDict.str?, lookup_addToField_of_ne h]
  rfl

/-- The fields a delta adds to are not those of a call. -/
theorem ne_of_deltaField {deltaType : Option String} (h : deltaField deltaType = some field) :
    field ≠ "type" ∧ field ≠ "id" ∧ field ≠ "name" ∧ field ≠ "input" := by
  rw [deltaField] at h
  split_ifs at h <;> obtain rfl := Option.some.inj h <;> decide

/-- Two blocks with the same call in them. -/
structure SameCall (block block' : PyDict) : Prop where
  type : block'.str? "type" = block.str? "type"
  id : block'.str? "id" = block.str? "id"
  name : block'.str? "name" = block.str? "name"
  input : block'.dict? "input" = block.dict? "input"

theorem SameCall.refl (block : PyDict) : SameCall block block := ⟨rfl, rfl, rfl, rfl⟩

theorem SameCall.toolCall_eq {block' : PyDict} (h : SameCall block block') :
    toolCallFromAnthropicContent block' = toolCallFromAnthropicContent block := by
  rw [toolCallFromAnthropicContent, h.type, h.id, h.name, h.input]
  rfl

theorem sameCall_addToField {deltaType : Option String} (h : deltaField deltaType = some field) :
    SameCall block (addToField py field value block) := by
  obtain ⟨htype, hid, hname, hinput⟩ := ne_of_deltaField h
  refine ⟨str?_addToField_of_ne htype.symm, str?_addToField_of_ne hid.symm,
    str?_addToField_of_ne hname.symm, ?_⟩
  rw [PyDict.dict?, lookup_addToField_of_ne hinput.symm]
  rfl

/-- The text of a block is missing, or a text. -/
def TextOrMissing (block : PyDict) : Prop := ∀ value ∈ block.lookup "text", value.str?.isSome

instance (block : PyDict) : Decidable (TextOrMissing block) :=
  inferInstanceAs (Decidable (∀ value ∈ _, _))

/-- A delta of another field leaves the text. -/
theorem blockText_addToField_of_ne (htype : "type" ≠ field) (htext : "text" ≠ field) :
    blockText (addToField py field value block) = blockText block := by
  rw [blockText, str?_addToField_of_ne htype, str?_addToField_of_ne htext]
  rfl

/-- A delta of the text of a text block. -/
theorem blockText_addToField (htype : block.str? "type" = some "text") (htext : TextOrMissing block) :
    (blockText (addToField py "text" value block)).getD "" = (blockText block).getD "" ++ value := by
  have htype' : (addToField py "text" value block).str? "type" = some "text" := by
    rw [str?_addToField_of_ne (by decide), htype]
  have hadded : (addToField py "text" value block).str? "text" =
      some (((block.lookup "text").getD (.str "")).toStr py ++ value) := by
    rw [PyDict.str?, addToField, lookup_modify, if_pos rfl]
    rfl
  rw [blockText, if_pos htype', hadded, blockText, if_pos htype, PyDict.str?, Option.getD_some]
  cases hlookup : block.lookup "text" with
  | none => rfl
  | some old =>
    obtain ⟨text, hold⟩ := Option.isSome_iff_exists.mp (htext old hlookup)
    rw [PyJson.str?_eq_some.mp hold]
    rfl

/-- A delta of a block of another type. -/
theorem blockText_addToField_of_type_ne (hfield : "type" ≠ field) (htype : block.str? "type" ≠ some "text") :
    blockText (addToField py field value block) = blockText block := by
  have htype' : (addToField py field value block).str? "type" ≠ some "text" := by
    rwa [str?_addToField_of_ne hfield]
  rw [blockText, if_neg htype', blockText, if_neg htype]

end Fields

/-! ### What an event must respect -/

/-- The index of the block that an event opens. -/
def opens (event : Option String × PyDict) : Option Int :=
  if (rawEvent event.1 event.2).str? = some "content_block_start" ∧
    (event.2.dict? "content_block").isSome then event.2.int? "index" else none

/-- **One block after the other.** Every index is opened once, after all blocks have been closed. -/
def Orderly (normalizer : AnthropicStreamNormalizer) (event : Option String × PyDict) : Prop :=
  ∀ index ∈ opens event, index ∉ normalizer.blocks.map Prod.fst ∧ normalizer.openBlocks = []

/-- The text of a text delta. -/
def delivers (event : Option String × PyDict) : Option String :=
  if (rawEvent event.1 event.2).str? = some "content_block_delta" then
    (event.2.dict? "delta").bind fun delta =>
      if delta.str? "type" = some "text_delta" then delta.str? "text" else none
  else none

/-- The blocks opened after a block. -/
def Blocks.after (blocks : Blocks) (index : Int) : Blocks := (blocks.dropWhile (·.1 ≠ index)).tail

/-- **A text finds its place**: a text block that receives a text has a text or none, and a text that is
not empty is for a text block with no text after it. -/
structure Receives (blocks : Blocks) (index : Option Int) (value : String) : Prop where
  text : ∀ block ∈ index.bind (blocks.lookup ·), block.str? "type" = some "text" → TextOrMissing block
  last : value ≠ "" → ∃ i ∈ index, ∃ block ∈ blocks.lookup i, block.str? "type" = some "text" ∧
    (blocks.after i).text = ""

def Addressed (normalizer : AnthropicStreamNormalizer) (event : Option String × PyDict) : Prop :=
  ∀ value ∈ delivers event, Receives normalizer.blocks (event.2.int? "index") value

section Decidable

variable (normalizer : AnthropicStreamNormalizer) (event : Option String × PyDict)

instance : Decidable (Orderly normalizer event) := inferInstanceAs (Decidable (∀ index ∈ _, _))

instance (blocks : Blocks) (index : Option Int) (value : String) :
    Decidable (Receives blocks index value) :=
  decidable_of_iff (_ ∧ _) ⟨fun h => ⟨h.1, h.2⟩, fun h => ⟨h.text, h.last⟩⟩

instance : Decidable (Addressed normalizer event) := inferInstanceAs (Decidable (∀ value ∈ _, _))

end Decidable

/-! ### The invariant -/

/-- No call is being filled. -/
def Settled (normalizer : AnthropicStreamNormalizer) (calls : List NativeToolCall) : Prop :=
  normalizer.toolCalls = [] ∧ Blocks.calls normalizer.blocks = calls

/-- The call of the last block is being filled. -/
structure Filling (normalizer : AnthropicStreamNormalizer) (calls : List NativeToolCall)
    (index : Int) (block : PyDict) (call : AnthropicCallState) : Prop where
  toolCalls : normalizer.toolCalls = [(index, call)]
  openBlock : index ∈ normalizer.openBlocks
  last : normalizer.blocks.getLast? = some (index, block)
  type : block.str? "type" = some "tool_use"
  id : block.str? "id" = some call.id
  name : block.str? "name" = some call.name
  calls : Blocks.calls normalizer.blocks.dropLast = calls

/-- **The accounts agree**: the blocks have the text and the calls that were emitted. -/
structure Accounts (normalizer : AnthropicStreamNormalizer) (text : String)
    (calls : List NativeToolCall) : Prop where
  nodup : (normalizer.blocks.map Prod.fst).Nodup
  text : Blocks.text normalizer.blocks = text
  calls : Settled normalizer calls ∨ ∃ index block call, Filling normalizer calls index block call

/-- Events that emit neither text nor calls. -/
def Silent (events : List NativeStreamEvent) : Prop := deltaText events = "" ∧ nativeCalls events = []

section Invariant

variable {normalizer next : AnthropicStreamNormalizer} {text : String} {calls : List NativeToolCall}

/-- An event that changes nothing the accounts are about. -/
theorem Accounts.of_silent (h : Accounts normalizer text calls)
    {events : List NativeStreamEvent} (hsilent : Silent events)
    (hblocks : next.blocks = normalizer.blocks) (htoolCalls : next.toolCalls = normalizer.toolCalls)
    (hopen : next.openBlocks = normalizer.openBlocks) :
    Accounts next (text ++ deltaText events) (calls ++ nativeCalls events) := by
  obtain ⟨htext, hcalls⟩ := hsilent
  rw [htext, hcalls, String.append_empty, List.append_nil]
  refine ⟨hblocks ▸ h.nodup, hblocks ▸ h.text, ?_⟩
  rcases h.calls with hsettled | ⟨index, block, call, hfilling⟩
  · exact Or.inl ⟨htoolCalls.trans hsettled.1, hblocks ▸ hsettled.2⟩
  · exact Or.inr ⟨index, block, call, htoolCalls.trans hfilling.toolCalls, hopen ▸ hfilling.openBlock,
      hblocks ▸ hfilling.last, hfilling.type, hfilling.id, hfilling.name, hblocks ▸ hfilling.calls⟩

/-- With no block open, no call is being filled. -/
theorem Accounts.settled (h : Accounts normalizer text calls) (hopen : normalizer.openBlocks = []) :
    Settled normalizer calls := by
  rcases h.calls with hsettled | ⟨index, block, call, hfilling⟩
  · exact hsettled
  · exact absurd (hopen ▸ hfilling.openBlock) List.not_mem_nil

/-- The call that is being filled is the only one. -/
theorem Filling.eq_of_lookup {last index : Int} {block : PyDict} {call callState : AnthropicCallState}
    (h : Filling normalizer calls last block call)
    (hlookup : normalizer.toolCalls.lookup index = some callState) : index = last ∧ callState = call := by
  rw [h.toolCalls, List.lookup_cons] at hlookup
  by_cases hindex : index = last
  · subst hindex
    simp only [beq_self_eq_true, Option.some.injEq] at hlookup
    exact ⟨rfl, hlookup.symm⟩
  · simp [beq_eq_false_iff_ne.mpr hindex] at hlookup

theorem silent_raw (event : Option String) (data : PyDict) :
    Silent [fromAnthropicStreamEvent event data] := ⟨rfl, rfl⟩

theorem silent_usageEvents (raw : String) (message : PyDict) :
    Silent (normalizer.usageEvents raw message) := by
  rw [usageEvents]
  split_ifs
  · exact ⟨rfl, rfl⟩
  · exact ⟨rfl, rfl⟩

theorem Silent.append {events more : List NativeStreamEvent} (h : Silent events) (hmore : Silent more) :
    Silent (events ++ more) := by
  rw [Silent, deltaText_append, nativeCalls_append, h.1, h.2, hmore.1, hmore.2]
  exact ⟨rfl, rfl⟩

/-! ### Event by event -/

theorem accounts_mapMessageStart (h : Accounts normalizer text calls) (raw : String) (data : PyDict) :
    Accounts (normalizer.mapMessageStart raw data).2
      (text ++ deltaText (normalizer.mapMessageStart raw data).1)
      (calls ++ nativeCalls (normalizer.mapMessageStart raw data).1) := by
  rw [mapMessageStart]
  cases data.dict? "message" with
  | none => exact h.of_silent (silent_raw _ _) rfl rfl rfl
  | some message =>
    refine h.of_silent ?_ rfl rfl rfl
    exact Silent.append (⟨rfl, rfl⟩ : Silent [_]) (silent_usageEvents raw message)

theorem accounts_mapMessageDelta (h : Accounts normalizer text calls) (raw : String) (data : PyDict) :
    Accounts (normalizer.mapMessageDelta raw data).2
      (text ++ deltaText (normalizer.mapMessageDelta raw data).1)
      (calls ++ nativeCalls (normalizer.mapMessageDelta raw data).1) := by
  have husage : Silent (normalizer.usageEvents raw data) := silent_usageEvents raw data
  simp only [mapMessageDelta]
  split_ifs with hreason hempty
  · exact h.of_silent (husage.append ⟨rfl, rfl⟩) rfl rfl rfl
  · exact h.of_silent (silent_raw _ _) rfl rfl rfl
  · exact h.of_silent husage rfl rfl rfl

/-- The text of a block with a call is none. -/
theorem blockText_of_toolUse {block : PyDict} (h : block.str? "type" = some "tool_use") :
    blockText block = none := by
  rw [blockText, h]
  rfl

theorem toolCall_of_type_ne {block : PyDict} (h : block.str? "type" ≠ some "tool_use") :
    toolCallFromAnthropicContent block = none := by
  rw [toolCallFromAnthropicContent, if_pos h]

/-- **A block is opened.** -/
theorem accounts_openBlock (h : Accounts normalizer text calls) (py : PyJson.PythonText) (raw : String)
    (data : PyDict) {index : Int} (block : PyDict) (hindex : index ∉ normalizer.blocks.map Prod.fst)
    (hopen : normalizer.openBlocks = []) :
    Accounts (normalizer.openBlock py raw data index block).2
      (text ++ deltaText (normalizer.openBlock py raw data index block).1)
      (calls ++ nativeCalls (normalizer.openBlock py raw data index block).1) := by
  have hsettled : Settled normalizer calls := h.settled hopen
  have hblocks : modify [] index (fun _ => block) normalizer.blocks = normalizer.blocks ++ [(index, block)] :=
    modify_of_not_mem hindex
  have hnodup : ((normalizer.blocks ++ [(index, block)]).map Prod.fst).Nodup := by
    rw [← hblocks]
    exact nodup_keys_modify h.nodup
  have htext : Blocks.text (normalizer.blocks ++ [(index, block)]) = text ++ (blockText block).getD "" := by
    rw [Blocks.text_append, h.text, Blocks.text_cons]
    exact congrArg (text ++ ·) String.append_empty
  simp only [openBlock, hblocks, hopen]
  by_cases htype : block.str? "type" = some "tool_use"
  · rw [if_neg (not_not.mpr htype)]
    rw [blockText_of_toolUse htype, Option.getD_none, String.append_empty] at htext
    cases hid : block.str? "id" with
    | none =>
      have hcall : toolCallFromAnthropicContent block = none := by
        rw [toolCallFromAnthropicContent, if_neg (not_not.mpr htype), hid]
        rfl
      refine ⟨hnodup, htext.trans String.append_empty.symm, Or.inl ⟨hsettled.1, ?_⟩⟩
      rw [Blocks.calls_append, Blocks.calls_singleton, hcall, hsettled.2]
      rfl
    | some id =>
      cases hname : block.str? "name" with
      | none =>
        have hcall : toolCallFromAnthropicContent block = none := by
          simp [toolCallFromAnthropicContent, htype, hname]
        refine ⟨hnodup, htext.trans String.append_empty.symm, Or.inl ⟨hsettled.1, ?_⟩⟩
        rw [Blocks.calls_append, Blocks.calls_singleton, hcall, hsettled.2]
        rfl
      | some name =>
        let input := (block.dict? "input").getD []
        let call : AnthropicCallState :=
          ⟨id, name, if input.isEmpty then "" else PyJson.dumps py.reprFloat (.dict input)⟩
        refine ⟨hnodup, htext.trans String.append_empty.symm, Or.inr ⟨index, block, call, ?_⟩⟩
        refine ⟨?_, ?_, List.getLast?_concat, htype, hid, hname, ?_⟩
        · rw [hsettled.1]
          rfl
        · exact (List.mem_singleton.mpr rfl : index ∈ [index])
        · rw [List.dropLast_concat, hsettled.2]
          exact (List.append_nil calls).symm
  · have hcall := toolCall_of_type_ne htype
    have hcalls : Blocks.calls (normalizer.blocks ++ [(index, block)]) = calls := by
      rw [Blocks.calls_append, Blocks.calls_singleton, hcall, hsettled.2]
      exact List.append_nil calls
    rw [if_pos htype]
    by_cases hempty : (blockText block).getD "" = ""
    · rw [if_neg (not_not.mpr hempty)]
      rw [hempty] at htext
      exact ⟨hnodup, htext, Or.inl ⟨hsettled.1, hcalls.trans (List.append_nil calls).symm⟩⟩
    · rw [if_pos hempty]
      refine ⟨hnodup, htext.trans ?_, Or.inl ⟨hsettled.1, hcalls.trans (List.append_nil calls).symm⟩⟩
      exact congrArg (text ++ ·) String.empty_append.symm

/-- What a delta does to the blocks. -/
theorem fillBlock_cases (py : PyJson.PythonText) (data delta : PyDict) :
    (normalizer.fillBlock py data delta = normalizer ∧
      ∀ index field value, data.int? "index" = some index → deltaField (delta.str? "type") = some field →
        delta.str? field = some value → normalizer.blocks.lookup index = none) ∨
    ∃ index field value, data.int? "index" = some index ∧ deltaField (delta.str? "type") = some field ∧
      delta.str? field = some value ∧ index ∈ normalizer.blocks.map Prod.fst ∧
      normalizer.fillBlock py data delta =
        { normalizer with blocks := modify [] index (addToField py field value) normalizer.blocks } := by
  rw [fillBlock]
  cases hindex : data.int? "index" with
  | none => exact Or.inl ⟨rfl, by simp⟩
  | some index =>
    cases hfield : deltaField (delta.str? "type") with
    | none => exact Or.inl ⟨rfl, by simp⟩
    | some field =>
      cases hvalue : delta.str? field with
      | none =>
        refine Or.inl ⟨by simp [hvalue], ?_⟩
        rintro _ _ value - ⟨rfl⟩ hsome
        exact absurd (hvalue.symm.trans hsome) (Option.some_ne_none value).symm
      | some value =>
        by_cases hblock : (normalizer.blocks.lookup index).isSome
        · refine Or.inr ⟨index, field, value, rfl, rfl, hvalue, mem_keys_iff.mpr hblock, ?_⟩
          simp only [hvalue]
          rw [if_pos hblock]
        · refine Or.inl ⟨by simp [hvalue, hblock], ?_⟩
          rintro _ _ _ ⟨rfl⟩ - -
          exact Option.not_isSome_iff_eq_none.mp hblock

theorem Blocks.after_append_cons {before after : Blocks} {index : Int} {block : PyDict}
    (h : index ∉ before.map Prod.fst) : Blocks.after (before ++ (index, block) :: after) index = after := by
  have hbefore : ∀ entry ∈ before, decide (entry.1 ≠ index) = true := by
    intro entry hentry
    exact decide_eq_true fun heq => h (List.mem_map.mpr ⟨entry, hentry, heq⟩)
  rw [Blocks.after, List.dropWhile_append_of_pos hbefore, List.dropWhile_cons_of_neg (by simp), List.tail_cons]

/-- The text of a block that grows by `value`, with no text after it. -/
theorem text_modify {before after : Blocks} {index : Int} {block : PyDict} {f : PyDict → PyDict}
    {value : String} (hindex : index ∉ before.map Prod.fst)
    (hblock : (blockText (f block)).getD "" = (blockText block).getD "" ++ value)
    (hafter : value = "" ∨ Blocks.text after = "") :
    Blocks.text (modify [] index f (before ++ (index, block) :: after)) =
      Blocks.text (before ++ (index, block) :: after) ++ value := by
  rw [modify_append_cons hindex, Blocks.text_append, Blocks.text_append, Blocks.text_cons,
    Blocks.text_cons, hblock]
  rcases hafter with rfl | hafter
  · simp only [String.append_empty]
  · rw [hafter]
    simp only [String.append_empty, String.append_assoc]

/-- **A delta of a block** leaves its call. -/
theorem accounts_fill (h : Accounts normalizer text calls) {py : PyJson.PythonText} {index : Int}
    {deltaType : Option String} {field value : String} {newText : String}
    (hfield : deltaField deltaType = some field) (hindex : index ∈ normalizer.blocks.map Prod.fst)
    (htext : Blocks.text (modify [] index (addToField py field value) normalizer.blocks) = newText) :
    Accounts { normalizer with blocks := modify [] index (addToField py field value) normalizer.blocks }
      newText calls := by
  let change : Int → PyDict → PyDict := fun key block =>
    if key = index then addToField py field value block else block
  have hchange : ∀ key block, SameCall block (change key block) := by
    intro key block
    by_cases hkey : key = index
    · simp only [change, if_pos hkey]
      exact sameCall_addToField hfield
    · simp only [change, if_neg hkey]
      exact SameCall.refl block
  have hmap : modify [] index (addToField py field value) normalizer.blocks =
      normalizer.blocks.map fun entry => (entry.1, change entry.1 entry.2) :=
    modify_eq_map h.nodup hindex
  have hcalls : ∀ blocks : Blocks, Blocks.calls (blocks.map fun entry => (entry.1, change entry.1 entry.2)) =
      Blocks.calls blocks := by
    intro blocks
    rw [Blocks.calls, List.filterMap_map]
    exact List.filterMap_congr fun entry _ => (hchange entry.1 entry.2).toolCall_eq
  refine ⟨nodup_keys_modify h.nodup, htext, ?_⟩
  rcases h.calls with hsettled | ⟨last, block, call, hfilling⟩
  · refine Or.inl ⟨hsettled.1, ?_⟩
    change Blocks.calls (modify [] index (addToField py field value) normalizer.blocks) = calls
    rw [hmap, hcalls, hsettled.2]
  · refine Or.inr ⟨last, change last block, call, hfilling.toolCalls, hfilling.openBlock, ?_,
      (hchange last block).type.trans hfilling.type, (hchange last block).id.trans hfilling.id,
      (hchange last block).name.trans hfilling.name, ?_⟩
    · change (modify [] index (addToField py field value) normalizer.blocks).getLast? = _
      rw [hmap, List.getLast?_map, hfilling.last]
      rfl
    · change Blocks.calls (modify [] index (addToField py field value) normalizer.blocks).dropLast = calls
      rw [hmap, ← List.map_dropLast, hcalls, hfilling.calls]

/-- **The text of a block.** -/
theorem accounts_fillBlock_text (h : Accounts normalizer text calls) (py : PyJson.PythonText)
    {data delta : PyDict} {value : String} (htype : delta.str? "type" = some "text_delta")
    (hvalue : delta.str? "text" = some value)
    (hreceives : Receives normalizer.blocks (data.int? "index") value) :
    Accounts (normalizer.fillBlock py data delta) (text ++ value) calls := by
  have hfield : deltaField (delta.str? "type") = some "text" := by rw [htype]; rfl
  rcases @fillBlock_cases normalizer py data delta with
    ⟨hsame, hnone⟩ | ⟨index, field, value', hindex, hfield', hvalue', hmem, hfill⟩
  · -- without a block there is no place for a text
    have hempty : value = "" := by
      by_contra hne
      obtain ⟨i, hindex, block, hlookup, -⟩ := hreceives.last hne
      have hmissing : normalizer.blocks.lookup i = none := hnone i "text" value hindex hfield hvalue
      exact absurd (hmissing.symm.trans hlookup) (Option.some_ne_none block).symm
    rw [hsame, hempty, String.append_empty]
    exact h
  · obtain rfl : "text" = field := Option.some.inj (hfield.symm.trans hfield')
    obtain rfl : value = value' := Option.some.inj (hvalue.symm.trans hvalue')
    rw [hfill]
    refine accounts_fill h hfield hmem ?_
    have hgrows : ∀ block, normalizer.blocks.lookup index = some block →
        (block.str? "type" = some "text" ∨ value = "") →
        (blockText (addToField py "text" value block)).getD "" = (blockText block).getD "" ++ value := by
      intro block hlookup hplace
      by_cases hblock : block.str? "type" = some "text"
      · have hmem : block ∈ (data.int? "index").bind (normalizer.blocks.lookup ·) := by
          rw [hindex]
          exact hlookup
        exact blockText_addToField hblock (hreceives.text block hmem hblock)
      · rw [blockText_addToField_of_type_ne (by decide) hblock, hplace.resolve_left hblock,
          String.append_empty]
    by_cases hempty : value = ""
    · obtain ⟨block, hlookup⟩ := Option.isSome_iff_exists.mp (mem_keys_iff.mp hmem)
      obtain ⟨before, after, hblocks, hbefore⟩ := exists_split_of_lookup hlookup
      rw [hblocks, text_modify hbefore (hgrows block hlookup (Or.inr hempty)) (Or.inl hempty), ← hblocks,
        h.text]
    · obtain ⟨i, hi, block, hlookup, hblock, hafter⟩ := hreceives.last hempty
      obtain rfl : index = i := Option.some.inj (hindex.symm.trans hi)
      obtain ⟨before, after, hblocks, hbefore⟩ := exists_split_of_lookup hlookup
      rw [hblocks, Blocks.after_append_cons hbefore] at hafter
      rw [hblocks, text_modify hbefore (hgrows block hlookup (Or.inl hblock)) (Or.inr hafter), ← hblocks,
        h.text]

/-- A delta of anything else leaves the text. -/
theorem accounts_fillBlock_other (h : Accounts normalizer text calls) (py : PyJson.PythonText)
    (data : PyDict) {delta : PyDict}
    (htype : delta.str? "type" = some "text_delta" → delta.str? "text" = none) :
    Accounts (normalizer.fillBlock py data delta) text calls := by
  rcases @fillBlock_cases normalizer py data delta with
    ⟨hsame, -⟩ | ⟨index, field, value, hindex, hfield, hvalue, hmem, hfill⟩
  · rw [hsame]
    exact h
  · have htext : "text" ≠ field := by
      rintro rfl
      have hdelta : delta.str? "type" = some "text_delta" := by
        by_contra hne
        rw [deltaField, if_neg hne] at hfield
        split_ifs at hfield <;> exact absurd hfield (by decide)
      exact absurd ((htype hdelta).symm.trans hvalue) (Option.some_ne_none value).symm
    obtain ⟨block, hlookup⟩ := Option.isSome_iff_exists.mp (mem_keys_iff.mp hmem)
    obtain ⟨before, after, hblocks, hbefore⟩ := exists_split_of_lookup hlookup
    have hblock : (blockText (addToField py field value block)).getD "" = (blockText block).getD "" ++ "" := by
      rw [blockText_addToField_of_ne (ne_of_deltaField hfield).1.symm htext, String.append_empty]
    rw [hfill]
    refine accounts_fill h hfield hmem ?_
    rw [hblocks, text_modify hbefore hblock (Or.inl rfl), ← hblocks, h.text, String.append_empty]

/-- The arguments of the call that is being filled. -/
theorem accounts_addArguments (h : Accounts normalizer text calls) (raw : String) (data : PyDict)
    (index : Int) (partialJson : String) :
    Accounts (normalizer.addArguments raw data index partialJson).2
      (text ++ deltaText (normalizer.addArguments raw data index partialJson).1)
      (calls ++ nativeCalls (normalizer.addArguments raw data index partialJson).1) := by
  rw [addArguments]
  cases hlookup : normalizer.toolCalls.lookup index with
  | none => exact h.of_silent (silent_raw _ _) rfl rfl rfl
  | some callState =>
    refine ⟨h.nodup, h.text.trans String.append_empty.symm, ?_⟩
    have hsilent : ∀ last : NativeStreamEvent, last.eventType = .toolCallDelta →
        calls ++ nativeCalls [last] = calls := by
      intro last hlast
      rw [nativeCalls, List.filterMap_cons, hlast]
      exact List.append_nil calls
    rw [hsilent _ rfl]
    rcases h.calls with hsettled | ⟨last, block, call, hfilling⟩
    · rw [hsettled.1] at hlookup
      exact absurd hlookup (Option.some_ne_none callState).symm
    · obtain ⟨rfl, rfl⟩ := hfilling.eq_of_lookup hlookup
      refine Or.inr ⟨index, block, { callState with arguments := callState.arguments ++ partialJson },
        ?_, hfilling.openBlock, hfilling.last, hfilling.type, hfilling.id, hfilling.name, hfilling.calls⟩
      simp only [hfilling.toolCalls]
      rw [KeyedFold.modify, if_pos rfl]

/-- **A delta.** -/
theorem accounts_mapContentBlockDelta (h : Accounts normalizer text calls) (py : PyJson.PythonText)
    (raw : String) (data : PyDict)
    (haddressed : ∀ delta ∈ data.dict? "delta", delta.str? "type" = some "text_delta" →
      ∀ value ∈ delta.str? "text", Receives normalizer.blocks (data.int? "index") value) :
    Accounts (normalizer.mapContentBlockDelta py raw data).2
      (text ++ deltaText (normalizer.mapContentBlockDelta py raw data).1)
      (calls ++ nativeCalls (normalizer.mapContentBlockDelta py raw data).1) := by
  rw [mapContentBlockDelta]
  cases hdelta : data.dict? "delta" with
  | none => exact h.of_silent (silent_raw _ _) rfl rfl rfl
  | some delta =>
    by_cases htype : delta.str? "type" = some "text_delta"
    · simp only [if_pos htype]
      cases hvalue : delta.str? "text" with
      | none =>
        have hfill := accounts_fillBlock_other h py data (fun _ => hvalue)
        exact hfill.of_silent ⟨rfl, rfl⟩ rfl rfl rfl
      | some value =>
        have hfill := accounts_fillBlock_text h py htype hvalue (haddressed delta hdelta htype value hvalue)
        rw [Option.getD_some]
        by_cases hempty : value = ""
        · rw [if_pos hempty]
          rw [hempty, String.append_empty] at hfill
          exact hfill.of_silent ⟨rfl, rfl⟩ rfl rfl rfl
        · rw [if_neg hempty]
          refine ⟨hfill.nodup, hfill.text.trans ?_, ?_⟩
          · exact congrArg (text ++ ·) String.empty_append.symm
          · exact (List.append_nil calls).symm ▸ hfill.calls
    · have hfill := accounts_fillBlock_other h py data (fun htext => absurd htext htype)
      simp only [if_neg htype]
      split_ifs with hinput
      · cases data.int? "index" with
        | none => exact hfill.of_silent ⟨rfl, rfl⟩ rfl rfl rfl
        | some index =>
          cases delta.str? "partial_json" with
          | none => exact hfill.of_silent ⟨rfl, rfl⟩ rfl rfl rfl
          | some partialJson => exact accounts_addArguments hfill raw data index partialJson
      · exact hfill.of_silent (silent_raw _ _) rfl rfl rfl

/-- A call whose arguments were read. -/
theorem toolCallFromAnthropicState_eq_some {loads : String → Option PyJson} {call : AnthropicCallState}
    {toolCall : NativeToolCall} (h : toolCallFromAnthropicState loads call = some toolCall) :
    call.id ≠ "" ∧ call.name ≠ "" ∧ ∃ arguments,
      toolCall = { toolCallId := call.id, name := call.name, arguments := .dict arguments } := by
  rw [toolCallFromAnthropicState] at h
  split_ifs at h with hid hname
  all_goals
    obtain ⟨arguments, -, rfl⟩ := Option.map_eq_some_iff.mp h
    exact ⟨hid, hname, arguments, rfl⟩

/-- **A call is completed** with the arguments that its block gets. -/
theorem toolCall_of_input {block : PyDict} {call : AnthropicCallState} {arguments : PyDict}
    (htype : block.str? "type" = some "tool_use") (hid : block.str? "id" = some call.id)
    (hname : block.str? "name" = some call.name) (hne : call.id ≠ "" ∧ call.name ≠ "") :
    toolCallFromAnthropicContent (modify .null "input" (fun _ => .dict arguments) block) =
      some { toolCallId := call.id, name := call.name, arguments := .dict arguments } := by
  have hkept : ∀ key, key ≠ "input" →
      PyDict.str? (modify .null "input" (fun _ => .dict arguments) block) key = block.str? key := by
    intro key hkey
    rw [PyDict.str?, lookup_modify, if_neg hkey]
    rfl
  have hinput : PyDict.dict? (modify .null "input" (fun _ => .dict arguments) block) "input" =
      some arguments := by
    rw [PyDict.dict?, lookup_modify, if_pos rfl]
    rfl
  rw [toolCallFromAnthropicContent, hkept "type" (by decide), hkept "id" (by decide),
    hkept "name" (by decide), htype, hid, hname, hinput]
  simp [hne.1, hne.2]

/-- **A block is closed.** -/
theorem accounts_mapContentBlockStop (h : Accounts normalizer text calls) {loads : String → Option PyJson}
    {raw : String} {data : PyDict} {mapped : List NativeStreamEvent × AnthropicStreamNormalizer}
    (hmapped : normalizer.mapContentBlockStop loads raw data = .ok mapped) :
    Accounts mapped.2 (text ++ deltaText mapped.1) (calls ++ nativeCalls mapped.1) := by
  rw [mapContentBlockStop] at hmapped
  cases hindex : data.int? "index" with
  | none =>
    rw [hindex] at hmapped
    obtain rfl := Except.ok.inj hmapped
    exact h.of_silent (silent_raw _ _) rfl rfl rfl
  | some index =>
    simp only [hindex] at hmapped
    cases hlookup : normalizer.toolCalls.lookup index with
    | none =>
      simp only [hlookup] at hmapped
      obtain rfl := Except.ok.inj hmapped
      refine ⟨h.nodup, h.text.trans String.append_empty.symm, ?_⟩
      rw [show calls ++ nativeCalls [] = calls from List.append_nil calls]
      rcases h.calls with hsettled | ⟨last, block, call, hfilling⟩
      · exact Or.inl ⟨by simp only [hsettled.1, List.filter_nil], hsettled.2⟩
      · have hne : last ≠ index := by
          rintro rfl
          rw [hfilling.toolCalls] at hlookup
          simp at hlookup
        refine Or.inr ⟨last, block, call, ?_, ?_, hfilling.last, hfilling.type, hfilling.id,
          hfilling.name, hfilling.calls⟩
        · simp only [hfilling.toolCalls]
          exact List.filter_cons_of_pos (decide_eq_true hne)
        · exact List.mem_filter.mpr ⟨hfilling.openBlock, decide_eq_true hne⟩
    | some callState =>
      simp only [hlookup] at hmapped
      cases hcall : toolCallFromAnthropicState loads callState with
      | none =>
        rw [hcall] at hmapped
        exact absurd hmapped (by simp)
      | some toolCall =>
        rw [hcall] at hmapped
        obtain rfl := Except.ok.inj hmapped
        rcases h.calls with hsettled | ⟨last, block, call, hfilling⟩
        · rw [hsettled.1] at hlookup
          exact absurd hlookup (Option.some_ne_none callState).symm
        · obtain ⟨rfl, rfl⟩ := hfilling.eq_of_lookup hlookup
          obtain ⟨hid, hname, arguments, rfl⟩ := toolCallFromAnthropicState_eq_some hcall
          have hblocks : normalizer.blocks = normalizer.blocks.dropLast ++ [(index, block)] :=
            (List.dropLast_append_getLast? _ hfilling.last).symm
          have hfresh : index ∉ normalizer.blocks.dropLast.map Prod.fst := by
            have hnodup := h.nodup
            rw [hblocks, List.map_append, List.nodup_append] at hnodup
            exact fun hmem => hnodup.2.2 index hmem index (List.mem_singleton.mpr rfl) rfl
          let filled : PyDict := modify .null "input" (fun _ => .dict arguments) block
          have hmodify : modify [] index (modify .null "input" fun _ => .dict arguments) normalizer.blocks =
              normalizer.blocks.dropLast ++ [(index, filled)] := by
            conv_lhs => rw [hblocks, modify_append_cons hfresh]
          have hfilled : toolCallFromAnthropicContent filled =
              some { toolCallId := callState.id, name := callState.name, arguments := .dict arguments } :=
            toolCall_of_input hfilling.type hfilling.id hfilling.name ⟨hid, hname⟩
          have htype : filled.str? "type" = some "tool_use" := by
            rw [PyDict.str?, lookup_modify, if_neg (by decide), ← hfilling.type]
            rfl
          refine ⟨nodup_keys_modify h.nodup, ?_, Or.inl ⟨?_, ?_⟩⟩
          · change Blocks.text (modify [] index (modify .null "input" fun _ => .dict arguments)
              normalizer.blocks) = text ++ ""
            rw [hmodify, Blocks.text_append, Blocks.text_cons, blockText_of_toolUse htype, ← h.text]
            conv_rhs => rw [hblocks, Blocks.text_append, Blocks.text_cons,
              blockText_of_toolUse hfilling.type, String.append_empty]
          · simp [hfilling.toolCalls]
          · change Blocks.calls (modify [] index (modify .null "input" fun _ => .dict arguments)
              normalizer.blocks) = _
            rw [hmodify, Blocks.calls_append, Blocks.calls_singleton, hfilled, hfilling.calls]
            rfl

end Invariant

/-! ### The stream -/

/-- A normalizer, and the events it has emitted. -/
structure AnthropicStream where
  normalizer : AnthropicStreamNormalizer := {}
  emitted : List NativeStreamEvent := []

namespace AnthropicStream

variable (loads : String → Option PyJson) (py : PyJson.PythonText)

/-- One event of the provider; none when it is not accepted. -/
def step (stream : AnthropicStream) (event : Option String × PyDict) : Option AnthropicStream :=
  match stream.normalizer.mapEvent loads py event.1 event.2 with
  | .ok (events, normalizer) => some { normalizer, emitted := stream.emitted ++ events }
  | .error _ => none

/-- An event opens its blocks in order, and its text finds its place. -/
def Good (stream : AnthropicStream) (event : Option String × PyDict) : Prop :=
  Orderly stream.normalizer event ∧ Addressed stream.normalizer event

instance (stream : AnthropicStream) (event : Option String × PyDict) : Decidable (Good stream event) :=
  inferInstanceAs (Decidable (_ ∧ _))

/-- The message stops: the completed message. -/
def Stops (stream : AnthropicStream) (event : Option String × PyDict) (message : NativeMessage) : Prop :=
  (rawEvent event.1 event.2).str? = some "message_stop" ∧
    ∃ completed normalizer, completed.message = some message ∧
      stream.normalizer.mapEvent loads py event.1 event.2 = .ok ([completed], normalizer)

variable {loads py} {stream : AnthropicStream} {event : Option String × PyDict}

/-- The accounts of a stream. -/
def Agrees (stream : AnthropicStream) : Prop :=
  Accounts stream.normalizer (deltaText stream.emitted) (nativeCalls stream.emitted)

theorem agrees_init : Agrees {} := ⟨List.nodup_nil, rfl, Or.inl ⟨rfl, rfl⟩⟩

theorem mapMessageStop_eq_ok {normalizer : AnthropicStreamNormalizer} {raw : String}
    {mapped : List NativeStreamEvent × AnthropicStreamNormalizer}
    (h : normalizer.mapMessageStop raw = .ok mapped) :
    normalizer.openBlocks = [] ∧ ∃ completed,
      mapped = ([completed], { normalizer with isComplete := true }) ∧
      completed.eventType = .messageCompleted ∧ completed.textDelta = none ∧
      completed.message = some (.ofContent (Blocks.text normalizer.blocks) (Blocks.calls normalizer.blocks)
        (Blocks.content normalizer.blocks)) := by
  rw [mapMessageStop] at h
  split_ifs at h with hincomplete
  rw [not_or, not_not] at hincomplete
  obtain ⟨response, hresponse, hmapped⟩ := exists_of_bind_eq_ok h
  have hmessage : response.message = .ofContent (Blocks.text normalizer.blocks)
      (Blocks.calls normalizer.blocks) (Blocks.content normalizer.blocks) := by
    rw [← contentText_content, ← contentCalls_content]
    simp only [fromAnthropicResponse] at hresponse
    split at hresponse
    · exact absurd hresponse (by simp)
    · rename_i content hcontent
      obtain rfl : content = Blocks.content normalizer.blocks := by
        simpa [PyDict.list?, List.lookup_cons, PyJson.list?, Blocks.content] using hcontent.symm
      split at hresponse
      · exact absurd hresponse (by simp)
      · obtain ⟨responseId, -, hresponse⟩ := exists_of_bind_eq_ok hresponse
        obtain ⟨finishReason, -, hresponse⟩ := exists_of_bind_eq_ok hresponse
        rw [← Except.ok.inj hresponse]
  refine ⟨hincomplete.1, _, (Except.ok.inj hmapped).symm, rfl, rfl, ?_⟩
  rw [hmessage]

/-- A block that is opened in its turn. -/
theorem accounts_mapContentBlockStart {normalizer : AnthropicStreamNormalizer} {text : String}
    {calls : List NativeToolCall} (h : Accounts normalizer text calls) {data : PyDict}
    (horderly : ∀ block ∈ data.dict? "content_block", ∀ index ∈ data.int? "index",
      index ∉ normalizer.blocks.map Prod.fst ∧ normalizer.openBlocks = []) (raw : String) :
    Accounts (normalizer.mapContentBlockStart py raw data).2
      (text ++ deltaText (normalizer.mapContentBlockStart py raw data).1)
      (calls ++ nativeCalls (normalizer.mapContentBlockStart py raw data).1) := by
  rw [mapContentBlockStart]
  cases hindex : data.int? "index" with
  | none => exact h.of_silent (silent_raw _ _) rfl rfl rfl
  | some index =>
    cases hblock : data.dict? "content_block" with
    | none => exact h.of_silent (silent_raw _ _) rfl rfl rfl
    | some block =>
      obtain ⟨hfresh, hopen⟩ := horderly block hblock index hindex
      exact accounts_openBlock h py raw data block hfresh hopen

/-- **Event by event.** -/
theorem accounts_mapEvent {normalizer : AnthropicStreamNormalizer} {text : String}
    {calls : List NativeToolCall} (h : Accounts normalizer text calls)
    (horderly : Orderly normalizer event) (haddressed : Addressed normalizer event)
    {mapped : List NativeStreamEvent × AnthropicStreamNormalizer}
    (hmapped : normalizer.mapEvent loads py event.1 event.2 = .ok mapped) :
    Accounts mapped.2 (text ++ deltaText mapped.1) (calls ++ nativeCalls mapped.1) := by
  rw [mapEvent] at hmapped
  split at hmapped
  · rename_i raw hraw
    have hstr : (rawEvent event.1 event.2).str? = some raw := by rw [hraw]; rfl
    split_ifs at hmapped with hstart hopen hdelta hclose hend herror hstop
    · obtain rfl := Except.ok.inj hmapped
      exact accounts_mapMessageStart h raw event.2
    · obtain rfl := Except.ok.inj hmapped
      refine accounts_mapContentBlockStart h (fun block hblock index hindex => ?_) raw
      have hopens : opens event = event.2.int? "index" :=
        if_pos ⟨by rw [hstr, hopen], Option.isSome_iff_exists.mpr ⟨block, hblock⟩⟩
      exact horderly index (hopens ▸ hindex)
    · obtain rfl := Except.ok.inj hmapped
      refine accounts_mapContentBlockDelta h py raw event.2 fun delta hd htype value hvalue => ?_
      have hdelivers : delivers event = delta.str? "text" := by
        rw [delivers, if_pos (by rw [hstr, hdelta]), show event.2.dict? "delta" = some delta from hd]
        exact if_pos htype
      exact haddressed value (hdelivers ▸ hvalue)
    · exact accounts_mapContentBlockStop h hmapped
    · obtain rfl := Except.ok.inj hmapped
      exact accounts_mapMessageDelta h raw event.2
    · obtain rfl := Except.ok.inj hmapped
      exact h.of_silent ⟨rfl, rfl⟩ rfl rfl rfl
    · obtain ⟨-, completed, rfl, htype, htext, -⟩ := mapMessageStop_eq_ok hmapped
      have hsilent : Silent [completed] := by
        constructor
        · simp [deltaText, htext]
        · simp [nativeCalls, htype]
      exact h.of_silent hsilent rfl rfl rfl
    · obtain rfl := Except.ok.inj hmapped
      exact h.of_silent (silent_raw _ _) rfl rfl rfl
  · obtain rfl := Except.ok.inj hmapped
    exact h.of_silent (silent_raw _ _) rfl rfl rfl

/-- A good event keeps the accounts. -/
theorem agrees_step {next : AnthropicStream} (h : Agrees stream) (hgood : Good stream event)
    (hstep : step loads py stream event = some next) : Agrees next := by
  rw [step] at hstep
  split at hstep
  · rename_i events normalizer hmapped
    obtain rfl := Option.some.inj hstep
    rw [Agrees, deltaText_append, nativeCalls_append]
    exact accounts_mapEvent h hgood.1 hgood.2 hmapped
  · exact absurd hstep (Option.some_ne_none next).symm

/-- **What a message keeps is what it says.** -/
theorem messageContent_ofContent (blocks : Blocks) :
    messageContent (.ofContent blocks.text blocks.calls blocks.content) = .ok blocks.content := by
  have hobjects : blocks.content.any (·.dict?.isNone) = false := by
    rw [Blocks.content, List.any_map, List.any_eq_false]
    intro entry _ hnone
    exact absurd hnone (by simp [PyJson.dict?])
  have hsame : ¬(contentText blocks.content ≠ blocks.text ∨ contentCalls blocks.content != blocks.calls) := by
    have hcalls : (blocks.calls != blocks.calls) = false := by rw [bne, BEq.rfl, Bool.not_true]
    rw [contentText_content, contentCalls_content, not_or, not_not, hcalls]
    exact ⟨rfl, Bool.false_ne_true⟩
  have hvalid : validatePreservedContent (.ofContent blocks.text blocks.calls blocks.content)
      blocks.content = .ok () := by
    rw [validatePreservedContent, hobjects, NativeMessage.textContent_ofContent,
      NativeMessage.calls_ofContent, if_neg Bool.false_ne_true, if_neg hsame]
  rw [messageContent, NativeMessage.native_ofContent, hvalid]
  rfl

/-- **Round trip.** When the blocks of a stream are opened one after the other and every text finds its
place, the message it completes has the text and the calls the stream has emitted, is accepted when it
is sent back, and is sent with the same text and calls. -/
theorem anthropicStream_roundTrip {events : List (Option String × PyDict)} {message : NativeMessage}
    (hrun : TransitionSystem.run (step loads py) {} events = some stream)
    (hgood : TransitionSystem.Along (step loads py) Good {} events)
    (hstop : stream.Stops loads py event message) :
    message.textContent = deltaText stream.emitted ∧ message.calls = nativeCalls stream.emitted ∧
      ∃ content, messageContent message = .ok content ∧ contentText content = deltaText stream.emitted ∧
        contentCalls content = nativeCalls stream.emitted := by
  have hagrees : Agrees stream := TransitionSystem.run_invariant_of_along
    (fun _ _ _ h hgood hstep => agrees_step h hgood hstep) agrees_init hrun hgood
  obtain ⟨hraw, completed, normalizer, hmessage, hmapped⟩ := hstop
  rw [mapEvent, PyJson.str?_eq_some.mp hraw] at hmapped
  by_cases herror : event.2.str? "type" = some "error"
  · -- an event of type error completes nothing
    simp [herror] at hmapped
    rw [← hmapped.1] at hmessage
    exact absurd hmessage (by simp [errorEvent])
  · simp [herror] at hmapped
    obtain ⟨hopen, completed', hcompleted, -, -, hmessage'⟩ := mapMessageStop_eq_ok hmapped
    obtain rfl : completed = completed' := by simpa using congrArg (·.1) hcompleted
    obtain rfl := Option.some.inj (hmessage.symm.trans hmessage')
    have hsettled := Accounts.settled hagrees hopen
    rw [NativeMessage.textContent_ofContent, NativeMessage.calls_ofContent]
    exact ⟨hagrees.text, hsettled.2, _, messageContent_ofContent _,
      (contentText_content _).trans hagrees.text, (contentCalls_content _).trans hsettled.2⟩

/-! ### Streams that lose their text -/

/-- A message with one block, filled by two deltas. -/
private def greeting (block : PyDict) : List (Option String × PyDict) := [
  (some "message_start", [("message", .dict [("id", .str "m"), ("model", .str "claude")])]),
  (some "content_block_start", [("index", .int 0), ("content_block", .dict block)]),
  (some "content_block_delta", [("index", .int 0),
    ("delta", .dict [("type", .str "text_delta"), ("text", .str "Hello")])]),
  (some "content_block_stop", [("index", .int 0)]),
  (some "content_block_start", [("index", .int 1), ("content_block", .dict [("type", .str "tool_use"),
    ("id", .str "t"), ("name", .str "clock"), ("input", .dict [])])]),
  (some "content_block_stop", [("index", .int 1)]),
  (some "message_delta", [("delta", .dict [("stop_reason", .str "tool_use")])])]

private def plainPython : PyJson.PythonText := ⟨fun _ => "0.0", id⟩

theorem anthropicStream_roundTrip_greeting :
    let block : PyDict := [("type", .str "text"), ("text", .str "")]
    ∃ stream message, TransitionSystem.run (step (fun _ => none) plainPython) {} (greeting block) = some stream ∧
      stream.Stops (fun _ => none) plainPython (some "message_stop", []) message ∧
      message.textContent = deltaText stream.emitted ∧ message.calls = nativeCalls stream.emitted ∧
      ∃ content, messageContent message = .ok content ∧ contentText content = deltaText stream.emitted ∧
        contentCalls content = nativeCalls stream.emitted := by
  intro block
  obtain ⟨stream, hrun⟩ : ∃ stream, TransitionSystem.run (step (fun _ => none) plainPython) {}
      (greeting block) = some stream := ⟨_, rfl⟩
  obtain ⟨message, hstop⟩ : ∃ message,
      stream.Stops (fun _ => none) plainPython (some "message_stop", []) message := by
    obtain rfl := Option.some.inj hrun
    exact ⟨_, rfl, _, _, rfl, rfl⟩
  exact ⟨stream, message, hrun, hstop, anthropicStream_roundTrip hrun (by decide +kernel) hstop⟩

/-- **The text of a block may be null**: the first delta then finds the text `None`. -/
theorem anthropicStream_ne_null :
    let block : PyDict := [("type", .str "text"), ("text", .null)]
    ∃ stream message, TransitionSystem.run (step (fun _ => none) plainPython) {} (greeting block) = some stream ∧
      TransitionSystem.Along (step (fun _ => none) plainPython)
        (fun stream event => Orderly stream.normalizer event) {} (greeting block) ∧
      stream.Stops (fun _ => none) plainPython (some "message_stop", []) message ∧
      deltaText stream.emitted = "Hello" ∧ message.textContent = "NoneHello" := by
  intro block
  exact ⟨_, _, rfl, by decide +kernel, ⟨rfl, _, _, rfl, rfl⟩, by decide +kernel, by decide +kernel⟩

end AnthropicStream

end EvernightAI
