import EvernightAI.Chat.ContextStrategy

/-!
# Composed requests keep the tool protocol

Whatever the stored history looks like and whichever strategies are chained, the composed request
is one a provider accepts, provided that no summarizer of the chain returns a tool result or a
message with tool calls. The source leaves the summary's role to the summarizer, so this is a
condition on it; a `SYSTEM` summary, as the strategies expect it behind the system prefix, meets
it and keeps out of the conversation altogether.

* `ComposedFrom` is the invariant of the chain, one lemma for each strategy.
* `composedRequests_toolProtocol` reads the protocol off it.
* `not_composedRequests_toolProtocol` is a summarizer whose message has no tool calls and yet
  breaks the request.
-/

namespace EvernightAI

/-- The messages that are no system messages. -/
def conversation (messages : List Message) : List Message :=
  messages.filter fun m => m.role ≠ .system

/-- Every tool result stands in the consecutive block behind an assistant message that made its
call. -/
def ToolsBehindAssistants (messages : List Message) : Prop :=
  ∀ before t behind, messages = before ++ t :: behind → t.role = .tool →
    ∃ (front block : List Message) (a : Message), before = front ++ a :: block ∧
      a.callsTools = true ∧ (∀ r ∈ block, r.role = .tool) ∧
      t.content.toolCallId ∈ a.callIds.map some

/-- Behind every assistant message with calls stands exactly one tool result for each call. -/
def AssistantsAnswered (messages : List Message) : Prop :=
  ∀ before a behind, messages = before ++ a :: behind → a.callsTools = true →
    ((behind.takeWhile fun m => m.role = .tool).map (·.content.toolCallId)).Perm
      (a.callIds.map some)

/-! ### The invariant of a chain -/

/-- The messages are protocol safe; behind messages that `Writes` allows, the conversation is an
order-preserving part of `origin`. -/
structure ComposedFrom (origin : List Message) (Writes : Message → Prop)
    (messages : List Message) : Prop where
  safe : ToolSafe messages
  conversation : ∃ summaries kept, conversation messages = summaries ++ kept ∧
    (∀ s ∈ summaries, Writes s) ∧ kept.Sublist origin

theorem conversation_append (l₁ l₂ : List Message) :
    conversation (l₁ ++ l₂) = conversation l₁ ++ conversation l₂ := List.filter_append ..

theorem conversation_of_system {l : List Message} (h : ∀ m ∈ l, m.role = .system) :
    conversation l = [] := by
  refine List.filter_eq_nil_iff.mpr fun m hm => ?_
  simp [h m hm]

/-- The conversation is what stands behind the system prefix. -/
theorem conversation_eq_remainder (messages : List Message) :
    conversation messages = conversation (systemPrefix messages).2 := by
  conv_lhs => rw [← systemPrefix_append messages, conversation_append]
  rw [conversation_of_system fun m hm => role_of_mem_systemPrefix hm, List.nil_append]

namespace ComposedFrom

variable {origin : List Message} {Writes Writes' : Message → Prop} {messages : List Message}

theorem mono (h : ComposedFrom origin Writes messages) (himp : ∀ m, Writes m → Writes' m) :
    ComposedFrom origin Writes' messages := by
  obtain ⟨summaries, kept, heq, hwrites, hkept⟩ := h.conversation
  exact ⟨h.safe, summaries, kept, heq, fun s hs => himp s (hwrites s hs), hkept⟩

/-- The strategies that select groups. -/
theorem keepsGroups {protectedIds : List Nat} {selected : List Message}
    (h : ComposedFrom origin Writes messages) (hkeeps : KeepsGroups protectedIds messages selected) :
    ComposedFrom origin Writes selected := by
  obtain ⟨summaries, kept, heq, hwrites, hkept⟩ := h.conversation
  have hsub : (EvernightAI.conversation selected).Sublist (summaries ++ kept) :=
    heq ▸ hkeeps.sublist.filter _
  obtain ⟨l₁, l₂, hl, h₁, h₂⟩ := List.sublist_append_iff.mp hsub
  exact ⟨hkeeps.toolSafe h.safe, l₁, l₂, hl, fun s hs => hwrites s (h₁.subset hs),
    h₂.trans hkept⟩

theorem composeBasic (request : ComposeRequest) :
    ComposedFrom (request.stored ++ request.messages) Writes (composeBasic request).messages := by
  have hsafe : ToolSafe (organize request) :=
    (toolSafe_activeMessages request.stored).append (toolSafe_activeMessages request.messages)
  have hsub : (EvernightAI.conversation (organize request)).Sublist
      (request.stored ++ request.messages) :=
    List.filter_sublist.trans
      ((activeMessages_sublist request.stored).append (activeMessages_sublist request.messages))
  rw [EvernightAI.composeBasic]
  rcases hmemory : request.memorySelection.bind (composeMemoryMessage request.memoryObject) with
    _ | memory
  · exact ⟨hsafe, [], _, rfl, by simp, hsub⟩
  · -- the memories are a system message in the prefix
    have hrole : memory.role = .system := by
      obtain ⟨memories, -, hmem⟩ := Option.bind_eq_some_iff.mp hmemory
      cases memories with
      | nil => simp [composeMemoryMessage] at hmem
      | cons head tail =>
        obtain rfl := Option.some.inj hmem
        rfl
    have hplain : ∀ m ∈ (systemPrefix (organize request)).1, m.IsPlain := fun m hm =>
      isPlain_of_system (role_of_mem_systemPrefix hm)
    have hremainder : ToolSafe (systemPrefix (organize request)).2 := by
      rw [← systemPrefix_append (organize request)] at hsafe
      exact hsafe.of_append_plain hplain
    refine ⟨(ToolSafe.of_plain hplain).append
      (hremainder.cons_plain (isPlain_of_system hrole)), [], _, rfl, by simp, ?_⟩
    have hconv : EvernightAI.conversation (insertAfterSystemPrefix (organize request) memory) =
        EvernightAI.conversation (organize request) := by
      rw [conversation_eq_remainder (organize request), insertAfterSystemPrefix,
        conversation_append, conversation_of_system fun m hm => role_of_mem_systemPrefix hm,
        List.nil_append]
      exact List.filter_cons_of_neg (by simp [hrole])
    rw [← hconv] at hsub
    exact hsub

theorem summarize {summarizer : List Message → Message} (after keep : Nat) {request : ChatRequest}
    (h : ComposedFrom origin Writes request.messages)
    (hplain : ∀ removed, (summarizer removed).IsPlain)
    (hwrites : ∀ removed, Writes (summarizer removed)) :
    ComposedFrom origin Writes (summarize summarizer after keep request).messages := by
  obtain ⟨removed, hgroups, ⟨hself, -⟩ | ⟨-, -, -, hmessages⟩⟩ :=
    summarize_messages summarizer after keep request
  · rwa [hself]
  · rw [hmessages]
    set remainder := (systemPrefix request.messages).2
    set recent := tailGroupsByMessageCount (messageGroups 0 remainder) keep
    have hfront : ∀ m ∈ (systemPrefix request.messages).1, m.role = .system := fun m hm =>
      role_of_mem_systemPrefix hm
    have hfrontPlain : ∀ m ∈ (systemPrefix request.messages).1, m.IsPlain := fun m hm =>
      isPlain_of_system (hfront m hm)
    have hremainder : ToolSafe remainder := by
      have hsafe := h.safe
      rw [← systemPrefix_append request.messages] at hsafe
      exact hsafe.of_append_plain hfrontPlain
    have hrecent : recent.Sublist (messageGroups 0 remainder) := hgroups ▸ List.sublist_append_right ..
    have hsub : recent.flatten.Sublist remainder := by
      simpa only [messageGroups_flatten] using hrecent.flatten
    refine ⟨(ToolSafe.of_plain hfrontPlain).append
      ((hremainder.of_sublist_groups hrecent).cons_plain (hplain _)), ?_⟩
    -- what was recent in the conversation
    obtain ⟨summaries, kept, heq, hsummaries, hkept⟩ := h.conversation
    have hconv : (EvernightAI.conversation recent.flatten).Sublist (summaries ++ kept) := by
      rw [← heq, conversation_eq_remainder request.messages]
      exact hsub.filter _
    obtain ⟨l₁, l₂, hl, h₁, h₂⟩ := List.sublist_append_iff.mp hconv
    have hl₁ : ∀ s ∈ l₁, Writes s := fun s hs => hsummaries s (h₁.subset hs)
    rw [conversation_append, conversation_of_system hfront, List.nil_append]
    by_cases hrole : (summarizer removed.flatten).role = .system
    · refine ⟨l₁, l₂, ?_, hl₁, h₂.trans hkept⟩
      rw [← hl]
      exact List.filter_cons_of_neg (by simp [hrole])
    · refine ⟨summarizer removed.flatten :: l₁, l₂, ?_, ?_, h₂.trans hkept⟩
      · rw [List.cons_append, ← hl]
        exact List.filter_cons_of_pos (by simp [hrole])
      · exact List.forall_mem_cons.mpr ⟨hwrites _, hl₁⟩

/-- The invariant holds of whatever a chain composes. -/
theorem composeChatRequest (chain : ContextStrategy) (request : ComposeRequest)
    (h : ∀ m, chain.Writes m → m.IsPlain) :
    ComposedFrom (request.stored ++ request.messages) chain.Writes
      (chain.composeChatRequest request).messages := by
  induction chain with
  | basic => exact composeBasic request
  | summarizing strategy summarizer after keep ih =>
    have hinner : ComposedFrom (request.stored ++ request.messages)
        (ContextStrategy.summarizing strategy summarizer after keep).Writes
        (strategy.composeChatRequest request).messages :=
      (ih fun m hm => h m (Or.inr hm)).mono fun m hm => Or.inr hm
    exact hinner.summarize after.value keep.value (fun removed => h _ (Or.inl ⟨removed, rfl⟩))
      fun removed => Or.inl ⟨removed, rfl⟩
  | windowTrimming strategy maxMessages ih =>
    exact (ih h).keepsGroups (keepsGroups_preserveSystemPrefix _ _ _)
  | tokenBudget strategy maxTokens estimate ih =>
    exact (ih h).keepsGroups (keepsGroups_withinBudget _ _ _ _)

end ComposedFrom

/-! ### The result -/

/-- **Composed requests are tool-protocol safe**, for every history, turn and chain of strategies
whose summarizers return a message without tool calls that is no tool result: results stand behind
their assistant message, every call has one result, and behind the summaries the conversation is an
order-preserving part of the stored messages and the turn. With `SYSTEM` summaries there are none
in the conversation. -/
theorem composedRequests_toolProtocol (chain : ContextStrategy) (request : ComposeRequest)
    (h : ∀ m, chain.Writes m → m.toolCalls = [] ∧ m.role ≠ .tool) :
    let composed := (chain.composeChatRequest request).messages
    ToolsBehindAssistants composed ∧ AssistantsAnswered composed ∧
      (∃ summaries kept, conversation composed = summaries ++ kept ∧
        (∀ s ∈ summaries, chain.Writes s) ∧ kept.Sublist (request.stored ++ request.messages)) ∧
      ((∀ m, chain.Writes m → m.role = .system) →
        (conversation composed).Sublist (request.stored ++ request.messages)) := by
  intro composed
  have hplain : ∀ m, chain.Writes m → m.IsPlain := fun m hm =>
    ⟨(h m hm).2, by simp [Message.callsTools, (h m hm).1]⟩
  have hcomposed := ComposedFrom.composeChatRequest chain request hplain
  refine ⟨fun before t behind heq ht => hcomposed.safe.tool_behind_assistant heq ht,
    fun before a behind heq ha => hcomposed.safe.assistant_answered heq ha,
    hcomposed.conversation, fun hsystem => ?_⟩
  obtain ⟨summaries, kept, heq, hwrites, hkept⟩ := hcomposed.conversation
  have hnone : summaries = [] := by
    refine List.eq_nil_iff_forall_not_mem.mpr fun s hs => ?_
    have hmem : s ∈ conversation composed := heq ▸ List.mem_append_left _ hs
    have hrole := (List.mem_filter.mp hmem).2
    simp [hsystem s (hwrites s hs)] at hrole
  have hconv : conversation composed = kept := by rw [heq, hnone, List.nil_append]
  rwa [hconv]

section Example

/-- A message with a text-free content of the given role. -/
private def bare (object : Nat) (role : MessageRole) : Message := ⟨object, { role }⟩

private def one : Limit := ⟨1, le_refl 1⟩

theorem composedRequests_toolProtocol_summary :
    let chain := ContextStrategy.windowTrimming (.summarizing .basic
      (fun _ => bare 9 .system) one one) one
    ToolsBehindAssistants (chain.composeChatRequest
      { contextId := "c", stored := [bare 0 .user, bare 1 .user], modelId := "m"
        memoryObject := 8 }).messages := by
  intro chain
  refine (composedRequests_toolProtocol chain _ ?_).1
  rintro m (⟨removed, rfl⟩ | h)
  · exact ⟨rfl, by simp [bare, Message.role]⟩
  · exact absurd h id

/-- A summarizer that returns a tool result: it has no tool calls, but no assistant message stands
before it. -/
theorem not_composedRequests_toolProtocol :
    ¬ ∀ (chain : ContextStrategy) (request : ComposeRequest),
      (∀ m, chain.Writes m → m.toolCalls = []) →
      let composed := (chain.composeChatRequest request).messages
      ToolsBehindAssistants composed ∧ AssistantsAnswered composed ∧
        (conversation composed).Sublist (request.stored ++ request.messages) := by
  intro hall
  have hwrites : ∀ m, (ContextStrategy.summarizing .basic
      (fun _ => bare 9 .tool) one one).Writes m → m.toolCalls = [] := by
    rintro m (⟨removed, rfl⟩ | h)
    · rfl
    · exact absurd h id
  obtain ⟨hbehind, -, -⟩ := hall _
    { contextId := "c", stored := [bare 0 .user, bare 1 .user], modelId := "m"
      memoryObject := 8 } hwrites
  obtain ⟨front, block, a, hnil, -⟩ := hbehind [] (bare 9 .tool) [bare 1 .user] (by decide) rfl
  simp at hnil

end Example

end EvernightAI
