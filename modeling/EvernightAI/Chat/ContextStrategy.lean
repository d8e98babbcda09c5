import EvernightAI.Chat.ContextOrganizer
import EvernightAI.Schema.Resource
import Mathlib.Algebra.Ring.Int.Defs
import Mathlib.Data.List.Flatten

/-!
# The context strategies

A chat request is composed by a chain of strategies. `BasicContextStrategy` puts the organized
history, the current turn and the selected memories together; each strategy around it shortens
what the inner one composed: by a summary of the older messages, by a message count or by a token
budget.

* `ContextStrategy.composeChatRequest` is the chain, `createContextStrategy` the chains the
  runtime builds.
* `KeepsGroups` says once what a window and a budget do to a list: the system prefix stays, and of
  the groups behind it a selection with all protected groups.
* `summarize_messages` says what a summary does: nothing, or it replaces the older groups.
-/

namespace EvernightAI

/-- A bound the strategies' constructors have checked. -/
structure Limit where
  value : Nat
  positive : 1 ≤ value

/-- `if value < 1: raise ValueError(f"{name} must be at least 1")` -/
def Limit.check (name : String) (value : Int) : Except Error Limit :=
  if h : value < 1 then
    .error { errorType := .other "ValueError", message := name ++ " must be at least 1" }
  else .ok ⟨value.toNat, by omega⟩

/-- What `compose_chat_request` is called with. -/
structure ComposeRequest where
  contextId : String
  stored : List Message
  modelId : String
  messages : List Message := []
  memorySelection : Option (List MemoryItem) := none
  /-- the object of a memory message, should one be made -/
  memoryObject : Nat

structure Degradation where
  degraded : Bool
  degradationReasons : List String
  droppedMessageCount : Nat
  deriving DecidableEq, Repr

/-- An entry of `context_strategy_steps`. -/
inductive ContextStrategyStep
  | summarizing (summarizedMessageCount : Nat)
  | windowTrimming (originalMessageCount retainedMessageCount maxMessages : Nat)
      (degradation : Degradation)
  | tokenBudget (tokenBudget : Nat) (estimatedTokens : Int) (degradation : Degradation)
  deriving DecidableEq, Repr

/-- The request the strategies hand on. -/
structure ChatRequest where
  modelId : String
  contextId : String
  messages : List Message
  memoryIds : Option (List String) := none
  contextStrategySteps : List ContextStrategyStep := []
  deriving DecidableEq, Repr

/-! ### The parts of a request -/

/-- `_system_prefix` -/
def systemPrefix (messages : List Message) : List Message × List Message :=
  (messages.takeWhile fun m => m.role = .system, messages.dropWhile fun m => m.role = .system)

/-- `_insert_after_system_prefix` -/
def insertAfterSystemPrefix (messages : List Message) (message : Message) : List Message :=
  (systemPrefix messages).1 ++ message :: (systemPrefix messages).2

/-- `_protected_message_ids` -/
def protectedMessageIds (messages : List Message) : List Nat :=
  (messages.filter Message.isActive).map (·.object)

/-- `_group_contains_protected_message` -/
def groupContainsProtectedMessage (group : List Message) (protectedIds : List Nat) : Bool :=
  group.any fun m => protectedIds.contains m.object

/-- The indexes of the groups with a protected message. -/
def protectedIndexes (groups : List (List Message)) (protectedIds : List Nat) : List Nat :=
  (groups.zipIdx.filter fun g => groupContainsProtectedMessage g.1 protectedIds).map (·.2)

/-- The groups at the selected indexes, in the order of the list. -/
def selectGroups (groups : List (List Message)) (indexes : List Nat) : List (List Message) :=
  (groups.zipIdx.filter fun g => indexes.contains g.2).map (·.1)

/-- `_degradation_metadata` -/
def degradationMetadata (reasons : List String) (droppedMessageCount : Nat) : Degradation :=
  { degraded := !reasons.isEmpty
    -- `list(dict.fromkeys(reasons))` keeps the first of equal reasons
    degradationReasons := reasons.reverse.dedup.reverse
    droppedMessageCount }

/-! ### Window and budget

Both strategies select group indexes: first the protected groups, then, from the newest on,
whatever still fits. `used` counts messages in the one and tokens in the other.
-/

structure Selection where
  indexes : List Nat
  used : Int := 0
  reasons : List String := []
  deriving DecidableEq, Repr

/-- One turn of either loop over the groups, from the newest. `fits` says whether a cost can still
be paid; the newest group is taken in any case when nothing else is. -/
def Selection.offer (groupCount : Nat) (fits : Int → Bool) (cost : List Message → Int)
    (newestExceeds : String) (s : Selection) (group : List Message × Nat) : Selection :=
  if s.indexes.contains group.2 then s
  else if fits (s.used + cost group.1) then
    { s with indexes := group.2 :: s.indexes, used := s.used + cost group.1 }
  else if s.indexes.isEmpty && s.used = 0 && group.2 + 1 = groupCount then
    { indexes := [group.2], used := s.used + cost group.1, reasons := s.reasons ++ [newestExceeds] }
  else s

/-- `for index in reversed(range(len(groups)))` -/
def Selection.offerAll (groups : List (List Message)) (fits : Int → Bool)
    (cost : List Message → Int) (newestExceeds : String) (s : Selection) : Selection :=
  groups.zipIdx.reverse.foldl (Selection.offer groups.length fits cost newestExceeds) s

/-- `_preserve_system_prefix` -/
def preserveSystemPrefix (messages : List Message) (maxItems : Nat) (protectedIds : List Nat) :
    List Message × Degradation :=
  let front := (systemPrefix messages).1
  let groups := messageGroups 0 (systemPrefix messages).2
  let kept := protectedIndexes groups protectedIds
  let protectedCount := front.length + (selectGroups groups kept).flatten.length
  let reasons :=
    (if front.length > maxItems then ["system_prefix_exceeds_max_messages"] else []) ++
    (if protectedCount > maxItems && !kept.isEmpty then
      ["protected_messages_exceed_max_messages"] else [])
  let remaining : Int := maxItems - protectedCount
  let selection := Selection.offerAll groups
    (fun used => decide (0 ≤ remaining) && decide (used ≤ remaining))
    (fun group => group.length) "newest_message_group_exceeds_max_messages"
    { indexes := kept, reasons }
  let selected := front ++ (selectGroups groups selection.indexes).flatten
  let dropped := messages.length - selected.length
  (selected, degradationMetadata (selection.reasons ++
    if dropped ≠ 0 then ["max_messages_dropped_messages"] else []) dropped)

/-- `_within_budget`. The prefix counts as protected, also where one of its objects comes again. -/
def withinBudget (estimate : Message → Int) (maxTokens : Nat) (messages : List Message)
    (protectedIds : List Nat) : List Message × Degradation :=
  let cost := fun group : List Message => (group.map estimate).sum
  let front := (systemPrefix messages).1
  let groups := messageGroups 0 (systemPrefix messages).2
  let kept := protectedIndexes groups (protectedIds ++ front.map (·.object))
  let used := cost front + cost (selectGroups groups kept).flatten
  let reasons :=
    (if cost front > maxTokens then ["system_prefix_exceeds_token_budget"] else []) ++
    (if used > maxTokens && !kept.isEmpty then
      ["protected_messages_exceed_token_budget"] else [])
  let selection := Selection.offerAll groups
    (fun elastic => !decide (used + elastic > maxTokens))
    cost "newest_message_group_exceeds_token_budget" { indexes := kept, reasons }
  let selected := front ++ (selectGroups groups selection.indexes).flatten
  let dropped := messages.length - selected.length
  (selected, degradationMetadata (selection.reasons ++
    if dropped ≠ 0 then ["token_budget_dropped_messages"] else []) dropped)

/-! ### Summaries -/

/-- The loop of `_tail_groups_by_message_count` over the groups from the newest. The source
appends to `selected` and reverses it at the end. -/
def takeTailGroups (maxItems : Nat) : List (List Message) → Nat → List (List Message) →
    List (List Message)
  | selected, _, [] => selected
  | selected, count, group :: rest =>
    if !selected.isEmpty && count + group.length > maxItems then selected
    else if count + group.length ≥ maxItems then group :: selected
    else takeTailGroups maxItems (group :: selected) (count + group.length) rest

/-- `_tail_groups_by_message_count` -/
def tailGroupsByMessageCount (groups : List (List Message)) (maxItems : Nat) :
    List (List Message) :=
  takeTailGroups maxItems [] 0 groups.reverse

/-- `SummarizingContextStrategy.compose_chat_request` behind the inner strategy. -/
def summarize (summarizer : List Message → Message)
    (summarizeAfterMessages keepRecentMessages : Nat) (request : ChatRequest) : ChatRequest :=
  if request.messages.length ≤ summarizeAfterMessages then request
  else
    let front := (systemPrefix request.messages).1
    let remainder := (systemPrefix request.messages).2
    if remainder.length ≤ keepRecentMessages then request
    else
      let groups := messageGroups 0 remainder
      let recentGroups := tailGroupsByMessageCount groups keepRecentMessages
      let removed := (groups.take (groups.length - recentGroups.length)).flatten
      if removed.isEmpty then request
      else
        { request with
          messages := front ++ summarizer removed :: recentGroups.flatten
          contextStrategySteps :=
            request.contextStrategySteps ++ [.summarizing removed.length] }

/-! ### The chain -/

/-- `_compose_memory_message`; the ids in its metadata are `ChatRequest.memoryIds`. -/
def composeMemoryMessage (object : Nat) : List MemoryItem → Option Message
  | [] => none
  | memories =>
    let lines := memories.map fun memory => "- " ++ memory.kind.value ++ ": " ++ memory.content
    some
      { object
        content :=
          { role := .system
            content := some
              [{ type := .text, text := some ("\n".intercalate ("Relevant memory:" :: lines)) }]
            metadata := [("source", .str "memory")] } }

/-- `ContextOrganizer.organize` -/
def organize (request : ComposeRequest) : List Message :=
  activeMessages request.stored ++ activeMessages request.messages

/-- `BasicContextStrategy.compose_chat_request` -/
def composeBasic (request : ComposeRequest) : ChatRequest :=
  let memory := request.memorySelection.bind (composeMemoryMessage request.memoryObject)
  { modelId := request.modelId
    contextId := request.contextId
    messages := memory.elim (organize request) (insertAfterSystemPrefix (organize request))
    memoryIds := request.memorySelection.map fun memories => memories.map (·.memoryId) }

/-- A chain of strategies, from the outermost in. -/
inductive ContextStrategy
  | basic
  | summarizing (strategy : ContextStrategy) (summarizer : List Message → Message)
      (summarizeAfterMessages keepRecentMessages : Limit)
  | windowTrimming (strategy : ContextStrategy) (maxMessages : Limit)
  | tokenBudget (strategy : ContextStrategy) (maxTokens : Limit) (estimate : Message → Int)

/-- `compose_chat_request` of the chain. -/
def ContextStrategy.composeChatRequest : ContextStrategy → ComposeRequest → ChatRequest
  | .basic, request => composeBasic request
  | .summarizing strategy summarizer summarizeAfterMessages keepRecentMessages, request =>
    summarize summarizer summarizeAfterMessages.value keepRecentMessages.value
      (strategy.composeChatRequest request)
  | .windowTrimming strategy maxMessages, request =>
    let inner := strategy.composeChatRequest request
    let (trimmed, degradation) := preserveSystemPrefix inner.messages maxMessages.value
      (protectedMessageIds request.messages)
    { inner with
      messages := trimmed
      contextStrategySteps := inner.contextStrategySteps ++
        [.windowTrimming inner.messages.length trimmed.length maxMessages.value degradation] }
  | .tokenBudget strategy maxTokens estimate, request =>
    let inner := strategy.composeChatRequest request
    let (selected, degradation) := withinBudget estimate maxTokens.value inner.messages
      (protectedMessageIds request.messages)
    { inner with
      messages := selected
      contextStrategySteps := inner.contextStrategySteps ++
        [.tokenBudget maxTokens.value (selected.map estimate).sum degradation] }

/-- A summarizer of the chain can return the message. -/
def ContextStrategy.Writes : ContextStrategy → Message → Prop
  | .basic, _ => False
  | .summarizing strategy summarizer _ _, m =>
    (∃ removed, summarizer removed = m) ∨ strategy.Writes m
  | .windowTrimming strategy _, m => strategy.Writes m
  | .tokenBudget strategy _ _, m => strategy.Writes m

/-- `ContextStrategyOptions` -/
structure ContextStrategyOptions where
  enableSummary : Bool := false
  summarizer : Option (List Message → Message) := none
  summarizeAfterMessages : Int := 100
  keepRecentMessages : Int := 20
  maxMessages : Option Int := none
  maxTokens : Option Int := none
  /-- `options.estimator or ApproximateContextTokenEstimator()` -/
  estimate : Message → Int

namespace ContextStrategyOptions

/-- The summary stage of `create_context_strategy`. -/
def addSummary (options : ContextStrategyOptions) (strategy : ContextStrategy) :
    Except Error ContextStrategy :=
  if options.enableSummary then
    match options.summarizer with
    | none => .error
        { errorType := .other "ValueError", message := "context summary requires a summarizer" }
    | some summarizer => do
      let after ← Limit.check "summarize_after_messages" options.summarizeAfterMessages
      let keep ← Limit.check "keep_recent_messages" options.keepRecentMessages
      return .summarizing strategy summarizer after keep
  else .ok strategy

/-- The window stage of `create_context_strategy`. -/
def addWindow (options : ContextStrategyOptions) (strategy : ContextStrategy) :
    Except Error ContextStrategy :=
  match options.maxMessages with
  | none => .ok strategy
  | some maxMessages => do
    let limit ← Limit.check "max_messages" maxMessages
    return .windowTrimming strategy limit

/-- The budget stage of `create_context_strategy`. -/
def addBudget (options : ContextStrategyOptions) (strategy : ContextStrategy) :
    Except Error ContextStrategy :=
  match options.maxTokens with
  | none => .ok strategy
  | some maxTokens => do
    let limit ← Limit.check "max_tokens" maxTokens
    return .tokenBudget strategy limit options.estimate

end ContextStrategyOptions

/-- `create_context_strategy` -/
def createContextStrategy (options : ContextStrategyOptions) : Except Error ContextStrategy := do
  let strategy ← options.addSummary .basic
  let strategy ← options.addWindow strategy
  options.addBudget strategy

/-! ### What a strategy keeps -/

theorem systemPrefix_append (messages : List Message) :
    (systemPrefix messages).1 ++ (systemPrefix messages).2 = messages :=
  List.takeWhile_append_dropWhile

theorem role_of_mem_systemPrefix {m : Message} {messages : List Message}
    (h : m ∈ (systemPrefix messages).1) : m.role = .system := by
  have := List.mem_takeWhile_imp h
  simpa using this

theorem isPlain_of_system {m : Message} (h : m.role = .system) : m.IsPlain := by
  refine ⟨by simp [h], by simp [Message.callsTools, h]⟩

/-- A row of system messages in front joins the prefix. -/
theorem systemPrefix_of_system {front : List Message} (h : ∀ m ∈ front, m.role = .system)
    (messages : List Message) :
    systemPrefix (front ++ messages) =
      (front ++ (systemPrefix messages).1, (systemPrefix messages).2) := by
  have hfront : ∀ m ∈ front, decide (m.role = .system) = true := by simpa using h
  simp only [systemPrefix, Prod.mk.injEq]
  exact ⟨List.takeWhile_append_of_pos hfront, List.dropWhile_append_of_pos hfront⟩

/-- Behind the prefix no prefix is left. -/
theorem systemPrefix_remainder (messages : List Message) :
    systemPrefix (systemPrefix messages).2 = ([], (systemPrefix messages).2) := by
  induction messages with
  | nil => rfl
  | cons m rest ih =>
    by_cases hm : m.role = .system
    · have hrest : (systemPrefix (m :: rest)).2 = (systemPrefix rest).2 := by
        simp [systemPrefix, hm]
      rw [hrest, ih]
    · simp [systemPrefix, hm]

theorem selectGroups_sublist (groups : List (List Message)) (indexes : List Nat) :
    (selectGroups groups indexes).Sublist groups := by
  have h := (List.filter_sublist (p := fun g => indexes.contains g.2)
    (l := groups.zipIdx)).map Prod.fst
  rwa [List.zipIdx_map_fst] at h

/-- A selection with the protected indexes takes every protected message. -/
theorem filter_protected_sublist (groups : List (List Message)) {protectedIds indexes : List Nat}
    (h : protectedIndexes groups protectedIds ⊆ indexes) :
    (groups.flatten.filter fun m => protectedIds.contains m.object).Sublist
      (selectGroups groups indexes).flatten := by
  -- by the groups with their indexes, of which the filtered ones are selected
  have key : ∀ indexed : List (List Message × Nat),
      (∀ g ∈ indexed, groupContainsProtectedMessage g.1 protectedIds → g.2 ∈ indexes) →
      ((indexed.map (·.1)).flatten.filter fun m => protectedIds.contains m.object).Sublist
        ((indexed.filter fun g => indexes.contains g.2).map (·.1)).flatten := by
    intro indexed hindexed
    induction indexed with
    | nil => simp
    | cons g rest ih =>
      have hrest := ih fun g' hg' => hindexed g' (by simp [hg'])
      rw [List.map_cons, List.flatten_cons, List.filter_append]
      by_cases hg : g.2 ∈ indexes
      · simpa [hg] using List.filter_sublist.append hrest
      · have hnone : g.1.filter (fun m => protectedIds.contains m.object) = [] := by
          refine List.filter_eq_nil_iff.mpr fun m hm hprot => hg (hindexed g (by simp) ?_)
          exact List.any_eq_true.mpr ⟨m, hm, hprot⟩
        rw [hnone, List.nil_append, List.filter_cons_of_neg (by simpa using hg)]
        exact hrest
  have hgroups := key groups.zipIdx fun g hg hprot =>
    h (List.mem_map.mpr ⟨g, List.mem_filter.mpr ⟨hg, hprot⟩, rfl⟩)
  rwa [List.zipIdx_map_fst] at hgroups

/-- The loop over the groups only adds to the selection. -/
theorem Selection.indexes_subset_offerAll (groups : List (List Message)) (fits : Int → Bool)
    (cost : List Message → Int) (newestExceeds : String) (s : Selection) :
    s.indexes ⊆ (s.offerAll groups fits cost newestExceeds).indexes := by
  have key : ∀ (offered : List (List Message × Nat)) (s : Selection), s.indexes ⊆
      (offered.foldl (Selection.offer groups.length fits cost newestExceeds) s).indexes := by
    intro offered
    induction offered with
    | nil => exact fun s => List.Subset.refl _
    | cons g rest ih =>
      intro s
      refine List.Subset.trans ?_ (ih _)
      rw [Selection.offer]
      split_ifs with h₁ h₂ h₃
      · exact List.Subset.refl _
      · exact List.subset_cons_self _ _
      · have hempty : s.indexes = [] := by simpa using (Bool.and_eq_true_iff.mp
          (Bool.and_eq_true_iff.mp h₃).1).1
        simp [hempty]
      · exact List.Subset.refl _
  exact key _ s

/-- `selected` is `messages` without some of the groups behind the system prefix; no group with a
protected message is missing. -/
def KeepsGroups (protectedIds : List Nat) (messages selected : List Message) : Prop :=
  ∃ indexes, protectedIndexes (messageGroups 0 (systemPrefix messages).2) protectedIds ⊆ indexes ∧
    selected = (systemPrefix messages).1 ++
      (selectGroups (messageGroups 0 (systemPrefix messages).2) indexes).flatten

theorem keepsGroups_preserveSystemPrefix (messages : List Message) (maxItems : Nat)
    (protectedIds : List Nat) :
    KeepsGroups protectedIds messages
      (preserveSystemPrefix messages maxItems protectedIds).1 := by
  refine ⟨_, ?_, rfl⟩
  exact fun i hi => Selection.indexes_subset_offerAll _ _ _ _ _ hi

theorem protectedIndexes_mono (groups : List (List Message)) {ids ids' : List Nat}
    (h : ids ⊆ ids') : protectedIndexes groups ids ⊆ protectedIndexes groups ids' := by
  refine List.map_subset _ fun g hg => ?_
  obtain ⟨hmem, hprot⟩ := List.mem_filter.mp hg
  obtain ⟨m, hm, hid⟩ := List.any_eq_true.mp hprot
  refine List.mem_filter.mpr ⟨hmem, List.any_eq_true.mpr ⟨m, hm, ?_⟩⟩
  simpa using h (by simpa using hid)

theorem keepsGroups_withinBudget (estimate : Message → Int) (maxTokens : Nat)
    (messages : List Message) (protectedIds : List Nat) :
    KeepsGroups protectedIds messages
      (withinBudget estimate maxTokens messages protectedIds).1 := by
  refine ⟨_, List.Subset.trans ?_ (Selection.indexes_subset_offerAll _ _ _ _ _), rfl⟩
  exact protectedIndexes_mono _ (List.subset_append_left _ _)

namespace KeepsGroups

variable {protectedIds : List Nat} {messages selected : List Message}

theorem sublist (h : KeepsGroups protectedIds messages selected) : selected.Sublist messages := by
  obtain ⟨indexes, -, rfl⟩ := h
  have hgroups := (selectGroups_sublist (messageGroups 0 (systemPrefix messages).2) indexes).flatten
  rw [messageGroups_flatten] at hgroups
  have := (List.Sublist.refl (systemPrefix messages).1).append hgroups
  rwa [systemPrefix_append] at this

/-- Every protected message stays. -/
theorem filter_protected (h : KeepsGroups protectedIds messages selected) :
    (messages.filter fun m => protectedIds.contains m.object).Sublist selected := by
  obtain ⟨indexes, hkept, rfl⟩ := h
  have hgroups := filter_protected_sublist _ hkept
  rw [messageGroups_flatten] at hgroups
  conv_lhs => rw [← systemPrefix_append messages, List.filter_append]
  exact List.filter_sublist.append hgroups

theorem toolSafe (h : KeepsGroups protectedIds messages selected) (hsafe : ToolSafe messages) :
    ToolSafe selected := by
  obtain ⟨indexes, -, rfl⟩ := h
  have hplain : ∀ m ∈ (systemPrefix messages).1, m.IsPlain := fun m hm =>
    isPlain_of_system (role_of_mem_systemPrefix hm)
  rw [← systemPrefix_append messages] at hsafe
  exact (ToolSafe.of_plain hplain).append
    ((hsafe.of_append_plain hplain).of_sublist_groups (selectGroups_sublist _ _))

end KeepsGroups

/-! ### What a summary keeps -/

/-- The loop takes `k` groups: one at least, more only while they fit, and no fitting one is
left. -/
theorem takeTailGroups_spec (maxItems : Nat) (selected : List (List Message)) (count : Nat)
    (rest : List (List Message)) :
    ∃ k ≤ rest.length, takeTailGroups maxItems selected count rest =
        (rest.take k).reverse ++ selected ∧
      (selected = [] → rest ≠ [] → 1 ≤ k) ∧
      (k = 0 ∨ (selected = [] ∧ k = 1) ∨ count + (rest.take k).flatten.length ≤ maxItems) ∧
      (k = rest.length ∨ maxItems < count + (rest.take (k + 1)).flatten.length ∨
        (1 ≤ k ∧ maxItems ≤ count + (rest.take k).flatten.length)) := by
  induction rest generalizing selected count with
  | nil => exact ⟨0, by simp [takeTailGroups]⟩
  | cons group rest ih =>
    rw [takeTailGroups]
    split_ifs with h₁ h₂
    · have h : selected ≠ [] ∧ maxItems < count + group.length := by simpa using h₁
      refine ⟨0, by simp, by simp, fun h' => absurd h' h.1, Or.inl rfl, Or.inr (Or.inl ?_)⟩
      simpa using h.2
    · refine ⟨1, by simp, by simp, fun _ _ => le_refl 1, ?_, Or.inr (Or.inr ⟨le_refl 1, ?_⟩)⟩
      · by_cases hsel : selected = []
        · exact Or.inr (Or.inl ⟨hsel, rfl⟩)
        · have hfit : ¬ maxItems < count + group.length := fun hlt => h₁ (by simp [hsel, hlt])
          exact Or.inr (Or.inr (by simpa using hfit))
      · simpa using h₂
    · obtain ⟨k, hk, heq, -, hfits, hmax⟩ := ih (group :: selected) (count + group.length)
      have hlen : ∀ j, (List.take (j + 1) (group :: rest)).flatten.length =
          group.length + (rest.take j).flatten.length := fun j => by simp
      refine ⟨k + 1, by simpa using hk, by rw [heq]; simp, fun _ _ => by omega, ?_, ?_⟩
      · rcases hfits with rfl | ⟨h, -⟩ | h
        · right; right
          rw [hlen]
          simp only [List.take_zero, List.flatten_nil, List.length_nil]
          omega
        · simp at h
        · right; right
          rw [hlen]
          omega
      · rcases hmax with rfl | h | ⟨h₁, h⟩
        · exact Or.inl rfl
        · right; left
          rw [hlen]
          omega
        · right; right
          rw [hlen]
          omega

/-- The recent groups are the newest ones. -/
theorem tailGroupsByMessageCount_suffix (groups : List (List Message)) (maxItems : Nat) :
    tailGroupsByMessageCount groups maxItems <:+ groups := by
  obtain ⟨k, -, heq, -⟩ := takeTailGroups_spec maxItems [] 0 groups.reverse
  rw [tailGroupsByMessageCount, heq, List.append_nil, ← List.reverse_reverse groups,
    List.reverse_reverse]
  exact List.reverse_suffix.mpr (List.take_prefix _ _)

/-- What is removed and what is recent are the groups of the request. -/
theorem removed_append_recent (groups : List (List Message)) (maxItems : Nat) :
    groups.take (groups.length - (tailGroupsByMessageCount groups maxItems).length) ++
      tailGroupsByMessageCount groups maxItems = groups := by
  obtain ⟨front, hfront⟩ := tailGroupsByMessageCount_suffix groups maxItems
  have hlen : groups.length - (tailGroupsByMessageCount groups maxItems).length =
      front.length := by
    rw [← congrArg List.length hfront, List.length_append]
    omega
  rw [hlen]
  have htake : groups.take front.length = front := by
    conv_lhs => rw [← hfront, List.take_left]
  rw [htake, hfront]

/-- A summary leaves the request alone, or replaces the older groups behind the system prefix. -/
theorem summarize_messages (summarizer : List Message → Message) (after keep : Nat)
    (request : ChatRequest) :
    let remainder := (systemPrefix request.messages).2
    let recent := tailGroupsByMessageCount (messageGroups 0 remainder) keep
    ∃ removed, removed ++ recent = messageGroups 0 remainder ∧
      (summarize summarizer after keep request = request ∧
          (request.messages.length ≤ after ∨ remainder.length ≤ keep ∨ removed = []) ∨
        after < request.messages.length ∧ keep < remainder.length ∧ removed ≠ [] ∧
          (summarize summarizer after keep request).messages =
            (systemPrefix request.messages).1 ++ summarizer removed.flatten :: recent.flatten) := by
  intro remainder recent
  refine ⟨_, removed_append_recent (messageGroups 0 remainder) keep, ?_⟩
  rw [summarize]
  split_ifs with h₁
  · exact Or.inl ⟨rfl, Or.inl h₁⟩
  · dsimp only
    split_ifs with h₂ h₃
    · exact Or.inl ⟨rfl, Or.inr (Or.inl h₂)⟩
    · refine Or.inl ⟨rfl, Or.inr (Or.inr (List.eq_nil_iff_forall_not_mem.mpr fun g hg => ?_))⟩
      -- a group is not empty, so no group is left when no message is
      have hnil : g = [] := List.flatten_eq_nil_iff.mp (List.isEmpty_iff.mp h₃) g hg
      exact ne_nil_of_mem_messageGroups (List.mem_of_mem_take hg) hnil
    · refine Or.inr ⟨Nat.lt_of_not_le h₁, Nat.lt_of_not_le h₂, fun hnil => h₃ ?_, rfl⟩
      rw [hnil]
      rfl

end EvernightAI
