import EvernightAI.Chat.ContextStrategy

/-!
# The current turn in a composed request

The window and the budget protect the messages of the current turn by identity. The summary does
not: it looks at the number of recent messages only, and a turn that is longer than
`keep_recent_messages` loses its beginning to the summary.

* `KeepsProtected` is what the window and the budget guarantee, for any chain of them.
* `currentTurnProtected_iff` is the exact condition, for every chain the runtime builds: the turn
  is in the request unless a summary is made and the turn, behind the system prefix, has more than
  one group and more than `keep_recent_messages` messages.
* `not_currentTurnProtected` is a turn of two messages that loses the first.
-/

namespace EvernightAI

/-! ### Window and budget -/

/-- `selected` is made of `messages` and has all protected ones. -/
structure KeepsProtected (protectedIds : List Nat) (messages selected : List Message) : Prop where
  sublist : selected.Sublist messages
  filter_protected : (messages.filter fun m => protectedIds.contains m.object).Sublist selected

namespace KeepsProtected

variable {protectedIds : List Nat} {l₁ l₂ l₃ : List Message}

theorem refl (l : List Message) : KeepsProtected protectedIds l l :=
  ⟨List.Sublist.refl l, List.filter_sublist⟩

theorem trans (h₁ : KeepsProtected protectedIds l₁ l₂) (h₂ : KeepsProtected protectedIds l₂ l₃) :
    KeepsProtected protectedIds l₁ l₃ := by
  refine ⟨h₂.sublist.trans h₁.sublist, ?_⟩
  have := h₁.filter_protected.filter fun m => protectedIds.contains m.object
  rw [List.filter_filter] at this
  simp only [Bool.and_self] at this
  exact this.trans h₂.filter_protected

/-- A list of protected messages that was there is still there. -/
theorem keeps (h : KeepsProtected protectedIds l₁ l₂) {turn : List Message}
    (hprot : ∀ m ∈ turn, m.object ∈ protectedIds) (hturn : turn.Sublist l₁) :
    turn.Sublist l₂ := by
  have hself : (turn.filter fun m => protectedIds.contains m.object) = turn :=
    List.filter_eq_self.mpr (by simpa using hprot)
  rw [← hself]
  exact (hturn.filter _).trans h.filter_protected

end KeepsProtected

theorem KeepsGroups.keepsProtected {protectedIds : List Nat} {messages selected : List Message}
    (h : KeepsGroups protectedIds messages selected) :
    KeepsProtected protectedIds messages selected := ⟨h.sublist, h.filter_protected⟩

/-- The chain is the summary stage with a window and a budget around it, as far as they are set. -/
theorem createContextStrategy_eq_ok {options : ContextStrategyOptions} {chain : ContextStrategy}
    (h : createContextStrategy options = .ok chain) :
    ∃ inner, options.addSummary .basic = .ok inner ∧ ∀ request,
      KeepsProtected (protectedMessageIds request.messages)
        (inner.composeChatRequest request).messages
        (chain.composeChatRequest request).messages := by
  obtain ⟨inner, hinner, h⟩ := exists_of_bind_eq_ok h
  obtain ⟨window, hwindow, h⟩ := exists_of_bind_eq_ok h
  refine ⟨inner, hinner, fun request => ?_⟩
  have hinnerWindow : KeepsProtected (protectedMessageIds request.messages)
      (inner.composeChatRequest request).messages
      (window.composeChatRequest request).messages := by
    rw [ContextStrategyOptions.addWindow] at hwindow
    split at hwindow
    · obtain rfl := Except.ok.inj hwindow
      exact .refl _
    · obtain ⟨limit, -, hwindow⟩ := exists_of_bind_eq_ok hwindow
      obtain rfl := Except.ok.inj hwindow
      exact (keepsGroups_preserveSystemPrefix _ _ _).keepsProtected
  have hwindowChain : KeepsProtected (protectedMessageIds request.messages)
      (window.composeChatRequest request).messages
      (chain.composeChatRequest request).messages := by
    rw [ContextStrategyOptions.addBudget] at h
    split at h
    · obtain rfl := Except.ok.inj h
      exact .refl _
    · obtain ⟨limit, -, h⟩ := exists_of_bind_eq_ok h
      obtain rfl := Except.ok.inj h
      exact (keepsGroups_withinBudget _ _ _ _).keepsProtected
  exact hinnerWindow.trans hwindowChain

/-! ### The turn in the basic request -/

namespace ComposeRequest

/-- The current-turn messages the organizer keeps. -/
def keptTurn (request : ComposeRequest) : List Message := activeMessages request.messages

/-- The turn behind the system prefix: without its leading system messages where the history has
nothing else. -/
def turnBody (request : ComposeRequest) : List Message :=
  if (activeMessages request.stored).all fun m => m.role = .system then
    (systemPrefix request.keptTurn).2
  else request.keptTurn

/-- The memory message is made when memories are selected. -/
def memoryMessage (request : ComposeRequest) : Option Message :=
  request.memorySelection.bind (composeMemoryMessage request.memoryObject)

/-- How many messages the basic request has. -/
def messageCount (request : ComposeRequest) : Nat :=
  (activeMessages request.stored).length + request.keptTurn.length +
    request.memoryMessage.toList.length

/-- The history ends and the turn begins at a border of groups, and what the turn loses to the
system prefix are its leading system messages. -/
theorem systemPrefix_organize (request : ComposeRequest) :
    ∃ before lead history, systemPrefix (organize request) =
        (before ++ lead, history ++ request.turnBody) ∧
      request.keptTurn = lead ++ request.turnBody ∧ ToolSafe history ∧
      ToolSafe request.turnBody := by
  have hstored := toolSafe_activeMessages request.stored
  have hturn : ToolSafe request.keptTurn := toolSafe_activeMessages request.messages
  have hremainder : ∀ {l : List Message}, ToolSafe l → ToolSafe (systemPrefix l).2 := fun {l} h => by
    rw [← systemPrefix_append l] at h
    exact h.of_append_plain fun m hm => isPlain_of_system (role_of_mem_systemPrefix hm)
  rw [organize, turnBody]
  split_ifs with hall
  · have hsystem : ∀ m ∈ activeMessages request.stored, m.role = .system := by
      simpa using hall
    refine ⟨activeMessages request.stored, (systemPrefix request.keptTurn).1, [], ?_,
      (systemPrefix_append _).symm, .nil, hremainder hturn⟩
    rw [systemPrefix_of_system hsystem]
    rfl
  · obtain ⟨m, hm, hrole⟩ : ∃ m ∈ activeMessages request.stored, m.role ≠ .system := by
      simpa using hall
    refine ⟨(systemPrefix (activeMessages request.stored)).1, [],
      (systemPrefix (activeMessages request.stored)).2, ?_, rfl, hremainder hstored, hturn⟩
    -- the prefix ends inside the history
    have hne : (systemPrefix (activeMessages request.stored)).2 ≠ [] := fun hnil => by
      have hall' := List.dropWhile_eq_nil_iff.mp hnil m hm
      simp [hrole] at hall'
    obtain ⟨x, rest, hx⟩ := List.exists_cons_of_ne_nil hne
    have hxrole : x.role ≠ .system := by
      intro hsystem
      have hnone := congrArg Prod.fst (systemPrefix_remainder (activeMessages request.stored))
      rw [hx] at hnone
      simp [systemPrefix, hsystem] at hnone
    have hsplit : activeMessages request.stored ++ activeMessages request.messages =
        (systemPrefix (activeMessages request.stored)).1 ++
          (x :: rest ++ request.keptTurn) := by
      rw [← hx, ← List.append_assoc, systemPrefix_append]
      rfl
    rw [hsplit, systemPrefix_of_system fun m hm => role_of_mem_systemPrefix hm, hx]
    simp [systemPrefix, hxrole]

/-- The memories join the system prefix. -/
theorem systemPrefix_composeBasic (request : ComposeRequest) :
    systemPrefix (composeBasic request).messages =
      ((systemPrefix (organize request)).1 ++ request.memoryMessage.toList,
        (systemPrefix (organize request)).2) := by
  have hcompose : (composeBasic request).messages =
      (systemPrefix (organize request)).1 ++
        (request.memoryMessage.toList ++ (systemPrefix (organize request)).2) := by
    show request.memoryMessage.elim _ _ = _
    cases request.memoryMessage with
    | none => exact (systemPrefix_append _).symm
    | some memory => rfl
  have hmemory : ∀ m ∈ request.memoryMessage.toList, m.role = .system := by
    intro m hm
    obtain ⟨memories, -, hmem⟩ := Option.bind_eq_some_iff.mp (Option.mem_toList.mp hm)
    cases memories with
    | nil => simp [composeMemoryMessage] at hmem
    | cons head tail =>
      obtain rfl := Option.some.inj hmem
      rfl
  rw [hcompose, systemPrefix_of_system fun m hm => role_of_mem_systemPrefix hm,
    systemPrefix_of_system hmemory, systemPrefix_remainder]
  simp

theorem length_composeBasic (request : ComposeRequest) :
    (composeBasic request).messages.length = request.messageCount := by
  have hlen := congrArg List.length (systemPrefix_append (composeBasic request).messages)
  have horg := congrArg List.length (systemPrefix_append (organize request))
  rw [systemPrefix_composeBasic] at hlen
  simp only [List.length_append, organize] at hlen horg
  rw [messageCount, keptTurn]
  omega

end ComposeRequest

/-! ### The summary and the turn -/

/-- The recent groups reach back over the groups `newest` exactly when these are at most one group
or fit into `maxItems`. -/
theorem length_le_tailGroups_iff {older newest : List (List Message)} (maxItems : Nat)
    (hne : ∀ g ∈ older ++ newest, g ≠ []) :
    newest.length ≤ (tailGroupsByMessageCount (older ++ newest) maxItems).length ↔
      newest.length ≤ 1 ∨ newest.flatten.length ≤ maxItems := by
  obtain ⟨k, hk, heq, hone, hfits, hmax⟩ := takeTailGroups_spec maxItems [] 0
    (older ++ newest).reverse
  have hlen : (tailGroupsByMessageCount (older ++ newest) maxItems).length = k := by
    rw [tailGroupsByMessageCount, heq, List.append_nil, List.length_reverse, List.length_take]
    omega
  -- the first `j` groups from the newest, by their messages
  have hmono : ∀ {i j : Nat}, i ≤ j → (((older ++ newest).reverse.take i).flatten.length) ≤
      ((older ++ newest).reverse.take j).flatten.length := fun hij =>
    ((List.take_sublist_take_left hij).flatten).length_le
  have hgrow : ∀ {j : Nat}, j < (older ++ newest).reverse.length →
      ((older ++ newest).reverse.take j).flatten.length <
        ((older ++ newest).reverse.take (j + 1)).flatten.length := fun {j} hj => by
    have hg : (older ++ newest).reverse[j] ≠ [] :=
      hne _ (List.mem_reverse.mp (List.getElem_mem hj))
    have hpos := List.length_pos_of_ne_nil hg
    rw [List.take_add_one, List.getElem?_eq_getElem hj]
    simp only [Option.toList, List.flatten_append, List.length_append, List.flatten_cons,
      List.flatten_nil, List.append_nil]
    omega
  have hnewest : ((older ++ newest).reverse.take newest.length).flatten.length =
      newest.flatten.length := by
    rw [List.reverse_append, List.take_left' List.length_reverse]
    exact ((List.reverse_perm newest).flatten).length_eq
  have htotal : (older ++ newest).reverse.length = older.length + newest.length := by
    rw [List.length_reverse, List.length_append]
  rw [hlen]
  constructor
  · intro hle
    rcases hfits with rfl | ⟨-, rfl⟩ | hfits
    · exact Or.inl (by omega)
    · exact Or.inl hle
    · have := hmono hle
      exact Or.inr (by omega)
  · rintro (hle | hle)
    · rcases Nat.eq_zero_or_pos newest.length with hzero | hpos
      · omega
      · have hsome : (older ++ newest).reverse ≠ [] := fun hnil => by
          rw [hnil] at htotal
          simp only [List.length_nil] at htotal
          omega
        have := hone rfl hsome
        omega
    · -- a group less than `newest` would leave a fitting one behind
      by_contra hlt
      have hkn : k + 1 ≤ newest.length := by omega
      have hstep := hgrow (j := k) (by omega)
      have hbound := hmono hkn
      rcases hmax with h | h | ⟨-, h⟩ <;> omega

namespace ContextStrategyOptions

/-- The turn survives the summary: none is made, or the turn behind the system prefix is one group
at most or has no more than `keep_recent_messages` messages. -/
def KeepsTurn (options : ContextStrategyOptions) (request : ComposeRequest) : Prop :=
  options.enableSummary = false ∨ request.messageCount ≤ options.summarizeAfterMessages ∨
    request.turnBody.length ≤ options.keepRecentMessages ∨
    (messageGroups 0 request.turnBody).length ≤ 1

/-- All messages are objects of their own, also the ones made for the request. -/
structure Distinct (options : ContextStrategyOptions) (request : ComposeRequest) : Prop where
  nodup : ((request.stored ++ request.messages).map (·.object)).Nodup
  memory : ∀ m ∈ request.messages, m.object ≠ request.memoryObject
  summary : ∀ summarizer, options.summarizer = some summarizer → ∀ removed,
    ∀ m ∈ request.messages, m.object ≠ (summarizer removed).object

end ContextStrategyOptions

theorem Limit.value_of_check {name : String} {value : Int} {limit : Limit}
    (h : Limit.check name value = .ok limit) : (limit.value : Int) = value := by
  rw [Limit.check] at h
  split_ifs at h with hlt
  obtain rfl := Except.ok.inj h
  exact Int.toNat_of_nonneg (by omega)

/-- The summary stage is left out, or a summarizing strategy over the basic one. -/
theorem ContextStrategyOptions.addSummary_eq_ok {options : ContextStrategyOptions}
    {inner : ContextStrategy} (h : options.addSummary .basic = .ok inner) :
    (options.enableSummary = false ∧ inner = .basic) ∨
      ∃ summarizer after keep, options.enableSummary = true ∧
        options.summarizer = some summarizer ∧
        (after.value : Int) = options.summarizeAfterMessages ∧
        (keep.value : Int) = options.keepRecentMessages ∧
        inner = .summarizing .basic summarizer after keep := by
  rw [addSummary] at h
  split_ifs at h with henable
  · rcases hsummarizer : options.summarizer with _ | summarizer
    · simp [hsummarizer] at h
    · rw [hsummarizer] at h
      obtain ⟨after, hafter, h⟩ := exists_of_bind_eq_ok h
      obtain ⟨keep, hkeep, h⟩ := exists_of_bind_eq_ok h
      exact Or.inr ⟨summarizer, after, keep, henable, rfl, Limit.value_of_check hafter,
        Limit.value_of_check hkeep, (Except.ok.inj h).symm⟩
  · exact Or.inl ⟨by simpa using henable, (Except.ok.inj h).symm⟩

namespace ComposeRequest

theorem keptTurn_sublist_composeBasic (request : ComposeRequest) :
    request.keptTurn.Sublist (composeBasic request).messages := by
  obtain ⟨before, lead, history, hsystem, hturn, -, -⟩ := request.systemPrefix_organize
  have hbasic := systemPrefix_append (composeBasic request).messages
  rw [request.systemPrefix_composeBasic, hsystem] at hbasic
  rw [← hbasic, hturn]
  refine List.Sublist.append ?_ (List.sublist_append_right history request.turnBody)
  exact (List.sublist_append_right before lead).trans (List.sublist_append_left _ _)

/-- A summary with the turn among the recent groups keeps it. -/
theorem keptTurn_sublist_summarize (request : ComposeRequest) (summarizer : List Message → Message)
    (after keep : Nat)
    (h : request.messageCount ≤ after ∨ request.turnBody.length ≤ keep ∨
      (messageGroups 0 request.turnBody).length ≤ 1) :
    request.keptTurn.Sublist (summarize summarizer after keep (composeBasic request)).messages := by
  obtain ⟨removed, hgroups, ⟨hself, -⟩ | ⟨hafter, -, -, hmessages⟩⟩ :=
    summarize_messages summarizer after keep (composeBasic request)
  · rw [hself]
    exact request.keptTurn_sublist_composeBasic
  · obtain ⟨before, lead, history, hsystem, hturn, hhistory, hbody⟩ :=
      request.systemPrefix_organize
    rw [hmessages, request.systemPrefix_composeBasic, hsystem, hturn]
    rw [request.systemPrefix_composeBasic, hsystem] at hgroups
    simp only at hgroups ⊢
    rw [hhistory.messageGroups_append hbody] at hgroups ⊢
    rw [request.length_composeBasic] at hafter
    -- the recent groups reach back over the turn
    have hreach := (length_le_tailGroups_iff keep fun g hg => by
      rw [← hhistory.messageGroups_append hbody] at hg
      exact ne_nil_of_mem_messageGroups hg).mpr (by
        rw [messageGroups_flatten]
        rcases h with h | h | h
        · exact absurd h (by omega)
        · exact Or.inr h
        · exact Or.inl h)
    have hsuffix := List.suffix_of_suffix_length_le
      (List.suffix_append (messageGroups 0 history) (messageGroups 0 request.turnBody))
      (tailGroupsByMessageCount_suffix _ keep) hreach
    have hrecent := hsuffix.sublist.flatten
    rw [messageGroups_flatten] at hrecent
    refine List.Sublist.append ?_ (hrecent.cons _)
    exact (List.sublist_append_right before lead).trans (List.sublist_append_left _ _)

/-- Otherwise a message of the turn is not in the request any more. -/
theorem exists_lost_of_summarize (request : ComposeRequest) {options : ContextStrategyOptions}
    (hdistinct : options.Distinct request) {summarizer : List Message → Message}
    (hsummarizer : options.summarizer = some summarizer) (after keep : Nat)
    (hafter : after < request.messageCount) (hkeep : keep < request.turnBody.length)
    (hgroups : 1 < (messageGroups 0 request.turnBody).length) :
    ∃ m ∈ request.keptTurn,
      m ∉ (summarize summarizer after keep (composeBasic request)).messages := by
  obtain ⟨before, lead, history, hsystem, hturn, hhistory, hbody⟩ := request.systemPrefix_organize
  have hspec := summarize_messages summarizer after keep (composeBasic request)
  rw [request.systemPrefix_composeBasic, hsystem] at hspec
  simp only [hhistory.messageGroups_append hbody] at hspec
  obtain ⟨removed, hremoved, hspec⟩ := hspec
  set recent := tailGroupsByMessageCount
    (messageGroups 0 history ++ messageGroups 0 request.turnBody) keep
  have hreach : recent.length < (messageGroups 0 request.turnBody).length := by
    refine Nat.lt_of_not_le fun hle => ?_
    rcases (length_le_tailGroups_iff keep fun g hg => by
      rw [← hhistory.messageGroups_append hbody] at hg
      exact ne_nil_of_mem_messageGroups hg).mp hle with h | h
    · omega
    · rw [messageGroups_flatten] at h
      omega
  -- the turn begins among the removed groups
  obtain ⟨lost, hlost⟩ : recent <:+ messageGroups 0 request.turnBody :=
    List.suffix_of_suffix_length_le (tailGroupsByMessageCount_suffix _ keep)
      (List.suffix_append _ _) hreach.le
  have hbodySplit : request.turnBody = lost.flatten ++ recent.flatten := by
    rw [← messageGroups_flatten request.turnBody, ← hlost, List.flatten_append]
  have hmessages : (summarize summarizer after keep (composeBasic request)).messages =
      before ++ lead ++ request.memoryMessage.toList ++
        summarizer removed.flatten :: recent.flatten := by
    rcases hspec with ⟨-, h | h | h⟩ | ⟨-, -, -, h⟩
    · rw [request.length_composeBasic] at h
      omega
    · simp only [List.length_append] at h
      omega
    · rw [h, List.nil_append] at hremoved
      have := congrArg List.length hremoved
      simp only [List.length_append] at this
      omega
    · exact h
  obtain ⟨g, rest, rfl⟩ : ∃ g rest, lost = g :: rest := by
    refine List.exists_cons_of_ne_nil fun hnil => ?_
    rw [hnil, List.nil_append] at hlost
    rw [hlost] at hreach
    exact lt_irrefl _ hreach
  have hg : g ∈ messageGroups 0 request.turnBody := by
    rw [← hlost]
    simp
  obtain ⟨m, tail, rfl⟩ := List.exists_cons_of_ne_nil (ne_nil_of_mem_messageGroups hg)
  have hmTurn : m ∈ request.keptTurn := by
    rw [hturn, hbodySplit]
    simp
  have hmRequest : m ∈ request.messages := (activeMessages_sublist _).subset hmTurn
  -- and the messages of the request are pairwise different
  have hnodup : (before ++ lead ++ (history ++ request.turnBody)).Nodup := by
    have horg := systemPrefix_append (organize request)
    rw [hsystem] at horg
    rw [horg]
    exact ((activeMessages_sublist request.stored).append
      (activeMessages_sublist request.messages)).nodup
      (List.Pairwise.of_map Message.object (fun _ _ hne heq => hne (congrArg _ heq)) hdistinct.nodup)
  rw [hbodySplit] at hnodup
  refine ⟨m, hmTurn, fun hmem => ?_⟩
  rw [hmessages] at hmem
  rcases List.mem_append.mp hmem with hmem | hmem
  · rcases List.mem_append.mp hmem with hmem | hmem
    · exact (List.nodup_append.mp hnodup).2.2 m hmem m (by simp) rfl
    · -- the memory message is an object of its own
      obtain ⟨memories, -, hmemory⟩ := Option.bind_eq_some_iff.mp (Option.mem_toList.mp hmem)
      cases memories with
      | nil => simp [composeMemoryMessage] at hmemory
      | cons head more =>
        have hobject : m.object = request.memoryObject := by
          rw [← Option.some.inj hmemory]
        exact hdistinct.memory m hmRequest hobject
  · rcases List.mem_cons.mp hmem with hmem | hmem
    · exact hdistinct.summary summarizer hsummarizer removed.flatten m hmRequest
        (congrArg Message.object hmem)
    · have hright := (List.nodup_append.mp hnodup).2.1
      have hbody' := (List.nodup_append.mp hright).2.1
      exact (List.nodup_append.mp hbody').2.2 m (by simp) m hmem rfl

end ComposeRequest

/-! ### The result -/

/-- **The current turn is protected** in a request of any chain the runtime builds exactly when the
turn survives the summary stage. That it survives is enough; where all messages are objects of
their own it is needed as well. -/
theorem currentTurnProtected_iff (options : ContextStrategyOptions) (chain : ContextStrategy)
    (hchain : createContextStrategy options = .ok chain) (request : ComposeRequest) :
    (options.KeepsTurn request →
      request.keptTurn.Sublist (chain.composeChatRequest request).messages) ∧
    (options.Distinct request →
      request.keptTurn.Sublist (chain.composeChatRequest request).messages →
      options.KeepsTurn request) := by
  obtain ⟨inner, hinner, hkeeps⟩ := createContextStrategy_eq_ok hchain
  have hprot : ∀ m ∈ request.keptTurn, m.object ∈ protectedMessageIds request.messages :=
    fun m hm => List.mem_map_of_mem (List.mem_filter.mpr
      ⟨(activeMessages_sublist _).subset hm, isActive_of_mem_activeMessages hm⟩)
  rcases ContextStrategyOptions.addSummary_eq_ok hinner with
    ⟨hoff, rfl⟩ | ⟨summarizer, after, keep, hon, hsummarizer, hafter, hkeep, rfl⟩
  · exact ⟨fun _ => (hkeeps request).keeps hprot request.keptTurn_sublist_composeBasic,
      fun _ _ => Or.inl hoff⟩
  · constructor
    · intro h
      refine (hkeeps request).keeps hprot (request.keptTurn_sublist_summarize _ _ _ ?_)
      rcases h with h | h | h | h
      · rw [hon] at h
        simp at h
      · exact Or.inl (by omega)
      · exact Or.inr (Or.inl (by omega))
      · exact Or.inr (Or.inr h)
    · intro hdistinct hturn
      by_contra hlost
      have hcond : ¬ request.messageCount ≤ options.summarizeAfterMessages ∧
          ¬ (request.turnBody.length : Int) ≤ options.keepRecentMessages ∧
          ¬ (messageGroups 0 request.turnBody).length ≤ 1 := by
        refine ⟨fun h => hlost (Or.inr (Or.inl h)), fun h => hlost (Or.inr (Or.inr (Or.inl h))),
          fun h => hlost (Or.inr (Or.inr (Or.inr h)))⟩
      obtain ⟨m, hm, hgone⟩ := request.exists_lost_of_summarize hdistinct hsummarizer after.value
        keep.value (by omega) (by omega) (by omega)
      exact hgone ((hkeeps request).sublist.subset (hturn.subset hm))

section Example

/-- A message without content. -/
private def plainMessage (object : Nat) (role : MessageRole) : Message := ⟨object, { role }⟩

/-- Summaries from the second message on, one recent message. -/
private def summaryOptions : ContextStrategyOptions where
  enableSummary := true
  summarizer := some fun _ => plainMessage 9 .system
  summarizeAfterMessages := 1
  keepRecentMessages := 1
  maxMessages := some 4
  estimate := fun _ => 1

private def twoMessageTurn : ComposeRequest where
  contextId := "c"
  stored := []
  modelId := "m"
  messages := [plainMessage 0 .user, plainMessage 1 .user]
  memoryObject := 8

theorem currentTurnProtected_oneMessage :
    (createContextStrategy summaryOptions).toOption.map (fun chain =>
      (chain.composeChatRequest { twoMessageTurn with
        stored := [plainMessage 2 .user], messages := [plainMessage 0 .user] }).messages) =
        some [plainMessage 9 .system, plainMessage 0 .user] ∧
    [plainMessage 0 .user].Sublist [plainMessage 9 .system, plainMessage 0 .user] := by
  refine ⟨by decide, ?_⟩
  exact (currentTurnProtected_iff summaryOptions _ rfl { twoMessageTurn with
    stored := [plainMessage 2 .user], messages := [plainMessage 0 .user] }).1
    (Or.inr (Or.inr (Or.inl (by decide))))

/-- A turn of two messages under one recent message: the first is summarized away. -/
theorem not_currentTurnProtected :
    ¬ ∀ (options : ContextStrategyOptions) (chain : ContextStrategy),
      createContextStrategy options = .ok chain → ∀ request : ComposeRequest,
        request.keptTurn.Sublist (chain.composeChatRequest request).messages := by
  intro hall
  have hlost := hall summaryOptions _ rfl twoMessageTurn
  exact absurd hlost (by decide)

end Example

end EvernightAI
