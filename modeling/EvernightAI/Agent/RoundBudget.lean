import EvernightAI.Agent.RunPolicy

/-!
# The round budget of a run

A run may have as many tool rounds as its request allows. The rounds that are left are counted down
when a round is over, recomputed when a run is resumed from a checkpoint, recorded with every
response, and restored from there; an interruption may fall between any two of these. Here: however
the run is interrupted, recovered and resumed, no call of a round beyond the budget reaches an
executor.

* `Budgeted` says of a journal that each response recorded no more rounds than were left, counting
  the responses before it.
* `AgentRunState.Within` says it of a snapshot: the rounds left and the round it is in make no more
  than the budget and the response that ends the run.
* `roundBudget` is the policy of the run, `toolRound_le_of_invoked` what follows for its calls.
-/

namespace EvernightAI

open Journal

/-! ### Snapshots within the budget -/

namespace AgentRunState

variable {maxRounds : Nat} {state state' : AgentRunState}

/-- **Within the budget.** The rounds left and the current one do not exceed the budget by more than
the response after the last round, and a round in which a call was completed is one of the budget. -/
structure Within (maxRounds : Nat) (state : AgentRunState) : Prop where
  rounds : state.remainingToolRounds + state.currentToolRound ≤ maxRounds + 1
  completed : state.currentRoundCompletedToolCallIds ≠ [] → state.currentToolRound ≤ maxRounds

theorem Within.congr (h : state.Within maxRounds) (hsteps : state'.tracedSteps = state.tracedSteps)
    (hrounds : state'.remainingToolRounds ≤ state.remainingToolRounds) : state'.Within maxRounds where
  rounds := by
    have hround := currentToolRound_congr hsteps
    have hold := h.rounds
    omega
  completed := by
    rw [completed_congr hsteps, currentToolRound_congr hsteps]
    exact h.completed

/-- A CHAT step begins a round. -/
theorem currentToolRound_append_chat {step : AgentStep} (hchat : step.stepType = .chat)
    (hsteps : state'.steps = state.steps ++ [step]) :
    state'.currentToolRound = state.currentToolRound + 1 ∧
      state'.currentRoundCompletedToolCallIds = [] := by
  constructor
  · rw [currentToolRound, hsteps, List.countP_append, currentToolRound]
    simp [hchat]
  · rw [currentRoundCompletedToolCallIds, currentRoundSteps, hsteps]
    simp [hchat]

/-- A TOOL step stays in its round. -/
theorem Within.addTool (h : state.Within maxRounds) {step : AgentStep}
    (hchat : step.stepType ≠ .chat) (hsteps : state'.steps = state.steps ++ [step])
    (hrounds : state'.remainingToolRounds = state.remainingToolRounds)
    (hround : state.currentToolRound ≤ maxRounds) : state'.Within maxRounds := by
  have hsame : state'.currentToolRound = state.currentToolRound := by
    rw [currentToolRound, hsteps, List.countP_append, currentToolRound]
    simp [hchat]
  refine ⟨?_, fun _ => hsame ▸ hround⟩
  rw [hrounds, hsame]
  exact h.rounds

end AgentRunState

/-! ### Journals within the budget -/

/-- The response that a CHAT_COMPLETED event stands for. -/
def AgentTraceEvent.chats (event : AgentTraceEvent) : Nat :=
  if event.eventType = .chatCompleted then 1 else 0

/-- What an event of round `n + 1` or, for a tool, of round `n` recorded is within the budget. -/
structure AgentTraceEvent.Budgeted (maxRounds n : Nat) (event : AgentTraceEvent) : Prop where
  chat : event.eventType = .chatCompleted →
    ∃ left : Nat, event.metadata.get "remaining_tool_rounds" = some (.int left) ∧
      left + n ≤ maxRounds
  tool : event.eventType = .toolCompleted ∨ event.eventType = .toolFailed → n ≤ maxRounds

/-- The events recorded after `n` responses are within the budget. -/
def Budgeted (maxRounds : Nat) : Nat → List AgentTraceEvent → Prop
  | _, [] => True
  | n, event :: events => event.Budgeted maxRounds n ∧ Budgeted maxRounds (n + event.chats) events

section Journals

variable {maxRounds n : Nat} {journal events : List AgentTraceEvent} {event : AgentTraceEvent}

def responses (events : List AgentTraceEvent) : Nat :=
  events.countP (·.eventType = .chatCompleted)

theorem responses_cons (event : AgentTraceEvent) (events : List AgentTraceEvent) :
    responses (event :: events) = event.chats + responses events := by
  rw [responses, List.countP_cons, responses, AgentTraceEvent.chats, Nat.add_comm]
  by_cases hchat : event.eventType = .chatCompleted <;> simp [hchat]

theorem budgeted_append : Budgeted maxRounds n (journal ++ events) ↔
    Budgeted maxRounds n journal ∧ Budgeted maxRounds (n + responses journal) events := by
  induction journal generalizing n with
  | nil => simp [Budgeted, responses]
  | cons e journal ih =>
    rw [List.cons_append, Budgeted, Budgeted, ih, responses_cons, and_assoc, Nat.add_assoc]

/-- The events after a moment are within what was left then. -/
theorem Budgeted.drop (h : Budgeted maxRounds 0 journal) (cursor : Nat) :
    Budgeted maxRounds (responses (journal.take cursor)) (journal.drop cursor) := by
  rw [← List.take_append_drop cursor journal] at h
  rw [← Nat.zero_add (responses (journal.take cursor))]
  exact (budgeted_append.mp h).2

/-- What the journal says of the responses, and how many there are. -/
theorem chats_ofJournal (h : ∀ e ∈ journal, e.Restorable maxRounds) :
    (Replayed.ofJournal maxRounds journal).steps.countP (·.stepType = .chat) =
      responses journal := by
  have hnext : ∀ (replayed : Replayed) (e : AgentTraceEvent), e.Restorable maxRounds →
      (replayed.next e).steps.countP (·.stepType = .chat) =
        replayed.steps.countP (·.stepType = .chat) + e.chats := by
    intro replayed e he
    rw [Replayed.next, AgentTraceEvent.chats]
    cases htype : e.eventType <;> simp only [AgentTraceEvent.Restorable, htype] at he ⊢
    case chatCompleted =>
      obtain ⟨⟨response, hresponse⟩, -⟩ := he
      simp [hresponse, AgentTraceEvent.chatStep]
    case toolCompleted | toolFailed =>
      obtain ⟨call, hcall⟩ := he
      simp [hcall, AgentTraceEvent.toolStep, htype]
    all_goals rfl
  induction journal using List.reverseRecOn with
  | nil => rfl
  | append_singleton journal e ih =>
    have hinit := ih fun e' he' => h e' (List.mem_append_left _ he')
    rw [ofJournal_append, hnext _ e (h e (List.mem_append_right _ List.mem_cons_self)), hinit,
      responses, responses, List.countP_append, AgentTraceEvent.chats, List.countP_singleton]
    by_cases hchat : e.eventType = .chatCompleted <;> simp [hchat]

/-- While the journal has no response, it has none that counts. -/
theorem responses_of_response_none (h : ∀ e ∈ journal, e.Restorable maxRounds)
    (hnone : (Replayed.ofJournal maxRounds journal).response = none) : responses journal = 0 := by
  induction journal using List.reverseRecOn with
  | nil => rfl
  | append_singleton journal e ih =>
    have he := h e (List.mem_append_right _ List.mem_cons_self)
    have hinit := ih fun e' he' => h e' (List.mem_append_left _ he')
    rw [ofJournal_append, Replayed.next] at hnone
    rw [responses, List.countP_append, ← responses, List.countP_singleton]
    cases htype : e.eventType <;> simp only [AgentTraceEvent.Restorable, htype] at he hnone ⊢
    case chatCompleted =>
      obtain ⟨⟨response, hresponse⟩, -⟩ := he
      rw [hresponse] at hnone
      exact absurd hnone (Option.some_ne_none _)
    case toolCompleted | toolFailed =>
      obtain ⟨call, hcall⟩ := he
      rw [hcall] at hnone
      exact hinit hnone
    all_goals exact hinit hnone

end Journals

/-! ### Restoring within the budget -/

section Restore

variable {maxRounds nextEventId n : Nat} {journal tail : List AgentTraceEvent}
  {event : AgentTraceEvent} {state state' : AgentRunState}

/-- A restored step that no event of its kind stands for. -/
private theorem within_of_untraced (h : state.Within maxRounds) {steps : List AgentStep}
    (hsteps : state'.steps = state.steps ++ steps)
    (huntraced : ∀ step ∈ steps, step.stepType.traced = false)
    (hrounds : state'.remainingToolRounds = state.remainingToolRounds) :
    state'.Within maxRounds ∧ state'.currentToolRound = state.currentToolRound := by
  have hnone : steps.filter (·.stepType.traced) = [] :=
    List.filter_eq_nil_iff.mpr fun step hstep => by simp [huntraced step hstep]
  have hsame : state'.tracedSteps = state.tracedSteps := by
    rw [AgentRunState.tracedSteps, hsteps, List.filter_append, hnone, List.append_nil]
    rfl
  exact ⟨h.congr hsame hrounds.le, AgentRunState.currentToolRound_congr hsame⟩

/-- A restored response, of an event that recorded the rounds left. -/
private theorem within_of_chat {step : AgentStep} (hchat : step.stepType = .chat)
    (hsteps : state'.steps = state.steps ++ [step])
    (hle : state'.remainingToolRounds + state.currentToolRound ≤ maxRounds) :
    state'.Within maxRounds ∧ state'.currentToolRound = state.currentToolRound + 1 := by
  obtain ⟨hnext, hnone⟩ := AgentRunState.currentToolRound_append_chat hchat hsteps
  refine ⟨⟨?_, fun hne => absurd hnone hne⟩, hnext⟩
  rw [hnext]
  omega

/-- A restored TOOL step. -/
private theorem within_of_tool (h : state.Within maxRounds) {step : AgentStep}
    (hchat : step.stepType ≠ .chat) (hsteps : state'.steps = state.steps ++ [step])
    (hrounds : state'.remainingToolRounds = state.remainingToolRounds)
    (hround : state.currentToolRound ≤ maxRounds) :
    state'.Within maxRounds ∧ state'.currentToolRound = state.currentToolRound := by
  refine ⟨h.addTool hchat hsteps hrounds hround, ?_⟩
  rw [AgentRunState.currentToolRound, hsteps, List.countP_append, AgentRunState.currentToolRound]
  simp [hchat]

private theorem within_of_addStep (h : state.Within maxRounds) {step : AgentStep}
    (hchat : step.stepType ≠ .chat) (hround : state.currentToolRound ≤ maxRounds) :
    (state.addStep step).Within maxRounds ∧
      (state.addStep step).currentToolRound = state.currentToolRound :=
  within_of_tool h hchat rfl rfl hround

/-- The rounds of a response that its event recorded. -/
theorem restoredToolRounds_eq (hmax : state.request.maxToolRounds = maxRounds) {left : Nat}
    (hleft : event.metadata.get "remaining_tool_rounds" = some (.int left)) (hle : left ≤ maxRounds) :
    restoredToolRounds state event = left := by
  have hbound : (left : Int) ≤ state.request.maxToolRounds := by omega
  rw [restoredToolRounds, hleft]
  dsimp only
  rw [if_pos ⟨Int.natCast_nonneg left, hbound⟩, Int.toNat_natCast]

/-- One event, recorded after at least as many responses as the snapshot has. -/
theorem AgentRunState.Within.restoreEvent (h : state.Within maxRounds)
    (hmax : state.request.maxToolRounds = maxRounds) (hbudgeted : event.Budgeted maxRounds n)
    (hround : state.currentToolRound ≤ n) (hok : EvernightAI.restoreEvent event state = .ok state') :
    state'.Within maxRounds ∧ state'.currentToolRound ≤ n + event.chats ∧
      state'.request = state.request := by
  have hstays : ∀ {state'' : AgentRunState}, state''.Within maxRounds ∧
      state''.currentToolRound = state.currentToolRound → state''.request = state.request →
      state''.Within maxRounds ∧ state''.currentToolRound ≤ n + event.chats ∧
        state''.request = state.request :=
    fun hwithin hrequest => ⟨hwithin.1, by omega, hrequest⟩
  have hgrows : ∀ {state'' : AgentRunState}, event.chats = 1 → state''.Within maxRounds ∧
      state''.currentToolRound = state.currentToolRound + 1 → state''.request = state.request →
      state''.Within maxRounds ∧ state''.currentToolRound ≤ n + event.chats ∧
        state''.request = state.request :=
    fun hchats hwithin hrequest => ⟨hwithin.1, by omega, hrequest⟩
  have hkeeps : ∀ {state'' : AgentRunState}, state''.steps = state.steps →
      state''.remainingToolRounds = state.remainingToolRounds →
      state''.Within maxRounds ∧ state''.currentToolRound = state.currentToolRound :=
    fun hsteps hrounds => within_of_untraced h (hsteps.trans (List.append_nil _).symm)
      (fun step hstep => absurd hstep List.not_mem_nil) hrounds
  rw [EvernightAI.restoreEvent] at hok
  split at hok
  · next htype =>
    split at hok
    · exact absurd hok (by simp)
    · obtain rfl := Except.ok.inj hok
      obtain ⟨left, hleft, hle⟩ := hbudgeted.chat htype
      have hrestored := restoredToolRounds_eq hmax hleft (by omega)
      have hchats : event.chats = 1 := if_pos htype
      have hleft : restoredToolRounds state event + state.currentToolRound ≤ maxRounds := by omega
      exact hgrows hchats (within_of_chat rfl rfl hleft) rfl
  · next htype =>
    split at hok
    · exact absurd hok (by simp)
    · obtain rfl := Except.ok.inj hok
      refine hstays (within_of_tool h ?_ rfl rfl (hround.trans (hbudgeted.tool (Or.inl htype)))) rfl
      simp [htype]
  · next htype =>
    split at hok
    · exact absurd hok (by simp)
    · obtain rfl := Except.ok.inj hok
      refine hstays (within_of_tool h ?_ rfl rfl (hround.trans (hbudgeted.tool (Or.inr htype)))) rfl
      simp [htype]
  · split at hok
    · obtain rfl := Except.ok.inj hok
      exact hstays ⟨h, rfl⟩ rfl
    · obtain rfl := Except.ok.inj hok
      exact hstays (hkeeps rfl rfl) rfl
  · obtain rfl := Except.ok.inj hok
    exact hstays (within_of_untraced h rfl (by simp [AgentStepType.traced]) rfl) rfl
  · split at hok
    · exact absurd hok (by simp)
    · next stopReason status _ =>
      obtain rfl := Except.ok.inj hok
      cases stopReason with
      | none => exact hstays (hkeeps rfl rfl) rfl
      | some reason =>
        by_cases hstop : state.steps.any (·.stepType = .stop) = true
        · exact hstays (hkeeps (if_pos hstop) rfl) rfl
        · exact hstays (within_of_untraced h (if_neg hstop) (by simp [AgentStepType.traced]) rfl) rfl
  · obtain rfl := Except.ok.inj hok
    exact hstays ⟨h, rfl⟩ rfl

@[simp] private theorem tracedSteps_advanceTo (state : AgentRunState) (event : AgentTraceEvent) :
    (state.advanceTo event).tracedSteps = state.tracedSteps ∧
      (state.advanceTo event).remainingToolRounds = state.remainingToolRounds ∧
      (state.advanceTo event).request = state.request := by
  rw [AgentRunState.advanceTo]
  split
  · exact ⟨rfl, rfl, rfl⟩
  · exact ⟨rfl, rfl, rfl⟩

/-- The loop of a restoration. An event that is skipped only leaves the snapshot with fewer
responses than the journal. -/
theorem AgentRunState.Within.restoreEvents (applied : List Nat) (h : state.Within maxRounds)
    (hmax : state.request.maxToolRounds = maxRounds) (hbudgeted : Budgeted maxRounds n tail)
    (hround : state.currentToolRound ≤ n) :
    (EvernightAI.restoreEvents applied tail state).1.Within maxRounds := by
  have hadvance : ∀ {s : AgentRunState} (e : AgentTraceEvent), s.Within maxRounds →
      (s.advanceTo e).Within maxRounds ∧ (s.advanceTo e).currentToolRound = s.currentToolRound ∧
        (s.advanceTo e).request = s.request := by
    intro s e hs
    obtain ⟨hsteps, hrounds, hrequest⟩ := tracedSteps_advanceTo s e
    exact ⟨hs.congr hsteps hrounds.le, AgentRunState.currentToolRound_congr hsteps, hrequest⟩
  induction tail generalizing applied n state with
  | nil => exact h
  | cons e tail ih =>
    obtain ⟨hevent, hbudgeted⟩ := hbudgeted
    rw [EvernightAI.restoreEvents]
    split
    · obtain ⟨hwithin, hsame, hrequest⟩ := hadvance e h
      refine ih applied hwithin (by rw [hrequest, hmax]) hbudgeted ?_
      omega
    · split
      · exact h
      · next restored hok =>
        obtain ⟨hwithin, hle, hrequest⟩ := h.restoreEvent hmax hevent hround hok
        obtain ⟨hwithin', hsame, hrequest'⟩ := hadvance e hwithin
        have hmax' : (restored.advanceTo e).request.maxToolRounds = maxRounds := by
          rw [hrequest', hrequest, hmax]
        dsimp only
        split
        · exact ih _ hwithin' hmax' hbudgeted (by omega)
        · exact ih _ (hwithin'.congr rfl (le_refl _)) hmax' hbudgeted (hsame.le.trans hle)

/-- The responses of a snapshot are those of the journal up to its cursor. -/
theorem Snapshot.currentToolRound_eq {cursor : Nat}
    (h : Snapshot maxRounds nextEventId journal cursor state)
    (hjournaled : Journaled maxRounds nextEventId journal) :
    state.currentToolRound = responses (journal.take cursor) := by
  rw [AgentRunState.currentToolRound_eq, h.agrees.steps]
  exact chats_ofJournal fun e he => hjournaled.restorable e (List.mem_of_mem_take he)

/-- The responses of an up to date state are those of the journal. -/
theorem UpToDate.currentToolRound_eq (h : UpToDate maxRounds nextEventId journal state)
    (hjournaled : Journaled maxRounds nextEventId journal) :
    state.currentToolRound = responses journal := by
  rw [AgentRunState.currentToolRound_eq, h.agrees.steps]
  exact chats_ofJournal hjournaled.restorable

/-- **A restored snapshot is within the budget.** -/
theorem Snapshot.inspect_within {cursor : Nat}
    (h : Snapshot maxRounds nextEventId journal cursor state)
    (hjournaled : Journaled maxRounds nextEventId journal) (hbudgeted : Budgeted maxRounds 0 journal)
    (hwithin : state.Within maxRounds) (toolExecutions : Option (List ToolExecutionAttempt)) :
    (inspectAgentRunCheckpoint journal toolExecutions state).2.Within maxRounds := by
  have htail := hjournaled.checkpointTraceTail_eq h.toKept (Nat.zero_le cursor) h.applied
  rw [List.drop_zero] at htail
  have hrestored := hwithin.restoreEvents (state.steps.filterMap (·.traceEventId)) h.request_max
    (hbudgeted.drop cursor) (h.currentToolRound_eq hjournaled).le
  have hdata : (restoreCheckpointData journal state).1.Within maxRounds := by
    rw [restoreCheckpointData, htail]
    dsimp only
    split
    · next hpair => rw [hpair] at hrestored; exact hrestored
    · next hpair => rw [hpair] at hrestored; exact hrestored.congr rfl (le_refl _)
  rw [inspectAgentRunCheckpoint]
  split <;> (next hpair => rw [hpair] at hdata; exact hdata)

end Restore

/-! ### The policy -/

/-- A response records the rounds left; a tool ends in a round of the budget. -/
structure AgentTraceEvent.RecordedBy (maxRounds : Nat) (state : AgentRunState)
    (event : AgentTraceEvent) : Prop where
  chat : event.eventType = .chatCompleted →
    event.metadata.get "remaining_tool_rounds" = some (.int state.remainingToolRounds)
  tool : event.eventType = .toolCompleted ∨ event.eventType = .toolFailed →
    state.currentToolRound ≤ maxRounds

namespace RunWorld

variable {runtime : AgentRuntime} {maxRounds : Nat} {past : Moment} {world : RunWorld}
  {state : AgentRunState}

/-- A response records the rounds left. -/
theorem metadata_tracedEvent (state : AgentRunState) (eventId : Nat) {event : AgentTraceEvent}
    (hchat : event.eventType = .chatCompleted) :
    (state.tracedEvent eventId event).metadata.get "remaining_tool_rounds" =
      some (.int state.remainingToolRounds) := by
  have hmetadata : (state.tracedEvent eventId event).metadata =
      event.metadata.set "remaining_tool_rounds" (.int state.remainingToolRounds) := if_pos hchat
  rw [hmetadata, Dict.get_set_self]

/-- A round with a call to handle is one of the budget. -/
theorem round_le (hstate : state.Within maxRounds) (hleft : 0 < state.remainingToolRounds) :
    state.currentToolRound ≤ maxRounds := by
  have hrounds := hstate.rounds
  omega

/-- A plain event records nothing of the budget. -/
theorem not_plain {eventType : AgentTraceEventType} (hplain : eventType.plain = true) :
    eventType ≠ .chatCompleted ∧ ¬(eventType = .toolCompleted ∨ eventType = .toolFailed) := by
  cases eventType <;> simp_all [AgentTraceEventType.plain]

/-- **The budget of a run**: of its journal, of its snapshots and of the calls that reached an
executor. After a round, the round is counted; in the loop over the calls, a round is left. -/
def roundBudget (runtime : AgentRuntime) (maxRounds : Nat) : RunPolicy runtime where
  snapshot _ state := state.Within maxRounds
  duty state
    | .answer => state.remainingToolRounds + state.currentToolRound ≤ maxRounds
    | .enter remaining => remaining + state.currentToolRound ≤ maxRounds + 1
    | .next | .call _ => 0 < state.remainingToolRounds
    | .record event => event.RecordedBy maxRounds state
  journal events := Budgeted maxRounds 0 events
  invoked _ toolRound _ := toolRound ≤ maxRounds
  snapshot_alike h halike := h.congr halike.steps halike.remaining.le
  duty_alike {_ _ d} h halike := by
    have hround := AgentRunState.currentToolRound_congr halike.steps
    cases d with
    | record event =>
      exact ⟨fun hchat => halike.remaining ▸ h.chat hchat, fun htool => hround ▸ h.tool htool⟩
    | answer | enter | next | call => simpa only [hround, halike.remaining] using h
  snapshot_supply _ h := h
  invoked_supply _ h := h
  record_plain hplain :=
    ⟨fun hchat => absurd hchat (not_plain hplain).1, fun htool => absurd htool (not_plain hplain).2⟩
  journal_plain hplain h := budgeted_append.mpr ⟨h, ⟨fun hchat => absurd hchat (not_plain hplain).1,
    fun htool => absurd htool (not_plain hplain).2⟩, trivial⟩
  merge _ h _ _ := h.congr rfl (le_refl _)
  reenter h := h.rounds
  enter h hleft := ⟨hleft, h.completed⟩
  next h := h
  prepare _ _ _ h := h
  endRound {_ state} h hround := by
    have hrounds := h.rounds
    have hanswer : state.remainingToolRounds - 1 + state.currentToolRound ≤ maxRounds := by
      rcases hround with hleft | hdone
      · have hleft : 0 < state.remainingToolRounds := hleft
        omega
      · have hround := h.completed hdone
        omega
    exact ⟨h.congr rfl (Nat.sub_le _ _), hanswer⟩
  invoke _ h hleft _ := round_le h hleft
  finish h hleft hstep := by
    have hround := round_le h hleft
    obtain ⟨hwithin, hsame⟩ := within_of_addStep h hstep hround
    exact ⟨hwithin, hleft, fun _ hchat => ⟨fun hc => absurd hc hchat, fun _ => hsame.le.trans hround⟩⟩

/-- The event of a session that is up to date with the journal once it has it. -/
theorem budgeted_of_emitting {nextEventId : Nat} {journal : List AgentTraceEvent}
    {event : AgentTraceEvent} (hjournaled : Journaled maxRounds nextEventId journal)
    (hemitting : Emitting maxRounds nextEventId journal event state)
    (hstate : state.Within maxRounds) (hrecorded : event.RecordedBy maxRounds state) :
    event.Budgeted maxRounds (responses journal) := by
  have hround : state.currentToolRound = responses journal + event.chats := by
    rw [AgentRunState.currentToolRound_eq, hemitting.agrees.steps, ← ofJournal_append,
      chats_ofJournal fun e he => ?_, responses, List.countP_append, ← responses,
      AgentTraceEvent.chats, List.countP_singleton]
    · by_cases hchat : event.eventType = .chatCompleted <;> simp [hchat]
    · rcases List.mem_append.mp he with he | he
      · exact hjournaled.restorable e he
      · exact List.mem_singleton.mp he ▸ hemitting.restorable
  refine ⟨fun hchat => ⟨state.remainingToolRounds, hrecorded.chat hchat, ?_⟩, fun ht => ?_⟩
  · have hchats : event.chats = 1 := if_pos hchat
    have hrounds := hstate.rounds
    omega
  · have hle := hrecorded.tool ht
    omega

/-- A response begins a round: the budget that was left, or the whole budget at first. -/
theorem follows_chatCompleted {afterRound : Bool}
    (h : world.Follows (roundBudget runtime maxRounds))
    (hmax : state.request.maxToolRounds = maxRounds)
    (hleft : (if afterRound then state.remainingToolRounds else maxRounds) +
      state.currentToolRound ≤ maxRounds)
    (hsame : afterRound = false → state.remainingToolRounds = maxRounds) (response : ChatResponse) :
    (world.chatCompleted state afterRound response).Follows (roundBudget runtime maxRounds) := by
  let event : AgentTraceEvent := {
    eventType := .chatCompleted, stepType := some .chat
    response := some response, message := some response.message }
  let traced := state.tracedEvent world.nextEventId event
  let added := state.addTrace world.nextEventId event
  let answered : AgentRunState := { added.addStep {
      stepType := .chat, traceEventId := traced.eventId
      response := some response, message := some response.message } with response := some response }
  have hround : added.currentToolRound = state.currentToolRound :=
    AgentRunState.currentToolRound_congr
      (AgentRunState.steps_addTrace state world.nextEventId event).1
  have hremaining : state.remainingToolRounds + state.currentToolRound ≤ maxRounds := by
    cases afterRound with
    | true => exact hleft
    | false => rw [hsame rfl]; exact hleft
  have hadded : added.remainingToolRounds + added.currentToolRound ≤ maxRounds := by
    rw [hround]
    exact hremaining
  obtain ⟨hwithin, hnext⟩ : answered.Within maxRounds ∧
      answered.currentToolRound = added.currentToolRound + 1 := within_of_chat rfl rfl hadded
  refine h.goOn _ _ h.journal h.stored _ _ ⟨hwithin, List.forall_mem_cons.mpr ⟨⟨fun _ => ?_,
    fun ht => ?_⟩, List.forall_mem_singleton.mpr ?_⟩⟩
  · exact metadata_tracedEvent state world.nextEventId rfl
  · exact absurd ht (by simp [AgentRunState.tracedEvent])
  · show (if afterRound then state.remainingToolRounds else state.request.maxToolRounds) +
      answered.currentToolRound ≤ maxRounds + 1
    rw [hmax, hnext, hround]
    omega

/-- With the journal that the run replays, the budget is upheld. -/
theorem upheld_roundBudget (h : world.Follows (roundBudget runtime maxRounds))
    (hreplays : world.Replays maxRounds past) : world.Upheld (roundBudget runtime maxRounds) where
  respond {state afterRound} hsession response := by
    obtain ⟨hstate, hduties⟩ := h.session _ _ hsession
    obtain ⟨hup, hready⟩ := hreplays.ready _ _ hsession
    cases afterRound with
    | true =>
      refine follows_chatCompleted h hup.kept.request_max ?_
        (fun hfalse => absurd hfalse (by simp)) response
      exact hduties _ List.mem_cons_self
    | false =>
      -- before the first response there is no round
      have hnone : state.currentToolRound = 0 := by
        rw [hup.currentToolRound_eq hreplays.journaled]
        exact responses_of_response_none hreplays.journaled.restorable
          (hup.agrees.response.symm.trans hready.2)
      refine follows_chatCompleted h hup.kept.request_max ?_
        (fun _ => hup.kept.initial hready.2) response
      rw [hnone]
      exact le_refl _
  store hsession := by
    obtain ⟨hstate, hduties⟩ := h.session _ _ hsession
    obtain ⟨hemitting, -⟩ := hreplays.ready _ _ hsession
    refine budgeted_append.mpr ⟨h.journal, ?_, trivial⟩
    rw [Nat.zero_add]
    have hevent := budgeted_of_emitting hreplays.journaled hemitting hstate
      (hduties _ List.mem_cons_self)
    exact ⟨hevent.chat, hevent.tool⟩
  inspect hstate toolExecutions := by
    rcases hstate with rfl | ⟨attempts, hsession⟩
    · obtain ⟨cursor, hsnapshot⟩ := hreplays.stored
      have hqueried : Snapshot maxRounds world.nextEventId world.record.journal cursor
          world.record.queriedState := by
        rw [RunRecord.queriedState]
        split
        · exact hsnapshot
        · exact { hsnapshot with agrees := { hsnapshot.agrees with } }
      have halike := AgentRunState.alike_queriedState world.record
      exact hqueried.inspect_within hreplays.journaled h.journal
        (h.stored.congr halike.steps halike.remaining.le) toolExecutions
    · have hup : UpToDate maxRounds world.nextEventId world.record.journal _ :=
        hreplays.ready _ _ hsession
      obtain ⟨cursor, hsnapshot, -⟩ := hup
      exact hsnapshot.inspect_within hreplays.journaled h.journal
        (h.session _ _ hsession).snapshot toolExecutions

section Example

private def indexRuntime : AgentRuntime where
  tools := { tool? := fun name => if name = "index" then some { name := "index" } else none }

private def indexAnswer : ChatResponse where
  modelId := "m"
  message := {
    role := .assistant
    toolCalls := some [{ toolCallId := "i", toolCall := [("name", .str "index")] }] }

/-- The process dies when the response is in the journal and in no snapshot; the run is recovered,
resumed, and the tool of its only round is called. -/
private def recoveredOperations : List RunOperation :=
  List.replicate 4 (.step .go) ++ [.step (.respond indexAnswer), .step .go, .step .crash,
    .step (.recover 100 0), .step (.resume [])] ++ List.replicate 10 (.step .go)

private def indexing : RunWorld :=
  TransitionSystem.reached (operate indexRuntime)
    (started "r" 0 { contextId := "c", modelId := "m" } [] (some ∅)) recoveredOperations (by decide)

end Example

end RunWorld

end EvernightAI
