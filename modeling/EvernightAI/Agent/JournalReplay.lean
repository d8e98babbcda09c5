import EvernightAI.Agent.ExecutionSteps
import EvernightAI.Agent.OperatorResolution
import EvernightAI.Agent.Replay

/-!
# Replaying the journal of a run

A snapshot is saved after its events were journaled, so recovery may find events the snapshot does
not have. Here the snapshot at any moment of a run is restored with the journal of any later moment
and compared with the state the run then has.

* `RunOperation` adds to the steps of an execution what else is done to a run: it is canceled, the
  process shuts down, an operator resolves an attempt.
* `Replays` is the invariant: the stored snapshot agrees with a beginning of the journal, the
  session's state with all of it.
* `restoreCheckpointData_live` is the comparison.
-/

namespace EvernightAI

open Journal

/-! ### What else is done to a run -/

/-- What is done to a run: a step of its execution or of what controls it. -/
inductive RunOperation
  | step (label : RunLabel)
  | cancel (reason : Option String)
  | shutdown
  | resolve (toolCallId : String) (attempt : Nat) (resolution : ToolExecutionResolution)
      (result : Option Dict) (reason : Option String)

/-- The RUN_STOPPED event of a canceled run. -/
def canceledEvent (reason : Option String) : AgentTraceEvent where
  eventType := .runStopped
  metadata := ("reason", .str "canceled") ::
    ((reason.filter (· ≠ "")).map fun text => ("control_reason", Value.str text)).toList

namespace RunWorld

variable (runtime : AgentRuntime) (world : RunWorld)

/-- `cancel`, of a run that has not stopped -/
def cancel (reason : Option String) : RunWorld :=
  let loaded := world.loadedState
  let event := canceledEvent reason
  let canceled := { loaded.addTrace world.nextEventId event with
    status := .canceled, stopReason := none, pendingToolCalls := [], pendingApprovalRequests := []
    pause := none, cancelReason := some (textOr reason "canceled") }
  let traced := loaded.tracedEvent world.nextEventId event
  { world with
    nextEventId := world.nextEventId + 1
    record := { world.record.appendEvent traced with
      state := canceled.applySequence traced world.record.nextSequence } }

/-- `_pause_running_states`, of a run that nothing executes any more -/
def shutdown : RunWorld :=
  let (checkpoint, state) := world.record.inspectCheckpoint world.record.queriedState
  { world with record :=
      world.record.markStartedUnknown.pauseRestored .shutdown "shutdown" checkpoint state }

/-- One operation on the run. -/
def operate (world : RunWorld) : RunOperation → Option RunWorld
  | .step label => step runtime world label
  | .cancel reason =>
    if world.record.state.status.terminal then none else some (world.cancel reason)
  | .shutdown =>
    if world.session = none ∧ world.record.state.status = .running then some world.shutdown
    else none
  | .resolve toolCallId attempt resolution result reason =>
    match world.record.resolveToolExecution world.nextEventId toolCallId attempt resolution result
      reason with
    | .ok record => some { world with record, nextEventId := world.nextEventId + 1 }
    | .error _ => none

end RunWorld

/-- The events after the snapshot's cursor. -/
def AgentRunState.eventsAfter (state : AgentRunState) (events : List AgentTraceEvent) :
    List AgentTraceEvent :=
  events.filter fun event => event.sequence.all (state.appliedTraceSequence.getD 0 < ·)

/-- The journal has no event after the stored snapshot that says something. -/
def RunRecord.current (record : RunRecord) : Bool :=
  (record.state.eventsAfter record.journal).all (·.inert)

/-- A resume, a cancellation and a resolution load a snapshot that is current; a run with a STOP step
gets no resolution. -/
def RunWorld.LoadsCurrent (world : RunWorld) : RunOperation → Prop
  | .step (.resume _) | .cancel _ => world.record.current = true
  | .resolve .. => world.record.current = true ∧ world.record.state.stopSteps = []
  | _ => True

instance (world : RunWorld) : (operation : RunOperation) → Decidable (world.LoadsCurrent operation)
  | .step (.resume _) | .cancel _ => inferInstanceAs (Decidable (_ = true))
  | .resolve .. => inferInstanceAs (Decidable (_ ∧ _))
  | .step .go | .step (.respond _) | .step (.delta _) | .step (.finish _) | .step (.remember _)
  | .step (.raise _) | .step (.interrupt _) | .step .crash | .step (.lease _ _) | .step (.pause _)
  | .step (.recover _ _) | .shutdown => isTrue trivial

/-! ### States that have all events of the journal -/

section UpToDate

variable {maxRounds nextEventId : Nat} {journal : List AgentTraceEvent} {cursor : Nat}
  {event : AgentTraceEvent} {state state' : AgentRunState}

/-- The snapshot has every event of the journal that says something. -/
def UpToDate (maxRounds nextEventId : Nat) (journal : List AgentTraceEvent) (state : AgentRunState) :
    Prop :=
  ∃ cursor, Snapshot maxRounds nextEventId journal cursor state ∧
    ∀ e ∈ journal.drop cursor, e.inert = true

/-- The state that has the event it is about to append to the journal. -/
structure Emitting (maxRounds nextEventId : Nat) (journal : List AgentTraceEvent)
    (event : AgentTraceEvent) (state : AgentRunState) : Prop extends
    state.Kept maxRounds nextEventId journal where
  restorable : event.Restorable maxRounds
  agrees : ((Replayed.ofJournal maxRounds journal).next event).Agrees state
  stop : ∀ reason, ((Replayed.ofJournal maxRounds journal).next event).stop = some reason →
    state.stopSteps = [stopStep reason]
  id_lt : ∀ i, event.eventId = some i → i < nextEventId
  fresh : event.inert = true ∨ ∀ e ∈ journal, ∀ i, e.eventId = some i → event.eventId ≠ some i

theorem UpToDate.kept (h : UpToDate maxRounds nextEventId journal state) :
    state.Kept maxRounds nextEventId journal :=
  h.choose_spec.1.toKept

private theorem ofJournal_take (h : ∀ e ∈ journal.drop cursor, e.inert = true) :
    Replayed.ofJournal maxRounds (journal.take cursor) = Replayed.ofJournal maxRounds journal :=
  replay_take_of_inert fun e he => Replayed.next_of_inert (h e he)

theorem UpToDate.agrees (h : UpToDate maxRounds nextEventId journal state) :
    (Replayed.ofJournal maxRounds journal).Agrees state := by
  obtain ⟨cursor, hsnapshot, hinert⟩ := h
  rw [← ofJournal_take hinert]
  exact hsnapshot.agrees

theorem UpToDate.stop (h : UpToDate maxRounds nextEventId journal state) {reason : AgentStopReason}
    (hstop : (Replayed.ofJournal maxRounds journal).stop = some reason) :
    state.stopSteps = [stopStep reason] := by
  obtain ⟨cursor, hsnapshot, hinert⟩ := h
  rw [← ofJournal_take hinert] at hstop
  exact hsnapshot.stop reason hstop

@[simp] theorem ofJournal_append :
    Replayed.ofJournal maxRounds (journal ++ [event]) =
      (Replayed.ofJournal maxRounds journal).next event :=
  replay_append_singleton

theorem AgentRunState.Kept.mono {next : Nat} {later : List AgentTraceEvent}
    (h : state.Kept maxRounds nextEventId journal) (hle : nextEventId ≤ next)
    (hsub : ∀ e ∈ journal, e ∈ later) : state.Kept maxRounds next later :=
  { h with
    traced := fun e he n hn => by
      obtain ⟨e', he', hfound⟩ := h.traced e he n hn
      exact ⟨e', hsub e' he', hfound⟩
    ids := fun i hi => lt_of_lt_of_le (h.ids i hi) hle }

theorem Snapshot.mono {next : Nat} (h : Snapshot maxRounds nextEventId journal cursor state)
    (hle : nextEventId ≤ next) : Snapshot maxRounds next journal cursor state :=
  { h with ids := fun i hi => lt_of_lt_of_le (h.ids i hi) hle }

theorem UpToDate.mono {next : Nat} (h : UpToDate maxRounds nextEventId journal state)
    (hle : nextEventId ≤ next) : UpToDate maxRounds next journal state := by
  obtain ⟨cursor, hsnapshot, hinert⟩ := h
  exact ⟨cursor, hsnapshot.mono hle, hinert⟩

theorem Journaled.mono {next : Nat} (h : Journaled maxRounds nextEventId journal)
    (hle : nextEventId ≤ next) : Journaled maxRounds next journal :=
  { h with ids := fun e he i hi => lt_of_lt_of_le (h.ids e he i hi) hle }

/-- A snapshot when the journal goes on. -/
theorem Snapshot.append (h : Snapshot maxRounds nextEventId journal cursor state)
    (hunapplied : ∀ i ∈ state.stepIds, event.eventId = some i → event.inert = true)
    (hlater : ∀ reason, ((Replayed.ofJournal maxRounds journal).next event).stop = some reason →
      state.stopSteps = [] ∨ state.stopSteps = [stopStep reason]) :
    Snapshot maxRounds nextEventId (journal ++ [event]) cursor state := by
  have hkept : state.Kept maxRounds nextEventId (journal ++ [event]) :=
    h.toKept.mono (le_refl _) fun e he => List.mem_append_left _ he
  have htake : (journal ++ [event]).take cursor = journal.take cursor :=
    List.take_append_of_le_length h.cursor_le
  refine { hkept with
    cursor_le := by rw [List.length_append]; exact h.cursor_le.trans (Nat.le_add_right _ _)
    applied := h.applied, agrees := htake ▸ h.agrees, stop := htake ▸ h.stop
    later := ?_, unapplied := fun e he i hi heq => ?_ }
  · rw [ofJournal_append]
    exact hlater
  · rw [List.drop_append_of_le_length h.cursor_le] at he
    rcases List.mem_append.mp he with he | he
    · exact h.unapplied e he i hi heq
    · obtain rfl := List.mem_singleton.mp he
      exact hunapplied i hi heq

theorem Snapshot.append_inert (h : Snapshot maxRounds nextEventId journal cursor state)
    (hinert : event.inert = true) :
    Snapshot maxRounds nextEventId (journal ++ [event]) cursor state := by
  refine h.append (fun _ _ _ => hinert) fun reason => ?_
  rw [Replayed.next_of_inert hinert]
  exact h.later reason

theorem UpToDate.append_inert (h : UpToDate maxRounds nextEventId journal state)
    (hinert : event.inert = true) :
    UpToDate maxRounds nextEventId (journal ++ [event]) state := by
  obtain ⟨cursor, hsnapshot, hall⟩ := h
  refine ⟨cursor, hsnapshot.append_inert hinert, fun e he => ?_⟩
  rw [List.drop_append_of_le_length hsnapshot.cursor_le] at he
  rcases List.mem_append.mp he with he | he
  · exact hall e he
  · obtain rfl := List.mem_singleton.mp he
    exact hinert

theorem Emitting.append_inert {other : AgentTraceEvent}
    (h : Emitting maxRounds nextEventId journal event state) (hinert : other.inert = true)
    (hother : ∀ i, event.eventId = some i → other.eventId ≠ some i) :
    Emitting maxRounds nextEventId (journal ++ [other]) event state := by
  have hkept : state.Kept maxRounds nextEventId (journal ++ [other]) :=
    h.toKept.mono (le_refl _) fun e he => List.mem_append_left _ he
  have hsame : Replayed.ofJournal maxRounds (journal ++ [other]) =
      Replayed.ofJournal maxRounds journal := by
    rw [ofJournal_append, Replayed.next_of_inert hinert]
  refine { hkept with
    restorable := h.restorable, agrees := hsame ▸ h.agrees, stop := hsame ▸ h.stop, id_lt := h.id_lt
    fresh := h.fresh.imp_right fun hfresh e he i hi => ?_ }
  rcases List.mem_append.mp he with he | he
  · exact hfresh e he i hi
  · obtain rfl := List.mem_singleton.mp he
    exact fun heq => hother i heq hi

theorem Journaled.append (h : Journaled maxRounds nextEventId journal)
    (hnumber : event.sequence = some (journal.length + 1)) (hrestorable : event.Restorable maxRounds)
    (hid : ∀ i, event.eventId = some i → i < nextEventId)
    (hfresh : event.inert = true ∨
      ∀ e ∈ journal, ∀ i, e.eventId = some i → event.eventId ≠ some i) :
    Journaled maxRounds nextEventId (journal ++ [event]) where
  numbered := h.numbered.append (by rw [hnumber, Nat.zero_add])
  restorable e he := by
    rcases List.mem_append.mp he with he | he
    · exact h.restorable e he
    · obtain rfl := List.mem_singleton.mp he
      exact hrestorable
  ids e he := by
    rcases List.mem_append.mp he with he | he
    · exact h.ids e he
    · obtain rfl := List.mem_singleton.mp he
      exact hid
  distinct := by
    refine List.pairwise_append.mpr ⟨h.distinct, List.pairwise_singleton _ _, ?_⟩
    intro e he e' he' i hi hi'
    obtain rfl := List.mem_singleton.mp he'
    rcases hfresh with hinert | hfresh
    · exact hinert
    · exact absurd hi' (hfresh e he i hi)

/-! ### Events traced and appended -/

namespace AgentRunState

/-- The last step may get the id of an event, when it is no CHAT step. -/
theorem tagLastStep_eq (event : AgentTraceEvent) (steps : List AgentStep) :
    tagLastStep event steps = steps ∨ ∃ init last, steps = init ++ [last] ∧
      last.stepType ≠ .chat ∧
      tagLastStep event steps = init ++ [{ last with traceEventId := event.eventId }] := by
  rw [tagLastStep]
  split
  · next last hlast =>
    split
    · next htag =>
      obtain ⟨init, rfl⟩ := List.getLast?_eq_some_iff.mp hlast
      exact Or.inr ⟨init, last, rfl, htag.2, by rw [List.dropLast_concat]⟩
    · exact Or.inl rfl
  · exact Or.inl rfl

private theorem untagged_tag {step : AgentStep} (h : step.stepType ≠ .chat) (id : Option Nat) :
    AgentStep.untagged { step with traceEventId := id } = step.untagged := by
  rw [AgentStep.untagged, AgentStep.untagged, if_neg h, if_neg h]

/-- Tagging shows in the ids of the steps only. -/
theorem steps_addTrace (state : AgentRunState) (id : Nat) (event : AgentTraceEvent) :
    (state.addTrace id event).tracedSteps = state.tracedSteps ∧
      (state.addTrace id event).stopSteps = state.stopSteps ∧
      ∀ i ∈ (state.addTrace id event).stepIds, i ∈ state.stepIds ∨ i = id := by
  rcases tagLastStep_eq (state.tracedEvent id event) state.steps with
    hsame | ⟨init, last, hsteps, hchat, htag⟩
  · refine ⟨?_, ?_, fun i hi => Or.inl ?_⟩
    · rw [tracedSteps, addTrace, hsame, tracedSteps]
    · rw [stopSteps, addTrace, hsame, stopSteps]
    · rwa [stepIds, addTrace, hsame] at hi
  · have hbefore : state.steps = { state with steps := init }.steps ++ [last] := hsteps
    have hafter : (state.addTrace id event).steps = { state with steps := init }.steps ++
        [{ last with traceEventId := some id }] := htag
    refine ⟨?_, ?_, fun i hi => ?_⟩
    · rw [tracedSteps_append hbefore, tracedSteps_append hafter, untagged_tag hchat]
    · rw [stopSteps_append hbefore, stopSteps_append hafter, untagged_tag hchat]
    · rcases (mem_stepIds_append hafter).mp hi with hi | hi
      · exact Or.inl ((mem_stepIds_append hbefore).mpr (Or.inl hi))
      · exact Or.inr (Option.some.inj hi).symm

theorem Kept.addTrace (h : state.Kept maxRounds nextEventId journal)
    (hsequence : event.sequence = none) :
    (state.addTrace nextEventId event).Kept maxRounds (nextEventId + 1) journal := by
  obtain ⟨htraced, hstops, hids⟩ := steps_addTrace state nextEventId event
  refine { h with
    pending := h.pending.imp_right fun hhandles => hhandles.congr rfl htraced
    stopped := hstops ▸ h.stopped, traced := fun e he n hn => ?_, ids := fun i hi => ?_ }
  · rcases List.mem_append.mp he with he | he
    · exact h.traced e he n hn
    · obtain rfl := List.mem_singleton.mp he
      exact absurd (hn.symm.trans hsequence) (by simp)
  · rcases hids i hi with hi | rfl
    · exact (h.ids i hi).trans (Nat.lt_succ_self _)
    · exact Nat.lt_succ_self _

end AgentRunState

/-- A state traces the event it has made a step for. -/
theorem Emitting.addTrace (hjournal : Journaled maxRounds nextEventId journal)
    (hkept : state.Kept maxRounds nextEventId journal) (hsequence : event.sequence = none)
    (hrestorable : (state.tracedEvent nextEventId event).Restorable maxRounds)
    (hagrees : ((Replayed.ofJournal maxRounds journal).next
      (state.tracedEvent nextEventId event)).Agrees state)
    (hstop : ∀ reason, ((Replayed.ofJournal maxRounds journal).next
      (state.tracedEvent nextEventId event)).stop = some reason →
      state.stopSteps = [stopStep reason]) :
    Emitting maxRounds (nextEventId + 1) journal (state.tracedEvent nextEventId event)
      (state.addTrace nextEventId event) := by
  obtain ⟨htraced, hstops, -⟩ := AgentRunState.steps_addTrace state nextEventId event
  refine { hkept.addTrace hsequence with
    restorable := hrestorable, agrees := hagrees.congr rfl htraced rfl, stop := hstops ▸ hstop
    id_lt := fun i hi => ?_, fresh := Or.inr fun e he i hi heq => ?_ }
  · obtain rfl := Option.some.inj hi
    exact Nat.lt_succ_self _
  · obtain rfl := Option.some.inj heq
    exact absurd (hjournal.ids e he _ hi) (lt_irrefl _)

/-- A state traces an event that says nothing. -/
theorem UpToDate.emit (h : UpToDate maxRounds nextEventId journal state)
    (hjournal : Journaled maxRounds nextEventId journal) (hsequence : event.sequence = none)
    (hinert : (state.tracedEvent nextEventId event).inert = true)
    (hrestorable : (state.tracedEvent nextEventId event).Restorable maxRounds) :
    Emitting maxRounds (nextEventId + 1) journal (state.tracedEvent nextEventId event)
      (state.addTrace nextEventId event) := by
  have hnext := Replayed.next_of_inert hinert (Replayed.ofJournal maxRounds journal)
  refine Emitting.addTrace hjournal h.kept hsequence hrestorable ?_ ?_
  · rw [hnext]
    exact h.agrees
  · rw [hnext]
    exact fun reason hstop => h.stop hstop

/-- The journal with an event appended to it. -/
theorem Emitting.journaled (h : Emitting maxRounds nextEventId journal event state)
    (hjournal : Journaled maxRounds nextEventId journal) :
    Journaled maxRounds nextEventId
      (journal ++ [{ event with sequence := some (journal.length + 1) }]) :=
  hjournal.append rfl h.restorable h.id_lt h.fresh

/-- The state that appended its event. -/
theorem Emitting.upToDate (h : Emitting maxRounds nextEventId journal event state) :
    UpToDate maxRounds nextEventId
      (journal ++ [{ event with sequence := some (journal.length + 1) }])
      (state.applySequence event (journal.length + 1)) := by
  let later := journal ++ [{ event with sequence := some (journal.length + 1) }]
  have hlength : later.length = journal.length + 1 := by
    rw [List.length_append, List.length_singleton]
  have htake : later.take (journal.length + 1) = later := List.take_of_length_le hlength.le
  have hdrop : later.drop (journal.length + 1) = [] := List.drop_eq_nil_of_le hlength.le
  have hnext : Replayed.ofJournal maxRounds later =
      (Replayed.ofJournal maxRounds journal).next event := ofJournal_append
  refine ⟨journal.length + 1, ?_, fun e he => absurd (hdrop ▸ he) List.not_mem_nil⟩
  refine { h.toKept with
    traced := ?_, cursor_le := hlength.ge, applied := rfl, agrees := ?_, stop := ?_, later := ?_
    unapplied := fun e he => absurd (hdrop ▸ he) List.not_mem_nil }
  · intro e he n hn
    obtain ⟨e', he', rfl⟩ := List.mem_map.mp he
    split at hn
    · next hid =>
      refine ⟨_, List.mem_append_right _ (List.mem_singleton_self _), hn, ?_⟩
      rw [if_pos hid]
      exact hid.symm
    · next hid =>
      obtain ⟨saved, hsaved, hfound⟩ := h.traced e' he' n hn
      rw [if_neg hid]
      exact ⟨saved, List.mem_append_left _ hsaved, hfound⟩
  · rw [htake, hnext]
    exact { h.agrees with }
  · rw [htake, hnext]
    exact h.stop
  · rw [hnext]
    exact fun reason hstop => Or.inr (h.stop reason hstop)

theorem RunRecord.nextSequence_eq {record : RunRecord}
    (h : Journaled maxRounds nextEventId record.journal) :
    record.nextSequence = record.journal.length + 1 := by
  rw [nextSequence]
  have hmax := h.numbered.foldl_max
  rw [Nat.zero_add] at hmax
  exact congrArg (· + 1) hmax

/-- A state changed without an event: it may get its STOP step, and count its round. -/
theorem UpToDate.change (h : UpToDate maxRounds nextEventId journal state)
    (hkept : state'.Kept maxRounds nextEventId journal)
    (happlied : state'.appliedTraceSequence = state.appliedTraceSequence)
    (hresponse : state'.response = state.response) (htraced : state'.tracedSteps = state.tracedSteps)
    (hrounds : state.RoundOpen → state'.remainingToolRounds = state.remainingToolRounds)
    (hstops : state'.stopSteps = state.stopSteps ∨ state.stopSteps = []) :
    UpToDate maxRounds nextEventId journal state' := by
  obtain ⟨cursor, hsnapshot, hinert⟩ := h
  have hstop : ∀ reason, (Replayed.ofJournal maxRounds (journal.take cursor)).stop = some reason →
      state'.stopSteps = [stopStep reason] := by
    intro reason hreason
    have hsteps := hsnapshot.stop reason hreason
    rcases hstops with hsame | hnil
    · exact hsame.trans hsteps
    · exact absurd (hsteps.symm.trans hnil) (by simp)
  refine ⟨cursor, { hkept with
    cursor_le := hsnapshot.cursor_le, applied := happlied.trans hsnapshot.applied
    agrees := ⟨hresponse.trans hsnapshot.agrees.response, htraced.trans hsnapshot.agrees.steps, ?_⟩
    stop := hstop, later := ?_
    unapplied := fun e he _ _ _ => hinert e he }, hinert⟩
  · intro hopen
    have hopen' := (AgentRunState.roundOpen_congr hresponse htraced).mp hopen
    exact (hrounds hopen').trans (hsnapshot.agrees.rounds hopen')
  · rw [← ofJournal_take hinert]
    exact fun reason hreason => Or.inr (hstop reason hreason)

/-- A state that moves its cursor to the end of the journal. -/
theorem UpToDate.advance (h : UpToDate maxRounds nextEventId journal state)
    (hkept : state'.Kept maxRounds nextEventId journal)
    (happlied : state'.appliedTraceSequence = some journal.length)
    (hresponse : state'.response = state.response) (htraced : state'.tracedSteps = state.tracedSteps)
    (hrounds : state'.remainingToolRounds = state.remainingToolRounds)
    (hstops : state'.stopSteps = state.stopSteps) :
    Snapshot maxRounds nextEventId journal journal.length state' := by
  have hstop : ∀ reason, (Replayed.ofJournal maxRounds journal).stop = some reason →
      state'.stopSteps = [stopStep reason] := fun reason hreason => hstops.trans (h.stop hreason)
  refine { hkept with
    cursor_le := le_refl _, applied := happlied, agrees := ?_, stop := ?_
    later := fun reason hreason => Or.inr (hstop reason hreason), unapplied := fun e he => ?_ }
  · rw [List.take_length]
    exact h.agrees.congr hresponse htraced hrounds
  · rw [List.take_length]
    exact hstop
  · rw [List.drop_length] at he
    exact absurd he List.not_mem_nil

/-- A step that stands for no call and no end. -/
theorem AgentRunState.steps_addStep {step : AgentStep} (htraced : step.stepType.traced = false)
    (hstop : step.stepType ≠ .stop) (state : AgentRunState) :
    (state.addStep step).tracedSteps = state.tracedSteps ∧
      (state.addStep step).stopSteps = state.stopSteps := by
  have happend : (state.addStep step).steps = state.steps ++ [step] := rfl
  constructor
  · rw [tracedSteps_append happend, htraced]
    exact List.append_nil _
  · rw [stopSteps_append happend, if_neg hstop, List.append_nil]

theorem UpToDate.addStep (h : UpToDate maxRounds nextEventId journal state) {step : AgentStep}
    (htraced : step.stepType.traced = false) (hstop : step.stepType ≠ .stop)
    (hid : step.traceEventId = none) :
    UpToDate maxRounds nextEventId journal (state.addStep step) := by
  obtain ⟨hsteps, hstops⟩ := AgentRunState.steps_addStep htraced hstop state
  refine h.change { h.kept with
    pending := h.kept.pending.imp_right fun hhandles => hhandles.congr rfl hsteps
    stopped := hstops ▸ h.kept.stopped, ids := fun i hi => ?_ }
    rfl rfl hsteps (fun _ => rfl) (Or.inl hstops)
  have happend : (state.addStep step).steps = state.steps ++ [step] := rfl
  rcases (AgentRunState.mem_stepIds_append happend).mp hi with hi | hi
  · exact h.kept.ids i hi
  · exact absurd (hid.symm.trans hi) (by simp)

/-- A TOOL step of a working run, before its event. -/
theorem AgentRunState.Kept.addTool (h : state.Kept maxRounds nextEventId journal)
    {step : AgentStep} {call : ToolCall}
    (hstep : step.stepType = .tool ∨ step.stepType = .toolError)
    (hcall : step.toolCall = some call) (hid : step.traceEventId = none) :
    (state.addStep step).Kept maxRounds nextEventId journal ∧
      (state.addStep step).tracedSteps = state.tracedSteps ++ [step.untagged] ∧
      (state.addStep step).stopSteps = state.stopSteps := by
  have happend : (state.addStep step).steps = state.steps ++ [step] := rfl
  have htraced : (state.addStep step).tracedSteps = state.tracedSteps ++ [step.untagged] := by
    rw [tracedSteps_append happend, if_pos (by rcases hstep with h | h <;> rw [h] <;> rfl)]
  have hstops : (state.addStep step).stopSteps = state.stopSteps := by
    rw [stopSteps_append happend, if_neg (by rcases hstep with h | h <;> simp [h]), List.append_nil]
  refine ⟨{ h with
    pending := h.pending.imp_right fun hhandles => ?_, stopped := hstops ▸ h.stopped
    ids := fun i hi => ?_ }, htraced, hstops⟩
  · exact hhandles.tool htraced rfl hcall hstep _ fun c hc => Or.inr hc
  · rcases (mem_stepIds_append happend).mp hi with hi | hi
    · exact h.ids i hi
    · exact absurd (hid.symm.trans hi) (by simp)

end UpToDate

/-! ### The invariant -/

/-- The run goes on: it is RUNNING, has no STOP step, and waits for no approval. -/
structure AgentRunState.Working (state : AgentRunState) : Prop where
  running : state.status = .running
  unstopped : state.stopSteps = []
  unpending : state.pendingToolCalls = []

/-- The run has its STOP step, and ends for that reason. -/
structure AgentRunState.Ending (state : AgentRunState) : Prop where
  running : state.status = .running
  stopped : ∃ reason, state.stopReason = some reason ∧ state.stopSteps = [stopStep reason]

/-- An approval event, with an id given out already. -/
structure AgentTraceEvent.Announced (nextEventId : Nat) (event : AgentTraceEvent) : Prop where
  approval : event.eventType = .toolApprovalRequested ∨ event.eventType = .toolApprovalDecided
  id_lt : ∀ i, event.eventId = some i → i < nextEventId

/-- The generator is handling the calls of a response, or getting one. -/
def RunPoint.working : RunPoint → Bool
  | .resuming _ | .commit _ _ | .memories | .stopped => false
  | _ => true

/-- What a state is like where the generator stands. -/
def RunPoint.Ready (nextEventId : Nat) (state : AgentRunState) : RunPoint → Prop
  | .resuming _ | .stopped => True
  | .openContext | .model false => state.Working ∧ state.response = none
  | .model true | .toolErrorStop => state.Working
  | .toolLoop calls remaining _ => state.Working ∧ remaining = state.remainingToolRounds ∧
      (calls = [] ∨ state.Handles calls)
  | .nextCall calls _ => state.Working ∧ state.Handles calls
  | .announce events site _ => state.Working ∧ state.Handles (site.call :: site.rest) ∧
      ∀ event ∈ events, event.Announced nextEventId
  | .execute site _ | .start _ site | .invoke _ site | .invoked _ site =>
    state.Working ∧ state.Handles (site.call :: site.rest)
  | .commit _ _ | .memories => state.Ending

/-- A moment of a run: the journal then, and the ids of the steps of the snapshot stored then. -/
structure Moment where
  journal : List AgentTraceEvent := []
  stepIds : List Nat := []

/-- The journal since a moment: what was appended is new to the snapshot stored then. -/
structure Moment.Since (past : Moment) (nextEventId : Nat) (journal : List AgentTraceEvent) :
    Prop where
  ids : ∀ i ∈ past.stepIds, i < nextEventId
  appended : ∃ later, journal = past.journal ++ later ∧
    ∀ e ∈ later, ∀ i ∈ past.stepIds, e.eventId = some i → e.inert = true

/-- The session has appended the event it traced last. -/
def RunStage.settled : RunStage → Bool
  | .emit _ _ | .closing _ | .interrupted => false
  | _ => true

/-- What the state of a session is like where the session stands. -/
def RunStage.Ready (maxRounds nextEventId : Nat) (past : Moment) (journal : List AgentTraceEvent)
    (stored state : AgentRunState) : RunStage → Prop
  | .at point => UpToDate maxRounds nextEventId journal state ∧ point.Ready nextEventId state
  | .emit event point => Emitting maxRounds nextEventId journal event state ∧
      point.Ready nextEventId state ∧ (event.eventType.checkpoint = true → point.working = true) ∧
      (event.inert = true ∨ ∀ i ∈ past.stepIds ++ stored.stepIds, event.eventId ≠ some i)
  | .appended event point | .handing event point =>
    UpToDate maxRounds nextEventId journal state ∧ point.Ready nextEventId state ∧
      (event.eventType.checkpoint = true → point.working = true)
  | .pausing | .raised _ _ | .reconciling _ _ | .saving =>
    UpToDate maxRounds nextEventId journal state
  | .marking _ _ => UpToDate maxRounds nextEventId journal state ∧
      (stored.status = .running → UpToDate maxRounds nextEventId journal stored)
  | .closing _ => stored.status = .canceled ∨ UpToDate maxRounds nextEventId journal state
  | .interrupted => stored.status = .running → UpToDate maxRounds nextEventId journal stored

/-- What is stored of the run agrees with its journal. -/
structure RunWorld.Stored (maxRounds : Nat) (past : Moment) (world : RunWorld) : Prop where
  journaled : Journaled maxRounds world.nextEventId world.record.journal
  since : past.Since world.nextEventId world.record.journal
  stored : ∃ cursor,
    Snapshot maxRounds world.nextEventId world.record.journal cursor world.record.state

/-- **The invariant.** The snapshot agrees with a beginning of the journal; the session's state has
all of it, and the STOP step of the snapshot if that has one. -/
structure RunWorld.Replays (maxRounds : Nat) (past : Moment) (world : RunWorld) : Prop extends
    world.Stored maxRounds past where
  ready : ∀ state stage, world.session = some ⟨state, stage⟩ →
    stage.Ready maxRounds world.nextEventId past world.record.journal world.record.state state
  stops : ∀ state stage, world.session = some ⟨state, stage⟩ →
    world.record.state.stopSteps ≠ [] → state.stopSteps = world.record.state.stopSteps

/-- What a step does: it keeps the invariant, and the STOP step of the snapshot. -/
structure RunWorld.Continues (maxRounds : Nat) (past : Moment) (world world' : RunWorld) : Prop where
  replays : world'.Replays maxRounds past
  stopped : world.record.state.stopSteps ≠ [] →
    world'.record.state.stopSteps = world.record.state.stopSteps

theorem RunPoint.Ready.toWorking {nextEventId : Nat} {state : AgentRunState} {point : RunPoint}
    (h : point.Ready nextEventId state) (hworking : point.working = true) : state.Working := by
  rcases point with _ | _ | afterRound | _ | _ | _ | _ | _ | _ | _ | _ | _ | _ | _
  case model => rcases afterRound with _ | _ <;> [exact h.1; exact h]
  case resuming | commit | memories | stopped => exact absurd hworking (by simp [working])
  case toolErrorStop => exact h
  all_goals exact h.1

/-- Only what a point speaks of matters there. -/
theorem RunPoint.Ready.congr {nextEventId next : Nat} {state state' : AgentRunState}
    {point : RunPoint} (h : point.Ready nextEventId state) (hle : nextEventId ≤ next)
    (hstatus : state'.status = state.status) (hreason : state'.stopReason = state.stopReason)
    (hresponse : state'.response = state.response) (htraced : state'.tracedSteps = state.tracedSteps)
    (hstops : state'.stopSteps = state.stopSteps)
    (hpending : state'.pendingToolCalls = state.pendingToolCalls)
    (hrounds : state'.remainingToolRounds = state.remainingToolRounds) :
    point.Ready next state' := by
  have hworking (h : state.Working) : state'.Working :=
    ⟨hstatus.trans h.running, hstops.trans h.unstopped, hpending.trans h.unpending⟩
  have hhandles {calls : List ToolCall} (h : state.Handles calls) : state'.Handles calls :=
    h.congr hresponse htraced
  have hending (h : state.Ending) : state'.Ending := by
    obtain ⟨hrunning, reason, hsome, hsteps⟩ := h
    exact ⟨hstatus.trans hrunning, reason, hreason.trans hsome, hstops.trans hsteps⟩
  rcases point with _ | _ | afterRound | _ | _ | _ | _ | _ | _ | _ | _ | _ | _ | _
  case resuming | stopped => trivial
  case openContext => exact ⟨hworking h.1, hresponse.trans h.2⟩
  case model =>
    rcases afterRound with _ | _
    · exact ⟨hworking h.1, hresponse.trans h.2⟩
    · exact hworking h
  case toolErrorStop => exact hworking h
  case toolLoop => exact ⟨hworking h.1, h.2.1.trans hrounds.symm, h.2.2.imp_right hhandles⟩
  case announce =>
    refine ⟨hworking h.1, hhandles h.2.1, fun e he => ⟨(h.2.2 e he).approval, fun i hi => ?_⟩⟩
    exact lt_of_lt_of_le ((h.2.2 e he).id_lt i hi) hle
  case commit | memories => exact hending h
  all_goals exact ⟨hworking h.1, hhandles h.2⟩

section Stages

variable {maxRounds nextEventId : Nat} {journal : List AgentTraceEvent} {cursor : Nat}
  {event : AgentTraceEvent} {stored stored' state : AgentRunState} {stage : RunStage}
  {past : Moment}

theorem Moment.Since.mono {next : Nat} (h : past.Since nextEventId journal)
    (hle : nextEventId ≤ next) : past.Since next journal :=
  ⟨fun i hi => lt_of_lt_of_le (h.ids i hi) hle, h.appended⟩

theorem Moment.Since.append (h : past.Since nextEventId journal)
    (hnew : ∀ i ∈ past.stepIds, event.eventId = some i → event.inert = true) :
    past.Since nextEventId (journal ++ [event]) := by
  obtain ⟨later, heq, hlater⟩ := h.appended
  refine ⟨h.ids, later ++ [event], by rw [heq, List.append_assoc], fun e he i hi hid => ?_⟩
  rcases List.mem_append.mp he with he | he
  · exact hlater e he i hi hid
  · obtain rfl := List.mem_singleton.mp he
    exact hnew i hi hid

/-- The stored snapshot is replaced by one that differs in what no session relies on. -/
theorem RunStage.Ready.restored
    (h : stage.Ready maxRounds nextEventId past journal stored state)
    (hids : ∀ i ∈ stored'.stepIds, i ∈ stored.stepIds ∨ nextEventId ≤ i)
    (hrunning : stored'.status = .running → stored.status = .running ∧
      (UpToDate maxRounds nextEventId journal stored →
        UpToDate maxRounds nextEventId journal stored'))
    (hcanceled : stored.status = .canceled → stored'.status = .canceled) :
    stage.Ready maxRounds nextEventId past journal stored' state := by
  rcases stage with _ | ⟨event, point⟩ | _ | _ | _ | _ | _ | _ | _ | _ | _
  case emit =>
    obtain ⟨hemit, hready, hcheckpoint, hfresh⟩ := h
    refine ⟨hemit, hready, hcheckpoint, hfresh.imp_right fun hfresh i hi heq => ?_⟩
    rcases List.mem_append.mp hi with hpast | hi
    · exact hfresh i (List.mem_append_left _ hpast) heq
    rcases hids i hi with hi | hle
    · exact hfresh i (List.mem_append_right _ hi) heq
    · exact absurd (hemit.id_lt i heq) (Nat.not_lt.mpr hle)
  case marking =>
    exact ⟨h.1, fun hstatus => (hrunning hstatus).2 (h.2 (hrunning hstatus).1)⟩
  case closing => exact Or.imp_left hcanceled h
  case interrupted => exact fun hstatus => (hrunning hstatus).2 (h (hrunning hstatus).1)
  all_goals exact h

/-- The journal gets an event that says nothing, from elsewhere. -/
theorem RunStage.Ready.append (h : stage.Ready maxRounds nextEventId past journal stored state)
    (hinert : event.inert = true) (hid : ∀ i, event.eventId = some i → nextEventId ≤ i)
    {next : Nat} (hle : nextEventId ≤ next) :
    stage.Ready maxRounds next past (journal ++ [event]) stored state := by
  have hup {state : AgentRunState} (h : UpToDate maxRounds nextEventId journal state) :
      UpToDate maxRounds next (journal ++ [event]) state := (h.append_inert hinert).mono hle
  have hpoint {point : RunPoint} (h : point.Ready nextEventId state) : point.Ready next state :=
    h.congr hle rfl rfl rfl rfl rfl rfl rfl
  rcases stage with _ | ⟨emitted, point⟩ | _ | _ | _ | _ | _ | _ | _ | _ | _
  case «at» => exact ⟨hup h.1, hpoint h.2⟩
  case emit =>
    obtain ⟨hemit, hready, hcheckpoint, hfresh⟩ := h
    have hemit' := hemit.append_inert hinert fun i hi heq =>
      absurd (hemit.id_lt i hi) (Nat.not_lt.mpr (hid i heq))
    refine ⟨?_, hpoint hready, hcheckpoint, hfresh⟩
    exact { hemit' with
      ids := fun i hi => lt_of_lt_of_le (hemit'.ids i hi) hle
      id_lt := fun i hi => lt_of_lt_of_le (hemit'.id_lt i hi) hle }
  case appended | handing => exact ⟨hup h.1, hpoint h.2.1, h.2.2⟩
  case marking => exact ⟨hup h.1, fun hstatus => hup (h.2 hstatus)⟩
  case closing => exact Or.imp_right hup h
  case interrupted => exact fun hstatus => hup (h hstatus)
  all_goals exact hup h

end Stages

end EvernightAI
