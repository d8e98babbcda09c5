import EvernightAI.Frontend.ChatMachine
import EvernightAI.Lib.TransitionSystem

/-!
# A submission is sent on request

Entering `streaming` posts the pending submission as a new run. `OnRequest` says of a log that each
such entry follows a `SEND` or `RETRY` that no other entry, and no session operation, has spent.

`Sound` is the invariant of the machine: the states from which `streaming` may be entered without
a new request, `preparing` and a `recovering` whose run has never been seen, are entered on one
that is not spent. The one transition that breaks it is the answer 404 to deleting a session while
a submission waits (`streamsAfterDelete`); `streaming_on_request` is about the runs without it.
-/

namespace EvernightAI.Frontend

/-! ### Requests in a log -/

def ChatMachineEvent.isRequest : ChatMachineEvent → Bool
  | .send .. | .retry _ => true
  | _ => false

/-- A submission is posted, or a session operation is started. -/
def LogItem.spends : LogItem → Bool
  | .entered .streaming | .entered .deletingSession | .entered .creatingSession
  | .entered .loadingSession => true
  | _ => false

/-- The log has a request that is not spent. -/
def Requested (log : List LogItem) : Prop :=
  ∃ before request after, log = before ++ .received request :: after ∧
    request.isRequest = true ∧ ∀ item ∈ after, item.spends = false

/-- Each entry of `streaming` follows a request that is not spent. -/
def OnRequest (log : List LogItem) : Prop :=
  ∀ before after, log = before ++ .entered .streaming :: after → Requested before

section Log

variable {log : List LogItem} {item : LogItem}

theorem Requested.concat (h : Requested log) (hitem : item.spends = false) :
    Requested (log ++ [item]) := by
  obtain ⟨before, request, after, rfl, hrequest, hafter⟩ := h
  refine ⟨before, request, after ++ [item], ?_, hrequest, ?_⟩
  · rw [List.append_assoc, List.cons_append]
  · intro item' hitem'
    obtain hmem | hmem := List.mem_append.mp hitem'
    · exact hafter item' hmem
    · rwa [List.mem_singleton.mp hmem]

theorem requested_received {event : ChatMachineEvent} (h : event.isRequest = true) :
    Requested (log ++ [.received event]) :=
  ⟨log, event, [], rfl, h, List.forall_mem_nil _⟩

theorem not_requested_nil : ¬ Requested [] := by
  rintro ⟨before, request, after, heq, -⟩
  simp at heq

/-- Whether a request is still open is decided by the newest items. -/
theorem requested_concat_iff :
    Requested (log ++ [item]) ↔
      (∃ event, item = .received event ∧ event.isRequest = true) ∨
        item.spends = false ∧ Requested log := by
  constructor
  · rintro ⟨before, request, after, heq, hrequest, hafter⟩
    rcases after.eq_nil_or_concat with rfl | ⟨rest, last, rfl⟩
    · obtain ⟨-, hitem⟩ := List.append_inj' heq rfl
      exact .inl ⟨request, (List.cons.inj hitem).1, hrequest⟩
    · rw [List.concat_eq_append] at heq hafter
      rw [← List.cons_append, ← List.append_assoc] at heq
      obtain ⟨rfl, hitem⟩ := List.append_inj' heq rfl
      obtain rfl := (List.cons.inj hitem).1
      exact .inr ⟨hafter item (by simp), before, request, rest, rfl, hrequest,
        fun item' hitem' => hafter item' (List.mem_append_left _ hitem')⟩
  · rintro (⟨event, rfl, hevent⟩ | ⟨hitem, h⟩)
    · exact requested_received hevent
    · exact h.concat hitem

theorem OnRequest.concat (h : OnRequest log)
    (hitem : item = .entered .streaming → Requested log) : OnRequest (log ++ [item]) := by
  intro before after heq
  rcases after.eq_nil_or_concat with rfl | ⟨rest, last, rfl⟩
  · obtain ⟨rfl, hlast⟩ := List.append_inj' heq rfl
    exact hitem (List.cons.inj hlast).1
  · rw [List.concat_eq_append, ← List.cons_append, ← List.append_assoc] at heq
    exact h before rest (List.append_inj' heq rfl).1

end Log

/-! ### The invariant -/

/-- `streaming` is entered on request only, and so is every state that may lead there by itself. -/
structure Sound (machine : Machine) : Prop where
  onRequest : OnRequest machine.log
  preparing : machine.state = .preparing → Requested machine.log
  recovering : machine.state = .recovering → machine.context.run = none → Requested machine.log

section Machine

variable {b : Browser} {readDetail : Value → ErrorDetail} {machine next : Machine}
  {state : ChatState} {context : ChatMachineContext} {event : ChatMachineEvent}

/-- The states that may lead to `streaming` need an open request. -/
def Needs (state : ChatState) (run : Option Run) : Prop :=
  state = .streaming ∨ state = .preparing ∨ state = .recovering ∧ run = none

/-- The other states. -/
def ChatState.settled : ChatState → Bool
  | .streaming | .preparing | .recovering => false
  | _ => true

theorem ChatState.settled.not_needs (h : state.settled = true) (run : Option Run) :
    ¬ Needs state run := by
  rintro (rfl | rfl | ⟨rfl, -⟩) <;> cases h

theorem run_onEntry (context : ChatMachineContext) (state : ChatState) :
    (context.onEntry b readDetail state).run = context.run := by
  cases state <;> rfl

theorem sound_goto (hlog : OnRequest machine.log)
    (hneeds : Needs state machine.context.run → Requested machine.log) :
    Sound (machine.goto b readDetail state) where
  onRequest := hlog.concat fun hitem => hneeds (.inl (LogItem.entered.inj hitem))
  preparing := fun hstate => by
    obtain rfl : state = .preparing := hstate
    exact (hneeds (.inr (.inl rfl))).concat rfl
  recovering := fun hstate hrun => by
    obtain rfl : state = .recovering := hstate
    exact (hneeds (.inr (.inr ⟨rfl, (run_onEntry machine.context _).symm.trans hrun⟩))).concat rfl

/-- `evaluatingRun` never leads to `streaming`, and to `recovering` only with its run. -/
theorem not_needs_evaluated (context : ChatMachineContext) :
    ¬ Needs (context.evaluated b).1 (context.evaluated b).2.run := by
  rw [ChatMachineContext.evaluated]
  rcases hrun : context.run with _ | run
  · simp [Needs]
  · dsimp only
    split_ifs
    · simp [Needs, hrun]
    · simp [Needs]
    · simp [Needs]
    · simp [Needs]
    · simp [Needs]
    · split <;> simp [Needs]

theorem sound_settle (h : Sound machine) : Sound (machine.settle b readDetail) := by
  rw [Machine.settle]
  split
  · next hstate =>
    split_ifs
    · exact sound_goto h.onRequest fun _ => h.preparing hstate
    · exact h
  · exact sound_goto h.onRequest fun hneeds => absurd hneeds (not_needs_evaluated _)
  · exact h

theorem sound_enter (hlog : OnRequest machine.log)
    (hneeds : Needs state context.run → Requested machine.log) :
    Sound (machine.enter b readDetail state context) := by
  have hgoto := @sound_goto b readDetail { machine with context } state hlog hneeds
  exact sound_settle hgoto

/-- Entering a state that does not lead to `streaming` is sound. -/
theorem sound_enter_other (hlog : OnRequest machine.log)
    (hstate : state.settled = true) : Sound (machine.enter b readDetail state context) :=
  sound_enter hlog fun hneeds => absurd hneeds (ChatState.settled.not_needs hstate _)

theorem sound_stay (h : Sound machine)
    (hrun : context.run = none → machine.context.run = none) :
    Sound (machine.stay b readDetail context) :=
  sound_settle
    { onRequest := h.onRequest
      preparing := h.preparing
      recovering := fun hstate hnone => h.recovering hstate (hrun hnone) }

theorem sound_onAny (h : Sound machine) (hnext : machine.onAny b readDetail event = some next) :
    Sound next := by
  have hother : ∀ (state : ChatState) context, state.settled = true →
      Sound (machine.enter b readDetail state context) :=
    fun state context hstate => sound_enter_other h.onRequest hstate
  cases event with
  | skillCatalog skills =>
    cases hnext
    exact sound_stay h id
  | openRun run session transcript choices =>
    cases hnext
    exact hother _ _ rfl
  | snapshot run =>
    cases hnext
    split_ifs
    · exact sound_stay h fun hnone => by cases hnone
    · exact h
  | connection runId connection =>
    cases hnext
    split_ifs
    · exact sound_stay h id
    · exact h
  | authChanged =>
    cases hnext
    exact hother _ _ rfl
  | sessionUpdated session =>
    cases hnext
    split_ifs
    · exact sound_stay h id
    · exact h
  | deleteSession sessionId =>
    cases hnext
    split_ifs
    · exact hother _ _ rfl
    · exact h
  | createSession session =>
    cases hnext
    exact hother _ _ rfl
  | selectSession session =>
    cases hnext
    exact hother _ _ rfl
  | send _ _ _ _ | retry _ | approve _ | deny _ | resume | cancel | trace _ | clear =>
    cases hnext
    exact h
  | _ => cases hnext

theorem sound_retryFailed (h : Sound machine) (hrequested : Requested machine.log)
    (runId : String) : Sound (machine.retryFailed b readDetail runId) := by
  have henter : ∀ state context, Sound (machine.enter b readDetail state context) :=
    fun state context => sound_enter h.onRequest fun _ => hrequested
  rw [Machine.retryFailed]
  split_ifs
  · exact h
  all_goals first | exact henter _ _ | exact h

theorem sound_decide (h : Sound machine) (approvalId : String) (choice : ApprovalChoice) :
    Sound (machine.decide b readDetail approvalId choice) := by
  rw [Machine.decide]
  split_ifs
  · exact sound_enter_other h.onRequest rfl
  · exact sound_stay h id
  · exact h

/-- Deleting the session failed with 404 while a submission waits without a run. -/
def streamsAfterDelete (machine : Machine) (event : ChatMachineEvent) : Bool :=
  machine.state = .deletingSession &&
    match event with
    | .actorFailed error => machine.context.neverStarted error
    | _ => false

theorem sound_transition (h : Sound machine)
    (hevent : event.isRequest = true → Requested machine.log)
    (hgood : streamsAfterDelete machine event = false)
    (hnext : machine.transition b readDetail event = some next) : Sound next := by
  have hother : ∀ (state : ChatState) context, state.settled = true →
      Sound (machine.enter b readDetail state context) :=
    fun state context hstate => sound_enter_other h.onRequest hstate
  have hrequest : ∀ state context, event.isRequest = true →
      Sound (machine.enter b readDetail state context) :=
    fun state context hevent' => sound_enter h.onRequest fun _ => hevent hevent'
  have hfail : ∀ error, Sound (machine.fail b readDetail error) :=
    fun error => hother _ _ rfl
  have hfailRun : ∀ error, Sound (machine.failRun b readDetail error) :=
    fun error => hother _ _ rfl
  have hreturned : ∀ run, Sound (machine.returned b readDetail run) :=
    fun run => hother _ _ rfl
  unfold Machine.transition at hnext
  split at hnext
  -- the root's transitions, and the outcomes of no invoked actor
  all_goals first
    | exact sound_onAny h hnext
    | obtain rfl := Option.some.inj hnext
  any_goals split_ifs
  -- targets that do not lead to `streaming`, requests, and transitions that stay
  any_goals first
    | exact hother _ _ rfl
    | exact hfail _
    | exact hfailRun _
    | exact hreturned _
    | exact hrequest _ _ rfl
    | exact sound_retryFailed h (hevent rfl) _
    | exact sound_decide h _ _
    | exact sound_stay h id
    | exact h
  · next error hstate hnever =>
    rw [streamsAfterDelete, hstate] at hgood
    exact absurd (hnever.symm.trans hgood) Bool.noConfusion
  · next hstate => exact sound_enter h.onRequest fun _ => h.preparing hstate
  · next error hstate hnever =>
    -- the run has never been seen: the machine recovers on a `RETRY`
    rw [ChatMachineContext.neverStarted, Bool.and_eq_true, Bool.and_eq_true,
      Option.isNone_iff_eq_none] at hnever
    exact sound_enter h.onRequest fun _ => h.recovering hstate hnever.1.1

/-- **One step** keeps the invariant. -/
theorem sound_step (h : Sound machine) (hgood : streamsAfterDelete machine event = false)
    (hnext : machine.step b readDetail event = some next) : Sound next := by
  have hlog : Requested machine.log → Requested (machine.log ++ [.received event]) :=
    fun hrequested => hrequested.concat rfl
  have hreceived : Sound { machine with log := machine.log ++ [.received event] } :=
    { onRequest := h.onRequest.concat fun hitem => by cases hitem
      preparing := fun hstate => hlog (h.preparing hstate)
      recovering := fun hstate hrun => hlog (h.recovering hstate hrun) }
  exact sound_transition hreceived requested_received hgood hnext

end Machine

/-! ### Runs -/

/-- **Sent on request.** In a run in which no session deletion fails with 404 while a submission
waits without a run, each entry of `streaming` follows a `SEND` or `RETRY` that no other entry of
`streaming` and no session operation came behind. -/
theorem streaming_on_request (b : Browser) (readDetail : Value → ErrorDetail)
    {events : List ChatMachineEvent} {machine : Machine}
    (hrun : TransitionSystem.run (Machine.step b readDetail) Machine.initial events = some machine)
    (hgood : TransitionSystem.Along (Machine.step b readDetail)
      (fun machine event => streamsAfterDelete machine event = false) Machine.initial events) :
    OnRequest machine.log := by
  have hinitial : Sound Machine.initial := by
    refine ⟨?_, (fun hstate => by cases hstate), (fun hstate => by cases hstate)⟩
    have hnil : OnRequest [] := fun before after heq => by simp at heq
    exact hnil.concat fun hitem => by cases hitem
  exact (TransitionSystem.run_invariant_of_along
    (fun _ _ _ h hgood hnext => sound_step h hgood hnext) hinitial hrun hgood).onRequest

private def blankBrowser : Browser where
  stringify := fun _ => ""
  stringifyRecord := fun _ => ""
  sortedText := fun _ => ""
  sortedRecordText := fun _ => ""
  strictEquals := fun _ _ => false
  localeCompare := fun _ _ => 0

private def noDetail : Value → ErrorDetail := fun _ => ⟨none, false⟩

private def openSession : Session where
  sessionId := "s"
  contextId := "c"
  createdAt := 0
  updatedAt := 0

/-- A session is created and a submission sent in it, whose request fails. -/
private def failedSubmission : List ChatMachineEvent :=
  [.createSession openSession, .sessionLoaded { session := openSession, transcript := [] },
    .send { providerId := "p", modelId := "m", text := "Hi" } [] "c1" "r1",
    .actorFailed (.other "offline")]

/-- **Sending and retrying** a submission that failed. -/
theorem streaming_on_request_retried :
    ∃ machine, TransitionSystem.run (Machine.step blankBrowser noDetail) Machine.initial
        (failedSubmission ++ [.retry "r2"]) = some machine ∧
      machine.state = .recovering ∧ OnRequest machine.log :=
  ⟨_, rfl, rfl, @streaming_on_request blankBrowser noDetail (failedSubmission ++ [.retry "r2"]) _
    rfl (by decide +kernel)⟩

/-- Whether the newest items of a log leave a request open. -/
private def requestOpen : List LogItem → Bool
  | [] => false
  | .received event :: older => event.isRequest || requestOpen older
  | .entered state :: older => !(LogItem.entered state).spends && requestOpen older

private theorem requested_reverse_iff (older : List LogItem) :
    Requested older.reverse ↔ requestOpen older = true := by
  induction older with
  | nil => simp [requestOpen, not_requested_nil]
  | cons item older ih =>
    rw [List.reverse_cons, requested_concat_iff, ih]
    cases item with
    | received event => simp [requestOpen, LogItem.spends]
    | entered state => simp [requestOpen]

/-- **Deleting a session that is gone**: the answer 404 posts the submission again. -/
theorem deleted_session_streams :
    ¬ ∀ (b : Browser) (readDetail : Value → ErrorDetail) (events : List ChatMachineEvent)
        (machine : Machine),
      TransitionSystem.run (Machine.step b readDetail) Machine.initial events = some machine →
      OnRequest machine.log := by
  intro h
  have hrun : (TransitionSystem.run (Machine.step blankBrowser noDetail) Machine.initial
      (failedSubmission ++ [.deleteSession "s", .actorFailed (.api "" 404 none .none)])).any
        (fun machine => machine.log.getLast? = some (.entered .streaming) &&
          !requestOpen machine.log.dropLast.reverse) = true := by decide +kernel
  obtain ⟨machine, hmachine, hlog⟩ := (Option.any_eq_true _ _).mp hrun
  rw [Bool.and_eq_true, decide_eq_true_eq, Bool.not_eq_true'] at hlog
  obtain ⟨before, hbefore⟩ := List.getLast?_eq_some_iff.mp hlog.1
  have hrequested : Requested before := h _ _ _ machine hmachine before [] hbefore
  have hopen : requestOpen before.reverse = true := by
    rw [← requested_reverse_iff, List.reverse_reverse]
    exact hrequested
  rw [hbefore, List.dropLast_concat, hopen] at hlog
  exact Bool.noConfusion hlog.2

end EvernightAI.Frontend
