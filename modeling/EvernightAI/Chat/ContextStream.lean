import EvernightAI.Lib.TransitionSystem
import EvernightAI.Provider.ResponsesMapper
import EvernightAI.Store.Register

/-!
# Chats with a context

A chat with a context appends the messages that were sent and the answer to the context. In one
piece it appends the message of the provider. Streamed, it wraps the stream: the answer is put
together from the events that pass, and is appended once, by the first iteration over the wrapper
that ends.

* `logged_of_run` : whatever the consumers do, what is appended was sent or put together from events
  that were emitted, each message once.
* `streams_as_chat_iff` : both ways append the same exactly if the answer is `Plain`.
-/

namespace EvernightAI.ContextStream

/-- An event of a stream, as far as the wrapper reads it, and the message it may carry. -/
structure StreamEvent where
  eventType : ChatStreamEventType
  textDelta : Option String := none
  contentPart : Option ContentPart := none
  toolCall : Option ToolCall := none
  message : Option Content := none
  deriving DecidableEq

/-! ### In one piece -/

/-- A context after some messages. -/
def appendAll (context : Context) (messages : List Content) : Context :=
  messages.foldl Context.withMessage context

/-- `chat_with_context`, once the request is organized: what the provider answers decides. -/
def chatWithContext (context : Context) (messages : List Content) (answer : Except Error Content) :
    Except Error Content × Context :=
  match answer with
  | .error error => (.error error, context)
  | .ok message => (.ok message, appendAll context (messages ++ [message]))

/-! ### Streamed -/

/-- What an iteration over the wrapper waits for. -/
inductive Iteration
  /-- the generator has not begun -/
  | created
  /-- the next event of the stream -/
  | waiting
  /-- its consumer, at `yield event` -/
  | yielded
  /-- the append of a message, with others to append after it -/
  | appending (message : Content) (rest : List Content)
  /-- the append of the answer -/
  | answering (message : Content)
  | finished
  deriving DecidableEq

/-- `_ContextAppendingChatStream`, its iterations, and what was emitted and appended so far. -/
structure Wrapper where
  textDeltas : List String := []
  toolCalls : List ToolCall := []
  persisted : Bool := false
  iterations : List Iteration := []
  emitted : List StreamEvent := []
  appended : List Content := []
  deriving DecidableEq

/-- The text of an event, as `_accumulate_assistant_event` reads it. -/
def eventText (event : StreamEvent) : Option String :=
  if event.eventType = .messageDelta then
    (event.textDelta.or (event.contentPart.bind (·.text))).filter (· ≠ "")
  else none

/-- The completed call of an event. -/
def eventCall (event : StreamEvent) : Option ToolCall :=
  if event.eventType = .toolCallCompleted then event.toolCall else none

/-- A message of one text. -/
def textContent (text : String) : Option (List ContentPart) :=
  if text = "" then none else some [{ type := .text, text := some text }]

/-- `_assistant_message` -/
def assistantMessage (textDeltas : List String) (calls : List ToolCall) : Option Content :=
  let content := textContent (String.join textDeltas)
  let toolCalls := if calls = [] then none else some calls
  if content = none ∧ toolCalls = none then none
  else some { role := .assistant, content, toolCalls }

namespace Wrapper

/-- `_accumulate_assistant_event` -/
def accumulate (wrapper : Wrapper) (event : StreamEvent) : Wrapper :=
  { wrapper with
    textDeltas := wrapper.textDeltas ++ (eventText event).toList
    toolCalls := wrapper.toolCalls ++ (eventCall event).toList }

def setIteration (wrapper : Wrapper) (i : ℕ) (iteration : Iteration) : Wrapper :=
  { wrapper with iterations := wrapper.iterations.set i iteration }

/-- The loop of `_persist_context_messages`, up to its next `await`. -/
def persistRest (wrapper : Wrapper) (i : ℕ) : List Content → Wrapper
  | message :: rest => wrapper.setIteration i (.appending message rest)
  | [] => wrapper.setIteration i
      ((assistantMessage wrapper.textDeltas wrapper.toolCalls).elim .finished .answering)

/-- `_persist_context_messages`, up to its first `await`. -/
def persist (messages : List Content) (wrapper : Wrapper) (i : ℕ) : Wrapper :=
  if wrapper.persisted then wrapper.setIteration i .finished
  else { wrapper with persisted := true }.persistRest i messages

/-- An append that was made. -/
def append (wrapper : Wrapper) (message : Content) : Wrapper :=
  { wrapper with appended := wrapper.appended ++ [message] }

end Wrapper

/-- What the consumers, the stream and the context do next. -/
inductive Label
  /-- `aiter(wrapper)` -/
  | iterate
  /-- `anext(iteration)` -/
  | next (i : ℕ)
  | event (i : ℕ) (event : StreamEvent)
  /-- the stream ends, fails or is cancelled -/
  | stop (i : ℕ)
  /-- `iteration.aclose()` -/
  | close (i : ℕ)
  | appended (i : ℕ)
  /-- the append raises, whether or not the context has the message -/
  | appendFailed (i : ℕ) (stored : Bool)
  deriving DecidableEq

/-- **One step of the wrapper.** -/
def step (messages : List Content) (wrapper : Wrapper) : Label → Option Wrapper
  | .iterate => some { wrapper with iterations := wrapper.iterations ++ [.created] }
  | .next i =>
    match wrapper.iterations[i]? with
    | some .created | some .yielded => some (wrapper.setIteration i .waiting)
    | _ => none
  | .event i event =>
    match wrapper.iterations[i]? with
    | some .waiting => some
        { (wrapper.accumulate event).setIteration i .yielded with
          emitted := wrapper.emitted ++ [event] }
    | _ => none
  | .stop i =>
    match wrapper.iterations[i]? with
    | some .waiting => some (wrapper.persist messages i)
    | _ => none
  | .close i =>
    match wrapper.iterations[i]? with
    | some .created => some (wrapper.setIteration i .finished)
    | some .yielded => some (wrapper.persist messages i)
    | _ => none
  | .appended i =>
    match wrapper.iterations[i]? with
    | some (.appending message rest) => some ((wrapper.append message).persistRest i rest)
    | some (.answering message) => some ((wrapper.append message).setIteration i .finished)
    | _ => none
  | .appendFailed i stored =>
    match wrapper.iterations[i]? with
    | some (.appending message _) | some (.answering message) =>
      some ((if stored then wrapper.append message else wrapper).setIteration i .finished)
    | _ => none

/-- A consumer takes every event of the stream, and every append is made. -/
def consume (messages : List Content) (events : List StreamEvent) : List Label :=
  [.iterate, .next 0] ++ events.flatMap (fun event => [.event 0 event, .next 0]) ++ [.stop 0] ++
    List.replicate (messages.length +
      (assistantMessage (events.filterMap eventText) (events.filterMap eventCall)).toList.length)
      (.appended 0)

/-! ### What is appended -/

/-- The message is put together from the events emitted up to some point. -/
def Assembled (emitted : List StreamEvent) (message : Content) : Prop :=
  ∃ before, before <+: emitted ∧
    assistantMessage (before.filterMap eventText) (before.filterMap eventCall) = some message

/-- **Each message once**: some of the messages that were sent, in order, or all of them and an
answer put together from emitted events. -/
def Logged (messages : List Content) (wrapper : Wrapper) : Prop :=
  wrapper.appended <+: messages ∨
    ∃ message, Assembled wrapper.emitted message ∧ wrapper.appended = messages ++ [message]

def Iteration.isAppending : Iteration → Bool
  | .appending _ _ | .answering _ => true
  | _ => false

/-- What was appended when an iteration waits for an append. -/
def Iteration.Stage (messages : List Content) (wrapper : Wrapper) : Iteration → Prop
  | .appending message rest => messages = wrapper.appended ++ message :: rest
  | .answering message => wrapper.appended = messages ∧ Assembled wrapper.emitted message
  | _ => True

/-- What every step keeps: at most one iteration appends, and it is where the log ends. -/
structure LogInv (messages : List Content) (wrapper : Wrapper) : Prop where
  texts : wrapper.textDeltas = wrapper.emitted.filterMap eventText
  calls : wrapper.toolCalls = wrapper.emitted.filterMap eventCall
  fresh : wrapper.persisted = false → wrapper.appended = [] ∧
    ∀ (i : ℕ) (it : Iteration), wrapper.iterations[i]? = some it → it.isAppending = false
  unique : ∀ (i j : ℕ) (a b : Iteration), wrapper.iterations[i]? = some a →
    wrapper.iterations[j]? = some b → a.isAppending = true → b.isAppending = true → i = j
  stage : ∀ (i : ℕ) (it : Iteration), wrapper.iterations[i]? = some it → it.Stage messages wrapper
  logged : Logged messages wrapper

section Steps

variable {messages : List Content} {wrapper : Wrapper} {i : ℕ} {iteration : Iteration}

theorem stage_of_not_isAppending (h : iteration.isAppending = false) :
    iteration.Stage messages wrapper := by
  cases iteration with
  | appending message rest => exact absurd h Bool.true_eq_false_eq_False
  | answering message => exact absurd h Bool.true_eq_false_eq_False
  | _ => trivial

/-- The iterations after one of them goes on. -/
theorem getElem?_setIteration {j : ℕ} {it : Iteration}
    (h : (wrapper.setIteration i iteration).iterations[j]? = some it) :
    j = i ∧ it = iteration ∨ j ≠ i ∧ wrapper.iterations[j]? = some it := by
  rw [Wrapper.setIteration, List.getElem?_set] at h
  by_cases hij : i = j
  · rw [if_pos hij] at h
    split_ifs at h
    exact Or.inl ⟨hij.symm, (Option.some.inj h).symm⟩
  · rw [if_neg hij] at h
    exact Or.inr ⟨fun heq => hij heq.symm, h⟩

/-- An iteration goes on and does not append. -/
theorem LogInv.setIteration (h : LogInv messages wrapper) (hit : iteration.isAppending = false) :
    LogInv messages (wrapper.setIteration i iteration) := by
  refine ⟨h.texts, h.calls, fun hnot => ⟨(h.fresh hnot).1, fun j it hj => ?_⟩,
    fun j k a b hj hk ha hb => ?_, fun j it hj => ?_, h.logged⟩
  · rcases getElem?_setIteration hj with ⟨-, rfl⟩ | ⟨-, hj⟩
    · exact hit
    · exact (h.fresh hnot).2 j it hj
  · rcases getElem?_setIteration hj with ⟨-, rfl⟩ | ⟨-, hj⟩
    · exact absurd (hit.symm.trans ha) Bool.false_ne_true
    · rcases getElem?_setIteration hk with ⟨-, rfl⟩ | ⟨-, hk⟩
      · exact absurd (hit.symm.trans hb) Bool.false_ne_true
      · exact h.unique j k a b hj hk ha hb
  · rcases getElem?_setIteration hj with ⟨-, rfl⟩ | ⟨-, hj⟩
    · exact stage_of_not_isAppending hit
    · exact h.stage j it hj

/-- Only one iteration appends, and goes on. -/
theorem LogInv.of_only (htexts : wrapper.textDeltas = wrapper.emitted.filterMap eventText)
    (hcalls : wrapper.toolCalls = wrapper.emitted.filterMap eventCall)
    (hpersisted : wrapper.persisted = true)
    (honly : ∀ (j : ℕ) (it : Iteration), j ≠ i → wrapper.iterations[j]? = some it →
      it.isAppending = false)
    (hstage : iteration.Stage messages wrapper) (hlogged : Logged messages wrapper) :
    LogInv messages (wrapper.setIteration i iteration) := by
  refine ⟨htexts, hcalls, fun hnot => ?_, fun j k a b hj hk ha hb => ?_, fun j it hj => ?_,
    hlogged⟩
  · exact absurd (hnot.symm.trans hpersisted) Bool.false_ne_true
  · have hat : ∀ (j : ℕ) (it : Iteration),
        (wrapper.setIteration i iteration).iterations[j]? = some it →
          it.isAppending = true → j = i := by
      intro j it hj hit
      rcases getElem?_setIteration hj with ⟨rfl, -⟩ | ⟨hne, hj⟩
      · rfl
      · exact absurd ((honly j it hne hj).symm.trans hit) Bool.false_ne_true
    exact (hat j a hj ha).trans (hat k b hk hb).symm
  · rcases getElem?_setIteration hj with ⟨-, rfl⟩ | ⟨hne, hj⟩
    · cases it with
      | _ => exact hstage
    · exact stage_of_not_isAppending (honly j it hne hj)

/-- The loop over the messages goes on. -/
theorem LogInv.persistRest {rest : List Content}
    (htexts : wrapper.textDeltas = wrapper.emitted.filterMap eventText)
    (hcalls : wrapper.toolCalls = wrapper.emitted.filterMap eventCall)
    (hpersisted : wrapper.persisted = true)
    (honly : ∀ (j : ℕ) (it : Iteration), j ≠ i → wrapper.iterations[j]? = some it →
      it.isAppending = false)
    (hrest : wrapper.appended ++ rest = messages) :
    LogInv messages (wrapper.persistRest i rest) := by
  have hlogged : Logged messages wrapper := Or.inl ⟨rest, hrest⟩
  cases rest with
  | cons message rest => exact .of_only htexts hcalls hpersisted honly hrest.symm hlogged
  | nil =>
    rw [List.append_nil] at hrest
    rw [Wrapper.persistRest]
    cases hanswer : assistantMessage wrapper.textDeltas wrapper.toolCalls with
    | none => exact .of_only htexts hcalls hpersisted honly trivial hlogged
    | some message =>
      refine .of_only htexts hcalls hpersisted honly ⟨hrest, ?_⟩ hlogged
      refine ⟨wrapper.emitted, List.prefix_rfl, ?_⟩
      rw [← htexts, ← hcalls]
      exact hanswer

theorem LogInv.persist (h : LogInv messages wrapper) :
    LogInv messages (wrapper.persist messages i) := by
  rw [Wrapper.persist]
  by_cases hpersisted : wrapper.persisted = true
  · rw [if_pos hpersisted]
    exact h.setIteration rfl
  · rw [if_neg hpersisted]
    obtain ⟨hnone, hidle⟩ := h.fresh (Bool.eq_false_iff.mpr hpersisted)
    refine .persistRest h.texts h.calls rfl (fun j it _ hj => hidle j it hj) ?_
    change wrapper.appended ++ messages = messages
    rw [hnone, List.nil_append]

/-- An iteration that appends is the only one. -/
theorem LogInv.only (h : LogInv messages wrapper) (hi : wrapper.iterations[i]? = some iteration)
    (hit : iteration.isAppending = true) (j : ℕ) (it : Iteration) (hne : j ≠ i)
    (hj : wrapper.iterations[j]? = some it) : it.isAppending = false :=
  Bool.eq_false_iff.mpr fun hyes => hne (h.unique j i it iteration hj hi hyes hit)

theorem LogInv.persisted (h : LogInv messages wrapper)
    (hi : wrapper.iterations[i]? = some iteration) (hit : iteration.isAppending = true) :
    wrapper.persisted = true := by
  by_contra hnot
  have hidle := (h.fresh (Bool.eq_false_iff.mpr hnot)).2 i iteration hi
  exact Bool.false_ne_true (hidle.symm.trans hit)

theorem filterMap_concat {α β : Type} (f : α → Option β) (l : List α) (a : α) :
    (l ++ [a]).filterMap f = l.filterMap f ++ (f a).toList := by
  rw [List.filterMap_append]
  cases hfa : f a with
  | none => rw [List.filterMap_cons_none hfa]; rfl
  | some b => rw [List.filterMap_cons_some hfa]; rfl

theorem Assembled.mono {emitted more : List StreamEvent} {message : Content}
    (h : Assembled emitted message) : Assembled (emitted ++ more) message := by
  obtain ⟨before, hbefore, hmessage⟩ := h
  exact ⟨before, hbefore.trans (List.prefix_append _ _), hmessage⟩

/-- An event passes. -/
theorem LogInv.event (h : LogInv messages wrapper) (event : StreamEvent) :
    LogInv messages { wrapper.accumulate event with emitted := wrapper.emitted ++ [event] } where
  texts := by
    rw [filterMap_concat, ← h.texts]
    rfl
  calls := by
    rw [filterMap_concat, ← h.calls]
    rfl
  fresh := h.fresh
  unique := h.unique
  stage j it hj := by
    have hstage := h.stage j it hj
    cases it with
    | answering message => exact ⟨hstage.1, hstage.2.mono⟩
    | _ => exact hstage
  logged := h.logged.imp id fun ⟨message, hassembled, hlog⟩ => ⟨message, hassembled.mono, hlog⟩

/-- A message is appended by the only iteration that appends. -/
theorem LogInv.finish_append {message : Content} (h : LogInv messages wrapper)
    (hi : wrapper.iterations[i]? = some iteration) (hit : iteration.isAppending = true)
    (hlogged : Logged messages (wrapper.append message)) :
    LogInv messages ((wrapper.append message).setIteration i .finished) := by
  refine .of_only ?_ ?_ ?_ ?_ trivial hlogged
  · exact h.texts
  · exact h.calls
  · exact h.persisted hi hit
  · exact h.only hi hit

theorem logged_append {message : Content} (h : LogInv messages wrapper)
    (hi : wrapper.iterations[i]? = some iteration)
    (hit : iteration = .answering message ∨ ∃ rest, iteration = .appending message rest) :
    Logged messages (wrapper.append message) := by
  have hstage := h.stage i iteration hi
  rcases hit with rfl | ⟨rest, rfl⟩
  · obtain ⟨hlog, hassembled⟩ := hstage
    exact Or.inr ⟨message, hassembled, congrArg (· ++ [message]) hlog⟩
  · refine Or.inl ⟨rest, ?_⟩
    change wrapper.appended ++ [message] ++ rest = messages
    rw [List.append_assoc]
    exact hstage.symm

/-- **One step keeps the log.** -/
theorem logInv_step {label : Label} {wrapper' : Wrapper} (h : LogInv messages wrapper)
    (hstep : step messages wrapper label = some wrapper') : LogInv messages wrapper' := by
  cases label with
  | iterate =>
    rw [← Option.some.inj hstep]
    have hnew : ∀ (j : ℕ) (it : Iteration),
        (wrapper.iterations ++ [Iteration.created])[j]? = some it →
          it = .created ∨ wrapper.iterations[j]? = some it := by
      intro j it hj
      rw [List.getElem?_append] at hj
      split_ifs at hj with hlt
      · exact Or.inr hj
      · exact Or.inl (List.mem_singleton.mp (List.mem_of_getElem? hj))
    refine ⟨h.texts, h.calls, fun hnot => ⟨(h.fresh hnot).1, fun j it hj => ?_⟩,
      fun j k a b hj hk ha hb => ?_, fun j it hj => ?_, h.logged⟩
    · rcases hnew j it hj with rfl | hj
      · rfl
      · exact (h.fresh hnot).2 j it hj
    · rcases hnew j a hj with rfl | hj
      · exact absurd ha Bool.false_ne_true
      · rcases hnew k b hk with rfl | hk
        · exact absurd hb Bool.false_ne_true
        · exact h.unique j k a b hj hk ha hb
    · rcases hnew j it hj with rfl | hj
      · trivial
      · exact h.stage j it hj
  | next i =>
    dsimp only [step] at hstep
    split at hstep
    · exact Option.some.inj hstep ▸ h.setIteration rfl
    · exact Option.some.inj hstep ▸ h.setIteration rfl
    · cases hstep
  | event i event =>
    dsimp only [step] at hstep
    split at hstep
    · exact Option.some.inj hstep ▸ (h.event event).setIteration rfl
    · cases hstep
  | stop i =>
    dsimp only [step] at hstep
    split at hstep
    · exact Option.some.inj hstep ▸ h.persist
    · cases hstep
  | close i =>
    dsimp only [step] at hstep
    split at hstep
    · exact Option.some.inj hstep ▸ h.setIteration rfl
    · exact Option.some.inj hstep ▸ h.persist
    · cases hstep
  | appended i =>
    dsimp only [step] at hstep
    split at hstep
    · next message rest hi =>
      rw [← Option.some.inj hstep]
      refine .persistRest h.texts h.calls (h.persisted hi rfl) (h.only hi rfl) ?_
      change wrapper.appended ++ [message] ++ rest = messages
      rw [List.append_assoc]
      exact (h.stage i _ hi).symm
    · next message hi =>
      rw [← Option.some.inj hstep]
      exact h.finish_append hi rfl (logged_append h hi (Or.inl rfl))
    · cases hstep
  | appendFailed i stored =>
    dsimp only [step] at hstep
    split at hstep
    · next message rest hi =>
      rw [← Option.some.inj hstep]
      split_ifs
      · exact h.finish_append hi rfl (logged_append h hi (Or.inr ⟨rest, rfl⟩))
      · exact h.setIteration rfl
    · next message hi =>
      rw [← Option.some.inj hstep]
      split_ifs
      · exact h.finish_append hi rfl (logged_append h hi (Or.inl rfl))
      · exact h.setIteration rfl
    · cases hstep

theorem logInv_init : LogInv messages {} := by
  have hnone : ∀ (i : ℕ) (it : Iteration), ([] : List Iteration)[i]? ≠ some it := by
    intro i it
    rw [List.getElem?_nil]
    exact (Option.some_ne_none it).symm
  exact ⟨rfl, rfl, fun _ => ⟨rfl, fun i it h => absurd h (hnone i it)⟩,
    fun i _ a _ h => absurd h (hnone i a), fun i it h => absurd h (hnone i it),
    Or.inl List.nil_prefix⟩

end Steps

/-- **Whatever the consumers do**, the log has each message once. -/
theorem logged_of_run {messages : List Content} {labels : List Label} {wrapper : Wrapper}
    (h : TransitionSystem.run (step messages) {} labels = some wrapper) :
    Logged messages wrapper :=
  (TransitionSystem.run_invariant (fun _ _ _ => logInv_step) logInv_init h : LogInv _ _).logged

/-! ### A stream that is consumed -/

section Consume

variable {messages : List Content} {wrapper : Wrapper}

/-- All events pass, one after the other. -/
theorem run_events (events : List StreamEvent) (hwait : wrapper.iterations = [.waiting]) :
    TransitionSystem.run (step messages) wrapper
        (events.flatMap fun event => [.event 0 event, .next 0]) =
      some { wrapper with
        textDeltas := wrapper.textDeltas ++ events.filterMap eventText
        toolCalls := wrapper.toolCalls ++ events.filterMap eventCall
        emitted := wrapper.emitted ++ events } := by
  induction events generalizing wrapper with
  | nil =>
    rw [List.flatMap_nil, TransitionSystem.run_nil]
    simp only [List.filterMap_nil, List.append_nil]
  | cons event events ih =>
    rw [List.flatMap_cons, List.cons_append, List.cons_append, List.nil_append]
    have hevent : step messages wrapper (.event 0 event) =
        some { (wrapper.accumulate event).setIteration 0 .yielded with
          emitted := wrapper.emitted ++ [event] } := by
      rw [step, hwait]
      rfl
    have hnext : step messages
        { (wrapper.accumulate event).setIteration 0 .yielded with
          emitted := wrapper.emitted ++ [event] } (.next 0) =
        some { wrapper.accumulate event with
          iterations := [.waiting]
          emitted := wrapper.emitted ++ [event] } := by
      rw [step, Wrapper.setIteration, Wrapper.accumulate, hwait]
      rfl
    rw [TransitionSystem.run_cons, hevent, Option.bind_some, TransitionSystem.run_cons, hnext,
      Option.bind_some, ih rfl]
    have hsplit : ∀ {β : Type} (f : StreamEvent → Option β),
        (event :: events).filterMap f = (f event).toList ++ events.filterMap f := by
      intro β f
      rw [List.filterMap_cons]
      cases f event <;> rfl
    simp only [Wrapper.accumulate, hsplit, List.append_assoc, List.cons_append, List.nil_append,
      ← hwait]

/-- All messages are appended, and then the answer. -/
theorem run_appended (rest : List Content) {it : Iteration} (hone : wrapper.iterations = [it]) :
    ∃ wrapper', TransitionSystem.run (step messages) (wrapper.persistRest 0 rest)
        (List.replicate (rest.length +
          (assistantMessage wrapper.textDeltas wrapper.toolCalls).toList.length) (.appended 0)) =
        some wrapper' ∧
      wrapper'.appended = wrapper.appended ++ rest ++
        (assistantMessage wrapper.textDeltas wrapper.toolCalls).toList := by
  induction rest generalizing wrapper it with
  | nil =>
    rw [Wrapper.persistRest]
    cases hanswer : assistantMessage wrapper.textDeltas wrapper.toolCalls with
    | none =>
      refine ⟨_, rfl, ?_⟩
      rw [List.append_nil]
      exact (List.append_nil _).symm
    | some message =>
      have happended : step messages (wrapper.setIteration 0 (.answering message)) (.appended 0) =
          some ((wrapper.append message).setIteration 0 .finished) := by
        rw [step, Wrapper.setIteration, hone]
        simp only [List.set_cons_zero, List.getElem?_cons_zero, Wrapper.append,
          Wrapper.setIteration, hone]
      refine ⟨(wrapper.append message).setIteration 0 .finished, ?_, ?_⟩
      · change (step messages (wrapper.setIteration 0 (.answering message)) (.appended 0)).bind
          some = _
        rw [happended, Option.bind_some]
      · rw [List.append_nil]
        rfl
  | cons message rest ih =>
    have happended : step messages (wrapper.setIteration 0 (.appending message rest))
        (.appended 0) = some ((wrapper.setIteration 0 (.appending message rest)).append
          message |>.persistRest 0 rest) := by
      rw [step, Wrapper.setIteration, hone]
      rfl
    obtain ⟨wrapper', hrun, hlog⟩ :=
      @ih ((wrapper.setIteration 0 (.appending message rest)).append message)
        (.appending message rest) (congrArg (·.set 0 (Iteration.appending message rest)) hone)
    refine ⟨wrapper', ?_, ?_⟩
    · rw [List.length_cons, Nat.add_right_comm, List.replicate_succ, TransitionSystem.run_cons,
        Wrapper.persistRest, happended, Option.bind_some]
      exact hrun
    · have hassoc :
          wrapper.appended ++ [message] ++ rest = wrapper.appended ++ message :: rest := by
        rw [List.append_assoc]
        rfl
      exact hlog.trans (congrArg (· ++ _) hassoc)

/-- **A stream that is consumed** leaves the messages, and the answer put together from all of it.
-/
theorem run_consume (messages : List Content) (events : List StreamEvent) :
    ∃ wrapper, TransitionSystem.run (step messages) {} (consume messages events) = some wrapper ∧
      wrapper.appended = messages ++
        (assistantMessage (events.filterMap eventText) (events.filterMap eventCall)).toList := by
  obtain ⟨wrapper, hrun, hlog⟩ := @run_appended messages
    { textDeltas := events.filterMap eventText
      toolCalls := events.filterMap eventCall
      persisted := true
      iterations := [.waiting]
      emitted := events } messages _ rfl
  refine ⟨wrapper, ?_, hlog⟩
  rw [consume, List.append_assoc, List.append_assoc, TransitionSystem.run_append]
  have hbegin : TransitionSystem.run (step messages) {} [.iterate, .next 0] =
      some { iterations := [.waiting] } := rfl
  rw [hbegin, Option.bind_some, TransitionSystem.run_append, run_events events rfl,
    Option.bind_some, TransitionSystem.run_append]
  exact hrun

end Consume

/-! ### Both ways -/

/-- The text of a message. -/
def messageText (message : Content) : String :=
  String.join ((message.content.getD []).filterMap (·.text))

/-- **The events carry an answer**: its text in their deltas, its tool calls, and itself when it is
completed. -/
structure Carries (events : List StreamEvent) (answer : Content) : Prop where
  text : String.join (events.filterMap eventText) = messageText answer
  calls : events.filterMap eventCall = answer.toolCalls.getD []
  completed : ∃ event ∈ events, event.eventType = .messageCompleted ∧ event.message = some answer

/-- **A plain answer** has a text or tool calls, and nothing else. -/
structure Plain (answer : Content) : Prop where
  role : answer.role = .assistant
  status : answer.status = none
  name : answer.name = none
  toolCallId : answer.toolCallId = none
  metadata : answer.metadata = []
  content : answer.content = none ∨
    ∃ text, text ≠ "" ∧ answer.content = some [{ type := .text, text := some text }]
  toolCalls : answer.toolCalls ≠ some []
  nonempty : answer.content ≠ none ∨ answer.toolCalls ≠ none

theorem messages_appendAll (context : Context) (messages : List Content) :
    (appendAll context messages).messages = context.messages ++ messages := by
  induction messages generalizing context with
  | nil => exact (List.append_nil _).symm
  | cons message messages ih =>
    rw [appendAll, List.foldl_cons]
    refine (ih (context.withMessage message)).trans ?_
    change context.messages ++ [message] ++ messages = _
    rw [List.append_assoc]
    rfl

/-- The context tells which messages were appended. -/
theorem appendAll_injective (context : Context) : Function.Injective (appendAll context) := by
  intro messages messages' h
  have hmessages := congrArg Context.messages h
  rw [messages_appendAll, messages_appendAll] at hmessages
  exact List.append_cancel_left hmessages

theorem textContent_messageText {answer : Content} (h : answer.content = none ∨
    ∃ text, text ≠ "" ∧ answer.content = some [{ type := .text, text := some text }]) :
    textContent (messageText answer) = answer.content := by
  rw [messageText]
  rcases h with h | ⟨text, hne, h⟩
  · rw [h]
    rfl
  · rw [h]
    change textContent ("" ++ text) = _
    rw [String.empty_append, textContent, if_neg hne]

theorem textContent_cases (text : String) : textContent text = none ∨
    ∃ text', text' ≠ "" ∧ textContent text = some [{ type := .text, text := some text' }] := by
  rw [textContent]
  by_cases htext : text = ""
  · exact Or.inl (if_pos htext)
  · exact Or.inr ⟨text, htext, if_neg htext⟩

/-- The wrapper puts an answer together again exactly if it is plain. -/
theorem assistantMessage_iff {events : List StreamEvent} {answer : Content}
    (hcarries : Carries events answer) :
    assistantMessage (events.filterMap eventText) (events.filterMap eventCall) = some answer ↔
      Plain answer := by
  dsimp only [assistantMessage]
  rw [hcarries.text, hcarries.calls]
  constructor
  · intro h
    have hsome := (Option.ite_none_left_eq_some.mp h).1
    have hanswer := Option.some.inj (Option.ite_none_left_eq_some.mp h).2
    have hcontent := congrArg Content.content hanswer
    have hcalls := congrArg Content.toolCalls hanswer
    dsimp only at hcontent hcalls
    rw [hcontent, hcalls] at hsome
    refine ⟨(congrArg Content.role hanswer).symm, (congrArg Content.status hanswer).symm,
      (congrArg Content.name hanswer).symm, (congrArg Content.toolCallId hanswer).symm,
      (congrArg Content.metadata hanswer).symm, ?_, ?_, not_and_or.mp hsome⟩
    · rw [← hcontent]
      exact textContent_cases _
    · rw [← hcalls]
      split_ifs with hnone
      · exact (Option.some_ne_none _).symm
      · exact fun heq => hnone (Option.some.inj heq)
  · intro h
    have hcalls : (if answer.toolCalls.getD [] = [] then none
        else some (answer.toolCalls.getD [])) = answer.toolCalls := by
      cases htools : answer.toolCalls with
      | none => rfl
      | some calls => exact if_neg fun hnil => h.toolCalls (htools.trans (congrArg some hnil))
    rw [textContent_messageText h.content, hcalls, if_neg (not_and_or.mpr h.nonempty), ← h.role]
    obtain ⟨role, content, status, name, toolCallId, toolCalls, metadata⟩ := answer
    obtain rfl : status = none := h.status
    obtain rfl : name = none := h.name
    obtain rfl : toolCallId = none := h.toolCallId
    obtain rfl : metadata = [] := h.metadata
    rfl

/-- **Streamed chats append as chats in one piece exactly for plain answers**, and in every run the
log has each message once. -/
theorem streams_as_chat_iff (context : Context) (messages : List Content) :
    (∀ (events : List StreamEvent) (answer : Content), Carries events answer →
      ((∃ wrapper,
          TransitionSystem.run (step messages) {} (consume messages events) = some wrapper ∧
            appendAll context wrapper.appended =
              (chatWithContext context messages (.ok answer)).2) ↔ Plain answer)) ∧
      ∀ (labels : List Label) (wrapper : Wrapper),
        TransitionSystem.run (step messages) {} labels = some wrapper →
          Logged messages wrapper := by
  refine ⟨fun events answer hcarries => ?_, fun labels wrapper => logged_of_run⟩
  obtain ⟨consumed, hconsumed, hlog⟩ := run_consume messages events
  rw [← assistantMessage_iff hcarries]
  constructor
  · rintro ⟨wrapper, hrun, hsame⟩
    obtain rfl := Option.some.inj (hconsumed.symm.trans hrun)
    have happended := appendAll_injective context hsame
    rw [hlog] at happended
    have hanswer := List.append_cancel_left happended
    exact Option.toList_eq_singleton_iff.mp hanswer
  · intro hanswer
    refine ⟨consumed, hconsumed, ?_⟩
    rw [hlog, hanswer]
    rfl

/-- An answer with the parts of its provider, and a stream that carries it. -/
private def signedAnswer : Content where
  role := .assistant
  content := some [{ type := .text, text := some "Hello" }]
  metadata := [("gemini_parts", .other "[\x7b\"text\": \"Hello\"\x7d]")]

private def plainAnswer : Content := { signedAnswer with metadata := [] }

private def helloEvents (answer : Content) : List StreamEvent := [
  { eventType := .messageDelta, textDelta := some "Hel" },
  { eventType := .messageDelta, textDelta := some "lo" },
  { eventType := .messageCompleted, message := some answer }]

/-- The streamed answer has lost the parts of its provider. -/
theorem streamed_answer_loses_metadata :
    Carries (helloEvents signedAnswer) signedAnswer ∧
      ∃ wrapper, TransitionSystem.run (step []) {} (consume [] (helloEvents signedAnswer)) =
          some wrapper ∧
        wrapper.appended = [plainAnswer] ∧
        (chatWithContext { contextId := "c" } [] (.ok signedAnswer)).2.messages =
          [signedAnswer] ∧
        signedAnswer ≠ plainAnswer :=
  ⟨⟨rfl, rfl, _, List.mem_of_getElem? (i := 2) rfl, rfl, rfl⟩, _, rfl, rfl, rfl, by decide⟩

theorem plain_answer_streams :
    ∃ wrapper, TransitionSystem.run (step []) {} (consume [] (helloEvents plainAnswer)) =
        some wrapper ∧
      appendAll { contextId := "c" } wrapper.appended =
        (chatWithContext { contextId := "c" } [] (.ok plainAnswer)).2 :=
  ((streams_as_chat_iff { contextId := "c" } []).1 (helloEvents plainAnswer) plainAnswer
    ⟨rfl, rfl, _, List.mem_of_getElem? (i := 2) rfl, rfl, rfl⟩).mpr
    ⟨rfl, rfl, rfl, rfl, rfl, Or.inr ⟨"Hello", by decide, rfl⟩, nofun, Or.inl nofun⟩

end EvernightAI.ContextStream
