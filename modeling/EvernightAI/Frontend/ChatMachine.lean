import EvernightAI.Frontend.Transcript
import EvernightAI.Schema.Resource

/-!
# The state machine of the chat page

`chatMachine`, with its sixteen states and the context it carries. The labels of a step are the
events the page sends, with the ids it makes up for them, and the outcomes of the actor the state
has invoked. The machine keeps a log of the events it received and of the states it entered.

`Machine.step` takes one event and the eventless transitions behind it.
-/

namespace EvernightAI.Frontend

/-! ### Skills of a run -/

/-- `SkillDefinition`, as far as the page compares it. -/
structure SkillDefinition where
  name : String
  isEnabled : Option Bool := none
  revision : Option String := none
  deriving DecidableEq, Repr

inductive SkillIssueReason
  | revisionChanged | disabled | deleted | revisionUnavailable
  deriving DecidableEq, Repr

/-- `RunSkillIssue` -/
structure RunSkillIssue where
  reason : SkillIssueReason
  names : List String
  deriving DecidableEq, Repr

/-- An error: of the API, with its status, or another. -/
inductive ChatError
  | api (message : String) (status : Int) (errorType : Option String) (detail : Value)
  | other (message : String)
  deriving DecidableEq, Repr

/-- `event.error instanceof ApiError && event.error.status === 404` -/
def ChatError.isNotFound : ChatError → Bool
  | .api _ status _ _ => status = 404
  | .other _ => false

/-- What the page reads of an error detail, parsed if it is a text. -/
structure ErrorDetail where
  /-- `skill_names`, if it is an array of texts -/
  skillNames : Option (List String)
  /-- `reason === 'revision_unavailable'` -/
  revisionUnavailable : Bool

section Machine

variable (b : Browser) (readDetail : Value → ErrorDetail)

/-- `skillErrorIssues` -/
def skillErrorIssues (error : Option ChatError) (run : Option Run) : List RunSkillIssue :=
  match error with
  | some (.api _ _ errorType detail) =>
    let reason := match errorType with
      | some "SkillDisabledError" => some SkillIssueReason.disabled
      | some "SkillNotFoundError" => some .deleted
      | some "SkillConflictError" => some .revisionChanged
      | _ => none
    match reason with
    | some reason =>
      let names := (readDetail detail).skillNames.getD
        ((run.map (·.request.skillNames)).getD [])
      [{ reason := if (readDetail detail).revisionUnavailable then .revisionUnavailable
          else reason
         names }]
    | none => []
  | _ => []

/-- The error that `runFailureError` makes. -/
def FailureError.toChatError (failure : FailureError) : ChatError :=
  .api failure.message (if failure.errorType = "SkillNotFoundError" then 404 else 409)
    (some failure.errorType) failure.detail

/-- What is wrong with a skill of a run, compared with the catalog. -/
def skillReason (skills : List SkillDefinition) (revision : Option String) (name : String) :
    Option SkillIssueReason :=
  match skills.find? (·.name = name) with
  | none => some .deleted
  | some skill =>
    if skill.isEnabled = some false then some .disabled
    else if skill.revision ≠ revision then some .revisionChanged
    else none

/-- `runSkillIssues` -/
def runSkillIssues (run : Option Run) (skills : Option (List SkillDefinition)) :
    List RunSkillIssue :=
  match run with
  | none => []
  | some run =>
    if !run.status.any ([RunStatus.paused, .failed, .running].contains ·) then []
    else
      let failure := skillErrorIssues readDetail ((runFailureError run).map (·.toChatError))
        (some run)
      if !failure.isEmpty then failure
      else
        let names := run.request.skillNames.eraseDups
        if names.isEmpty then []
        else
          match run.skillRevisions.filter fun revisions =>
            names.all fun name => (revisions.lookup name).isSome with
          | none =>
            if run.status = some .running then [] else [{ reason := .revisionUnavailable, names }]
          | some revisions =>
            match skills with
            | none => []
            | some skills =>
              names.filterMap fun name =>
                (skillReason skills ((revisions.lookup name).getD none) name).map fun reason =>
                  { reason, names := [name] }

/-- `canRetryRun` -/
def canRetryRun : Option Run → Bool
  | none => false
  | some run =>
    run.status = some .failed || run.status = some .canceled ||
      (run.status = some .paused && run.pauseResumable = some false)

/-! ### The context -/

structure ChatSubmission where
  providerId : String
  modelId : String
  text : String
  messages : List Content := []
  deriving DecidableEq, Repr

inductive SessionOperation
  | create | load | delete
  deriving DecidableEq, Repr

inductive ApprovalChoice
  | approved | denied
  deriving DecidableEq, Repr

inductive ChatConnectionState
  | live | reconnecting | syncing
  deriving DecidableEq, Repr

/-- `ChatMachineContext` -/
structure ChatMachineContext where
  transcript : List Entry := []
  trace : List AgentTraceEvent := []
  contextId : Option String := none
  runId : Option String := none
  contextReady : Bool := false
  pending : Option (ChatSubmission × List ToolDefinition) := none
  run : Option Run := none
  session : Option Session := none
  requestedSession : Option Session := none
  sessionOperation : Option SessionOperation := none
  deletedSessionId : Option String := none
  /-- The newest choice for an approval comes first. -/
  approvalStatuses : List (String × ApprovalChoice) := []
  error : Option ChatError := none
  connection : ChatConnectionState := .live
  skills : Option (List SkillDefinition) := none
  skillIssues : List RunSkillIssue := []
  deriving DecidableEq, Repr

/-- `ChatSessionSnapshot`, and the decisions stored for its run. -/
structure ChatSessionSnapshot where
  session : Session
  transcript : List Entry
  run : Option Run := none
  decisions : List (String × ApprovalChoice) := []
  deriving DecidableEq, Repr

inductive ChatState
  | deletingSession | creatingSession | loadingSession | idle | preparing | streaming
  | approvalRequired | resumeRequired | resuming | retrying | canceling | clearing | canceled
  | recovering | evaluatingRun | failed
  deriving DecidableEq, Repr

/-- An event of the page, or an outcome of an invoked actor. `SEND` and `RETRY` come with the ids
that `createChatContextId` and `createChatRunId` would make. -/
inductive ChatMachineEvent
  | skillCatalog (skills : Option (List SkillDefinition))
  | openRun (run : Run) (session : Option Session) (transcript : List Entry)
      (choices : List (String × ApprovalChoice))
  | snapshot (run : Run)
  | connection (runId : String) (connection : ChatConnectionState)
  | authChanged
  | send (submission : ChatSubmission) (tools : List ToolDefinition) (contextId runId : String)
  | retry (runId : String)
  | approve (approvalId : String)
  | deny (approvalId : String)
  | resume
  | createSession (session : Session)
  | selectSession (session : Session)
  | sessionUpdated (session : Session)
  | deleteSession (sessionId : String)
  | cancel
  | trace (event : AgentTraceEvent)
  | clear
  | sessionDeleted (sessionId : String)
  | sessionLoaded (snapshot : ChatSessionSnapshot)
  | contextPrepared
  | runReturned (run : Run)
  | runCanceled (run : Option Run)
  | contextCleared
  | actorFailed (error : ChatError)
  deriving DecidableEq, Repr

inductive LogItem
  | received (event : ChatMachineEvent)
  | entered (state : ChatState)
  deriving DecidableEq, Repr

structure Machine where
  state : ChatState
  context : ChatMachineContext
  log : List LogItem
  deriving DecidableEq, Repr

/-! ### Guards and actions -/

/-- `isSuccessfullyFinishedRun` -/
def isSuccessfullyFinishedRun (run : Run) : Bool :=
  run.status = some .finished && run.response.isSome && run.stopReason.all (· = "finished")

/-- `isApprovalPause` -/
def isApprovalPause (run : Option Run) : Bool :=
  run.any fun run => run.status = some .paused && run.pauseResumable ≠ some false &&
    !run.pendingApprovalRequests.isEmpty

/-- `isManualPause` -/
def isManualPause (run : Option Run) : Bool :=
  run.any fun run => run.status = some .paused && run.pauseResumable = some true

/-- `agentRunError` -/
def agentRunError (run : Run) : ChatError :=
  match runFailureError run with
  | some failure => failure.toChatError
  | none =>
    if run.stopReason = some "tool_rounds_exhausted" then
      .other ("Agent run exhausted " ++ (run.toolRoundsUsed.map toString).getD "all" ++
        " tool rounds before finishing")
    else
      let status := run.status.map fun
        | .running => "running"
        | .paused => "paused"
        | .canceled => "canceled"
        | .finished => "finished"
        | .failed => "failed"
      .other ("Agent run did not finish: " ++
        ((nonEmpty run.stopReason) <|> status).getD "unknown state")

namespace ChatMachineContext

/-- `hasSkillConflict` -/
def hasSkillConflict (context : ChatMachineContext) : Bool :=
  !context.skillIssues.isEmpty ||
    !(skillErrorIssues readDetail context.error context.run).isEmpty ||
    !(runSkillIssues readDetail context.run context.skills).isEmpty

/-- `isPendingApproval` -/
def isPendingApproval (context : ChatMachineContext) (approvalId : String) : Bool :=
  !context.hasSkillConflict readDetail &&
    context.run.any fun run =>
      run.pendingApprovalRequests.any (·.approvalId = approvalId)

/-- Every pending approval has a choice. -/
def allChosen (context : ChatMachineContext) (statuses : List (String × ApprovalChoice)) : Bool :=
  context.run.any fun run =>
    run.pendingApprovalRequests.all fun request => (statuses.lookup request.approvalId).isSome

/-- `hasPotentiallyActiveRun` -/
def hasPotentiallyActiveRun (context : ChatMachineContext) : Bool :=
  match nonEmpty context.runId with
  | none => false
  | some runId =>
    match context.run with
    | none => true
    | some run =>
      run.runId ≠ runId || run.status = some .running || run.status = some .paused

/-- The 404 of a recovery whose run has never been started. -/
def neverStarted (context : ChatMachineContext) (error : ChatError) : Bool :=
  context.run.isNone && context.pending.isSome && error.isNotFound

def stopStreaming (context : ChatMachineContext) : ChatMachineContext :=
  { context with
    transcript := context.transcript.map fun entry => { entry with streaming := some false } }

/-- `userEntry` -/
def userEntry (submission : ChatSubmission) (index : Nat) : Entry :=
  let content := submission.messages.head?.getD
    { role := .user, content := some [{ type := .text, text := some submission.text }] }
  { entryId := "user-" ++ toString index
    role := .user
    text := if visibleTextFromContent content ≠ "" then visibleTextFromContent content
      else "[图片]"
    content
    modelId := some submission.modelId }

/-- The assignments of a `SEND` from `idle` or `canceled`. -/
def send (context : ChatMachineContext) (submission : ChatSubmission)
    (tools : List ToolDefinition) (contextId runId : String) : ChatMachineContext :=
  { context with
    contextId := some ((nonEmpty context.contextId).getD contextId)
    runId := some runId
    pending := some (submission, tools)
    transcript := context.transcript ++ [userEntry submission (context.transcript.length + 1)]
    trace := []
    run := none
    approvalStatuses := []
    skillIssues := []
    error := none }

/-- The assignments of a `SEND` from `failed`. -/
def sendAgain (context : ChatMachineContext) (submission : ChatSubmission)
    (tools : List ToolDefinition) (runId : String) : ChatMachineContext :=
  { context with
    runId := some runId
    pending := some (submission, tools)
    transcript := context.transcript ++ [userEntry submission (context.transcript.length + 1)]
    trace := []
    run := none
    sessionOperation := none
    requestedSession := none
    approvalStatuses := []
    skillIssues := []
    error := none }

/-- `sessionLoadedContext` -/
def sessionLoaded (context : ChatMachineContext) (snapshot : ChatSessionSnapshot) :
    ChatMachineContext :=
  { transcript := snapshot.transcript
    trace := (snapshot.run.map (·.trace)).getD []
    contextId := some snapshot.session.contextId
    runId := nonEmpty (snapshot.run.map (·.runId))
    contextReady := true
    pending := none
    run := snapshot.run
    session := some snapshot.session
    requestedSession := none
    sessionOperation := none
    deletedSessionId := none
    approvalStatuses := if snapshot.run.isSome then snapshot.decisions else []
    error := none
    connection := .live
    skills := context.skills
    skillIssues := [] }

/-- The assignments of a `TRACE`. -/
def traced (context : ChatMachineContext) (event : AgentTraceEvent) : ChatMachineContext :=
  { context with
    trace := context.trace ++ [event]
    transcript := applyChatTrace b context.transcript event (context.runId.getD "") }

/-- The assignments of a `SNAPSHOT`. -/
def snapshotTaken (context : ChatMachineContext) (run : Run) : ChatMachineContext :=
  { context with
    run := some run
    trace := if run.trace.isEmpty then context.trace else run.trace
    transcript := reconcileRunTranscript b context.transcript run }

/-- The assignments on entering a state. -/
def onEntry (context : ChatMachineContext) : ChatState → ChatMachineContext
  | .approvalRequired | .resumeRequired | .canceling | .failed => context.stopStreaming
  | .evaluatingRun =>
    { context with
      transcript := context.run.elim context.transcript
        (reconcileRunTranscript b context.transcript)
      connection := .live
      skillIssues := runSkillIssues readDetail context.run context.skills }
  | _ => context

/-- The eventless transitions of `evaluatingRun`. -/
def evaluated (context : ChatMachineContext) : ChatState × ChatMachineContext :=
  match context.run with
  | none => (.idle, context)
  | some run =>
    if run.status = some .running then (.recovering, context)
    else if run.status = some .canceled then (.canceled, context)
    else if isApprovalPause (some run) then (.approvalRequired, context)
    else if isManualPause (some run) then (.resumeRequired, context)
    else if run.status = some .paused then (.resumeRequired, context)
    else
      match run.response.filter fun _ => isSuccessfullyFinishedRun run with
      | some response =>
        (.idle, { context with
          transcript := completeStreamedResponse b context.transcript response
            (context.runId.getD "")
          pending := none
          approvalStatuses := []
          error := none })
      | none =>
        (.failed, { context with approvalStatuses := [], error := some (agentRunError run) })

end ChatMachineContext

/-! ### Steps -/

namespace Machine

variable (machine : Machine)

/-- A state is entered. -/
def goto (state : ChatState) : Machine where
  state := state
  context := machine.context.onEntry b readDetail state
  log := machine.log ++ [.entered state]

/-- The eventless transitions of the state. -/
def settle : Machine :=
  match machine.state with
  | .preparing => if machine.context.contextReady then machine.goto b readDetail .streaming
    else machine
  | .evaluatingRun =>
    let (target, context) := machine.context.evaluated b
    { machine with context }.goto b readDetail target
  | _ => machine

/-- A transition with its assignments, and the eventless ones behind it. -/
def enter (state : ChatState) (context : ChatMachineContext) : Machine :=
  ({ machine with context }.goto b readDetail state).settle b readDetail

/-- A transition without a target. -/
def stay (context : ChatMachineContext) : Machine :=
  { machine with context }.settle b readDetail

/-- The events that the machine handles in every state. -/
def onAny (event : ChatMachineEvent) : Option Machine :=
  let context := machine.context
  match event with
  | .skillCatalog skills =>
    some (machine.stay b readDetail { context with
      skills
      skillIssues := if context.skillIssues.isEmpty then
        runSkillIssues readDetail context.run skills else context.skillIssues })
  | .openRun run session transcript choices =>
    some (machine.enter b readDetail .evaluatingRun { context with
      run := some run
      runId := some run.runId
      contextId := some run.request.contextId
      contextReady := true
      session
      transcript
      trace := run.trace
      pending := none
      error := none
      approvalStatuses := choices
      skillIssues := runSkillIssues readDetail (some run) context.skills })
  | .snapshot run =>
    some (if context.runId = some run.runId then
      machine.stay b readDetail (context.snapshotTaken b run) else machine)
  | .connection runId connection =>
    some (if context.runId = some runId then
      machine.stay b readDetail { context with connection } else machine)
  | .authChanged => some (machine.enter b readDetail .idle {})
  | .sessionUpdated session =>
    some (if context.session.any (·.sessionId = session.sessionId) then
      machine.stay b readDetail { context with session := some session } else machine)
  | .deleteSession sessionId =>
    some (if context.session.any (·.sessionId = sessionId) then
      machine.enter b readDetail .deletingSession { context with
        requestedSession := context.session
        sessionOperation := some .delete
        error := none }
    else machine)
  | .createSession session =>
    some (machine.enter b readDetail .creatingSession { context with
      requestedSession := some session
      sessionOperation := some .create
      error := none })
  | .selectSession session =>
    some (machine.enter b readDetail .loadingSession { context with
      requestedSession := some session
      sessionOperation := some .load
      error := none })
  -- an outcome of an actor that is not invoked
  | .sessionDeleted _ | .sessionLoaded _ | .contextPrepared | .runReturned _ | .runCanceled _
  | .contextCleared | .actorFailed _ => none
  | _ => some machine

/-- `failed.onError` and its like: the error is kept. -/
def fail (error : ChatError) : Machine :=
  machine.enter b readDetail .failed { machine.context with error := some error }

/-- An actor of a run failed: its skill issues are kept too. -/
def failRun (error : ChatError) : Machine :=
  machine.enter b readDetail .failed { machine.context with
    error := some error
    skillIssues := skillErrorIssues readDetail (some error) machine.context.run }

/-- A run came back from its actor. -/
def returned (run : Run) : Machine :=
  machine.enter b readDetail .evaluatingRun { machine.context with
    run := some run
    runId := some run.runId
    approvalStatuses := []
    error := none }

/-- `RETRY` in `failed`. -/
def retryFailed (runId : String) : Machine :=
  let context := machine.context
  if context.hasSkillConflict readDetail then machine
  else if (nonEmpty context.runId).isSome && context.run.all (·.status = some .running) then
    machine.enter b readDetail .recovering context
  else if context.sessionOperation = some .delete then
    machine.enter b readDetail .deletingSession context
  else if context.sessionOperation = some .create then
    machine.enter b readDetail .creatingSession context
  else if context.sessionOperation = some .load then
    machine.enter b readDetail .loadingSession context
  else if isApprovalPause context.run || isManualPause context.run then
    machine.enter b readDetail .resuming context
  else if canRetryRun context.run then
    machine.enter b readDetail .retrying { context with runId := some runId, trace := [] }
  else if context.run.isSome then machine
  else if !context.contextReady then machine.enter b readDetail .preparing context
  else machine.enter b readDetail .streaming context

/-- `APPROVE` or `DENY` in `approvalRequired`. -/
def decide (approvalId : String) (choice : ApprovalChoice) : Machine :=
  let context := machine.context
  let statuses := (approvalId, choice) :: context.approvalStatuses
  if context.isPendingApproval readDetail approvalId then
    if context.allChosen statuses then
      machine.enter b readDetail .resuming { context with approvalStatuses := statuses }
    else machine.stay b readDetail { context with approvalStatuses := statuses }
  else machine

/-- The transition of the machine for an event; `none` for an outcome of no invoked actor. -/
def transition (event : ChatMachineEvent) : Option Machine :=
  let context := machine.context
  match machine.state, event with
  | .deletingSession, .sessionDeleted sessionId =>
    some (machine.enter b readDetail .idle { deletedSessionId := some sessionId })
  | .deletingSession, .actorFailed error =>
    some (if context.neverStarted error then machine.enter b readDetail .streaming context
      else machine.fail b readDetail error)
  | .creatingSession, .sessionLoaded snapshot =>
    some (machine.enter b readDetail .idle (context.sessionLoaded snapshot))
  | .creatingSession, .actorFailed error => some (machine.fail b readDetail error)
  | .loadingSession, .sessionLoaded snapshot =>
    some (machine.enter b readDetail .evaluatingRun (context.sessionLoaded snapshot))
  | .loadingSession, .actorFailed error => some (machine.fail b readDetail error)
  | .idle, .send submission tools contextId runId =>
    some (machine.enter b readDetail .preparing (context.send submission tools contextId runId))
  | .idle, .clear => some (machine.enter b readDetail .clearing context)
  | .preparing, .contextPrepared =>
    some (machine.enter b readDetail .streaming
      { context with contextReady := true, error := none })
  | .preparing, .actorFailed error => some (machine.fail b readDetail error)
  | .preparing, .cancel =>
    some (machine.enter b readDetail (if context.contextReady then .canceling else .canceled)
      context)
  | .preparing, .clear =>
    some (if context.contextReady then machine.enter b readDetail .clearing context
      else machine.enter b readDetail .canceled {})
  | .streaming, .runReturned run => some (machine.returned b readDetail run)
  | .streaming, .actorFailed error => some (machine.failRun b readDetail error)
  | .streaming, .trace event => some (machine.stay b readDetail (context.traced b event))
  | .streaming, .cancel => some (machine.enter b readDetail .canceling context)
  | .streaming, .clear => some (machine.enter b readDetail .clearing context)
  | .approvalRequired, .resume =>
    some (if !context.hasSkillConflict readDetail && context.allChosen context.approvalStatuses
      then machine.enter b readDetail .resuming context else machine)
  | .approvalRequired, .approve approvalId =>
    some (machine.decide b readDetail approvalId .approved)
  | .approvalRequired, .deny approvalId => some (machine.decide b readDetail approvalId .denied)
  | .approvalRequired, .cancel => some (machine.enter b readDetail .canceling context)
  | .approvalRequired, .clear => some (machine.enter b readDetail .clearing context)
  | .resumeRequired, .resume =>
    some (if !context.hasSkillConflict readDetail then
      machine.enter b readDetail .resuming { context with approvalStatuses := [] } else machine)
  | .resumeRequired, .cancel => some (machine.enter b readDetail .canceling context)
  | .resumeRequired, .clear => some (machine.enter b readDetail .clearing context)
  | .resuming, .runReturned run =>
    some (machine.enter b readDetail .evaluatingRun { context with
      run := some run
      approvalStatuses := []
      error := none })
  | .resuming, .actorFailed error => some (machine.failRun b readDetail error)
  | .resuming, .trace event => some (machine.stay b readDetail (context.traced b event))
  | .resuming, .cancel => some (machine.enter b readDetail .canceling context)
  | .resuming, .clear => some (machine.enter b readDetail .clearing context)
  | .retrying, .runReturned run => some (machine.returned b readDetail run)
  | .retrying, .actorFailed error => some (machine.fail b readDetail error)
  | .retrying, .trace event => some (machine.stay b readDetail (context.traced b event))
  | .retrying, .cancel => some (machine.enter b readDetail .canceling context)
  | .retrying, .clear => some (machine.enter b readDetail .clearing context)
  | .canceling, .runCanceled run =>
    some (machine.enter b readDetail .canceled { context with
      run
      transcript := run.elim context.transcript (reconcileRunTranscript b context.transcript)
      approvalStatuses := []
      error := none })
  | .canceling, .actorFailed error => some (machine.fail b readDetail error)
  | .canceling, .clear => some (machine.enter b readDetail .clearing context)
  | .clearing, .contextCleared =>
    some (if context.session.isSome then
      machine.enter b readDetail .idle { context with
        transcript := []
        trace := []
        runId := none
        pending := none
        run := none
        approvalStatuses := []
        skillIssues := []
        error := none }
    else machine.enter b readDetail .canceled {})
  | .clearing, .actorFailed error =>
    some (machine.enter b readDetail .idle { context with error := some error })
  | .canceled, .send submission tools contextId runId =>
    some (machine.enter b readDetail .preparing (context.send submission tools contextId runId))
  | .canceled, .clear => some (machine.enter b readDetail .clearing context)
  | .recovering, .runReturned run =>
    some (machine.enter b readDetail .evaluatingRun
      { context with run := some run, error := none })
  | .recovering, .actorFailed error =>
    some (if context.neverStarted error then machine.enter b readDetail .streaming context
      else machine.fail b readDetail error)
  | .recovering, .cancel => some (machine.enter b readDetail .canceling context)
  | .recovering, .clear => some (machine.enter b readDetail .clearing context)
  | .failed, .cancel =>
    some (machine.enter b readDetail
      (if context.hasPotentiallyActiveRun then .canceling else .canceled) context)
  | .failed, .retry runId => some (machine.retryFailed b readDetail runId)
  | .failed, .send submission tools _ runId =>
    some (if !context.hasPotentiallyActiveRun then
      machine.enter b readDetail .preparing (context.sendAgain submission tools runId)
      else machine)
  | .failed, .clear => some (machine.enter b readDetail .clearing context)
  | _, event => machine.onAny b readDetail event

/-- **A step**: the event is received, and the machine makes its transition. -/
def step (event : ChatMachineEvent) : Option Machine :=
  ({ machine with log := machine.log ++ [.received event] } : Machine).transition b readDetail event

/-- The machine before its first event. -/
def initial : Machine := ⟨.idle, {}, [.entered .idle]⟩

end Machine

end Machine

end EvernightAI.Frontend
