import EvernightAI.Frontend.Transcript
import EvernightAI.Schema.Resource

/-!
# The history of a conversation

When a conversation is opened, `restoreChatHistory` builds its transcript from the stored messages
of the context and from the runs of its history generation. A run claims the messages it has
committed: the indices its snapshot records, or, if it records none, the next messages that equal
its own. Each run is shown at its offset, and the messages no run claims are shown between them.

`historyItems` are the runs with what they claim. That the transcript partitions the messages and
the runs is proved in `Frontend.HistoryPartition`.
-/

namespace EvernightAI.Frontend

/-! ### Equal messages -/

structure PartKey where
  type : ContentPartType
  text : Option String
  url : Option String
  data : Option String
  mimeType : Option String
  detail : Option String
  metadata : String
  deriving DecidableEq, Repr

structure ApprovalKey where
  approvalId : String
  toolCallId : String
  status : ToolApprovalStatus
  reason : Option String
  metadata : String
  deriving DecidableEq, Repr

structure CallKey where
  toolCallId : String
  toolCall : String
  approval : Option ApprovalKey
  metadata : String
  deriving DecidableEq, Repr

/-- The array that `sameMessage` prints, with its open values printed. -/
structure MessageKey where
  role : MessageRole
  status : Option MessageStatus
  error : String
  content : List PartKey
  toolCalls : List CallKey
  toolCallId : Option String
  name : Option String
  deriving DecidableEq, Repr

section History

variable (b : Browser)

def messageKey (message : Content) : MessageKey where
  role := message.role
  status := message.status
  error := b.sortedText ((message.metadata.get "error").getD .none)
  content := (message.content.getD []).map fun part =>
    { type := part.type, text := part.text, url := part.url, data := part.data
      mimeType := part.mimeType, detail := part.detail
      metadata := b.sortedRecordText part.metadata }
  toolCalls := (message.toolCalls.getD []).map fun call =>
    { toolCallId := call.toolCallId
      toolCall := b.sortedRecordText call.toolCall
      approval := call.approval.map fun approval =>
        { approvalId := approval.approvalId, toolCallId := approval.toolCallId
          status := approval.status, reason := approval.reason
          metadata := b.sortedRecordText approval.metadata }
      metadata := b.sortedRecordText call.metadata }
  toolCallId := message.toolCallId
  name := message.name

/-- `sameMessage` -/
def sameMessage (message message' : Content) : Bool := messageKey b message = messageKey b message'

/-! ### What a run claims -/

/-- A run with the indices of the messages it claims and the offset where it is shown. -/
structure HistoryItem where
  run : Run
  indices : List Nat
  offset : Int
  deriving DecidableEq, Repr

/-- `run.history?.message_indices` -/
def Run.messageIndices (run : Run) : Option (List Int) := run.history.bind (·.messageIndices)

/-- `run.history?.message_offset` -/
def Run.messageOffset (run : Run) : Option Int := run.history.bind (·.messageOffset)

/-- The run belongs to the context and to its history generation. -/
def isCurrent (context : Context) (run : Run) : Bool :=
  run.request.contextId = context.contextId &&
    b.strictEquals ((run.history.map (·.generation)).getD .none)
      ((context.metadata.get "chat_history_generation").getD .none)

/-- `runHistoryTime` -/
def runHistoryTime (run : Run) : String :=
  (nonEmpty (run.history.bind (·.startedAt)) <|>
    nonEmpty (run.trace.head?.bind (·.occurredAt))).getD ""

/-- The recorded indices that are indices of messages. -/
def recordedIndices (messages : List Content) (recorded : List Int) : List Nat :=
  recorded.filterMap fun i : Int => if 0 ≤ i ∧ i < messages.length then some i.toNat else none

def historyItem (messages : List Content) (run : Run) : HistoryItem where
  run := run
  indices := recordedIndices messages (run.messageIndices.getD [])
  offset := run.messageOffset.getD messages.length

/-- The replies of a run: from its steps, else from its trace, else its response. -/
def committedReplies (run : Run) : List Content :=
  let replies := (run.steps.filter fun step =>
    [StepType.chat, .tool, .toolError].contains step.stepType).filterMap fun step =>
      step.message <|> step.response.map (·.message)
  let replies :=
    if replies.isEmpty then
      run.trace.filterMap fun event =>
        match event.message with
        | some message => some message
        | none =>
          if event.eventType = .chatCompleted then event.response.map (·.message) else none
    else replies
  if replies.isEmpty then (run.response.map (·.message)).toList else replies

/-- `committed` -/
def committedMessages (run : Run) : List Content := run.request.messages ++ committedReplies run

/-- An older snapshot, without recorded indices, of a run that has committed its turn. -/
def Run.legacyTurn (run : Run) : Bool :=
  run.messageIndices.isNone &&
    (run.status = some .finished ||
      run.stopReason.any (["tool_error", "tool_rounds_exhausted"].contains ·))

/-- The stored messages from `start` equal the committed ones. -/
def matchesAt (messages committed : List Content) (start : Nat) : Bool :=
  committed.zipIdx.all fun m => messages[start + m.2]?.any (sameMessage b m.1)

/-- The first place from the cursor on where the committed messages are stored. -/
def matchTurn (messages committed : List Content) (cursor : Nat) : Option Nat :=
  (List.range (messages.length + 1)).find? fun start =>
    cursor ≤ start && start + committed.length ≤ messages.length &&
      matchesAt b messages committed start

/-- The offset is the first claimed index, and an index of a message or the end. -/
def settledOffset (messages : List Content) (indices : List Nat) (offset : Int) : Int :=
  let offset := match indices.min? with
    | some first => (first : Int)
    | none => offset
  max 0 (min messages.length offset)

/-- One turn of the loop that claims messages: the item and the next cursor. -/
def claimTurn (messages : List Content) (cursor : Nat) (item : HistoryItem) :
    HistoryItem × Nat :=
  let committed := committedMessages item.run
  let start := if item.run.legacyTurn && !committed.isEmpty then
    matchTurn b messages committed cursor else none
  let indices := start.elim item.indices fun start => List.range' start committed.length
  ({ item with indices, offset := settledOffset messages indices item.offset },
    start.elim cursor (· + committed.length))

def claimTurns (messages : List Content) : Nat → List HistoryItem → List HistoryItem
  | _, [] => []
  | cursor, item :: items =>
    let (item, cursor) := claimTurn b messages cursor item
    item :: claimTurns messages cursor items

/-- The run has no place of its own. -/
def HistoryItem.interrupted (item : HistoryItem) : Bool :=
  item.indices.isEmpty && item.run.messageOffset.isNone

/-- Interrupted turns are placed before the next turn. -/
def placeInterrupted : List HistoryItem → List HistoryItem
  | [] => []
  | item :: items =>
    match placeInterrupted items with
    | [] => [item]
    | next :: rest =>
      (if item.interrupted then { item with offset := next.offset } else item) :: next :: rest

/-- `history` -/
def historyItems (context : Context) (runs : List Run) : List HistoryItem :=
  placeInterrupted (claimTurns b context.messages 0
    (((runs.filter (isCurrent b context)).map (historyItem context.messages)).mergeSort
      fun item item' =>
        b.localeCompare (runHistoryTime item.run) (runHistoryTime item'.run) ≤ 0))

/-! ### The transcript -/

/-- The variables of the loop that shows the history. -/
structure Display where
  result : List Entry := []
  displayedRequests : List (String × List Content) := []
  stored : List Content := []
  storedOffset : Nat := 0

/-- The entries of unclaimed messages. -/
def storedEntries (storedOffset : Nat) (stored : List Content) : List Entry :=
  (transcriptFromMessages b stored).zipIdx.map fun e =>
    { e.1 with entryId := "context-" ++ toString storedOffset ++ "-" ++ toString e.2 }

/-- `flushStored` -/
def flushStored (display : Display) : Display :=
  { display with
    result := display.result ++ storedEntries b display.storedOffset display.stored
    stored := [] }

/-- The request messages that are shown: none for a retry that repeats its source. -/
def displayMessages (displayedRequests : List (String × List Content)) (run : Run) :
    List Content :=
  let messages := run.request.messages
  let source := match run.request.metadata.get "retry_of" with
    | some (.str retryOf) => displayedRequests.lookup retryOf
    | _ => none
  let repeatedRetry := source.any fun source =>
    source.length = messages.length && (source.zip messages).all fun m => sameMessage b m.1 m.2
  if repeatedRetry then []
  else
    match run.request.metadata.get "reply_only_of",
      run.request.metadata.get "chat_display_text" with
    | some (.str _), some (.str replyLabel) =>
      [{ role := .user, content := some [{ type := .text, text := some replyLabel }] }]
    | _, _ => messages

/-- The entries of a run in the history. -/
def turnEntries (displayedRequests : List (String × List Content)) (run : Run) : List Entry :=
  let request := (transcriptFromMessages b (displayMessages b displayedRequests run)).zipIdx.map
    fun e => { e.1 with entryId := run.runId ++ "-request-" ++ toString e.2 }
  let turn := reconcileRunTranscript b request run
  match run.status, run.response with
  | some .finished, some response => completeStreamedResponse b turn response run.runId
  | _, _ => turn

def showRun (display : Display) (item : HistoryItem) : Display :=
  let display := flushStored b display
  { display with
    result := display.result ++ turnEntries b display.displayedRequests item.run
    displayedRequests :=
      (item.run.runId, item.run.request.messages) :: display.displayedRequests }

/-- A message that no run claims waits for the next flush. -/
def storeMessage (display : Display) (index : Nat) (message : Content) : Display :=
  { display with
    storedOffset := if display.stored.isEmpty then index else display.storedOffset
    stored := display.stored ++ [message] }

/-- One turn of the loop over the indices. -/
def showIndex (messages : List Content) (items : List HistoryItem) (display : Display)
    (index : Nat) : Display :=
  let display := (items.filter fun item => item.offset = (index : Int)).foldl (showRun b) display
  match messages[index]? with
  | some message =>
    if items.any fun item => item.indices.contains index then display
    else storeMessage display index message
  | none => display

/-- `restoreChatHistory` -/
def restoreChatHistory (context : Context) (runs : List Run) : List Entry :=
  let items := historyItems b context runs
  (flushStored b ((List.range (context.messages.length + 1)).foldl
    (showIndex b context.messages items) {})).result

end History

end EvernightAI.Frontend
