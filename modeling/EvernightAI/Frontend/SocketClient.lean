import EvernightAI.Lib.Table
import EvernightAI.Lib.TransitionSystem

/-!
# The socket client of agent runs

`AgentRunSocketClient` of `frontend/src/api/websocket.ts` keeps what its caller is subscribed to
over sockets that open and close. `subscriptions` are the runs with the largest sequence seen,
`pendingMessages` what could not be sent, and `pendingStartRunIds` the runs whose start is among
them. On open the subscriptions are sent again, and then what is pending.

A step is a call, an event of a socket, the reconnect timer or a message that is received. The `log`
lists what was called, received, sent and dropped; no code reads it.
-/

namespace EvernightAI.SocketClient

open TransitionSystem

/-- `readyState`; `opened` is `OPEN`. -/
inductive ReadyState
  | connecting | opened | closing | closed
deriving DecidableEq, Repr

/-- A request to start a run: `metadata.run_id`, if it is a string, and everything else. -/
structure AgentRunRequest where
  runId : Option String := none
  content : String := ""
deriving DecidableEq, Repr

/-- The run that a request names. -/
def AgentRunRequest.run? (request : AgentRunRequest) : Option String :=
  request.runId.filter (· ≠ "")

/-- What is sent. -/
inductive Body
  | start (request : AgentRunRequest)
  | subscribe (runId : String) (afterSequence : Int)
  | unsubscribe (runId : String)
  | control (runId action : String) (reason : Option String)
  | approval (runId decision : String)
  | heartbeatAck
deriving DecidableEq, Repr

structure Message where
  messageId : Option ℕ
  body : Body
deriving DecidableEq, Repr

/-- What is received: a trace event or a client event for a run, or something else. -/
inductive Received
  | heartbeat
  | agentTrace (runId : String) (sequence : Option Int)
  | subscribed (runId : String) (sequence : Option Int)
  | unsubscribed (runId : String)
  | other
deriving DecidableEq, Repr

/-- A call of the client. -/
inductive Call
  | startRun (request : AgentRunRequest)
  | subscribeRun (runId : String) (afterSequence : Option Int)
  | unsubscribeRun (runId : String)
  | controlRun (runId action : String) (reason : Option String)
  | approveTool (runId decision : String)
deriving DecidableEq, Repr

inductive Event
  | call (call : Call) (messageId : ℕ)
  | received (message : Received)
  | sent (connection : ℕ) (message : Message)
  | dropped (messages : List Message)
deriving DecidableEq, Repr

/-- A run id with the largest sequence seen. -/
abbrev Subscriptions := Table (fun entry : String × Int => entry.1)

/-- The client. `connection` counts the sockets that were made. -/
structure Client where
  socket : Option ReadyState := none
  connection : ℕ := 0
  reconnectTimer : Bool := false
  manuallyClosed : Bool := false
  subscriptions : Subscriptions := ∅
  pendingMessages : List Message := []
  pendingStartRunIds : List String := []
  /-- The next id that `messageId` makes up. -/
  nextId : ℕ := 0
  log : List Event := []

namespace Client

variable (s : Client)

/-- `this.socket.readyState === WebSocket.OPEN` -/
def isOpen : Bool := s.socket = some .opened

/-- `connect` -/
def connect : Client :=
  if s.socket = some .connecting ∨ s.socket = some .opened then s
  else { s with
    manuallyClosed := false, socket := some .connecting, connection := s.connection + 1 }

/-- `this.socket.send` -/
def socketSend (message : Message) : Client :=
  { s with log := s.log ++ [.sent s.connection message] }

/-- `send`, and whether the message was sent. -/
def send (message : Message) : Client × Bool :=
  if s.isOpen then (s.socketSend message, true)
  else (connect { s with pendingMessages := s.pendingMessages ++ [message] }, false)

/-- `sendSubscribe` -/
def sendSubscribe (runId : String) (afterSequence : Int) : Client :=
  if s.isOpen then
    socketSend { s with nextId := s.nextId + 1 } ⟨some s.nextId, .subscribe runId afterSequence⟩
  else s.connect

/-- `this.subscriptions.get(runId) || 0` -/
def cursor (runId : String) : Int := ((s.subscriptions.find? runId).map Prod.snd).getD 0

/-- `this.subscriptions.set(runId, sequence)` -/
def setCursor (runId : String) (sequence : Int) : Client :=
  { s with subscriptions := s.subscriptions.upsert (runId, sequence) }

/-- `this.subscriptions.delete(runId)` -/
def deleteCursor (runId : String) : Client :=
  { s with subscriptions := s.subscriptions.deleteWhere fun entry => entry.1 = runId }

/-- A call, which makes up a message id. -/
def called (call : Call) : Client :=
  { s with nextId := s.nextId + 1, log := s.log ++ [.call call s.nextId] }

/-- `startRun` -/
def startRun (request : AgentRunRequest) : Client :=
  let s' := s.called (.startRun request)
  let s' := request.run?.elim s' fun runId => s'.setCursor runId 0
  let result := s'.send ⟨some s.nextId, .start request⟩
  if result.2 then result.1
  else { result.1 with
    pendingStartRunIds := request.run?.elim result.1.pendingStartRunIds fun runId =>
      result.1.pendingStartRunIds ++ [runId] }

/-- `subscribeRun` -/
def subscribeRun (runId : String) (afterSequence : Option Int) : Client :=
  let s' := s.called (.subscribeRun runId afterSequence)
  let cursor := max (s'.cursor runId) (afterSequence.getD (s'.cursor runId))
  (s'.setCursor runId cursor).sendSubscribe runId cursor

/-- `unsubscribeRun` -/
def unsubscribeRun (runId : String) : Client :=
  let s' := (s.called (.unsubscribeRun runId)).deleteCursor runId
  (s'.send ⟨some s.nextId, .unsubscribe runId⟩).1

/-- `controlRun`; an empty reason is left out. -/
def controlRun (runId action : String) (reason : Option String) : Client :=
  ((s.called (.controlRun runId action reason)).send
    ⟨some s.nextId, .control runId action (reason.filter (· ≠ ""))⟩).1

/-- `approveTool` -/
def approveTool (runId decision : String) : Client :=
  ((s.called (.approveTool runId decision)).send ⟨some s.nextId, .approval runId decision⟩).1

/-- `handleMessage` and `handleClientEvent` -/
def handleMessage (message : Received) : Client :=
  let s' := { s with log := s.log ++ [.received message] }
  match message with
  | .heartbeat => (s'.send ⟨none, .heartbeatAck⟩).1
  | .agentTrace runId (some sequence) => s'.setCursor runId (max (s'.cursor runId) sequence)
  | .subscribed runId sequence =>
    s'.setCursor runId (max (s'.cursor runId) (sequence.getD 0))
  | .unsubscribed runId => s'.deleteCursor runId
  | .agentTrace _ none | .other => s'

/-- `resubscribe` -/
def resubscribe (s : Client) (excludedRunIds : List String) : List (String × Int) → Client
  | [] => s
  | entry :: entries =>
    if entry.1 ∈ excludedRunIds then resubscribe s excludedRunIds entries
    else resubscribe (s.sendSubscribe entry.1 entry.2) excludedRunIds entries

/-- `flushPendingMessages` of a socket that is open. -/
def flushPendingMessages : Client :=
  { s with
    pendingMessages := [], log := s.log ++ s.pendingMessages.map (.sent s.connection) }

/-- The handler of `open`. -/
def handleOpen : Client :=
  let s' := { s with socket := some .opened }
  let s' := (s'.resubscribe s'.pendingStartRunIds s'.subscriptions.rows).flushPendingMessages
  { s' with pendingStartRunIds := [] }

/-- `scheduleReconnect` -/
def scheduleReconnect : Client := { s with reconnectTimer := true }

/-- The handler of `close`; a policy violation (1008) ends the reconnecting. -/
def handleClose (policyViolation : Bool) : Client :=
  let manuallyClosed := s.manuallyClosed || policyViolation
  if manuallyClosed then { s with manuallyClosed } else scheduleReconnect { s with manuallyClosed }

/-- `close` -/
def close : Client :=
  { s with
    manuallyClosed := true, reconnectTimer := false, socket := none, pendingMessages := [],
    pendingStartRunIds := [], log := s.log ++ [.dropped s.pendingMessages] }

end Client

inductive Label
  | connect
  | close
  | startRun (request : AgentRunRequest)
  | subscribeRun (runId : String) (afterSequence : Option Int)
  | unsubscribeRun (runId : String)
  | controlRun (runId action : String) (reason : Option String)
  | approveTool (runId decision : String)
  /-- the socket opens -/
  | opened
  /-- the socket starts to close or is closed, from either side -/
  | lost (state : ReadyState)
  /-- the event of a socket that is closed -/
  | closed (policyViolation : Bool)
  | timer
  | received (message : Received)
deriving DecidableEq, Repr

/-- One step. -/
def step (s : Client) : Label → Option Client
  | .connect => some s.connect
  | .close => some s.close
  | .startRun request => some (s.startRun request)
  | .subscribeRun runId afterSequence => some (s.subscribeRun runId afterSequence)
  | .unsubscribeRun runId => some (s.unsubscribeRun runId)
  | .controlRun runId action reason => some (s.controlRun runId action reason)
  | .approveTool runId decision => some (s.approveTool runId decision)
  | .opened => if s.socket = some .connecting then some s.handleOpen else none
  | .lost state =>
    if s.socket ≠ none ∧ (state = .closing ∨ state = .closed) then
      some { s with socket := some state }
    else none
  | .closed policyViolation => some (s.handleClose policyViolation)
  | .timer =>
    if s.reconnectTimer then some (Client.connect { s with reconnectTimer := false }) else none
  | .received message => some (s.handleMessage message)

/-! ### What is wanted and what is sent -/

/-- What a message says about a run: start or subscribe, or unsubscribe. -/
def Message.subscribes (runId : String) (message : Message) : Option Bool :=
  match message.body with
  | .start request => if request.run? = some runId then some true else none
  | .subscribe run _ => if run = runId then some true else none
  | .unsubscribe run => if run = runId then some false else none
  | _ => none

/-- What a call says about a run. -/
def Event.wants (runId : String) : Event → Option Bool
  | .call (.startRun request) _ => if request.run? = some runId then some true else none
  | .call (.subscribeRun run _) _ => if run = runId then some true else none
  | .call (.unsubscribeRun run) _ => if run = runId then some false else none
  | _ => none

/-- A message that is sent on a connection. -/
def Event.on? (connection : ℕ) : Event → Option Message
  | .sent c message => if c = connection then some message else none
  | _ => none

/-- The last value. -/
def last {α β : Type} (f : α → Option β) (l : List α) : Option β := (l.filterMap f).getLast?

/-- **The caller wants a run**: its last call for it was a start or a subscription. -/
def Wanted (log : List Event) (runId : String) : Prop :=
  last (Event.wants runId) log = some true

/-- **A run is subscribed on a connection**: the last message for it there was a start or a
subscription. -/
def SubscribedOn (connection : ℕ) (log : List Event) (runId : String) : Prop :=
  last (Message.subscribes runId) (log.filterMap (Event.on? connection)) = some true

/-- The largest sequence for a run after an event. -/
def Event.raise (runId : String) (largest : Int) : Event → Int
  | .call (.subscribeRun run (some sequence)) _ =>
    if run = runId then max largest sequence else largest
  | .call (.unsubscribeRun run) _ => if run = runId then 0 else largest
  | .received (.agentTrace run (some sequence)) =>
    if run = runId then max largest sequence else largest
  | .received (.subscribed run (some sequence)) =>
    if run = runId then max largest sequence else largest
  | _ => largest

/-- **The largest sequence received for or given to a run** since its last `unsubscribeRun`. -/
def largest (log : List Event) (runId : String) : Int := log.foldl (Event.raise runId) 0

/-- **Every subscription carries the largest sequence.** -/
def Carried (log : List Event) : Prop :=
  ∀ before connection messageId runId sequence after,
    log = before ++ .sent connection ⟨messageId, .subscribe runId sequence⟩ :: after →
      sequence = largest before runId

/-- Starts, controls and approvals. -/
def Message.isCommand (message : Message) : Bool :=
  match message.body with
  | .start _ | .control .. | .approval .. => true
  | _ => false

/-- The command of a call. -/
def Event.command? : Event → Option Message
  | .call (.startRun request) id => some ⟨some id, .start request⟩
  | .call (.controlRun runId action reason) id =>
    some ⟨some id, .control runId action (reason.filter (· ≠ ""))⟩
  | .call (.approveTool runId decision) id => some ⟨some id, .approval runId decision⟩
  | _ => none

/-- A message that is sent on any connection. -/
def Event.sent? : Event → Option Message
  | .sent _ message => some message
  | _ => none

def Event.droppedMessages : Event → List Message
  | .dropped messages => messages
  | _ => []

/-- The commands in the order of their calls. -/
def commands (log : List Event) : List Message := log.filterMap Event.command?

/-- The commands that were sent, in order. -/
def sentCommands (log : List Event) : List Message :=
  (log.filterMap Event.sent?).filter Message.isCommand

/-- **Commands are delivered**: each is sent at most once and in call order, and one that is not
sent is pending or was dropped by `close`. -/
def Delivered (s : Client) : Prop :=
  (commands s.log).Nodup ∧ (sentCommands s.log).Sublist (commands s.log) ∧
    ∀ message ∈ commands s.log, message ∈ sentCommands s.log ∨ message ∈ s.pendingMessages ∨
      message ∈ s.log.flatMap Event.droppedMessages

/-- **The subscriptions of the caller are kept.** -/
structure Kept (s : Client) : Prop where
  subscribed : s.isOpen →
    ∀ runId, SubscribedOn s.connection s.log runId ↔ Wanted s.log runId
  carried : Carried s.log
  delivered : Delivered s

/-- **The steps that keep them.** A run is started anew while no sequence is known for it; offline,
one subscribes to a run only if its unsubscription is not what is pending for it; traces and
subscriptions are received for runs that are subscribed, and ends of subscriptions for others. -/
def Keeps (s : Client) : Label → Prop
  | .startRun request => ∀ runId, request.run? = some runId → s.cursor runId = 0
  | .subscribeRun runId _ =>
    s.isOpen = false → last (Message.subscribes runId) s.pendingMessages ≠ some false
  | .received (.agentTrace runId (some _)) => (s.subscriptions.find? runId).isSome
  | .received (.subscribed runId _) => (s.subscriptions.find? runId).isSome
  | .received (.unsubscribed runId) => s.subscriptions.find? runId = none
  | _ => True

end EvernightAI.SocketClient
