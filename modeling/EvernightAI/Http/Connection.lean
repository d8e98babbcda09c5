import EvernightAI.Http.AuthDevice
import EvernightAI.Lib.TransitionSystem

/-!
# WebSocket connections and their credentials

A connection authenticates when it is opened and keeps the check that its credential has then. The
check is asked before a frame is handled and before a message is put into the send queue; a put
waits while the queue is full, and is not asked again.

* `valid_of_run` : in a run whose steps meet `Keeps`, whatever is handled or put into the queue
  happens while the credential would be accepted.
* `expired_jwt_is_handled` : a connection that was opened with a JWT has no check.
-/

namespace EvernightAI.Http

open TransitionSystem

/-! ### The model -/

/-- `ManagedWebSocketConnection`, authenticated: what it was opened with, its check, the messages in
its send queue and the puts that wait for room. -/
structure Connection where
  presented : Presented
  guard : Option Guard
  queued : ℕ := 0
  waiting : ℕ := 0
  closed : Bool := false
  deriving DecidableEq, Repr

inductive Action
  /-- a received frame is handled -/
  | handled
  /-- a message is put into the send queue -/
  | accepted
  deriving DecidableEq, Repr

/-- What happened on a connection, and whether a new request with its credential would have been
accepted then. -/
structure Entry where
  connection : ℕ
  action : Action
  valid : Bool
  deriving DecidableEq, Repr

structure World where
  auth : AuthState := {}
  connections : List Connection := []
  log : List Entry := []
  deriving DecidableEq, Repr

inductive Label
  | login (username password accessToken : String)
  | logout (request : RequestHeaders)
  | issue (apiKey : String) (info : ApiKeyInfo)
  | revoke (ownerId keyId : String)
  | tick (now : ℕ)
  /-- a request of another kind -/
  | request (presented : Presented)
  /-- `websocket_endpoint`; a refused handshake is answered and closed -/
  | connect (handshake : Handshake)
  /-- a frame, which may have an invalid form -/
  | receive (connection : ℕ) (wellFormed : Bool)
  /-- a message of a handler, a broadcast or a heartbeat -/
  | send (connection : ℕ)
  /-- a put that waited finds room -/
  | enter (connection : ℕ)
  /-- the sender takes a message -/
  | drain (connection : ℕ)
  /-- the connection ends for another reason -/
  | disconnect (connection : ℕ)

/-- `WEBSOCKET_SEND_QUEUE_SIZE` -/
def websocketSendQueueSize : ℕ := 100

variable (env : AuthEnvironment) (config : AuthConfig)

namespace World

variable (w : World) (i : ℕ) (connection : Connection)

def put (connection : Connection) : World :=
  { w with connections := w.connections.set i connection }

/-- Something happens on a connection. -/
def note (action : Action) : World :=
  { w with
    log := w.log ++ [⟨i, action, accepts env config w.auth connection.presented⟩] }

/-- `ensure_credential`, before it closes the connection -/
def ensureCredential : Bool := connection.guard.all (·.active env w.auth)

/-- The message is in the queue. -/
def enqueue : World :=
  (w.note env config i connection .accepted).put i
    { connection with queued := connection.queued + 1 }

/-- `send` -/
def send : World :=
  if connection.closed then w
  else if !w.ensureCredential env connection then w.put i { connection with closed := true }
  else if connection.queued < websocketSendQueueSize then w.enqueue env config i connection
  else w.put i { connection with waiting := connection.waiting + 1 }

/-- The loop body of `_websocket_loop`: what is invalid is answered with an error. -/
def receive (wellFormed : Bool) : World :=
  if !wellFormed then w.send env config i connection
  else if !w.ensureCredential env connection then w.put i { connection with closed := true }
  else w.note env config i connection .handled

/-- The put that waited longest goes on. -/
def enter : World :=
  { connection with waiting := connection.waiting - 1 } |> w.enqueue env config i

/-- `websocket_endpoint`: the check is chosen before the credential is accepted. -/
def connect (handshake : Handshake) : World :=
  let presented := Presented.of handshake
  let guard := websocketCredentialGuard env config w.auth handshake
  let (result, auth) := principal env config w.auth presented
  if result.isOk then { w with auth, connections := w.connections ++ [{ presented, guard }] }
  else { w with auth }

end World

/-- One step. -/
def step (w : World) : Label → Option World
  | .login username password accessToken =>
    some { w with auth := (w.auth.login config username password accessToken).2 }
  | .logout request => some { w with auth := (w.auth.logout request).2 }
  | .issue apiKey info => some { w with auth := w.auth.issue env apiKey info }
  | .revoke ownerId keyId => some { w with auth := w.auth.revoke ownerId keyId }
  | .tick now =>
    if w.auth.now ≤ now then some { w with auth := { w.auth with now } } else none
  | .request presented => some { w with auth := (principal env config w.auth presented).2 }
  | .connect handshake => some (w.connect env config handshake)
  | .receive i wellFormed => w.connections[i]?.bind fun connection =>
    if connection.closed then none else some (w.receive env config i connection wellFormed)
  | .send i => w.connections[i]?.map fun connection => w.send env config i connection
  | .enter i => w.connections[i]?.bind fun connection =>
    if 0 < connection.waiting ∧ connection.queued < websocketSendQueueSize then
      some (w.enter env config i connection)
    else none
  | .drain i => w.connections[i]?.bind fun connection =>
    if 0 < connection.queued then
      some (w.put i { connection with queued := connection.queued - 1 })
    else none
  | .disconnect i =>
    w.connections[i]?.map fun connection => w.put i { connection with closed := true }

/-! ### Runs -/

/-- A message that passes the check finds room in the queue. -/
def HasRoom (w : World) (i : ℕ) : Prop :=
  ∀ connection, w.connections[i]? = some connection → connection.closed = false →
    w.ensureCredential env connection = true → connection.queued < websocketSendQueueSize

/-- **The condition.** A connection is not opened with what only the device for JWTs accepts, and no
message is sent while the queue of its connection is full. -/
def Keeps (w : World) : Label → Prop
  | .connect handshake => accepts env config w.auth (Presented.of handshake) = true →
      ∃ device ∈ config.devices, device.isJwt = false ∧
        device.accepts env w.auth (Presented.of handshake) = true
  | .send i | .receive i false => HasRoom env w i
  | _ => True

variable {env config}

/-- What holds of every connection: nothing waits, and its credential is accepted while its check
passes. -/
structure Checked (env : AuthEnvironment) (config : AuthConfig) (connection : Connection) :
    Prop where
  waiting : connection.waiting = 0
  accepts : ∀ auth : AuthState, connection.guard.all (·.active env auth) = true →
    accepts env config auth connection.presented = true

/-- **The invariant.** -/
structure Valid (env : AuthEnvironment) (config : AuthConfig) (w : World) : Prop where
  log : ∀ entry ∈ w.log, entry.valid = true
  connections : ∀ connection ∈ w.connections, Checked env config connection

variable {w w' : World} {i : ℕ} {connection connection' : Connection}

theorem Valid.auth (h : Valid env config w) (auth : AuthState) :
    Valid env config { w with auth } := ⟨h.log, h.connections⟩

theorem Valid.put (h : Valid env config w) (hchecked : Checked env config connection) :
    Valid env config (w.put i connection) := by
  refine ⟨h.log, fun other hother => ?_⟩
  rcases List.mem_or_eq_of_mem_set hother with hmem | rfl
  · exact h.connections other hmem
  · exact hchecked

theorem Valid.note {action : Action} (h : Valid env config w)
    (haccepts : accepts env config w.auth connection.presented = true) :
    Valid env config (w.note env config i connection action) := by
  refine ⟨fun entry hentry => ?_, h.connections⟩
  rcases List.mem_append.mp hentry with hentry | hentry
  · exact h.log entry hentry
  · rw [List.mem_singleton.mp hentry]
    exact haccepts

/-- A message that is sent finds room, or the connection is closed. -/
theorem Valid.send (h : Valid env config w) (hchecked : Checked env config connection)
    (hroom : connection.closed = false → w.ensureCredential env connection = true →
      connection.queued < websocketSendQueueSize) :
    Valid env config (w.send env config i connection) := by
  rw [World.send]
  by_cases hclosed : connection.closed = true
  · rw [if_pos hclosed]
    exact h
  rw [if_neg hclosed]
  by_cases hensure : w.ensureCredential env connection = true
  · rw [hensure, if_neg (by decide), if_pos (hroom (eq_false_of_ne_true hclosed) hensure)]
    exact (h.note (hchecked.accepts w.auth hensure)).put ⟨hchecked.waiting, hchecked.accepts⟩
  · rw [if_pos (by rw [eq_false_of_ne_true hensure]; rfl)]
    exact h.put ⟨hchecked.waiting, hchecked.accepts⟩

theorem Valid.receive {wellFormed : Bool} (h : Valid env config w)
    (hchecked : Checked env config connection)
    (hroom : wellFormed = false → connection.closed = false →
      w.ensureCredential env connection = true → connection.queued < websocketSendQueueSize) :
    Valid env config (w.receive env config i connection wellFormed) := by
  rw [World.receive]
  cases wellFormed with
  | false => exact h.send hchecked (hroom rfl)
  | true =>
    rw [if_neg (by decide)]
    by_cases hensure : w.ensureCredential env connection = true
    · rw [hensure, if_neg (by decide)]
      exact h.note (hchecked.accepts w.auth hensure)
    · rw [if_pos (by rw [eq_false_of_ne_true hensure]; rfl)]
      exact h.put ⟨hchecked.waiting, hchecked.accepts⟩

/-- A connection that is opened has a check that passes only while its credential is accepted, or a
credential that is accepted for good. -/
theorem Valid.connect {handshake : Handshake} (h : Valid env config w)
    (hkeeps : Keeps env config w (.connect handshake)) :
    Valid env config (w.connect env config handshake) := by
  rw [World.connect]
  dsimp only
  split
  · next haccepts =>
    refine ⟨h.log, fun connection hconnection => ?_⟩
    rcases List.mem_append.mp hconnection with hmem | hnew
    · exact h.connections connection hmem
    · rw [List.mem_singleton.mp hnew]
      refine ⟨rfl, fun auth hactive => ?_⟩
      dsimp only at hactive ⊢
      cases hguard : websocketCredentialGuard env config w.auth handshake with
      | none => exact accepts_of_unguarded hguard (hkeeps haccepts) auth
      | some guard =>
        rw [hguard, Option.all_some] at hactive
        exact accepts_of_active hguard hactive
  · exact h.auth _

/-- **One step.** -/
theorem Valid.step {label : Label} (h : Valid env config w) (hkeeps : Keeps env config w label)
    (hstep : step env config w label = some w') : Valid env config w' := by
  have hchecked : ∀ {i connection}, w.connections[i]? = some connection →
      Checked env config connection :=
    fun hconnection => h.connections _ (List.mem_of_getElem? hconnection)
  cases label with
  | login username password accessToken =>
    rw [← Option.some.inj hstep]
    exact h.auth _
  | logout request =>
    rw [← Option.some.inj hstep]
    exact h.auth _
  | issue apiKey info =>
    rw [← Option.some.inj hstep]
    exact h.auth _
  | revoke ownerId keyId =>
    rw [← Option.some.inj hstep]
    exact h.auth _
  | tick now =>
    rw [Http.step] at hstep
    split at hstep
    · rw [← Option.some.inj hstep]
      exact h.auth _
    · injection hstep
  | request presented =>
    rw [← Option.some.inj hstep]
    exact h.auth _
  | connect handshake =>
    rw [← Option.some.inj hstep]
    exact h.connect hkeeps
  | receive i wellFormed =>
    obtain ⟨connection, hconnection, hstep⟩ := Option.bind_eq_some_iff.mp hstep
    split at hstep
    · injection hstep
    · rw [← Option.some.inj hstep]
      refine h.receive (hchecked hconnection) fun hfalse => ?_
      subst hfalse
      exact hkeeps connection hconnection
  | send i =>
    obtain ⟨connection, hconnection, hstep⟩ := Option.map_eq_some_iff.mp hstep
    rw [← hstep]
    exact h.send (hchecked hconnection) (hkeeps connection hconnection)
  | enter i =>
    obtain ⟨connection, hconnection, hstep⟩ := Option.bind_eq_some_iff.mp hstep
    have hwaiting := (hchecked hconnection).waiting
    rw [if_neg fun he => by omega] at hstep
    injection hstep
  | drain i =>
    obtain ⟨connection, hconnection, hstep⟩ := Option.bind_eq_some_iff.mp hstep
    split at hstep
    · rw [← Option.some.inj hstep]
      exact h.put ⟨(hchecked hconnection).waiting, (hchecked hconnection).accepts⟩
    · injection hstep
  | disconnect i =>
    obtain ⟨connection, hconnection, hstep⟩ := Option.map_eq_some_iff.mp hstep
    rw [← hstep]
    exact h.put ⟨(hchecked hconnection).waiting, (hchecked hconnection).accepts⟩

/-- **A connection ends with its credential.** -/
theorem valid_of_run (env : AuthEnvironment) (config : AuthConfig) (auth : AuthState)
    (labels : List Label) (w : World) (hrun : run (step env config) { auth } labels = some w)
    (hgood : Along (step env config) (Keeps env config) { auth } labels) :
    ∀ entry ∈ w.log, entry.valid = true := by
  have hstart : Valid env config { auth } :=
    ⟨fun _ hentry => absurd hentry List.not_mem_nil, fun _ hmem => absurd hmem List.not_mem_nil⟩
  exact (run_invariant_of_along (fun _ _ _ hvalid hkeeps hstep => hvalid.step hkeeps hstep) hstart
    hrun hgood).log

section Example

/-- JWTs with the subject `u`, good until 10. -/
private def tokenLibrary : AuthEnvironment where
  digest text := text
  words text := [text]
  verifiedClaims _ now _ := if now < 10 then some [("sub", .str "u")] else none

private def managedOnly : AuthConfig := { devices := [.managedApiKey [⟨"u", []⟩]] }

private def byToken (token : String) : Handshake := { subprotocolToken := some token }

private def revokedInTime : List Label :=
  [.issue "ena_k" ⟨"1", "u", none, none⟩, .connect (byToken "ena_k"), .receive 0 true, .send 0,
    .revoke "u" "1", .receive 0 true]

theorem valid_of_run_revoked : ∃ w,
    run (step tokenLibrary managedOnly) { auth := {} } revokedInTime = some w ∧
      w.log.length = 2 ∧ ∀ entry ∈ w.log, entry.valid = true := by
  refine ⟨_, rfl, by decide +kernel,
    valid_of_run tokenLibrary managedOnly {} revokedInTime _ rfl ?_⟩
  refine ⟨trivial, fun _ => ⟨_, List.mem_singleton_self _, rfl, by decide +kernel⟩, trivial, ?_,
    trivial, trivial, trivial⟩
  rintro connection hconnection - -
  obtain rfl := Option.some.inj hconnection
  decide +kernel

/-- A connection that a JWT opened handles frames after the JWT has expired. -/
theorem expired_jwt_is_handled :
    (run (step tokenLibrary { devices := [.oauthJwt {}] }) {}
      [.connect (byToken "t"), .receive 0 true, .tick 10, .receive 0 true]).map (·.log) =
        some [⟨0, .handled, true⟩, ⟨0, .handled, false⟩] := by
  decide +kernel

end Example

end EvernightAI.Http
