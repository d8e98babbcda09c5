import EvernightAI.Lib.PyJson
import EvernightAI.Schema.Auth

/-!
# Authentication devices

The devices that turn a credential into a principal: static API keys and bearer tokens, managed API
keys, login sessions, and JWTs. `principal` asks them in their order; `sessionGuard` asks those that
can tell later whether a credential is still good, and gives a check for a connection that stays
open.

* `accepts_of_active` : while a check passes, the credential is accepted.
* `accepts_of_unguarded` : a credential that no device checks is accepted for good, or by the device
  for JWTs only.
-/

namespace EvernightAI.Http

/-! ### Credentials -/

/-- The headers of a request that carry a credential. -/
structure RequestHeaders where
  authorization : Option String := none
  apiKey : Option String := none
  deriving DecidableEq, Repr

/-- What a WebSocket is opened with: its decoded subprotocol token, its query and its headers. -/
structure Handshake where
  subprotocolToken : Option String := none
  queryAccessToken : Option String := none
  queryApiKey : Option String := none
  headers : RequestHeaders := {}
  deriving DecidableEq, Repr

/-- `partition(" ")`, without the blank. -/
def partitionBlank (text : String) : String × String :=
  (String.ofList (text.toList.takeWhile (· ≠ ' ')),
    String.ofList (text.toList.dropWhile (· ≠ ' ')).tail)

/-- `_bearer_token_from_request` -/
def bearerTokenFromRequest (request : RequestHeaders) : Option String :=
  request.authorization.bind fun authorization =>
    if (partitionBlank authorization).1.toLower = "bearer" ∧ (partitionBlank authorization).2 ≠ ""
    then some (partitionBlank authorization).2
    else none

/-- `_api_key_from_request` -/
def apiKeyFromRequest (request : RequestHeaders) : Option String :=
  (bearerTokenFromRequest request).or (request.apiKey.filter (· ≠ ""))

/-- `websocket_query_token` -/
def websocketQueryToken (handshake : Handshake) : Option String :=
  (handshake.queryAccessToken.filter (· ≠ "")).or (handshake.queryApiKey.filter (· ≠ ""))

/-- `websocket_subprotocol_token(websocket) or websocket_query_token(websocket)` -/
def websocketToken (handshake : Handshake) : Option String :=
  (handshake.subprotocolToken.filter (· ≠ "")).or (websocketQueryToken handshake)

/-! ### What the devices know -/

structure HttpLoginSession where
  accessToken : String
  expiresAt : ℕ
  principal : Principal
  deriving DecidableEq, Repr

structure ApiKeyInfo where
  keyId : String
  ownerId : String
  expiresAt : Option ℕ := none
  revokedAt : Option ℕ := none
  deriving DecidableEq, Repr

/-- What changes: the clock, the login sessions, and the managed keys under their digests. -/
structure AuthState where
  now : ℕ := 0
  sessions : List HttpLoginSession := []
  keys : List (String × ApiKeyInfo) := []
  deriving DecidableEq, Repr

structure HttpPasswordCredential where
  username : String
  password : String
  principal : Principal
  deriving DecidableEq, Repr

/-- `HttpOAuthJwtConfig`, as far as it turns claims into a principal. -/
structure HttpOAuthJwtConfig where
  principalIdClaim : String := "sub"
  rolesClaim : String := "roles"
  scopeClaim : String := "scope"
  permissionsClaim : String := "permissions"
  defaultPermissions : List String := []
  rolePermissionMap : List (String × List String) := []
  scopePermissionMap : List (String × List String) := []
  deriving DecidableEq, Repr

inductive HttpAuthDevice
  | apiKey (credentials : List (String × Principal))
  | managedApiKey (principals : List Principal)
  | oauthBearer (credentials : List (String × Principal))
  | passwordLogin
  | oauthJwt (config : HttpOAuthJwtConfig)
  deriving DecidableEq, Repr

/-- What the devices are given: SHA-256, `str.split`, and what the library for JWTs makes of a token
at a moment, the claims of one that it verifies. -/
structure AuthEnvironment where
  digest : String → String
  words : String → List String
  verifiedClaims : HttpOAuthJwtConfig → ℕ → String → Option PyDict

/-- The devices in their order, and who may log in. One device alone is asked as a list of one. -/
structure AuthConfig where
  devices : List HttpAuthDevice
  users : List HttpPasswordCredential := []
  sessionTtl : ℕ := 43200

/-! ### Principals -/

/-- `_claim_value` -/
def claimValue (claims : PyDict) (claimPath : String) : Option PyJson :=
  (claimPath.toList.splitOn '.').foldl
    (fun value part => value.bind fun json => json.dict?.bind (·.lookup (String.ofList part)))
    (some (.dict claims))

/-- `_string_claim` -/
def stringClaim (claims : PyDict) (claimPath : String) : Option String :=
  ((claimValue claims claimPath).bind PyJson.str?).filter (· ≠ "")

variable (env : AuthEnvironment) (config : AuthConfig)

/-- `_string_claim_values` -/
def stringClaimValues (claims : PyDict) (claimPath : String) : List String :=
  match claimValue claims claimPath with
  | some (.str text) => env.words text
  | some (.list items) => (items.filterMap PyJson.str?).filter (· ≠ "")
  | _ => []

/-- `_permissions_for_claims` -/
def permissionsForClaims (jwt : HttpOAuthJwtConfig) (claims : PyDict) : List String :=
  let roles := stringClaimValues env claims jwt.rolesClaim
  let scopes := stringClaimValues env claims jwt.scopeClaim
  (jwt.defaultPermissions ++ stringClaimValues env claims jwt.permissionsClaim ++
    roles.flatMap (fun role => (jwt.rolePermissionMap.lookup role).getD []) ++
    scopes.flatMap (fun scope => (jwt.scopePermissionMap.lookup scope).getD [])).eraseDups

/-- `owner_for_key` -/
def ownerForKey (s : AuthState) (apiKey : String) : Except String String :=
  if !"ena_".toList.isPrefixOf apiKey.toList then .error "Invalid API key"
  else match s.keys.lookup (env.digest apiKey) with
    | none => .error "Invalid API key"
    | some info =>
      if info.revokedAt.isSome ∨ info.expiresAt.any (· ≤ s.now) then .error "Invalid API key"
      else .ok info.ownerId

def AuthState.session? (s : AuthState) (accessToken : String) : Option HttpLoginSession :=
  s.sessions.find? (·.accessToken = accessToken)

def AuthState.dropSession (s : AuthState) (accessToken : String) : AuthState :=
  { s with sessions := s.sessions.filter (·.accessToken ≠ accessToken) }

/-- A static credential: `missing` says that there is none, `invalid` that it is not known. -/
def staticPrincipal (credentials : List (String × Principal)) (invalid : String) :
    Option String → Except String Principal
  | none => .error "Authentication required"
  | some credential =>
    match credentials.lookup credential with
    | some principal => if credential = "" then .error invalid else .ok principal
    | none => .error invalid

/-- `principal` of a device. An expired login session is forgotten. -/
def HttpAuthDevice.principal (s : AuthState) (credential : Option String) :
    HttpAuthDevice → Except String Principal × AuthState
  | .apiKey credentials => (staticPrincipal credentials "Invalid API key" credential, s)
  | .oauthBearer credentials => (staticPrincipal credentials "Invalid access token" credential, s)
  | .managedApiKey principals =>
    match credential.filter (· ≠ "") with
    | none => (.error "Authentication required", s)
    | some key =>
      ((ownerForKey env s key).bind fun ownerId =>
        match principals.find? (·.principalId = ownerId) with
        | some principal => .ok principal
        | none => .error "Invalid API key", s)
  | .passwordLogin =>
    match credential with
    | none => (.error "Authentication required", s)
    | some token =>
      match if token = "" then none else s.session? token with
      | none => (.error "Invalid access token", s)
      | some session =>
        if session.expiresAt ≤ s.now then (.error "Login session expired", s.dropSession token)
        else (.ok session.principal, s)
  | .oauthJwt jwt =>
    match credential with
    | none => (.error "Authentication required", s)
    | some token =>
      match if token = "" then none else env.verifiedClaims jwt s.now token with
      | none => (.error "Invalid access token", s)
      | some claims =>
        match stringClaim claims jwt.principalIdClaim with
        | none => (.error "Access token is missing principal claim", s)
        | some principalId => (.ok ⟨principalId, permissionsForClaims env jwt claims⟩, s)

/-- The credential that a device finds in a request. -/
def HttpAuthDevice.credentialOf (request : RequestHeaders) : HttpAuthDevice → Option String
  | .apiKey _ | .managedApiKey _ => apiKeyFromRequest request
  | .oauthBearer _ | .passwordLogin | .oauthJwt _ => bearerTokenFromRequest request

def HttpAuthDevice.principalForRequest (s : AuthState) (request : RequestHeaders)
    (device : HttpAuthDevice) : Except String Principal × AuthState :=
  device.principal env s (device.credentialOf request)

/-- What is presented: a token, or the headers of a request. -/
inductive Presented
  | token (token : String)
  | request (headers : RequestHeaders)
  deriving DecidableEq, Repr

def Presented.of (handshake : Handshake) : Presented :=
  match websocketToken handshake with
  | some value => .token value
  | none => .request handshake.headers

/-- The credential that a device is asked about. -/
def Presented.credentialFor (device : HttpAuthDevice) : Presented → Option String
  | .token value => some value
  | .request headers => device.credentialOf headers

/-- The loop of `CompositeHttpAuthDevice`: the first principal, or the last error. -/
def firstPrincipal (presented : Presented) (lastError : String) :
    List HttpAuthDevice → AuthState → Except String Principal × AuthState
  | [], s => (.error lastError, s)
  | device :: devices, s =>
    match device.principal env s (presented.credentialFor device) with
    | (.ok principal, s) => (.ok principal, s)
    | (.error e, s) => firstPrincipal presented e devices s

/-- `principal` and `principal_for_request` -/
def principal (s : AuthState) (presented : Presented) : Except String Principal × AuthState :=
  firstPrincipal env presented "Authentication required" config.devices s

/-- A new request with this credential would be accepted. -/
def accepts (s : AuthState) (presented : Presented) : Bool :=
  (principal env config s presented).1.isOk

/-! ### Checks of open connections -/

/-- A check that a device gives for a connection. -/
inductive Guard
  | managedApiKey (principals : List Principal) (credential : Option String)
  | login (accessToken : String)
  deriving DecidableEq, Repr

/-- `_session_is_active` -/
def AuthState.sessionIsActive (s : AuthState) (accessToken : String) : Bool :=
  (s.session? accessToken).any (s.now < ·.expiresAt)

def Guard.active (s : AuthState) : Guard → Bool
  | .managedApiKey principals credential =>
    ((HttpAuthDevice.managedApiKey principals).principal env s credential).1.isOk
  | .login accessToken => s.sessionIsActive accessToken

/-- `session_guard` of a device that has it. -/
def HttpAuthDevice.sessionGuard (s : AuthState) (credential : Option String) :
    HttpAuthDevice → Option Guard
  | .managedApiKey principals =>
    some (.managedApiKey principals credential) |>.filter (·.active env s)
  | .passwordLogin => credential.bind fun token => some (.login token) |>.filter (·.active env s)
  | .apiKey _ | .oauthBearer _ | .oauthJwt _ => none

/-- `session_guard` and `session_guard_for_request` -/
def sessionGuard (s : AuthState) (presented : Presented) : Option Guard :=
  config.devices.findSome? fun device =>
    device.sessionGuard env s (presented.credentialFor device)

/-- `login_device` of the application: a device of the list, if users may log in. -/
def loginDevice : Option HttpAuthDevice := config.devices.find? (· = .passwordLogin)

/-- `_websocket_credential_guard` -/
def websocketCredentialGuard (s : AuthState) (handshake : Handshake) : Option Guard :=
  let presented := Presented.of handshake
  (sessionGuard env config s presented).or
    ((loginDevice config).bind fun device =>
      device.sessionGuard env s (presented.credentialFor device))

/-! ### What happens to credentials -/

namespace AuthState

/-- `_drop_expired_sessions` -/
def dropExpiredSessions (s : AuthState) : AuthState :=
  { s with sessions := s.sessions.filter (s.now < ·.expiresAt) }

/-- `login`, with the token that it makes up. -/
def login (s : AuthState) (username password accessToken : String) :
    Except String HttpLoginSession × AuthState :=
  match config.users.reverse.find? fun user =>
    user.username = username ∧ username ≠ "" ∧ user.password ≠ "" with
  | some user =>
    if user.password = password then
      let session : HttpLoginSession :=
        { accessToken, expiresAt := s.now + config.sessionTtl, principal := user.principal }
      let kept := (s.dropExpiredSessions).dropSession accessToken
      (.ok session, { kept with sessions := kept.sessions ++ [session] })
    else (.error "Invalid username or password", s)
  | none => (.error "Invalid username or password", s)

/-- `logout_for_request` -/
def logout (s : AuthState) (request : RequestHeaders) : Except String Bool × AuthState :=
  match bearerTokenFromRequest request with
  | none => (.error "Authentication required", s)
  | some accessToken => (.ok (s.session? accessToken).isSome, s.dropSession accessToken)

/-- A key is issued, under its digest. -/
def issue (s : AuthState) (apiKey : String) (info : ApiKeyInfo) : AuthState :=
  { s with keys := s.keys ++ [(env.digest apiKey, info)] }

/-- `revoke` of the register, with the clock of the manager. -/
def revoke (s : AuthState) (ownerId keyId : String) : AuthState :=
  { s with
    keys := s.keys.map fun (digest, info) =>
      if info.ownerId = ownerId ∧ info.keyId = keyId ∧ info.revokedAt = none then
        (digest, { info with revokedAt := some s.now })
      else (digest, info) }

end AuthState

/-! ### Forgotten sessions -/

variable {env config} {s : AuthState} {presented : Presented} {credential : Option String}
  {device : HttpAuthDevice} {devices : List HttpAuthDevice}

theorem session?_dropSession (s : AuthState) (accessToken other : String) :
    (s.dropSession accessToken).session? other =
      if other = accessToken then none else s.session? other := by
  rw [AuthState.session?, AuthState.session?, AuthState.dropSession, List.find?_filter]
  by_cases heq : other = accessToken
  · rw [if_pos heq, List.find?_eq_none]
    intro session _ hsession
    simp only [decide_eq_true_eq] at hsession
    exact hsession.1 (hsession.2.trans heq)
  · rw [if_neg heq]
    congr 1
    funext session
    by_cases hsession : session.accessToken = other
    · simp [hsession, heq]
    · simp [hsession]

/-- There is no session of this token, or an expired one. -/
def AuthState.Expired (s : AuthState) (accessToken : String) : Prop :=
  ∀ session, s.session? accessToken = some session → session.expiresAt ≤ s.now

/-- A login session is what the device for them asks for. -/
theorem passwordLogin_isOk_iff : (HttpAuthDevice.passwordLogin.principal env s credential).1.isOk =
    credential.any fun token => token ≠ "" && s.sessionIsActive token := by
  cases credential with
  | none => rfl
  | some token =>
    rw [HttpAuthDevice.principal, Option.any_some, AuthState.sessionIsActive]
    by_cases hempty : token = ""
    · rw [if_pos hempty]
      simp [hempty, Except.isOk, Except.toBool]
    · rw [if_neg hempty]
      cases hsession : s.session? token with
      | none => simp [Except.isOk, Except.toBool]
      | some session =>
        by_cases hexpired : session.expiresAt ≤ s.now
        · simp [hexpired, Except.isOk, Except.toBool, Nat.not_lt.mpr hexpired]
        · simp [hexpired, Except.isOk, Except.toBool, hempty, Nat.lt_of_not_le hexpired]

theorem sessionIsActive_dropSession {accessToken : String} (h : s.Expired accessToken)
    (other : String) : (s.dropSession accessToken).sessionIsActive other =
      s.sessionIsActive other := by
  rw [AuthState.sessionIsActive, AuthState.sessionIsActive, session?_dropSession]
  by_cases heq : other = accessToken
  · rw [if_pos heq, heq]
    cases hsession : s.session? accessToken with
    | none => rfl
    | some session =>
      have hexpired := h session hsession
      rw [Option.any_none, Option.any_some, eq_comm, decide_eq_false_iff_not]
      exact Nat.not_lt.mpr hexpired
  · rw [if_neg heq]
    rfl

/-- **An expired session** that is forgotten is missed by no device. -/
theorem isOk_dropSession {accessToken : String} (h : s.Expired accessToken) :
    (device.principal env (s.dropSession accessToken) credential).1.isOk =
      (device.principal env s credential).1.isOk := by
  cases device with
  | passwordLogin =>
    rw [passwordLogin_isOk_iff, passwordLogin_isOk_iff]
    cases credential with
    | none => rfl
    | some token => rw [Option.any_some, Option.any_some, sessionIsActive_dropSession h]
  | apiKey credentials => rfl
  | oauthBearer credentials => rfl
  | managedApiKey principals =>
    rw [HttpAuthDevice.principal, HttpAuthDevice.principal]
    cases credential.filter (· ≠ "") with
    | none => rfl
    | some key => rfl
  | oauthJwt jwt =>
    cases credential with
    | none => rfl
    | some token =>
      rw [HttpAuthDevice.principal, HttpAuthDevice.principal]
      dsimp only [AuthState.dropSession]
      cases if token = "" then none else env.verifiedClaims jwt s.now token with
      | none => rfl
      | some claims =>
        dsimp only
        cases stringClaim claims jwt.principalIdClaim with
        | none => rfl
        | some principalId => rfl

/-- What a device forgets is expired. -/
theorem principal_snd : (device.principal env s credential).2 = s ∨ ∃ accessToken,
    s.Expired accessToken ∧ (device.principal env s credential).2 = s.dropSession accessToken := by
  cases device with
  | passwordLogin =>
    cases credential with
    | none => exact Or.inl rfl
    | some token =>
      rw [HttpAuthDevice.principal]
      by_cases hempty : token = ""
      · rw [if_pos hempty]
        exact Or.inl rfl
      · rw [if_neg hempty]
        cases hsession : s.session? token with
        | none => exact Or.inl rfl
        | some session =>
          dsimp only
          by_cases hexpired : session.expiresAt ≤ s.now
          · rw [if_pos hexpired]
            refine Or.inr ⟨token, fun other hother => ?_, rfl⟩
            rw [← Option.some.inj (hsession.symm.trans hother)]
            exact hexpired
          · rw [if_neg hexpired]
            exact Or.inl rfl
  | apiKey credentials => exact Or.inl rfl
  | oauthBearer credentials => exact Or.inl rfl
  | managedApiKey principals =>
    rw [HttpAuthDevice.principal]
    cases credential.filter (· ≠ "") with
    | none => exact Or.inl rfl
    | some key => exact Or.inl rfl
  | oauthJwt jwt =>
    cases credential with
    | none => exact Or.inl rfl
    | some token =>
      rw [HttpAuthDevice.principal]
      cases if token = "" then none else env.verifiedClaims jwt s.now token with
      | none => exact Or.inl rfl
      | some claims =>
        dsimp only
        cases stringClaim claims jwt.principalIdClaim with
        | none => exact Or.inl rfl
        | some principalId => exact Or.inl rfl

/-- A device accepts what is presented. -/
def HttpAuthDevice.accepts (env : AuthEnvironment) (s : AuthState) (presented : Presented)
    (device : HttpAuthDevice) : Bool :=
  (device.principal env s (presented.credentialFor device)).1.isOk

theorem accepts_snd {other : HttpAuthDevice} :
    device.accepts env (other.principal env s credential).2 presented =
      device.accepts env s presented := by
  rcases @principal_snd env s credential other with hsame | ⟨accessToken, hexpired, hdrop⟩
  · rw [hsame]
  · rw [hdrop]
    exact isOk_dropSession hexpired

theorem isOk_firstPrincipal (e : String) :
    (firstPrincipal env presented e devices s).1.isOk =
      devices.any (·.accepts env s presented) := by
  induction devices generalizing s e with
  | nil => rfl
  | cons device devices ih =>
    rw [firstPrincipal, List.any_cons]
    have hdevice : device.accepts env s presented =
        (device.principal env s (presented.credentialFor device)).1.isOk := rfl
    have hsame : ∀ other : HttpAuthDevice,
        other.accepts env (device.principal env s (presented.credentialFor device)).2 presented =
          other.accepts env s presented := fun other => accepts_snd
    cases hprincipal : device.principal env s (presented.credentialFor device) with
    | mk result after =>
      rw [hprincipal] at hdevice hsame
      cases result with
      | ok principal =>
        rw [hdevice]
        rfl
      | error e' =>
        dsimp only at hsame ⊢
        rw [ih, hdevice]
        exact congrArg devices.any (funext hsame)

/-- **A credential is accepted** if some device accepts it. -/
theorem accepts_iff : accepts env config s presented = true ↔
    ∃ device ∈ config.devices, device.accepts env s presented = true := by
  rw [accepts, principal, isOk_firstPrincipal, List.any_eq_true]

/-! ### Checks -/

theorem ne_empty_of_filter {text : Option String} : text.filter (· ≠ "") ≠ some "" := by
  intro h
  have hne := (Option.filter_eq_some_iff.mp h).2
  exact of_decide_eq_true hne rfl

theorem or_ne {text other : Option String} (h : text ≠ some "") (h' : other ≠ some "") :
    text.or other ≠ some "" := by
  cases text with
  | none => exact h'
  | some value => exact h

theorem bearerTokenFromRequest_ne (request : RequestHeaders) :
    bearerTokenFromRequest request ≠ some "" := by
  intro h
  rw [bearerTokenFromRequest] at h
  obtain ⟨authorization, -, h⟩ := Option.bind_eq_some_iff.mp h
  split at h
  · next htoken => exact htoken.2 (Option.some.inj h)
  · injection h

theorem websocketToken_ne (handshake : Handshake) : websocketToken handshake ≠ some "" := by
  have hquery : websocketQueryToken handshake ≠ some "" :=
    or_ne ne_empty_of_filter ne_empty_of_filter
  exact or_ne ne_empty_of_filter hquery

/-- What is presented is no empty text. -/
theorem credentialFor_ne (handshake : Handshake) :
    (Presented.of handshake).credentialFor device ≠ some "" := by
  have hbearer := bearerTokenFromRequest_ne handshake.headers
  rw [Presented.of]
  cases htoken : websocketToken handshake with
  | some value =>
    intro h
    exact websocketToken_ne handshake (htoken.trans h)
  | none =>
    cases device with
    | apiKey credentials => exact or_ne hbearer ne_empty_of_filter
    | managedApiKey principals => exact or_ne hbearer ne_empty_of_filter
    | oauthBearer credentials => exact hbearer
    | passwordLogin => exact hbearer
    | oauthJwt jwt => exact hbearer

/-- **A check of a device** passes while the device accepts the credential. -/
theorem active_of_sessionGuard {guard : Guard} (hne : credential ≠ some "")
    (h : device.sessionGuard env s credential = some guard) (later : AuthState) :
    guard.active env later = (device.principal env later credential).1.isOk := by
  cases device with
  | managedApiKey principals =>
    rw [HttpAuthDevice.sessionGuard] at h
    obtain ⟨hguard, -⟩ := Option.filter_eq_some_iff.mp h
    rw [← Option.some.inj hguard]
    rfl
  | passwordLogin =>
    obtain ⟨token, htoken, h⟩ := Option.bind_eq_some_iff.mp h
    obtain ⟨hguard, -⟩ := Option.filter_eq_some_iff.mp h
    subst htoken
    have hempty : token ≠ "" := fun he => hne (congrArg some he)
    rw [← Option.some.inj hguard, passwordLogin_isOk_iff, Option.any_some, decide_eq_true hempty,
      Bool.true_and]
    rfl
  | apiKey credentials => injection h
  | oauthBearer credentials => injection h
  | oauthJwt jwt => injection h

/-- **While the check of a connection passes**, a new request would be accepted. -/
theorem accepts_of_active {handshake : Handshake} {guard : Guard}
    (h : websocketCredentialGuard env config s handshake = some guard) {later : AuthState}
    (hactive : guard.active env later = true) :
    accepts env config later (Presented.of handshake) = true := by
  have hdevice : ∀ device ∈ config.devices,
      device.sessionGuard env s ((Presented.of handshake).credentialFor device) = some guard →
        accepts env config later (Presented.of handshake) = true := by
    intro device hmem hguard
    refine accepts_iff.mpr ⟨device, hmem, ?_⟩
    rw [HttpAuthDevice.accepts, ← active_of_sessionGuard (credentialFor_ne handshake) hguard]
    exact hactive
  rw [websocketCredentialGuard] at h
  rcases Option.or_eq_some_iff.mp h with hguard | ⟨-, hguard⟩
  · obtain ⟨device, hmem, hguard⟩ := List.exists_of_findSome?_eq_some hguard
    exact hdevice device hmem hguard
  · obtain ⟨device, hlogin, hguard⟩ := Option.bind_eq_some_iff.mp hguard
    exact hdevice device (List.mem_of_find?_eq_some hlogin) hguard

/-- The device for JWTs. -/
def HttpAuthDevice.isJwt : HttpAuthDevice → Bool
  | .oauthJwt _ => true
  | _ => false

/-- **A connection without a check** whose credential is accepted by another device than the one for
JWTs has a static credential, which is accepted for good. -/
theorem accepts_of_unguarded {handshake : Handshake}
    (h : websocketCredentialGuard env config s handshake = none)
    (hdevice : ∃ device ∈ config.devices, device.isJwt = false ∧
      device.accepts env s (Presented.of handshake) = true) (later : AuthState) :
    accepts env config later (Presented.of handshake) = true := by
  obtain ⟨device, hmem, hjwt, haccepts⟩ := hdevice
  rw [websocketCredentialGuard, Option.or_eq_none_iff, sessionGuard,
    List.findSome?_eq_none_iff] at h
  have hguard := h.1 device hmem
  refine accepts_iff.mpr ⟨device, hmem, ?_⟩
  rw [HttpAuthDevice.accepts] at haccepts ⊢
  cases device with
  | apiKey credentials => exact haccepts
  | oauthBearer credentials => exact haccepts
  | oauthJwt jwt => exact absurd hjwt.symm Bool.false_ne_true
  | managedApiKey principals =>
    rw [HttpAuthDevice.sessionGuard, Option.filter_eq_none_iff] at hguard
    exact absurd haccepts (hguard _ rfl)
  | passwordLogin =>
    rw [passwordLogin_isOk_iff] at haccepts
    obtain ⟨token, htoken, hactive⟩ := (Option.any_eq_true _ _).mp haccepts
    rw [HttpAuthDevice.sessionGuard, htoken, Option.bind_some, Option.filter_eq_none_iff] at hguard
    rw [Bool.and_eq_true] at hactive
    exact absurd hactive.2 (hguard _ rfl)

end EvernightAI.Http
