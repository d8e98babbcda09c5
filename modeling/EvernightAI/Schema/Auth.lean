import EvernightAI.Schema.Base

/-!
# Principals, scopes and permissions

Who asks (`Principal`), which owner's records the request may touch (`PrincipalScope`) and
whether the authorizer grants it (`requirePermission`).
-/

namespace EvernightAI

/-- The caller of an authorized interface. -/
structure Principal where
  principalId : String
  permissions : List String := []
  deriving DecidableEq, Repr

/-- Ownership scope passed through application and storage boundaries. -/
structure PrincipalScope where
  ownerId : Option String := none
  deriving DecidableEq, Repr

namespace PrincipalScope

def forPrincipal (principal : Principal) : PrincipalScope := ⟨some principal.principalId⟩

def permits (scope : PrincipalScope) (ownerId : Option String) : Bool :=
  scope.ownerId = none ∨ ownerId = scope.ownerId

@[simp] theorem forPrincipal_permits {principal : Principal} {ownerId : Option String} :
    (forPrincipal principal).permits ownerId = true ↔ ownerId = some principal.principalId := by
  simp [permits, forPrincipal]

end PrincipalScope

/-- `_scope_permits` -/
def scopePermits (scope : Option PrincipalScope) (ownerId : Option String) : Bool :=
  scope.all fun s => s.permits ownerId

/-- What is asked for: an action on a kind of resource. -/
structure AuthPermission where
  action : String
  resource : String := "*"
  deriving DecidableEq, Repr

structure AuthRequest where
  principal : Principal
  permission : AuthPermission
  resourceId : Option String := none
  deriving DecidableEq, Repr

inductive AuthDecisionStatus
  | allowed
  | denied
  deriving DecidableEq, Repr

structure AuthDecision where
  status : AuthDecisionStatus
  reason : Option String := none
  deriving DecidableEq, Repr

def AuthDecision.allowed (decision : AuthDecision) : Bool := decision.status = .allowed

/-- An authorizer, by the decision its policy makes. -/
abbrev Authorizer := AuthRequest → AuthDecision

def allowAllAuthPolicy : Authorizer := fun _ => { status := .allowed }

def permissionKey (permission : AuthPermission) : String :=
  permission.resource ++ ":" ++ permission.action

def permissionAuthPolicy : Authorizer := fun request =>
  let required := permissionKey request.permission
  if request.principal.permissions.contains "*" || request.principal.permissions.contains required
  then { status := .allowed }
  else { status := .denied, reason := some ("Permission '" ++ required ++ "' is required") }

/-- `require_permission`: the error raised when the authorizer refuses. -/
def requirePermission (authorizer : Authorizer) (principal : Principal)
    (resource action : String) (resourceId : Option String := none) : Except Error Unit :=
  let decision := authorizer { principal, permission := { resource, action }, resourceId }
  if decision.allowed then .ok ()
  else .error {
    errorType := .authPermissionDeniedError
    message := decision.reason.getD "Permission denied" }

theorem requirePermission_of_allowed {authorizer : Authorizer}
    (h : ∀ request, (authorizer request).allowed = true) (principal : Principal)
    (resource action : String) (resourceId : Option String) :
    requirePermission authorizer principal resource action resourceId = .ok () := by
  simp [requirePermission, h]

theorem allowAllAuthPolicy_allowed (request : AuthRequest) :
    (allowAllAuthPolicy request).allowed = true := rfl

end EvernightAI
