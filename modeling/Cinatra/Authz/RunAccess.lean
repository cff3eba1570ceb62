import Cinatra.Authz.ResourceAccess

/-! # RunAccess — the gate in front of agent runs

    A run's policy names an audience for listing, reading and executing it.  The
    gate lets owner and co-owners through, asks the resource gate about anyone
    else, and then applies the token's scopes and the policy to its answer.
    `enforceRunAccess_ok` states when the gate opens. -/

namespace AuthzRunAccess

open AuthzPermissions AuthzKernel AuthzActors AuthzResourceAccess

inductive AgentAuthPolicyVisibility where
  | owner
  | org
  | orgId (id : String)
  | admin
  | workspace
  | team (id : String)
  | project (id : String)
deriving DecidableEq

structure AgentAuthPolicy where
  runListVisibility : AgentAuthPolicyVisibility
  runDataVisibility : AgentAuthPolicyVisibility
  runExecuteVisibility : AgentAuthPolicyVisibility
  allowRunSharing : Bool

inductive RunAccessOperation where
  | list | read | execute | approveHitl | respondToHitl | editOutput | cancel | share
deriving DecidableEq

def operationPermission : RunAccessOperation → Permission
  | .list => .runList
  | .read => .runRead
  | .execute => .runResume
  | .approveHitl => .runApproveHitl
  | .respondToHitl => .runRespondToHitl
  | .editOutput => .runEditOutput
  | .cancel => .runCancel
  | .share => .runShare

/-- The audience an operation is meant for; `none` is sharing a run that must not be. -/
def visibilityFor (policy : AgentAuthPolicy) : RunAccessOperation → Option AgentAuthPolicyVisibility
  | .list => some policy.runListVisibility
  | .read | .editOutput => some policy.runDataVisibility
  | .execute | .approveHitl | .respondToHitl | .cancel => some policy.runExecuteVisibility
  | .share => if policy.allowRunSharing then some policy.runDataVisibility else none

/-- An audience takes in an actor that is neither owner nor platform admin. -/
def admits (actor : ActorContext) : AgentAuthPolicyVisibility → Bool
  | .workspace => true
  | .orgId id => actor.organizationId = some id
  | .team id => (actor.teamIds.getD []).contains id
  | .project id => (actor.projectIds.getD []).contains id
  | .admin => false
  | .owner => false
  | .org => true

def policyAllows (policy : AgentAuthPolicy) (op : RunAccessOperation) (actor : ActorContext) :
    Bool :=
  if actor.platformRole = some .platformAdmin then true
  else (visibilityFor policy op).any (admits actor)

/-! ## The gate -/

structure RunForAccessCheck where
  id : String
  runBy : Option String
  orgId : Option String := none
  effectivePolicy : Option AgentAuthPolicy := none
  coOwnerUserIds : Option (List String) := none

/-- `COOWNER_OPS`. -/
def coownerOps : List RunAccessOperation :=
  [.list, .read, .execute, .approveHitl, .respondToHitl, .editOutput, .cancel, .share]

/-- The actor's user started the run; an empty id is nobody's. -/
def startedBy (run : RunForAccessCheck) (actor : PrimitiveActorContext) : Bool :=
  actor.userId.any (fun u => u ≠ "" && run.runBy = some u)

def isRunCoOwner (run : RunForAccessCheck) (actor : PrimitiveActorContext) : Bool :=
  actor.userId.any (fun u => u ≠ "" && (run.coOwnerUserIds.getD []).contains u)

/-- The run as the resource gate sees it. -/
def probe (run : RunForAccessCheck) : ResourceForAccessCheck where
  resourceType := .run
  resourceId := run.id
  organizationId := run.orgId
  ownerLevel := .user
  ownerId := run.runBy.getD ""

/-- The scopes of a token bound what it may be used for. -/
def scopesAllow (tokenScopes : Option (List String)) (permission : Permission) : Bool :=
  match tokenScopes with
  | none => true
  | some scopes => scopes.contains permission.text

/-- A policy on the run tightens what the kernel allows. -/
def policyAdmits (run : RunForAccessCheck) (op : RunAccessOperation) (actor : ActorContext) :
    Bool :=
  run.effectivePolicy.all (fun policy => policyAllows policy op actor)

/-- The actor scopes and policy are applied to. -/
def runActor (run : RunForAccessCheck) (actor : PrimitiveActorContext)
    (roles : Option ActorRoleHints) : ActorContext :=
  buildActorContextFromPrimitive actor run.orgId roles

/-- The scopes, then the policy. -/
def tighten (run : RunForAccessCheck) (op : RunAccessOperation) (actor : ActorContext) :
    Except AuthzError Unit :=
  if !scopesAllow actor.tokenScopes (operationPermission op) then
    .error ⟨403, "forbidden", "Run access denied: token scope insufficient (required " ++
      (operationPermission op).text ++ ")."⟩
  else if !policyAdmits run op actor then .error ⟨403, "forbidden", "Run access denied."⟩
  else .ok ()

def enforceRunAccess (run : Option RunForAccessCheck) (actor : Option PrimitiveActorContext)
    (op : RunAccessOperation) (roles : Option ActorRoleHints) : Except AuthzError Unit :=
  match run, actor with
  | none, _ => .error ⟨404, "hidden", "Not found."⟩
  | some _, none => .error ⟨403, "forbidden", "Run access denied."⟩
  | some run, some actor =>
    if startedBy run actor then .ok ()
    else if isRunCoOwner run actor && coownerOps.contains op then .ok ()
    else
      match enforceResourceAccess (some (probe run)) (some actor) (operationPermission op)
          roles with
      | .error err =>
        .error { err with message :=
          if err.statusCode = 404 then "Not found." else "Run access denied." }
      | .ok () => tighten run op (runActor run actor roles)

variable {run : RunForAccessCheck} {op : RunAccessOperation}

theorem tighten_ok {actor : ActorContext} :
    tighten run op actor = .ok () ↔ scopesAllow actor.tokenScopes (operationPermission op) = true ∧
        policyAdmits run op actor = true := by
  rw [tighten]
  cases hs : scopesAllow actor.tokenScopes (operationPermission op) with
  | false => simp
  | true =>
    cases hp : policyAdmits run op actor with
    | false | true => simp

theorem mem_coownerOps (op : RunAccessOperation) : coownerOps.contains op = true := by
  cases op <;> rfl

/-- **The gate opens** for who started the run, for a co-owner, or on the resource
    gate's word when neither scopes nor policy object. -/
theorem enforceRunAccess_ok {actor : PrimitiveActorContext} {roles : Option ActorRoleHints} :
    enforceRunAccess (some run) (some actor) op roles = .ok () ↔
      startedBy run actor = true ∨ isRunCoOwner run actor = true ∨
      (enforceResourceAccess (some (probe run)) (some actor) (operationPermission op) roles =
          .ok () ∧ scopesAllow actor.tokenScopes (operationPermission op) = true ∧
        policyAdmits run op (runActor run actor roles) = true) := by
  simp only [enforceRunAccess, mem_coownerOps, Bool.and_true]
  by_cases howner : startedBy run actor = true
  · simp [howner]
  by_cases hco : isRunCoOwner run actor = true
  · simp [howner, hco]
  rw [if_neg howner, if_neg hco]
  cases hres : enforceResourceAccess (some (probe run)) (some actor) (operationPermission op)
      roles with
  | error err => simp [howner, hco]
  | ok u =>
    have htokens : (runActor run actor roles).tokenScopes = actor.tokenScopes := rfl
    show tighten run op (runActor run actor roles) = .ok () ↔ _
    rw [tighten_ok, htokens]
    simp [howner, hco]

end AuthzRunAccess
