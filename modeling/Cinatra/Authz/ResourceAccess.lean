import Cinatra.Authz.Actors

/-! # ResourceAccess — the gate in front of objects and projects

    Owner, co-owner and team admin of the owning team pass first; anyone else is
    put before the kernel with the roles the caller resolved, or else those read
    off the envelope.  `enforceResourceAccess_ok` states when the gate opens. -/

namespace AuthzResourceAccess

open JsonValue AuthzPermissions AuthzKernel AuthzActors

structure AuthzError where
  statusCode : Nat
  reason : String
  message : String
deriving DecidableEq

inductive CheckedType where
  | object | project | run | registry
deriving DecidableEq

def CheckedType.toResourceType : CheckedType → ResourceType
  | .object => .object
  | .project => .project
  | .run => .run
  | .registry => .registry

structure ResourceForAccessCheck where
  resourceType : CheckedType
  resourceId : String
  organizationId : Option String
  ownerLevel : OwnerLevel
  ownerId : String
  visibility : Option ResourceVisibility := none
  coOwnerUserIds : Option (List String) := none

/-- `RESOURCE_COOWNER_OPS`. -/
def resourceCoownerOps : List Permission :=
  [.projectRead, .projectUpdate, .projectManageMembers, .objectRead, .objectUpdate]

def ownerLevelToType : OwnerLevel → OwnerType
  | .user => .user
  | .team => .team
  | .organization | .workspace => .organization

def isOwner (resource : ResourceForAccessCheck) (actor : PrimitiveActorContext) : Bool :=
  resource.ownerLevel = .user && actor.userId = some resource.ownerId

def isCoOwner (resource : ResourceForAccessCheck) (actor : PrimitiveActorContext) : Bool :=
  actor.userId.any (fun u => (resource.coOwnerUserIds.getD []).contains u)

/-- The envelope makes the actor an admin of the owning team. -/
def isTeamOwner (resource : ResourceForAccessCheck) (actor : PrimitiveActorContext) : Bool :=
  resource.ownerLevel = .team && actor.teamRoles.any (fun raw =>
      ((entries raw).find? (fun e => e.1 = resource.ownerId)).any (fun e =>
        e.2 = .str "admin" || e.2 = .str "team_admin"))

/-! ## What the kernel is asked -/

/-- The hints of the caller, completed by those of the envelope. -/
def mergeHints (override : Option ActorRoleHints) (derived : ActorRoleHints) : ActorRoleHints :=
  match override with
  | none => derived
  | some o =>
    let projectGrants := o.projectGrants.orElse (fun _ => derived.projectGrants)
    { platformRole := o.platformRole.orElse (fun _ => derived.platformRole)
      orgRole := o.orgRole.orElse (fun _ => derived.orgRole)
      teamRoles := o.teamRoles.orElse (fun _ => derived.teamRoles)
      teamIds := o.teamIds
      projectGrants := projectGrants
      projectIds := match projectGrants with
        | some grants => some (grants.map ProjectGrant.projectId)
        | none => o.projectIds
      -- a `null` override does not hide the organisation of the envelope
      actorOrganizationId := match o.actorOrganizationId with
        | some (some org) => some (some org)
        | _ => derived.actorOrganizationId }

/-- The declared fields of the envelope, with the most restrictive defaults. -/
def safeActor (actor : PrimitiveActorContext) : PrimitiveActorContext where
  actorType := some (actor.actorType.getD .system)
  source := some (actor.source.getD .ui)
  userId := actor.userId
  requestId := actor.requestId
  jobId := actor.jobId
  tokenScopes := actor.tokenScopes

/-- The actor the kernel judges. -/
def gateActor (resource : ResourceForAccessCheck) (actor : PrimitiveActorContext)
    (override : Option ActorRoleHints) : ActorContext :=
  buildActorContextFromPrimitive (safeActor actor) resource.organizationId
    (some (mergeHints override (deriveRoleHints actor)))

def resourceRef (resource : ResourceForAccessCheck) : ResourceRef where
  resourceType := resource.resourceType.toResourceType
  resourceId := resource.resourceId
  organizationId := resource.organizationId
  ownerType := some (ownerLevelToType resource.ownerLevel)
  ownerId := some resource.ownerId
  visibility := resource.visibility
  level := some resource.ownerLevel

/-- `op.endsWith(".read")`. -/
def hidesExistence (op : Permission) : Bool := ".read".toList.isSuffixOf op.text.toList

def enforceResourceAccess (resource : Option ResourceForAccessCheck)
    (actor : Option PrimitiveActorContext) (op : Permission)
    (roleHintsOverride : Option ActorRoleHints) : Except AuthzError Unit :=
  match resource, actor with
  | none, _ => .error ⟨404, "hidden", "Not found."⟩
  | some _, none => .error ⟨403, "forbidden", "Access denied."⟩
  | some resource, some actor =>
    if isOwner resource actor then .ok ()
    else if isCoOwner resource actor && resourceCoownerOps.contains op then .ok ()
    else if isTeamOwner resource actor then .ok ()
    else if can (gateActor resource actor roleHintsOverride) op (resourceRef resource) then .ok ()
    else if hidesExistence op then .error ⟨404, "hidden", "Not found."⟩
    else .error ⟨403, "forbidden", "Access denied."⟩

/-- **The gate opens** for an owner, a co-owner, a team owner, or on the kernel's word. -/
theorem enforceResourceAccess_ok {resource : ResourceForAccessCheck}
    {actor : PrimitiveActorContext} {op : Permission} {hints : Option ActorRoleHints} :
    enforceResourceAccess (some resource) (some actor) op hints = .ok () ↔
      isOwner resource actor = true ∨ (isCoOwner resource actor = true ∧ op ∈ resourceCoownerOps) ∨
      isTeamOwner resource actor = true ∨
      can (gateActor resource actor hints) op (resourceRef resource) = true := by
  simp only [enforceResourceAccess]
  by_cases howner : isOwner resource actor = true
  · simp [howner]
  by_cases hco : (isCoOwner resource actor && resourceCoownerOps.contains op) = true
  · have hco' := Bool.and_eq_true_iff.mp hco
    rw [List.contains_iff_mem] at hco'
    simp [howner, hco']
  by_cases hteam : isTeamOwner resource actor = true
  · simp [howner, hteam]
  have hnot : ¬ (isCoOwner resource actor = true ∧ op ∈ resourceCoownerOps) := by
    rw [Bool.and_eq_true, List.contains_iff_mem] at hco
    exact hco
  rw [if_neg howner, if_neg hco, if_neg hteam]
  by_cases hcan : can (gateActor resource actor hints) op (resourceRef resource) = true
  · simp [hcan]
  rw [if_neg hcan]
  have herr : ∀ err : AuthzError, (Except.error err : Except AuthzError Unit) = .ok () ↔
      isOwner resource actor = true ∨
      (isCoOwner resource actor = true ∧ op ∈ resourceCoownerOps) ∨
      isTeamOwner resource actor = true ∨
      can (gateActor resource actor hints) op (resourceRef resource) = true := by
    intro err
    constructor
    · intro h
      cases h
    · rintro (h | h | h | h)
      · exact absurd h howner
      · exact absurd h hnot
      · exact absurd h hteam
      · exact absurd h hcan
  split
  · exact herr _
  · exact herr _

/-- The organisation an actor's own hints or envelope carry. -/
def ownOrg (actor : PrimitiveActorContext) (hints : Option ActorRoleHints) : Option String :=
  ((hints.bind ActorRoleHints.actorOrganizationId).join).orElse (fun _ => envelopeOrg actor)

/-- The actor put before the kernel is of its own organisation; one that carries none
    is put in the resource's. -/
theorem gateActor_organizationId (resource : ResourceForAccessCheck)
    (actor : PrimitiveActorContext) (hints : Option ActorRoleHints) :
    (gateActor resource actor hints).organizationId =
      (ownOrg actor hints).orElse (fun _ => resource.organizationId) := by
  have hderived : (deriveRoleHints actor).actorOrganizationId = (envelopeOrg actor).map some := rfl
  simp only [gateActor, buildActorContextFromPrimitive, ownOrg, Option.bind_some]
  cases hints with
  | none =>
    simp only [mergeHints, hderived, Option.bind_none, Option.join_none]
    cases envelopeOrg actor with
    | none | some => rfl
  | some o =>
    simp only [mergeHints, Option.bind_some, hderived]
    rcases o.actorOrganizationId with _ | _ | org
    · cases envelopeOrg actor with
      | none | some => rfl
    · cases envelopeOrg actor with
      | none | some => rfl
    · rfl

end AuthzResourceAccess
