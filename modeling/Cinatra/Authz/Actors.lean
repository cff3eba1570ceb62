import Cinatra.Authz.Kernel
import Cinatra.Lib.CodeUnits
import Cinatra.Lib.Json

/-! # Actors — from the envelope of a request to the kernel's actor

    The envelope carries an actor type, a user and whatever its producer stamped;
    fields beyond its declared type are read as they are found, so `roles` and
    `teamRoles` are kept as the JSON they arrive as.  Hints resolved by a caller
    go beside it.  An organisation the hints leave open is the one the caller of
    the bridge passes. -/

namespace AuthzActors

open CodeUnits JsonValue AuthzKernel

inductive ActorType where
  | human | model | system | a2a
deriving DecidableEq

inductive ActorSource where
  | ui | route | worker | scheduler | agent | a2a | mcp
deriving DecidableEq

/-- The envelope.  What a request carries for its log only is left out. -/
structure PrimitiveActorContext where
  actorType : Option ActorType
  userId : Option String := none
  requestId : Option String := none
  jobId : Option String := none
  source : Option ActorSource := none
  tokenScopes : Option (List String) := none
  platformRole : Option PlatformRole := none
  orgId : Option String := none
  orgRole : Option OrgRole := none
  -- beyond the declared type
  organizationId : Option String := none
  roles : Option Json := none
  teamRoles : Option Json := none
  teamIds : Option (List String) := none
  projectIds : Option (List String) := none
  projectGrants : Option (List ProjectGrant) := none

/-- Roles a caller has resolved.  `some none` is an organisation that is `null`. -/
structure ActorRoleHints where
  platformRole : Option PlatformRole := none
  orgRole : Option OrgRole := none
  teamRoles : Option (List (String × TeamRole)) := none
  actorOrganizationId : Option (Option String) := none
  teamIds : Option (List String) := none
  projectIds : Option (List String) := none
  projectGrants : Option (List ProjectGrant) := none

/-- `s.split(",")`. -/
def splitCommas : List Char → List (List Char)
  | [] => [[]]
  | ',' :: rest => [] :: splitCommas rest
  | c :: rest =>
    match splitCommas rest with
    | [] => [[c]]
    | part :: parts => (c :: part) :: parts

/-- The parts of a comma-separated text that are not blank. -/
def commaList (s : String) : List String :=
  ((splitCommas s.toList).map trim).filterMap (fun part =>
    if part = [] then none else some (String.ofList part))

/-- `parseActorRoles`. -/
def parseActorRoles (rawRoles : Option Json) : Option (List String) :=
  match rawRoles with
  | some (.arr xs) =>
    some ((xs.filterMap Json.str?).filterMap (fun r =>
      let r := trim r.toList
      if r = [] then none else some (String.ofList r)))
  | some (.str s) => if commaList s = [] then none else some (commaList s)
  | _ => none

def mapAuthSource (actor : PrimitiveActorContext) : AuthSource :=
  match actor.actorType with
  | some .a2a => .a2a
  | some .model => .mcp
  | _ =>
    match actor.source with
    | some .ui | some .route | none => .ui
    | some .worker | some .scheduler => .worker
    | some .agent => .agent
    | some .a2a => .a2a
    | some .mcp => .mcp

/-- The principal type of an actor type; anything else is an internal worker. -/
def principalTypeOf : Option ActorType → PrincipalType
  | some .human => .humanUser
  | some .model => .serviceAccount
  | some .a2a => .externalA2AAgent
  | some .system | none => .internalWorker

def buildActorContextFromPrimitive (actor : PrimitiveActorContext) (runOrgId : Option String)
    (roles : Option ActorRoleHints) : ActorContext :=
  let organizationId := match roles.bind ActorRoleHints.actorOrganizationId with
    | some own => own
    | none => runOrgId
  -- what a peer agent's carrier forwards is trusted on an a2a envelope only
  let a2aCarrier := if actor.actorType = some .a2a then some actor else none
  let projectGrants := (roles.bind ActorRoleHints.projectGrants).orElse
    (fun _ => a2aCarrier.bind PrimitiveActorContext.projectGrants)
  { principalType := principalTypeOf actor.actorType
    principalId := (((actor.userId.orElse (fun _ => actor.jobId)).orElse
      (fun _ => actor.requestId)).getD "system")
    organizationId := organizationId
    teamIds := (roles.bind ActorRoleHints.teamIds).orElse
      (fun _ => a2aCarrier.bind PrimitiveActorContext.teamIds)
    projectGrants := projectGrants
    projectIds := match projectGrants with
      | some grants => some (jsSort (grants.map ProjectGrant.projectId))
      | none => (roles.bind ActorRoleHints.projectIds).orElse
          (fun _ => a2aCarrier.bind PrimitiveActorContext.projectIds)
    platformRole := roles.bind ActorRoleHints.platformRole
    orgRole := roles.bind ActorRoleHints.orgRole
    teamRoles := roles.bind ActorRoleHints.teamRoles
    authSource := mapAuthSource actor
    tokenScopes := actor.tokenScopes
    policyVersion := policyVersion
    roles := parseActorRoles actor.roles }

/-! ## Hints read off the envelope -/

/-- The role names an envelope carries. -/
def roleNames : Option Json → List String
  | some (.arr xs) => xs.filterMap Json.str?
  | some (.str s) => commaList s
  | _ => []

/-- One role name: a later name overrides, `admin` yields to a platform admin. -/
def noteRole (st : Option PlatformRole × Option OrgRole) (r : String) :
    Option PlatformRole × Option OrgRole :=
  if r = "platform_admin" then (some .platformAdmin, st.2)
  else if r = "owner" then (st.1, some .orgOwner)
  else if r = "admin" && st.1.isNone then (st.1, some .orgAdmin)
  else if r = "member" && st.2.isNone then (st.1, some .member)
  else st

/-- `Object.entries(v)`. -/
def entries : Json → List (String × Json)
  | .obj fs => fs
  | .arr xs => xs.zipIdx.map (fun e => (toString e.2, e.1))
  | _ => []

/-- The role a team is given in the envelope. -/
def teamRoleOf : Json → Option TeamRole
  | .str s =>
    if s = "admin" || s = "team_admin" then some .teamAdmin
    else if s = "member" then some .member
    else none
  | _ => none

def teamRolesOf (raw : Option Json) : Option (List (String × TeamRole)) :=
  match raw with
  | some (.obj fs) =>
    some ((entries (.obj fs)).filterMap (fun e => (teamRoleOf e.2).map (fun r => (e.1, r))))
  | some (.arr xs) =>
    some ((entries (.arr xs)).filterMap (fun e => (teamRoleOf e.2).map (fun r => (e.1, r))))
  | _ => none

/-- The organisation the envelope carries. -/
def envelopeOrg (actor : PrimitiveActorContext) : Option String :=
  actor.organizationId.orElse (fun _ => actor.orgId)

def deriveRoleHints (actor : PrimitiveActorContext) : ActorRoleHints :=
  let (platformRole, orgRole) := (roleNames actor.roles).foldl noteRole (none, none)
  let actorOrgId := envelopeOrg actor
  { platformRole := platformRole.orElse (fun _ => actor.platformRole)
    -- a stamped role is only good beside the organisation stamped with it
    orgRole := if orgRole.isNone && actorOrgId.any (· ≠ "") then actor.orgRole else orgRole
    teamRoles := teamRolesOf actor.teamRoles
    actorOrganizationId := actorOrgId.map some }

end AuthzActors
