import Cinatra.Authz.Permissions
import Mathlib.Logic.Relation

/-! # Kernel — the roles an actor has for a resource, and the decision

    `resolveRoles` collects the roles, in source order; `can` refuses another
    organisation's resource to anyone but a platform admin, and else asks whether
    one of the roles has the permission.  `mem_resolveRoles` says when each role
    is there, and `can_iff` states the decision over it. -/

namespace AuthzKernel

open AuthzPermissions

inductive PrincipalType where
  | humanUser | serviceAccount | externalA2AAgent | internalWorker | system
deriving DecidableEq

inductive PlatformRole where
  | platformAdmin | member
deriving DecidableEq

inductive OrgRole where
  | orgOwner | orgAdmin | member
deriving DecidableEq

inductive TeamRole where
  | teamAdmin | member
deriving DecidableEq

inductive AuthSource where
  | ui | worker | mcp | a2a | agent
deriving DecidableEq

inductive ProjectRole where
  | read | write | admin | owner
deriving DecidableEq

inductive ProjectAccessSource where
  | owner | user | team | organization | workspace
deriving DecidableEq

structure ProjectGrant where
  projectId : String
  effectiveRole : ProjectRole
  accessSource : ProjectAccessSource

def policyVersion : String := "v2"

/-- An actor as the kernel sees it; `none` is a field that is not set. -/
structure ActorContext where
  principalType : PrincipalType
  principalId : String
  organizationId : Option String := none
  teamIds : Option (List String) := none
  projectGrants : Option (List ProjectGrant) := none
  projectIds : Option (List String) := none
  platformRole : Option PlatformRole := none
  orgRole : Option OrgRole := none
  teamRoles : Option (List (String × TeamRole)) := none
  authSource : AuthSource
  tokenScopes : Option (List String) := none
  policyVersion : String
  /-- The names of the role grants, beside the declared fields. -/
  roles : Option (List String) := none

/-- `actor.teamRoles?.[team]`. -/
def ActorContext.teamRole (actor : ActorContext) (team : String) : Option TeamRole :=
  actor.teamRoles.bind (fun rs => (rs.find? (fun r => r.1 = team)).map Prod.snd)

/-! ## Resources -/

inductive ResourceType where
  | agent | run | agentRun | object | project | skill | connector | connectorInstance | registry
  | administration | audit | platform | artifact | extensionRegistry | marketplaceTemplate
  | workflowTemplate | workflow | workflowDraft | workflowRun | workflowExtension | dashboard
  | list | entityAccount | entityContact | trigger | notification | metricCost | metricUsage
  | auditLog | organization | team
deriving DecidableEq

inductive OwnerLevel where
  | user | team | organization | workspace
deriving DecidableEq

inductive OwnerType where
  | user | team | organization | serviceAccount
deriving DecidableEq

inductive ResourceVisibility where
  | «private» | team | organization | «public»
deriving DecidableEq

structure ResourceRef where
  resourceType : ResourceType
  resourceId : String
  organizationId : Option String := none
  ownerType : Option OwnerType := none
  ownerId : Option String := none
  visibility : Option ResourceVisibility := none
  level : Option OwnerLevel := none

/-! ## The decision -/

def OrgRole.toRole : OrgRole → Role
  | .orgOwner => .orgOwner
  | .orgAdmin => .orgAdmin
  | .member => .member

/-- The synthetic role of a principal type. -/
def syntheticRole : PrincipalType → Option Role
  | .serviceAccount => some .serviceAccount
  | .externalA2AAgent => some .externalAgent
  | _ => none

/-- The roles a grant may name. -/
def knownRole (name : String) : Option Role :=
  if name = "developer" then some .developer
  else if name = "release_manager" then some .releaseManager
  else if name = "customer" then some .customer
  else none

/-- Add the roles the grants name, each once. -/
def addKnown (roles : List Role) (names : List String) : List Role :=
  names.foldl (fun roles name =>
    match knownRole name with
    | none => roles
    | some r => if roles.contains r then roles else roles ++ [r]) roles

/-- Actor and resource are of the same organisation. -/
def sameOrg (actor : ActorContext) (resource : ResourceRef) : Bool :=
  resource.organizationId.isSome && actor.organizationId = resource.organizationId

/-- `resource.ownerType === "team" && resource.ownerId`, for an administrator of it. -/
def administersOwner (actor : ActorContext) (resource : ResourceRef) : Bool :=
  resource.ownerType = some .team &&
    resource.ownerId.any (fun team => team ≠ "" && actor.teamRole team = some .teamAdmin)

def resolveRoles (actor : ActorContext) (resource : ResourceRef) : List Role :=
  let roles := if actor.platformRole = some .platformAdmin then [.platformAdmin] else []
  -- an organisation with an empty id gives no organisation role
  let roles := roles ++
    if sameOrg actor resource && resource.organizationId ≠ some "" then
      (actor.orgRole.map OrgRole.toRole).toList
    else []
  let roles := roles ++ if administersOwner actor resource then [.teamAdmin] else []
  let roles := roles ++
    if sameOrg actor resource then (syntheticRole actor.principalType).toList else []
  if sameOrg actor resource then addKnown roles (actor.roles.getD []) else roles

def can (actor : ActorContext) (action : Permission) (resource : ResourceRef) : Bool :=
  if resource.organizationId.isSome && actor.organizationId ≠ resource.organizationId &&
      actor.platformRole ≠ some .platformAdmin then false
  else (resolveRoles actor resource).any (fun role => roleHasPermission role action)

variable {r : Role}

theorem mem_addKnown {names : List String} {roles : List Role} :
    r ∈ addKnown roles names ↔ r ∈ roles ∨ ∃ name ∈ names, knownRole name = some r := by
  induction names generalizing roles with
  | nil =>
    show r ∈ roles ↔ _
    simp
  | cons name names ih =>
    rw [addKnown, List.foldl_cons]
    show r ∈ addKnown _ names ↔ _
    rw [ih]
    cases hk : knownRole name with
    | none => simp [hk]
    | some r' =>
      by_cases hc : roles.contains r' = true
      · -- the name repeats a role that is there
        have hmem : r' ∈ roles := List.contains_iff_mem.mp hc
        simp only [if_pos hc, List.exists_mem_cons_iff, hk, Option.some.injEq]
        constructor
        · rintro (h | h)
          · exact .inl h
          · exact .inr (.inr h)
        · rintro (h | rfl | h)
          · exact .inl h
          · exact .inl hmem
          · exact .inr h
      · simp only [if_neg hc, List.exists_mem_cons_iff, hk, Option.some.injEq,
          List.mem_append, List.mem_singleton, or_assoc, eq_comm (a := r)]

variable {resource : ResourceRef} {actor : ActorContext}

/-- **When a role is among those resolved.** -/
theorem mem_resolveRoles : r ∈ resolveRoles actor resource ↔
      (actor.platformRole = some .platformAdmin ∧ r = .platformAdmin) ∨
      (sameOrg actor resource = true ∧ resource.organizationId ≠ some "" ∧
        actor.orgRole.map OrgRole.toRole = some r) ∨
      (administersOwner actor resource = true ∧ r = .teamAdmin) ∨
      (sameOrg actor resource = true ∧ syntheticRole actor.principalType = some r) ∨
      (sameOrg actor resource = true ∧ ∃ name ∈ actor.roles.getD [], knownRole name = some r) := by
  simp only [resolveRoles]
  by_cases hs : sameOrg actor resource = true
  · by_cases ho : resource.organizationId = some ""
    · by_cases hp : actor.platformRole = some .platformAdmin <;>
        by_cases ht : administersOwner actor resource = true <;>
        simp [hs, ho, hp, ht, mem_addKnown, Option.mem_toList, or_assoc]
    · by_cases hp : actor.platformRole = some .platformAdmin <;>
        by_cases ht : administersOwner actor resource = true <;>
        simp [hs, ho, hp, ht, mem_addKnown, Option.mem_toList, or_assoc]
  · by_cases hp : actor.platformRole = some .platformAdmin <;>
      by_cases ht : administersOwner actor resource = true <;>
      simp [hs, hp, ht]

variable {action : Permission}

/-- **The decision.**  No organisation is crossed but by a platform admin, and one of
    the roles has the permission. -/
theorem can_iff : can actor action resource = true ↔
      (resource.organizationId = none ∨ actor.organizationId = resource.organizationId ∨
        actor.platformRole = some .platformAdmin) ∧
      ∃ role ∈ resolveRoles actor resource, roleHasPermission role action = true := by
  rw [can]
  split
  · rename_i hguard
    simp only [Bool.and_eq_true, decide_eq_true_eq, Option.isSome_iff_ne_none] at hguard
    constructor
    · intro h
      cases h
    · rintro ⟨hno, _⟩
      rcases hno with h | h | h
      · exact absurd h hguard.1.1
      · exact absurd h hguard.1.2
      · exact absurd h hguard.2
  · rename_i hguard
    rw [List.any_eq_true]
    constructor
    · intro h
      refine ⟨?_, h⟩
      simp only [Bool.and_eq_true, decide_eq_true_eq, Option.isSome_iff_ne_none] at hguard
      tauto
    · exact fun h => h.2

theorem can_mono {a b : ActorContext}
    (horg : a.organizationId = b.organizationId) (hplatform : a.platformRole = b.platformRole)
    (hroles : ∀ r ∈ resolveRoles a resource, r ∈ resolveRoles b resource)
    (h : can a action resource = true) : can b action resource = true := by
  rw [can_iff] at h ⊢
  rw [← horg, ← hplatform]
  obtain ⟨hguard, role, hrole, hperm⟩ := h
  exact ⟨hguard, role, hroles role hrole, hperm⟩

/-! ## Promotion -/

/-- What `a` has `b` has too, and its organisation role may have climbed. -/
structure Promoted (a b : ActorContext) : Prop where
  organization : b.organizationId = a.organizationId
  principal : b.principalType = a.principalType
  platform : a.platformRole = some .platformAdmin → b.platformRole = some .platformAdmin
  org : ∀ p, a.orgRole = some p → ∃ q, b.orgRole = some q ∧
    Relation.ReflTransGen (fun parent role => parent ∈ inherits role) p.toRole q.toRole
  teams : ∀ team, a.teamRole team = some .teamAdmin → b.teamRole team = some .teamAdmin
  grants : ∀ name ∈ a.roles.getD [], name ∈ b.roles.getD []

theorem roleHasPermission_of_climb {p q : Role}
    (h : Relation.ReflTransGen (fun parent role => parent ∈ inherits role) p q)
    (hp : roleHasPermission p action = true) : roleHasPermission q action = true := by
  induction h with
  | refl => exact hp
  | tail _ hstep ih => exact roleHasPermission_of_inherits hstep ih

/-- **A promotion takes no permission away**, for any action and any resource. -/
theorem can_promoted {a b : ActorContext} (h : Promoted a b)
    (hc : can a action resource = true) : can b action resource = true := by
  have hsame : sameOrg b resource = sameOrg a resource := by rw [sameOrg, sameOrg, h.organization]
  rw [can_iff] at hc ⊢
  obtain ⟨hguard, role, hrole, hperm⟩ := hc
  rw [h.organization]
  refine ⟨hguard.imp_right (Or.imp_right h.platform), ?_⟩
  simp only [mem_resolveRoles, hsame, h.principal] at hrole ⊢
  rcases hrole with ⟨hp, hr⟩ | ⟨hs, hid, hr⟩ | ⟨ht, hr⟩ | hr | ⟨hs, name, hname, hr⟩
  · exact ⟨role, .inl ⟨h.platform hp, hr⟩, hperm⟩
  · -- the role may be gone, but each rung inherits what it has
    obtain ⟨p, hp, rfl⟩ := Option.map_eq_some_iff.mp hr
    obtain ⟨q, hq, hclimb⟩ := h.org p hp
    exact ⟨q.toRole, .inr (.inl ⟨hs, hid, by rw [hq]; rfl⟩), roleHasPermission_of_climb hclimb hperm⟩
  · rw [administersOwner, Bool.and_eq_true, Option.any_eq_true] at ht
    obtain ⟨hteam, team, hid, hadmin⟩ := ht
    rw [Bool.and_eq_true, decide_eq_true_eq, decide_eq_true_eq] at hadmin
    refine ⟨role, .inr (.inr (.inl ⟨?_, hr⟩)), hperm⟩
    simp [administersOwner, hteam, hid, hadmin.1, h.teams team hadmin.2]
  · exact ⟨role, .inr (.inr (.inr (.inl hr))), hperm⟩
  · exact ⟨role, .inr (.inr (.inr (.inr ⟨hs, name, h.grants name hname, hr⟩))), hperm⟩

/-- A member, and the same person made owner and release manager. -/
def promotedMember : ActorContext :=
  { principalType := .humanUser, principalId := "u", organizationId := some "o", authSource := .ui
    policyVersion := policyVersion, orgRole := some .member }

theorem can_promoted_owner :
    can { promotedMember with orgRole := some .orgOwner, roles := some ["release_manager"] }
      .agentRead ⟨.agent, "r", some "o", none, none, none, none⟩ = true := by
  refine can_promoted (a := promotedMember) ⟨rfl, rfl, nofun, ?_, nofun, nofun⟩ (by decide +kernel)
  rintro p ⟨⟩
  exact ⟨_, rfl, .tail (.single (by decide)) (by decide : Role.orgAdmin ∈ inherits .orgOwner)⟩

end AuthzKernel
