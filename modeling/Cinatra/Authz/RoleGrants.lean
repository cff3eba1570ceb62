import Cinatra.Authz.Kernel

/-! # RoleGrants — roles granted at a scope, and where they act

    A grant is a row with a scope; the kernel is handed the bare names of the
    roles a user holds in an organisation.  So a role acts on every resource of
    the organisation, and grants stay in their scopes exactly when whatever a role
    adds is granted organisation-wide as well (`staysInScope_iff`). -/

namespace AuthzRoleGrants

open AuthzPermissions AuthzKernel

inductive GrantScopeLevel where
  | user | team | organization | workspace | project
deriving DecidableEq

/-- A row of `role_grant`; an instant is in milliseconds. -/
structure RoleGrantRow where
  subjectUserId : String
  role : String
  scopeLevel : GrantScopeLevel
  scopeRecordId : String
  orgId : String
  grantedBy : String
  grantedAt : Int
  expiresAt : Option Int

def readRoleGrantsForUser (rows : List RoleGrantRow) (now : Int) (userId orgId : String) :
    List RoleGrantRow :=
  rows.filter (fun r => r.subjectUserId = userId && r.orgId = orgId &&
    r.expiresAt.all (fun at_ => now < at_))

/-- The distinct role names, scope left aside. -/
def resolveEffectiveRoleNamesForUser (rows : List RoleGrantRow) (now : Int)
    (userId orgId : String) : List String :=
  ((readRoleGrantsForUser rows now userId orgId).map RoleGrantRow.role).eraseDups

/-! ## Scope -/

/-- A grant's scope covers a resource; `project` is the one the resource belongs to. -/
def Covers (g : RoleGrantRow) (resource : ResourceRef) (project : Option String) : Prop :=
  match g.scopeLevel with
  | .organization | .workspace => True
  | .user => resource.ownerType = some .user ∧ resource.ownerId = some g.scopeRecordId
  | .team => resource.ownerType = some .team ∧ resource.ownerId = some g.scopeRecordId
  | .project => project = some g.scopeRecordId

/-- The grant's role has the permission. -/
def Carries (g : RoleGrantRow) (action : Permission) : Prop :=
  ∃ role, knownRole g.role = some role ∧ roleHasPermission role action = true

def organizationWide (g : RoleGrantRow) : Prop :=
  g.scopeLevel = .organization ∨ g.scopeLevel = .workspace

/-- An actor with the roles its grants name. -/
def withRoles (actor : ActorContext) (names : List String) : ActorContext :=
  { actor with roles := some names }

def withoutRoles (actor : ActorContext) : ActorContext := { actor with roles := none }

/-- What grants add on a resource is added by a grant whose scope covers it. -/
def StaysInScope (rows : List RoleGrantRow) (now : Int) (userId org : String)
    (actor : ActorContext) : Prop :=
  ∀ (resource : ResourceRef) (project : Option String) (action : Permission),
    resource.organizationId = some org →
    can (withRoles actor (resolveEffectiveRoleNamesForUser rows now userId org)) action resource =
      true →
    can (withoutRoles actor) action resource = false →
    ∃ g ∈ readRoleGrantsForUser rows now userId org, Carries g action ∧ Covers g resource project

/-- A resource of an organisation that belongs to nobody in particular. -/
def orgRef (org : String) : ResourceRef where
  resourceType := .agent
  resourceId := "*"
  organizationId := some org

/-- The actor's own roles, wherever in its organisation. -/
def ownRoles (actor : ActorContext) (org : String) : List Role :=
  resolveRoles (withoutRoles actor) (orgRef org)

/-- Whatever a granted role adds to the actor's own is granted organisation-wide too. -/
def WideEnough (rows : List RoleGrantRow) (now : Int) (userId org : String)
    (actor : ActorContext) : Prop :=
  ∀ g ∈ readRoleGrantsForUser rows now userId org, ∀ action, Carries g action →
    (∃ role ∈ ownRoles actor org, roleHasPermission role action = true) ∨
      ∃ wide ∈ readRoleGrantsForUser rows now userId org,
        organizationWide wide ∧ Carries wide action

/-! ## Names and grants -/

section Grants

variable {rows : List RoleGrantRow} {now : Int} {userId org : String} {actor : ActorContext}
  {resource : ResourceRef} {action : Permission}

theorem mem_effectiveRoleNames {name : String} :
    name ∈ resolveEffectiveRoleNamesForUser rows now userId org ↔
      ∃ g ∈ readRoleGrantsForUser rows now userId org, g.role = name := by
  rw [resolveEffectiveRoleNamesForUser, List.mem_eraseDups, List.mem_map]

variable {r : Role}

theorem mem_rolesWith {names : List String} : r ∈ resolveRoles (withRoles actor names) resource ↔
      r ∈ resolveRoles (withoutRoles actor) resource ∨
        (sameOrg actor resource = true ∧ ∃ name ∈ names, knownRole name = some r) := by
  rw [mem_resolveRoles, mem_resolveRoles]
  have hnone : ∀ name, ¬ (name ∈ (withoutRoles actor).roles.getD [] ∧ knownRole name = some r) :=
    fun name h => absurd h.1 List.not_mem_nil
  have hnames : (withRoles actor names).roles.getD [] = names := rfl
  simp only [hnone, exists_false, and_false, or_false, hnames]
  simp only [or_assoc]
  exact Iff.rfl

theorem sameOrg_of_eq (hactor : actor.organizationId = some org)
    (horg : resource.organizationId = some org) : sameOrg actor resource = true := by
  rw [sameOrg, hactor, horg]
  simp

/-- A role the actor has on nobody's resource it has on every one of its organisation. -/
theorem ownRoles_subset (horg : resource.organizationId = some org)
    (h : r ∈ ownRoles actor org) : r ∈ resolveRoles (withoutRoles actor) resource := by
  have hsame : sameOrg (withoutRoles actor) (orgRef org) = sameOrg (withoutRoles actor) resource := by
    rw [sameOrg, sameOrg, horg]
    rfl
  rw [ownRoles, mem_resolveRoles] at h
  rw [mem_resolveRoles]
  rcases h with h | ⟨hs, hne, ho⟩ | ⟨ht, _⟩ | ⟨hs, hsyn⟩ | ⟨_, name, hn, _⟩
  · exact .inl h
  · rw [hsame] at hs
    rw [show (orgRef org).organizationId = resource.organizationId from horg.symm] at hne
    exact .inr (.inl ⟨hs, hne, ho⟩)
  · -- nobody's resource is no team's
    cases ht
  · rw [hsame] at hs
    exact .inr (.inr (.inr (.inl ⟨hs, hsyn⟩)))
  · cases hn

section

variable (hactor : actor.organizationId = some org)

include hactor

theorem can_of_role (horg : resource.organizationId = some org)
    (hr : r ∈ resolveRoles actor resource) (hp : roleHasPermission r action = true) :
    can actor action resource = true :=
  can_iff.mpr ⟨.inr (.inl (hactor.trans horg.symm)), r, hr, hp⟩

theorem staysInScope_of_wideEnough
    (h : WideEnough rows now userId org actor) : StaysInScope rows now userId org actor := by
  intro resource project action horg hwith hwithout
  obtain ⟨_, r, hr, hp⟩ := can_iff.mp hwith
  -- a role the actor has anyway would have been enough
  have hnot : ∀ r' ∈ resolveRoles (withoutRoles actor) resource,
      roleHasPermission r' action ≠ true := by
    intro r' hr' hp'
    have hcan : can (withoutRoles actor) action resource = true :=
      can_of_role hactor horg hr' hp'
    rw [hcan] at hwithout
    cases hwithout
  rcases mem_rolesWith.mp hr with hown | ⟨_, name, hname, hknown⟩
  · exact absurd hp (hnot r hown)
  obtain ⟨g, hg, rfl⟩ := mem_effectiveRoleNames.mp hname
  rcases h g hg action ⟨r, hknown, hp⟩ with ⟨r', hr', hp'⟩ | ⟨wide, hwide, hscope, hcarries⟩
  · exact absurd hp' (hnot r' (ownRoles_subset horg hr'))
  refine ⟨wide, hwide, hcarries, ?_⟩
  rw [Covers]
  rcases hscope with hs | hs
  · rw [hs]
    trivial
  · rw [hs]
    trivial

theorem wideEnough_of_staysInScope
    (h : StaysInScope rows now userId org actor) : WideEnough rows now userId org actor := by
  rintro g hg action ⟨r, hknown, hp⟩
  by_cases hown : ∃ role ∈ ownRoles actor org, roleHasPermission role action = true
  · exact .inl hown
  refine .inr ?_
  -- judged on a resource that belongs to nobody
  have hwith : can (withRoles actor (resolveEffectiveRoleNamesForUser rows now userId org)) action
      (orgRef org) = true := by
    have hr : r ∈ resolveRoles
        (withRoles actor (resolveEffectiveRoleNamesForUser rows now userId org)) (orgRef org) :=
      mem_rolesWith.mpr (.inr
        ⟨sameOrg_of_eq hactor rfl, g.role, mem_effectiveRoleNames.mpr ⟨g, hg, rfl⟩, hknown⟩)
    exact can_of_role hactor rfl hr hp
  have hwithout : can (withoutRoles actor) action (orgRef org) = false := by
    rw [Bool.eq_false_iff]
    intro hcan
    obtain ⟨_, role, hrole, hperm⟩ := can_iff.mp hcan
    exact hown ⟨role, hrole, hperm⟩
  obtain ⟨wide, hwide, hcarries, hcovers⟩ := h (orgRef org) none action rfl hwith hwithout
  refine ⟨wide, hwide, ?_, hcarries⟩
  rw [Covers] at hcovers
  cases hs : wide.scopeLevel with
  | organization => exact .inl hs
  | workspace => exact .inr hs
  | user | team =>
    rw [hs] at hcovers
    cases hcovers.1
  | project =>
    rw [hs] at hcovers
    cases hcovers

end

/-- **When grants stay in scope**, for an actor of the organisation. -/
theorem staysInScope_iff (hactor : actor.organizationId = some org) :
    StaysInScope rows now userId org actor ↔ WideEnough rows now userId org actor :=
  ⟨wideEnough_of_staysInScope hactor, staysInScope_of_wideEnough hactor⟩

end Grants

/-! ## A customer of one project -/

def customerGrant : RoleGrantRow where
  subjectUserId := "guest"
  role := "customer"
  scopeLevel := .project
  scopeRecordId := "launch"
  orgId := "acme"
  grantedBy := "owner"
  grantedAt := 0
  expiresAt := none

def guest : ActorContext where
  principalType := .humanUser
  principalId := "guest"
  organizationId := some "acme"
  authSource := .mcp
  policyVersion := policyVersion

/-- An agent of another project. -/
def otherAgent : ResourceRef where
  resourceType := .agent
  resourceId := "payroll"
  organizationId := some "acme"

theorem customer_reads_otherAgent :
    can (withRoles guest (resolveEffectiveRoleNamesForUser [customerGrant] 1 "guest" "acme"))
        .agentRead otherAgent = true ∧ can (withoutRoles guest) .agentRead otherAgent = false ∧
      ∀ g ∈ readRoleGrantsForUser [customerGrant] 1 "guest" "acme",
        ¬ Covers g otherAgent (some "finance") := by
  refine ⟨by decide, by decide, ?_⟩
  intro g hg
  have hrow : g = customerGrant :=
    List.mem_singleton.mp (List.mem_of_mem_filter hg)
  rw [hrow]
  exact fun h => absurd (Option.some.inj h) (by decide)

/-- The same role throughout the organisation. -/
def wideGrant : RoleGrantRow := { customerGrant with scopeLevel := .organization }

theorem staysInScope_iff_guest :
    StaysInScope [customerGrant, wideGrant] 1 "guest" "acme" guest := by
  have hlive : readRoleGrantsForUser [customerGrant, wideGrant] 1 "guest" "acme" =
      [customerGrant, wideGrant] := rfl
  refine (staysInScope_iff rfl).mpr fun g hg action hcarries => .inr ?_
  rw [hlive] at hg ⊢
  refine ⟨wideGrant, by simp, .inl rfl, ?_⟩
  rcases List.mem_pair.mp hg with rfl | rfl <;> exact hcarries

end AuthzRoleGrants
