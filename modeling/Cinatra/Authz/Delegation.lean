import Cinatra.Authz.Actors

/-! # Delegation — the authority a run keeps of the user that started it

    A run carries a snapshot of its user's identity; the actor rebuilt from it has
    no role the user had not, and team roles are left behind.  The detector of
    revocations compares project ids: it reports a project that is gone, and not
    one whose role was lowered. -/

namespace AuthzDelegation

open AuthzPermissions AuthzKernel AuthzActors

inductive SnapshotScopeLevel where
  | user | team | organization | workspace
deriving DecidableEq

structure OwnerScope where
  level : SnapshotScopeLevel
  recordId : String

/-- The snapshot on a run row, schema version 1. -/
structure DelegatedAgentRunSnapshot where
  v : Nat := 1
  ownerUserId : String
  organizationId : String
  ownerScope : OwnerScope
  projectGrants : List ProjectGrant
  teamIds : List String
  orgRole : Option OrgRole
  platformRole : Option PlatformRole
  roles : Option (List String)
  capturedAtIso : String

/-- `captureDelegatedActorSnapshot`, at an instant of that spelling. -/
def captureDelegatedActorSnapshot (actor : ActorContext) (nowIso : String) :
    Option DelegatedAgentRunSnapshot :=
  if actor.principalType ≠ .humanUser then none
  else match actor.organizationId with
  | none => none
  | some orgId =>
    if orgId = "" then none
    else
      let teamIds := actor.teamIds.getD []
      some {
        ownerUserId := actor.principalId
        organizationId := orgId
        ownerScope := match teamIds with
          | team :: _ => ⟨.team, team⟩
          | [] => ⟨.organization, orgId⟩
        projectGrants := actor.projectGrants.getD []
        teamIds := teamIds
        orgRole := actor.orgRole
        platformRole := actor.platformRole
        roles := if actor.roles.getD [] = [] then none else actor.roles
        capturedAtIso := nowIso }

/-- `reconstructActorFromSnapshot`; live grants replace those of the snapshot. -/
def reconstructActorFromSnapshot (snapshot : DelegatedAgentRunSnapshot)
    (liveGrants : Option (List ProjectGrant)) : ActorContext :=
  let grants := liveGrants.getD snapshot.projectGrants
  { principalType := .humanUser
    principalId := snapshot.ownerUserId
    authSource := .worker
    policyVersion := "v2"
    organizationId := some snapshot.organizationId
    orgRole := snapshot.orgRole
    platformRole := snapshot.platformRole
    teamIds := some snapshot.teamIds
    projectGrants := some grants
    projectIds := some (CodeUnits.jsSort (grants.map ProjectGrant.projectId))
    roles := if snapshot.roles.getD [] = [] then none else snapshot.roles }

/-- `detectRevokedGrants`. -/
def detectRevokedGrants (snapshot : DelegatedAgentRunSnapshot) (liveGrants : List ProjectGrant) :
    List String :=
  (snapshot.projectGrants.map ProjectGrant.projectId).filter (fun p =>
    !(liveGrants.map ProjectGrant.projectId).contains p)

variable {actor : ActorContext} {snapshot : DelegatedAgentRunSnapshot} {nowIso : String}

theorem capture_some (h : captureDelegatedActorSnapshot actor nowIso = some snapshot) :
    actor.principalType = .humanUser ∧ actor.organizationId = some snapshot.organizationId ∧
      snapshot.projectGrants = actor.projectGrants.getD [] ∧
      snapshot.orgRole = actor.orgRole ∧ snapshot.platformRole = actor.platformRole ∧
      snapshot.roles.getD [] = actor.roles.getD [] := by
  rw [captureDelegatedActorSnapshot] at h
  split at h
  · cases h
  rename_i hhuman
  cases horg : actor.organizationId with
  | none =>
    rw [horg] at h
    cases h
  | some orgId =>
    rw [horg] at h
    simp only at h
    split at h
    · cases h
    rw [← Option.some.inj h]
    refine ⟨not_not.mp hhuman, rfl, rfl, rfl, rfl, ?_⟩
    show (if actor.roles.getD [] = [] then none else actor.roles).getD [] = _
    split
    · rename_i hempty
      exact hempty.symm
    · rfl

theorem capture_isSome {org : String} (hhuman : actor.principalType = .humanUser)
    (horg : actor.organizationId = some org) (hne : org ≠ "") :
    ∃ snapshot, captureDelegatedActorSnapshot actor nowIso = some snapshot := by
  rw [captureDelegatedActorSnapshot, if_neg (not_not.mpr hhuman), horg]
  simp only [if_neg hne]
  exact ⟨_, rfl⟩

variable {resource : ResourceRef}

theorem rebuilt_roles (h : captureDelegatedActorSnapshot actor nowIso = some snapshot)
    (liveGrants : Option (List ProjectGrant)) {r : Role}
    (hr : r ∈ resolveRoles (reconstructActorFromSnapshot snapshot liveGrants) resource) :
    r ∈ resolveRoles actor resource := by
  obtain ⟨_, horg, _, horgRole, hplat, hroles⟩ := capture_some h
  have hsame : sameOrg (reconstructActorFromSnapshot snapshot liveGrants) resource =
      sameOrg actor resource := by
    rw [sameOrg, sameOrg, horg]
    rfl
  have hnames : (reconstructActorFromSnapshot snapshot liveGrants).roles.getD [] =
      actor.roles.getD [] := by
    rw [← hroles]
    show (if snapshot.roles.getD [] = [] then none else snapshot.roles).getD [] = _
    split
    · rename_i hempty
      exact hempty.symm
    · rfl
  rw [mem_resolveRoles] at hr ⊢
  rw [hsame, hnames] at hr
  rcases hr with ⟨hp, hr⟩ | ⟨hs, hne, ho⟩ | ⟨ht, _⟩ | ⟨_, hs⟩ | hgrants
  · refine .inl ⟨?_, hr⟩
    rw [← hplat]
    exact hp
  · refine .inr (.inl ⟨hs, hne, ?_⟩)
    rw [← horgRole]
    exact ho
  · -- team roles are not captured
    have hnone : administersOwner (reconstructActorFromSnapshot snapshot liveGrants) resource =
        false := by
      rw [administersOwner]
      cases resource.ownerId with
      | none => simp
      | some owner =>
        simp [ActorContext.teamRole, reconstructActorFromSnapshot]
    rw [hnone] at ht
    cases ht
  · cases hs
  · exact .inr (.inr (.inr (.inr hgrants)))

theorem rebuilt_can (h : captureDelegatedActorSnapshot actor nowIso = some snapshot)
    (liveGrants : Option (List ProjectGrant)) {action : Permission}
    (hcan : can (reconstructActorFromSnapshot snapshot liveGrants) action resource = true) :
    can actor action resource = true := by
  obtain ⟨_, horg, _, _, hplat, _⟩ := capture_some h
  exact can_mono horg.symm hplat (fun r hr => rebuilt_roles h liveGrants hr) hcan

/-! ## Revocation -/

/-- The detector is silent exactly when every project of the snapshot is still granted. -/
theorem detectRevokedGrants_nil {liveGrants : List ProjectGrant} :
    detectRevokedGrants snapshot liveGrants = [] ↔
      ∀ g ∈ snapshot.projectGrants, ∃ l ∈ liveGrants, l.projectId = g.projectId := by
  rw [detectRevokedGrants, List.filter_eq_nil_iff]
  constructor
  · intro h g hg
    have hin := h g.projectId (List.mem_map_of_mem hg)
    rw [Bool.not_eq_true', Bool.not_eq_false, List.contains_iff_mem] at hin
    exact List.mem_map.mp hin
  · intro h p hp
    obtain ⟨g, hg, rfl⟩ := List.mem_map.mp hp
    rw [Bool.not_eq_true', Bool.not_eq_false, List.contains_iff_mem]
    exact List.mem_map.mpr (h g hg)

def roleRank : ProjectRole → Nat
  | .read => 0
  | .write => 1
  | .admin => 2
  | .owner => 3

/-- The authority of a grant is covered by some live one. -/
def CoveredBy (g : ProjectGrant) (liveGrants : List ProjectGrant) : Prop :=
  ∃ l ∈ liveGrants, l.projectId = g.projectId ∧ roleRank g.effectiveRole ≤ roleRank l.effectiveRole

/-- **A delegated run has its user's authority and no more.**  The rebuilt actor is
    allowed only what the user is, under the user's project grants; a project that
    is no longer granted is reported, and only that. -/
theorem delegated_authority (actor : ActorContext) (org nowIso : String)
    (hhuman : actor.principalType = .humanUser) (horg : actor.organizationId = some org)
    (hne : org ≠ "") : ∃ snapshot, captureDelegatedActorSnapshot actor nowIso = some snapshot ∧
      (∀ (action : Permission) (resource : ResourceRef),
        can (reconstructActorFromSnapshot snapshot none) action resource = true →
        can actor action resource = true) ∧
      (reconstructActorFromSnapshot snapshot none).projectGrants =
        some (actor.projectGrants.getD []) ∧
      ∀ liveGrants, detectRevokedGrants snapshot liveGrants = [] ↔
        ∀ g ∈ actor.projectGrants.getD [], ∃ l ∈ liveGrants, l.projectId = g.projectId := by
  obtain ⟨snapshot, h⟩ : ∃ snapshot, captureDelegatedActorSnapshot actor nowIso = some snapshot :=
    capture_isSome hhuman horg hne
  obtain ⟨_, _, hgrants, _⟩ := capture_some h
  refine ⟨snapshot, h, ?_, ?_, ?_⟩
  · intro action resource hcan
    exact rebuilt_can h none hcan
  · rw [← hgrants]
    rfl
  · intro liveGrants
    rw [← hgrants]
    exact detectRevokedGrants_nil

/-- The owner of a project, in an organisation. -/
def projectOwner : ActorContext where
  principalType := .humanUser
  principalId := "ada"
  organizationId := some "acme"
  orgRole := some .member
  projectGrants := some [⟨"launch", .owner, .owner⟩]
  projectIds := some ["launch"]
  authSource := .ui
  policyVersion := policyVersion

theorem lowered_role_undetected :
    ∃ snapshot, captureDelegatedActorSnapshot projectOwner "now" = some snapshot ∧
      detectRevokedGrants snapshot [⟨"launch", .read, .user⟩] = [] ∧
      ∃ g ∈ snapshot.projectGrants, ¬ CoveredBy g [⟨"launch", .read, .user⟩] := by
  refine ⟨_, rfl, by decide, ⟨"launch", .owner, .owner⟩, List.mem_singleton.mpr rfl, ?_⟩
  rintro ⟨l, hl, _, hle⟩
  rw [List.mem_singleton.mp hl] at hle
  exact absurd hle (by decide)

theorem delegated_authority_owner :
    ∃ snapshot, captureDelegatedActorSnapshot projectOwner "now" = some snapshot ∧
      (∀ resource, can (reconstructActorFromSnapshot snapshot none) .agentRead resource = true →
        can projectOwner .agentRead resource = true) ∧
      (reconstructActorFromSnapshot snapshot none).projectGrants =
        some [⟨"launch", .owner, .owner⟩] ∧
      detectRevokedGrants snapshot [] ≠ [] := by
  obtain ⟨snapshot, h, hcan, hgrants, hrevoked⟩ :=
    delegated_authority projectOwner "acme" "now" rfl rfl (by decide)
  refine ⟨snapshot, h, hcan .agentRead, hgrants, fun hnone => ?_⟩
  obtain ⟨l, hl, -⟩ := (hrevoked []).mp hnone _ (.head _)
  cases hl

end AuthzDelegation
