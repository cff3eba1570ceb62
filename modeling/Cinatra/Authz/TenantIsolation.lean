import Cinatra.Authz.RunAccess

/-! # TenantIsolation — who is let into an organisation's resources

    The bridge puts an actor that carries no organisation into the resource's own,
    so the kernel's guard compares that organisation with itself.  The guard is as
    good as the envelope: the gates keep tenants apart for exactly the actors that
    carry an organisation, or whose roles need none (`isolated_iff`). -/

namespace AuthzTenantIsolation

open AuthzPermissions AuthzKernel AuthzActors AuthzResourceAccess AuthzRunAccess

variable {actor : PrimitiveActorContext} {hints : Option ActorRoleHints}
  {resource : ResourceForAccessCheck} {run : RunForAccessCheck} {op : Permission} {org : String}

/-- The platform role the gates take the actor to have. -/
def platformRole (actor : PrimitiveActorContext) (hints : Option ActorRoleHints) :
    Option PlatformRole :=
  (mergeHints hints (deriveRoleHints actor)).platformRole

/-- The organisation role the gates take the actor to have. -/
def orgRole (actor : PrimitiveActorContext) (hints : Option ActorRoleHints) : Option OrgRole :=
  (mergeHints hints (deriveRoleHints actor)).orgRole

/-- Neither platform admin, nor owner, nor co-owner, nor admin of the owning team. -/
structure Outsider (resource : ResourceForAccessCheck) (actor : PrimitiveActorContext)
    (hints : Option ActorRoleHints) : Prop where
  platform : platformRole actor hints ≠ some .platformAdmin
  owner : isOwner resource actor = false
  coOwner : isCoOwner resource actor = false
  teamOwner : isTeamOwner resource actor = false
  teamAdmin : administersOwner (gateActor resource actor hints) (resourceRef resource) = false

/-- The resource gate lets an outsider into the resources of its own organisation only. -/
def ResourcesIsolated (actor : PrimitiveActorContext) (hints : Option ActorRoleHints) : Prop :=
  ∀ (resource : ResourceForAccessCheck) (org : String) (op : Permission),
    resource.organizationId = some org → Outsider resource actor hints →
    enforceResourceAccess (some resource) (some actor) op hints = .ok () →
    ownOrg actor hints = some org

/-- The run gate lets an outsider into the runs of its own organisation only. -/
def RunsIsolated (actor : PrimitiveActorContext) (hints : Option ActorRoleHints) : Prop :=
  ∀ (run : RunForAccessCheck) (org : String) (op : RunAccessOperation),
    run.orgId = some org → platformRole actor hints ≠ some .platformAdmin →
    startedBy run actor = false → isRunCoOwner run actor = false →
    enforceRunAccess (some run) (some actor) op hints = .ok () →
    ownOrg actor hints = some org

/-- The actor carries an organisation, or no role that needs one. -/
def Anchored (actor : PrimitiveActorContext) (hints : Option ActorRoleHints) : Prop :=
  (ownOrg actor hints).isSome = true ∨
    (orgRole actor hints = none ∧ actor.actorType ≠ some .model ∧ actor.actorType ≠ some .a2a)

/-- The user of the envelope has an id, or the token is good for no run. -/
def Identified (actor : PrimitiveActorContext) : Prop :=
  actor.userId ≠ some "" ∨
    ∀ op : RunAccessOperation, scopesAllow actor.tokenScopes (operationPermission op) = false

private theorem syntheticRole_safeActor (actor : PrimitiveActorContext) :
    syntheticRole (principalTypeOf (safeActor actor).actorType) =
      syntheticRole (principalTypeOf actor.actorType) := by
  cases h : actor.actorType with
  | none => simp [safeActor, h, principalTypeOf, syntheticRole]
  | some t => simp [safeActor, h]

variable {r : Role}

/-- The roles the kernel gives an outsider come with its organisation. -/
theorem mem_roles_outsider (hout : Outsider resource actor hints)
    (h : r ∈ resolveRoles (gateActor resource actor hints) (resourceRef resource)) :
    (orgRole actor hints).map OrgRole.toRole = some r ∨
      syntheticRole (principalTypeOf actor.actorType) = some r := by
  rcases mem_resolveRoles.mp h with ⟨hp, _⟩ | ⟨_, _, ho⟩ | ⟨ht, _⟩ | ⟨_, hs⟩ | ⟨_, name, hn, _⟩
  · exact absurd hp hout.platform
  · exact .inl ho
  · rw [hout.teamAdmin] at ht
    cases ht
  · rw [← syntheticRole_safeActor]
    exact .inr hs
  · -- the gate forwards no names of role grants
    cases hn

theorem sameOrg_of_can (hout : Outsider resource actor hints)
    (horg : resource.organizationId = some org) (hown : ownOrg actor hints ≠ none)
    (h : can (gateActor resource actor hints) op (resourceRef resource) = true) :
    ownOrg actor hints = some org := by
  obtain ⟨hguard, _⟩ := can_iff.mp h
  rcases hguard with hnone | hsame | hplat
  · have hsome : (resourceRef resource).organizationId = some org := horg
    rw [hsome] at hnone
    cases hnone
  · rw [gateActor_organizationId] at hsame
    cases ho : ownOrg actor hints with
    | none => exact absurd ho hown
    | some o =>
      rw [ho] at hsame
      exact hsame.trans horg
  · exact absurd hplat hout.platform

/-- An anchored outsider the kernel lets in is of the resource's organisation. -/
theorem anchored_can (hanch : Anchored actor hints) (hout : Outsider resource actor hints)
    (horg : resource.organizationId = some org)
    (h : can (gateActor resource actor hints) op (resourceRef resource) = true) :
    ownOrg actor hints = some org := by
  rcases hanch with hown | ⟨hrole, hmodel, ha2a⟩
  · exact sameOrg_of_can hout horg (Option.isSome_iff_ne_none.mp hown) h
  obtain ⟨_, r, hr, _⟩ := can_iff.mp h
  rcases mem_roles_outsider hout hr with ho | hs
  · rw [hrole] at ho
    cases ho
  cases ht : actor.actorType with
  | none =>
    rw [ht] at hs
    cases hs
  | some t =>
    rw [ht] at hs hmodel ha2a
    cases t with
    | human | system => cases hs
    | model => exact absurd rfl hmodel
    | a2a => exact absurd rfl ha2a

/-! ## What an unanchored actor is let into -/

/-- A resource of an organisation that nobody in particular owns. -/
def sharedResource (org : String) : ResourceForAccessCheck where
  resourceType := .object
  resourceId := "shared"
  organizationId := some org
  ownerLevel := .organization
  ownerId := org

theorem outsider_shared (hplat : platformRole actor hints ≠ some .platformAdmin) :
    Outsider (sharedResource org) actor hints := by
  refine ⟨hplat, rfl, ?_, rfl, rfl⟩
  cases hu : actor.userId with
  | none | some => rw [isCoOwner, hu]; rfl

theorem exists_permission_of_role (h : (orgRole actor hints).map OrgRole.toRole = some r ∨
      syntheticRole (principalTypeOf actor.actorType) = some r) :
    ∃ op, roleHasPermission r op = true := by
  refine ⟨.runRead, ?_⟩
  rcases h with h | h
  · cases ho : orgRole actor hints with
    | none =>
      rw [ho] at h
      cases h
    | some o =>
      rw [ho] at h
      rw [← Option.some.inj h]
      cases o <;> decide
  · cases ht : principalTypeOf actor.actorType with
    | serviceAccount | externalA2AAgent =>
      rw [ht] at h
      rw [← Option.some.inj h]
      decide
    | humanUser | internalWorker | system =>
      rw [ht] at h
      cases h

/-- **An actor without an organisation is let into every organisation.** -/
theorem can_of_unanchored (hown : ownOrg actor hints = none) (hempty : org ≠ "")
    (hr : (orgRole actor hints).map OrgRole.toRole = some r ∨
      syntheticRole (principalTypeOf actor.actorType) = some r)
    (hop : roleHasPermission r op = true) :
    can (gateActor (sharedResource org) actor hints) op (resourceRef (sharedResource org)) =
      true := by
  have horg : (gateActor (sharedResource org) actor hints).organizationId =
      (resourceRef (sharedResource org)).organizationId := by
    rw [gateActor_organizationId, hown]
    rfl
  have hsame : sameOrg (gateActor (sharedResource org) actor hints)
      (resourceRef (sharedResource org)) = true := by
    rw [sameOrg, horg]
    simp [resourceRef, sharedResource]
  rw [can_iff]
  refine ⟨.inr (.inl horg), r, mem_resolveRoles.mpr ?_, hop⟩
  rcases hr with hr | hr
  · refine .inr (.inl ⟨hsame, ?_, hr⟩)
    intro h
    exact hempty (Option.some.inj h)
  · rw [← syntheticRole_safeActor] at hr
    exact .inr (.inr (.inr (.inl ⟨hsame, hr⟩)))

private theorem anchored_of_resourcesIsolated (h : ResourcesIsolated actor hints)
    (hplat : platformRole actor hints ≠ some .platformAdmin) : Anchored actor hints := by
  by_contra hanch
  rw [Anchored, not_or] at hanch
  have hown : ownOrg actor hints = none := by
    cases ho : ownOrg actor hints with
    | none => rfl
    | some o =>
      rw [ho] at hanch
      exact absurd rfl hanch.1
  have hrole : ∃ r, (orgRole actor hints).map OrgRole.toRole = some r ∨
      syntheticRole (principalTypeOf actor.actorType) = some r := by
    by_contra hno
    push Not at hno
    refine hanch.2 ⟨?_, ?_, ?_⟩
    · cases ho : orgRole actor hints with
      | none => rfl
      | some o =>
        rw [ho] at hno
        exact absurd rfl (hno o.toRole).1
    · intro hmodel
      rw [hmodel] at hno
      exact (hno .serviceAccount).2 rfl
    · intro ha2a
      rw [ha2a] at hno
      exact (hno .externalAgent).2 rfl
  obtain ⟨r, hr⟩ := hrole
  obtain ⟨op, hop⟩ := exists_permission_of_role hr
  have hcan := can_of_unanchored hown (show "org" ≠ "" by decide) hr hop
  have hlet : enforceResourceAccess (some (sharedResource "org")) (some actor) op hints = .ok () :=
    enforceResourceAccess_ok.mpr (.inr (.inr (.inr hcan)))
  have := h (sharedResource "org") "org" op rfl (outsider_shared hplat) hlet
  rw [hown] at this
  cases this

/-- A run nobody has started, in some organisation. -/
def unstartedRun (org : String) : RunForAccessCheck where
  id := "run"
  runBy := none
  orgId := some org

private theorem identified_of_runsIsolated (h : RunsIsolated actor hints)
    (hplat : platformRole actor hints ≠ some .platformAdmin) : Identified actor := by
  by_contra hid
  rw [Identified, not_or, not_not, not_forall] at hid
  obtain ⟨huser, op, hscopes⟩ := hid
  rw [Bool.not_eq_false] at hscopes
  have hstarted : ∀ o, startedBy (unstartedRun o) actor = false := by
    intro o
    rw [startedBy, huser]
    rfl
  have hco : ∀ o, isRunCoOwner (unstartedRun o) actor = false := by
    intro o
    rw [isRunCoOwner, huser]
    rfl
  -- the empty id is the owner of a run nobody has started
  have howner : ∀ o, isOwner (probe (unstartedRun o)) actor = true := by
    intro o
    rw [isOwner, huser]
    rfl
  have hlet : ∀ o, enforceRunAccess (some (unstartedRun o)) (some actor) op hints = .ok () := by
    intro o
    refine enforceRunAccess_ok.mpr (.inr (.inr ⟨?_, hscopes, rfl⟩))
    exact enforceResourceAccess_ok.mpr (.inl (howner o))
  have h₁ := h (unstartedRun "a") "a" op rfl hplat (hstarted "a") (hco "a") (hlet "a")
  have h₂ := h (unstartedRun "b") "b" op rfl hplat (hstarted "b") (hco "b") (hlet "b")
  rw [h₁] at h₂
  exact absurd (Option.some.inj h₂) (by decide)

/-! ## Isolation -/

theorem resourcesIsolated_of_anchored (hanch : Anchored actor hints) :
    ResourcesIsolated actor hints := by
  intro resource org op horg hout h
  rcases enforceResourceAccess_ok.mp h with h | ⟨h, _⟩ | h | h
  · rw [hout.owner] at h
    cases h
  · rw [hout.coOwner] at h
    cases h
  · rw [hout.teamOwner] at h
    cases h
  · exact anchored_can hanch hout horg h

theorem runsIsolated_of_anchored (hanch : Anchored actor hints) (hid : Identified actor) :
    RunsIsolated actor hints := by
  intro run org op horg hplat hstarted hco h
  rcases enforceRunAccess_ok.mp h with h | h | ⟨h, hscopes, _⟩
  · rw [hstarted] at h
    cases h
  · rw [hco] at h
    cases h
  have hnotOwner : isOwner (probe run) actor = false := by
    rw [Bool.eq_false_iff]
    intro howner
    have huser : actor.userId = some (run.runBy.getD "") :=
      of_decide_eq_true (Bool.and_eq_true_iff.mp howner).2
    rcases hid with hid | hid
    · cases hrun : run.runBy with
      | none =>
        rw [hrun] at huser
        exact hid huser
      | some u =>
        rw [hrun] at huser
        have hu : u ≠ "" := by
          rintro rfl
          exact hid huser
        rw [startedBy, huser, hrun] at hstarted
        simp [hu] at hstarted
    · rw [hid op] at hscopes
      cases hscopes
  have hnotCo : isCoOwner (probe run) actor = false := by
    cases hu : actor.userId with
    | none | some => rw [isCoOwner, hu]; rfl
  have hout : Outsider (probe run) actor hints := ⟨hplat, hnotOwner, hnotCo, rfl, rfl⟩
  exact resourcesIsolated_of_anchored hanch (probe run) org (operationPermission op) horg hout h

/-- **When tenants are kept apart.**  The two gates let an actor that is no platform
    admin into its own organisation's resources and runs only, ownership apart, if and
    only if the actor carries an organisation or no role that needs one, and does not
    come with an empty user id. -/
theorem isolated_iff (actor : PrimitiveActorContext) (hints : Option ActorRoleHints) :
    ResourcesIsolated actor hints ∧ RunsIsolated actor hints ↔
      platformRole actor hints = some .platformAdmin ∨
        (Anchored actor hints ∧ Identified actor) := by
  constructor
  · rintro ⟨hres, hruns⟩
    by_cases hplat : platformRole actor hints = some .platformAdmin
    · exact .inl hplat
    · exact .inr ⟨anchored_of_resourcesIsolated hres hplat,
        identified_of_runsIsolated hruns hplat⟩
  · rintro (hplat | ⟨hanch, hid⟩)
    · constructor
      · intro resource org op _ hout _
        exact absurd hplat hout.platform
      · intro run org op _ hnot _ _ _
        exact absurd hplat hnot
    · exact ⟨resourcesIsolated_of_anchored hanch, runsIsolated_of_anchored hanch hid⟩

/-- An MCP client that carries no organisation. -/
def organizationlessClient : PrimitiveActorContext where
  actorType := some .model
  source := some .mcp
  userId := some "visitor"

/-- A run of an organisation, started by one of its members. -/
def acmeRun : RunForAccessCheck where
  id := "run"
  runBy := some "member"
  orgId := some "acme"

theorem organizationlessClient_reads_run :
    enforceRunAccess (some acmeRun) (some organizationlessClient) .read none = .ok () ∧
      platformRole organizationlessClient none ≠ some .platformAdmin ∧
      startedBy acmeRun organizationlessClient = false ∧
      isRunCoOwner acmeRun organizationlessClient = false ∧
      ownOrg organizationlessClient none ≠ acmeRun.orgId ∧ acmeRun.orgId = some "acme" := by
  decide

end AuthzTenantIsolation
