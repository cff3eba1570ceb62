import Cinatra.Authz.RunAccess

/-! # Containment — a run's policy inside its template's

    `visibilityContainedBy` is a case table over the forms of an audience, with
    lookups for the organisation of a team or a project and for the organisation
    a legacy `org` stands for.  An audience contained in another admits no one the
    other does not (`admits_of_contained`); the relation is transitive, and
    reflexive on what the lookups resolve. -/

namespace AuthzContainment

open AuthzKernel AuthzRunAccess

structure ContainmentLookups where
  teamOrg : String → Option String
  projectOrg : String → Option String
  resolveLegacyOrg : Option String

/-- A legacy `org` as the organisation it stands for; `none` is an unknown one. -/
def resolveLegacyOrgVisibility (lookups : ContainmentLookups) :
    AgentAuthPolicyVisibility → Option AgentAuthPolicyVisibility
  | .org =>
    match lookups.resolveLegacyOrg with
    | some id => if id ≠ "" then some (.orgId id) else none
    | none => none
  | v => some v

/-- What a `workspace` parent contains. -/
def belowWorkspace : AgentAuthPolicyVisibility → Bool
  | .workspace | .admin | .orgId _ | .team _ | .project _ => true
  | .owner | .org => false

/-- The scoped tier: an organisation, or a team or a project of one. -/
def scopedContainedBy (lookups : ContainmentLookups) :
    AgentAuthPolicyVisibility → AgentAuthPolicyVisibility → Bool
  | .orgId a, .orgId b => decide (a = b)
  | .team x, .team y => decide (x = y)
  | .team x, .orgId a => decide (lookups.teamOrg x = some a)
  | .project x, .project y => decide (x = y)
  | .project x, .orgId a => decide (lookups.projectOrg x = some a)
  -- an organisation under a team or a project, and every unknown shape
  | _, _ => false

/-- The case table, on two audiences that are no legacy `org`. -/
def literalContainedBy (lookups : ContainmentLookups) (cv pv : AgentAuthPolicyVisibility) : Bool :=
  if pv = .workspace then belowWorkspace cv
  -- admin is cross-organisation: contained in itself only
  else if cv = .admin then pv = .admin
  else if pv = .admin then false
  else scopedContainedBy lookups cv pv

def visibilityContainedBy (child parent : AgentAuthPolicyVisibility)
    (lookups : ContainmentLookups) : Bool :=
  if child = .owner then true
  else match resolveLegacyOrgVisibility lookups child, resolveLegacyOrgVisibility lookups parent with
  | some cv, some pv => literalContainedBy lookups cv pv
  | _, _ => false

inductive ContainmentField where
  | runListVisibility | runDataVisibility | runExecuteVisibility
deriving DecidableEq

def ContainmentField.of (policy : AgentAuthPolicy) : ContainmentField → AgentAuthPolicyVisibility
  | .runListVisibility => policy.runListVisibility
  | .runDataVisibility => policy.runDataVisibility
  | .runExecuteVisibility => policy.runExecuteVisibility

/-- The field that exceeds the parent's, with both values. -/
inductive ContainmentRejection where
  | visibility (field : ContainmentField) (child parent : AgentAuthPolicyVisibility)
  | allowRunSharing (child parent : Bool)
deriving DecidableEq

def checkField (child parent : AgentAuthPolicy) (lookups : ContainmentLookups)
    (field : ContainmentField) : Except ContainmentRejection Unit :=
  if visibilityContainedBy (field.of child) (field.of parent) lookups then .ok ()
  else .error (.visibility field (field.of child) (field.of parent))

def policyContainedBy (child parent : AgentAuthPolicy) (lookups : ContainmentLookups) :
    Except ContainmentRejection Unit := do
  checkField child parent lookups .runListVisibility
  checkField child parent lookups .runDataVisibility
  checkField child parent lookups .runExecuteVisibility
  if child.allowRunSharing && !parent.allowRunSharing then
    .error (.allowRunSharing child.allowRunSharing parent.allowRunSharing)
  else .ok ()

variable {lookups : ContainmentLookups} {child parent : AgentAuthPolicy}
  {u v w : AgentAuthPolicyVisibility}

private theorem checkField_ok {field : ContainmentField} :
    checkField child parent lookups field = .ok () ↔
      visibilityContainedBy (field.of child) (field.of parent) lookups = true := by
  rw [checkField]
  by_cases h : visibilityContainedBy (field.of child) (field.of parent) lookups = true
  · simp [h]
  · simp [h]

/-- **What `policyContainedBy` accepts**: every field contained, and no sharing that
    the parent forbids. -/
theorem policyContainedBy_ok : policyContainedBy child parent lookups = .ok () ↔
      (∀ field : ContainmentField,
        visibilityContainedBy (field.of child) (field.of parent) lookups = true) ∧
      (child.allowRunSharing = true → parent.allowRunSharing = true) := by
  have hall : (∀ field : ContainmentField,
        visibilityContainedBy (field.of child) (field.of parent) lookups = true) ↔
      checkField child parent lookups .runListVisibility = .ok () ∧
      checkField child parent lookups .runDataVisibility = .ok () ∧
      checkField child parent lookups .runExecuteVisibility = .ok () := by
    rw [checkField_ok, checkField_ok, checkField_ok]
    constructor
    · exact fun h => ⟨h _, h _, h _⟩
    · rintro ⟨hlist, hdata, hexecute⟩ field
      cases field with
      | runListVisibility => exact hlist
      | runDataVisibility => exact hdata
      | runExecuteVisibility => exact hexecute
  rw [hall, policyContainedBy]
  cases checkField child parent lookups .runListVisibility with
  | error err => simp [bind, Except.bind]
  | ok =>
    cases checkField child parent lookups .runDataVisibility with
    | error err => simp [bind, Except.bind]
    | ok =>
      cases checkField child parent lookups .runExecuteVisibility with
      | error err => simp [bind, Except.bind]
      | ok =>
        cases child.allowRunSharing <;> cases parent.allowRunSharing <;>
          simp [bind, Except.bind]

/-! ## Containment of actors -/

/-- The lookups agree with an actor's memberships, and the legacy organisation is the
    resource's. -/
structure Consistent (lookups : ContainmentLookups) (actor : ActorContext) (org : String) :
    Prop where
  team : ∀ t ∈ actor.teamIds.getD [], ∀ a, lookups.teamOrg t = some a →
    actor.organizationId = some a
  project : ∀ p ∈ actor.projectIds.getD [], ∀ a, lookups.projectOrg p = some a →
    actor.organizationId = some a
  legacy : ∀ a, lookups.resolveLegacyOrg = some a → a = org

variable {actor : ActorContext} {org : String}

/-- What a legacy `org` resolves to admits an actor of the organisation it stands for. -/
theorem admits_resolved (hactor : actor.organizationId = some org) (hlegacy : ∀ a,
      lookups.resolveLegacyOrg = some a → a = org)
    (h : resolveLegacyOrgVisibility lookups u = some v) : admits actor v = admits actor u := by
  cases u with
  | org =>
    rw [resolveLegacyOrgVisibility] at h
    cases hid : lookups.resolveLegacyOrg with
    | none =>
      rw [hid] at h
      cases h
    | some id =>
      rw [hid] at h
      simp only at h
      split at h
      · rw [← Option.some.inj h, hlegacy id hid]
        simp [admits, hactor]
      · cases h
  | owner | orgId | admin | workspace | team | project =>
    rw [← Option.some.inj h]

private theorem scopedContainedBy_cases (h : scopedContainedBy lookups u v = true) :
    u = v ∨ (∃ x a, u = .team x ∧ v = .orgId a ∧ lookups.teamOrg x = some a) ∨
      ∃ x a, u = .project x ∧ v = .orgId a ∧ lookups.projectOrg x = some a := by
  cases u <;> cases v <;> simp_all [scopedContainedBy]

private theorem admits_of_scoped
    (hcons : Consistent lookups actor org) (h : scopedContainedBy lookups u v = true)
    (hu : admits actor u = true) : admits actor v = true := by
  obtain rfl | ⟨x, a, rfl, rfl, hx⟩ | ⟨x, a, rfl, rfl, hx⟩ := scopedContainedBy_cases h
  · exact hu
  · exact decide_eq_true (hcons.team x (List.contains_iff_mem.mp hu) a hx)
  · exact decide_eq_true (hcons.project x (List.contains_iff_mem.mp hu) a hx)

private theorem admits_of_literal
    (hcons : Consistent lookups actor org) (h : literalContainedBy lookups u v = true)
    (hu : admits actor u = true) : admits actor v = true := by
  rw [literalContainedBy] at h
  split at h
  · rename_i hworkspace
    rw [hworkspace]
    rfl
  split at h
  · rename_i hadmin
    rw [hadmin] at hu
    cases hu
  · split at h
    · cases h
    · exact admits_of_scoped hcons h hu

/-- **A contained audience admits no one its parent does not.** -/
theorem admits_of_contained
    (hactor : actor.organizationId = some org) (hcons : Consistent lookups actor org)
    (h : visibilityContainedBy u v lookups = true) (hu : admits actor u = true) :
    admits actor v = true := by
  rw [visibilityContainedBy] at h
  split at h
  · rename_i howner
    rw [howner] at hu
    cases hu
  cases hcu : resolveLegacyOrgVisibility lookups u with
  | none =>
    rw [hcu] at h
    cases h
  | some cv =>
    cases hpv : resolveLegacyOrgVisibility lookups v with
    | none =>
      rw [hcu, hpv] at h
      cases h
    | some pv =>
      rw [hcu, hpv] at h
      rw [← admits_resolved hactor hcons.legacy hcu] at hu
      rw [← admits_resolved hactor hcons.legacy hpv]
      exact admits_of_literal hcons h hu

theorem policyAllows_of_contained {op : RunAccessOperation}
    (hactor : actor.organizationId = some org) (hcons : Consistent lookups actor org)
    (h : policyContainedBy child parent lookups = .ok ())
    (hchild : policyAllows child op actor = true) : policyAllows parent op actor = true := by
  obtain ⟨hfields, hsharing⟩ := policyContainedBy_ok.mp h
  rw [policyAllows] at hchild ⊢
  split
  · rfl
  rename_i hplat
  rw [if_neg hplat] at hchild
  have hmono : ∀ field : ContainmentField, admits actor (field.of child) = true →
      admits actor (field.of parent) = true :=
    fun field => admits_of_contained hactor hcons (hfields field)
  cases op with
  | list => exact hmono .runListVisibility hchild
  | read | editOutput => exact hmono .runDataVisibility hchild
  | execute | approveHitl | respondToHitl | cancel => exact hmono .runExecuteVisibility hchild
  | share =>
    simp only [visibilityFor] at hchild ⊢
    cases hs : child.allowRunSharing with
    | false =>
      rw [hs] at hchild
      cases hchild
    | true =>
      rw [hs] at hchild
      rw [hsharing hs]
      exact hmono .runDataVisibility hchild

/-! ## Containment as an order -/

/-- An audience the lookups resolve. -/
def Resolves (lookups : ContainmentLookups) (v : AgentAuthPolicyVisibility) : Prop :=
  v = .org → ∃ id, lookups.resolveLegacyOrg = some id ∧ id ≠ ""

theorem resolve_some (h : Resolves lookups v) :
    ∃ r, resolveLegacyOrgVisibility lookups v = some r ∧ r ≠ .org := by
  cases v with
  | org =>
    obtain ⟨id, hid, hne⟩ := h rfl
    refine ⟨.orgId id, ?_, fun hc => by cases hc⟩
    rw [resolveLegacyOrgVisibility, hid]
    simp [hne]
  | owner | orgId | admin | workspace | team | project =>
    exact ⟨_, rfl, fun hc => by cases hc⟩

theorem unresolved_contained (h : ¬ Resolves lookups .org) :
    visibilityContainedBy .org v lookups = false := by
  have hnone : resolveLegacyOrgVisibility lookups .org = none := by
    rw [resolveLegacyOrgVisibility]
    split
    · rename_i id hid
      rw [if_neg (fun hne => h (fun _ => ⟨id, hid, hne⟩))]
    · rfl
  rw [visibilityContainedBy, if_neg (by decide), hnone]

private theorem literal_refl (howner : v ≠ .owner) (horg : v ≠ .org) :
    literalContainedBy lookups v v = true := by
  cases v with
  | owner => exact absurd rfl howner
  | org => exact absurd rfl horg
  | orgId | admin | workspace | team | project => simp [literalContainedBy, belowWorkspace, scopedContainedBy]

private theorem resolved_owner (h : resolveLegacyOrgVisibility lookups u = some .owner) :
    u = .owner := by
  cases u with
  | org =>
    rw [resolveLegacyOrgVisibility] at h
    split at h
    · split at h
      · cases h
      · cases h
    · cases h
  | owner => rfl
  | orgId | admin | workspace | team | project => cases h

theorem visibilityContainedBy_refl (h : Resolves lookups v) :
    visibilityContainedBy v v lookups = true := by
  rw [visibilityContainedBy]
  split
  · rfl
  rename_i hne
  obtain ⟨r, hr, horg⟩ := resolve_some h
  rw [hr]
  refine literal_refl ?_ horg
  rintro rfl
  exact hne (resolved_owner hr)

private theorem literal_trans (hu : u ≠ .owner) (h₁ : literalContainedBy lookups u v = true)
    (h₂ : literalContainedBy lookups v w = true) : literalContainedBy lookups u w = true := by
  cases u <;> cases v <;> cases w <;> simp_all [literalContainedBy, belowWorkspace, scopedContainedBy]

private theorem literal_owner (h : literalContainedBy lookups u .owner = true) : False := by
  cases u <;> simp [literalContainedBy, scopedContainedBy] at h

theorem visibilityContainedBy_trans (h₁ : visibilityContainedBy u v lookups = true)
    (h₂ : visibilityContainedBy v w lookups = true) : visibilityContainedBy u w lookups = true := by
  rw [visibilityContainedBy] at h₁ h₂ ⊢
  split
  · rfl
  rename_i hu
  rw [if_neg hu] at h₁
  cases hru : resolveLegacyOrgVisibility lookups u with
  | none =>
    rw [hru] at h₁
    cases h₁
  | some ru =>
    cases hrv : resolveLegacyOrgVisibility lookups v with
    | none =>
      rw [hru, hrv] at h₁
      cases h₁
    | some rv =>
      rw [hru, hrv] at h₁
      have hv : v ≠ .owner := by
        rintro rfl
        rw [← Option.some.inj hrv] at h₁
        exact literal_owner h₁
      rw [if_neg hv, hrv] at h₂
      cases hrw : resolveLegacyOrgVisibility lookups w with
      | none =>
        rw [hrw] at h₂
        cases h₂
      | some rw' =>
        rw [hrw] at h₂
        refine literal_trans ?_ h₁ h₂
        rintro rfl
        exact hu (resolved_owner hru)

/-! ## The relation as a whole -/

/-- **Containment of policies is containment of actors**, and on audiences it is
    transitive, and reflexive where the lookups resolve; a legacy `org` they do not
    resolve is contained in nothing. -/
theorem containment :
    (∀ (child parent : AgentAuthPolicy) (lookups : ContainmentLookups) (actor : ActorContext)
        (org : String) (op : RunAccessOperation),
      actor.organizationId = some org → Consistent lookups actor org →
      policyContainedBy child parent lookups = .ok () →
      policyAllows child op actor = true → policyAllows parent op actor = true) ∧
    (∀ (lookups : ContainmentLookups) (v : AgentAuthPolicyVisibility), Resolves lookups v →
      visibilityContainedBy v v lookups = true) ∧
    (∀ (lookups : ContainmentLookups) (u v w : AgentAuthPolicyVisibility),
      visibilityContainedBy u v lookups = true → visibilityContainedBy v w lookups = true →
      visibilityContainedBy u w lookups = true) ∧
    ∀ (lookups : ContainmentLookups) (v : AgentAuthPolicyVisibility),
      ¬ Resolves lookups .org → visibilityContainedBy .org v lookups = false := by
  refine ⟨?_, ?_, ?_, ?_⟩
  · intro child parent lookups actor org op hactor hcons h hchild
    exact policyAllows_of_contained hactor hcons h hchild
  · exact fun lookups v h => visibilityContainedBy_refl h
  · exact fun lookups u v w h₁ h₂ => visibilityContainedBy_trans h₁ h₂
  · exact fun lookups v h => unresolved_contained h

/-- Lookups of a resource that has no organisation. -/
def noLookups : ContainmentLookups where
  teamOrg := fun _ => none
  projectOrg := fun _ => none
  resolveLegacyOrg := none

/-- A legacy `org` that stands for no organisation is not contained in itself. -/
theorem legacyOrg_not_reflexive :
    ¬ ∀ (lookups : ContainmentLookups) (v : AgentAuthPolicyVisibility),
      visibilityContainedBy v v lookups = true :=
  fun h => absurd (h noLookups .org) (by decide)

def teamLookups : ContainmentLookups where
  teamOrg := fun t => if t = "design" then some "acme" else none
  projectOrg := fun _ => none
  resolveLegacyOrg := some "acme"

def designer : ActorContext where
  principalType := .humanUser
  principalId := "grace"
  organizationId := some "acme"
  teamIds := some ["design"]
  authSource := .ui
  policyVersion := policyVersion

def teamPolicy : AgentAuthPolicy := ⟨.team "design", .team "design", .team "design", false⟩
def acmePolicy : AgentAuthPolicy := ⟨.orgId "acme", .org, .orgId "acme", false⟩

theorem consistent_designer : Consistent teamLookups designer "acme" := by
  refine ⟨?_, fun p hp => absurd hp List.not_mem_nil, fun a ha => (Option.some.inj ha).symm⟩
  intro t ht a ha
  rw [List.mem_singleton.mp ht] at ha
  exact ha

theorem containment_designer : policyAllows acmePolicy .execute designer = true ∧
      visibilityContainedBy .org .org teamLookups = true ∧
      visibilityContainedBy (.team "design") .workspace teamLookups = true ∧
      visibilityContainedBy .org .workspace noLookups = false :=
  ⟨containment.1 teamPolicy acmePolicy teamLookups designer "acme" .execute rfl
      consistent_designer (by decide) (by decide),
    containment.2.1 teamLookups .org (fun _ => ⟨"acme", rfl, by decide⟩),
    containment.2.2.1 teamLookups (.team "design") (.orgId "acme") .workspace (by decide)
      (by decide),
    containment.2.2.2 noLookups .workspace (fun h => nomatch (h rfl).choose_spec.1)⟩

end AuthzContainment
