import Cinatra.Authz.Containment

/-! # The scope picker — what the form offers of what the server accepts

    `filterAvailableScopesForParentPolicy` narrows the scopes a user may pick to
    those inside all three fields of a parent policy, by three sets of ids.  The
    server decides with `policyContainedBy`.  An offered team, project or
    `workspace` is accepted; an offered organisation is accepted or is the shell
    around an offered team.  The converse is narrower: a scope below an
    organisation is offered where every field names it, or (for a team) where
    every field names its organisation. -/

namespace AuthzScopePicker

open AuthzRunAccess AuthzContainment

structure Named where
  id : String
  name : String
deriving DecidableEq

structure ScopeOrg where
  id : String
  name : String
  teams : List Named
deriving DecidableEq

structure FilterableAvailableScopes where
  orgs : List ScopeOrg
  projects : List Named
  canGrantWorkspace : Bool

/-- What one field of the parent admits, each set as the list of its values. -/
structure Admitted where
  orgIds : List String := []
  teamIds : List String := []
  projectIds : List String := []
  admitAnyOrg : Bool := false
  admitWorkspace : Bool := false

/-- The organisation a legacy `org` stands for; an empty id stands for none. -/
def resolvedOrg : Option String → Option String
  | some id => if id ≠ "" then some id else none
  | none => none

def admitsFor (resolvedTemplateOrgId : Option String) : AgentAuthPolicyVisibility → Admitted
  | .workspace => { admitWorkspace := true }
  | .owner | .admin => {}
  | .org =>
    match resolvedOrg resolvedTemplateOrgId with
    | some id => { orgIds := [id] }
    -- an organisation nobody resolved: any is offered, and the server decides
    | none => { admitAnyOrg := true }
  | .orgId id => { orgIds := [id] }
  | .team id => { teamIds := [id] }
  | .project id => { projectIds := [id] }

/-- One step of the reduction: the field at position `fi.2` narrows the ids so far. -/
def narrow (getter : Admitted → List String) (acc : List String) (fi : Admitted × Nat) :
    List String :=
  if fi.1.admitWorkspace then acc
  else if fi.2 = 0 then getter fi.1
  else acc.filter fun x => (getter fi.1).contains x

def intersectSets (fields : List Admitted) (getter : Admitted → List String) : List String :=
  fields.zipIdx.foldl (narrow getter) []

def filteredOrg (admitAnyOrg : Bool) (admittedOrgIds admittedTeamIds : List String)
    (org : ScopeOrg) : Option ScopeOrg :=
  let orgAdmitted := admitAnyOrg || admittedOrgIds.contains org.id
  let filteredTeams := org.teams.filter fun team => admittedTeamIds.contains team.id
  if !orgAdmitted && filteredTeams.isEmpty then none
  -- an organisation that is not admitted is the shell around its admitted teams
  else some { org with teams := if orgAdmitted then org.teams else filteredTeams }

def parentFields (parentPolicy : AgentAuthPolicy) (resolvedTemplateOrgId : Option String) :
    List Admitted :=
  [admitsFor resolvedTemplateOrgId parentPolicy.runListVisibility,
    admitsFor resolvedTemplateOrgId parentPolicy.runDataVisibility,
    admitsFor resolvedTemplateOrgId parentPolicy.runExecuteVisibility]

def filterAvailableScopesForParentPolicy (scopes : FilterableAvailableScopes)
    (parentPolicy : AgentAuthPolicy) (resolvedTemplateOrgId : Option String) :
    FilterableAvailableScopes :=
  let fields := parentFields parentPolicy resolvedTemplateOrgId
  if fields.all (·.admitWorkspace) then scopes
  else
    let admittedOrgIds := intersectSets fields (·.orgIds)
    let admittedTeamIds := intersectSets fields (·.teamIds)
    let admittedProjectIds := intersectSets fields (·.projectIds)
    let admitAnyOrg := fields.all fun f => f.admitAnyOrg || f.admitWorkspace
    { orgs := scopes.orgs.filterMap (filteredOrg admitAnyOrg admittedOrgIds admittedTeamIds)
      projects := scopes.projects.filter fun p => admittedProjectIds.contains p.id
      canGrantWorkspace := false }

variable {parent : AgentAuthPolicy} {legacy : Option String}

/-- Past the first field, each field that is no `workspace` filters the ids by its own. -/
theorem mem_foldl_narrow (getter : Admitted → List String) (x : String) :
    ∀ (rest : List Admitted) (i : Nat) (acc : List String), 0 < i →
      (x ∈ (rest.zipIdx i).foldl (narrow getter) acc ↔
        x ∈ acc ∧ ∀ f ∈ rest, f.admitWorkspace = true ∨ x ∈ getter f) := by
  intro rest
  induction rest with
  | nil => intro i acc _; simp
  | cons f rest ih =>
    intro i acc hi
    rw [List.zipIdx_cons, List.foldl_cons, ih (i + 1) _ (by omega)]
    have hstep : x ∈ narrow getter acc (f, i) ↔
        x ∈ acc ∧ (f.admitWorkspace = true ∨ x ∈ getter f) := by
      rw [narrow]
      cases hw : f.admitWorkspace with
      | true => simp
      | false => simp [Nat.pos_iff_ne_zero.mp hi]
    rw [hstep, List.forall_mem_cons, and_assoc]

variable {getter : Admitted → List String} {x : String}

/-- A first field that is `workspace` leaves the reduction at its empty start. -/
theorem mem_intersectSets {f : Admitted} {rest : List Admitted} :
    x ∈ intersectSets (f :: rest) getter ↔ f.admitWorkspace = false ∧ x ∈ getter f ∧
        ∀ g ∈ rest, g.admitWorkspace = true ∨ x ∈ getter g := by
  rw [intersectSets, List.zipIdx_cons, List.foldl_cons,
    mem_foldl_narrow getter x rest (0 + 1) _ (Nat.succ_pos 0), narrow]
  cases hw : f.admitWorkspace with
  | true | false => simp

/-! ## What the fields admit -/

/-- Every field of the parent is `workspace` or exactly the audience `v`. -/
def Names (parent : AgentAuthPolicy) (v : AgentAuthPolicyVisibility) : Prop :=
  ∀ field : ContainmentField, field.of parent = .workspace ∨ field.of parent = v

instance (parent : AgentAuthPolicy) (v : AgentAuthPolicyVisibility) : Decidable (Names parent v) :=
  decidable_of_iff
    ((parent.runListVisibility = .workspace ∨ parent.runListVisibility = v) ∧
      (parent.runDataVisibility = .workspace ∨ parent.runDataVisibility = v) ∧
      (parent.runExecuteVisibility = .workspace ∨ parent.runExecuteVisibility = v))
    ⟨fun h field => match field with
      | .runListVisibility => h.1
      | .runDataVisibility => h.2.1
      | .runExecuteVisibility => h.2.2,
    fun h => ⟨h .runListVisibility, h .runDataVisibility, h .runExecuteVisibility⟩⟩

/-- The first field narrows, unless none does. -/
def ListNarrows (parent : AgentAuthPolicy) : Prop :=
  parent.runListVisibility = .workspace → ∀ field : ContainmentField, field.of parent = .workspace

abbrev AllWorkspace (parent : AgentAuthPolicy) : Prop :=
  ∀ field : ContainmentField, field.of parent = .workspace

theorem forall_field {P : ContainmentField → Prop} :
    (∀ field, P field) ↔ P .runListVisibility ∧ P .runDataVisibility ∧ P .runExecuteVisibility := by
  constructor
  · exact fun h => ⟨h _, h _, h _⟩
  · rintro ⟨hlist, hdata, hexecute⟩ field
    cases field with
    | runListVisibility => exact hlist
    | runDataVisibility => exact hdata
    | runExecuteVisibility => exact hexecute

variable {v : AgentAuthPolicyVisibility}

theorem admitWorkspace_iff : (admitsFor legacy v).admitWorkspace = true ↔ v = .workspace := by
  cases v with
  | org =>
    rw [admitsFor]
    cases resolvedOrg legacy <;> simp
  | owner | orgId | admin | workspace | team | project => simp [admitsFor]

variable {t : String}

theorem mem_teamIds : t ∈ (admitsFor legacy v).teamIds ↔ v = .team t := by
  cases v with
  | org =>
    rw [admitsFor]
    cases resolvedOrg legacy <;> simp
  | owner | orgId | admin | workspace | team | project => simp [admitsFor, eq_comm]

variable {p : String}

theorem mem_projectIds : p ∈ (admitsFor legacy v).projectIds ↔ v = .project p := by
  cases v with
  | org =>
    rw [admitsFor]
    cases resolvedOrg legacy <;> simp
  | owner | orgId | admin | workspace | team | project => simp [admitsFor, eq_comm]

variable {a : String}

theorem mem_orgIds :
    a ∈ (admitsFor legacy v).orgIds ↔ v = .orgId a ∨ (v = .org ∧ resolvedOrg legacy = some a) := by
  cases v with
  | org =>
    rw [admitsFor]
    cases resolvedOrg legacy <;> simp [eq_comm]
  | owner | orgId | admin | workspace | team | project => simp [admitsFor, eq_comm]

theorem admitAnyOrg_iff :
    (admitsFor legacy v).admitAnyOrg = true ↔ v = .org ∧ resolvedOrg legacy = none := by
  cases v with
  | org =>
    rw [admitsFor]
    cases resolvedOrg legacy <;> simp
  | owner | orgId | admin | workspace | team | project => simp [admitsFor]

/-- Where the first field narrows, the reduction keeps the ids that every field which is
    no `workspace` admits. -/
theorem mem_intersect (hnarrows : ListNarrows parent) (hall : ¬ AllWorkspace parent) :
    x ∈ intersectSets (parentFields parent legacy) getter ↔ ∀ field : ContainmentField,
        field.of parent = .workspace ∨ x ∈ getter (admitsFor legacy (field.of parent)) := by
  have hlist : parent.runListVisibility ≠ .workspace := fun h => hall (hnarrows h)
  have hfalse : (admitsFor legacy parent.runListVisibility).admitWorkspace = false := by
    rw [Bool.eq_false_iff]
    exact fun h => hlist (admitWorkspace_iff.mp h)
  rw [parentFields, mem_intersectSets, forall_field]
  simp only [List.forall_mem_cons, List.not_mem_nil, false_implies, implies_true, and_true,
    admitWorkspace_iff, ContainmentField.of, hfalse, true_and, hlist, false_or]

/-- What the reduction keeps is in every field that is no `workspace`, and the first
    field is none. -/
theorem of_mem_intersect (h : x ∈ intersectSets (parentFields parent legacy) getter) :
    ∀ field : ContainmentField,
      field.of parent = .workspace ∨ x ∈ getter (admitsFor legacy (field.of parent)) := by
  rw [parentFields, mem_intersectSets] at h
  obtain ⟨_, hlist, hrest⟩ := h
  rw [forall_field]
  refine ⟨.inr hlist, ?_, ?_⟩
  · exact (hrest _ (.head _)).imp_left admitWorkspace_iff.mp
  · exact (hrest _ (.tail _ (.head _))).imp_left admitWorkspace_iff.mp

/-! ## The options of a picker -/

/-- One entry of the dropdown. -/
inductive ScopeOption where
  | org (id : String)
  | team (id : String)
  | project (id : String)
  | workspace

/-- The value the form stores in all three fields for an entry. -/
def ScopeOption.visibility : ScopeOption → AgentAuthPolicyVisibility
  | .org id => .orgId id
  | .team id => .team id
  | .project id => .project id
  | .workspace => .workspace

def Offers (scopes : FilterableAvailableScopes) : ScopeOption → Prop
  | .org id => ∃ o ∈ scopes.orgs, o.id = id
  | .team id => ∃ o ∈ scopes.orgs, ∃ t ∈ o.teams, t.id = id
  | .project id => ∃ p ∈ scopes.projects, p.id = id
  | .workspace => scopes.canGrantWorkspace = true

instance (scopes : FilterableAvailableScopes) : DecidablePred (Offers scopes)
  | .org _ => inferInstanceAs (Decidable (∃ o ∈ scopes.orgs, _))
  | .team _ => inferInstanceAs (Decidable (∃ o ∈ scopes.orgs, ∃ t ∈ o.teams, _))
  | .project _ => inferInstanceAs (Decidable (∃ p ∈ scopes.projects, _))
  | .workspace => inferInstanceAs (Decidable (_ = true))

/-- The scopes of a user with the organisation of each: an organisation is listed once,
    and a team belongs to one organisation. -/
structure Catalogue where
  scopes : FilterableAvailableScopes
  projectOrg : String → Option String
  orgs_unique : ∀ o ∈ scopes.orgs, ∀ o' ∈ scopes.orgs, o.id = o'.id → o = o'
  teams_unique : ∀ o ∈ scopes.orgs, ∀ o' ∈ scopes.orgs, ∀ t ∈ o.teams, ∀ t' ∈ o'.teams,
    t.id = t'.id → o = o'

def Catalogue.teamOrg (c : Catalogue) (team : String) : Option String :=
  (c.scopes.orgs.find? fun o => o.teams.any fun t => t.id = team).map (·.id)

def Catalogue.lookups (c : Catalogue) (resolvedTemplateOrgId : Option String) :
    ContainmentLookups where
  teamOrg := c.teamOrg
  projectOrg := c.projectOrg
  resolveLegacyOrg := resolvedTemplateOrgId

/-- The policy the form submits: one audience in every field. -/
def lockstep (v : AgentAuthPolicyVisibility) : AgentAuthPolicy := ⟨v, v, v, false⟩

/-- The server accepts the policy of an option under this parent. -/
def Accepted (c : Catalogue) (parent : AgentAuthPolicy) (resolvedTemplateOrgId : Option String)
    (v : AgentAuthPolicyVisibility) : Prop :=
  policyContainedBy (lockstep v) parent (c.lookups resolvedTemplateOrgId) = .ok ()

/-- Every field is `workspace` or a legacy `org` that nobody resolved. -/
def FailOpen (parent : AgentAuthPolicy) (resolvedTemplateOrgId : Option String) : Prop :=
  ∀ field : ContainmentField, field.of parent = .workspace ∨
    (field.of parent = .org ∧ resolvedOrg resolvedTemplateOrgId = none)

variable {c : Catalogue}

variable {o : ScopeOrg}

theorem teamOrg_of_mem {t : Named} (ho : o ∈ c.scopes.orgs) (ht : t ∈ o.teams) :
    c.teamOrg t.id = some o.id := by
  rw [Catalogue.teamOrg]
  cases hfind : c.scopes.orgs.find? fun o => o.teams.any fun u => u.id = t.id with
  | none =>
    have := List.find?_eq_none.mp hfind o ho
    simp only [List.any_eq_true, decide_eq_true_eq, not_exists, not_and] at this
    exact absurd rfl (this t ht)
  | some o' =>
    have hany := List.find?_some hfind
    simp only [List.any_eq_true, decide_eq_true_eq] at hany
    obtain ⟨u, hu, hid⟩ := hany
    rw [c.teams_unique o' (List.mem_of_find?_eq_some hfind) o ho u hu t ht hid]
    rfl

/-! ## What the server accepts -/

theorem accepted_iff : Accepted c parent legacy v ↔ ∀ field : ContainmentField,
      visibilityContainedBy v (field.of parent) (c.lookups legacy) = true := by
  rw [Accepted, policyContainedBy_ok]
  constructor
  · rintro ⟨hfields, _⟩ field
    have := hfields field
    cases field <;> exact this
  · intro h
    refine ⟨fun field => ?_, fun hc => by cases hc⟩
    have := h field
    cases field <;> exact this

theorem resolve_org : resolveLegacyOrgVisibility (c.lookups legacy) .org =
    (resolvedOrg legacy).map .orgId := by
  rw [resolveLegacyOrgVisibility, Catalogue.lookups]
  cases legacy with
  | none => rfl
  | some id =>
    by_cases hid : id = ""
    · simp [resolvedOrg, hid]
    · simp [resolvedOrg, hid]

theorem contained_orgId : visibilityContainedBy (.orgId a) v (c.lookups legacy) = true ↔
      v = .workspace ∨ v = .orgId a ∨ (v = .org ∧ resolvedOrg legacy = some a) := by
  cases v with
  | org =>
    rw [visibilityContainedBy, resolve_org]
    cases hl : resolvedOrg legacy <;>
      simp [resolveLegacyOrgVisibility, literalContainedBy, scopedContainedBy, eq_comm]
  | owner | orgId | admin | workspace | team | project =>
    simp [visibilityContainedBy, resolveLegacyOrgVisibility, literalContainedBy,
      belowWorkspace, scopedContainedBy, eq_comm]

theorem contained_workspace :
    visibilityContainedBy .workspace v (c.lookups legacy) = true ↔ v = .workspace := by
  cases v with
  | org =>
    rw [visibilityContainedBy, resolve_org]
    cases hl : resolvedOrg legacy <;>
      simp [resolveLegacyOrgVisibility, literalContainedBy, scopedContainedBy]
  | owner | orgId | admin | workspace | team | project =>
    simp [visibilityContainedBy, resolveLegacyOrgVisibility, literalContainedBy,
      belowWorkspace, scopedContainedBy]

/-- A scope below an organisation is contained in `workspace` and in itself. -/
theorem accepted_of_names (hself : visibilityContainedBy v v (c.lookups legacy) = true)
    (hwide : visibilityContainedBy v .workspace (c.lookups legacy) = true)
    (h : Names parent v) : Accepted c parent legacy v := by
  rw [accepted_iff]
  intro field
  rcases h field with hf | hf
  · rw [hf]
    exact hwide
  · rw [hf]
    exact hself

theorem accepted_team_of_org {t : Named} (ho : o ∈ c.scopes.orgs)
    (ht : t ∈ o.teams) (h : Accepted c parent legacy (.orgId o.id)) :
    Accepted c parent legacy (.team t.id) := by
  rw [accepted_iff] at h ⊢
  intro field
  refine visibilityContainedBy_trans ?_ (h field)
  simp [visibilityContainedBy, resolveLegacyOrgVisibility, literalContainedBy, scopedContainedBy,
    Catalogue.lookups, teamOrg_of_mem ho ht]

/-! ## What the picker keeps -/

/-- The organisation is admitted itself, and not only as a shell. -/
def OrgAdmitted (parent : AgentAuthPolicy) (resolvedTemplateOrgId : Option String)
    (org : String) : Prop :=
  (parentFields parent resolvedTemplateOrgId).all
      (fun f => f.admitAnyOrg || f.admitWorkspace) = true ∨
    org ∈ intersectSets (parentFields parent resolvedTemplateOrgId) (·.orgIds)

theorem all_workspace_iff : (parentFields parent legacy).all (·.admitWorkspace) = true ↔
      AllWorkspace parent := by
  rw [AllWorkspace, forall_field, parentFields]
  simp only [List.all_cons, List.all_nil, Bool.and_true, Bool.and_eq_true, admitWorkspace_iff,
    ContainmentField.of]

theorem failOpen_iff :
    (parentFields parent legacy).all (fun f => f.admitAnyOrg || f.admitWorkspace) = true ↔
      FailOpen parent legacy := by
  rw [FailOpen, forall_field, parentFields]
  simp only [List.all_cons, List.all_nil, Bool.and_true, Bool.and_eq_true, Bool.or_eq_true,
    admitWorkspace_iff, admitAnyOrg_iff, ContainmentField.of, or_comm]

/-- An organisation is kept with all its teams, or as the shell around the admitted ones. -/
theorem filteredOrg_some {anyOrg : Bool} {orgIds teamIds : List String} {org kept : ScopeOrg} :
    filteredOrg anyOrg orgIds teamIds org = some kept ↔
      ((anyOrg = true ∨ org.id ∈ orgIds) ∧ kept = org) ∨
      (¬ (anyOrg = true ∨ org.id ∈ orgIds) ∧ (∃ t ∈ org.teams, t.id ∈ teamIds) ∧
        kept = { org with teams := org.teams.filter fun t => teamIds.contains t.id }) := by
  have hadmitted : (anyOrg || orgIds.contains org.id) = true ↔ (anyOrg = true ∨ org.id ∈ orgIds) := by
    simp
  rw [← hadmitted]
  have hempty : (org.teams.filter fun t => teamIds.contains t.id).isEmpty = false ↔
      ∃ t ∈ org.teams, t.id ∈ teamIds := by
    simp [List.filter_eq_nil_iff]
  rw [← hempty, filteredOrg]
  cases anyOrg || orgIds.contains org.id with
  | true =>
    constructor
    · exact fun h => .inl ⟨rfl, (Option.some.inj h).symm⟩
    · rintro (⟨_, rfl⟩ | ⟨hc, _⟩)
      · rfl
      · exact absurd rfl hc
  | false =>
    cases (org.teams.filter fun t => teamIds.contains t.id).isEmpty with
    | true => simp
    | false =>
      constructor
      · exact fun h => .inr ⟨Bool.false_ne_true, rfl, (Option.some.inj h).symm⟩
      · rintro (⟨hc, _⟩ | ⟨_, _, rfl⟩)
        · cases hc
        · rfl

variable (c : Catalogue)

/-- The options kept under a parent that is not `workspace` throughout. -/
theorem offers_filter (hall : ¬ AllWorkspace parent)
    (opt : ScopeOption) :
    Offers (filterAvailableScopesForParentPolicy c.scopes parent legacy) opt ↔
      match opt with
      | .org id => ∃ o ∈ c.scopes.orgs, o.id = id ∧ (OrgAdmitted parent legacy id ∨
          ∃ t ∈ o.teams, t.id ∈ intersectSets (parentFields parent legacy) (·.teamIds))
      | .team id => ∃ o ∈ c.scopes.orgs, ∃ t ∈ o.teams, t.id = id ∧
          (OrgAdmitted parent legacy o.id ∨
            id ∈ intersectSets (parentFields parent legacy) (·.teamIds))
      | .project id => ∃ p ∈ c.scopes.projects, p.id = id ∧
          id ∈ intersectSets (parentFields parent legacy) (·.projectIds)
      | .workspace => False := by
  have hsome : ¬ (parentFields parent legacy).all (·.admitWorkspace) = true :=
    fun h => hall (all_workspace_iff.mp h)
  rw [filterAvailableScopesForParentPolicy, if_neg hsome]
  cases opt with
  | workspace => simp [Offers]
  | project id =>
    simp only [Offers, List.mem_filter, List.contains_iff_mem]
    constructor
    · rintro ⟨p, ⟨hp, hid⟩, rfl⟩
      exact ⟨p, hp, rfl, hid⟩
    · rintro ⟨p, hp, rfl, hid⟩
      exact ⟨p, ⟨hp, hid⟩, rfl⟩
  | org id =>
    simp only [Offers, List.mem_filterMap, filteredOrg_some]
    constructor
    · rintro ⟨kept, ⟨o, ho, ⟨hadm, rfl⟩ | ⟨_, hteams, rfl⟩⟩, rfl⟩
      · exact ⟨kept, ho, rfl, .inl hadm⟩
      · exact ⟨o, ho, rfl, .inr hteams⟩
    · rintro ⟨o, ho, rfl, hkept⟩
      by_cases hadm : OrgAdmitted parent legacy o.id
      · exact ⟨o, ⟨o, ho, .inl ⟨hadm, rfl⟩⟩, rfl⟩
      · exact ⟨_, ⟨o, ho, .inr ⟨hadm, hkept.resolve_left hadm, rfl⟩⟩, rfl⟩
  | team id =>
    simp only [Offers, List.mem_filterMap, filteredOrg_some]
    constructor
    · rintro ⟨kept, ⟨o, ho, ⟨hadm, rfl⟩ | ⟨_, hteams, rfl⟩⟩, t, ht, rfl⟩
      · exact ⟨kept, ho, t, ht, rfl, .inl hadm⟩
      · obtain ⟨hmem, hid⟩ := List.mem_filter.mp ht
        exact ⟨o, ho, t, hmem, rfl, .inr (List.contains_iff_mem.mp hid)⟩
    · rintro ⟨o, ho, t, ht, rfl, hkept⟩
      by_cases hadm : OrgAdmitted parent legacy o.id
      · exact ⟨o, ⟨o, ho, .inl ⟨hadm, rfl⟩⟩, t, ht, rfl⟩
      · have hid := hkept.resolve_left hadm
        refine ⟨_, ⟨o, ho, .inr ⟨hadm, ⟨t, ht, hid⟩, rfl⟩⟩, t, ?_, rfl⟩
        exact List.mem_filter.mpr ⟨ht, List.contains_iff_mem.mpr hid⟩

variable {c} {org : String}

theorem orgAdmitted_iff (hnarrows : ListNarrows parent) (hall : ¬ AllWorkspace parent) :
    OrgAdmitted parent legacy org ↔ FailOpen parent legacy ∨ Accepted c parent legacy (.orgId org) := by
  rw [OrgAdmitted, failOpen_iff, mem_intersect hnarrows hall, accepted_iff]
  simp only [mem_orgIds, contained_orgId]

theorem accepted_of_orgAdmitted (h : OrgAdmitted parent legacy org) :
    FailOpen parent legacy ∨ Accepted c parent legacy (.orgId org) := by
  rcases h with hopen | hmem
  · exact .inl (failOpen_iff.mp hopen)
  · refine .inr (accepted_iff.mpr fun field => contained_orgId.mpr ?_)
    exact (of_mem_intersect hmem field).imp_right mem_orgIds.mp

theorem names_team
    (h : t ∈ intersectSets (parentFields parent legacy) (·.teamIds)) : Names parent (.team t) :=
  fun field => (of_mem_intersect h field).imp_right mem_teamIds.mp

theorem names_project (h : p ∈ intersectSets (parentFields parent legacy) (·.projectIds)) :
    Names parent (.project p) :=
  fun field => (of_mem_intersect h field).imp_right mem_projectIds.mp

/-- Under a parent that is `workspace` throughout, every option is accepted. -/
theorem accepted_of_all (hall : AllWorkspace parent)
    (opt : ScopeOption) : Accepted c parent legacy opt.visibility := by
  rw [accepted_iff]
  intro field
  rw [hall field]
  cases opt <;> rfl

theorem accepted_team (h : Names parent (.team t)) : Accepted c parent legacy (.team t) := by
  refine accepted_of_names ?_ rfl h
  simp [visibilityContainedBy, resolveLegacyOrgVisibility, literalContainedBy, scopedContainedBy]

theorem accepted_project (h : Names parent (.project p)) :
    Accepted c parent legacy (.project p) := by
  refine accepted_of_names ?_ rfl h
  simp [visibilityContainedBy, resolveLegacyOrgVisibility, literalContainedBy, scopedContainedBy]

/-! ## The picker against the server -/

/-- The options that are left of a user's scopes under a parent policy. -/
def Keeps (c : Catalogue) (parent : AgentAuthPolicy) (resolvedTemplateOrgId : Option String)
    (opt : ScopeOption) : Prop :=
  Offers (filterAvailableScopesForParentPolicy c.scopes parent resolvedTemplateOrgId) opt

instance (c : Catalogue) (parent : AgentAuthPolicy) (legacy : Option String) :
    DecidablePred (Keeps c parent legacy) :=
  fun opt => inferInstanceAs (Decidable (Offers _ opt))

instance (c : Catalogue) (parent : AgentAuthPolicy) (legacy : Option String) :
    DecidablePred (Accepted c parent legacy) :=
  fun _ => inferInstanceAs (Decidable (_ = _))

theorem keeps_of_all (hall : AllWorkspace parent)
    (opt : ScopeOption) : Keeps c parent legacy opt ↔ Offers c.scopes opt := by
  rw [Keeps, filterAvailableScopesForParentPolicy, if_pos (all_workspace_iff.mpr hall)]

theorem keeps_org (hnarrows : ListNarrows parent) (ho : o ∈ c.scopes.orgs) :
    Keeps c parent legacy (.org o.id) ↔
      Accepted c parent legacy (.orgId o.id) ∨ FailOpen parent legacy ∨
        ∃ t ∈ o.teams, Names parent (.team t.id) := by
  by_cases hall : AllWorkspace parent
  · rw [keeps_of_all hall]
    exact ⟨fun _ => .inl (accepted_of_all hall (.org o.id)), fun _ => ⟨o, ho, rfl⟩⟩
  rw [Keeps, offers_filter c hall]
  simp only [orgAdmitted_iff (c := c) hnarrows hall, mem_intersect hnarrows hall, mem_teamIds]
  constructor
  · rintro ⟨o', ho', hid, (hopen | haccepted) | hteam⟩
    · exact .inr (.inl hopen)
    · exact .inl haccepted
    · rw [← c.orgs_unique o' ho' o ho hid]
      exact .inr (.inr hteam)
  · rintro (haccepted | hopen | hteam)
    · exact ⟨o, ho, rfl, .inl (.inr haccepted)⟩
    · exact ⟨o, ho, rfl, .inl (.inl hopen)⟩
    · exact ⟨o, ho, rfl, .inr hteam⟩

theorem keeps_team (hnarrows : ListNarrows parent) (ho : o ∈ c.scopes.orgs)
    {t : Named} (ht : t ∈ o.teams) : Keeps c parent legacy (.team t.id) ↔
      Accepted c parent legacy (.orgId o.id) ∨ FailOpen parent legacy ∨
        Names parent (.team t.id) := by
  by_cases hall : AllWorkspace parent
  · rw [keeps_of_all hall]
    exact ⟨fun _ => .inl (accepted_of_all hall (.org o.id)), fun _ => ⟨o, ho, t, ht, rfl⟩⟩
  rw [Keeps, offers_filter c hall]
  simp only [orgAdmitted_iff (c := c) hnarrows hall, mem_intersect hnarrows hall, mem_teamIds]
  constructor
  · rintro ⟨o', ho', t', ht', hid, (hopen | haccepted) | hnames⟩
    · exact .inr (.inl hopen)
    · rw [← c.teams_unique o' ho' o ho t' ht' t ht hid]
      exact .inl haccepted
    · exact .inr (.inr hnames)
  · rintro (haccepted | hopen | hnames)
    · exact ⟨o, ho, t, ht, rfl, .inl (.inr haccepted)⟩
    · exact ⟨o, ho, t, ht, rfl, .inl (.inl hopen)⟩
    · exact ⟨o, ho, t, ht, rfl, .inr hnames⟩

theorem keeps_project (hnarrows : ListNarrows parent) {p : Named} (hp : p ∈ c.scopes.projects) :
    Keeps c parent legacy (.project p.id) ↔ Names parent (.project p.id) := by
  by_cases hall : AllWorkspace parent
  · rw [keeps_of_all hall]
    exact ⟨fun _ field => .inl (hall field), fun _ => ⟨p, hp, rfl⟩⟩
  · rw [Keeps, offers_filter c hall]
    simp only [mem_intersect hnarrows hall, mem_projectIds]
    exact ⟨fun ⟨_, _, _, h⟩ => h, fun h => ⟨p, hp, rfl, h⟩⟩

theorem keeps_workspace : Keeps c parent legacy .workspace ↔
      c.scopes.canGrantWorkspace = true ∧ Accepted c parent legacy .workspace := by
  by_cases hall : AllWorkspace parent
  · rw [keeps_of_all hall]
    exact ⟨fun h => ⟨h, accepted_of_all hall .workspace⟩, fun h => h.1⟩
  · rw [Keeps, offers_filter c hall, accepted_iff]
    refine ⟨fun hc => hc.elim, fun ⟨_, haccepted⟩ => hall fun field => ?_⟩
    exact contained_workspace.mp (haccepted field)

theorem accepted_of_keeps {opt : ScopeOption} (h : Keeps c parent legacy opt) :
    Accepted c parent legacy opt.visibility ∨ FailOpen parent legacy ∨
      ∃ o ∈ c.scopes.orgs, opt = .org o.id ∧ ∃ t ∈ o.teams, Names parent (.team t.id) := by
  by_cases hall : AllWorkspace parent
  · exact .inl (accepted_of_all hall opt)
  rw [Keeps, offers_filter c hall] at h
  cases opt with
  | org id =>
    obtain ⟨o, ho, rfl, hadm | ⟨t, ht, hid⟩⟩ := h
    · exact (accepted_of_orgAdmitted hadm).elim (.inr ∘ .inl) .inl
    · exact .inr (.inr ⟨o, ho, rfl, t, ht, names_team hid⟩)
  | team id =>
    obtain ⟨o, ho, t, ht, rfl, hadm | hid⟩ := h
    · rcases accepted_of_orgAdmitted (c := c) hadm with hopen | haccepted
      · exact .inr (.inl hopen)
      · exact .inl (accepted_team_of_org ho ht haccepted)
    · exact .inl (accepted_team (names_team hid))
  | project id =>
    obtain ⟨_, _, _, hid⟩ := h
    exact .inl (accepted_project (names_project hid))
  | workspace => exact h.elim

/-- **The picker against the server.**  Of the catalogue's options the form keeps: an
    organisation the server accepts, or the shell around a team every field names; a
    team of an accepted organisation, or one every field names; a project every field
    names; `workspace` where it is accepted.  A legacy `org` nobody resolved offers
    every organisation and team, and is the only parent under which a team, a project
    or `workspace` is offered that the server rejects. -/
theorem picker (c : Catalogue) (parent : AgentAuthPolicy) (legacy : Option String) :
    (ListNarrows parent → (∀ o ∈ c.scopes.orgs, (Keeps c parent legacy (.org o.id) ↔
        Accepted c parent legacy (.orgId o.id) ∨ FailOpen parent legacy ∨
          ∃ t ∈ o.teams, Names parent (.team t.id))) ∧
      (∀ o ∈ c.scopes.orgs, ∀ t ∈ o.teams, (Keeps c parent legacy (.team t.id) ↔
        Accepted c parent legacy (.orgId o.id) ∨ FailOpen parent legacy ∨
          Names parent (.team t.id))) ∧
      ∀ p ∈ c.scopes.projects, (Keeps c parent legacy (.project p.id) ↔
        Names parent (.project p.id))) ∧ (Keeps c parent legacy .workspace ↔
      c.scopes.canGrantWorkspace = true ∧ Accepted c parent legacy .workspace) ∧
    ∀ opt, Keeps c parent legacy opt →
      Accepted c parent legacy opt.visibility ∨ FailOpen parent legacy ∨
        ∃ o ∈ c.scopes.orgs, opt = .org o.id ∧ ∃ t ∈ o.teams, Names parent (.team t.id) := by
  refine ⟨fun hnarrows => ⟨?_, ?_, ?_⟩, keeps_workspace, fun opt h => accepted_of_keeps h⟩
  · exact fun o ho => keeps_org hnarrows ho
  · exact fun o ho t ht => keeps_team hnarrows ho ht
  · exact fun p hp => keeps_project hnarrows hp

/-- One organisation with a team and a project. -/
def acmeCatalogue : Catalogue where
  scopes :=
    { orgs := [⟨"acme", "Acme", [⟨"design", "Design"⟩]⟩]
      projects := [⟨"site", "Site"⟩]
      canGrantWorkspace := true }
  projectOrg := fun p => if p = "site" then some "acme" else none
  orgs_unique := by decide
  teams_unique := by decide

theorem orgProject_not_offered :
    ¬ ∀ (c : Catalogue) (parent : AgentAuthPolicy) (legacy : Option String) (opt : ScopeOption),
      Offers c.scopes opt → (Keeps c parent legacy opt ↔ Accepted c parent legacy opt.visibility) :=
  fun h => absurd
    ((h acmeCatalogue (lockstep (.orgId "acme")) none (.project "site") (by decide)).mpr (by decide))
    (by decide)

theorem picker_acme : Keeps acmeCatalogue (lockstep (.team "design")) none (.org "acme") ∧
      ¬ Keeps acmeCatalogue (lockstep (.team "design")) none .workspace := by
  obtain ⟨hkept, hworkspace, _⟩ := picker acmeCatalogue (lockstep (.team "design")) none
  have hnarrows : ListNarrows (lockstep (.team "design")) := fun hc => by cases hc
  refine ⟨((hkept hnarrows).1 _ (.head _)).mpr ?_, fun h => ?_⟩
  · exact .inr (.inr ⟨⟨"design", "Design"⟩, .head _, by decide⟩)
  · exact absurd (hworkspace.mp h).2 (by decide)

end AuthzScopePicker
