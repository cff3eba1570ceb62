import Cinatra.Authz.RoleGrants
import Cinatra.Lib.Machine
import Cinatra.Lib.Table

/-! # CustomerGrant — a customer's access to a project, granted and revoked

    A customer grant is two rows in two tables: the customer role at the project,
    and a `read` row among the project's members.  Each is written by a statement
    of its own, so a call may throw with the first one written; and the second row
    is the one ordinary membership has, which a grant sets to `read` and a
    revocation deletes.  So a grant is a unit exactly when the customer is no
    member beforehand and neither second write fails (`customer_access_unit`). -/

namespace AuthzCustomerGrant

open AuthzRoleGrants RowTable Machine

inductive AccessRole where
  | read | write | admin
deriving DecidableEq

/-- A higher role has every right of a lower one. -/
def AccessRole.rank : AccessRole → Nat
  | .read => 0
  | .write => 1
  | .admin => 2

inductive PrincipalLevel where
  | user | team | organization | workspace
deriving DecidableEq

/-- A row of `project_access`. -/
structure ProjectAccessRow where
  projectId : String
  principalLevel : PrincipalLevel
  principalId : String
  role : AccessRole
  grantedBy : String

structure Store where
  roleGrants : List RoleGrantRow
  projectAccess : List ProjectAccessRow

/-- `expiresAt` is `none` where it is absent or `null`. -/
structure GrantInput where
  subjectUserId : String
  projectId : String
  orgId : String
  grantedBy : String
  expiresAt : Option Int := none

structure RevokeInput where
  subjectUserId : String
  projectId : String

/-- The two writes of a call, in order. -/
inductive Write where
  | roleGrant | projectAccess
deriving DecidableEq

/-- The primary key of a customer's row in `role_grant`. -/
def isCustomerGrant (user project : String) (r : RoleGrantRow) : Bool :=
  r.subjectUserId = user && r.role = "customer" && r.scopeLevel = .project &&
    r.scopeRecordId = project

/-- The primary key of a user's own row in `project_access`. -/
def isDirectAccess (user project : String) (r : ProjectAccessRow) : Bool :=
  r.projectId = project && r.principalLevel = .user && r.principalId = user

def upsertRoleGrant (input : GrantInput) (now : Int) (rows : List RoleGrantRow) :
    List RoleGrantRow :=
  if rows.any (isCustomerGrant input.subjectUserId input.projectId) then
    updateWhere (isCustomerGrant input.subjectUserId input.projectId)
      (fun r => { r with grantedBy := input.grantedBy, grantedAt := now,
                         expiresAt := input.expiresAt }) rows
  else
    rows ++ [{ subjectUserId := input.subjectUserId, role := "customer", scopeLevel := .project,
               scopeRecordId := input.projectId, orgId := input.orgId,
               grantedBy := input.grantedBy, grantedAt := now, expiresAt := input.expiresAt }]

def upsertProjectAccess (input : GrantInput) (rows : List ProjectAccessRow) :
    List ProjectAccessRow :=
  if rows.any (isDirectAccess input.subjectUserId input.projectId) then
    updateWhere (isDirectAccess input.subjectUserId input.projectId)
      (fun r => { r with role := .read }) rows
  else
    rows ++ [{ projectId := input.projectId, principalLevel := .user,
               principalId := input.subjectUserId, role := .read, grantedBy := input.grantedBy }]

/-! ## The two calls

    `fails` is the write that throws, if one does. -/

def grantCustomerAccess (input : GrantInput) (now : Int) (fails : Option Write) (s : Store) :
    Except Write Unit × Store :=
  if fails = some .roleGrant then (.error .roleGrant, s)
  else
    let s := { s with roleGrants := upsertRoleGrant input now s.roleGrants }
    if fails = some .projectAccess then (.error .projectAccess, s)
    else (.ok (), { s with projectAccess := upsertProjectAccess input s.projectAccess })

/-- Returns whether there was a grant. -/
def revokeCustomerAccess (input : RevokeInput) (fails : Option Write) (s : Store) :
    Except Write Bool × Store :=
  if fails = some .roleGrant then (.error .roleGrant, s)
  else
    let isGrant := isCustomerGrant input.subjectUserId input.projectId
    let revoked := s.roleGrants.any isGrant
    let s := { s with roleGrants := s.roleGrants.filter (fun r => !isGrant r) }
    if fails = some .projectAccess then (.error .projectAccess, s)
    else
      let isDirect := isDirectAccess input.subjectUserId input.projectId
      (.ok revoked, { s with projectAccess := s.projectAccess.filter (fun r => !isDirect r) })

/-! ## What a user has -/

/-- The user holds the customer role at the project. -/
def customerGrant (s : Store) (user project : String) : Bool :=
  s.roleGrants.any (isCustomerGrant user project)

/-- The user's own role on the project. -/
def directRole (s : Store) (user project : String) : Option AccessRole :=
  (s.projectAccess.find? (isDirectAccess user project)).map ProjectAccessRow.role

section Tables

variable {user project : String} {input : GrantInput} {now : Int} {rows : List RoleGrantRow}

/-- An upsert leaves every customer's grant standing, and the one it is for. -/
theorem any_upsertRoleGrant (h : rows.any (isCustomerGrant user project) = true ∨
      input.subjectUserId = user ∧ input.projectId = project) :
    (upsertRoleGrant input now rows).any (isCustomerGrant user project) = true := by
  rw [upsertRoleGrant]
  split
  · rename_i hany
    rw [any_updateWhere]
    · rcases h with h | ⟨rfl, rfl⟩
      · exact h
      · exact hany
    · intro r _
      rfl
  · rw [List.any_append, Bool.or_eq_true]
    rcases h with h | ⟨rfl, rfl⟩
    · exact .inl h
    · refine .inr ?_
      simp [isCustomerGrant]

/-- An upsert leaves its user a `read` row, whatever the row was. -/
theorem find?_upsertProjectAccess (rows : List ProjectAccessRow) :
    ((upsertProjectAccess input rows).find?
      (isDirectAccess input.subjectUserId input.projectId)).map ProjectAccessRow.role =
        some .read := by
  rw [upsertProjectAccess]
  split
  · rename_i hany
    obtain ⟨r, hr⟩ := Option.isSome_iff_exists.mp (List.find?_isSome.mpr (List.any_eq_true.mp hany))
    have hdirect := List.find?_some hr
    rw [find?_updateWhere]
    · rw [hr, Option.map_some, if_pos hdirect, Option.map_some]
    · intro r _
      rfl
  · rename_i hany
    have hnone : rows.find? (isDirectAccess input.subjectUserId input.projectId) = none := by
      rw [List.find?_eq_none]
      intro r hr hdirect
      exact hany (List.any_eq_true.mpr ⟨r, hr, hdirect⟩)
    rw [List.find?_append, hnone, Option.none_or]
    simp [isDirectAccess]

theorem any_filter_other {user' project' : String}
    (h : rows.any (isCustomerGrant user project) = true)
    (hne : ¬ (user = user' ∧ project = project')) :
    (rows.filter (fun r => !isCustomerGrant user' project' r)).any
      (isCustomerGrant user project) = true := by
  obtain ⟨r, hr, hgrant⟩ := List.any_eq_true.mp h
  refine List.any_eq_true.mpr ⟨r, List.mem_filter.mpr ⟨hr, ?_⟩, hgrant⟩
  rw [Bool.not_eq_true', Bool.eq_false_iff]
  intro hgrant'
  simp only [isCustomerGrant, Bool.and_eq_true, decide_eq_true_eq] at hgrant hgrant'
  exact hne ⟨hgrant.1.1.1.symm.trans hgrant'.1.1.1, hgrant.2.symm.trans hgrant'.2⟩

end Tables

/-! ## Calls in sequence -/

inductive Call where
  | grant (input : GrantInput) (now : Int)
  | revoke (input : RevokeInput)

def Call.user : Call → String
  | .grant input _ => input.subjectUserId
  | .revoke input => input.subjectUserId

def Call.project : Call → String
  | .grant input _ => input.projectId
  | .revoke input => input.projectId

/-- A call, and the write of it that fails. -/
structure Event where
  call : Call
  fails : Option Write

def Event.store (e : Event) (s : Store) : Store :=
  match e.call with
  | .grant input now => (grantCustomerAccess input now e.fails s).2
  | .revoke input => (revokeCustomerAccess input e.fails s).2

/-- The call has not thrown. -/
def Event.returned (e : Event) (s : Store) : Bool :=
  match e.call with
  | .grant input now => (grantCustomerAccess input now e.fails s).1.isOk
  | .revoke input => (revokeCustomerAccess input e.fails s).1.isOk

/-- What a customer had when the first of the grants that still stand was made. -/
structure Standing where
  subjectUserId : String
  projectId : String
  before : Option AccessRole

def Standing.isFor (user project : String) (g : Standing) : Bool :=
  g.subjectUserId = user && g.projectId = project

/-- The tables, and the grants made and not revoked since the run began. -/
structure World where
  store : Store
  standing : List Standing

def start (s : Store) : World := ⟨s, []⟩

/-- The grants that stand after a call whose first write has landed. -/
def stands (w : World) : Call → List Standing
  | .grant input _ =>
    if w.standing.any (Standing.isFor input.subjectUserId input.projectId) then w.standing
    else ⟨input.subjectUserId, input.projectId,
      directRole w.store input.subjectUserId input.projectId⟩ :: w.standing
  | .revoke input =>
    w.standing.filter (fun g => !g.isFor input.subjectUserId input.projectId)

def step (w : World) (e : Event) : World where
  store := e.store w.store
  standing := if e.fails = some .roleGrant then w.standing else stands w e.call

/-- Granted and revoked as a unit: what one call does to its user's access. -/
structure AsUnit (w : World) (e : Event) : Prop where
  /-- a grant lowers no direct role -/
  kept : ∀ input now, e.call = .grant input now →
    ∀ role, directRole w.store e.call.user e.call.project = some role →
      ∃ role', directRole (e.store w.store) e.call.user e.call.project = some role' ∧
        role.rank ≤ role'.rank
  /-- a revocation gives back what the user had before the grant -/
  givenBack : ∀ input, e.call = .revoke input → e.returned w.store = true →
    ∀ g ∈ w.standing, g.isFor e.call.user e.call.project = true →
      directRole (e.store w.store) e.call.user e.call.project = g.before
  /-- the customer role comes with a row of the project's access -/
  together : customerGrant (e.store w.store) e.call.user e.call.project = true →
    (directRole (e.store w.store) e.call.user e.call.project).isSome = true
  /-- a row that a grant created is gone with the customer role -/
  cleared : ∀ g ∈ w.standing, g.isFor e.call.user e.call.project = true → g.before = none →
    customerGrant (e.store w.store) e.call.user e.call.project = false →
      directRole (e.store w.store) e.call.user e.call.project = none

/-- The user is no member with more than `read` when granted, was none before the
    grant that is revoked, and the second write fails only where it has nothing to do. -/
def Careful (w : World) (e : Event) : Prop :=
  let direct := directRole w.store e.call.user e.call.project
  match e.call, e.fails with
  | .grant _ _, none => direct = none ∨ direct = some .read
  | .grant _ _, some .projectAccess => direct.isSome = true
  | .revoke _, none =>
    ∀ g ∈ w.standing, g.isFor e.call.user e.call.project = true → g.before = none
  | .revoke _, some .projectAccess =>
    direct = none ∨ ∀ g ∈ w.standing, g.isFor e.call.user e.call.project = true → g.before ≠ none
  | _, some .roleGrant =>
    customerGrant w.store e.call.user e.call.project = true → direct.isSome = true

/-! ## What each way a call ends leaves -/

section Calls

variable {s : Store} {input : GrantInput} {now : Int} {revoke : RevokeInput} {c : Call}

@[simp] theorem store_grant : Event.store ⟨.grant input now, none⟩ s =
    ⟨upsertRoleGrant input now s.roleGrants, upsertProjectAccess input s.projectAccess⟩ := rfl

@[simp] theorem store_failed : Event.store ⟨c, some .roleGrant⟩ s = s := by
  cases c with
  | grant | revoke => rfl

variable {access : List ProjectAccessRow}

theorem customerGrant_upsert :
    customerGrant ⟨upsertRoleGrant input now s.roleGrants, access⟩ input.subjectUserId
      input.projectId = true :=
  any_upsertRoleGrant (.inr ⟨rfl, rfl⟩)

variable {grants : List RoleGrantRow}

theorem directRole_upsert :
    directRole ⟨grants, upsertProjectAccess input s.projectAccess⟩ input.subjectUserId
      input.projectId = some .read :=
  find?_upsertProjectAccess s.projectAccess

theorem customerGrant_deleted {user project : String} :
    customerGrant ⟨s.roleGrants.filter (fun r => !isCustomerGrant user project r), access⟩ user
      project = false :=
  any_filter_not_self s.roleGrants

theorem directRole_deleted {user project : String} :
    directRole ⟨grants, s.projectAccess.filter (fun r => !isDirectAccess user project r)⟩ user
      project = none := by
  have hnone := any_filter_not_self (p := isDirectAccess user project) s.projectAccess
  rw [directRole, Option.map_eq_none_iff, List.find?_eq_none]
  exact List.any_eq_false.mp hnone

end Calls

/-! ## When a call keeps the law -/

/-- A grant that stands is in the table. -/
def Held (w : World) : Prop :=
  ∀ g ∈ w.standing, customerGrant w.store g.subjectUserId g.projectId = true

theorem Standing.isFor_iff {user project : String} {g : Standing} :
    g.isFor user project = true ↔ g.subjectUserId = user ∧ g.projectId = project := by
  rw [Standing.isFor, Bool.and_eq_true, decide_eq_true_eq, decide_eq_true_eq]

variable {w : World} {now : Int}

theorem asUnit_grant {input : GrantInput} :
    AsUnit w ⟨.grant input now, none⟩ ↔ Careful w ⟨.grant input now, none⟩ := by
  constructor
  · intro h
    show directRole w.store input.subjectUserId input.projectId = none ∨ _
    cases hdirect : directRole w.store input.subjectUserId input.projectId with
    | none => exact .inl rfl
    | some role =>
      refine .inr ?_
      obtain ⟨role', hread, hle⟩ := h.kept input now rfl role hdirect
      rw [store_grant] at hread
      rw [← Option.some.inj (directRole_upsert.symm.trans hread)] at hle
      cases role with
      | read => exact hdirect
      | write | admin => exact absurd hle (by decide)
  · intro h
    refine ⟨?_, ?_, ?_, ?_⟩
    · intro _ _ _ role hrole
      refine ⟨.read, directRole_upsert, ?_⟩
      rcases h with h | h
      · rw [show directRole w.store _ _ = none from h] at hrole
        cases hrole
      · rw [show directRole w.store _ _ = some .read from h] at hrole
        cases hrole
        exact Nat.le_refl _
    · intro _ hcall
      cases hcall
    · intro _
      rw [store_grant]
      exact Option.isSome_iff_exists.mpr ⟨_, directRole_upsert⟩
    · intro g _ _ _ hgone
      have hheld : customerGrant ⟨upsertRoleGrant input now w.store.roleGrants,
          upsertProjectAccess input w.store.projectAccess⟩ input.subjectUserId
            input.projectId = true := customerGrant_upsert
      exact absurd (hheld.symm.trans hgone) (by decide)

/-- Only the first write has landed: the role is there, the row as it was. -/
theorem asUnit_grant_half {input : GrantInput} : AsUnit w ⟨.grant input now, some .projectAccess⟩ ↔
      Careful w ⟨.grant input now, some .projectAccess⟩ := by
  have hheld : customerGrant ⟨upsertRoleGrant input now w.store.roleGrants,
      w.store.projectAccess⟩ input.subjectUserId input.projectId = true := customerGrant_upsert
  constructor
  · intro h
    exact h.together hheld
  · intro h
    refine ⟨?_, ?_, ?_, ?_⟩
    · intro _ _ _ role hrole
      exact ⟨role, hrole, Nat.le_refl _⟩
    · intro _ hcall
      cases hcall
    · intro _
      exact h
    · intro g _ _ _ hgone
      exact absurd (hheld.symm.trans hgone) (by decide)

variable {input : RevokeInput}

theorem asUnit_revoke : AsUnit w ⟨.revoke input, none⟩ ↔ Careful w ⟨.revoke input, none⟩ := by
  have hdirect : directRole (Event.store ⟨.revoke input, none⟩ w.store) input.subjectUserId
      input.projectId = none := directRole_deleted
  have hgone : customerGrant (Event.store ⟨.revoke input, none⟩ w.store) input.subjectUserId
      input.projectId = false := customerGrant_deleted
  constructor
  · intro h g hg hfor
    exact (h.givenBack input rfl rfl g hg hfor).symm.trans hdirect
  · intro h
    refine ⟨?_, ?_, ?_, ?_⟩
    · intro _ _ hcall
      cases hcall
    · intro _ _ _ g hg hfor
      exact hdirect.trans (h g hg hfor).symm
    · intro hrole
      exact absurd (hgone.symm.trans hrole) (by decide)
    · intro g _ _ _ _
      exact hdirect

/-- Only the first write has landed: the role is gone, the row as it was. -/
theorem asUnit_revoke_half : AsUnit w ⟨.revoke input, some .projectAccess⟩ ↔
      Careful w ⟨.revoke input, some .projectAccess⟩ := by
  have hgone : customerGrant (Event.store ⟨.revoke input, some .projectAccess⟩ w.store)
      input.subjectUserId input.projectId = false := customerGrant_deleted
  constructor
  · intro h
    show directRole w.store input.subjectUserId input.projectId = none ∨ _
    by_cases hnew : ∀ g ∈ w.standing,
        g.isFor input.subjectUserId input.projectId = true → g.before ≠ none
    · exact .inr hnew
    · push Not at hnew
      obtain ⟨g, hg, hfor, hbefore⟩ := hnew
      exact .inl (h.cleared g hg hfor hbefore hgone)
  · intro h
    refine ⟨?_, ?_, ?_, ?_⟩
    · intro _ _ hcall
      cases hcall
    · intro _ _ hreturned
      cases hreturned
    · intro hrole
      exact absurd (hgone.symm.trans hrole) (by decide)
    · intro g hg hfor hbefore _
      rcases h with h | h
      · exact h
      · exact absurd hbefore (h g hg hfor)

/-- A call whose first write fails keeps the law where the state did. -/
theorem asUnit_failed {c : Call} (hheld : Held w) :
    AsUnit w ⟨c, some .roleGrant⟩ ↔ Careful w ⟨c, some .roleGrant⟩ := by
  have hcareful : Careful w ⟨c, some .roleGrant⟩ ↔ (customerGrant w.store c.user c.project = true →
        (directRole w.store c.user c.project).isSome = true) := by
    cases c with
    | grant | revoke => exact Iff.rfl
  rw [hcareful]
  constructor
  · intro h
    have htogether := h.together
    rw [store_failed] at htogether
    exact htogether
  · intro h
    refine ⟨?_, ?_, ?_, ?_⟩
    · intro _ _ _ role hrole
      rw [store_failed]
      exact ⟨role, hrole, Nat.le_refl _⟩
    · rintro _ rfl hreturned
      cases hreturned
    · rw [store_failed]
      exact h
    · intro g hg hfor _ hgone
      -- the grant that stands is still in the table
      obtain ⟨huser, hproject⟩ := Standing.isFor_iff.mp hfor
      have hin := hheld g hg
      rw [store_failed] at hgone
      rw [huser, hproject] at hin
      exact absurd (hin.symm.trans hgone) (by decide)

/-- **One call keeps the law exactly when it is careful.** -/
theorem asUnit_iff_careful {e : Event} (hheld : Held w) : AsUnit w e ↔ Careful w e := by
  obtain ⟨call, fails⟩ := e
  rcases fails with _ | write
  · cases call with
    | grant input now => exact asUnit_grant
    | revoke input => exact asUnit_revoke
  cases write with
  | roleGrant => exact asUnit_failed hheld
  | projectAccess =>
    cases call with
    | grant input now => exact asUnit_grant_half
    | revoke input => exact asUnit_revoke_half

variable {access : List ProjectAccessRow}

/-- What the upsert writes, it writes for every grant that stands. -/
theorem held_grant {input : GrantInput} (h : Held w) :
    Held ⟨⟨upsertRoleGrant input now w.store.roleGrants, access⟩, stands w (.grant input now)⟩ := by
  intro g hg
  show (upsertRoleGrant input now w.store.roleGrants).any _ = true
  have hold : g ∈ w.standing → (upsertRoleGrant input now w.store.roleGrants).any
      (isCustomerGrant g.subjectUserId g.projectId) = true :=
    fun hg => any_upsertRoleGrant (.inl (h g hg))
  have hmem : g ∈ stands w (.grant input now) := hg
  rw [stands] at hmem
  split at hmem
  · exact hold hmem
  · rcases List.mem_cons.mp hmem with rfl | hmem
    · exact any_upsertRoleGrant (.inr ⟨rfl, rfl⟩)
    · exact hold hmem

theorem held_revoke (h : Held w) : Held ⟨⟨w.store.roleGrants.filter
      (fun r => !isCustomerGrant input.subjectUserId input.projectId r), access⟩,
        stands w (.revoke input)⟩ := by
  intro g hg
  obtain ⟨hmem, hnot⟩ := List.mem_filter.mp hg
  refine any_filter_other (h g hmem) fun hpair => ?_
  rw [Standing.isFor_iff.mpr hpair] at hnot
  cases hnot

theorem held_step (e : Event) (h : Held w) : Held (step w e) := by
  obtain ⟨call, fails⟩ := e
  rcases fails with _ | write
  · cases call with
    | grant input now => exact held_grant h
    | revoke input => exact held_revoke h
  cases write with
  | roleGrant =>
    intro g hg
    rw [show (step w ⟨call, some .roleGrant⟩).store = w.store from store_failed]
    exact h g hg
  | projectAccess =>
    cases call with
    | grant input now => exact held_grant h
    | revoke input => exact held_revoke h

/-- **A run of calls grants and revokes access as a unit exactly when each of them is
    careful**, from any state of the two tables. -/
theorem customer_access_unit (s : Store) (events : List Event) :
    Admits step AsUnit (start s) events ↔ Admits step Careful (start s) events := by
  refine Admits.congr (I := Held) (fun w e h => held_step e h)
    (fun w e h => asUnit_iff_careful h) ?_
  intro g hg
  cases hg

def memberStore : Store where
  roleGrants := []
  projectAccess := [⟨"p1", .user, "u1", .write, "owner"⟩]

def memberGrant : Event := ⟨.grant ⟨"u1", "p1", "org-1", "admin", none⟩ 0, none⟩

/-- Granting a member with `write` lowers the role to `read`, and revoking takes it away. -/
theorem member_loses_access : directRole (memberGrant.store memberStore) "u1" "p1" = some .read ∧
      directRole ((step (step (start memberStore) memberGrant)
        ⟨.revoke ⟨"u1", "p1"⟩, none⟩).store) "u1" "p1" = none ∧
      ¬ Admits step AsUnit (start memberStore) [memberGrant, ⟨.revoke ⟨"u1", "p1"⟩, none⟩] := by
  refine ⟨by decide, by decide, ?_⟩
  rintro ⟨hgrant, -⟩
  obtain ⟨role', hrole', hle⟩ := hgrant.kept _ _ rfl .write (by decide)
  have hread : directRole (memberGrant.store memberStore) "u1" "p1" = some .read := by decide
  rw [← Option.some.inj (hread.symm.trans hrole')] at hle
  exact absurd hle (by decide)

end AuthzCustomerGrant
