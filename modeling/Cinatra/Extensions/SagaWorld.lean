import Cinatra.Extensions.WorkflowSaga
import Cinatra.Lib.CodeUnits
import Mathlib.Data.List.Dedup

/-! # SagaWorld — what the saga's steps do

    The journal, the canonical rows, the host-port grants, the workflow templates
    and the dashboards.  A step that throws leaves them alone; the package store,
    the projects and the workflows that run are only read.  What the registry and
    the package serve is fixed for the attempt (`Served`).  The world remembers
    the steps that have thrown. -/

namespace ExtSagaWorld

open Process RowTable JsonValue ExtCanonical ExtInstallOps ExtWorkflowSaga

/-- The single live row of a package and organisation, as the writers keep it. -/
structure CanonicalRow where
  packageName : String
  source : ExtensionSource
  dependencies : List ExtensionDependency
  validSource : validateExtensionSource source = []
  validDependencies : ∀ dep ∈ dependencies, validateExtensionDependencyShape dep packageName = []

inductive GrantStatus where
  | pending | approved | revoked
deriving DecidableEq

structure HostPortGrant where
  requestedPortsHash : String
  status : GrantStatus
  approvedPorts : List String
  approvedBy : Option String

structure WorkflowTemplate where
  id : Nat
  orgId : String
  manifest : TemplateManifest
  packageName : String

inductive DashboardStatus where
  | draft | published | archived
deriving DecidableEq

structure Dashboard where
  id : Nat
  extensionId : String
  organizationId : String
  projectId : Option String
  isTemplate : Bool
  name : String
  configJson : Json
  status : DashboardStatus
deriving DecidableEq

structure World where
  clock : Instant
  journal : Journal
  rows : Scope → Option CanonicalRow
  grants : Scope → Option HostPortGrant
  templates : List WorkflowTemplate
  /-- The templates draft and active workflows are built from. -/
  inUse : List Nat
  dashboards : List Dashboard
  /-- Project and organisation. -/
  projects : List (String × String)
  thrown : List Call

/-- What the registry, the store and the package answer. -/
structure Served where
  integrity : ResolvedIntegrity
  mat : Materialized
  sdkAbiRange : Option String
  dependencyEdges : List ExtensionDependency
  requestedPorts : List String
  preflight : WorkflowInstallPreflightResult

structure Answer where
  fault : Option SagaError := none
  elapsedMs : Nat := 0

/-- An id no row has. -/
def freshId (ids : List Nat) : Nat := ids.foldr max 0 + 1

theorem freshId_notMem (ids : List Nat) : freshId ids ∉ ids := by
  have hle : ∀ n ∈ ids, n ≤ ids.foldr max 0 := by
    intro n hn
    induction ids with
    | nil => cases hn
    | cons m ids ih =>
      rw [List.foldr_cons]
      rcases List.mem_cons.mp hn with rfl | hn
      · exact Nat.le_max_left ..
      · exact Nat.le_trans (ih hn) (Nat.le_max_right ..)
  intro hin
  exact absurd (hle _ hin) (Nat.not_succ_le_self _)

/-! ## The grants -/

/-- Without repeats, in the order of JavaScript's `sort`. -/
def normalizePorts (ports : List String) : List String :=
  CodeUnits.jsSort ports.dedup

def computeRequestedPortsHash (host : SagaHost) (ports : List String) : String :=
  host.sha256 (print (.arr ((normalizePorts ports).map Json.str)))

/-- `recordRequestedGrant`: an unchanged request leaves the row alone. -/
def recordRequestedGrant (host : SagaHost) (ports : List String) :
    Option HostPortGrant → HostPortGrant
  | none => ⟨computeRequestedPortsHash host ports, .pending, [], none⟩
  | some g =>
    if g.requestedPortsHash = computeRequestedPortsHash host ports then g
    else ⟨computeRequestedPortsHash host ports, .pending, [], none⟩

/-- `approveGrant`. -/
def approveGrant (host : SagaHost) (approvedPorts requestedPorts : List String)
    (approvedBy : String) : Option HostPortGrant → Except SagaError HostPortGrant
  | none => .error .grantMissing
  | some g =>
    if computeRequestedPortsHash host requestedPorts ≠ g.requestedPortsHash then
      .error .grantStale
    else
      let superset := (normalizePorts approvedPorts).filter
        (fun p => !(normalizePorts requestedPorts).contains p)
      if superset ≠ [] then .error (.grantSuperset superset)
      else .ok { g with status := .approved, approvedPorts := normalizePorts approvedPorts
                        approvedBy := some approvedBy }

/-- `readCurrentSource`: the prior source, when it is verdaccio's. -/
def currentSource (row : CanonicalRow) : Option Provenance :=
  match row.source with
  | .verdaccio v => some ⟨v.version, v.registryUrl, v.integrity, truthy v.contentHash,
      truthy v.attestedSha256, truthy v.signature, truthy v.closureHash⟩
  | .github _ _ _ _ => none
  | .local _ _ => none

/-- The source `recordProvenance` writes. -/
def recordedSource (p : Provenance) (packageName : String) : ExtensionSource :=
  .verdaccio ⟨p.registryUrl, packageName, p.version, p.integrity, p.contentHash, p.attestedSha256,
    p.signature, p.closureHash⟩

/-- `sourceSwitchExtension`. -/
def switchSource (row : CanonicalRow) (source : ExtensionSource) : Except SagaError CanonicalRow :=
  if h : validateExtensionSource source = [] then .ok { row with source := source, validSource := h }
  else .error (.sourceRefused (validateExtensionSource source))

/-- `recordExtensionDependencies`. -/
def switchDependencies (row : CanonicalRow) (deps : List ExtensionDependency) :
    Except SagaError CanonicalRow :=
  if h : ∀ dep ∈ deps, validateExtensionDependencyShape dep row.packageName = [] then
    .ok { row with dependencies := deps, validDependencies := h }
  else .error (.edgeRefused
    (deps.flatMap (fun dep => validateExtensionDependencyShape dep row.packageName)))

/-! ## Templates and dashboards -/

def sameTemplateKey (orgId : String) (m : TemplateManifest) (t : WorkflowTemplate) : Bool :=
  t.orgId = orgId && t.manifest.key = m.key && t.manifest.version = m.version

/-- The id an inserted template gets. -/
def newTemplateId (w : World) : Nat := freshId (w.templates.map WorkflowTemplate.id ++ w.inUse)

/-- `installWorkflowTemplate`: upsert on (organisation, key, version). -/
def upsertTemplate (w : World) (manifest : TemplateManifest) (orgId packageName : String) :
    InstalledTemplate × World :=
  match w.templates.find? (sameTemplateKey orgId manifest) with
  | some t => (⟨t.id, true⟩, { w with templates := rewrite w.templates })
  | none => (⟨newTemplateId w, false⟩, { w with templates := w.templates ++ [inserted] })
where
  rewrite (ts : List WorkflowTemplate) : List WorkflowTemplate :=
    updateWhere (sameTemplateKey orgId manifest)
      (fun t => { t with manifest := manifest, packageName := packageName }) ts
  inserted : WorkflowTemplate := ⟨newTemplateId w, orgId, manifest, packageName⟩

/-- `deleteWorkflowTemplate`: refused while a live workflow is built from it. -/
def removeTemplate (w : World) (templateId : Nat) : Bool × World :=
  if w.inUse.contains templateId then (false, w)
  else (true, { w with templates := w.templates.filter (fun t => t.id ≠ templateId) })

/-- The dashboards of an extension in an organisation. -/
def ofExtension (packageName orgId : String) (d : Dashboard) : Bool :=
  d.extensionId = packageName && d.organizationId = orgId

def setStatus (packageName orgId : String) (status : DashboardStatus) (ds : List Dashboard) :
    List Dashboard :=
  updateWhere (ofExtension packageName orgId) (fun d => { d with status := status }) ds

/-- `materializeExtensionTemplate`. -/
def upsertDashboardTemplate (packageName orgId : String) (config : Json) (ds : List Dashboard) :
    List Dashboard :=
  match ds.find? (fun d => ofExtension packageName orgId d && d.isTemplate) with
  | some t => updateWhere (fun d => d.id = t.id)
      (fun d => { d with name := packageName ++ " dashboard", configJson := config
                         status := .published }) ds
  | none => ds ++ [⟨freshId (ds.map Dashboard.id), packageName, orgId, none, true,
      packageName ++ " dashboard", config, .published⟩]

/-- `materializeExtensionInstanceForProject`: an instance that is there stays. -/
def upsertInstance (packageName orgId projectId : String) (ds : List Dashboard) :
    Except SagaError (List Dashboard) :=
  if ds.any (fun d => ofExtension packageName orgId d && d.projectId = some projectId) then .ok ds
  else match ds.find? (fun d => ofExtension packageName orgId d && d.isTemplate) with
    | none => .error .dashboardTemplateMissing
    | some t => .ok (ds ++ [⟨freshId (ds.map Dashboard.id), packageName, orgId, some projectId,
        false, t.name, t.configJson, .published⟩])

/-! ## Answers -/

/-- A statement of the journal. -/
def World.statement (w : World) (r : Except JournalError Journal) : Except SagaError Unit × World :=
  match r with
  | .ok j => (.ok (), { w with journal := j })
  | .error err => (.error (.journal err), w)

/-- An update of the grant of a scope. -/
def World.setGrant (w : World) (scope : Scope) (r : Except SagaError HostPortGrant) :
    Except SagaError Unit × World :=
  match r with
  | .ok g => (.ok (), { w with grants := Function.update w.grants scope (some g) })
  | .error err => (.error err, w)

/-- An update of the live row of a scope. -/
def World.setRow (w : World) (scope : Scope) (step : String)
    (f : CanonicalRow → Except SagaError CanonicalRow) : Except SagaError Unit × World :=
  match w.rows scope with
  | none => (.error (.noSingleRow step scope), w)
  | some row =>
    match f row with
    | .ok row' => (.ok (), { w with rows := Function.update w.rows scope (some row') })
    | .error err => (.error err, w)

def World.setDashboards (w : World) (r : Except SagaError (List Dashboard)) :
    Except SagaError Unit × World :=
  match r with
  | .ok ds => (.ok (), { w with dashboards := ds })
  | .error err => (.error err, w)

/-- What a step answers when it does not throw of itself. -/
def serve (host : SagaHost) (served : Served) (w : World) :
    (c : Call) → Except SagaError (Call.Reply c) × World
  | .resolveIntegrity _ _ => (.ok served.integrity, w)
  | .readInstallOp scope => (.ok (readInstallOp w.journal scope), w)
  | .materialize _ _ _ _ _ _ => (.ok served.mat, w)
  | .readDeclaredCompat _ => (.ok served.sdkAbiRange, w)
  | .gcStoreDir _ => (.ok (), w)
  | .readDependencyEdges _ => (.ok served.dependencyEdges, w)
  | .readRequestedPorts _ => (.ok served.requestedPorts, w)
  | .readCurrentSource scope => (.ok ((w.rows scope).bind currentSource), w)
  | .readCurrentDependencies scope => (.ok ((w.rows scope).map CanonicalRow.dependencies), w)
  | .beginInstallOp installOpId scope =>
    w.statement (beginInstallOp w.clock
      { installOpId := installOpId, packageName := scope.packageName, orgId := scope.orgId }
      w.journal)
  | .advanceInstallOpPhase installOpId phase digest =>
    w.statement (advanceInstallOpPhase w.clock installOpId phase (digest.map some) w.journal)
  | .recordRequestedGrant scope ports =>
    w.setGrant scope (.ok (recordRequestedGrant host ports (w.grants scope)))
  | .approveGrant scope approved requested approvedBy =>
    w.setGrant scope (approveGrant host approved requested approvedBy (w.grants scope))
  | .preflightFromStore _ _ _ => (.ok served.preflight, w)
  | .installWorkflowTemplate manifest orgId _ packageName =>
    (.ok (upsertTemplate w manifest orgId packageName).1,
      (upsertTemplate w manifest orgId packageName).2)
  | .materializeDashboardTemplate packageName orgId _ config =>
    w.setDashboards (.ok (upsertDashboardTemplate packageName orgId config w.dashboards))
  | .listOrgProjectIds orgId =>
    (.ok ((w.projects.filter (fun p => p.2 = orgId)).map Prod.fst), w)
  | .materializeInstanceForProject packageName orgId _ projectId =>
    w.setDashboards (upsertInstance packageName orgId projectId w.dashboards)
  | .restoreDashboards packageName orgId _ =>
    w.setDashboards (.ok (setStatus packageName orgId .published w.dashboards))
  | .recordProvenance scope p =>
    w.setRow scope "recordProvenance" (fun row => switchSource row (recordedSource p scope.packageName))
  | .persistDependencyEdges scope deps =>
    w.setRow scope "persistDependencyEdges" (fun row => switchDependencies row deps)
  | .assertForwardInstallClosure _ => (.ok (), w)
  | .finalizeInstallOp installOpId =>
    w.statement (finalizeInstallOp w.clock installOpId w.journal)
  | .archiveDashboards packageName orgId _ =>
    w.setDashboards (.ok (setStatus packageName orgId .archived w.dashboards))
  | .deleteWorkflowTemplate templateId =>
    (.ok (removeTemplate w templateId).1, (removeTemplate w templateId).2)
  | .failInstallOp installOpId => w.statement (failInstallOp w.clock installOpId w.journal)
  | .emitOperationalEvent _ _ => (.ok (), w)

/-- Time passes; the step throws, or serves, which may throw too. -/
def attemptStep (host : SagaHost) (served : Served) (f : Answer) (c : Call) (w : World) :
    Except SagaError (Call.Reply c) × World :=
  match f.fault with
  | some err => (.error err, w)
  | none => serve host served w c

/-- A throw is remembered. -/
def answer (host : SagaHost) (served : Served) (f : Answer) (c : Call) (w : World) :
    Except SagaError (Call.Reply c) × World :=
  let r := attemptStep host served f c { w with clock := w.clock + f.elapsedMs }
  match r.1 with
  | .ok a => (.ok a, r.2)
  | .error err => (.error err, { r.2 with thrown := w.thrown ++ [c] })

def environment (host : SagaHost) (served : Served) :
    Environment Call Call.Reply SagaError World Answer := ⟨answer host served⟩

/-- What holds at the end of every run of a program. -/
abbrev Ends {α : Type} (host : SagaHost) (served : Served) (p : P α)
    (Q : Except SagaError α → World → Prop) (w : World) : Prop :=
  Spec (environment host served) (fun _ _ => True) p Q w

/-! ## One step -/

variable {host : SagaHost} {served : Served} {w : World}

variable {err : SagaError}

theorem statement_error {r : Except JournalError Journal}
    (h : (w.statement r).1 = .error err) : (w.statement r).2 = w := by
  cases r with
  | ok j => cases h
  | error e => rfl

variable {scope : Scope}

theorem setGrant_error {r : Except SagaError HostPortGrant}
    (h : (w.setGrant scope r).1 = .error err) : (w.setGrant scope r).2 = w := by
  cases r with
  | ok g => cases h
  | error e => rfl

theorem setDashboards_error {r : Except SagaError (List Dashboard)}
    (h : (w.setDashboards r).1 = .error err) : (w.setDashboards r).2 = w := by
  cases r with
  | ok ds => cases h
  | error e => rfl

variable {f : CanonicalRow → Except SagaError CanonicalRow} {step : String}

theorem setRow_error
    (h : (w.setRow scope step f).1 = .error err) : (w.setRow scope step f).2 = w := by
  simp only [World.setRow] at h ⊢
  split at h
  · rfl
  · split at h
    · cases h
    · rfl

theorem setRow_ok
    {x : Unit}
    (h : (w.setRow scope step f).1 = .ok x) : ∃ row row', w.rows scope = some row ∧
      f row = .ok row' ∧ (w.setRow scope step f).2 =
        { w with rows := Function.update w.rows scope (some row') } := by
  simp only [World.setRow] at h ⊢
  split at h
  · cases h
  · next row hrow =>
      split at h
      · next row' hf => exact ⟨row, row', hrow, hf, rfl⟩
      · cases h

theorem switchSource_ok {row row' : CanonicalRow} {source : ExtensionSource}
    (h : switchSource row source = .ok row') : row'.packageName = row.packageName ∧
      row'.source = source ∧ row'.dependencies = row.dependencies := by
  rw [switchSource] at h
  split at h
  · cases h
    exact ⟨rfl, rfl, rfl⟩
  · cases h

theorem switchDependencies_ok {row row' : CanonicalRow} {deps : List ExtensionDependency}
    (h : switchDependencies row deps = .ok row') : row'.packageName = row.packageName ∧
      row'.source = row.source ∧ row'.dependencies = deps := by
  rw [switchDependencies] at h
  split at h
  · cases h
    exact ⟨rfl, rfl, rfl⟩
  · cases h

variable {c : Call}

theorem serve_error (h : (serve host served w c).1 = .error err) :
    (serve host served w c).2 = w := by
  cases c with
  | beginInstallOp | advanceInstallOpPhase | finalizeInstallOp | failInstallOp =>
    exact statement_error h
  | recordRequestedGrant | approveGrant => exact setGrant_error h
  | materializeDashboardTemplate | materializeInstanceForProject | restoreDashboards
  | archiveDashboards => exact setDashboards_error h
  | recordProvenance | persistDependencyEdges => exact setRow_error h
  | _ => cases h

theorem serve_thrown : (serve host served w c).2.thrown = w.thrown := by
  have hjournal : ∀ r, (w.statement r).2.thrown = w.thrown := by
    intro r
    cases r <;> rfl
  have hgrant : ∀ scope r, (w.setGrant scope r).2.thrown = w.thrown := by
    intro scope r
    cases r <;> rfl
  have hdash : ∀ r, (w.setDashboards r).2.thrown = w.thrown := by
    intro r
    cases r <;> rfl
  have hrow : ∀ scope step f, (w.setRow scope step f).2.thrown = w.thrown := by
    intro scope step f
    simp only [World.setRow]
    split
    · rfl
    · split <;> rfl
  cases c with
  | beginInstallOp | advanceInstallOpPhase | finalizeInstallOp | failInstallOp => exact hjournal _
  | recordRequestedGrant | approveGrant => exact hgrant _ _
  | materializeDashboardTemplate | materializeInstanceForProject | restoreDashboards
  | archiveDashboards => exact hdash _
  | recordProvenance | persistDependencyEdges => exact hrow _ _ _
  | installWorkflowTemplate =>
    show (upsertTemplate _ _ _ _).2.thrown = _
    rw [upsertTemplate]
    split <;> rfl
  | deleteWorkflowTemplate =>
    show (removeTemplate _ _).2.thrown = _
    rw [removeTemplate]
    split <;> rfl
  | _ => rfl

/-- A call: it throws and only that is remembered, or it is served. -/
theorem call_spec {Q : Except SagaError (Call.Reply c) → World → Prop}
    (herr : ∀ err (e : Nat),
      Q (.error err) { w with clock := w.clock + e, thrown := w.thrown ++ [c] })
    (hok : ∀ (e : Nat) x, (serve host served { w with clock := w.clock + e } c).1 = .ok x →
      Q (.ok x) (serve host served { w with clock := w.clock + e } c).2) :
    Ends host served (perform c) Q w := by
  refine Spec.perform trivial ?_
  intro f
  show Q (answer host served f c w).1 (answer host served f c w).2
  simp only [answer, attemptStep]
  cases f.fault with
  | some err => exact herr err _
  | none =>
    cases hr : (serve host served { w with clock := w.clock + f.elapsedMs } c).1 with
    | ok x => exact hok _ x hr
    | error err =>
      simp only [serve_error hr]
      exact herr err _

end ExtSagaWorld
