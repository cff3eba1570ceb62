import Cinatra.Extensions.CanonicalTypes
import Cinatra.Extensions.InstallOps
import Cinatra.Lib.Json
import Cinatra.Lib.Process

/-! # WorkflowSaga — the install saga of a workflow extension

    `installWorkflowExtensionSaga` over the production wiring of its steps, one
    attempt under the package's install lock.  Before the journal is begun an
    attempt only reads; from there to the finalize it writes seven resources, and
    a throw unwinds them in the catch block, which knows of the attempt what its
    mutable flags had come to.  How a plan parses, how a signature verifies and
    what the host's ABI satisfies are parameters. -/

namespace ExtWorkflowSaga

open Process ExtCanonical ExtInstallOps JsonValue

/-! ## What the steps exchange -/

inductive SagaError where
  /-- A step threw. -/
  | step (message : String)
  /-- `WorkflowInstallPreflightError`. -/
  | preflight (code message : String)
  | journal (err : JournalError)
  /-- Not exactly one live canonical row. -/
  | noSingleRow (step : String) (scope : Scope)
  | sourceRefused (fields : List String)
  | edgeRefused (problems : List String)
  | grantMissing
  | grantStale
  | grantSuperset (ports : List String)
  | dashboardTemplateMissing
deriving DecidableEq

structure MaterializationPlan where
  name : String
  version : String
  document : Json

/-- What `resolveIntegrity` answers. -/
structure ResolvedIntegrity where
  integrity : String
  registryUrl : String
  sha256 : Option String
  signature : Option String
  resolvedVersion : Option String
  materializationPlan : Option Json

structure Materialized where
  storeDir : String
  digest : String
  integrity : String
  contentHash : String

inductive ExtensionTrustTier where
  | trustedSigned | trustedBootstrap | untrusted
deriving DecidableEq

/-- A compiled template: its unique key, and what it holds. -/
structure TemplateManifest where
  key : String
  version : Nat
  definition : Json

structure WorkflowInstallPreflightResult where
  manifest : TemplateManifest
  dashboardConfig : Option Json

structure InstalledTemplate where
  templateId : Nat
  wasReinstall : Bool

/-- A verdaccio source as `readCurrentSource` and `recordProvenance` carry it. -/
structure Provenance where
  version : String
  registryUrl : String
  integrity : String
  contentHash : Option String
  attestedSha256 : Option String
  signature : Option String
  closureHash : Option String

/-- A value that is absent or empty is left out. -/
def truthy (x : Option String) : Option String := x.filter (· ≠ "")

structure SagaHost where
  /-- `createHash("sha256").update(s).digest("hex")`. -/
  sha256 : List Char → String
  parseMaterializationPlan : Json → Except SagaError MaterializationPlan
  computeClosureHash : MaterializationPlan → String
  /-- `none` is the undefined verdict of an unsigned package. -/
  resolveSignatureVerdict : (packageName version integrity : String) →
    (signature closureHash : Option String) → Option Bool
  registryHostOf : String → Option String
  trustedActivationHosts : List String
  allowMarketplaceBootstrapTrust : Bool
  /-- `evaluateHostSdkCompat`, and what a refusal says of an install or an update. -/
  compatible : Option String → Bool
  formatHostSdkCompatRefusal : (update : Bool) → (packageName version : String) →
    (sdkAbiRange : Option String) → String

/-- `classifyExtensionTrust`, of verified integrity under a persisted decision. -/
def classifyExtensionTrust (host : SagaHost) (registryUrl : String)
    (signatureVerified : Option Bool) : ExtensionTrustTier :=
  match host.registryHostOf registryUrl with
  | none => .untrusted
  | some h =>
    if !host.trustedActivationHosts.contains h then .untrusted
    else match signatureVerified with
      | some false => .untrusted
      | some true => .trustedSigned
      | none => if host.allowMarketplaceBootstrapTrust then .trustedBootstrap else .untrusted

/-! ## The steps -/

inductive RestoreStep where
  | provenance | dependencies | journal
deriving DecidableEq

inductive Call where
  | resolveIntegrity (packageName version : String)
  | readInstallOp (scope : Scope)
  | materialize (packageName version integrity registryUrl : String)
      (plan : Option MaterializationPlan) (closureHash : Option String)
  | readDeclaredCompat (storeDir : String)
  | gcStoreDir (storeDir : String)
  | readDependencyEdges (storeDir : String)
  | readRequestedPorts (storeDir : String)
  | readCurrentSource (scope : Scope)
  | readCurrentDependencies (scope : Scope)
  | beginInstallOp (installOpId : String) (scope : Scope)
  | advanceInstallOpPhase (installOpId : String) (phase : InstallOpPhase)
      (digest : Option String := none)
  | recordRequestedGrant (scope : Scope) (requestedPorts : List String)
  | approveGrant (scope : Scope) (approvedPorts requestedPorts : List String) (approvedBy : String)
  | preflightFromStore (storeDir packageName version : String)
  | installWorkflowTemplate (manifest : TemplateManifest) (orgId userId packageName : String)
  | materializeDashboardTemplate (packageName orgId userId : String) (config : Json)
  | listOrgProjectIds (orgId : String)
  | materializeInstanceForProject (packageName orgId userId projectId : String)
  | restoreDashboards (packageName orgId userId : String)
  | recordProvenance (scope : Scope) (provenance : Provenance)
  | persistDependencyEdges (scope : Scope) (dependencies : List ExtensionDependency)
  | assertForwardInstallClosure (scope : Scope)
  | finalizeInstallOp (installOpId : String)
  | archiveDashboards (packageName orgId userId : String)
  | deleteWorkflowTemplate (templateId : Nat)
  | failInstallOp (installOpId : String)
  | emitOperationalEvent (scope : Scope) (step : RestoreStep)

def Call.Reply : Call → Type
  | .resolveIntegrity _ _ => ResolvedIntegrity
  | .readInstallOp _ => Option InstallOp
  | .materialize _ _ _ _ _ _ => Materialized
  | .readDeclaredCompat _ => Option String
  | .readDependencyEdges _ => List ExtensionDependency
  | .readRequestedPorts _ | .listOrgProjectIds _ => List String
  | .readCurrentSource _ => Option Provenance
  | .readCurrentDependencies _ => Option (List ExtensionDependency)
  | .preflightFromStore _ _ _ => WorkflowInstallPreflightResult
  | .installWorkflowTemplate _ _ _ _ => InstalledTemplate
  | .deleteWorkflowTemplate _ => Bool
  | _ => Unit

abbrev P := Prog Call Call.Reply SagaError

/-! ## Before the journal -/

structure SagaInput where
  packageName : String
  version : Option String
  userId : Option String
  orgId : Option String

/-- `actorOrgGuard`: the actor's user and organisation. -/
def actorOrgGuard (input : SagaInput) : Except SagaError (String × String) :=
  match truthy input.userId, truthy input.orgId with
  | some userId, some orgId => .ok (userId, orgId)
  | _, _ => .error (.preflight "MISSING_ORG_CONTEXT"
      "Missing organization context for the workflow install.")

/-- The attempt: who installs what, for whom. -/
structure Attempt where
  packageName : String
  userId : String
  orgId : String

def Attempt.scope (a : Attempt) : Scope := ⟨a.packageName, some a.orgId⟩

def Attempt.installOpId (a : Attempt) (version : String) : String :=
  a.packageName ++ "@" ++ version ++ ":wf:" ++ a.orgId

/-- The resolved artifact, its plan and its signature's verdict. -/
structure Artifact where
  resolved : ResolvedIntegrity
  version : String
  plan : Option MaterializationPlan
  closureHash : Option String
  signatureVerified : Option Bool

/-- The plan a package is served with binds this very package. -/
def boundPlan (host : SagaHost) (packageName version : String)
    (unbound : MaterializationPlan → SagaError) :
    Option Json → Except SagaError (Option MaterializationPlan)
  | none => .ok none
  | some served =>
    match host.parseMaterializationPlan served with
    | .error err => .error err
    | .ok plan =>
      if plan.name ≠ packageName ∨ plan.version ≠ version then .error (unbound plan)
      else .ok (some plan)

/-- The checks of a resolved package that need no store, with what each throws. -/
def checkServed (host : SagaHost) (packageName requestedVersion : String)
    (unbound : String → MaterializationPlan → SagaError) (unsigned : String → SagaError)
    (resolved : ResolvedIntegrity) : Except SagaError Artifact :=
  let version := resolved.resolvedVersion.getD requestedVersion
  match boundPlan host packageName version (unbound version) resolved.materializationPlan with
  | .error err => .error err
  | .ok plan =>
    let closureHash := plan.map host.computeClosureHash
    let signatureVerified := host.resolveSignatureVerdict packageName version
      resolved.integrity resolved.signature closureHash
    if plan.isSome && signatureVerified ≠ some true then .error (unsigned version)
    else .ok ⟨resolved, version, plan, closureHash, signatureVerified⟩

def checkArtifact (host : SagaHost) (packageName requestedVersion : String) :
    ResolvedIntegrity → Except SagaError Artifact :=
  checkServed host packageName requestedVersion
    (fun version plan => .preflight "UNTRUSTED" (packageName ++ "@" ++ version ++
      ": the served materialization plan identifies as " ++ plan.name ++ "@" ++
      plan.version ++ " — a plan must bind the exact resolved package"))
    (fun version => .preflight "UNTRUSTED" (packageName ++ "@" ++ version ++
      ": carries a materialization plan but no VERIFIED v2 signature binding " ++
      "its closureHash — refused before any fetch or write (cinatra#181 downgrade refusal)"))

def resolveArtifact (host : SagaHost) (a : Attempt) (requestedVersion : String) : P Artifact := do
  let resolved ← perform <| Call.resolveIntegrity a.packageName requestedVersion
  match checkArtifact host a.packageName requestedVersion resolved with
  | .error err => throwErr err
  | .ok artifact => pure artifact

/-- A refusal before the journal: the store directory is collected, nothing else. -/
def refuse {α : Type} (storeDir : String) (err : SagaError) : P α := do
  swallow (perform <| Call.gcStoreDir storeDir)
  throwErr err

/-- What the gates before the journal have let through. -/
structure Admitted where
  mat : Materialized
  dependencyEdges : List ExtensionDependency
  requestedPorts : List String
  tier : ExtensionTrustTier

/-- Materialize, then the host-compat gate, the edge read and the trust gate. -/
def passGates (host : SagaHost) (a : Attempt) (artifact : Artifact) (update : Bool) :
    P Admitted := do
  let mat ← perform <| Call.materialize a.packageName artifact.version artifact.resolved.integrity
    artifact.resolved.registryUrl artifact.plan artifact.closureHash
  let sdkAbiRange ← perform <| Call.readDeclaredCompat mat.storeDir
  if !host.compatible sdkAbiRange then
    refuse mat.storeDir (.preflight "HOST_SDK_INCOMPATIBLE"
      (host.formatHostSdkCompatRefusal update a.packageName artifact.version sdkAbiRange))
  else do
    let edges ← Prog.attempt (perform <| Call.readDependencyEdges mat.storeDir)
    match edges with
    | .error err => refuse mat.storeDir err
    | .ok dependencyEdges => do
      let requestedPorts ← perform <| Call.readRequestedPorts mat.storeDir
      let tier := classifyExtensionTrust host artifact.resolved.registryUrl
        artifact.signatureVerified
      if tier = .untrusted then
        refuse mat.storeDir (.preflight "UNTRUSTED" (a.packageName ++ "@" ++ artifact.version ++
          ": refused by the trust/signature gate before any writes"))
      else pure ⟨mat, dependencyEdges, requestedPorts, tier⟩

/-- What a failed update is to restore. -/
structure Captured where
  isUpdate : Bool
  priorSource : Option Provenance
  priorEdges : Option (List ExtensionDependency)

def capture (scope : Scope) (existing : Option InstallOp) : P Captured :=
  if existing.any InstallOp.isFinalized then do
    let priorSource ← perform <| Call.readCurrentSource scope
    let priorEdges ← perform <| Call.readCurrentDependencies scope
    pure ⟨true, priorSource, priorEdges⟩
  else pure ⟨false, none, none⟩

/-! ## The journaled region -/

/-- `if (x !== null) { p(x) }`. -/
def ifSome {α : Type} (x : Option α) (p : α → P Unit) : P Unit :=
  match x with
  | some y => p y
  | none => pure ()

/-- Journal and grant, then the preflight: everything before the first write. -/
def grantAndPreflight (a : Attempt) (artifact : Artifact) (adm : Admitted) :
    P WorkflowInstallPreflightResult := do
  let opId := a.installOpId artifact.version
  perform <| Call.advanceInstallOpPhase opId .materialized (some adm.mat.digest)
  perform <| Call.recordRequestedGrant a.scope adm.requestedPorts
  onlyIf (adm.tier = .trustedSigned)
    (perform <| Call.approveGrant a.scope adm.requestedPorts adm.requestedPorts a.userId)
  perform <| Call.advanceInstallOpPhase opId .granted
  let preflight ← perform <| Call.preflightFromStore adm.mat.storeDir a.packageName artifact.version
  perform <| Call.advanceInstallOpPhase opId .preflighted
  pure preflight

def materializeInstances (a : Attempt) : List String → P Unit
  | [] => pure ()
  | projectId :: rest => do
    perform <| Call.materializeInstanceForProject a.packageName a.orgId a.userId projectId
    materializeInstances a rest

/-- The dashboard writes: template, instances, reactivation. -/
def writeDashboards (a : Attempt) (opId : String) : Option Json → P Bool
  | none => pure false
  | some config => do
    perform <| Call.advanceInstallOpPhase opId .writing
    perform <| Call.materializeDashboardTemplate a.packageName a.orgId a.userId config
    let projectIds ← perform <| Call.listOrgProjectIds a.orgId
    materializeInstances a projectIds
    perform <| Call.restoreDashboards a.packageName a.orgId a.userId
    pure true

/-- The provenance of the attempt. -/
def Artifact.provenance (artifact : Artifact) (mat : Materialized) : Provenance :=
  { version := artifact.version, registryUrl := artifact.resolved.registryUrl
    integrity := mat.integrity, contentHash := some mat.contentHash
    attestedSha256 := truthy artifact.resolved.sha256
    signature := truthy artifact.resolved.signature
    closureHash := truthy artifact.closureHash }

/-- Provenance, edges, the forward gate of a fresh install, and the finalize. -/
def lateWrites (a : Attempt) (artifact : Artifact) (adm : Admitted) (isUpdate : Bool) : P Unit := do
  perform <| Call.recordProvenance a.scope (artifact.provenance adm.mat)
  perform <| Call.persistDependencyEdges a.scope adm.dependencyEdges
  onlyIf (!isUpdate) (perform <| Call.assertForwardInstallClosure a.scope)
  perform <| Call.finalizeInstallOp (a.installOpId artifact.version)

/-! ## The catch block -/

/-- `compensate`. -/
def compensate (a : Attempt) (createdTemplateId : Option Nat) (enteredDashboardWrites : Bool) :
    P Unit := do
  onlyIf enteredDashboardWrites
    (swallow (perform <| Call.archiveDashboards a.packageName a.orgId a.userId))
  ifSome createdTemplateId (fun templateId => swallow (perform <| Call.deleteWorkflowTemplate templateId))

/-- One restore step: a failure is reported and passed over. -/
def restoring (a : Attempt) (step : RestoreStep) (p : P Unit) : P Unit := do
  let r ← p.attempt
  match r with
  | .ok _ => pure ()
  | .error _ => swallow (perform <| Call.emitOperationalEvent a.scope step)

/-- The captured provenance as it is recorded again. -/
def Provenance.recorded (p : Provenance) : Provenance :=
  { p with contentHash := some (p.contentHash.getD ""), attestedSha256 := truthy p.attestedSha256
           signature := truthy p.signature, closureHash := truthy p.closureHash }

/-- Put the captured source and edges back. -/
def restorePrior (a : Attempt) (cap : Captured) : P Unit := do
  ifSome cap.priorSource (fun source =>
    restoring a .provenance (perform <| Call.recordProvenance a.scope source.recorded))
  ifSome cap.priorEdges (fun edges =>
    restoring a .dependencies (perform <| Call.persistDependencyEdges a.scope edges))

/-- The catch block: it always throws what it caught. -/
def unwind {α : Type} (a : Attempt) (opId : String) (cap : Captured)
    (createdTemplateId : Option Nat) (enteredDashboardWrites : Bool) (err : SagaError) : P α := do
  compensate a createdTemplateId enteredDashboardWrites
  swallow (do
    perform <| Call.failInstallOp opId
    perform <| Call.advanceInstallOpPhase opId .rolledBack)
  onlyIf cap.isUpdate (restorePrior a cap)
  throwErr err

/-- Go on with the result, or unwind. -/
def orUnwind {α β : Type} (p : P α) (onThrow : SagaError → P β) (k : α → P β) : P β := do
  let r ← p.attempt
  match r with
  | .ok x => k x
  | .error err => onThrow err

/-! ## The saga -/

inductive SagaStatus where
  | installed | alreadyFinalized
deriving DecidableEq

structure SagaResult where
  status : SagaStatus
  version : String
  templateId : Option Nat
  dashboardMaterialized : Bool

/-- The `try` block, with the flags the catch block sees. -/
def journaled (a : Attempt) (artifact : Artifact) (adm : Admitted) (cap : Captured) :
    P SagaResult :=
  let opId := a.installOpId artifact.version
  orUnwind (grantAndPreflight a artifact adm) (unwind a opId cap none false) fun preflight =>
  orUnwind (perform <| Call.installWorkflowTemplate preflight.manifest a.orgId a.userId a.packageName)
    (unwind a opId cap none false) fun tpl =>
  let created := if tpl.wasReinstall then none else some tpl.templateId
  let entered := preflight.dashboardConfig.isSome
  orUnwind (writeDashboards a opId preflight.dashboardConfig)
    (unwind a opId cap created entered) fun written =>
  orUnwind (lateWrites a artifact adm cap.isUpdate) (unwind a opId cap created entered) fun _ =>
  pure ⟨.installed, artifact.version, some tpl.templateId, written⟩

def runAttempt (host : SagaHost) (a : Attempt) (requestedVersion : String) : P SagaResult := do
  let artifact ← resolveArtifact host a requestedVersion
  let existing ← perform <| Call.readInstallOp a.scope
  if existing.any (fun op => op.isFinalized && op.installOpId = a.installOpId artifact.version) then
    pure ⟨.alreadyFinalized, artifact.version, none, false⟩
  else do
    let adm ← passGates host a artifact (existing.any InstallOp.isFinalized)
    let cap ← capture a.scope existing
    perform <| Call.beginInstallOp (a.installOpId artifact.version) a.scope
    journaled a artifact adm cap

def installWorkflowExtensionSaga (host : SagaHost) (input : SagaInput) : P SagaResult :=
  match actorOrgGuard input with
  | .error err => throwErr err
  | .ok (userId, orgId) =>
    runAttempt host ⟨input.packageName, userId, orgId⟩ (input.version.getD "0.0.0")

end ExtWorkflowSaga
