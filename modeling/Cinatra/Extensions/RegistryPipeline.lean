import Cinatra.Extensions.DependencyClosure
import Cinatra.Extensions.SagaWorld

/-! # RegistryPipeline — the install pipeline of a registry package

    `installExtensionFromRegistry` over the production wiring of its steps, and
    `hotUpdateWithDurableRollback`, which activates an update.  A refusal before
    the journal is begun writes nothing; a throw between the begin and the finalize
    ends the attempt's op and puts the captured grant, source and edges back; an
    update that does not activate is rolled back from the committed state. -/

namespace ExtRegistry

open Process ExtCanonical ExtInstallOps
open ExtWorkflowSaga (SagaHost SagaError MaterializationPlan ResolvedIntegrity Materialized
  ExtensionTrustTier Provenance Artifact truthy classifyExtensionTrust checkServed)
open ExtSagaWorld (GrantStatus HostPortGrant computeRequestedPortsHash)

/-! ## What the steps exchange -/

structure RegistryHost extends SagaHost where
  /-- `isGatekeptInstallEnabled`. -/
  gatekept : Bool
  finalRegistryUrl : String

structure InstallPipelineInput where
  packageName : String
  version : String
  orgId : Option String
  actorUserId : Option String := none
  installOpId : Option String := none

def InstallPipelineInput.scope (input : InstallPipelineInput) : Scope :=
  ⟨input.packageName, input.orgId⟩

/-- The attempt's op id: the caller's, or one with eight drawn characters. -/
def InstallPipelineInput.opId (input : InstallPipelineInput) (drawn : String) : String :=
  input.installOpId.getD (input.packageName ++ "@" ++ input.version ++ ":" ++ drawn)

/-- What `verifyActivatableBeforeFinalize` finds. -/
inductive ProbeVerdict where
  | fresh
  | activatable
  | refused (reason : String)

inductive ActivationStatus where
  | registered | bootstrapped | skipped | failed
deriving DecidableEq

def ActivationStatus.text : ActivationStatus → String
  | .registered => "registered"
  | .bootstrapped => "bootstrapped"
  | .skipped => "skipped"
  | .failed => "failed"

structure ActivationResult where
  packageName : String
  status : ActivationStatus
  reason : Option String

/-- The durable axes of an install. -/
inductive DurableStep where
  | provenance | grant | dependencies | journal
deriving DecidableEq

inductive UnwindPath where
  | preFinalize | postCommitRollback
deriving DecidableEq

/-- The event `install_durable_restore_failed`. -/
structure InstallDurableRestoreFailureEvent where
  scope : Scope
  step : DurableStep
  path : UnwindPath
  reason : SagaError

/-- Which of its callers records a source: the install, or a restore of the old one. -/
inductive Recorder where
  | install | restore
deriving DecidableEq

inductive Call where
  | resolveIntegrity (packageName version : String)
  | materialize (packageName version integrity registryUrl : String)
      (plan : Option MaterializationPlan) (closureHash : Option String)
  | readRequestedPorts (storeDir : String)
  | readInstallOp (scope : Scope)
  | readDeclaredCompat (storeDir : String)
  | gcStoreDir (storeDir : String)
  | readDependencyEdges (storeDir : String)
  | readGrantForScope (scope : Scope)
  | verifyActivatableBeforeFinalize (scope : Scope) (mat : Materialized)
      (approvedPorts : List String)
  | readCurrentSource (scope : Scope)
  | readCurrentDependencies (scope : Scope)
  | beginInstallOp (installOpId : String) (scope : Scope) (digest : String)
  | recordRequestedGrant (scope : Scope) (requestedPorts : List String)
  | approveGrant (scope : Scope) (approvedPorts requestedPorts : List String) (approvedBy : String)
  | advanceInstallOpPhase (installOpId : String) (phase : InstallOpPhase)
  | preflightMigrations (storeDir packageName : String)
  | applyMigrations (storeDir packageName version : String)
  | recordProvenance (recorder : Recorder) (scope : Scope) (provenance : Provenance)
  | persistDependencyEdges (scope : Scope) (dependencies : List ExtensionDependency)
  | assertForwardInstallClosure (scope : Scope)
  | finalizeInstallOp (installOpId : String)
  | restoreGrant (scope : Scope) (grant : HostPortGrant)
  | emitOperationalEvent (event : InstallDurableRestoreFailureEvent)
  | discoverSupersededStoreDirs (packageName newStoreDir : String)
  | resolveApprovedPorts (scope : Scope)
  | quarantineSupersededDigests (packageName newStoreDir : String) (grantedPorts : List String)
  | readQuarantineManifest (packageName : String)
  | loadOnlyPackage (scope : Scope) (teardownFirst : Bool)
  | gcQuarantined (quarantined : List String)
  | teardownPartialNewRegistration (packageName newStoreDir : String) (grantedPorts : List String)
  | restoreQuarantined (quarantined : List String)
  | activateInstalledPackageInProcess (scope : Scope) (storeDir : String)

def Call.Reply : Call → Type
  | .resolveIntegrity _ _ => ResolvedIntegrity
  | .materialize _ _ _ _ _ _ => Materialized
  | .readRequestedPorts _ | .resolveApprovedPorts _ | .readQuarantineManifest _
  | .restoreQuarantined _ => List String
  | .readInstallOp _ => Option InstallOp
  | .readDeclaredCompat _ => Option String
  | .readDependencyEdges _ => List ExtensionDependency
  | .readGrantForScope _ => Option HostPortGrant
  | .verifyActivatableBeforeFinalize _ _ _ => ProbeVerdict
  | .readCurrentSource _ => Option Provenance
  | .readCurrentDependencies _ => Option (List ExtensionDependency)
  | .preflightMigrations _ _ | .discoverSupersededStoreDirs _ _ => Bool
  | .loadOnlyPackage _ _ | .activateInstalledPackageInProcess _ _ => List ActivationResult
  | _ => Unit

abbrev P := Prog Call Call.Reply SagaError

/-! ## Before the journal -/

def checkResolved (host : SagaHost) (packageName requestedVersion : String) :
    ResolvedIntegrity → Except SagaError Artifact :=
  checkServed host packageName requestedVersion
    (fun version plan => .step ("[install-pipeline] " ++ packageName ++ "@" ++ version ++
      ": the served materialization plan identifies as " ++ plan.name ++ "@" ++
      plan.version ++ " — a plan must bind the exact resolved package; refusing"))
    (fun version => .step ("[install-pipeline] " ++ packageName ++ "@" ++ version ++
      ": carries a materialization plan but no VERIFIED v2 signature binding its closureHash"))

def resolveArtifact (host : SagaHost) (input : InstallPipelineInput) : P Artifact := do
  let resolved ← perform <| Call.resolveIntegrity input.packageName input.version
  match checkResolved host input.packageName input.version resolved with
  | .error err => throwErr err
  | .ok artifact => pure artifact

/-- `isLiveDigest`: the directory is the live install's. -/
def isLiveDigest (priorOp : Option InstallOp) (mat : Materialized) : Bool :=
  priorOp.any (fun op => op.isFinalized && op.digest = some mat.digest)

/-- Collect the directory, unless the live install is in it. -/
def gcUnlessLive (priorOp : Option InstallOp) (mat : Materialized) : P Unit :=
  if isLiveDigest priorOp mat then pure () else swallow (perform <| Call.gcStoreDir mat.storeDir)

/-- The host-compat gate. -/
def hostCompatGate (host : SagaHost) (input : InstallPipelineInput) (version : String)
    (priorOp : Option InstallOp) (mat : Materialized) : P Unit := do
  let sdkAbiRange ← perform <| Call.readDeclaredCompat mat.storeDir
  if host.compatible sdkAbiRange then pure ()
  else do
    gcUnlessLive priorOp mat
    throwErr (.step (host.formatHostSdkCompatRefusal (priorOp.any InstallOp.isFinalized)
      input.packageName version sdkAbiRange))

/-- The manifest's edges; a manifest that cannot be read is refused. -/
def readEdges (priorOp : Option InstallOp) (mat : Materialized) : P (List ExtensionDependency) :=
  tryCatch (perform <| Call.readDependencyEdges mat.storeDir) (fun err => do
    gcUnlessLive priorOp mat
    throwErr err)

/-- The ports an activation will be granted where nothing is granted by itself. -/
def effectiveBootstrapPorts (host : SagaHost) (requestedPorts : List String) :
    Option HostPortGrant → List String
  | none => []
  | some grant =>
    if grant.status = .approved ∧
        grant.requestedPortsHash = computeRequestedPortsHash host requestedPorts then
      grant.approvedPorts
    else []

def probePorts (host : SagaHost) (scope : Scope) (tier : ExtensionTrustTier)
    (requestedPorts : List String) : P (List String) :=
  if tier = .trustedSigned then pure requestedPorts
  else do
    let grant ← perform <| Call.readGrantForScope scope
    pure (effectiveBootstrapPorts host requestedPorts grant)

/-- The pre-finalize activation gate, of a trusted package. -/
def activationGate (host : SagaHost) (input : InstallPipelineInput) (mat : Materialized)
    (tier : ExtensionTrustTier) (requestedPorts : List String) : P Unit :=
  if tier = .untrusted then pure ()
  else do
    let ports ← probePorts host input.scope tier requestedPorts
    let verdict ← perform <| Call.verifyActivatableBeforeFinalize input.scope mat ports
    match verdict with
    | .refused reason => do
      swallow (perform <| Call.gcStoreDir mat.storeDir)
      throwErr (.step ("update of " ++ input.packageName ++ "@" ++ input.version ++
        " could not activate the new digest (" ++ reason ++
        ") — the previous install is left durably intact"))
    | .fresh | .activatable => pure ()

/-- What a failed update is to put back. -/
structure Captured where
  isUpdate : Bool
  priorSource : Option Provenance
  priorGrant : Option HostPortGrant
  priorEdges : Option (List ExtensionDependency)

def capture (scope : Scope) (priorOp : Option InstallOp) : P Captured :=
  if priorOp.any InstallOp.isFinalized then do
    let priorSource ← perform <| Call.readCurrentSource scope
    let priorGrant ← perform <| Call.readGrantForScope scope
    let priorEdges ← perform <| Call.readCurrentDependencies scope
    pure ⟨true, priorSource, priorGrant, priorEdges⟩
  else pure ⟨false, none, none, none⟩

/-! ## The journaled region -/

/-- The attempt, past its gates. -/
structure Attempt where
  scope : Scope
  opId : String
  approvedBy : String
  artifact : Artifact
  mat : Materialized
  dependencyEdges : List ExtensionDependency
  requestedPorts : List String
  tier : ExtensionTrustTier
  isUpdate : Bool

/-- `autoGrantPrivileged`. -/
def Attempt.autoGrant (a : Attempt) : Bool := a.tier = .trustedSigned

def Attempt.provenance (a : Attempt) : Provenance where
  version := a.artifact.version
  registryUrl := a.artifact.resolved.registryUrl
  integrity := a.mat.integrity
  contentHash := some a.mat.contentHash
  attestedSha256 := truthy a.artifact.resolved.sha256
  signature := truthy a.artifact.resolved.signature
  closureHash := truthy a.artifact.closureHash

/-- Begin, grant and migrate. -/
def grantAndMigrate (a : Attempt) : P Unit := do
  perform <| Call.beginInstallOp a.opId a.scope a.mat.digest
  perform <| Call.recordRequestedGrant a.scope a.requestedPorts
  onlyIf a.autoGrant
    (perform <| Call.approveGrant a.scope a.requestedPorts a.requestedPorts a.approvedBy)
  perform <| Call.advanceInstallOpPhase a.opId .granted
  let declaresMigrations ← perform <| Call.preflightMigrations a.mat.storeDir a.scope.packageName
  if declaresMigrations && !a.autoGrant then
    throwErr (.step ("[install-pipeline] " ++ a.scope.packageName ++
      " declares host migrations (cinatra.migrationsDir) but this install is not trusted-signed"))
  else
    onlyIf a.autoGrant do
      perform <| Call.applyMigrations a.mat.storeDir a.scope.packageName a.artifact.version
      perform <| Call.advanceInstallOpPhase a.opId .preflighted

/-- Source and edges, and the forward gate of a fresh install. -/
def lateWrites (a : Attempt) : P Unit := do
  perform <| Call.recordProvenance .install a.scope a.provenance
  perform <| Call.persistDependencyEdges a.scope a.dependencyEdges
  onlyIf (!a.isUpdate) (perform <| Call.assertForwardInstallClosure a.scope)

/-- The `try` block. -/
def journaled (a : Attempt) : P Unit := do
  grantAndMigrate a
  lateWrites a
  perform <| Call.finalizeInstallOp a.opId

/-! ## Restoring the previous install -/

/-- A restore step: a failure is reported and passed over. -/
def restoring (scope : Scope) (path : UnwindPath) (step : DurableStep) (p : P Unit) :
    P (List DurableStep) := do
  let r ← p.attempt
  match r with
  | .ok _ => pure []
  | .error err => do
    perform <| Call.emitOperationalEvent ⟨scope, step, path, err⟩
    pure [step]

/-- A step that applies where something was captured. -/
def restoringSome {α : Type} (x : Option α) (f : α → P (List DurableStep)) : P (List DurableStep) :=
  match x with
  | some y => f y
  | none => pure []

/-- The captured source as it is recorded again. -/
def restored (p : Provenance) : Provenance :=
  { p with contentHash := some (p.contentHash.getD ""), attestedSha256 := truthy p.attestedSha256
           signature := truthy p.signature, closureHash := truthy p.closureHash }

def restoreSource (scope : Scope) (path : UnwindPath) (cap : Captured) : P (List DurableStep) :=
  restoringSome cap.priorSource fun source =>
    restoring scope path .provenance (perform <| Call.recordProvenance .restore scope (restored source))

def restoreGrant (scope : Scope) (path : UnwindPath) (cap : Captured) : P (List DurableStep) :=
  restoringSome cap.priorGrant fun grant =>
    restoring scope path .grant (perform <| Call.restoreGrant scope grant)

def restoreEdges (scope : Scope) (path : UnwindPath) (cap : Captured) : P (List DurableStep) :=
  restoringSome cap.priorEdges fun edges =>
    restoring scope path .dependencies (perform <| Call.persistDependencyEdges scope edges)

/-- The attempt's op is ended. -/
def terminalize (opId : String) : P Unit :=
  swallow do
    perform <| Call.advanceInstallOpPhase opId .failed
    perform <| Call.advanceInstallOpPhase opId .rolledBack

/-- The catch block: it always throws what it caught.  The journal is left to the
    op that was there before. -/
def abort {α : Type} (a : Attempt) (cap : Captured) (err : SagaError) : P α := do
  terminalize a.opId
  onlyIf cap.isUpdate do
    let _ ← restoreGrant a.scope .preFinalize cap
    let _ ← restoreSource a.scope .preFinalize cap
    let _ ← restoreEdges a.scope .preFinalize cap
    pure ()
  throwErr err

/-- The steps that failed; none of them is a clean rollback. -/
def restoreDurableAnchor (scope : Scope) (prior : InstallOp) (cap : Captured) :
    P (List DurableStep) := do
  let source ← restoreSource scope .postCommitRollback cap
  let journal ← restoring scope .postCommitRollback .journal
    (perform <| Call.finalizeInstallOp prior.installOpId)
  let grant ← restoreGrant scope .postCommitRollback cap
  let edges ← restoreEdges scope .postCommitRollback cap
  pure (source ++ journal ++ grant ++ edges)

/-! ## Activation -/

structure HotUpdateActivateResult where
  activated : Bool
  rolledBack : Bool := false
  rollbackComplete : Bool := false
  reason : Option String := none

/-- `failReason`, and the refusal of `summarizeActivation`. -/
def refusalReason (results : List ActivationResult) : String :=
  match (results.find? (fun r => r.status = .failed)).or results.head? with
  | none => "anchor-refused"
  | some r =>
    match truthy r.reason with
    | none => r.status.text
    | some why => r.status.text ++ ":" ++ why

/-- Registered, and no phase failed. -/
def succeeded (results : List ActivationResult) : Bool :=
  results.any (fun r => r.status = .registered || r.status = .bootstrapped) &&
    !results.any (fun r => r.status = .failed)

def summarizeActivation (results : List ActivationResult) (packageName : String) :
    HotUpdateActivateResult :=
  let pkgResults := results.filter (fun r => r.packageName = packageName)
  if succeeded pkgResults then { activated := true }
  else { activated := false, reason := some (refusalReason pkgResults) }

/-- A throw of the loader counts as a failed registration. -/
def loadNew (scope : Scope) : P (List ActivationResult) :=
  tryCatch (perform (Call.loadOnlyPackage scope false))
    (fun _ => pure [⟨scope.packageName, .failed, some "register-threw"⟩])

/-- The new digest did not activate: back to the old one. -/
def rollBack (scope : Scope) (newStoreDir : String) (grantedPorts quarantined : List String)
    (failReason : String) (restore : P (List DurableStep)) : P HotUpdateActivateResult := do
  let outcome ← restore.attempt
  swallow (perform (Call.teardownPartialNewRegistration scope.packageName newStoreDir grantedPorts))
  swallow (perform <| Call.gcStoreDir newStoreDir)
  let storeFailed : List String ← perform (Call.restoreQuarantined quarantined)
  swallow (perform (Call.loadOnlyPackage scope true))
  let complete := storeFailed.isEmpty && (match outcome with
    | .ok failedSteps => failedSteps.isEmpty
    | .error _ => false)
  pure ⟨false, true, complete, some (if complete then failReason
    else failReason ++ " (durable rollback INCOMPLETE)")⟩

def hotUpdateWithDurableRollback (scope : Scope) (newStoreDir : String)
    (restore : P (List DurableStep)) : P HotUpdateActivateResult := do
  let superseded : Bool ← perform (Call.discoverSupersededStoreDirs scope.packageName newStoreDir)
  if !superseded then do
    let results : List ActivationResult ← perform (Call.loadOnlyPackage scope false)
    pure (summarizeActivation results scope.packageName)
  else do
    let grantedPorts : List String ← tryCatch (perform (Call.resolveApprovedPorts scope))
      (fun _ => pure [])
    let _ ← perform (Call.quarantineSupersededDigests scope.packageName newStoreDir grantedPorts)
    let quarantined : List String ← perform (Call.readQuarantineManifest scope.packageName)
    let results ← loadNew scope
    let pkgResults := results.filter (fun r => r.packageName = scope.packageName)
    if succeeded pkgResults then do
      let _ ← perform (Call.gcQuarantined quarantined)
      pure { activated := true }
    else
      rollBack scope newStoreDir grantedPorts quarantined (refusalReason pkgResults) restore

/-- The activation of a fresh install, or of the digest that is live: best effort. -/
def activateInProcess (scope : Scope) (storeDir : String) : P HotUpdateActivateResult :=
  tryCatch (do
      let results : List ActivationResult ←
        perform (Call.activateInstalledPackageInProcess scope storeDir)
      pure (summarizeActivation results scope.packageName))
    (fun _ => pure { activated := false, reason := some "activate-threw" })

/-- A superseding update is rolled back where it does not activate; should its
    activator throw, the restore runs again as a last resort. -/
def activateUpdate (scope : Scope) (storeDir : String) (restore : P (List DurableStep)) :
    P HotUpdateActivateResult := do
  let r ← (hotUpdateWithDurableRollback scope storeDir restore).attempt
  match r with
  | .ok res => pure res
  | .error _ => do
    let outcome ← restore.attempt
    pure ⟨false, true, (match outcome with
      | .ok failedSteps => failedSteps.isEmpty
      | .error _ => false), some "update-activate-threw"⟩

/-- `isSupersedingUpdate`: the prior op, of another digest. -/
def superseding (cap : Captured) (priorOp : Option InstallOp) (mat : Materialized) :
    Option InstallOp :=
  if cap.isUpdate then priorOp.filter (fun op => op.digest ≠ some mat.digest) else none

def activate (a : Attempt) (priorOp : Option InstallOp) (cap : Captured) :
    P HotUpdateActivateResult :=
  match superseding cap priorOp a.mat with
  | some prior => activateUpdate a.scope a.mat.storeDir (restoreDurableAnchor a.scope prior cap)
  | none => activateInProcess a.scope a.mat.storeDir

structure InstallPipelineResult where
  packageName : String
  version : String
  mat : Materialized
  requestedPorts : List String
  grantStatus : GrantStatus
  activated : Bool
  rolledBack : Bool
  /-- Of a rollback only. -/
  rollbackComplete : Option Bool
  reason : Option String

def pipelineResult (a : Attempt) (res : HotUpdateActivateResult) : InstallPipelineResult where
  packageName := a.scope.packageName
  version := a.artifact.version
  mat := a.mat
  requestedPorts := a.requestedPorts
  grantStatus := if a.autoGrant then .approved else .pending
  activated := res.activated
  rolledBack := res.rolledBack
  rollbackComplete := if res.rolledBack then some res.rollbackComplete else none
  reason := res.reason

/-- The gates: what is installed, with what, over what. -/
def passGates (host : SagaHost) (input : InstallPipelineInput) (drawn : String) :
    P (Attempt × Option InstallOp × Captured) := do
  let artifact ← resolveArtifact host input
  let mat ← perform <| Call.materialize input.packageName artifact.version artifact.resolved.integrity
    artifact.resolved.registryUrl artifact.plan artifact.closureHash
  let requestedPorts ← perform <| Call.readRequestedPorts mat.storeDir
  let priorOp ← perform <| Call.readInstallOp input.scope
  hostCompatGate host input artifact.version priorOp mat
  let dependencyEdges ← readEdges priorOp mat
  let tier := classifyExtensionTrust host artifact.resolved.registryUrl artifact.signatureVerified
  activationGate host input mat tier requestedPorts
  let cap ← capture input.scope priorOp
  pure (⟨input.scope, input.opId drawn, input.actorUserId.getD "system:auto-trusted-signed",
    artifact, mat, dependencyEdges, requestedPorts, tier, cap.isUpdate⟩, priorOp, cap)

def installExtensionFromRegistry (host : SagaHost) (input : InstallPipelineInput)
    (drawn : String) : P InstallPipelineResult := do
  let (a, priorOp, cap) ← passGates host input drawn
  let r ← (journaled a).attempt
  match r with
  | .error err => abort a cap err
  | .ok _ => do
    let res ← activate a priorOp cap
    pure (pipelineResult a res)

end ExtRegistry
