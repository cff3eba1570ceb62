import Cinatra.Lib.Process

/-! # InstallBatch — the dependency-batch install and the sweeper

    `installExtensionWithDependencies` and `sweepStaleInstallBatches`, as programs
    over the steps injected into them.  The planner, the registry dispatcher, the
    grant broker and the ledger are behind the calls; what a grant context makes
    of the members' kinds is read by no modelled step and left out, as are the
    rows a ledger write returns. -/

namespace ExtInstallBatch

open Process

/-- Milliseconds since the epoch. -/
abbrev Instant := Int

/-! ## The ledger's rows -/

inductive InstallBatchPhase where
  | planning | installing | finalized | failed | compensated
deriving DecidableEq

/-- `ACTIVE_BATCH_PHASES`. -/
def InstallBatchPhase.active : InstallBatchPhase → Bool
  | .planning | .installing => true
  | _ => false

inductive BatchMemberStatus where
  | planned | alreadyInstalled | installing | installed | failed | compensated | compensationFailed
deriving DecidableEq

/-- What was there before the batch. -/
structure BatchMemberPreState where
  present : Bool
  version : Option String
  installOpId : Option String
  installOpPhase : Option String
deriving DecidableEq

structure InstallBatchMember where
  packageName : String
  version : String
  typeId : String
  status : BatchMemberStatus
  preState : BatchMemberPreState
  installOpId : Option String
  detail : Option String
deriving DecidableEq

/-- The members stand dependencies first, the root last. -/
structure InstallBatch where
  batchId : Nat
  rootPackage : String
  orgId : Option String
  phase : InstallBatchPhase
  members : List InstallBatchMember
  createdAt : Instant
  updatedAt : Instant
deriving DecidableEq

/-- A patch of one member; `none` leaves the column alone. -/
structure MemberPatch where
  status : BatchMemberStatus
  installOpId : Option String := none
  detail : Option String := none

def MemberPatch.apply (patch : MemberPatch) (m : InstallBatchMember) : InstallBatchMember :=
  { m with
    status := patch.status
    installOpId := patch.installOpId.or m.installOpId
    detail := patch.detail.or m.detail }

/-! ## What the steps answer -/

/-- The authorization of a root: its pinned version, its closure, its expiry
    (`none` when it does not parse). -/
structure GrantResolution where
  resolvedVersion : String
  closure : List (String × String)
  expiresAt : Option Instant

structure PlannedMember where
  packageName : String
  version : String
  typeId : String
  alreadyInstalled : Bool

structure PlanInput where
  rootPackage : String
  rootVersion : String
  orgId : Option String
  closure : Option (List (String × String))
deriving DecidableEq

structure LiveRowVersion where
  present : Bool
  version : Option String

/-- What the install-op journal has for a package. -/
structure InstallOpRef where
  installOpId : String
  phase : String

inductive BatchError where
  /-- A step threw; `requiresRebuild` is the code `REQUIRES_REBUILD`. -/
  | step (message : String) (requiresRebuild : Bool)
  | noBatchRow (batchId : Nat)
  | duplicateBatch
  | overlap (batchId : Nat) (rootPackage : String) (names : List String)
  | unparseableExpiry
  | closureChanged
  /-- `BatchMemberInstallError`. -/
  | memberInstall (member : String) (compensated compensationFailures : List String)
      (cause : BatchError)
deriving DecidableEq

def BatchError.requiresRebuild : BatchError → Bool
  | .step _ rebuild => rebuild
  | _ => false

/-- `err.message`, for the ledger's detail column. -/
def BatchError.message : BatchError → String
  | .step message _ => message
  | .noBatchRow _ => "extension_install_batches: no row for batch"
  | .duplicateBatch => "duplicate key value violates unique constraint"
  | .overlap _ _ names => "another install batch is in flight and overlaps this install on: " ++
      String.intercalate ", " names
  | .unparseableExpiry => "the active grant has an unparseable expiry"
  | .closureChanged => "grant refresh returned a DIFFERENT closure"
  | .memberInstall member _ _ cause => "failed at dependency " ++ member ++ ": " ++ cause.message

inductive Call where
  | authorizeRoot (packageName : String) (version : Option String)
  | refreshGrant (resolution : GrantResolution) (packageName version : String)
  | now
  | acquireLifecycleLock
  | releaseLifecycleLock
  | plan (input : PlanInput)
  | listActive
  | readLiveRowVersion (packageName : String) (orgId : Option String)
  | readInstallOp (packageName : String) (orgId : Option String)
  | randomUUID
  | begin (batchId : Nat) (rootPackage : String) (orgId : Option String)
      (members : List InstallBatchMember)
  | setPhase (batchId : Nat) (phase : InstallBatchPhase)
  | updateMember (batchId : Nat) (packageName : String) (patch : MemberPatch)
  | installMember (member : PlannedMember) (orgId : Option String)
  | uninstallMember (packageName version typeId : String)
  | triggerAgentRuntimeReload
  | listStale (olderThanMs : Instant)

def Call.Reply : Call → Type
  | .authorizeRoot _ _ | .refreshGrant _ _ _ => GrantResolution
  | .now => Instant
  | .plan _ => List PlannedMember
  | .listActive | .listStale _ => List InstallBatch
  | .readLiveRowVersion _ _ => LiveRowVersion
  | .readInstallOp _ _ => Option InstallOpRef
  | .randomUUID => Nat
  | .begin _ _ _ _ => InstallBatch
  | _ => Unit

abbrev P := Prog Call Call.Reply BatchError

/-! ## Planning -/

structure InstallInput where
  packageName : String
  version : Option String
  orgId : Option String
  gatekept : Bool
  /-- The caller's grant context, when it is for this root. -/
  adopted : Option GrantResolution

/-- Authorize once, or adopt the caller's grant. -/
def authorize (input : InstallInput) : P (Option GrantResolution) :=
  if input.gatekept then
    match input.adopted with
    | some resolution => pure (some resolution)
    | none => do
      let resolution ← perform <| Call.authorizeRoot input.packageName input.version
      pure (some resolution)
  else pure none

def rootVersionOf (input : InstallInput) (resolution : Option GrantResolution) : String :=
  match resolution with
  | some r => r.resolvedVersion
  | none => input.version.getD "latest"

/-- `withGlobalLifecycleLock`. -/
def withLifecycleLock {α : Type} (p : P α) : P α := do
  perform Call.acquireLifecycleLock
  let r ← p.attempt
  perform Call.releaseLifecycleLock
  .done r

/-- The planned names an active batch of the same organisation has too. -/
def overlapNames (plannedNames : List String) (orgId : Option String) (b : InstallBatch) :
    List String :=
  if b.orgId ≠ orgId then []
  else (b.rootPackage :: b.members.map InstallBatchMember.packageName).filter plannedNames.contains

def toInstallOf (ordered : List PlannedMember) : List PlannedMember :=
  ordered.filter (fun m => !m.alreadyInstalled)

/-- Nothing but the root is to be installed. -/
def rootOnly (input : InstallInput) (ordered : List PlannedMember) : Bool :=
  (toInstallOf ordered).map PlannedMember.packageName = [input.packageName]

/-- The pre-state of one member. -/
def captureMember (orgId : Option String) (m : PlannedMember) : P InstallBatchMember := do
  let row ← perform <| Call.readLiveRowVersion m.packageName orgId
  let op ← perform <| Call.readInstallOp m.packageName orgId
  pure
    { packageName := m.packageName, version := m.version, typeId := m.typeId
      status := if m.alreadyInstalled then .alreadyInstalled else .planned
      preState := ⟨row.present, row.version, op.map InstallOpRef.installOpId,
        op.map InstallOpRef.phase⟩
      installOpId := none, detail := none }

def captureMembers (orgId : Option String) : List PlannedMember → P (List InstallBatchMember)
  | [] => pure []
  | m :: rest => do
    let member ← captureMember orgId m
    let members ← captureMembers orgId rest
    pure (member :: members)

structure Planned where
  ordered : List PlannedMember
  batch : Option InstallBatch

/-- The planning section: plan, overlap guard, pre-states, ledger row. -/
def planBatch (input : InstallInput) (resolution : Option GrantResolution) : P Planned := do
  let ordered ← perform <| Call.plan ⟨input.packageName, rootVersionOf input resolution, input.orgId,
    resolution.map GrantResolution.closure⟩
  let active ← perform Call.listActive
  let names := ordered.map PlannedMember.packageName
  match active.find? (fun b => overlapNames names input.orgId b ≠ []) with
  | some b => throwErr (.overlap b.batchId b.rootPackage (overlapNames names input.orgId b).eraseDups)
  | none =>
    if rootOnly input ordered then pure ⟨ordered, none⟩
    else do
      let members ← captureMembers input.orgId ordered
      let batchId ← perform Call.randomUUID
      let batch ← perform <| Call.begin batchId input.packageName input.orgId members
      perform <| Call.setPhase batch.batchId .installing
      pure ⟨ordered, some batch⟩

/-- The pre-state the ledger captured for a member. -/
def presentBefore (batch : InstallBatch) (packageName : String) : Bool :=
  match batch.members.find? (fun x => x.packageName = packageName) with
  | some m => m.preState.present
  | none => false

/-- Undo the newly installed members of a list, in its order; what was undone
    and what was not. -/
def compensateMembers (batch : InstallBatch) :
    List PlannedMember → List String → List String → P (List String × List String)
  | [], compensated, failures => pure (compensated, failures)
  | m :: rest, compensated, failures =>
    if presentBefore batch m.packageName then compensateMembers batch rest compensated failures
    else do
      let r ← Prog.attempt (do
        perform <| Call.uninstallMember m.packageName m.version m.typeId
        perform <| Call.updateMember batch.batchId m.packageName { status := .compensated })
      match r with
      | .ok _ => compensateMembers batch rest (compensated ++ [m.packageName]) failures
      | .error err => do
        swallow (perform <| Call.updateMember batch.batchId m.packageName
          { status := .compensationFailed, detail := some err.message })
        compensateMembers batch rest compensated (failures ++ [m.packageName])

/-- `abortAndCompensate`: it always throws. -/
def abortAndCompensate {α : Type} (batch : InstallBatch) (installed : List PlannedMember)
    (failedMember : String) (cause : BatchError) : P α := do
  swallow (perform <| Call.updateMember batch.batchId failedMember
    { status := .failed, detail := some cause.message })
  swallow (perform <| Call.setPhase batch.batchId .failed)
  let (compensated, failures) ← compensateMembers batch installed.reverse [] []
  swallow (perform <| Call.setPhase batch.batchId (if failures = [] then .compensated else .failed))
  if cause.requiresRebuild then throwErr cause
  else throwErr (.memberInstall failedMember compensated failures cause)

/-! ## Members -/

def grantRefreshMarginMs : Instant := 60000

/-- The refreshed closure is the authorized one. -/
def sameClosure (refreshed authorized : List (String × String)) : Bool :=
  refreshed.length = authorized.length && refreshed.all authorized.contains

/-- Refresh the grant near its expiry. -/
def refreshIfNear (input : InstallInput) (rootVersion : String) :
    Option GrantResolution → P (Option GrantResolution)
  | none => pure none
  | some resolution =>
    match resolution.expiresAt with
    | none => throwErr .unparseableExpiry
    | some expiresAt => do
      let now : Instant ← perform Call.now
      if expiresAt - now < grantRefreshMarginMs then do
        let refreshed ← perform <| Call.refreshGrant resolution input.packageName rootVersion
        if sameClosure refreshed.closure resolution.closure then pure (some refreshed)
        else throwErr .closureChanged
      else pure (some resolution)

/-- One member, up to and with its install. -/
def installMember (input : InstallInput) (rootVersion : String) (batch : InstallBatch)
    (member : PlannedMember) (resolution : Option GrantResolution) :
    P (Option GrantResolution) := do
  let resolution ← refreshIfNear input rootVersion resolution
  perform <| Call.updateMember batch.batchId member.packageName { status := .installing }
  perform <| Call.installMember member input.orgId
  pure resolution

/-- The ledger entry of an installed member. -/
def recordInstalled (input : InstallInput) (batch : InstallBatch) (member : PlannedMember) :
    P Unit := do
  let op ← Prog.attempt (perform <| Call.readInstallOp member.packageName input.orgId)
  perform <| Call.updateMember batch.batchId member.packageName
    { status := .installed
      installOpId := (op.toOption.bind id).map InstallOpRef.installOpId }

/-- The members in order.  A member counts as installed as soon as its install
    has returned, before the ledger says so. -/
def installMembers (input : InstallInput) (rootVersion : String) (batch : InstallBatch) :
    List PlannedMember → Option GrantResolution → List PlannedMember → P (List PlannedMember)
  | [], _, installed => pure installed
  | m :: rest, resolution, installed => do
    let r ← Prog.attempt (installMember input rootVersion batch m resolution)
    match r with
    | .error err => abortAndCompensate batch installed m.packageName err
    | .ok resolution => do
      let r ← Prog.attempt (recordInstalled input batch m)
      match r with
      | .error err => abortAndCompensate batch (installed ++ [m]) m.packageName err
      | .ok _ => installMembers input rootVersion batch rest resolution (installed ++ [m])

/-- Reload the agent runtime once, whatever comes of it. -/
def maybeReloadAgentRuntime (installed : List PlannedMember) : P Unit :=
  if installed.any (fun m => m.typeId = "agent") then
    swallow (perform Call.triggerAgentRuntimeReload)
  else pure ()

structure BatchInstallResult where
  rootPackage : String
  rootVersion : String
  installed : List (String × String)
  alreadyInstalled : List String
  /-- `none` on the root-only fast path. -/
  batchId : Option Nat
deriving DecidableEq

def runBatch (input : InstallInput) (resolution : Option GrantResolution) :
    P BatchInstallResult := do
  let rootVersion := rootVersionOf input resolution
  let planned ← withLifecycleLock (planBatch input resolution)
  let toInstall := toInstallOf planned.ordered
  let alreadyInstalled := (planned.ordered.filter PlannedMember.alreadyInstalled).map
    PlannedMember.packageName
  match planned.batch, toInstall with
  | none, root :: _ => do
    perform <| Call.installMember root input.orgId
    maybeReloadAgentRuntime [root]
    pure ⟨input.packageName, root.version, [(root.packageName, root.version)],
      alreadyInstalled, none⟩
  | none, [] => pure ⟨input.packageName, rootVersion, [], alreadyInstalled, none⟩
  | some batch, _ => do
    let installed ← installMembers input rootVersion batch toInstall resolution []
    let r ← Prog.attempt (perform <| Call.setPhase batch.batchId .finalized)
    match r with
    | .error err => abortAndCompensate batch installed input.packageName err
    | .ok _ => do
      maybeReloadAgentRuntime installed
      pure ⟨input.packageName,
        ((planned.ordered.find? (fun m => m.packageName = input.packageName)).map
          PlannedMember.version).getD rootVersion,
        installed.map (fun m => (m.packageName, m.version)), alreadyInstalled,
        some batch.batchId⟩

def installExtensionWithDependencies (input : InstallInput) : P BatchInstallResult := do
  let resolution ← authorize input
  runBatch input resolution

/-! ## The sweeper -/

/-- A member the sweep undoes. -/
def sweepable (m : InstallBatchMember) : Bool :=
  !m.preState.present && (m.status = .installed || m.status = .installing)

/-- Undo the members of a list; how many could not be. -/
def sweepMembers (batchId : Nat) : List InstallBatchMember → Nat → P Nat
  | [], failures => pure failures
  | m :: rest, failures => do
    let r ← Prog.attempt (do
      perform <| Call.uninstallMember m.packageName m.version m.typeId
      perform <| Call.updateMember batchId m.packageName { status := .compensated })
    match r with
    | .ok _ => sweepMembers batchId rest failures
    | .error err => do
      swallow (perform <| Call.updateMember batchId m.packageName
        { status := .compensationFailed, detail := some err.message })
      sweepMembers batchId rest (failures + 1)

def sweepBatch (batch : InstallBatch) : P Unit := do
  let failures ← sweepMembers batch.batchId (batch.members.reverse.filter sweepable) 0
  swallow (perform <| Call.setPhase batch.batchId (if failures = 0 then .compensated else .failed))

def sweepBatches : List InstallBatch → P Unit
  | [] => pure ()
  | b :: rest => do
    sweepBatch b
    sweepBatches rest

/-- `sweepStaleInstallBatches`: how many batches it went through. -/
def sweepStaleInstallBatches (olderThanMs : Instant) : P Nat := do
  let stale ← perform <| Call.listStale olderThanMs
  sweepBatches stale
  pure stale.length

end ExtInstallBatch
