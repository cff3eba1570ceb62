import Cinatra.Extensions.RegistryWorld

/-! # Dispatcher — install and update of one package

    `runHostInstallLocked`: the gates, the canonical row at the actor's scope, the
    handler of the kind, and for a connector the pipeline behind the activate hook.
    A row this call owns is dropped again where the handler throws or the pipeline
    does not finalize.  The whole runs under the package's install lock, so nothing
    else writes between two of its calls. -/

namespace ExtDispatch

open Process ExtCanonical ExtClosure ExtInstallOps
open ExtWorkflowSaga (SagaError truthy)
open ExtRegistry (RegistryHost InstallPipelineInput InstallPipelineResult CanonicalTable
  pickSingleActiveRow registryRun isOk)

inductive DispatchOp where
  | install | update
deriving DecidableEq

structure PackageRef where
  packageName : String
  version : Option String
  registryUrl : Option String

/-- What is dispatched, for which organisation. -/
structure Request where
  op : DispatchOp
  kind : ExtensionKind
  ref : PackageRef
  orgId : Option String

def Request.scope (req : Request) : Scope := ⟨req.ref.packageName, req.orgId⟩

/-- What the host, its handlers and its environment decide. -/
structure DispatchHost extends RegistryHost where
  /-- The kinds with a handler. -/
  registered : ExtensionKind → Bool
  satisfies : String → String → Bool
  /-- What a pin of `cinatra.requiredExtensions` refuses the op with, if it does. -/
  checkRequiredExtensionVersionPin : (packageName : String) → (version : Option String) →
    DispatchOp → Option String
  isPackageRequiredInProd : String → Bool
  isDev : Bool
  /-- The worker has loaded the activate hook. -/
  hookWired : Bool
  /-- What the handler of a kind other than the connectors' does. -/
  handled : ExtRegistry.World → ExtRegistry.World

/-- What is drawn at random: twelve characters of a row id, eight of an op id. -/
structure Drawn where
  row : String
  op : String

def Drawn.rowId (drawn : Drawn) : String := "iext_" ++ drawn.row

/-- Why a package was not activated. -/
inductive Reason where
  | noHostHook
  | activateThrew
  | noActiveCanonicalRow
  | nonVerdaccioSource
  | pipelineThrew (err : SagaError)
  | activation (reason : String)
deriving DecidableEq

structure ExtensionActivateResult where
  activated : Bool
  finalized : Option Bool := none
  rolledBack : Option Bool := none
  rollbackComplete : Option Bool := none
  reason : Option Reason := none

inductive DispatchError where
  | noHandler (kind : ExtensionKind)
  | pinRefused (reason : String)
  | closure (err : DependencyClosureError)
  /-- A call threw. -/
  | step (message : String)
  | rowExists (id : String)
  | rowNotFound (id : String)
  | invalidInput (fields : List String)
  | illegalTransition (id : String) (status : ExtensionLifecycleStatus)
  /-- The rows could not be read. -/
  | storeUnreachable (cause : DispatchError)
  /-- The canonical row could not be ensured. -/
  | ensureFailed (packageName : String) (cause : DispatchError)
  | notFinalized (op : DispatchOp) (packageName : String) (owned : Bool) (reason : Option Reason)
  | notHotActivated (op : DispatchOp) (packageName : String) (reason : Option Reason)
  | rollbackIncomplete (op : DispatchOp) (packageName : String) (reason : Option Reason)
  | didNotTake (op : DispatchOp) (packageName : String) (reason : Option Reason)
  | finalizedNotActivated (op : DispatchOp) (packageName : String) (reason : Option Reason)
deriving DecidableEq

inductive Call where
  | listInstalledExtensions
  | readInstalledExtensionsByPackageName (packageName : String)
  | readInstalledExtensionById (id : String)
  | readExtensionInstallOpPhase (scope : Scope)
  /-- `transitionExtensionLifecycle(id, "activate")`. -/
  | activateRow (id : String)
  | insertInstalledExtension (row : InstalledExtension)
  | deleteInstalledExtension (id : String)
  /-- The handler's `install` or `update`. -/
  | handle (kind : ExtensionKind) (op : DispatchOp)
  | installExtensionFromRegistry (input : InstallPipelineInput)

def Call.Reply : Call → Type
  | .listInstalledExtensions | .readInstalledExtensionsByPackageName _ => List InstalledExtension
  | .readInstalledExtensionById _ => Option InstalledExtension
  | .readExtensionInstallOpPhase _ => Option InstallOpPhase
  | .installExtensionFromRegistry _ => Except SagaError InstallPipelineResult
  | _ => Unit

abbrev P := Prog Call Call.Reply DispatchError

/-! ## Rows that were never finalized -/

/-- `DISPATCHER_PLACEHOLDER_INTEGRITY`. -/
def dispatcherPlaceholderIntegrity : List String :=
  ["", "dispatcher-install", "pending-resolution", "latest", "HEAD"]

/-- The integrity of a source, where its type has one. -/
def sourceIntegrity : ExtensionSource → Option String
  | .verdaccio v => some v.integrity
  | .github _ _ _ _ => none
  | .local _ _ => none

def isNonFinalizedLiveRow (row : InstalledExtension) : Bool :=
  row.present && (sourceIntegrity row.source).any dispatcherPlaceholderIntegrity.contains

/-- Its rule, by the phase the journal reader answers. -/
def nonFinalizedAt (row : InstalledExtension) (phase : Option InstallOpPhase) : Bool :=
  row.present && (isNonFinalizedLiveRow row ||
    (sourceIntegrity row.source).isSome && phase.any (fun p => p ≠ .finalized))

def rowScope (row : InstalledExtension) : Scope := ⟨row.packageName, row.organizationId⟩

/-- The journal is read for a live row with an integrity that is not a placeholder; a
    reader that throws answers nothing. -/
def isNonFinalizedLiveRowAware (row : InstalledExtension) : P Bool :=
  if !row.present then pure false
  else if isNonFinalizedLiveRow row then pure true
  else if (sourceIntegrity row.source).isNone then pure false
  else do
    let phase : Option InstallOpPhase ←
      tryCatch (perform (Call.readExtensionInstallOpPhase (rowScope row))) (fun _ => pure none)
    pure (phase.any (fun p => p ≠ .finalized))

def internalDeleteInstalledExtension (id : String) : P Unit :=
  perform (Call.deleteInstalledExtension id)

/-- It re-reads the row and refuses a healthy one. -/
def deleteNonFinalizedCanonicalRow (rowId : String) : P Unit := do
  let row : Option InstalledExtension ← perform (Call.readInstalledExtensionById rowId)
  match row with
  | none => pure ()
  | some ext => do
    let nonFinalized ← isNonFinalizedLiveRowAware ext
    if !nonFinalized then throwErr (.illegalTransition rowId ext.status)
    else internalDeleteInstalledExtension rowId

/-- Best effort: a failure is logged. -/
def rollbackNonFinalizedCanonicalRow (rowId : String) : P Unit :=
  swallow do
    let row : Option InstalledExtension ← perform (Call.readInstalledExtensionById rowId)
    match row with
    | none => pure ()
    | some ext => do
      let nonFinalized ← isNonFinalizedLiveRowAware ext
      if !nonFinalized then pure ()
      else deleteNonFinalizedCanonicalRow rowId

/-! ## The canonical row -/

/-- `KINDS_USING_ACTIVATE_HOOK`. -/
def usesActivateHook (kind : ExtensionKind) : Bool := kind = .connector

/-- A scoped name, or a version. -/
def isVerdaccioBackedRef (ref : PackageRef) : Bool :=
  ref.packageName.startsWith "@" || (truthy ref.version).isSome

structure CanonicalInstallEnsure where
  needsPipeline : Bool
  rowId : Option String
  ownsRollback : Bool

/-- No row was ensured. -/
def CanonicalInstallEnsure.nothing : CanonicalInstallEnsure := ⟨false, none, false⟩

/-- Archived rows are activated; one that cannot be is passed over. -/
def reactivate : List InstalledExtension → Option String → P (Option String)
  | [], reactivated => pure reactivated
  | row :: rest, reactivated =>
    if row.status = .archived then do
      let r ← (perform (Call.activateRow row.id) : P Unit).attempt
      reactivate rest (match r with
        | .ok _ => some row.id
        | .error _ => reactivated)
    else reactivate rest reactivated

/-- The first row, as it was read, that was never finalized. -/
def findBroken : List InstalledExtension → P (Option String)
  | [] => pure none
  | row :: rest => do
    let nonFinalized ← isNonFinalizedLiveRowAware row
    if nonFinalized then pure (some row.id) else findBroken rest

/-- The rows the scope has already. -/
def ensureExisting (req : Request) (existing : List InstalledExtension) :
    P CanonicalInstallEnsure := do
  let reactivated ← reactivate existing none
  let broken ← findBroken existing
  match broken, reactivated with
  | some id, _ => pure ⟨true, some id, true⟩
  | none, some id => pure ⟨true, some id, false⟩
  | none, none =>
    match existing.find? InstalledExtension.present with
    | some live =>
      if req.op = .update || usesActivateHook req.kind then pure ⟨true, some live.id, false⟩
      else pure .nothing
    | none => pure .nothing

/-- The placeholder of a new install. -/
def placeholderRow (host : DispatchHost) (req : Request) (drawn : Drawn) : InstalledExtension where
  id := drawn.rowId
  packageName := req.ref.packageName
  organizationId := req.orgId
  kind := req.kind
  status := if host.isPackageRequiredInProd req.ref.packageName && !host.isDev then .locked
    else .active
  source := .verdaccio ⟨(truthy req.ref.registryUrl).getD "http://localhost:4873",
    req.ref.packageName, (truthy req.ref.version).getD "0.0.0", "dispatcher-install",
    none, none, none, none⟩
  dependencies := []

def internalInsertInstalledExtension (row : InstalledExtension) : P Unit :=
  perform (Call.insertInstalledExtension row)

def installExtensionManifest (row : InstalledExtension) : P Unit :=
  if row.packageName = "" then throwErr (.invalidInput ["packageName"])
  else if validateExtensionSource row.source = [] then internalInsertInstalledExtension row
  else throwErr (.invalidInput (validateExtensionSource row.source))

def ensureRow (host : DispatchHost) (req : Request) (drawn : Drawn)
    (all : List InstalledExtension) : P CanonicalInstallEnsure :=
  let existing := all.filter (fun r => r.organizationId = req.orgId)
  if existing ≠ [] then ensureExisting req existing
  else do
    installExtensionManifest (placeholderRow host req drawn)
    pure ⟨true, some drawn.rowId, true⟩

/-- A failure to ensure the row is fatal where the pipeline is to run. -/
def orGrandfathered (req : Request) (p : P CanonicalInstallEnsure) : P CanonicalInstallEnsure :=
  tryCatch p (fun err =>
    if usesActivateHook req.kind then throwErr (.ensureFailed req.ref.packageName err)
    else pure .nothing)

def syncCanonicalManifestInstall (host : DispatchHost) (req : Request) (drawn : Drawn) :
    P CanonicalInstallEnsure :=
  if !isVerdaccioBackedRef req.ref then pure .nothing
  else orGrandfathered req do
    let all : List InstalledExtension ←
      tryCatch (perform (Call.readInstalledExtensionsByPackageName req.ref.packageName))
        (fun err => throwErr (.storeUnreachable err))
    ensureRow host req drawn all

/-- What the hook reports of the pipeline. -/
def reported : Except SagaError InstallPipelineResult → ExtensionActivateResult
  | .ok res => {
      activated := res.activated
      finalized := some true
      rolledBack := if res.rolledBack then some true else none
      rollbackComplete := if res.rolledBack then some (res.rollbackComplete = some true) else none
      reason := (truthy res.reason).map Reason.activation }
  | .error err => {
      activated := false
      finalized := some false
      reason := some (.pipelineThrew err) }

def runHostExtensionInstallAndActivate (req : Request) : P ExtensionActivateResult := do
  let rows : List InstalledExtension ←
    perform (Call.readInstalledExtensionsByPackageName req.ref.packageName)
  match pickSingleActiveRow rows req.orgId with
  | none => pure {
      activated := false
      finalized := some false
      reason := some .noActiveCanonicalRow }
  | some row =>
    match row.source with
    | .verdaccio v => do
      let r : Except SagaError InstallPipelineResult ←
        perform (Call.installExtensionFromRegistry {
          packageName := req.ref.packageName
          version := (truthy req.ref.version).getD ((truthy (some v.version)).getD "0.0.0")
          orgId := req.orgId })
      pure (reported r)
    | .github _ _ _ _ => pure { activated := false, reason := some .nonVerdaccioSource }
    | .local _ _ => pure { activated := false, reason := some .nonVerdaccioSource }

/-- A throw of the hook is swallowed. -/
def fireExtensionActivate (host : DispatchHost) (req : Request) : P ExtensionActivateResult :=
  if !host.hookWired then pure { activated := false, reason := some .noHostHook }
  else tryCatch (runHostExtensionInstallAndActivate req)
    (fun _ => pure { activated := false, reason := some .activateThrew })

/-! ## The dispatch -/

/-- A row of this call's is dropped. -/
def rollbackOwned (ensure : CanonicalInstallEnsure) : P Unit :=
  match ensure.ownsRollback, ensure.rowId with
  | true, some rowId => rollbackNonFinalizedCanonicalRow rowId
  | _, _ => pure ()

/-- Only a finalized, activated and retained install is a success. -/
def settle (req : Request) (ensure : CanonicalInstallEnsure) (result : ExtensionActivateResult) :
    P Unit :=
  match result.finalized with
  | some false => do
    rollbackOwned ensure
    throwErr (.notFinalized req.op req.ref.packageName
      (ensure.ownsRollback && ensure.rowId.isSome) result.reason)
  | none => do
    rollbackOwned ensure
    throwErr (.notHotActivated req.op req.ref.packageName result.reason)
  | some true =>
    if result.rolledBack = some true then
      if result.rollbackComplete ≠ some true then
        throwErr (.rollbackIncomplete req.op req.ref.packageName result.reason)
      else throwErr (.didNotTake req.op req.ref.packageName result.reason)
    else if !result.activated then
      throwErr (.finalizedNotActivated req.op req.ref.packageName result.reason)
    else pure ()

/-- The gates of the host, before anything is written. -/
def dispatchGates (host : DispatchHost) (req : Request) : P Unit :=
  if !host.registered req.kind then throwErr (.noHandler req.kind)
  else match host.checkRequiredExtensionVersionPin req.ref.packageName req.ref.version req.op with
    | some reason => throwErr (.pinRefused reason)
    | none =>
      match req.op, truthy req.ref.version with
      | .update, some version => do
        let allRows : List InstalledExtension ← perform Call.listInstalledExtensions
        match assertUpdateDoesNotBreakDependents host.satisfies req.ref.packageName version
            allRows req.orgId with
        | .error err => throwErr (.closure err)
        | .ok _ => pure ()
      | _, _ => pure ()

/-- A throw of the handler goes on, past the rollback. -/
def runHandler (req : Request) (ensure : CanonicalInstallEnsure) : P Unit :=
  tryCatch (perform (Call.handle req.kind req.op)) (fun err => do
    rollbackOwned ensure
    throwErr err)

def runHostInstallLocked (host : DispatchHost) (req : Request) (drawn : Drawn) : P Unit := do
  dispatchGates host req
  let ensure ← syncCanonicalManifestInstall host req drawn
  runHandler req ensure
  if !ensure.needsPipeline || !usesActivateHook req.kind then pure ()
  else do
    let result ← fireExtensionActivate host req
    settle req ensure result

end ExtDispatch
