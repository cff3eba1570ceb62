import Cinatra.Extensions.DependencyClosure

/-! # ManifestLifecycle — the gated operations on the manifest

    Install, update, archive, uninstall and restore as the dispatcher runs them:
    the gate, and the rows it writes.  Every row of the manifest is that of a
    finalized install, by the connectors' pipeline or the workflows' saga; the other
    kinds' installs are requests that name what their rows hold afterwards.  The store
    answers, and it keeps the order of its rows. -/

namespace ExtLifecycle

open ExtCanonical ExtClosure

/-- What the dispatcher asks its surroundings: semver, the system inventory, and the
    packages the host requires in production. -/
structure Host where
  satisfies : String → String → Bool
  isSystemExtension : String → Bool
  /-- `requiredInProd && !isDev`. -/
  installsLocked : String → Bool

/-- An install or an update at a scope; `id` is the row's, should one be created. -/
structure InstallRequest where
  id : String
  packageName : String
  organizationId : Option String
  kind : ExtensionKind
  source : ExtensionSourceVerdaccio
  /-- The edges of the materialized manifest, as the row holds them afterwards. -/
  dependencies : List ExtensionDependency

inductive LifecycleOp where
  | install (req : InstallRequest)
  | update (req : InstallRequest)
  | archive (packageName : String)
  | uninstall (packageName : String)
  | restore (packageName : String)

def LifecycleOp.packageName : LifecycleOp → String
  | .install req | .update req => req.packageName
  | .archive p | .uninstall p | .restore p => p

inductive LifecycleError where
  | closure (error : DependencyClosureError)
  | locked (message : String)
  | invalidInput (message : String)
  | ambiguousRow (message : String)

/-! ## The rows an operation writes -/

/-- A row at one (package, organisation) scope. -/
def atScope (packageName : String) (organizationId : Option String) (r : InstalledExtension) :
    Bool := r.packageName = packageName && r.organizationId = organizationId

/-- `activate`; a locked row stays locked. -/
def activate (r : InstalledExtension) : InstalledExtension :=
  if r.status = .archived then { r with status := .active } else r

/-- `isStaticBundleAnchorSource`. -/
def isStaticBundleAnchorSource : ExtensionSource → Bool
  | .local path _ => path.startsWith "static-bundle:"
  | .verdaccio _ | .github _ _ _ _ => false

/-- `uninstall` of one row: a bundled anchor leaves its tombstone. -/
def uninstallRow (r : InstalledExtension) : Option InstalledExtension :=
  if isStaticBundleAnchorSource r.source then some { r with status := .archived } else none

def newRow (host : Host) (req : InstallRequest) : InstalledExtension :=
  { id := req.id
    packageName := req.packageName
    organizationId := req.organizationId
    kind := req.kind
    status := if host.installsLocked req.packageName then .locked else .active
    source := .verdaccio req.source
    dependencies := req.dependencies }

/-- Provenance and edges of the requested version, onto the row of the scope, live or not. -/
def updateRow (req : InstallRequest) (r : InstalledExtension) : InstalledExtension :=
  { activate r with source := .verdaccio req.source, dependencies := req.dependencies }

/-- `syncCanonicalManifestInstall` and the pipeline's writes behind it, then those of
    `syncCanonicalManifestTransition`. -/
def written (host : Host) (rows : List InstalledExtension) : LifecycleOp → List InstalledExtension
  | .install req | .update req =>
    if rows.any (atScope req.packageName req.organizationId) then
      rows.map (fun r =>
        if atScope req.packageName req.organizationId r then updateRow req r else r)
    else rows ++ [newRow host req]
  | .archive p =>
    rows.map (fun r => if r.packageName = p then { r with status := .archived } else r)
  | .uninstall p =>
    rows.filterMap (fun r => if r.packageName = p then uninstallRow r else some r)
  | .restore p => rows.map (fun r => if r.packageName = p then activate r else r)

/-! ## The gates -/

/-- `assertNoLockedCanonicalRow`. -/
def assertNoLockedCanonicalRow (host : Host) (rows : List InstalledExtension) (op : String)
    (packageName : String) : Except LifecycleError Unit :=
  if rows.any (fun r => r.packageName = packageName && r.status = .locked) ||
      host.isSystemExtension packageName then
    .error (.locked ("Cannot " ++ op ++ " " ++ packageName ++
      " — extension is locked. Update is permitted; archive/uninstall is not."))
  else .ok ()

/-- A closure gate's verdict, as the dispatcher's. -/
def gate {α : Type} : Except DependencyClosureError α → Except LifecycleError Unit
  | .ok _ => .ok ()
  | .error e => .error (.closure e)

/-- `assertCanonicalArchiveClosure`. -/
def assertCanonicalArchiveClosure (rows : List InstalledExtension) (packageName : String) :
    Except LifecycleError Unit :=
  if rows.any (fun r => r.packageName = packageName) then
    gate (assertArchiveDoesNotBreakClosure packageName rows)
  else .ok ()

/-- `assertCanonicalRestoreClosure`: every archived row of the package, each at its
    own scope. -/
def assertCanonicalRestoreClosure (host : Host) (rows : List InstalledExtension)
    (packageName : String) : Except LifecycleError Unit :=
  gate ((rows.filter (fun r => r.packageName = packageName && r.status = .archived)).forM
    (fun target => do
      let _ ← assertInstallClosure target.packageName
        (scopedClosure host.satisfies rows target.organizationId target)
      return ()))

/-- The update gate runs on a resolved version. -/
def assertUpdate (host : Host) (rows : List InstalledExtension) (req : InstallRequest) :
    Except LifecycleError Unit :=
  if req.source.version = "" then .ok ()
  else gate (assertUpdateDoesNotBreakDependents host.satisfies req.packageName
    req.source.version rows req.organizationId)

/-- `recordProvenance` and `persistDependencyEdges` refuse malformed input. -/
def assertProvenance (req : InstallRequest) : Except LifecycleError Unit :=
  if validateExtensionSource (.verdaccio req.source) ≠ [] then
    .error (.invalidInput ("install refused — source provenance invalid/missing: " ++
      String.intercalate ", " (validateExtensionSource (.verdaccio req.source))))
  else if req.dependencies.any (fun dep =>
      validateExtensionDependencyShape dep req.packageName ≠ []) then
    .error (.invalidInput ("recordExtensionDependencies refused for " ++ req.packageName ++
      " — malformed edge"))
  else .ok ()

/-- Exactly one live row at the scope, by `pickSingleActiveRow`. -/
def assertSingleActiveRow (rows : List InstalledExtension) (req : InstallRequest) :
    Except LifecycleError Unit :=
  if (rows.filter (fun r => atScope req.packageName req.organizationId r &&
      r.present)).length = 1 then .ok ()
  else .error (.ambiguousRow ("recordProvenance: expected exactly 1 active installed_extension" ++
    " row for " ++ req.packageName ++ " (0 or ambiguous owner scope) — fail closed"))

/-- The forward gate of a fresh install, over the snapshot with its row. -/
def assertFresh (host : Host) (rows : List InstalledExtension) (req : InstallRequest) :
    Except LifecycleError Unit := do
  assertProvenance req
  gate (assertForwardInstallClosureForPackage host.satisfies req.packageName
    (rows ++ [newRow host req]) req.organizationId)

/-- The pipeline's checks.  A row that it finds has been finalized before, so the forward
    gate does not run on it. -/
def assertPipeline (host : Host) (rows : List InstalledExtension) (req : InstallRequest) :
    Except LifecycleError Unit :=
  if rows.any (atScope req.packageName req.organizationId) then do
    assertProvenance req
    assertSingleActiveRow (written host rows (.install req)) req
  else assertFresh host rows req

/-- Every check an operation passes before it reports success. -/
def gates (host : Host) (rows : List InstalledExtension) : LifecycleOp → Except LifecycleError Unit
  | .install req => assertPipeline host rows req
  | .update req => do
    assertUpdate host rows req
    assertPipeline host rows req
  | .archive p => do
    assertNoLockedCanonicalRow host rows "archive" p
    assertCanonicalArchiveClosure rows p
  | .uninstall p => do
    assertNoLockedCanonicalRow host rows "uninstall" p
    assertCanonicalArchiveClosure rows p
  | .restore p => assertCanonicalRestoreClosure host rows p

/-- An operation that is refused leaves the manifest as it was. -/
def apply (host : Host) (rows : List InstalledExtension) (op : LifecycleOp) :
    Except LifecycleError (List InstalledExtension) :=
  match gates host rows op with
  | .ok _ => .ok (written host rows op)
  | .error e => .error e

end ExtLifecycle
