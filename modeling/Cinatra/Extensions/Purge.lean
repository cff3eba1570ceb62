import Cinatra.Extensions.PurgePlan

/-! # Purge — the saga, and the world it changes

    `purgeExtension` refuses what it must, quarantines every version, announces
    itself in the audit trail and only then destroys: first the install directory,
    which it can restore from the quarantine, then, after a second plan, the
    installed row.  It runs under the lifecycle lock.  A `Pattern` says which of
    its steps throw, and whether their effect had come about by then. -/

namespace ExtPurge

open Process

structure PurgeInput where
  packageName : String
  expectedDigest : Option String
  reason : Option String
  actor : Actor

structure PurgeExtensionResult where
  packageName : String
  stopped : Bool
  dbDiskDeleted : Bool
  quarantineDir : Option String
  digest : String

/-! ## Before anything is destroyed -/

def assertNoLockedCanonicalRow (host : PurgeHost) (packageName : String) : PurgeProg Unit := do
  let rows ← (perform <| PurgeCall.readInstalledStatuses packageName).attempt
  match rows with
  | .error _ =>
    -- the store is unreachable: only the static inventory can say
    if host.isSystemExtension packageName then throwErr (.systemUnreachable packageName)
    else pure ()
  | .ok rows =>
    let locked := rows.find? fun r => r.locked
    if locked.isSome || host.isSystemExtension packageName then
      throwErr (.locked packageName (locked.any fun r => r.requiredInProd))
    else pure ()

/-- `prodHostsEnv.split(",").map(trim).filter(Boolean)`. -/
def prodHosts (prodHostsEnv : String) : List String :=
  ((prodHostsEnv.splitOn ",").map fun s => s.trimAscii.toString).filter fun s => s ≠ ""

/-- The production-host refusal, where both variables are set. -/
def refuseProductionHost (host : PurgeHost) : Except PurgeError Unit :=
  match host.supabaseDbUrl.filter (· ≠ ""), host.dbProdHosts.filter (· ≠ "") with
  | some url, some prodHostsEnv =>
    match host.urlHostname url with
    | none => .error (.invalidUrl url)
    | some hostname =>
      if (prodHosts prodHostsEnv).any fun h => hostname.endsWith h then
        .error (.productionHost hostname prodHostsEnv)
      else .ok ()
  | _, _ => .ok ()

/-- What is refused of a plan, in the order of the checks. -/
def refusePlan (host : PurgeHost) (input : PurgeInput) (plan : ExtensionPurgePlan) :
    Except PurgeError Unit := do
  refuseProductionHost host
  match input.expectedDigest.filter (· ≠ "") with
  | none => .error .digestRequired
  | some expected =>
    if expected ≠ plan.digest then .error (.digestMismatch expected plan.digest) else .ok ()
  if !(["agent", "skill", "connector", "artifact", "workflow"].contains plan.typeId) then
    .error (.unsupportedKind input.packageName plan.typeId plan.notes)
  match plan.installedTemplateId.filter (· ≠ "") with
  | some templateId =>
    if plan.typeId = "connector" then .error (.connectorRow input.packageName templateId)
    else .ok ()
  | none => .ok ()
  if plan.blocked then .error (.activeDependents input.packageName plan.activeDependents)
  if plan.typeId = "skill" then .error .skillKind

/-- The tarball a rollback may restore, and whether the row pins a version whose
    tarball is not there. -/
def rollbackTarball (installedVersionFromRow bestEffortVersion : Option String)
    (tarballs : List String) : Option String × Bool :=
  match installedVersionFromRow.filter (· ≠ "") with
  | some version =>
    let exactTarball := tarballs.find? fun t => t.endsWith ("-" ++ version ++ ".tgz")
    (exactTarball, exactTarball.isNone)
  | none =>
    (((bestEffortVersion.filter (· ≠ "")).bind fun version =>
      tarballs.find? fun t => t.endsWith ("-" ++ version ++ ".tgz")).or tarballs.getLast?, false)

/-- What the saga knows when it begins to destroy. -/
structure PurgePreparation where
  plan : ExtensionPurgePlan
  removesDiskDb : Bool
  ref : PackageRef
  fullRow : Option AgentTemplate
  installedVersionFromRow : Option String
  quarantineDir : Option String
  primaryTarball : Option String
  rollbackVersionUncertain : Bool
  danglingReferences : DanglingReferences
  dirPresentAtStart : Bool

def auditEntry (input : PurgeInput) (ref : PackageRef) (fullRow : Option AgentTemplate)
    (danglingReferences : DanglingReferences) (operation : AuditOperation)
    (reason : Option String) : AuditEntry where
  actorId := input.actor.userId.getD ("system:" ++ input.actor.source.getD "unknown")
  actorType := input.actor.actorType
  operation := operation
  packageName := ref.packageName
  packageVersion := ref.version
  destroyedRowSnapshot := fullRow
  danglingReferences := danglingReferences
  reason := reason

/-- The quarantine, where there is anything to keep, and the tarball for a rollback. -/
def quarantineFor (packageName : String) (plan : ExtensionPurgePlan)
    (config : ResolvedVerdaccioConfig) (installedVersionFromRow : Option String) :
    PurgeProg (Option String × Option String × Bool) :=
  if !plan.versions.isEmpty || plan.installedTemplateId.getD "" ≠ "" then do
    let fetched ← (perform <| PurgeCall.fetchPackument packageName config).attempt
    let packument := match fetched with
      | .ok p => p
      | .error _ => none
    let q ← quarantineExtensionBeforePurge packageName plan.versions packument
    if !q.missingTarballs.isEmpty then
      throwErr (.quarantineIncomplete q.missingTarballs packageName q.quarantineDir)
    else
      let bestEffortVersion := (plan.distTags.lookup "latest").or plan.versions.getLast?
      let (primaryTarball, uncertain) :=
        rollbackTarball installedVersionFromRow bestEffortVersion q.tarballs
      pure (some q.quarantineDir, primaryTarball, uncertain)
  else pure (none, none, false)

/-- The presence check, made where the directory is this saga's to remove. -/
def dirPresentFor (packageName : String) (removesDiskDb : Bool) : PurgeProg Bool :=
  if removesDiskDb then perform (PurgeCall.extensionDirPresent packageName) else pure false

def preparePurge (host : PurgeHost) (input : PurgeInput) : PurgeProg PurgePreparation := do
  assertNoLockedCanonicalRow host input.packageName
  let plan ← planExtensionPurge host .plan input.packageName
  let config ← perform <| PurgeCall.loadVerdaccioConfig .saga
  match refusePlan host input plan with
  | .error err => throwErr err
  | .ok () =>
    -- only an agent has a directory and a row that this saga removes
    let removesDiskDb := decide (plan.typeId = "agent")
    let ref : PackageRef := ⟨plan.registryUrl, input.packageName, plan.versions.getLast?⟩
    let fullRow ← perform <| PurgeCall.readTemplateByPackageName .saga input.packageName
    let installedVersionFromRow := fullRow.bind AgentTemplate.packageVersion
    let (quarantineDir, primaryTarball, rollbackVersionUncertain) ←
      quarantineFor input.packageName plan config installedVersionFromRow
    let danglingReferences ← perform <| PurgeCall.computeDanglingReferences ref
    perform <| PurgeCall.writeAuditEntry
      (auditEntry input ref fullRow danglingReferences .purgeStarted input.reason)
    let dirPresentAtStart ← dirPresentFor input.packageName removesDiskDb
    pure { plan, removesDiskDb, ref, fullRow, installedVersionFromRow, quarantineDir,
           primaryTarball, rollbackVersionUncertain, danglingReferences, dirPresentAtStart }

/-! ## The destruction -/

/-- What the rollback makes of the directory. -/
def rollbackDisk (input : PurgeInput) (p : PurgePreparation) : PurgeProg DiskState :=
  if !p.dirPresentAtStart then pure .absentAtStart
  else if p.rollbackVersionUncertain then
    pure (.versionUncertain p.installedVersionFromRow p.quarantineDir)
  else match p.primaryTarball with
    | none => pure (.noTarball p.quarantineDir)
    | some path => do
      let restored ← (perform <| PurgeCall.restoreDirFromTarball input.packageName path).attempt
      match restored with
      | .ok _ => pure .restored
      | .error err => pure (.restoreFailed err.message p.quarantineDir)

def rollbackReason (why : String) (disk : DiskState) : String :=
  why ++ ". Disk " ++ disk.text ++ ". Verdaccio untouched."

def rollbackDiskAndThrow {α : Type} (input : PurgeInput) (p : PurgePreparation) (why : String) :
    PurgeProg α := do
  let disk ← rollbackDisk input p
  perform <| PurgeCall.writeAuditEntry (auditEntry input p.ref p.fullRow p.danglingReferences
    .purgeRolledBack (some (rollbackReason why disk)))
  throwErr (.rolledBack why disk)

/-- Step 8. -/
def deleteDisk (input : PurgeInput) (p : PurgePreparation) : PurgeProg Unit :=
  if p.removesDiskDb then
    tryCatch (perform <| PurgeCall.strictDiskPurge input.packageName) fun err =>
      rollbackDiskAndThrow input p ("disk delete/reload failed (" ++ err.message ++ ")")
  else pure ()

def dependentsText (dependents : List ActiveDependent) : String :=
  ", ".intercalate (dependents.map ActiveDependent.text)

/-- Step 9: the second plan, outside every `try`. -/
def finalRescan (host : PurgeHost) (input : PurgeInput) (p : PurgePreparation) :
    PurgeProg Unit := do
  let fresh ← planExtensionPurge host .rescan input.packageName
  if fresh.blocked then
    if p.removesDiskDb then
      rollbackDiskAndThrow input p ("an active dependent appeared before DB delete (" ++
        dependentsText fresh.activeDependents ++ ")")
    else throwErr (.dependentAppeared fresh.activeDependents)
  else if fresh.digest ≠ p.plan.digest then
    if p.removesDiskDb then
      rollbackDiskAndThrow input p ("state changed before DB delete (digest " ++ p.plan.digest ++
        " -> " ++ fresh.digest ++ ")")
    else throwErr (.stateChanged p.plan.digest fresh.digest)
  else pure ()

/-- Step 10. -/
def deleteRow (input : PurgeInput) (p : PurgePreparation) : PurgeProg Bool :=
  if p.removesDiskDb then
    tryCatch (perform <| PurgeCall.dbPurgeAtomic input.packageName) fun err =>
      rollbackDiskAndThrow input p ("DB delete failed (" ++ err.message ++ ")")
  else pure false

def committedReason : String :=
  "Verdaccio unpublish deliberately NOT called (lifecycle primitives never delete from the " ++
    "registry; version cleanup is ops-owned)."

/-- The teardown of what was purged; a hook that throws is logged. -/
def teardown (input : PurgeInput) (p : PurgePreparation) (dbDeleted : Bool) : PurgeProg Unit :=
  if dbDeleted || !p.removesDiskDb then do
    swallow (perform <| PurgeCall.capabilityTeardown input.packageName)
    swallow (perform <| PurgeCall.dataTeardown input.packageName)
  else pure ()

/-- The teardown, and step 12. -/
def commitPurge (input : PurgeInput) (p : PurgePreparation) (dbDeleted : Bool) :
    PurgeProg PurgeExtensionResult := do
  teardown input p dbDeleted
  perform <| PurgeCall.writeAuditEntry (auditEntry input p.ref p.fullRow p.danglingReferences
    .purgeCommitted (some (input.reason.getD committedReason)))
  pure ⟨input.packageName, false, dbDeleted, p.quarantineDir, p.plan.digest⟩

def destroy (host : PurgeHost) (input : PurgeInput) (p : PurgePreparation) :
    PurgeProg PurgeExtensionResult := do
  deleteDisk input p
  finalRescan host input p
  let dbDeleted ← deleteRow input p
  commitPurge input p dbDeleted

def purgeExtension (host : PurgeHost) (input : PurgeInput) : PurgeProg PurgeExtensionResult := do
  let p ← preparePurge host input
  destroy host input p

/-! ## The world -/

/-- The row of the package, its install directory, the quarantine and the audit trail. -/
structure PurgeWorld where
  template : Option AgentTemplate
  disk : Option String
  /-- Path and contents. -/
  tarballs : List (String × String)
  audit : List AuditEntry

/-- A step of the saga; none is made twice. -/
inductive PurgeStep where
  | readInstalledStatuses
  | loadVerdaccioConfig (site : Site)
  | resolvePackageKind (site : Site)
  | getAgentPackage (site : Site)
  | listVersions (site : Site)
  | readTemplateByPackageName (site : Site)
  | readTemplatesDependingOn (site : Site)
  | readTemplatesReferencingChild (site : Site)
  | listOnDiskOasDependents (site : Site)
  | fetchPackument
  | makeQuarantineDir
  | downloadTarball (index : Nat)
  | writeManifest
  | writePackument
  | computeDanglingReferences
  | writeAuditEntry (operation : AuditOperation)
  | extensionDirPresent
  | strictDiskPurge
  | restoreDirFromTarball
  | dbPurgeAtomic
  | capabilityTeardown
  | dataTeardown
deriving DecidableEq

def PurgeCall.step : PurgeCall → PurgeStep
  | .readInstalledStatuses _ => .readInstalledStatuses
  | .loadVerdaccioConfig site => .loadVerdaccioConfig site
  | .resolvePackageKind site _ _ => .resolvePackageKind site
  | .getAgentPackage site _ _ => .getAgentPackage site
  | .listVersions site _ _ => .listVersions site
  | .readTemplateByPackageName site _ => .readTemplateByPackageName site
  | .readTemplatesDependingOn site _ => .readTemplatesDependingOn site
  | .readTemplatesReferencingChild site _ => .readTemplatesReferencingChild site
  | .listOnDiskOasDependents site _ => .listOnDiskOasDependents site
  | .fetchPackument _ _ => .fetchPackument
  | .makeQuarantineDir _ => .makeQuarantineDir
  | .downloadTarball index _ _ _ => .downloadTarball index
  | .writeManifest _ => .writeManifest
  | .writePackument _ _ => .writePackument
  | .computeDanglingReferences _ => .computeDanglingReferences
  | .writeAuditEntry entry => .writeAuditEntry entry.operation
  | .extensionDirPresent _ => .extensionDirPresent
  | .strictDiskPurge _ => .strictDiskPurge
  | .restoreDirFromTarball _ _ => .restoreDirFromTarball
  | .dbPurgeAtomic _ => .dbPurgeAtomic
  | .capabilityTeardown _ => .capabilityTeardown
  | .dataTeardown _ => .dataTeardown

/-- A throw, before the step's effect or after it. -/
structure StepFault where
  applied : Bool
  message : String

/-- What a run of the saga depends on besides the world: which steps throw, what the
    others read elsewhere, and what the registry and `tar` hold. -/
structure Pattern where
  fault : PurgeStep → Option StepFault
  reply : (c : PurgeCall) → c.Reply
  /-- The tarball of a version, if it is published. -/
  published : String → Option String
  /-- What a tarball leaves when it is extracted over files that are there. -/
  extractOver : (tarball present : String) → String

def extracted (pt : Pattern) (tarball : String) : Option String → String
  | none => tarball
  | some present => pt.extractOver tarball present

/-- What a step answers, and does, when it does not throw of itself. -/
def serve (pt : Pattern) (w : PurgeWorld) : (c : PurgeCall) → Except PurgeError c.Reply × PurgeWorld
  | .readTemplateByPackageName _ _ => (.ok w.template, w)
  | .downloadTarball _ _ version destPath =>
    match pt.published version with
    | some tarball => (.ok true, { w with tarballs := (destPath, tarball) :: w.tarballs })
    | none => (.ok false, w)
  | .writeAuditEntry entry => (.ok (), { w with audit := w.audit ++ [entry] })
  | .extensionDirPresent _ => (.ok w.disk.isSome, w)
  | .strictDiskPurge _ => (.ok (), { w with disk := none })
  | .restoreDirFromTarball _ path =>
    match w.tarballs.lookup path with
    | some tarball => (.ok (), { w with disk := some (extracted pt tarball w.disk) })
    | none => (.error (.step ("ENOENT: no such file " ++ path)), w)
  | .dbPurgeAtomic _ => (.ok w.template.isSome, { w with template := none })
  | .readInstalledStatuses packageName => (.ok (pt.reply (.readInstalledStatuses packageName)), w)
  | .loadVerdaccioConfig site => (.ok (pt.reply (.loadVerdaccioConfig site)), w)
  | .resolvePackageKind site packageName config =>
    (.ok (pt.reply (.resolvePackageKind site packageName config)), w)
  | .getAgentPackage site packageName config =>
    (.ok (pt.reply (.getAgentPackage site packageName config)), w)
  | .listVersions site packageName config =>
    (.ok (pt.reply (.listVersions site packageName config)), w)
  | .readTemplatesDependingOn site packageName =>
    (.ok (pt.reply (.readTemplatesDependingOn site packageName)), w)
  | .readTemplatesReferencingChild site packageName =>
    (.ok (pt.reply (.readTemplatesReferencingChild site packageName)), w)
  | .listOnDiskOasDependents site packageName =>
    (.ok (pt.reply (.listOnDiskOasDependents site packageName)), w)
  | .fetchPackument packageName config => (.ok (pt.reply (.fetchPackument packageName config)), w)
  | .makeQuarantineDir packageName => (.ok (pt.reply (.makeQuarantineDir packageName)), w)
  | .writeManifest _ => (.ok (), w)
  | .writePackument _ _ => (.ok (), w)
  | .computeDanglingReferences ref => (.ok (pt.reply (.computeDanglingReferences ref)), w)
  | .capabilityTeardown _ => (.ok (), w)
  | .dataTeardown _ => (.ok (), w)

def answer (pt : Pattern) (c : PurgeCall) (w : PurgeWorld) : Except PurgeError c.Reply × PurgeWorld :=
  match pt.fault c.step with
  | some f => (.error (.step f.message), if f.applied then (serve pt w c).2 else w)
  | none => serve pt w c

def environment (pt : Pattern) : Environment PurgeCall PurgeCall.Reply PurgeError PurgeWorld Unit :=
  ⟨fun _ => answer pt⟩

end ExtPurge
