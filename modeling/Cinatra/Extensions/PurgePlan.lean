import Cinatra.Extensions.SagaWorld

/-! # PurgePlan — the plan of a purge, and its steps

    `planExtensionPurge` reads the registry, the installed row and the packages
    that depend on the extension, and digests what it read.  The purge plans
    twice, so every reading says for which `Site` it is made.  Here are also the
    steps the saga injects, and the quarantine it fills before it destroys
    anything. -/

namespace ExtPurge

open Process JsonValue ExtSagaWorld

structure ResolvedVerdaccioConfig where
  registryUrl : String
  packageScope : String

structure PackageOrigin where
  visibility : Option String
  scope : Option String

structure PublishedVersions where
  versions : List String
  distTags : List (String × String)

/-- The `agent_templates` row of a package. -/
structure AgentTemplate where
  id : String
  packageVersion : Option String
  /-- The rest of the row, for the audit trail. -/
  columns : Json

inductive DependentVia where
  | agentDependencies | compiledPlan | onDiskOas
deriving DecidableEq

def DependentVia.text : DependentVia → String
  | .agentDependencies => "agentDependencies"
  | .compiledPlan => "compiledPlan"
  | .onDiskOas => "onDiskOas"

structure ActiveDependent where
  packageName : String
  via : DependentVia
deriving DecidableEq

structure Actor where
  actorType : String
  userId : Option String
  source : Option String

structure PackageRef where
  registryUrl : String
  packageName : String
  version : Option String

structure DanglingReferences where
  agentRunsCount : String
  agentRunsCountCapped : Bool
  dependentExtensions : List PackageRef
  dependentExtensionsCapped : Bool

inductive AuditOperation where
  | purgeStarted | purgeCommitted | purgeRolledBack
deriving DecidableEq

/-- What `writeExtensionLifecycleAuditEntry` inserts. -/
structure AuditEntry where
  actorId : String
  actorType : String
  operation : AuditOperation
  packageName : String
  packageVersion : Option String
  destroyedRowSnapshot : Option AgentTemplate
  danglingReferences : DanglingReferences
  reason : Option String

/-! ## Refusals -/

/-- What a rollback found, or made, of the install directory. -/
inductive DiskState where
  | absentAtStart
  | versionUncertain (version : Option String) (quarantineDir : Option String)
  | noTarball (quarantineDir : Option String)
  | restored
  | restoreFailed (message : String) (quarantineDir : Option String)

/-- `${x}` of a value that may be null. -/
def orNull (x : Option String) : String := x.getD "null"

def DiskState.text : DiskState → String
  | .absentAtStart => "was absent at start (nothing to restore)"
  | .versionUncertain version quarantineDir =>
    "NOT restored" ++ (": DB row pins version " ++ orNull version ++ " but its tarball is not " ++
      "in quarantine — restoring a different version would mismatch. INCONSISTENT: disk gone, " ++
      "DB intact. MANUAL RECOVERY from " ++ orNull quarantineDir)
  | .noTarball quarantineDir =>
    "NOT restored" ++ (" (no quarantined tarball) — INCONSISTENT: disk gone, DB intact. MANUAL " ++
      "RECOVERY from " ++ orNull quarantineDir)
  | .restored => "restored from quarantine"
  | .restoreFailed message quarantineDir =>
    "NOT restored" ++ (" (" ++ message ++ ") — INCONSISTENT: disk gone, DB intact. MANUAL " ++
      "RECOVERY from " ++ orNull quarantineDir)

/-- `diskState.startsWith("NOT restored")`. -/
def notRestored (d : DiskState) : Bool := "NOT restored".toList.isPrefixOf d.text.toList

inductive PurgeError where
  /-- A step threw. -/
  | step (message : String)
  /-- `assertNoLockedCanonicalRow`. -/
  | systemUnreachable (packageName : String)
  | locked (packageName : String) (requiredInProd : Bool)
  | invalidUrl (url : String)
  /-- `ExtensionPurgeRefused`, from here on. -/
  | productionHost (host prodHosts : String)
  | digestRequired
  | digestMismatch (expected current : String)
  | unsupportedKind (packageName typeId : String) (notes : List String)
  | connectorRow (packageName templateId : String)
  | activeDependents (packageName : String) (dependents : List ActiveDependent)
  | skillKind
  | quarantineIncomplete (missing : List String) (packageName quarantineDir : String)
  | dependentAppeared (dependents : List ActiveDependent)
  | stateChanged (planned current : String)
  | rolledBack (why : String) (disk : DiskState)

def ActiveDependent.text (d : ActiveDependent) : String :=
  d.packageName ++ " (" ++ d.via.text ++ ")"

/-- `JSON.stringify` of a string. -/
def jsonString (s : String) : String := String.ofList (quoted s)

def PurgeError.message : PurgeError → String
  | .step message => message
  | .systemUnreachable packageName => "Cannot purge " ++ packageName ++
      " — system extension (locked); manifest unreachable, refusing fail-open."
  | .locked packageName requiredInProd => "Cannot purge " ++ packageName ++
      " — extension is locked" ++ (if requiredInProd then " (required-in-prod)" else "") ++
      ". Update is permitted; archive/uninstall is not."
  | .invalidUrl url => "Invalid URL: " ++ url
  | .productionHost host prodHosts => "extensions_purge refused: DB host " ++ host ++
      " matches production pattern (CINATRA_DB_PROD_HOSTS=" ++ prodHosts ++
      "). Purge is dev/local only."
  | .digestRequired =>
    "extensions_purge refused: a digest from the extensions_purge dry-run plan is REQUIRED."
  | .digestMismatch expected current => "extensions_purge refused: state changed since " ++
      "planning (expected digest " ++ expected ++ ", current " ++ current ++
      "). Re-plan and retry."
  | .unsupportedKind packageName typeId notes => "extensions_purge refused: could not resolve " ++
      "a supported extension kind for " ++ packageName ++ " (typeId=" ++ jsonString typeId ++
      "). " ++ " ".intercalate notes
  | .connectorRow packageName templateId => "extensions_purge refused: connector " ++
      packageName ++ " unexpectedly has an installed agent_templates row (" ++ templateId ++
      "). Refusing rather than half-purging."
  | .activeDependents packageName dependents => "extensions_purge refused: " ++
      toString dependents.length ++ " active dependent(s) still reference " ++ packageName ++
      ": " ++ ", ".intercalate (dependents.map ActiveDependent.text) ++
      ". Purge or detach the dependents first."
  | .skillKind => "extensions_purge refused: skill purge via extensions_purge_execute is not " ++
      "yet supported — skill DB/disk cleanup (skill_packages / skill_matches / data/skills) " ++
      "differs from agents and the agent-only saga would half-purge it. Use " ++
      "extensions_uninstall for skills. agent + connector + artifact are supported."
  | .quarantineIncomplete missing packageName quarantineDir => "extensions_purge refused: " ++
      "quarantine incomplete — could not snapshot version(s) " ++ ", ".intercalate missing ++
      " of " ++ packageName ++ ". Refusing without a complete recovery snapshot. Quarantine: " ++
      quarantineDir
  | .dependentAppeared dependents => "extensions_purge refused: an active dependent appeared (" ++
      ", ".intercalate (dependents.map ActiveDependent.text) ++ "). Nothing destroyed."
  | .stateChanged planned current => "extensions_purge refused: state changed (digest " ++
      planned ++ " -> " ++ current ++ "). Nothing destroyed. Re-plan."
  | .rolledBack why disk => "extensions_purge rolled back: " ++ why ++ ". Disk " ++ disk.text ++
      ". Verdaccio untouched." ++
      (if notRestored disk then " MANUAL RECOVERY REQUIRED." else " Consistent — re-plan and retry.")

/-- The error tells the operator to recover by hand. -/
def PurgeError.demandsManualRecovery : PurgeError → Bool
  | .rolledBack _ disk => notRestored disk
  | _ => false

/-! ## The steps -/

/-- Which of its readings the saga makes. -/
inductive Site where
  | plan | saga | rescan
deriving DecidableEq

inductive PurgeCall where
  | readInstalledStatuses (packageName : String)
  | loadVerdaccioConfig (site : Site)
  | resolvePackageKind (site : Site) (packageName : String) (config : ResolvedVerdaccioConfig)
  | getAgentPackage (site : Site) (packageName : String) (config : ResolvedVerdaccioConfig)
  | listVersions (site : Site) (packageName : String) (config : ResolvedVerdaccioConfig)
  | readTemplateByPackageName (site : Site) (packageName : String)
  | readTemplatesDependingOn (site : Site) (packageName : String)
  | readTemplatesReferencingChild (site : Site) (packageName : String)
  | listOnDiskOasDependents (site : Site) (packageName : String)
  | fetchPackument (packageName : String) (config : ResolvedVerdaccioConfig)
  | makeQuarantineDir (packageName : String)
  | downloadTarball (index : Nat) (packageName version destPath : String)
  | writeManifest (quarantineDir : String)
  | writePackument (quarantineDir : String) (packument : Json)
  | computeDanglingReferences (ref : PackageRef)
  | writeAuditEntry (entry : AuditEntry)
  | extensionDirPresent (packageName : String)
  | strictDiskPurge (packageName : String)
  | restoreDirFromTarball (packageName tarballPath : String)
  | dbPurgeAtomic (packageName : String)
  | capabilityTeardown (packageName : String)
  | dataTeardown (packageName : String)

/-- A canonical row, as far as the lock check reads it. -/
structure CanonicalLock where
  locked : Bool
  requiredInProd : Bool

abbrev PurgeCall.Reply : PurgeCall → Type
  | .readInstalledStatuses _ => List CanonicalLock
  | .loadVerdaccioConfig _ => ResolvedVerdaccioConfig
  | .resolvePackageKind _ _ _ => Option String
  | .getAgentPackage _ _ _ => PackageOrigin
  | .listVersions _ _ _ => PublishedVersions
  | .readTemplateByPackageName _ _ => Option AgentTemplate
  | .readTemplatesDependingOn _ _ | .readTemplatesReferencingChild _ _
  | .listOnDiskOasDependents _ _ => List String
  | .fetchPackument _ _ => Option Json
  | .makeQuarantineDir _ => String
  | .computeDanglingReferences _ => DanglingReferences
  | .downloadTarball _ _ _ _ | .extensionDirPresent _ | .dbPurgeAtomic _ => Bool
  | _ => Unit

abbrev PurgeProg := Prog PurgeCall PurgeCall.Reply PurgeError

structure PurgeHost where
  /-- `createHash("sha256").update(s).digest("hex")`. -/
  sha256 : List Char → String
  /-- `a.localeCompare(b) <= 0`. -/
  localeLe : String → String → Bool
  isSystemExtension : String → Bool
  /-- `process.env.SUPABASE_DB_URL` and `process.env.CINATRA_DB_PROD_HOSTS`. -/
  supabaseDbUrl : Option String
  dbProdHosts : Option String
  /-- `new URL(url).hostname`; `none` throws. -/
  urlHostname : String → Option String

/-! ## The plan -/

structure ExtensionPurgePlan where
  packageName : String
  kind : Option String
  typeId : String
  registryUrl : String
  registryScope : String
  originVisibility : Option String
  originScope : Option String
  versions : List String
  distTags : List (String × String)
  installedTemplateId : Option String
  activeDependents : List ActiveDependent
  blocked : Bool
  digest : String
  notes : List String

/-- `deriveTypeId`; `none` throws. -/
def deriveTypeId : Option String → Option String
  | none => some "agent"
  | some "agent" => some "agent"
  | some "skill" => some "skill"
  | some "connector" => some "connector"
  | some "artifact" => some "artifact"
  | some "workflow" => some "workflow"
  | some _ => none

def nullable (x : Option String) : Json :=
  match x with
  | some s => .str s
  | none => .null

/-- `canonicalDigest`: the parts in the order of their names. -/
def planDigest (host : PurgeHost) (config : ResolvedVerdaccioConfig) (origin : PackageOrigin)
    (packageName : String) (kind : Option String) (typeId : String) (published : PublishedVersions)
    (installedTemplateId : Option String) (dependents : List ActiveDependent) : String :=
  host.sha256 (print (.obj [("activeDependents",
        .arr (dependents.map fun d => .str (d.via.text ++ ":" ++ d.packageName))),
      ("distTags", .obj (published.distTags.map fun t => (t.1, .str t.2))),
      ("installedTemplateId", nullable installedTemplateId),
      ("kind", nullable kind),
      ("originScope", nullable origin.scope),
      ("originVisibility", nullable origin.visibility),
      ("packageName", .str packageName),
      ("registryScope", .str config.packageScope),
      ("registryUrl", .str config.registryUrl),
      ("typeId", .str typeId),
      ("versions", .arr ((CodeUnits.jsSort published.versions).map Json.str))]))

def noAgentPayloadNote : String :=
  "No agent payload in the registry (skill/connector, or already absent) — kind taken from " ++
    "package.json cinatra.kind."

def noVersionsNote : String :=
  "No published versions in the registry (idempotent — nothing to unpublish)."

def noKindNote : String :=
  "Could not authoritatively resolve the extension kind (no package.json cinatra.kind, no agent " ++
    "payload, no installed row) — purge will REFUSE."

def connectorNote : String :=
  "Connector kind: purge removes Verdaccio versions + DB row + audit + quarantine, but NOT " ++
    "runtime/filesystem unload — connectors are bundle-compiled; source removal is a PR + " ++
    "redeploy concern."

def workflowNote : String :=
  "Workflow kind: purge removes Verdaccio versions + audit + quarantine; workflow_template rows " ++
    "are owned by release-workflows lifecycle ops, not the agent-only DB saga. No " ++
    "agent_templates DB/disk cleanup."

/-- The typeId of a resolved kind, and what the plan notes of it. -/
def planTypeId (kind : Option String) : String × List String :=
  if kind.getD "" = "" then ("", [noKindNote])
  else match deriveTypeId kind with
    | some typeId => (typeId, [])
    | none => ("", ["Cannot resolve a supported extension kind (kind=" ++ orNull kind ++
        ": [extensions] Unknown kind '" ++ orNull kind ++
        "' — no extension handler is registered for this kind) — purge will REFUSE."])

/-- The dependents an edge reports, less the package itself and the nameless. -/
def dependentsVia (packageName : String) (via : DependentVia) (names : List String) :
    List ActiveDependent :=
  (names.filter fun n => n ≠ "" && n ≠ packageName).map fun n => ⟨n, via⟩

def sortDependents (host : PurgeHost) (dependents : List ActiveDependent) : List ActiveDependent :=
  dependents.eraseDups.insertionSort fun a b =>
    host.localeLe (a.packageName ++ a.via.text) (b.packageName ++ b.via.text) = true

def planExtensionPurge (host : PurgeHost) (site : Site) (packageName : String) :
    PurgeProg ExtensionPurgePlan := do
  let config ← perform <| PurgeCall.loadVerdaccioConfig site
  -- the kind as package.json declares it; a registry that cannot say is no error
  let declared ← (perform <| PurgeCall.resolvePackageKind site packageName config).attempt
  let explicitKind : Option String := match declared with
    | .ok kind => kind
    | .error _ => none
  let detail ← (perform <| PurgeCall.getAgentPackage site packageName config).attempt
  let (origin, payloadNotes, agentPayloadResolved) :=
    match detail with
    | .ok origin => (origin, [], true)
    | .error _ => ((⟨none, none⟩ : PackageOrigin), [noAgentPayloadNote], false)
  let published ← perform <| PurgeCall.listVersions site packageName config
  let template ← perform <| PurgeCall.readTemplateByPackageName site packageName
  let installedTemplateId := template.map AgentTemplate.id
  let kind := explicitKind.or
    (if agentPayloadResolved || installedTemplateId.getD "" ≠ "" then some "agent" else none)
  let (typeId, kindNotes) := planTypeId kind
  let depending ← perform <| PurgeCall.readTemplatesDependingOn site packageName
  let referencing ← perform <| PurgeCall.readTemplatesReferencingChild site packageName
  let onDisk ← perform <| PurgeCall.listOnDiskOasDependents site packageName
  let activeDependents := sortDependents host
    (dependentsVia packageName .agentDependencies depending ++
      dependentsVia packageName .compiledPlan referencing ++
      dependentsVia packageName .onDiskOas onDisk)
  pure
    { packageName, kind, typeId
      registryUrl := config.registryUrl
      registryScope := config.packageScope
      originVisibility := origin.visibility
      originScope := origin.scope
      versions := published.versions
      distTags := published.distTags
      installedTemplateId, activeDependents
      blocked := !activeDependents.isEmpty
      digest := planDigest host config origin packageName kind typeId published
        installedTemplateId activeDependents
      notes := payloadNotes ++ (if published.versions.isEmpty then [noVersionsNote] else []) ++
        kindNotes ++ (if typeId = "connector" then [connectorNote] else []) ++
        (if typeId = "workflow" then [workflowNote] else []) }

/-! ## The quarantine -/

def sanitizeForPath (packageName : String) : String :=
  let chars := packageName.toList
  let name := if chars.head? = some '@' then chars.tail else chars
  String.ofList (name.flatMap fun c =>
    if c = '/' then ['_', '_']
    else if c.isAlphanum || c = '.' || c = '_' || c = '-' then [c] else ['_'])

structure QuarantineResult where
  quarantineDir : String
  tarballs : List String
  missingTarballs : List String

def tarballPath (quarantineDir packageName version : String) : String :=
  quarantineDir ++ "/" ++ sanitizeForPath packageName ++ "-" ++ version ++ ".tgz"

/-- The loop over the versions: the tarballs that came, and the versions that did not. -/
def downloadTarballs (packageName quarantineDir : String) :
    Nat → List String → PurgeProg (List String × List String)
  | _, [] => pure ([], [])
  | i, version :: rest => do
    let path := tarballPath quarantineDir packageName version
    let got ← perform <| PurgeCall.downloadTarball i packageName version path
    let (tarballs, missing) ← downloadTarballs packageName quarantineDir (i + 1) rest
    pure (if got then (path :: tarballs, missing) else (tarballs, version :: missing))

def quarantineExtensionBeforePurge (packageName : String) (versions : List String)
    (packument : Option Json) : PurgeProg QuarantineResult := do
  let quarantineDir ← perform <| PurgeCall.makeQuarantineDir packageName
  let (tarballs, missingTarballs) ← downloadTarballs packageName quarantineDir 0 versions
  let _ ← perform <| PurgeCall.writeManifest quarantineDir
  match packument with
  | some p => let _ ← perform <| PurgeCall.writePackument quarantineDir p
  | none => pure ()
  pure ⟨quarantineDir, tarballs, missingTarballs⟩

end ExtPurge
