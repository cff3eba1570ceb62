import Cinatra.Extensions.CanonicalTypes

/-! # DependencyClosure — closures over the manifest, and their gates

    The scope-aware lookup, the transitive closure with its buckets, the boot
    scan and the gates of install, update, archive and restore.  Whether a version
    satisfies a range is semver's, a parameter. -/

namespace ExtClosure

open ExtCanonical

/-- What the closure engine reads of a canonical row. -/
structure InstalledExtension where
  id : String
  packageName : String
  organizationId : Option String
  kind : ExtensionKind
  status : ExtensionLifecycleStatus
  source : ExtensionSource
  dependencies : List ExtensionDependency
deriving DecidableEq

/-- `PRESENT_STATUSES`. -/
def InstalledExtension.present (r : InstalledExtension) : Bool :=
  r.status = .active || r.status = .locked

def isInstallBlockingEdge (dep : ExtensionDependency) : Bool :=
  dep.requirement = .required && dep.edgeType ≠ .peer

def installedVersionOfRow (row : InstalledExtension) : Option String :=
  match row.source with
  | .verdaccio v => if v.version = "" then none else some v.version
  | .github _ _ _ _ | .local _ _ => none

/-- The violated constraint, for display. -/
def edgeVersionViolation (satisfies : String → String → Bool) (dep : ExtensionDependency)
    (installedVersion : Option String) : Option String :=
  match installedVersion with
  | none => none
  | some version =>
    match dep.versionConstraint with
    | .semverRange range =>
      if range = "*" || satisfies version range then none else some ("\"" ++ range ++ "\"")
    | .exact wanted => if wanted = version then none else some ("=" ++ wanted)
    | .gitRef _ => none

/-! ## The closure -/

abbrev ManifestLookup := String → Option InstalledExtension

/-- The live rows of a package. -/
def liveRows (rows : List InstalledExtension) (name : String) : List InstalledExtension :=
  rows.filter (fun r => r.packageName = name && r.present)

/-- An organisation's own row among live rows; the platform has none of its own here. -/
def ownRow (live : List InstalledExtension) : Option String → Option InstalledExtension
  | some org => live.find? (fun r : InstalledExtension => r.organizationId = some org)
  | none => none

/-- The organisation's own live row, else the platform's. -/
def makeScopedManifestLookup (rows : List InstalledExtension) (organizationId : Option String) :
    ManifestLookup :=
  fun name => (ownRow (liveRows rows name) organizationId).or
    ((liveRows rows name).find? (fun r : InstalledExtension => r.organizationId = none))

/-- A dependency that is not there; no status is `missing`. -/
structure ClosureNode where
  packageName : String
  status : Option ExtensionLifecycleStatus
  kind : Option ExtensionKind

structure RangeViolation where
  packageName : String
  via : String
  installedVersion : String
  constraint : String

structure ClosureResult where
  missingRequired : List ClosureNode
  missingOptional : List ClosureNode
  missingPeer : List ClosureNode
  rangeViolations : List RangeViolation
  visited : List String

/-- `ok`: nothing required is missing. -/
def ClosureResult.ok (r : ClosureResult) : Bool := r.missingRequired.isEmpty

/-- A package whose edges are still to be looked at. -/
structure Frame where
  «from» : String
  deps : List ExtensionDependency

structure SearchState where
  /-- The top of the stack first. -/
  stack : List Frame
  result : ClosureResult

variable (satisfies : String → String → Bool)

/-- A missing target, into the bucket of its edge. -/
def recordMissing (r : ClosureResult) (dep : ExtensionDependency)
    (installed : Option InstalledExtension) : ClosureResult :=
  let node : ClosureNode :=
    ⟨dep.packageName, installed.map InstalledExtension.status, installed.map InstalledExtension.kind⟩
  if dep.edgeType = .peer then { r with missingPeer := r.missingPeer ++ [node] }
  else if isInstallBlockingEdge dep then { r with missingRequired := r.missingRequired ++ [node] }
  else { r with missingOptional := r.missingOptional ++ [node] }

/-- The version of a present target of an install-blocking edge. -/
def recordVersion («from» : String) (r : ClosureResult) (dep : ExtensionDependency)
    (installed : InstalledExtension) : ClosureResult :=
  if isInstallBlockingEdge dep then
    match edgeVersionViolation satisfies dep (installedVersionOfRow installed) with
    | some violated =>
      { r with rangeViolations := r.rangeViolations ++
          [⟨dep.packageName, «from», (installedVersionOfRow installed).getD "(unknown)", violated⟩] }
    | none => r
  else r

/-- One edge of the package at the top. -/
def visitDep (lookup : ManifestLookup) («from» : String) (s : SearchState)
    (dep : ExtensionDependency) : SearchState :=
  match (lookup dep.packageName).filter InstalledExtension.present with
  | none => { s with result := recordMissing s.result dep (lookup dep.packageName) }
  | some installed =>
    let r := recordVersion satisfies «from» s.result dep installed
    if r.visited.contains dep.packageName then { s with result := r }
    else { stack := ⟨dep.packageName, installed.dependencies⟩ :: s.stack
           result := { r with visited := r.visited ++ [dep.packageName] } }

/-- The `while` loop, for so many rounds. -/
def closureLoop (lookup : ManifestLookup) : Nat → SearchState → SearchState
  | 0, s => s
  | fuel + 1, s =>
    match s.stack with
    | [] => s
    | f :: rest =>
      closureLoop lookup fuel
        (f.deps.foldl (visitDep satisfies lookup f.from) { s with stack := rest })

/-- The root's own edges are to be looked at. -/
def initialSearch (root : InstalledExtension) : SearchState :=
  ⟨[⟨root.packageName, root.dependencies⟩], ⟨[], [], [], [], [root.packageName]⟩⟩

/-- `computeClosure`, for so many rounds of the loop. -/
def computeClosure (fuel : Nat) (root : InstalledExtension) (lookup : ManifestLookup) :
    ClosureResult := (closureLoop satisfies lookup fuel (initialSearch root)).result

/-- The closure of a row over a snapshot, at a scope: no more rounds than rows and one. -/
def scopedClosure (rows : List InstalledExtension) (organizationId : Option String)
    (root : InstalledExtension) : ClosureResult :=
  computeClosure satisfies (rows.length + 1) root (makeScopedManifestLookup rows organizationId)

structure BrokenClosure where
  packageName : String
  missingRequired : List String
  rangeViolations : List String

/-- What the boot scan says of one row. -/
def brokenClosure? (rows : List InstalledExtension) (row : InstalledExtension) :
    Option BrokenClosure :=
  let result := scopedClosure satisfies rows row.organizationId row
  if row.present && !(result.missingRequired.isEmpty && result.rangeViolations.isEmpty) then
    some ⟨row.packageName, result.missingRequired.map ClosureNode.packageName,
      result.rangeViolations.map (fun v => v.packageName ++ "@" ++ v.installedVersion ++
        " violates " ++ v.constraint ++ " required by " ++ v.via)⟩
  else none

def findBrokenClosures (rows : List InstalledExtension) : List BrokenClosure :=
  rows.filterMap (brokenClosure? satisfies rows)

/-! ## The gates -/

inductive ClosureErrorCode where
  | requiredMissing | archiveBreaksClosure | updateBreaksDependents | rangeViolation
deriving DecidableEq

structure DependencyClosureError where
  code : ClosureErrorCode
  message : String
  dependents : List String
deriving DecidableEq

def ClosureNode.statusText (n : ClosureNode) : String :=
  match n.status with
  | none => "missing"
  | some .active => "active"
  | some .archived => "archived"
  | some .locked => "locked"

def RangeViolation.text (v : RangeViolation) : String :=
  v.packageName ++ "@" ++ v.installedVersion ++ " violates " ++ v.constraint ++
    " (required by " ++ v.via ++ ")"

def ClosureNode.text (n : ClosureNode) : String := n.packageName ++ " (" ++ n.statusText ++ ")"

/-- `assertInstallClosure`, of a closure. -/
def assertInstallClosure (packageName : String) (result : ClosureResult) :
    Except DependencyClosureError ClosureResult :=
  if result.ok && !result.rangeViolations.isEmpty then
    .error ⟨.rangeViolation, "Cannot install " ++ packageName ++
      " — installed dependency versions violate its declared constraints: " ++
      String.intercalate "; " (result.rangeViolations.map RangeViolation.text),
      result.rangeViolations.map RangeViolation.packageName⟩
  else if !result.ok then
    .error ⟨.requiredMissing, "Cannot install " ++ packageName ++
      " — required dependencies missing or archived: " ++
      String.intercalate ", " (result.missingRequired.map ClosureNode.text),
      result.missingRequired.map ClosureNode.packageName⟩
  else .ok result

/-- The live rows an update replaces. -/
def updateTargets (rows : List InstalledExtension) (packageName : String)
    (organizationId : Option String) : List InstalledExtension :=
  rows.filter (fun r => r.packageName = packageName && r.present &&
    r.organizationId = organizationId)

/-- The dependent's own lookup resolves the row being updated. -/
def resolvesTarget (rows : List InstalledExtension) (packageName : String)
    (organizationId : Option String) (row : InstalledExtension) : Bool :=
  match makeScopedManifestLookup rows row.organizationId packageName with
  | none => false
  | some resolved => ((updateTargets rows packageName organizationId).map
      InstalledExtension.id).contains resolved.id

/-- The edges an update would violate, with their dependents. -/
def updateViolations (packageName newVersion : String) (rows : List InstalledExtension)
    (organizationId : Option String) : List (String × String) :=
  rows.flatMap (fun row =>
    if row.packageName ≠ packageName && row.present &&
        resolvesTarget rows packageName organizationId row then
      (row.dependencies.filter (fun dep => dep.packageName = packageName &&
        isInstallBlockingEdge dep)).filterMap (fun dep =>
          (edgeVersionViolation satisfies dep (some newVersion)).map (fun v => (row.packageName, v)))
    else [])

/-- `assertUpdateDoesNotBreakDependents`, at an explicit scope. -/
def assertUpdateDoesNotBreakDependents (packageName newVersion : String)
    (rows : List InstalledExtension) (organizationId : Option String) :
    Except DependencyClosureError Unit :=
  let violations := updateViolations satisfies packageName newVersion rows organizationId
  if violations = [] then .ok ()
  else
    let names := (violations.map Prod.fst).eraseDups
    .error ⟨.updateBreaksDependents, "Cannot update " ++ packageName ++ " to " ++ newVersion ++
      " — it would break " ++ toString names.length ++ " installed dependent(s): " ++
      String.intercalate "; "
        (violations.map (fun v => v.1 ++ " requires " ++ packageName ++ "@" ++ v.2)) ++
      ". Update the dependent(s) to versions whose declared ranges admit " ++ newVersion ++
      ", or keep " ++ packageName ++ " at a satisfying version.", names⟩

/-- `assertArchiveDoesNotBreakClosure`. -/
def assertArchiveDoesNotBreakClosure (packageName : String) (rows : List InstalledExtension) :
    Except DependencyClosureError Unit :=
  let blocking := (rows.filter (fun row => row.packageName ≠ packageName && row.present &&
    row.dependencies.any (fun d => d.packageName = packageName && isInstallBlockingEdge d))).map
      InstalledExtension.packageName
  if blocking = [] then .ok ()
  else .error ⟨.archiveBreaksClosure, "Cannot archive/uninstall " ++ packageName ++
    " — required by active dependents: " ++ String.intercalate ", " blocking ++
    ". Archive or detach them first.", blocking⟩

/-- `assertForwardInstallClosureForPackage`, of one target. -/
def assertForward (packageName : String) (result : ClosureResult) :
    Except DependencyClosureError Unit :=
  if !result.rangeViolations.isEmpty then
    .error ⟨.rangeViolation, "Cannot install " ++ packageName ++
      " — installed dependency versions violate its declared constraints: " ++
      String.intercalate "; " (result.rangeViolations.map RangeViolation.text) ++
      ". Update the violating dependencies to satisfying versions first, then retry.",
      result.rangeViolations.map RangeViolation.packageName⟩
  else if !result.missingRequired.isEmpty then
    .error ⟨.requiredMissing, "Cannot install " ++ packageName ++ " — it requires " ++
      String.intercalate ", " (result.missingRequired.map ClosureNode.text) ++
      ", which dependency auto-install did not put in place (only required runtime/" ++
      "install-time edges auto-install; the plan may also have drifted mid-install). Install " ++
      String.intercalate ", " (result.missingRequired.map ClosureNode.packageName) ++
      " first, then retry.", result.missingRequired.map ClosureNode.packageName⟩
  else .ok ()

/-- `assertForwardInstallClosureForPackage`, at an explicit scope. -/
def assertForwardInstallClosureForPackage (packageName : String) (rows : List InstalledExtension)
    (organizationId : Option String) : Except DependencyClosureError Unit :=
  (rows.filter (fun r => r.packageName = packageName && r.present &&
    r.organizationId = organizationId)).forM (fun target =>
      assertForward packageName (scopedClosure satisfies rows target.organizationId target))

end ExtClosure
