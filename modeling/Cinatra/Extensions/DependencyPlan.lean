import Cinatra.Extensions.DependencyClosure
import Cinatra.Extensions.PurgePlan
import Cinatra.Lib.Loop
import Cinatra.Lib.ReadyOrder
import Cinatra.Registries.Resolver

/-! # DependencyPlan — the order in which an install's dependencies go in

    The planner walks the auto-installable edges from the root, pins what it comes to
    and checks every edge it takes against the pin; members that are installed already
    are not walked.  What was resolved is ordered dependencies first, root last.  The
    registry, the manifest reader and semver are parameters. -/

namespace ExtPlan

open ExtCanonical ExtClosure

def firstPartyPackageScope : String := "@cinatra-ai"

/-- The part of a scoped name before its first slash. -/
def vendorScopeOfPackage (packageName : String) : Option String :=
  let chars := packageName.toList
  if chars.head? ≠ some '@' then none
  else if '/' ∈ chars ∧ 1 < chars.idxOf '/' then some (String.ofList (chars.takeWhile (· ≠ '/')))
  else none

/-- The root's own vendor scope and the first-party scope. -/
def dependencyScopePrefixesFor (rootPackageName : String) : List String :=
  match vendorScopeOfPackage rootPackageName with
  | none => [firstPartyPackageScope ++ "/"]
  | some own =>
    if own ++ "/" = firstPartyPackageScope ++ "/" then [firstPartyPackageScope ++ "/"]
    else [firstPartyPackageScope ++ "/", own ++ "/"]

/-! ## Plans -/

structure DependencyClosurePin where
  name : String
  version : String

/-- The package an install is asked for, at a version or a tag. -/
structure PlanRoot where
  packageName : String
  version : String
deriving DecidableEq

inductive PlanErrorCode where
  | authorizationMismatch | rangeViolation | installedVersionConflict | unsupportedConstraint
  | memberUnresolvable | dependencyScope
deriving DecidableEq

inductive PlanFailure where
  /-- `DependencyPlanError`. -/
  | plan (code : PlanErrorCode) (message : String)
  /-- What the registry or the manifest reader threw. -/
  | thrown (message : String)
  /-- Not an error of the source: the walk was not given enough rounds. -/
  | outOfFuel
deriving DecidableEq

structure PlannedMember where
  packageName : String
  version : String
  typeId : String
  edges : List ExtensionDependency
  alreadyInstalled : Bool
deriving DecidableEq

inductive PlanSource where
  | marketplaceClosure | manifestWalk
deriving DecidableEq

structure DependencyInstallPlan where
  ordered : List PlannedMember
  root : PlanRoot
  source : PlanSource
  memberKinds : OrderedMap String String
deriving DecidableEq

/-- A packument summary; what a manifest is, is the reader's business. -/
structure MemberSummary (μ : Type) where
  resolvedVersion : String
  kind : Option String
  manifest : μ

structure DependencyPlanDeps (μ : Type) where
  fetchSummary : String → String → Except String (MemberSummary μ)
  parseEdges : μ → String → Except String (List ExtensionDependency)
  isAutoInstallableEdge : ExtensionDependency → Bool
  /-- What `readInstalledRows` answers. -/
  installedRows : List InstalledExtension

structure PlanDependencyInstallInput where
  root : PlanRoot
  orgId : Option String
  closure : Option (List DependencyClosurePin)

/-- Who asks for a package, by which edge. -/
structure Request where
  «from» : String
  edge : ExtensionDependency

/-- What a seam throws ends the plan. -/
def rethrow {α : Type} : Except String α → Except PlanFailure α
  | .ok a => .ok a
  | .error message => .error (.thrown message)

/-- The requester an error names: the root, when nobody asked. -/
def PlanDependencyInstallInput.requester (input : PlanDependencyInstallInput)
    (requestedBy : Option Request) : String :=
  (requestedBy.map Request.from).getD input.root.packageName

/-! ## One node -/

def knownKinds : List String := ["agent", "skill", "connector", "artifact", "workflow"]

def kindToTypeId (kind : Option String) (packageName : String) : Except PlanFailure String :=
  match kind with
  | none => .ok "agent"
  | some kind =>
    if kind ∈ knownKinds then .ok kind
    else .error (.plan .memberUnresolvable (packageName ++ ": unsupported extension kind \"" ++
      kind ++ "\" — cannot dispatch its install."))

/-- The organisation's own live row, else the platform's. -/
def findLiveRow (rows : List InstalledExtension) (packageName : String)
    (organizationId : Option String) : Option InstalledExtension :=
  ((liveRows rows packageName).find? (fun r => r.organizationId = organizationId)).or
    ((liveRows rows packageName).find? (fun r => r.organizationId = none))

variable (satisfies : String → String → Bool) {μ : Type} (deps : DependencyPlanDeps μ)
  (input : PlanDependencyInstallInput)

def assertPinSatisfiesConstraint («from» : String) (dep : ExtensionDependency) (pin : String) :
    Except PlanFailure Unit :=
  match dep.versionConstraint with
  | .gitRef _ => .error (.plan .unsupportedConstraint («from» ++
      " declares a git-ref constraint on " ++ dep.packageName ++ " — git-ref dependency " ++
      "targets are not installable from the registry (version model v1 supports " ++
      "registry coordinates only). Republish " ++ «from» ++
      " with a semver range or exact version."))
  | .exact version =>
    if version = pin then .ok ()
    else .error (.plan .rangeViolation («from» ++ " requires " ++ dep.packageName ++ "@" ++
      version ++ " exactly, but the resolved pin is " ++ pin ++
      " — refusing (exact pins must satisfy manifest constraints; server-side " ++
      "re-resolution is not performed in v1)."))
  | .semverRange range =>
    if range = "*" || satisfies pin range then .ok ()
    else .error (.plan .rangeViolation («from» ++ " requires " ++ dep.packageName ++ "@\"" ++
      range ++ "\", but the resolved pin is " ++ pin ++
      " — refusing (the pin must satisfy every declared range; fix the manifest range or " ++
      "publish a satisfying version)."))

/-- The edge somebody asks by, if anybody does, is checked against the pin. -/
def checkRequest (requestedBy : Option Request) (pin : String) : Except PlanFailure Unit :=
  match requestedBy with
  | none => .ok ()
  | some r => assertPinSatisfiesConstraint satisfies r.from r.edge pin

def assertInDependencyScope (packageName requestedFrom : String) : Except PlanFailure Unit :=
  let scopePrefixes := dependencyScopePrefixesFor input.root.packageName
  if RegResolver.inScope scopePrefixes packageName then .ok ()
  else .error (.plan .dependencyScope (requestedFrom ++ " requires " ++ packageName ++
    ", which is outside the dependency-scope allowlist for " ++ input.root.packageName ++ " (" ++
    String.intercalate ", " scopePrefixes ++ ") — refusing (dependency-confusion mitigation: " ++
    "an install's dependency tree is confined to the root package's own vendor scope plus the " ++
    "first-party base scope)."))

/-- The version a package is authorised at; a later entry of a name replaces an earlier. -/
def authorisedPin (closure : List DependencyClosurePin) (packageName : String)
    (requestedBy : Option Request) : Except PlanFailure String :=
  if packageName = input.root.packageName then .ok input.root.version
  else
    match closure.reverse.find? (fun c => c.name = packageName) with
    | some entry => .ok entry.version
    | none => .error (.plan .authorizationMismatch (input.requester requestedBy ++ " requires " ++
        packageName ++ ", which is NOT a member of the marketplace-authorized closure for " ++
        input.root.packageName ++ "@" ++ input.root.version ++
        " — refusing (the authorization set and the manifest walk disagree; the storefront " ++
        "listing may be stale)."))

/-- What the registry is asked for without a closure. -/
def devConstraint (requestedBy : Option Request) : Except PlanFailure String :=
  match requestedBy with
  | none => .ok input.root.version
  | some r =>
    match r.edge.versionConstraint with
    | .exact version => .ok version
    | .semverRange range => .ok range
    | .gitRef _ =>
      match assertPinSatisfiesConstraint satisfies r.from r.edge "0.0.0" with
      | .error err => .error err
      | .ok _ => .error (.thrown "unreachable")

/-- A pin, with the summary and the edges of that version. -/
structure Pinned (μ : Type) where
  pin : String
  summary : MemberSummary μ
  edges : List ExtensionDependency

/-- The pin of a package that was not resolved before. -/
def pinNode (packageName : String) (requestedBy : Option Request) : Except PlanFailure (Pinned μ) :=
  match input.closure with
  | some closure => do
    let pin ← authorisedPin input closure packageName requestedBy
    checkRequest satisfies requestedBy pin
    let summary ← rethrow (deps.fetchSummary packageName pin)
    if summary.resolvedVersion ≠ pin then
      .error (.plan .memberUnresolvable (packageName ++ ": the registry resolved " ++
        summary.resolvedVersion ++ " for the exact pin " ++ pin ++
        " — refusing (pin/read drift)."))
    else
      let edges ← rethrow (deps.parseEdges summary.manifest packageName)
      .ok ⟨pin, summary, edges⟩
  | none => do
    let constraint ← devConstraint satisfies input requestedBy
    let summary ← rethrow (deps.fetchSummary packageName constraint)
    let edges ← rethrow (deps.parseEdges summary.manifest packageName)
    checkRequest satisfies requestedBy summary.resolvedVersion
    .ok ⟨summary.resolvedVersion, summary, edges⟩

/-- Is the package there, at this version or at none?  The root is exempt. -/
def installedCheck (packageName pin : String) (requestedBy : Option Request) :
    Except PlanFailure Bool :=
  if packageName = input.root.packageName then .ok false
  else
    match findLiveRow deps.installedRows packageName input.orgId with
    | none => .ok false
    | some row =>
      match installedVersionOfRow row with
      | none => .ok true
      | some version =>
        if version = pin then .ok true
        else .error (.plan .installedVersionConflict (packageName ++
          " is already installed at " ++ version ++ ", but " ++ input.requester requestedBy ++
          " needs it at " ++ pin ++ " — refusing to silently change an installed version. " ++
          "To proceed, update " ++ packageName ++ " to " ++ pin ++
          " explicitly (extensions_update " ++ packageName ++ "@" ++ pin ++
          ") and retry this install."))

/-- What was resolved so far. -/
structure Planning where
  resolved : OrderedMap String PlannedMember
  memberKinds : OrderedMap String String

def finalizeNode (packageName : String) (requestedBy : Option Request) (pinned : Pinned μ)
    (s : Planning) : Except PlanFailure (PlannedMember × Planning) := do
  let alreadyInstalled ← installedCheck deps input packageName pinned.pin requestedBy
  let typeId ← kindToTypeId pinned.summary.kind packageName
  let member : PlannedMember :=
    { packageName := packageName
      version := pinned.pin
      typeId := typeId
      edges := pinned.edges
      alreadyInstalled := alreadyInstalled }
  let memberKinds :=
    match pinned.summary.kind with
    | some kind => OrderedMap.set packageName kind s.memberKinds
    | none => s.memberKinds
  .ok (member, { resolved := OrderedMap.set packageName member s.resolved
                 memberKinds := memberKinds })

def resolveNode (packageName : String) (requestedBy : Option Request) (s : Planning) :
    Except PlanFailure (PlannedMember × Planning) :=
  match OrderedMap.get? packageName s.resolved with
  | some memo => do
    checkRequest satisfies requestedBy memo.version
    .ok (memo, s)
  | none => do
    assertInDependencyScope input packageName (input.requester requestedBy)
    let pinned ← pinNode satisfies deps input packageName requestedBy
    finalizeNode deps input packageName requestedBy pinned s

structure Walk where
  planning : Planning
  queue : List PlannedMember
  enqueued : List String

/-- One edge of the member at hand. -/
def walkEdge (current : PlannedMember) (w : Walk) (edge : ExtensionDependency) :
    Except PlanFailure Walk :=
  if !deps.isAutoInstallableEdge edge then .ok w
  else do
    let (target, planning) ← resolveNode satisfies deps input edge.packageName
      (some ⟨current.packageName, edge⟩) w.planning
    if target.packageName ∈ w.enqueued then .ok { w with planning := planning }
    else
      .ok { planning := planning
            queue := if target.alreadyInstalled then w.queue else w.queue ++ [target]
            enqueued := w.enqueued ++ [target.packageName] }

/-- The breadth-first walk, for so many members. -/
def walkLoop : Nat → Walk → Except PlanFailure Planning
  | 0, _ => .error .outOfFuel
  | fuel + 1, w =>
    match w.queue with
    | [] => .ok w.planning
    | current :: rest =>
      match current.edges.foldlM (walkEdge satisfies deps input current)
        { w with queue := rest } with
      | .error err => .error err
      | .ok w' => walkLoop fuel w'

/-! ## The order -/

/-- The in-plan dependencies of a package. -/
def dependsOn (resolved : OrderedMap String PlannedMember) (name : String) : List String :=
  match OrderedMap.get? name resolved with
  | none => []
  | some n => (n.edges.filter (fun e => deps.isAutoInstallableEdge e &&
      (OrderedMap.get? e.packageName resolved).isSome)).map ExtensionDependency.packageName

/-- Among the ready the root goes last. -/
def pickReady (rootName : String) (ready : List String) : Option String :=
  (ready.find? (fun n => n ≠ rootName)).or ready.head?

/-- The root is moved behind all others, if it is not there. -/
def moveRootLast (rootName : String) (ordered : List PlannedMember) : List PlannedMember :=
  let rootIdx := ordered.findIdx (fun m => m.packageName = rootName)
  if rootIdx + 1 = ordered.length then ordered
  else ordered.eraseIdx rootIdx ++ ordered[rootIdx]?.toList

def planOrder (resolved : OrderedMap String PlannedMember) : List PlannedMember :=
  let names := CodeUnits.jsSort (OrderedMap.keys resolved)
  moveRootLast input.root.packageName
    ((ReadyOrder.loop (dependsOn deps resolved) (pickReady input.root.packageName) names.length []
      names).filterMap (fun name => OrderedMap.get? name resolved))

/-- `planDependencyInstall`, walking at most so many members. -/
def planDependencyInstall (fuel : Nat) : Except PlanFailure DependencyInstallPlan := do
  let (rootMember, planning) ← resolveNode satisfies deps input input.root.packageName none ⟨[], []⟩
  let planning ← walkLoop satisfies deps input fuel
    ⟨planning, [rootMember], [input.root.packageName]⟩
  .ok { ordered := planOrder deps input planning.resolved
        root := ⟨input.root.packageName,
          ((OrderedMap.get? input.root.packageName planning.resolved).map
            PlannedMember.version).getD input.root.version⟩
        source := if input.closure.isSome then .marketplaceClosure else .manifestWalk
        memberKinds := planning.memberKinds }

end ExtPlan
