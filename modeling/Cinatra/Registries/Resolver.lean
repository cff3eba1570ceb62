import Cinatra.Lib.OrderedMap

/-! # Resolver — dependency trees over packuments

    The queue of `resolveDependencyTree`, entry by entry: its gates, the pick of a
    version, the conflict policies and the second pass.  What the registry answers
    is a function of the package; semver is a parameter. -/

namespace RegResolver

structure Dist where
  tarball : String
  integrity : String

structure PackumentVersionEntry where
  name : String
  version : String
  dist : Dist
  /-- The dependency maps under `cinatra`, by their keys. -/
  cinatra : OrderedMap String (OrderedMap String String)

structure Packument where
  name : String
  versions : OrderedMap String PackumentVersionEntry

structure PluginTypeConfig where
  scopePrefixes : List String
  packumentDepKey : String
  /-- A reader that throws ends the resolution; here are those that answer. -/
  readPackumentDeps : Option (PackumentVersionEntry → OrderedMap String String)

/-- The one place a manifest's dependencies are read. -/
def PluginTypeConfig.readDeps (c : PluginTypeConfig) (entry : PackumentVersionEntry) :
    OrderedMap String String :=
  match c.readPackumentDeps with
  | some read => read entry
  | none => (OrderedMap.get? c.packumentDepKey entry.cinatra).getD []

structure ResolvedNode where
  packageName : String
  resolvedVersion : String
  tarballUrl : String
  integrity : String
  requestedRange : String
  dependencies : OrderedMap String String

structure DependencyTree where
  root : ResolvedNode
  all : OrderedMap String ResolvedNode

/-! ## Errors -/

structure FetchError where
  statusCode : Option Nat
  code : Option String
  message : String

def is404 (err : FetchError) : Bool := err.statusCode = some 404 || err.code = some "E404"

inductive LimitKind where
  | nodes | depth
deriving DecidableEq

inductive ResolveError where
  | emptyScopePrefixes
  | malformedScopePrefix (scopePrefix : String)
  | scope (packageName : String) (scopePrefixes : List String)
  | prereleaseRange (range : String)
  | cycle (cyclePath : List String)
  | limit (kind : LimitKind) (limit : Nat)
  | fetch (err : FetchError)
  | resolution (packageName range : String) (availableVersions : List String)
  | conflict (packageName existingVersion attemptedVersion : String)
  /-- Not an error of the source: the loop was not given enough rounds. -/
  | outOfFuel

/-! ## Ranges and scopes -/

/-- What the resolver uses of semver. -/
structure Semver where
  satisfies : String → String → Bool
  gt : String → String → Bool
  maxSatisfying : List String → String → Option String

/-- A hyphen with a letter behind it. -/
def hyphenLetter : List Char → Bool
  | a :: b :: rest => (a = '-' && b.isAlpha) || hyphenLetter (b :: rest)
  | _ => false

def isPrereleaseRange (range : String) : Bool := hyphenLetter range.toList

/-- `/^@[^/@]+\/$/`. -/
def wellFormedScopePrefix (scopePrefix : String) : Bool :=
  match scopePrefix.toList with
  | '@' :: rest => rest.getLast? = some '/' && rest.dropLast ≠ [] &&
      rest.dropLast.all (fun c => c ≠ '/' && c ≠ '@')
  | _ => false

/-- `scopePrefixes.some((prefix) => name.startsWith(prefix))`. -/
def inScope (scopePrefixes : List String) (name : String) : Bool :=
  scopePrefixes.any (fun p => p.toList.isPrefixOf name.toList)

/-! ## The queue -/

inductive ConflictPolicy where
  | strictReject | preferNewer
deriving DecidableEq

structure Input where
  rootPackageName : String
  rootRange : String
  fetchPackument : String → Except FetchError Packument
  typeConfig : PluginTypeConfig
  maxNodes : Option Nat := none
  maxDepth : Option Nat := none
  conflictPolicy : Option ConflictPolicy := none

structure QueueEntry where
  name : String
  range : String
  path : List String
  depth : Nat
  fromParent : Option String
  fromParentVersion : Option String

structure ConsumerEdge where
  parent : String
  parentVersion : String
  range : String

structure Resolving where
  queue : List QueueEntry
  resolved : OrderedMap String ResolvedNode
  pickedManifests : OrderedMap String PackumentVersionEntry
  consumerEdges : OrderedMap String (List ConsumerEdge)

/-- The recorded consumers of a child. -/
def Resolving.edgesOf (s : Resolving) (childName : String) : List ConsumerEdge :=
  (OrderedMap.get? childName s.consumerEdges).getD []

/-- The edge was declared by the version its parent now has. -/
def Resolving.live (s : Resolving) (e : ConsumerEdge) : Bool :=
  (OrderedMap.get? e.parent s.resolved).map ResolvedNode.resolvedVersion = some e.parentVersion

def rebuildRanges (s : Resolving) (childName : String) : List String :=
  ((s.edgesOf childName).filter s.live).map ConsumerEdge.range

/-- The first gate an entry does not pass. -/
def rejects (input : Input) (entry : QueueEntry) : Option ResolveError :=
  if !inScope input.typeConfig.scopePrefixes entry.name then
    some (.scope entry.name input.typeConfig.scopePrefixes)
  else if isPrereleaseRange entry.range then some (.prereleaseRange entry.range)
  else if entry.name ∈ entry.path then some (.cycle (entry.path ++ [entry.name]))
  else if input.maxDepth.getD 20 < entry.depth then some (.limit .depth (input.maxDepth.getD 20))
  else none

/-- Which parent, at which version, declared the requirement. -/
def recordConsumer (entry : QueueEntry) (s : Resolving) : Resolving :=
  match entry.fromParent, entry.fromParentVersion with
  | some parent, some parentVersion =>
    let edges := s.edgesOf entry.name ++ [⟨parent, parentVersion, entry.range⟩]
    { s with consumerEdges := OrderedMap.set entry.name edges s.consumerEdges }
  | _, _ => s

/-- The children of a pick. -/
def childEntries (entry : QueueEntry) (pick : String) (deps : OrderedMap String String) :
    List QueueEntry :=
  deps.map (fun d =>
    { name := d.1, range := d.2, path := entry.path ++ [entry.name], depth := entry.depth + 1
      fromParent := some entry.name, fromParentVersion := some pick })

/-- A package met again. -/
def revisit (semver : Semver) (input : Input) (entry : QueueEntry) (packument : Packument)
    (pick : String) (existing : ResolvedNode) (s : Resolving) : Except ResolveError Resolving :=
  if existing.resolvedVersion = pick then .ok s
  else if input.conflictPolicy.getD .strictReject = .strictReject then
    .error (.conflict entry.name existing.resolvedVersion pick)
  else
    let newerPick := if semver.gt pick existing.resolvedVersion then pick
      else existing.resolvedVersion
    if !(rebuildRanges s entry.name).all (semver.satisfies newerPick) then
      .error (.conflict entry.name existing.resolvedVersion pick)
    else if semver.gt pick existing.resolvedVersion then
      match OrderedMap.get? pick packument.versions with
      | none => .error (.resolution entry.name entry.range (OrderedMap.keys packument.versions))
      | some pickedManifest =>
        let node := { existing with
          resolvedVersion := pick
          tarballUrl := pickedManifest.dist.tarball
          integrity := pickedManifest.dist.integrity
          requestedRange := entry.range }
        .ok { s with
          resolved := OrderedMap.set entry.name node s.resolved
          pickedManifests := OrderedMap.set entry.name pickedManifest s.pickedManifests
          queue := s.queue ++
            childEntries entry pick (input.typeConfig.readDeps pickedManifest) }
    else .ok s

/-- A package met for the first time. -/
def create (input : Input) (entry : QueueEntry) (packument : Packument) (pick : String)
    (s : Resolving) : Except ResolveError Resolving :=
  if input.maxNodes.getD 500 ≤ s.resolved.length then
    .error (.limit .nodes (input.maxNodes.getD 500))
  else
    match OrderedMap.get? pick packument.versions with
    | none => .error (.resolution entry.name entry.range (OrderedMap.keys packument.versions))
    | some pickedManifest =>
      let node : ResolvedNode :=
        { packageName := entry.name
          resolvedVersion := pick
          tarballUrl := pickedManifest.dist.tarball
          integrity := pickedManifest.dist.integrity
          requestedRange := entry.range
          dependencies := [] }
      .ok { s with
        resolved := OrderedMap.set entry.name node s.resolved
        pickedManifests := OrderedMap.set entry.name pickedManifest s.pickedManifests
        queue := s.queue ++
          childEntries entry pick (input.typeConfig.readDeps pickedManifest) }

/-- One turn of the `while` loop; the entry was shifted off the queue. -/
def visit (semver : Semver) (input : Input) (entry : QueueEntry) (s : Resolving) :
    Except ResolveError Resolving :=
  match rejects input entry with
  | some err => .error err
  | none =>
    match input.fetchPackument entry.name with
    | .error err =>
      if is404 err then .error (.resolution entry.name entry.range []) else .error (.fetch err)
    | .ok packument =>
      match semver.maxSatisfying (OrderedMap.keys packument.versions) entry.range with
      | none => .error (.resolution entry.name entry.range (OrderedMap.keys packument.versions))
      | some pick =>
        match OrderedMap.get? entry.name s.resolved with
        | some existing =>
          revisit semver input entry packument pick existing (recordConsumer entry s)
        | none => create input entry packument pick (recordConsumer entry s)

/-- The `while` loop, for so many rounds. -/
def resolveLoop (semver : Semver) (input : Input) : Nat → Resolving → Except ResolveError Resolving
  | 0, _ => .error .outOfFuel
  | fuel + 1, s =>
    match s.queue with
    | [] => .ok s
    | entry :: rest =>
      match visit semver input entry { s with queue := rest } with
      | .error err => .error err
      | .ok s' => resolveLoop semver input fuel s'

def initialResolving (input : Input) : Resolving where
  queue := [{ name := input.rootPackageName, range := input.rootRange, path := [], depth := 0
              fromParent := none, fromParentVersion := none }]
  resolved := []
  pickedManifests := []
  consumerEdges := []

/-- The dependencies of the manifest that was picked for a node. -/
def capturedDeps (input : Input) (s : Resolving) (name : String) : OrderedMap String String :=
  match OrderedMap.get? name s.pickedManifests with
  | some manifest => input.typeConfig.readDeps manifest
  | none => []

/-- The second pass: every node gets its `dependencies`. -/
def selfDescribing (input : Input) (s : Resolving) : OrderedMap String ResolvedNode :=
  s.resolved.map (fun e => (e.1, { e.2 with dependencies := capturedDeps input s e.1 }))

/-- `resolveDependencyTree`, for so many rounds of its loop. -/
def resolveDependencyTree (semver : Semver) (fuel : Nat) (input : Input) :
    Except ResolveError DependencyTree :=
  if input.typeConfig.scopePrefixes = [] then .error .emptyScopePrefixes
  else
    match input.typeConfig.scopePrefixes.find? (fun p => !wellFormedScopePrefix p) with
    | some p => .error (.malformedScopePrefix p)
    | none =>
      match resolveLoop semver input fuel (initialResolving input) with
      | .error err => .error err
      | .ok s =>
        match OrderedMap.get? input.rootPackageName (selfDescribing input s) with
        | none => .error (.resolution input.rootPackageName input.rootRange [])
        | some root => .ok ⟨root, selfDescribing input s⟩

end RegResolver
