import Cinatra.Lib.CodeUnits
import Cinatra.Lib.Json
import Cinatra.Lib.Split
import Cinatra.Lib.Worklist

/-! # PlanFormat — materialization plans

    A plan lists the library nodes of an extension, each under the path of nested
    `node_modules` directories where its tree is placed, with the edges between them.
    The parser is strict: exact fields, the grammar of names, versions, hashes and paths,
    edges that lead to a directory Node looks in, and no node that the roots do not
    reach.  Order is free, and the canonical bytes sort it away. -/

namespace ExtMatPlan

open CodeUnits
open JsonValue

/-- `MATERIALIZATION_PLAN_FORMAT`. -/
def materializationPlanFormat : String := "cinatra-materialization-plan/v1"

/-- `MAX_PLAN_NODES`. -/
def maxPlanNodes : Nat := 500

/-- `MAX_PLAN_CANONICAL_BYTES`. -/
def maxPlanCanonicalBytes : Nat := 1024 * 1024

/-- `HOST_PROVIDED_PACKAGES`. -/
def hostProvidedPackages : List String :=
  ["@cinatra-ai/sdk-extensions", "@cinatra-ai/sdk-ui", "@cinatra-ai/mcp-client"]

structure MaterializationPlanDependencyRef where
  name : String
  placementPath : String
deriving DecidableEq

structure MaterializationPlanNode where
  name : String
  version : String
  integrity : String
  placementPath : String
  dependencies : List MaterializationPlanDependencyRef
deriving DecidableEq

structure PlanPackage where
  name : String
  version : String

structure MaterializationPlan where
  format : String
  package : PlanPackage
  rootDependencies : List MaterializationPlanDependencyRef
  nodes : List MaterializationPlanNode

/-- `MaterializationPlanError`. -/
def refuse {β : Type} (message : String) : Except String β :=
  .error ("[materialization-plan] " ++ message)

def demand (holds : Prop) [Decidable holds] (message : String) : Except String Unit :=
  if holds then .ok () else refuse message

/-! ## Grammar -/

def lowerOrDigit (c : Char) : Bool := c.isLower || c.isDigit

def nameStart (c : Char) : Bool := lowerOrDigit c || c = '-' || c = '~'

def nameRest (c : Char) : Bool := nameStart c || c = '.' || c = '_'

/-- One part of a package name. -/
def namePart : List Char → Bool
  | [] => false
  | c :: cs => nameStart c && cs.all nameRest

/-- `NPM_PACKAGE_NAME_RE`. -/
def npmPackageName (cs : List Char) : Bool :=
  match cs with
  | '@' :: rest =>
    match rest.dropWhile (· ≠ '/') with
    | _ :: name => namePart (rest.takeWhile (· ≠ '/')) && namePart name
    | [] => false
  | cs => namePart cs

def tagChar (c : Char) : Bool := c.isAlphanum || c = '-' || c = '.'

/-- One or more characters of a kind, as many as there are. -/
def run (p : Char → Bool) (cs : List Char) : Option (List Char) :=
  match cs.takeWhile p with
  | [] => none
  | _ :: _ => some (cs.dropWhile p)

/-- A character by itself. -/
def literal (c : Char) : List Char → Option (List Char)
  | d :: cs => if d = c then some cs else none
  | [] => none

/-- What may follow `X.Y.Z`: a pre-release, then a build. -/
def versionTags (cs : List Char) : Bool :=
  let rest := match cs with
    | '-' :: tag => run tagChar tag
    | cs => some cs
  match rest with
  | some [] => true
  | some ('+' :: tag) => run tagChar tag = some []
  | _ => false

/-- `EXACT_VERSION_RE`. -/
def exactVersion (cs : List Char) : Bool :=
  ((run Char.isDigit cs).bind (fun cs => (literal '.' cs).bind (fun cs =>
    (run Char.isDigit cs).bind (fun cs => (literal '.' cs).bind (run Char.isDigit))))).any versionTags

def base64Char (c : Char) : Bool := c.isAlphanum || c = '+' || c = '/'

/-- The last character before the padding of 64 bytes: its four low bits are zero. -/
def paddedLast (c : Char) : Bool := c = 'A' || c = 'Q' || c = 'g' || c = 'w'

/-- One sha512 hash, in the one way base64 has to write 64 bytes. -/
def isStrictSha512Sri (integrity : List Char) : Bool :=
  "sha512-".toList.isPrefixOf integrity &&
    let b64 := integrity.drop 7
    b64.length = 88 && (b64.take 86).all base64Char && b64.drop 86 = ['=', '='] &&
      (b64[85]?).any paddedLast

/-! ## Placement paths -/

def nodeModules : List Char := "node_modules".toList

/-- The segments of a path, from the segment at `i` on, as package names. -/
def parseSegments (placementPath label : String) :
    Nat → List (List Char) → Except String (List (List Char))
  | _, [] => .ok []
  | i, segment :: rest =>
    if segment ≠ nodeModules then
      refuse (label ++ ": placementPath \"" ++ placementPath ++ "\" is not a node_modules chain " ++
        "(expected \"node_modules\" at segment " ++ toString i ++ ", got \"" ++
        String.ofList segment ++ "\")")
    else
      match rest with
      | [] => refuse (label ++ ": placementPath \"" ++ placementPath ++
          "\" ends at a bare node_modules segment")
      | first :: rest =>
        if first.head? = some '@' then
          match rest with
          | [] => refuse (label ++ ": placementPath \"" ++ placementPath ++
              "\" has a scope segment \"" ++ String.ofList first ++ "\" without a name")
          | second :: rest => do
            demand (npmPackageName (first ++ '/' :: second)) (label ++ ": placementPath \"" ++
              placementPath ++ "\" contains an invalid package segment \"" ++
              String.ofList (first ++ '/' :: second) ++ "\"")
            let chain ← parseSegments placementPath label (i + 3) rest
            .ok ((first ++ '/' :: second) :: chain)
        else do
          demand (npmPackageName first) (label ++ ": placementPath \"" ++
            placementPath ++ "\" contains an invalid package segment \"" ++
            String.ofList first ++ "\"")
          let chain ← parseSegments placementPath label (i + 2) rest
          .ok (first :: chain)

/-- The chain of package names of a path, outermost first. -/
def parsePlacementPath (placementPath label : String) : Except String (List (List Char)) := do
  demand (placementPath ≠ "") (label ++ ": placementPath must be a non-empty string")
  parseSegments placementPath label 0 (Split.split '/' placementPath.toList)

/-- A package-dir prefix without its last package. -/
def stripPackage (segments : List (List Char)) : List (List Char) :=
  let tailIsScoped := 3 ≤ segments.length ∧
    ((segments[segments.length - 2]?).bind List.head?) = some '@'
  segments.take (segments.length - (if tailIsScoped then 3 else 2))

/-- The dependency below a prefix. -/
def candidate (prefixSegments : List (List Char)) (childName : List Char) : List Char :=
  let dir := Split.join '/' prefixSegments
  if dir.length = 0 then nodeModules ++ '/' :: childName
  else dir ++ '/' :: (nodeModules ++ '/' :: childName)

/-- The candidates below a prefix and below all it lies in. -/
def candidatesFrom (childName : List Char) : Nat → List (List Char) → List (List Char)
  | 0, segments => [candidate segments childName]
  | fuel + 1, segments =>
    if segments.length = 0 then [candidate segments childName]
    else candidate segments childName :: candidatesFrom childName fuel (stripPackage segments)

def nodeResolutionCandidates (parentPlacementPath : Option String) (childName : String) :
    List String :=
  match parentPlacementPath with
  | none => [String.ofList (nodeModules ++ '/' :: childName.toList)]
  | some parent =>
    let segments := Split.split '/' parent.toList
    (candidatesFrom childName.toList segments.length segments).map String.ofList

/-! ## The canonical bytes -/

def canonicalRefs (refs : List MaterializationPlanDependencyRef) :
    List MaterializationPlanDependencyRef := sortBy MaterializationPlanDependencyRef.name refs

def canonicalNode (n : MaterializationPlanNode) : MaterializationPlanNode :=
  { n with dependencies := canonicalRefs n.dependencies }

/-- The plan with its nodes and its edges sorted. -/
def canonicalPlan (plan : MaterializationPlan) : MaterializationPlan :=
  { plan with
    nodes := (sortBy MaterializationPlanNode.placementPath plan.nodes).map canonicalNode
    rootDependencies := canonicalRefs plan.rootDependencies }

def refJson (ref : MaterializationPlanDependencyRef) : Json :=
  .obj [("name", .str ref.name), ("placementPath", .str ref.placementPath)]

def nodeJson (n : MaterializationPlanNode) : Json :=
  .obj [("dependencies", .arr (n.dependencies.map refJson)), ("integrity", .str n.integrity),
    ("name", .str n.name), ("placementPath", .str n.placementPath), ("version", .str n.version)]

def packageJson (p : PlanPackage) : Json := .obj [("name", .str p.name), ("version", .str p.version)]

/-- A plan as an object whose keys are sorted. -/
def planJson (plan : MaterializationPlan) : Json :=
  .obj [("format", .str plan.format), ("nodes", .arr (plan.nodes.map nodeJson)),
    ("package", packageJson plan.package),
    ("rootDependencies", .arr (plan.rootDependencies.map refJson))]

/-- `TextEncoder.encode`. -/
def encode (text : List Char) : ByteArray := (String.ofList text).toUTF8

def canonicalMaterializationPlanBytes (plan : MaterializationPlan) : ByteArray :=
  encode (print (planJson (canonicalPlan plan)))

/-- Lower-case hexadecimal. -/
def hex (bytes : ByteArray) : String :=
  String.ofList (bytes.data.toList.flatMap (fun b => [hexDigit (b.toNat / 16), hexDigit (b.toNat % 16)]))

def computeClosureHash (sha512 : ByteArray → ByteArray) (plan : MaterializationPlan) : String :=
  hex (sha512 (canonicalMaterializationPlanBytes plan))

/-! ## Execution -/

def separator : List Char := "/node_modules/".toList

/-- `placementPath.split("/node_modules/").length`. -/
def nesting (placementPath : String) : Nat := Split.occurrences separator 0 placementPath.toList + 1

/-- Shallow before deep, and by path. -/
def executesBefore (a b : MaterializationPlanNode) : Prop :=
  nesting a.placementPath < nesting b.placementPath ∨
    nesting a.placementPath = nesting b.placementPath ∧
      units a.placementPath ≤ units b.placementPath

instance : DecidableRel executesBefore := fun _ _ => inferInstanceAs (Decidable (_ ∨ _ ∧ _))

def planExecutionOrder (plan : MaterializationPlan) : List MaterializationPlanNode :=
  plan.nodes.insertionSort executesBefore

/-! ## Parsing -/

/-- The fields of an object that has exactly the keys. -/
def exactFields (v : Option Json) (keys : List String) (label : String)
    (notObject : String := label ++ " must be an object") : Except String Json :=
  match v with
  | some (.obj fields) =>
    let actual := jsSort (fields.map Prod.fst)
    let expected := jsSort keys
    if actual = expected then .ok (.obj fields)
    else refuse (label ++ " must have exactly the fields \x7b" ++ String.intercalate ", " expected ++
      "\x7d — got \x7b" ++ String.intercalate ", " actual ++
      "\x7d (all fields required, extra fields refused)")
  | _ => refuse notObject

def requireString (v : Option Json) (label : String) : Except String String :=
  match v.bind Json.str? with
  | some s => if s = "" then refuse (label ++ " must be a non-empty string") else .ok s
  | none => refuse (label ++ " must be a non-empty string")

def requireArray (v : Option Json) (label : String) : Except String (List Json) :=
  match v.bind Json.arr? with
  | some xs => .ok xs
  | none => refuse (label ++ " must be an array")

/-- A name of the grammar. -/
def requireName (v : Option Json) (label : String) : Except String String := do
  let name ← requireString v label
  demand (npmPackageName name.toList) (label ++ " \"" ++ name ++ "\" is not a valid npm package name")
  .ok name

def requireVersion (v : Option Json) (label : String) : Except String String := do
  let version ← requireString v label
  demand (exactVersion version.toList) (label ++ " \"" ++ version ++ "\" is not an exact version")
  .ok version

/-- A placement path that ends in the name. -/
def requirePath (v : Option Json) (label name : String) : Except String String := do
  let placementPath ← requireString v (label ++ ".placementPath")
  let chain ← parsePlacementPath placementPath label
  demand (chain.getLast? = some name.toList) (label ++ ": placementPath \"" ++ placementPath ++
    "\" does not end in the package name \"" ++ name ++ "\"")
  .ok placementPath

def parseDependencyRef (label : String) (v : Json) :
    Except String MaterializationPlanDependencyRef := do
  let v ← exactFields (some v) ["name", "placementPath"] label
  let name ← requireName (v.field? "name") (label ++ ".name")
  let placementPath ← requirePath (v.field? "placementPath") label name
  .ok ⟨name, placementPath⟩

/-- Each item under a label with its index. -/
def parseItems {β : Type} (f : String → Json → Except String β) (label : String) :
    Nat → List Json → Except String (List β)
  | _, [] => .ok []
  | i, v :: vs => do
    let b ← f (label ++ "[" ++ toString i ++ "]") v
    let bs ← parseItems f label (i + 1) vs
    .ok (b :: bs)

/-- The first text that was there before is refused. -/
def noRepeat (message : String → String) : List String → List String → Except String Unit
  | _, [] => .ok ()
  | seen, s :: rest =>
    if s ∈ seen then refuse (message s) else noRepeat message (s :: seen) rest

def parseDependencyRefList (label : String) (v : Option Json) :
    Except String (List MaterializationPlanDependencyRef) := do
  let items ← requireArray v label
  let refs ← parseItems parseDependencyRef label 0 items
  noRepeat (fun name => label ++ ": duplicate dependency name \"" ++ name ++
    "\" within one dependency set") [] (refs.map MaterializationPlanDependencyRef.name)
  .ok refs

def parseNode (label : String) (raw : Json) : Except String MaterializationPlanNode := do
  let raw ← exactFields (some raw)
    ["name", "version", "integrity", "placementPath", "dependencies"] label
  let name ← requireName (raw.field? "name") (label ++ ".name")
  demand (name ∉ hostProvidedPackages) (label ++ ": \"" ++ name ++
    "\" is a HOST-PROVIDED peer — host ABI peers are never closure libraries")
  let version ← requireVersion (raw.field? "version") (label ++ ".version")
  let integrity ← requireString (raw.field? "integrity") (label ++ ".integrity")
  demand (isStrictSha512Sri integrity.toList) (label ++
    ".integrity must be a single sha512 SRI in canonical rendering (`sha512-` + 88 base64 " ++
    "chars of a 64-byte digest; got " ++ String.ofList (quoted integrity) ++ ")")
  let placementPath ← requirePath (raw.field? "placementPath") label name
  let dependencies ← parseDependencyRefList (label ++ ".dependencies") (raw.field? "dependencies")
  .ok ⟨name, version, integrity, placementPath, dependencies⟩

/-- `byPlacement.get(path)`. -/
def nodeAt (nodes : List MaterializationPlanNode) (path : String) : Option MaterializationPlanNode :=
  nodes.find? (fun n => n.placementPath = path)

/-- One edge: its node is there, has its name, and lies where Node looks. -/
def validateEdge (nodes : List MaterializationPlanNode) (parentPlacementPath : Option String)
    (label : String) (ref : MaterializationPlanDependencyRef) : Except String Unit :=
  match nodeAt nodes ref.placementPath with
  | none => refuse (label ++ ": dependency \"" ++ ref.name ++ "\" references placementPath \"" ++
      ref.placementPath ++ "\" which names no node")
  | some target => do
    demand (target.name = ref.name) (label ++ ": dependency \"" ++ ref.name ++
      "\" references node \"" ++ target.name ++ "\" at \"" ++ ref.placementPath ++
      "\" (name mismatch)")
    let candidates := nodeResolutionCandidates parentPlacementPath ref.name
    demand (ref.placementPath ∈ candidates) (label ++ ": edge to \"" ++ ref.name ++ "\" at \"" ++
      ref.placementPath ++ "\" is not Node-resolution-valid from " ++
      (match parentPlacementPath with
        | none => "the package root"
        | some parent => "\"" ++ parent ++ "\"") ++
      " (legal candidates: " ++ String.intercalate ", " candidates ++ ")")

def validateEdges (nodes : List MaterializationPlanNode) (parentPlacementPath : Option String)
    (label : String) (refs : List MaterializationPlanDependencyRef) : Except String Unit :=
  refs.forM (validateEdge nodes parentPlacementPath label)

/-- Where the edges of the node at a path lead. -/
def nextPaths (nodes : List MaterializationPlanNode) (path : String) : List String :=
  ((nodeAt nodes path).elim [] MaterializationPlanNode.dependencies).map
    MaterializationPlanDependencyRef.placementPath

/-- As many turns as there are edges, those of the root included. -/
def turnsFor (nodes : List MaterializationPlanNode)
    (rootDependencies : List MaterializationPlanDependencyRef) : Nat :=
  nodes.foldl (fun n node => n + node.dependencies.length) rootDependencies.length

/-- The paths that the roots lead to. -/
def reachablePaths (nodes : List MaterializationPlanNode)
    (rootDependencies : List MaterializationPlanDependencyRef) : List String :=
  Worklist.loop (nextPaths nodes) (turnsFor nodes rootDependencies)
    (rootDependencies.map MaterializationPlanDependencyRef.placementPath) []

def parseMaterializationPlan (value : Json) : Except String MaterializationPlan := do
  let value ← exactFields (some value) ["format", "package", "rootDependencies", "nodes"] "plan"
    "plan must be a JSON object"
  demand (value.field? "format" = some (.str materializationPlanFormat)) ("unsupported format " ++
    (value.field? "format").elim "undefined" (fun v => String.ofList (print v)) ++
    " (expected \"" ++ materializationPlanFormat ++ "\")")
  let package ← exactFields (value.field? "package") ["name", "version"] "plan.package"
  let pkgName ← requireName (package.field? "name") "plan.package.name"
  let pkgVersion ← requireVersion (package.field? "version") "plan.package.version"
  let rawNodes ← requireArray (value.field? "nodes") "plan.nodes"
  demand (rawNodes.length ≤ maxPlanNodes) ("plan has " ++ toString rawNodes.length ++
    " nodes — the cap is " ++ toString maxPlanNodes ++ " (fail-closed)")
  let nodes ← parseItems parseNode "plan.nodes" 0 rawNodes
  noRepeat (fun path => "duplicate node placementPath \"" ++ path ++
    "\" (node identity must be unique)") [] (nodes.map MaterializationPlanNode.placementPath)
  let rootDependencies ← parseDependencyRefList "plan.rootDependencies"
    (value.field? "rootDependencies")
  validateEdges nodes none "plan.rootDependencies" rootDependencies
  nodes.forM (fun node => validateEdges nodes (some node.placementPath)
    ("plan node \"" ++ node.placementPath ++ "\"") node.dependencies)
  let reachable := reachablePaths nodes rootDependencies
  nodes.forM (fun node => demand (node.placementPath ∈ reachable) ("node \"" ++
    node.placementPath ++ "\" is not reachable from rootDependencies (orphan nodes refused)"))
  let plan : MaterializationPlan :=
    ⟨materializationPlanFormat, ⟨pkgName, pkgVersion⟩, rootDependencies, nodes⟩
  let canonical := canonicalMaterializationPlanBytes plan
  demand (canonical.size ≤ maxPlanCanonicalBytes) ("canonical plan is " ++
    toString canonical.size ++ " bytes — the cap is " ++ toString maxPlanCanonicalBytes ++
    " (fail-closed)")
  .ok plan

end ExtMatPlan
