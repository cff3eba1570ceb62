import Cinatra.Lib.Records

/-! # Bridge calls of an agent document — the fan-out and its validator

    An agent declares `metadata.cinatra.llm` and `metadata.cinatra.toolboxes`
    once.  The compiler copies both onto the data of every `ApiNode` that calls
    `/api/llm-bridge`: `injectCinatraLlmIntoApiNodes` and
    `propagateToolboxesIntoApiNodes` are one walk, `FanOut.run`, over two
    fields.  The validator looks for the same fields with a walk of its own,
    `walkBridgeApiNodes`.  This module is the model of both. -/

namespace AgentOas

open JsonValue

def llmBridgePath : String := "/api/llm-bridge"

def injectMaxDepth : Nat := 16

def endsWith (s suffix : String) : Bool := decide (suffix.toList <:+ s.toList)

def includesFrom (part : List Char) : List Char → Bool
  | [] => part == []
  | c :: t => decide (part <+: c :: t) || includesFrom part t

def includes (s part : String) : Bool := includesFrom part.toList s.toList

/-- The injector's test. -/
def targetsLlmBridge : Option Json → Bool
  | some (.str url) =>
    url == llmBridgePath ||
    endsWith url ("\x7b\x7bCINATRA_BASE_URL\x7d\x7d" ++ llmBridgePath) ||
    endsWith url llmBridgePath
  | _ => false

def componentType (node : Record) (name : String) : Bool :=
  node.get? "component_type" == some (.str name)

/-- The nodes the injector sets fields on. -/
def isBridgeTarget (node : Record) : Bool :=
  componentType node "ApiNode" && targetsLlmBridge (node.get? "url")

/-! ## The compiler's walk -/

/-- What one fan-out sets: a field of `data`, its value, and the text of the
    error a document nested too deeply ends with. -/
structure FanOut where
  field   : String
  value   : Json
  tooDeep : String

namespace FanOut

/-- Set the field on a node's `data` unless the author did. -/
def supply (p : FanOut) (node : Record) : Record :=
  match node.get? "data" with
  | some (.obj data) =>
    match Record.get? p.field data with
    | none   => node.assign "data" (.obj (Record.assign p.field p.value data))
    | some _ => node
  -- a property set on an array is no part of its JSON
  | some (.arr _) => node
  -- a missing, null or primitive `data` becomes a new object
  | _ => node.assign "data" (.obj [(p.field, p.value)])

/-- One entry of a container: a bridge call is supplied and not entered, a
    `Flow` is entered, any other entry is skipped. -/
def visitEntry (p : FanOut) (visitContainer : Json → Except String Json) : Json → Except String Json
  | .obj node =>
    if isBridgeTarget node then
      .ok (.obj (p.supply node))
    else if componentType node "Flow" then
      match container? (Record.get? "$referenced_components" node) with
      | some nestedRefs =>
        (visitContainer nestedRefs).map
          (fun refs => .obj (Record.assign "$referenced_components" refs node))
      | none => .ok (.obj node)
    else .ok (.obj node)
  | entry => .ok entry

/-- `Object.entries` visited in order; the first error ends the visit. -/
def visitEntries (visit : Json → Except String Json) : List Json → Except String (List Json)
  | [] => .ok []
  | v :: vs =>
    match visit v with
    | .error e => .error e
    | .ok w => (visitEntries visit vs).map (fun ws => w :: ws)

/-- A container with new values under its own keys. -/
def withValues : Json → List Json → Json
  | .obj o, vs => .obj (List.zipWith (fun e v => (e.1, v)) o vs)
  | .arr _, vs => .arr vs
  | v, _ => v

/-- `visitContainer` at depth `injectMaxDepth + 1 - levels`. -/
def visitContainer (p : FanOut) : Nat → Json → Except String Json
  | 0, _ => .error p.tooDeep
  | levels + 1, container =>
    (visitEntries (p.visitEntry (p.visitContainer levels)) (entryValues container)).map
      (withValues container)

/-- The walk over a whole document. -/
def run (p : FanOut) (compiledFlow : Record) : Except String Record :=
  match container? (compiledFlow.get? "$referenced_components") with
  | some rootRefs =>
    (p.visitContainer (injectMaxDepth + 1) rootRefs).map
      (fun refs => compiledFlow.assign "$referenced_components" refs)
  | none => .ok compiledFlow

end FanOut

/-- `data.cinatra_llm = { ...llmMetadata }`. -/
def llmFanOut (llmMetadata : Json) : FanOut where
  field := "cinatra_llm"
  value := .obj (spread llmMetadata)
  tooDeep := "injectCinatraLlmIntoApiNodes: traversal exceeded MAX_DEPTH=16; " ++
    "possible pathological OAS input"

/-- `data.toolbox_ids = [...toolboxes]`. -/
def toolboxFanOut (toolboxes : List String) : FanOut where
  field := "toolbox_ids"
  value := .arr (toolboxes.map .str)
  tooDeep := "propagateToolboxesIntoApiNodes: traversal exceeded MAX_DEPTH=16"

def injectCinatraLlmIntoApiNodes (compiledFlow : Record) (llmMetadata : Option Json) :
    Except String Record :=
  match llmMetadata with
  | none => .ok compiledFlow
  | some llm => (llmFanOut llm).run compiledFlow

def propagateToolboxesIntoApiNodes (compiledFlow : Record) (toolboxes : List String) :
    Except String Record :=
  if toolboxes.length = 0 then .ok compiledFlow
  else (toolboxFanOut toolboxes).run compiledFlow

/-- `parsed.metadata?.cinatra?.[name]`. -/
def cinatraMetadata (parsed : Record) (name : String) : Option Json :=
  ((parsed.get? "metadata").bind (Json.field? "cinatra")).bind (Json.field? name)

/-- The items when the value is an array of strings. -/
def stringItems? : Option Json → Option (List String)
  | some (.arr xs) => xs.mapM Json.str?
  | _ => none

/-- The second block of `compileOasAgentJson`: only a list of strings is fanned
    out. -/
def propagateDeclared (parsed : Record) : Except String Record :=
  match stringItems? (cinatraMetadata parsed "toolboxes") with
  | some toolboxes => propagateToolboxesIntoApiNodes parsed toolboxes
  | none => .ok parsed

/-- The two blocks of `compileOasAgentJson`, in its order. -/
def fanOutMetadata (parsed : Record) : Except String Record :=
  (injectCinatraLlmIntoApiNodes parsed (cinatraMetadata parsed "llm")).bind propagateDeclared

/-! ## The validator's walk -/

/-- The validator's test. -/
def callsLlmBridge (node : Record) : Bool :=
  componentType node "ApiNode" &&
  match node.get? "url" with
  | some (.str url) => includes url "/api/llm-bridge"
  | _ => false

mutual
/-- `go`: the bridge calls at a node and below, each with its path. -/
def bridgeCalls (path : String) : Json → List (Record × String)
  | .obj o =>
    (if callsLlmBridge o then [(o, path)] else []) ++
    (bridgeCallsInRefs path o ++ bridgeCallsInSubflow path o)
  | _ => []

/-- The calls below `$referenced_components`. -/
def bridgeCallsInRefs (path : String) : Record → List (Record × String)
  | [] => []
  | (k, v) :: o =>
    if k = "$referenced_components" then bridgeCallsOfRefs path v
    else bridgeCallsInRefs path o

def bridgeCallsOfRefs (path : String) : Json → List (Record × String)
  | .obj refs => bridgeCallsOfEntries path refs
  | _ => []

def bridgeCallsOfEntries (path : String) : Record → List (Record × String)
  | [] => []
  | (k, v) :: refs =>
    bridgeCalls (path ++ ".$referenced_components." ++ k) v ++
    bridgeCallsOfEntries path refs

/-- The calls below an inline `subflow`. -/
def bridgeCallsInSubflow (path : String) : Record → List (Record × String)
  | [] => []
  | (k, v) :: o =>
    if k = "subflow" then bridgeCalls (path ++ ".subflow") v
    else bridgeCallsInSubflow path o
end

def walkBridgeApiNodes (parsed : Record) : List (Record × String) :=
  bridgeCalls "$" (.obj parsed)

structure ReviewFinding where
  code     : String
  severity : String
  message  : String
  location : String
  source   : String
deriving DecidableEq

/-- The name a finding calls a node by. -/
def nodeLabel (node : Record) : String :=
  match node.get? "id" with
  | some (.str id) => id
  | _ =>
    match node.get? "name" with
    | none | some .null => "<unknown>"
    | some name => toText name

/-- The value a node's `data` has under a field, when `data` is an object. -/
def dataField (node : Record) (field : String) : Option Json :=
  match node.get? "data" with
  | some (.obj data) => Record.get? field data
  | _ => none

def isArray : Json → Bool
  | .arr _ => true
  | _ => false

def missingLlm (node : Record) (path : String) : ReviewFinding where
  code := "OAS-RUNTIME-006"
  severity := "blocker"
  message := "ApiNode \"" ++ nodeLabel node ++ "\" at " ++ path ++
    " targets /api/llm-bridge and the agent " ++
    "declares top-level metadata.cinatra.llm, but the ApiNode does " ++
    "not carry data.cinatra_llm in source. WayFlow loads source OAS " ++
    "directly; the compile-time " ++
    "injectCinatraLlmIntoApiNodes pass only runs during " ++
    "agent_source_compile/publish and never reaches the runtime body. " ++
    "Add data.cinatra_llm: \x7b preferredProvider, preferredModel, " ++
    "capabilityRequired? \x7d to the ApiNode's data block matching the " ++
    "top-level metadata.cinatra.llm declaration. See " ++
    "packages/agents/src/__tests__/source-oas-cinatra-llm-injection.test.ts " ++
    "for the contract."
  location := path
  source := "deterministic"

def missingToolboxIds (node : Record) (path : String) : ReviewFinding where
  code := "OAS-RUNTIME-007"
  severity := "blocker"
  message := "ApiNode \"" ++ nodeLabel node ++ "\" at " ++ path ++
    " targets /api/llm-bridge and the agent " ++
    "declares top-level metadata.cinatra.toolboxes, but the ApiNode " ++
    "does not carry data.toolbox_ids in source. WayFlow loads source " ++
    "OAS directly; the compile-time " ++
    "propagateToolboxesIntoApiNodes pass only runs during " ++
    "agent_source_compile/publish and never reaches the runtime body. " ++
    "Without source-side data.toolbox_ids, the bridge defaults to " ++
    "[\"cinatra-mcp\"] and your declared toolbox restriction is silently " ++
    "lost. Add data.toolbox_ids: [...] to the ApiNode's data block " ++
    "matching the top-level metadata.cinatra.toolboxes declaration."
  location := path
  source := "deterministic"

/-- A finding for every bridge call whose field does not pass the test. -/
def scanBridgeCalls (parsed : Record) (field : String) (carries : Json → Bool)
    (finding : Record → String → ReviewFinding) : List ReviewFinding :=
  ((walkBridgeApiNodes parsed).filter (fun call => !(dataField call.1 field).any carries)).map
      (fun call => finding call.1 call.2)

/-- The rule fires for a declared `llm` block that is an object. -/
def scanForCinatraLlmInSource (parsed : Record) : List ReviewFinding :=
  if (cinatraMetadata parsed "llm").any Json.isObj then
    scanBridgeCalls parsed "cinatra_llm" Json.isObj missingLlm
  else []

/-- The rule fires for a declared list of strings that is not empty. -/
def scanForToolboxIdsInSource (parsed : Record) : List ReviewFinding :=
  match stringItems? (cinatraMetadata parsed "toolboxes") with
  | none | some [] => []
  | some (_ :: _) => scanBridgeCalls parsed "toolbox_ids" isArray missingToolboxIds

end AgentOas
