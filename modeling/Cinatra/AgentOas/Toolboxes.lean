import Cinatra.AgentOas.LlmBridge

/-! # Toolbox emission — the URLs a compiled agent carries

    `compileOasAgentJson` orders the nodes of a flow breadth first from its
    start, and the first `AgentNode` whose agent lists usable toolboxes gives
    the plan its `toolboxes`: an id and the URL of the box's `client_transport`.
    No other field of the plan holds a URL; a remote agent is emitted as a
    package name and an input mapping.  This module is the model of the node
    order and of the emission, over the document as structural validation
    leaves it, and of the plan. -/

namespace AgentOas

open JsonValue

/-- The id a `$component_ref` names, unless it is empty. -/
def componentId? (v : Option Json) : Option String :=
  ((v.bind (Json.field? "$component_ref")).bind Json.str?).filter (fun id => id != "")

def arrayItems : Option Json → List Json
  | some (.arr xs) => xs
  | _ => []

/-- The edges of `control_flow_connections` that name both ends. -/
def controlEdges (parsed : Record) : List (String × String) :=
  (arrayItems (parsed.get? "control_flow_connections")).filterMap (fun e =>
    match componentId? (e.field? "from_node"), componentId? (e.field? "to_node") with
    | some fromId, some toId => some (fromId, toId)
    | _, _ => none)

/-- The id a reference object holds, as structural validation guarantees it. -/
def referenced (v : Json) : String :=
  ((v.field? "$component_ref").bind Json.str?).getD ""

def startEntryId (parsed : Record) : String :=
  ((parsed.get? "start_node").map referenced).getD ""

/-- The targets of a node's edges, each once, in the order of the edges. -/
def neighbours (edges : List (String × String)) (id : String) : List String :=
  ((edges.filter (fun e => e.1 = id)).map Prod.snd).eraseDups

/-- The nodes visited, breadth first, in at most so many turns: a queue, and the order. -/
def breadthFirst (edges : List (String × String)) : Nat → List String → List String → List String
  | 0, _, order => order
  | _ + 1, [], order => order
  | turns + 1, id :: queue, order =>
    if id ∈ order then breadthFirst edges turns queue order
    else breadthFirst edges turns
      (queue ++ (neighbours edges id).filter (fun next => next ∉ order ++ [id])) (order ++ [id])

/-- The nodes the loop from the start node visits.  A turn shortens the queue, or spends
    edges it never spends again. -/
def reachedNodeIds (parsed : Record) : List String :=
  breadthFirst (controlEdges parsed) ((controlEdges parsed).length + 1) [startEntryId parsed] []

/-- The visited nodes, then the others of `nodes` in array order. -/
def nodeIds (parsed : Record) : List String :=
  reachedNodeIds parsed ++
  ((arrayItems (parsed.get? "nodes")).map referenced).filter
    (fun id => id ∉ reachedNodeIds parsed)

def localRefs (parsed : Record) : Record :=
  match parsed.get? "$referenced_components" with
  | some (.obj refs) => refs
  | _ => []

def hasType (name : String) (v : Json) : Bool :=
  v.field? "component_type" == some (.str name)

def agentNodeIds (parsed : Record) : List String :=
  (nodeIds parsed).filter (fun id =>
    (Record.get? id (localRefs parsed)).any (hasType "AgentNode"))

/-! ## Resolving components -/

section Resolve

variable (refs globalRegistry : Record)

/-- `resolveComponentRef`: the local component, else the global one; `none` is
    the throw that every caller here catches. -/
def resolveComponentRef (id : String) : Option Json :=
  match container? (Record.get? id refs) with
  | some component => some component
  | none => container? (Record.get? id globalRegistry)

/-- The component behind `{ $component_ref }`. -/
def resolveRef (ref : Json) : Option Json :=
  resolveComponentRef refs globalRegistry (toText ref)

/-- The `Agent` behind an `AgentNode`. -/
def backingAgent (id : String) : Option Json :=
  ((((Record.get? id refs).bind (Json.field? "agent")).bind
    (Json.field? "$component_ref")).filter jsTruthy).bind
      (fun ref => (resolveRef refs globalRegistry ref).filter (hasType "Agent"))

/-- A toolbox entry, inline or referenced. -/
def toolboxComponent (entry : Json) : Option Json :=
  (container? (some entry)).bind (fun tb =>
    match tb.field? "$component_ref" with
    | some ref => resolveRef refs globalRegistry ref
    | none => some tb)

structure CompiledAgentOasToolbox where
  id  : String
  url : String

/-- What an entry of `agent.toolboxes` emits. -/
def emittedToolbox (entry : Json) : Option CompiledAgentOasToolbox :=
  ((toolboxComponent refs globalRegistry entry).filter (hasType "MCPToolBox")).bind (fun tb =>
    ((tb.field? "id").bind Json.str?).bind (fun id =>
      (((tb.field? "client_transport").bind (Json.field? "url")).bind Json.str?).map
        (fun url => ⟨id, url⟩)))

/-- The usable toolboxes of the agent behind a node. -/
def nodeToolboxes (id : String) : List CompiledAgentOasToolbox :=
  ((backingAgent refs globalRegistry id).map (fun agent =>
    (arrayItems (agent.field? "toolboxes")).filterMap
      (emittedToolbox refs globalRegistry))).getD []

/-- The first node with a usable toolbox gives them all. -/
def firstToolboxes : List String → List CompiledAgentOasToolbox
  | [] => []
  | id :: ids =>
    match nodeToolboxes refs globalRegistry id with
    | [] => firstToolboxes ids
    | found => found

end Resolve

/-- Block 13 of `compileOasAgentJson`. -/
def compiledToolboxes (globalRegistry parsed : Record) : List CompiledAgentOasToolbox :=
  firstToolboxes (localRefs parsed) globalRegistry (agentNodeIds parsed)

/-- A compiled agent: its toolboxes, and the fields that hold no URL. -/
structure CompiledAgentOas (Rest : Type) where
  toolboxes : List CompiledAgentOasToolbox
  rest      : Rest

/-- `compileOasAgentJson` around its toolbox emission: the metadata is fanned
    out, the other blocks run, and any of them may fail. -/
def compileOasAgentJson {Rest : Type} (otherBlocks : Record → Except String Rest)
    (globalRegistry parsed : Record) : Except String (CompiledAgentOas Rest) :=
  (fanOutMetadata parsed).bind (fun fanned =>
    (otherBlocks fanned).map (fun rest => ⟨compiledToolboxes globalRegistry fanned, rest⟩))

/-- The URLs a plan emits. -/
def CompiledAgentOas.urls {Rest : Type} (plan : CompiledAgentOas Rest) : List String :=
  plan.toolboxes.map (·.url)

end AgentOas
