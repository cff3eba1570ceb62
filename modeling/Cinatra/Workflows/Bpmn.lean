import Cinatra.Lib.CodeUnits
import Cinatra.Lib.Records

/-! # Bpmn — the profile validator and the compiler

    A parsed `definitions` object as the two functions read it.  A reference is the id of
    the element it points at, an extension element is a plain value with a `$type`.
    `compileBpmnToWorkflowSpec` walks backwards from each task through parallel gateways
    to the tasks before it; the walk has as much fuel as there are gateways, and one more. -/

namespace WfBpmn

open JsonValue

structure LoopCharacteristics where
  type : String
  id : Option String
  extValues : List Json

/-- A flow element: a node, or a sequence flow with its two references. -/
structure FlowElement where
  type : String
  id : Option String := none
  name : Option String := none
  sourceRef : Option String := none
  targetRef : Option String := none
  extValues : List Json := []
  eventDefinitions : List Json := []
  conditionExpression : Option Json := none
  loopCharacteristics : Option LoopCharacteristics := none

/-- A root element; only a process has flow elements. -/
structure RootElement where
  type : String
  id : Option String := none
  name : Option String := none
  extValues : List Json := []
  flowElements : List FlowElement := []

structure Definitions where
  rootElements : List RootElement

def taskTypes : List String :=
  ["bpmn:UserTask", "bpmn:ServiceTask", "bpmn:ManualTask", "bpmn:SendTask"]

def gatewayType : String := "bpmn:ParallelGateway"
def flowType : String := "bpmn:SequenceFlow"
def processType : String := "bpmn:Process"

def FlowElement.isTask (e : FlowElement) : Bool := taskTypes.contains e.type

/-- A text that is there and not empty. -/
def str (v : Option String) : Option String := v.filter (fun s => s ≠ "")

/-- The text of an attribute of an extension element. -/
def attr (name : String) (v : Json) : Option String := str ((v.field? name).bind Json.str?)

def findExt (values : List Json) (type : String) : Option Json :=
  values.find? (fun v => v.field? "$type" = some (.str type))

def extAttr (values : List Json) (type name : String) : Option String :=
  (findExt values type).bind (attr name)

/-! ## The profile -/

structure UnsupportedConstruct where
  elementId : Option String
  elementType : String
  reason : String

structure ProfileErrors where
  errors : List UnsupportedConstruct
  structureErrors : List String

def loopType : String := "bpmn:MultiInstanceLoopCharacteristics"

def checkLoop (loop : LoopCharacteristics) : List UnsupportedConstruct :=
  if loop.type ≠ loopType then
    [⟨loop.id, loop.type, "loopCharacteristics " ++ loop.type ++ " is not supported (only " ++
      loopType ++ ")"⟩]
  else if (findExt loop.extValues "cinatra:ForeachSource").isNone then
    [⟨loop.id, loop.type, "multiInstanceLoopCharacteristics requires a cinatra:foreachSource " ++
      "(native loopCardinality / completionCondition is not supported in Profile 1.0)"⟩]
  else []

/-- The type of the last element with an id. -/
def typeById (elements : List FlowElement) (id : String) : Option String :=
  (elements.reverse.find? (fun e => e.id = some id)).map FlowElement.type

def checkFlow (elements : List FlowElement) (el : FlowElement) : List UnsupportedConstruct :=
  (if el.conditionExpression.any jsTruthy then
    [⟨el.id, el.type, "conditionExpression on sequenceFlow is not supported in Profile 1.0 " ++
      "(no condition semantics)"⟩]
   else []) ++
  (if (findExt el.extValues "cinatra:TransitionOutcome").isSome then
    let srcType := typeById elements (el.sourceRef.getD "")
    if srcType.any taskTypes.contains then []
    else [⟨el.id, el.type, "cinatra:transitionOutcome may only appear on a task-outbound " ++
      "sequenceFlow (source is " ++ srcType.getD "unknown" ++ ")"⟩]
   else [])

/-- A start or end event without event definitions. -/
def checkEvent (what : String) (el : FlowElement) : List UnsupportedConstruct :=
  if el.eventDefinitions = [] then []
  else [⟨el.id, el.type, "typed " ++ what ++ " events (eventDefinitions) are not supported in " ++
    "Profile 1.0"⟩]

def checkFlowElement (elements : List FlowElement) (el : FlowElement) : List UnsupportedConstruct :=
  if el.type = "bpmn:StartEvent" then checkEvent "start" el
  else if el.type = "bpmn:EndEvent" then checkEvent "end" el
  else if el.type = flowType then checkFlow elements el
  else if el.isTask then (el.loopCharacteristics.map checkLoop).getD []
  else if el.type = gatewayType then []
  else [⟨el.id, el.type, "flow element " ++ el.type ++ " is not supported in Profile 1.0"⟩]

def countType (elements : List FlowElement) (type : String) : Nat :=
  (elements.filter (fun e => e.type = type)).length

/-- The errors of a parsed document; `none` is ok. -/
def validateBpmnAgainstProfile (definitions : Definitions) : Option ProfileErrors :=
  let processes := definitions.rootElements.filter (fun e => e.type = processType)
  let rootErrors := (definitions.rootElements.filter (fun e => e.type ≠ processType)).map (fun e =>
    (⟨e.id, e.type, "root element " ++ e.type ++ " is not supported (Profile 1.0 allows a " ++
      "single bpmn:Process)"⟩ : UnsupportedConstruct))
  match processes with
  | [] => some ⟨rootErrors, ["no bpmn:Process found (Profile 1.0 requires exactly one)"]⟩
  | process :: others =>
    let elements := process.flowElements
    let starts := countType elements "bpmn:StartEvent"
    let errors := rootErrors ++ elements.flatMap (checkFlowElement elements)
    let structureErrors :=
      (if others = [] then []
       else ["expected exactly one bpmn:Process, found " ++ toString processes.length]) ++
      (if starts = 1 then [] else ["expected exactly one startEvent, found " ++ toString starts]) ++
      (if countType elements "bpmn:EndEvent" < 1 then
        ["expected at least one endEvent, found 0"] else [])
    if errors = [] ∧ structureErrors = [] then none else some ⟨errors, structureErrors⟩

/-! ## Compile errors -/

/-- What a `BpmnCompileException` is thrown for. -/
inductive CompileError where
  | processCount (found : Nat)
  | placeholderWithoutName
  | placeholderDuplicate (name : String)
  | numberDefault (name raw : String)
  | booleanDefault (name raw : String)
  | absoluteWithoutAt (id : Option String)
  | relativeIncomplete (id : Option String)
  | unknownScheduleMode (id : Option String) (mode : String)
  | gatewayOutcome (gateway : String)
  | conflictingOutcomes (taskKey target : String) (existing new : Option String)
  | foreachIncomplete (id : Option String)
  | taskWithoutId (type : String)
  | taskWithoutName (key : String)
  | agentRefMissing (key : String)
  | taskInputInvalidJson (key : String)
  | approvalLevelMissing (key : String)
  | taskKindInvalid (key : String) (kind : Option String)
  | unexpectedTaskType (key type : String)
  | schemaInvalid (process : Option String) (issues : String)

/-- How a compilation ends without a specification.  The source's recursion has no fuel
    to run out of. -/
inductive Failure where
  | outOfFuel
  | thrown (error : CompileError)

abbrev Compile (α : Type) := Except Failure α

def fail {α : Type} (error : CompileError) : Compile α := .error (.thrown error)

/-! ## Dependencies -/

structure TaskDependency where
  taskKey : String
  outcome : Option String

section DependsOn

variable (elements : List FlowElement)

/-- `byId.get(id)`: the last element with the id. -/
def byId (id : String) : Option FlowElement :=
  elements.reverse.find? (fun e => e.id = some id ∧ id ≠ "")

/-- The sequence flows into a node. -/
def incoming (target : String) : List FlowElement :=
  elements.filter (fun e => e.type = flowType ∧ e.targetRef = some target ∧ target ≠ "")

/-- The outcome a flow carries. -/
def FlowElement.outcome (flow : FlowElement) : Option String :=
  extAttr flow.extValues "cinatra:TransitionOutcome" "outcome"

/-- The dependencies one flow brings; `resolve` is the recursive call. -/
def fromFlow (resolve : String → List String → Compile (List TaskDependency))
    (seenGateways : List String) (flow : FlowElement) : Compile (List TaskDependency) :=
  match flow.sourceRef.bind (byId elements) with
  | none => .ok []
  | some src =>
    let srcId := flow.sourceRef.getD ""
    if src.type = "bpmn:StartEvent" then .ok []
    else if src.isTask then .ok [⟨srcId, flow.outcome⟩]
    else if src.type = gatewayType then
      if seenGateways.contains srcId then .ok []
      else if (findExt flow.extValues "cinatra:TransitionOutcome").isSome then
        fail (.gatewayOutcome srcId)
      else resolve srcId (srcId :: seenGateways)
    else .ok []

/-- The dependencies of the flows, in their order. -/
def fromFlows (resolve : String → List String → Compile (List TaskDependency))
    (seenGateways : List String) : List FlowElement → Compile (List TaskDependency)
  | [] => .ok []
  | flow :: flows => do
    let ds ← fromFlow elements resolve seenGateways flow
    let rest ← fromFlows resolve seenGateways flows
    return ds ++ rest

/-- One dependency a task; two with different outcomes are an error. -/
def collapse (target : String) : List TaskDependency → List TaskDependency →
    Compile (List TaskDependency)
  | kept, [] => .ok kept
  | kept, d :: ds =>
    match kept.find? (fun e => e.taskKey = d.taskKey) with
    | none => collapse target (kept ++ [d]) ds
    | some e =>
      if e.outcome = d.outcome then collapse target kept ds
      else fail (.conflictingOutcomes d.taskKey target e.outcome d.outcome)

/-- The tasks before a node, through gateways not met on the way here. -/
def resolve : Nat → String → List String → Compile (List TaskDependency)
  | 0, _, _ => .error .outOfFuel
  | fuel + 1, target, seenGateways => do
    let result ← fromFlows elements (resolve fuel) seenGateways (incoming elements target)
    collapse target [] result

def gatewayIds : List String :=
  (elements.filter (fun e => e.type = gatewayType)).filterMap FlowElement.id

def buildDependsOn (taskId : String) : Compile (List TaskDependency) :=
  resolve elements ((gatewayIds elements).length + 1) taskId []

end DependsOn

/-! ## Tasks -/

/-- What the compiler takes from its platform. -/
structure BpmnHost where
  /-- `JSON.parse(body)`; `none` where it throws. -/
  jsonParse : String → Option Json
  /-- `Number(v)`, where it is finite. -/
  number : String → Option JsNumber

/-- `toInt` of an attribute. -/
def toInt (host : BpmnHost) : Option Json → Option JsNumber
  | some (.num n) => some n
  | some (.str s) => if CodeUnits.trim s.toList = [] then none else host.number s
  | _ => none

def toBool : Option Json → Option Bool
  | some (.bool b) => some b
  | some (.str "true") => some true
  | some (.str "false") => some false
  | _ => none

/-- A field that is there when its value is. -/
def optional (name : String) (v : Option String) : Record :=
  (v.map (fun s => [(name, Json.str s)])).getD []

def compileSchedule (task : FlowElement) : Compile (Option Record) :=
  match findExt task.extValues "cinatra:TaskSchedule" with
  | none => .ok none
  | some s =>
    match attr "mode" s with
    | some "absolute" =>
      match attr "at" s with
      | none => fail (.absoluteWithoutAt task.id)
      | some at_ => .ok (some ([("mode", .str "absolute"), ("at", .str at_)] ++
          optional "tz" (attr "tz" s) ++ optional "anchorPoint" (attr "anchorPoint" s) ++
          optional "durationIso8601" (attr "durationIso8601" s)))
    | some "relative" =>
      match attr "anchor" s, attr "offsetIso8601" s, attr "direction" s with
      | some anchor, some offset, some direction =>
        .ok (some ([("mode", .str "relative"), ("anchor", .str anchor),
            ("offsetIso8601", .str offset), ("direction", .str direction)] ++
          optional "localTime" (attr "localTime" s) ++ optional "tz" (attr "tz" s) ++
          optional "anchorPoint" (attr "anchorPoint" s) ++
          optional "durationIso8601" (attr "durationIso8601" s)))
      | _, _, _ => fail (.relativeIncomplete task.id)
    | some mode => fail (.unknownScheduleMode task.id mode)
    | none => .ok none

def compileForeach (host : BpmnHost) (task : FlowElement) (core : Record) :
    Compile (Option Record) :=
  match task.loopCharacteristics with
  | none => .ok none
  | some loop =>
    if loop.type ≠ loopType then .ok none
    else
      match findExt loop.extValues "cinatra:ForeachSource" with
      | none => .ok none
      | some fs =>
        match attr "source" fs, attr "as" fs with
        | some source, some as_ =>
          .ok (some ([("source", .str source), ("as", .str as_), ("template", .obj core)] ++
            optional "itemKey" (attr "itemKey" fs) ++
            optional "rollupPolicy" (attr "rollupPolicy" fs) ++
            ((toInt host (fs.field? "maxFanout")).map
              (fun n => [("maxFanout", Json.num n)])).getD []))
        | _, _ => fail (.foreachIncomplete task.id)

/-- The fields a task's type gives it. -/
def compileCore (host : BpmnHost) (task : FlowElement) (key title : String) : Compile Record :=
  let named : Record := [("key", .str key), ("title", .str title)]
  if task.type = "bpmn:ServiceTask" then
    match extAttr task.extValues "cinatra:AgentRef" "package" with
    | none => fail (.agentRefMissing key)
    | some package =>
      let of := extAttr task.extValues "cinatra:AgentRef"
      let core := named ++ [("type", .str "agent_task"), ("agentRef", .obj (
        [("package", .str package)] ++ optional "name" (of "name") ++
          optional "version" (of "version") ++ optional "templateId" (of "templateId")))]
      match extAttr task.extValues "cinatra:TaskInput" "value" with
      | none => .ok core
      | some body =>
        match host.jsonParse body with
        | none => fail (.taskInputInvalidJson key)
        | some input => .ok (core ++ [("input", input)])
  else if task.type = "bpmn:UserTask" then
    match extAttr task.extValues "cinatra:TaskKind" "value" with
    | some "approval" =>
      match extAttr task.extValues "cinatra:ApprovalConfig" "level" with
      | none => fail (.approvalLevelMissing key)
      | some level =>
        let of := extAttr task.extValues "cinatra:ApprovalConfig"
        .ok (named ++ [("type", .str "approval"),
          ("requiredScope", .obj ([("level", .str level)] ++ optional "id" (of "id")))] ++
          optional "rejectionPolicy" (of "rejectionPolicy"))
    | some "checkpoint" => .ok (named ++ [("type", .str "checkpoint")])
    | kind => fail (.taskKindInvalid key kind)
  else if task.type = "bpmn:ManualTask" then .ok (named ++ [("type", .str "manual")])
  else if task.type = "bpmn:SendTask" then
    .ok (named ++ [("type", .str "notification")] ++
      optional "message" (extAttr task.extValues "cinatra:MessageBody" "value"))
  else fail (.unexpectedTaskType key task.type)

/-- A task of the specification: its type's fields, and those every task may have. -/
structure TaskSpec where
  key : String
  title : String
  core : Record
  schedule : Option Record
  dependsOn : List TaskDependency
  failurePolicy : Option String
  maxAttempts : Option JsNumber
  foreach : Option Record

def compileTask (host : BpmnHost) (depsFor : String → Compile (List TaskDependency))
    (task : FlowElement) : Compile TaskSpec :=
  match str task.id, str task.name with
  | none, _ => fail (.taskWithoutId task.type)
  | some key, none => fail (.taskWithoutName key)
  | some key, some title => do
    let schedule ← compileSchedule task
    let deps ← depsFor key
    let policy := findExt task.extValues "cinatra:TaskPolicy"
    let core ← compileCore host task key title
    let foreach ← compileForeach host task core
    return {
      key := key
      title := title
      core := core
      schedule := schedule
      dependsOn := deps
      failurePolicy := policy.bind (attr "failurePolicy")
      maxAttempts := toInt host (policy.bind (Json.field? "maxAttempts"))
      foreach := foreach }

def compileTasks (host : BpmnHost) (depsFor : String → Compile (List TaskDependency)) :
    List FlowElement → Compile (List TaskSpec)
  | [] => .ok []
  | task :: tasks => do
    let t ← compileTask host depsFor task
    let ts ← compileTasks host depsFor tasks
    return t :: ts

/-! ## Placeholders -/

structure PlaceholderDecl where
  type : String
  required : Option Bool
  description : Option String
  default : Option Json

structure CompiledPlaceholders where
  placeholders : List (String × PlaceholderDecl) := []
  placeholderHints : List (String × String) := []

/-- The names `in` finds in every object. -/
def inheritedNames : List String :=
  ["constructor", "__defineGetter__", "__defineSetter__", "hasOwnProperty", "__lookupGetter__",
    "__lookupSetter__", "isPrototypeOf", "propertyIsEnumerable", "toString", "valueOf",
    "__proto__", "toLocaleString"]

def coerceDefault (host : BpmnHost) (raw : Option String) (type name : String) :
    Compile (Option Json) :=
  match raw with
  | none => .ok none
  | some raw =>
    if type = "number" then
      match host.number raw with
      | none => fail (.numberDefault name raw)
      | some n => .ok (some (.num n))
    else if type = "boolean" then
      match toBool (some (.str raw)) with
      | none => fail (.booleanDefault name raw)
      | some b => .ok (some (.bool b))
    else .ok (some (.str raw))

def compilePlaceholder (host : BpmnHost) (done : CompiledPlaceholders) (p : Json) :
    Compile CompiledPlaceholders :=
  match attr "name" p with
  | none => fail .placeholderWithoutName
  | some name =>
    if (done.placeholders.map Prod.fst ++ inheritedNames).contains name then
      fail (.placeholderDuplicate name)
    else do
      let type := (attr "type" p).getD "string"
      let default ← coerceDefault host (attr "default" p) type name
      let decl : PlaceholderDecl :=
        ⟨type, toBool (p.field? "required"), attr "description" p, default⟩
      return {
        placeholders := done.placeholders ++ [(name, decl)]
        placeholderHints := done.placeholderHints ++
          ((((p.field? "hint").bind (attr "kind")).map (fun kind => [(name, kind)])).getD []) }

def compilePlaceholders (host : BpmnHost) (process : RootElement) : Compile CompiledPlaceholders :=
  let block := findExt process.extValues "cinatra:Placeholders"
  (((block.bind (Json.field? "placeholders")).bind Json.arr?).getD []).foldlM
    (compilePlaceholder host) {}

structure WorkflowSpec where
  key : Option String
  name : String
  tasks : List TaskSpec
  product : Option String
  target : Option (String × Option String)
  placeholders : CompiledPlaceholders

def processOf (definitions : Definitions) : Compile RootElement :=
  match definitions.rootElements.filter (fun e => e.type = processType) with
  | [process] => .ok process
  | processes => fail (.processCount processes.length)

/-- The specification before the schema sees it. -/
def compileProcess (host : BpmnHost) (process : RootElement) : Compile WorkflowSpec := do
  let placeholders ← compilePlaceholders host process
  let tasks ← compileTasks host (buildDependsOn process.flowElements)
    (process.flowElements.filter FlowElement.isTask)
  let workflowMeta := findExt process.extValues "cinatra:WorkflowMeta"
  let target := workflowMeta.bind (Json.field? "target")
  return {
    key := str process.id
    name := (((workflowMeta.bind (attr "name")).or (str process.name)).or (str process.id)).getD "Workflow"
    tasks := tasks
    product := workflowMeta.bind (attr "product")
    target := (target.bind (attr "tz")).map (fun tz => (tz, target.bind (attr "at")))
    placeholders := placeholders }

/-- `safeParse` is the schema's verdict on the specification: its issues, none when it
    parses.  Every field the compiler writes is one the schema keeps. -/
def compileBpmnToWorkflowSpec (host : BpmnHost) (safeParse : WorkflowSpec → Option String)
    (definitions : Definitions) : Compile WorkflowSpec := do
  let process ← processOf definitions
  let spec ← compileProcess host process
  match safeParse spec with
  | none => return spec
  | some issues => fail (.schemaInvalid (str process.id) issues)

end WfBpmn
