import Cinatra.Lib.CodeUnits
import Cinatra.Lib.Records
import Cinatra.Workflows.Host

/-! # Foreach — the materialiser

    A foreach parent's template and the items of its source's output make a batch
    of child plans: a task row, its dependency rows and its approval row.  Keys
    and ids are derived from the parent's key and an item's stable id, so the
    batch is a function of its input.  Errors are values.  A property JavaScript
    objects inherit (`constructor`, …) is not read as a path. -/

namespace WfForeach

open JsonValue CodeUnits WfTransitions WfSpec WfRows WfHost

def foreachMaxFanoutHardCeiling : Nat := 500
def foreachMaxFanoutDefault : Nat := 50

inductive ForeachStructuredError where
  | invalidSourceOutput (sourceTaskKey foreachParentKey receivedShape : String)
  | invalidItemKey (sourceTaskKey foreachParentKey : String) (itemIndex : Nat) (rawValue : Json)
  | duplicateItemKey (sourceTaskKey foreachParentKey duplicateStableId : String)
      (indices : Nat × Nat)
  | maxFanoutExceeded (sourceTaskKey foreachParentKey : String)
      (actual limit hardCeiling : Nat)
  | unresolvedDependency (foreachParentKey childStableId : String)
      (attemptedDependencyKey : Option Json)
deriving DecidableEq

def ForeachStructuredError.code : ForeachStructuredError → String
  | .invalidSourceOutput _ _ _ => "foreach_invalid_source_output"
  | .invalidItemKey _ _ _ _ => "foreach_invalid_item_key"
  | .duplicateItemKey _ _ _ _ => "foreach_duplicate_item_key"
  | .maxFanoutExceeded _ _ _ _ _ => "foreach_max_fanout_exceeded"
  | .unresolvedDependency _ _ _ => "foreach_unresolved_dependency"

structure ChildDependencyInsert where
  id : RowId
  dependsOnTaskKey : String
  outcome : DependencyOutcome
deriving DecidableEq

structure ChildApprovalInsert where
  id : RowId
  requiredScope : Json
deriving DecidableEq

structure ChildPlan where
  id : RowId
  cols : TaskCols
  parentTaskId : RowId
  dependencies : List ChildDependencyInsert
  approval : Option ChildApprovalInsert
deriving DecidableEq

def ChildPlan.key (p : ChildPlan) : String := p.cols.key

/-! ## JavaScript coercions -/

def decimal (n : Nat) : Json := .num (JsNumber.ofNat n)

/-- A whole number's value. -/
def natOf : Json → Option Nat
  | .num n => if n.text.all Char.isDigit then some (number n.text) else none
  | _ => none

/-! ## Stable ids -/

def slugChar (c : Char) : Bool :=
  ('a' ≤ c && c ≤ 'z') || c.isDigit || c = '_' || c = '-'

/-- Lower case, `[a-z0-9_-]` only, at most 32 characters. -/
def slugifyItemKey (host : Host) (raw : Json) : String :=
  let s := host.toLowerCase (toText raw)
  let cleaned := s.toList.filter slugChar
  if cleaned.length ≤ 32 then String.ofList cleaned
  else
    String.ofList (cleaned.take 26 ++ "__".toList ++ (host.sha256 s.toList).toList.take 4)

/-- A path split at its dots. -/
def splitDots : List Char → List (List Char)
  | [] => [[]]
  | '.' :: rest => [] :: splitDots rest
  | c :: rest =>
    match splitDots rest with
    | [] => [[c]]
    | part :: parts => (c :: part) :: parts

def member (cur : Json) (part : String) : Option Json :=
  match cur with
  | .obj _ => cur.field? part
  | .arr xs =>
    if part = "length" then some (decimal xs.length)
    else (arrayIndex? part).bind (xs[·]?)
  | _ => none

/-- A nested value by dot path; a hop through no object is `undefined`. -/
def getByPath (value : Json) (path : String) : Option Json :=
  if path = "" then some value
  else (splitDots path.toList).foldl
    (fun cur part => cur.bind (fun v => member v (String.ofList part))) (some value)

/-- `String(i).padStart(4, "0")`. -/
def paddedIndex (i : Nat) : String :=
  let ds := Nat.toDigits 10 i
  String.ofList (List.replicate (4 - ds.length) '0' ++ ds)

/-- The stable id of an item. -/
def stableIdOf (host : Host) (fe : ForeachConfig) (parentKey : String) (i : Nat) (item : Json) :
    Except ForeachStructuredError String :=
  match fe.itemKey with
  | none => .ok (paddedIndex i)
  | some path =>
    if path = "" then .ok (paddedIndex i)
    else match getByPath item path with
      | none | some .null => .ok (paddedIndex i)
      | some raw =>
        let stable := slugifyItemKey host raw
        if stable = "" then .error (.invalidItemKey fe.source parentKey i raw)
        else .ok stable

/-- The stable ids of the items, in order; a repeat is an error.  `seen` holds
    those of the items before `i`, last first. -/
def stableIds (host : Host) (fe : ForeachConfig) (parentKey : String) :
    Nat → List String → List Json → Except ForeachStructuredError (List String)
  | _, _, [] => .ok []
  | i, seen, item :: items => do
    let stable ← stableIdOf host fe parentKey i item
    match seen.reverse.findIdx? (fun s => s = stable) with
    | some j => .error (.duplicateItemKey fe.source parentKey stable (j, i))
    | none =>
      let rest ← stableIds host fe parentKey (i + 1) (stable :: seen) items
      return stable :: rest

def hashPrefix (host : Host) (n : Nat) (s : String) : String :=
  String.ofList ((host.sha256 s.toList).toList.take n)

def deterministicChildTaskId (host : Host) (workflowId parentKey stableId : String) : RowId :=
  .derived ("wtask_" ++ hashPrefix host 24 (workflowId ++ "__" ++ parentKey ++ "__" ++ stableId))

def deterministicSidecarId (host : Host) (kind : String) (childTaskId : RowId)
    (discriminator : String) : RowId :=
  let child := match childTaskId with
    | .derived text => text
    | .uuid n => toString n
  .derived (kind ++ "_" ++ hashPrefix host 24 (child ++ "__" ++ kind ++ "__" ++ discriminator))

/-! ## Substitution -/

def identStart (c : Char) : Bool := c.isAlpha || c = '$'
def identChar (c : Char) : Bool := c.isAlphanum || c = '_' || c = '$'
def pathChar (c : Char) : Bool := identChar c || c = '.'

/-- The variable expression of a token that opens the text, and what follows. -/
def token? : List Char → Option (List Char × List Char)
  | '\x7b' :: '\x7b' :: cs =>
    match cs.dropWhile jsSpace with
    | [] => none
    | c :: cs =>
      if identStart c then
        let name := c :: cs.takeWhile identChar
        let afterName := cs.dropWhile identChar
        let path := match afterName with
          | '.' :: r => r.takeWhile pathChar
          | _ => []
        let expr := if path = [] then name else name ++ '.' :: path
        let rest := if path = [] then afterName else afterName.drop (path.length + 1)
        match rest.dropWhile jsSpace with
        | '\x7d' :: '\x7d' :: rest => some (expr, rest)
        | _ => none
      else none
  | _ => none

/-- Where in the batch an item stands. -/
structure ItemContext where
  index : Nat
  position : Nat
  total : Nat

/-- A variable's value; an unknown variable is `undefined`. -/
def resolveVar (asName : String) (item : Json) (ctx : ItemContext) (varExpr : String) :
    Option Json :=
  if varExpr = "$index" then some (decimal ctx.index)
  else if varExpr = "$position" then some (decimal ctx.position)
  else if varExpr = "$total" then some (decimal ctx.total)
  else if varExpr = asName then some item
  else if (asName ++ ".").toList.isPrefixOf varExpr.toList then
    getByPath item (String.ofList (varExpr.toList.drop (asName.length + 1)))
  else none

/-- Replace every token; one whose variable is unknown stays as it is written. -/
def replaceTokens (resolve : String → Option Json) : Nat → List Char → List Char
  | 0, cs => cs
  | _ + 1, [] => []
  | fuel + 1, c :: cs =>
    match token? (c :: cs) with
    | none => c :: replaceTokens resolve fuel cs
    | some (expr, rest) =>
      let text := match resolve (String.ofList expr) with
        | none => (c :: cs).take ((c :: cs).length - rest.length)
        | some (.str s) => s.toList
        | some v => print v
      text ++ replaceTokens resolve fuel rest

/-- A string that is one token takes the value itself. -/
def substituteString (resolve : String → Option Json) (s : String) : Json :=
  match token? s.toList with
  | some (expr, []) => (resolve (String.ofList expr)).getD (.str s)
  | _ => .str (String.ofList (replaceTokens resolve s.toList.length s.toList))

mutual
def substituteValue (resolve : String → Option Json) : Json → Json
  | .str s => substituteString resolve s
  | .arr xs => .arr (substituteItems resolve xs)
  | .obj fs => .obj (substituteFields resolve fs)
  | v => v

def substituteItems (resolve : String → Option Json) : List Json → List Json
  | [] => []
  | x :: xs => substituteValue resolve x :: substituteItems resolve xs

def substituteFields (resolve : String → Option Json) : List (String × Json) → List (String × Json)
  | [] => []
  | (k, x) :: fs =>
    -- `out["__proto__"] = …` makes no member
    if k = "__proto__" then substituteFields resolve fs
    else (k, substituteValue resolve x) :: substituteFields resolve fs
end

/-! ## Plans -/

def failurePolicyOf : Option Json → Option FailurePolicy
  | some (.str "block") => some .block
  | some (.str "skip") => some .skip
  | _ => none

def missedWindowPolicyOf : Option Json → Option MissedWindowPolicy
  | some (.str "require_manual_decision") => some .requireManualDecision
  | some (.str "fire_asap") => some .fireAsap
  | _ => none

def outcomeOf : Option Json → DependencyOutcome
  | some (.str "skipped") => .skipped
  | some (.str "failed") => .failed
  | _ => .success

def textAt (name : String) (v : Option Json) : Option String :=
  ((v.bind (Json.fieldOrNull name)).bind Json.str?)

/-- The task row of one child.  An agent's columns stay empty on other types. -/
def childCols (parentKey stable childKey : String) (tmpl : Json) : TaskCols :=
  let at_ := fun name => tmpl.fieldOrNull name
  let type := match at_ "type" with
    | none => .agentTask
    | some v => TaskType.ofText (toText v)
  let agentField := fun name => if type = .agentTask then at_ name else none
  { key := childKey
    type := type
    title := match at_ "title" with
      | none => parentKey ++ "/" ++ stable
      | some v => toText v
    assigneeLevel := textAt "level" (at_ "assignee")
    assigneeId := textAt "id" (at_ "assignee")
    agentPackage := textAt "package" (agentField "agentRef")
    agentRef := agentField "agentRef"
    input := agentField "input"
    schedule := at_ "schedule"
    anchor := none
    plannedStartUtc := none
    plannedEndUtc := none
    dueAtUtc := none
    required := match tmpl.field? "required" with
      | none => true
      | some v => jsTruthy v
    failurePolicy := failurePolicyOf (at_ "failurePolicy")
    missedWindowPolicy := missedWindowPolicyOf (at_ "missedWindowPolicy")
    retryPolicy := at_ "retryPolicy"
    maxAttempts := (at_ "maxAttempts").bind natOf
    cancelPolicy := at_ "cancelPolicy"
    pinned := ((at_ "pinned").map jsTruthy).getD false
    risk := textAt "risk" (some tmpl)
    foreachConfig := none }

/-- The dependency rows of one child: a key must be a task of the workflow or of
    the batch. -/
def childDependencies (host : Host) (known : String → Bool) (parentKey stable : String)
    (childId : RowId) : List Json → Except ForeachStructuredError (List ChildDependencyInsert)
  | [] => .ok []
  | dep :: deps =>
    match (dep.field? "taskKey").bind Json.str? with
    | none => .error (.unresolvedDependency parentKey stable (dep.field? "taskKey"))
    | some key =>
      if known key then do
        let rest ← childDependencies host known parentKey stable childId deps
        return ⟨deterministicSidecarId host "dep" childId key, key,
          outcomeOf (dep.field? "outcome")⟩ :: rest
      else .error (.unresolvedDependency parentKey stable (some (.str key)))

/-- Only an approval child whose template has a scope object gets an approval. -/
def childApproval (host : Host) (childId : RowId) (type : TaskType) (tmpl : Json) :
    Option ChildApprovalInsert :=
  match type, tmpl.field? "requiredScope" with
  | .approval, some scope =>
    if scope.isObj || (scope.arr?).isSome then
      some ⟨deterministicSidecarId host "wapp" childId "approval", stored scope⟩
    else none
  | _, _ => none

/-- The input of the materialiser. -/
structure MaterializeForeachInput where
  workflowId : String
  parentId : RowId
  parentKey : String
  foreachConfig : ForeachConfig
  sourceOutput : Option Json
  taskKeys : List String

def childKey (parentKey stable : String) : String := parentKey ++ "__" ++ stable

/-- The plan of the item at `i`. -/
def childPlan (host : Host) (args : MaterializeForeachInput) (known : String → Bool)
    (total i : Nat) (stable : String) (item : Json) :
    Except ForeachStructuredError ChildPlan := do
  let fe := args.foreachConfig
  let childId := deterministicChildTaskId host args.workflowId args.parentKey stable
  let tmpl := substituteValue (resolveVar fe.as item ⟨i, i + 1, total⟩) fe.template
  let cols := childCols args.parentKey stable (childKey args.parentKey stable) tmpl
  let deps ← childDependencies host known args.parentKey stable childId
    (((tmpl.fieldOrNull "dependsOn").bind Json.arr?).getD [])
  return { id := childId, cols := cols, parentTaskId := args.parentId, dependencies := deps,
           approval := childApproval host childId cols.type tmpl }

def childPlans (host : Host) (args : MaterializeForeachInput) (known : String → Bool)
    (total : Nat) : Nat → List String → List Json →
    Except ForeachStructuredError (List ChildPlan)
  | i, stable :: stables, item :: items => do
    let plan ← childPlan host args known total i stable item
    let rest ← childPlans host args known total (i + 1) stables items
    return plan :: rest
  | _, _, _ => .ok []

/-- What an output that has no `items` array is reported as. -/
def receivedShape : Option Json → String
  | none | some .null => "null"
  | some (.arr _) => "array"
  | some (.obj fs) =>
    "object(keys=" ++ String.intercalate "," (fs.map Prod.fst) ++ ")"
  | some (.bool _) => "boolean"
  | some (.num _) => "number"
  | some (.str _) => "string"

def materializeForeachChildren (host : Host) (args : MaterializeForeachInput) :
    Except ForeachStructuredError (List ChildPlan) :=
  let fe := args.foreachConfig
  match (args.sourceOutput.bind (Json.field? "items")).bind Json.arr? with
  | none =>
    .error (.invalidSourceOutput fe.source args.parentKey (receivedShape args.sourceOutput))
  | some items =>
    let limit := min (fe.maxFanout.getD foreachMaxFanoutDefault) foreachMaxFanoutHardCeiling
    if items.length > limit then
      .error (.maxFanoutExceeded fe.source args.parentKey items.length limit
        foreachMaxFanoutHardCeiling)
    else do
      let stables ← stableIds host fe args.parentKey 0 [] items
      let batch := stables.map (childKey args.parentKey)
      let known := fun key => args.taskKeys.contains key || batch.contains key
      childPlans host args known items.length 0 stables items

end WfForeach
