import Cinatra.Lib.Json
import Cinatra.Workflows.Transitions

/-! # Spec — the parsed workflow specification

    The value `workflowSpecSchema` parses to.  A task is its common fields and a
    body that says which type it has.  Objects the engine stores whole
    (`agentRef`, a schedule, a scope) have a `toJson` in the order the schema
    lists their fields; a field that is absent is left out. -/

namespace WfSpec

open JsonValue WfTransitions

inductive DependencyOutcome where
  | success | skipped | failed
deriving DecidableEq

def DependencyOutcome.text : DependencyOutcome → String
  | .success => "success"
  | .skipped => "skipped"
  | .failed => "failed"

inductive MissedWindowPolicy where
  | requireManualDecision | fireAsap
deriving DecidableEq

inductive RejectionPolicy where
  | needsRevision | cancel | skip
deriving DecidableEq

inductive RollupPolicy where
  | anyFails | bestEffort | allOrNothing
deriving DecidableEq

/-- A task's type.  `timer` is no spec type, but the engine knows it. -/
inductive TaskType where
  | agentTask | approval | manual | notification | wait | checkpoint
  | timer
  | other (name : String)
deriving DecidableEq

def TaskType.text : TaskType → String
  | .agentTask => "agent_task"
  | .approval => "approval"
  | .manual => "manual"
  | .notification => "notification"
  | .wait => "wait"
  | .checkpoint => "checkpoint"
  | .timer => "timer"
  | .other name => name

/-- The type a text column names. -/
def TaskType.ofText (s : String) : TaskType :=
  if s = "agent_task" then .agentTask
  else if s = "approval" then .approval
  else if s = "manual" then .manual
  else if s = "notification" then .notification
  else if s = "wait" then .wait
  else if s = "checkpoint" then .checkpoint
  else if s = "timer" then .timer
  else .other s

/-- The special schedule anchor that resolves to the release date. -/
def targetAnchor : String := "target"

inductive Direction where
  | before | after
deriving DecidableEq

inductive AnchorPoint where
  | start | finish | due
deriving DecidableEq

def AnchorPoint.text : AnchorPoint → String
  | .start => "start"
  | .finish => "end"
  | .due => "due"

def Direction.text : Direction → String
  | .before => "before"
  | .after => "after"

private def optional (name : String) (v : Option String) : List (String × Json) :=
  match v with
  | none => []
  | some s => [(name, .str s)]

inductive ScheduleSpec where
  | absolute (at_ : String) (tz : Option String) (anchorPoint : Option AnchorPoint)
      (durationIso8601 : Option String)
  | relative (anchor : String) (offsetIso8601 : String) (direction : Direction)
      (localTime : Option String) (tz : Option String) (anchorPoint : Option AnchorPoint)
      (durationIso8601 : Option String)
deriving DecidableEq

namespace ScheduleSpec

def tz : ScheduleSpec → Option String
  | .absolute _ tz _ _ => tz
  | .relative _ _ _ _ tz _ _ => tz

def anchorPoint : ScheduleSpec → Option AnchorPoint
  | .absolute _ _ p _ => p
  | .relative _ _ _ _ _ p _ => p

def durationIso8601 : ScheduleSpec → Option String
  | .absolute _ _ _ d => d
  | .relative _ _ _ _ _ _ d => d

def toJson : ScheduleSpec → Json
  | .absolute at_ tz point dur =>
    .obj ([("mode", .str "absolute"), ("at", .str at_)] ++ optional "tz" tz ++
      optional "anchorPoint" (point.map AnchorPoint.text) ++ optional "durationIso8601" dur)
  | .relative anchor offset dir lt tz point dur =>
    .obj ([("mode", .str "relative"), ("anchor", .str anchor), ("offsetIso8601", .str offset),
        ("direction", .str dir.text)] ++ optional "localTime" lt ++ optional "tz" tz ++
      optional "anchorPoint" (point.map AnchorPoint.text) ++ optional "durationIso8601" dur)

end ScheduleSpec

structure AgentRef where
  package : String
  name : Option String
  version : Option String
  templateId : Option String
deriving DecidableEq

def AgentRef.toJson (r : AgentRef) : Json :=
  .obj ([("package", .str r.package)] ++ optional "name" r.name ++
    optional "version" r.version ++ optional "templateId" r.templateId)

/-- An ownership level and, where it needs one, whose. -/
structure ApprovalScope where
  level : String
  id : Option String
deriving DecidableEq

def ApprovalScope.toJson (s : ApprovalScope) : Json :=
  .obj ([("level", .str s.level)] ++ optional "id" s.id)

structure Assignee where
  level : String
  id : String
deriving DecidableEq

structure TaskDependency where
  taskKey : String
  outcome : Option DependencyOutcome
deriving DecidableEq

/-- An edge without an outcome is a success edge. -/
def TaskDependency.outcomeOrSuccess (d : TaskDependency) : DependencyOutcome :=
  d.outcome.getD .success

/-- A foreach declaration; the template is kept as the JSON it is stored as. -/
structure ForeachConfig where
  source : String
  as : String
  itemKey : Option String
  template : Json
  rollupPolicy : Option RollupPolicy
  maxFanout : Option Nat
deriving DecidableEq

inductive TaskBody where
  | agentTask (agentRef : AgentRef) (input : Option Json)
  | approval (requiredScope : ApprovalScope) (solicitation : Option ScheduleSpec)
      (deadlineIso8601 : Option String) (rejectionPolicy : Option RejectionPolicy)
  | manual
  | notification
  | wait
  | checkpoint
deriving DecidableEq

def TaskBody.type : TaskBody → TaskType
  | .agentTask _ _ => .agentTask
  | .approval _ _ _ _ => .approval
  | .manual => .manual
  | .notification => .notification
  | .wait => .wait
  | .checkpoint => .checkpoint

structure TaskSpec where
  key : String
  title : String
  body : TaskBody
  required : Option Bool := none
  pinned : Option Bool := none
  risk : Option String := none
  parent : Option String := none
  schedule : Option ScheduleSpec := none
  dependsOn : List TaskDependency := []
  assignee : Option Assignee := none
  failurePolicy : Option FailurePolicy := none
  missedWindowPolicy : Option MissedWindowPolicy := none
  retryPolicy : Option Json := none
  maxAttempts : Option Nat := none
  cancelPolicy : Option Json := none
  foreach : Option ForeachConfig := none
deriving DecidableEq

structure Target where
  at_ : Option String
  tz : String

structure WorkflowSpec where
  name : String
  product : Option String := none
  target : Option Target := none
  placeholders : List String := []
  tasks : List TaskSpec

/-- The keys of a spec's tasks, in declaration order. -/
def WorkflowSpec.keys (spec : WorkflowSpec) : List String :=
  spec.tasks.map TaskSpec.key

end WfSpec
