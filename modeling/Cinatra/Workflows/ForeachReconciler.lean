import Cinatra.Workflows.Approvals
import Cinatra.Workflows.Foreach

/-! # ForeachReconciler — materialising and rolling up fan-outs

    One transaction: an idle parent follows its source, a running parent follows
    its children.  An insert that breaks a constraint aborts the whole pass. -/

namespace WfForeachReconciler

open JsonValue WfTransitions WfSpec WfRows WfHost WfState WfForeach

/-- Why a transaction rolls back. -/
inductive TxError where
  | uniqueViolation
  | foreignKeyViolation
  | invalidDate
  | unknownParent (taskKey parent : String)
  | unknownDependency (taskKey dependsOn : String)
  | taskHasAttempts
  | taskImmutable
deriving DecidableEq

/-! ## Inserting a batch -/

/-- A child's task row. -/
def childRow (e : Engine) (p : ChildPlan) : TaskRow :=
  { p.cols with
    id := p.id, parentTaskId := some p.parentTaskId, actualStartUtc := none,
    actualEndUtc := none, status := .idle, metadata := {}, lockVersion := 0,
    updatedAt := e.clock }

/-- `ON CONFLICT (workflow_id, key) DO NOTHING`; an id that is taken aborts.  The
    tick's instant `now` goes to the log of fan-outs only. -/
def insertChild (now : Instant) (e : Engine) (p : ChildPlan) : Except TxError Engine :=
  if e.db.tasks.any (fun t => t.key = p.key) then .ok e
  else if e.db.tasks.any (fun t => t.id = p.id) then .error .uniqueViolation
  else .ok { e with
    db := { e.db with tasks := e.db.tasks ++ [childRow e p] }
    fannedOut := e.fannedOut ++ [⟨p.parentTaskId, p.id, now⟩] }

/-- The upstream a child's edge names: a child of the batch, else a task. -/
def resolveUpstream (plans : List ChildPlan) (e : Engine) (key : String) : Option RowId :=
  match plans.find? (fun p => p.key = key) with
  | some p => some p.id
  | none => (taskByKey e.db.tasks key).map TaskRow.id

def hasTask (e : Engine) (id : RowId) : Bool := e.db.tasks.any (fun t => t.id = id)

/-- Insert an edge; edges are unique by their ends. -/
def insertDependency (e : Engine) (d : DependencyRow) : Except TxError Engine :=
  if e.db.deps.any (fun r => r.id = d.id ||
      (r.taskId = d.taskId && r.dependsOnTaskId = d.dependsOnTaskId)) then
    .error .uniqueViolation
  else if !hasTask e d.taskId || !hasTask e d.dependsOnTaskId then .error .foreignKeyViolation
  else .ok { e with db := { e.db with deps := e.db.deps ++ [d] } }

def insertChildDependency (plans : List ChildPlan) (childId : RowId) (e : Engine)
    (dep : ChildDependencyInsert) : Except TxError Engine :=
  match resolveUpstream plans e dep.dependsOnTaskKey with
  | none => .ok e
  | some upstream => insertDependency e ⟨dep.id, childId, upstream, dep.outcome⟩

def insertApproval (e : Engine) (a : ApprovalRow) : Except TxError Engine :=
  if e.db.approvals.any (fun r => r.id = a.id) then .error .uniqueViolation
  else if !hasTask e a.taskId then .error .foreignKeyViolation
  else .ok { e with db := { e.db with approvals := e.db.approvals ++ [a] } }

/-- A fresh approval row. -/
def childApprovalRow (e : Engine) (childId : RowId) (a : ChildApprovalInsert) : ApprovalRow :=
  { id := a.id, taskId := childId, requiredScope := a.requiredScope,
    solicitationSchedule := none, deadlineUtc := none, reviewPacketHash := none,
    status := .pending, rejectionPolicy := none, invalidatedAt := none, solicitedAt := none,
    decidedBy := none, decidedAt := none, reason := none, createdAt := e.clock,
    updatedAt := e.clock }

def insertChildApproval (e : Engine) (p : ChildPlan) : Except TxError Engine :=
  match p.approval with
  | none => .ok e
  | some a => insertApproval e (childApprovalRow e p.id a)

/-- `persistChildPlans`: task rows, then edges, then approvals. -/
def persistChildPlans (now : Instant) (plans : List ChildPlan) (e : Engine) :
    Except TxError Engine := do
  let e ← plans.foldlM (insertChild now) e
  let e ← plans.foldlM (fun e p => p.dependencies.foldlM (insertChildDependency plans p.id) e) e
  plans.foldlM insertChildApproval e

/-! ## An idle parent -/

/-- The output of the latest succeeded attempt. -/
def readLatestSucceededAttemptOutput (e : Engine) (taskId : RowId) : Option Json :=
  (highestAttempt (e.db.attempts.filter
    (fun a => a.taskId = taskId ∧ a.status = .succeeded))).bind AttemptRow.output

/-- The compare-and-set on a parent row; the version is bumped in place. -/
def setParent (e : Engine) (parent : TaskRow) (f : TaskRow → TaskRow) : Engine :=
  e.casTask parent.id parent.lockVersion (fun t =>
    { f t with lockVersion := t.lockVersion + 1, updatedAt := e.clock })

def skipParent (e : Engine) (parent : TaskRow) : Engine :=
  setParent e parent (fun t => { t with status := .skipped })

def persistForeachMaterializationFailure (e : Engine) (parent : TaskRow) (errorCode : String) :
    Engine :=
  setParent e parent (fun t =>
    { t with status := .failed,
             metadata := { t.metadata with materializationError := some errorCode } })

/-- A parent leaves `idle` without the task matrix; the `assertForeachIdle…` calls
    beside these writes hold wherever they are made. -/
def handleIdleParent (host : Host) (now : Instant) (taskKeys : List String) (e : Engine)
    (parent source : TaskRow) (fe : ForeachConfig) : Except TxError Engine :=
  match source.status with
  | .succeeded =>
    let args : MaterializeForeachInput :=
      { workflowId := e.db.workflow.id, parentId := parent.id, parentKey := parent.key,
        foreachConfig := fe, sourceOutput := readLatestSucceededAttemptOutput e source.id,
        taskKeys := taskKeys }
    match materializeForeachChildren host args with
    | .error err => .ok (persistForeachMaterializationFailure e parent err.code)
    | .ok [] =>
      .ok (setParent e parent (fun t =>
        { t with status := .succeeded, actualStartUtc := some e.clock,
                 actualEndUtc := some e.clock }))
    | .ok plans => do
      let e ← persistChildPlans now plans e
      return setParent e parent (fun t =>
        { t with status := .running, actualStartUtc := some e.clock })
  | .failed =>
    -- under the block policy the parent stays idle
    if parent.failurePolicy.getD .block = .skip then .ok (skipParent e parent) else .ok e
  | .skipped => .ok (skipParent e parent)
  | _ => .ok e

/-! ## A running parent -/

/-- Statuses a cancellation of children covers. -/
inductive CancelScope where
  | pending | all
deriving DecidableEq

def CancelScope.statuses : CancelScope → List TaskStatus
  | .pending => [.idle, .scheduled, .pendingApproval]
  | .all => [.idle, .scheduled, .pendingApproval, .running]

def cancelForeachChildren (e : Engine) (parentTaskId : RowId) (scope : CancelScope) : Engine :=
  e.updateTasks (fun t => t.parentTaskId = some parentTaskId && scope.statuses.contains t.status)
    (fun t => { t with status := .cancelled, lockVersion := t.lockVersion + 1,
                       updatedAt := e.clock })

/-- Latch what the children have shown. -/
def latch (m : ForeachMetadata) (anyFailed anySucceeded : Bool) : ForeachMetadata :=
  { m with hasFailure := m.hasFailure || anyFailed, hasSuccess := m.hasSuccess || anySucceeded }

def latchMetadata (e : Engine) (parent : TaskRow) (anyFailed anySucceeded : Bool) : Engine :=
  let desired := latch parent.metadata anyFailed anySucceeded
  if desired = parent.metadata then e
  else e.updateTasks (fun t => t.id = parent.id) (fun t =>
    { t with metadata := desired, lockVersion := t.lockVersion + 1, updatedAt := e.clock })

/-- What a rollup policy cancels once a child has failed. -/
def rollupCancel (e : Engine) (parentId : RowId) (policy : RollupPolicy) (anyFailed : Bool) :
    Engine :=
  if !anyFailed then e
  else match policy with
  | .anyFails => cancelForeachChildren e parentId .pending
  | .allOrNothing => cancelForeachChildren e parentId .all
  | .bestEffort => e

/-- The status a parent settles at once all its children are terminal. -/
def finalStatus (policy : RollupPolicy) (anyFailed anySucceeded : Bool) : TaskStatus :=
  match policy with
  | .bestEffort => if anySucceeded then .succeeded else .failed
  | _ => if anyFailed then .failed else .succeeded

def settleParent (e : Engine) (parentId : RowId) (status : TaskStatus) : Engine :=
  e.updateTasks (fun t => t.id = parentId && t.status = .running) (fun t =>
    { t with status := status, actualEndUtc := some e.clock, lockVersion := t.lockVersion + 1,
             updatedAt := e.clock })

def handleRunningParent (e : Engine) (parent : TaskRow) (fe : ForeachConfig)
    (allTasks : List TaskRow) : Engine :=
  let policy := fe.rollupPolicy.getD .anyFails
  let children := allTasks.filter (fun t => t.parentTaskId = some parent.id)
  if children = [] then e
  else
    let allTerminal := children.all (fun c => isTerminalTaskStatus c.status)
    let anyFailed := children.any (fun c => c.status = .failed)
    let anySucceeded := children.any (fun c => c.status = .succeeded)
    let e := latchMetadata e parent anyFailed anySucceeded
    let e := rollupCancel e parent.id policy anyFailed
    if allTerminal then settleParent e parent.id (finalStatus policy anyFailed anySucceeded)
    else e

def reconcileForeachParent (host : Host) (now : Instant) (allTasks : List TaskRow) (e : Engine)
    (parent : TaskRow) : Except TxError Engine :=
  match parent.foreachConfig with
  | none => .ok e
  | some fe =>
    match taskByKey allTasks fe.source with
    | none =>
      .ok (persistForeachMaterializationFailure e parent "foreach_invalid_source_output")
    | some source =>
      match parent.status with
      | .idle => handleIdleParent host now (allTasks.map (fun t => t.key)) e parent source fe
      | .running => .ok (handleRunningParent e parent fe allTasks)
      | _ => .ok e

def reconcileForeachParents (host : Host) (now : Instant) (snap cur : Engine) : Engine :=
  if snap.db.workflow.status ≠ .active then cur
  else match snap.db.tasks.foldlM (reconcileForeachParent host now snap.db.tasks) cur with
  | .ok e => e
  | .error _ => cur

end WfForeachReconciler
