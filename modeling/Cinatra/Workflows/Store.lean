import Cinatra.Workflows.ForeachReconciler
import Cinatra.Workflows.Schedule
import Cinatra.Workflows.Validate

/-! # Store — persisting and editing a spec

    `createWorkflowFromSpec` writes a draft's rows; `updateWorkflowDraftSpec`
    replaces a draft's rows wholesale, and applies a paused workflow's spec as a
    difference: tasks with evidence are frozen, the others follow the spec.  A
    transaction that throws leaves every row as it was. -/

namespace WfStore

open JsonValue WfTransitions WfSpec WfRows WfHost WfSchedule WfReviewPacket WfState
open WfApprovals WfForeachReconciler

/-- `schedule.anchor` and its point, of a relative schedule. -/
def anchorColumn (t : TaskSpec) : Option Json :=
  match t.schedule with
  | some (.relative anchor _ _ _ _ point _) =>
    some (.obj [("anchor", .str anchor), ("point", .str (point.getD .due).text)])
  | _ => none

def agentRefOf (t : TaskSpec) : Option AgentRef :=
  match t.body with
  | .agentTask ref _ => some ref
  | _ => none

def inputOf (t : TaskSpec) : Option Json :=
  match t.body with
  | .agentTask _ input => input
  | _ => none

/-- The columns a spec task determines. -/
def buildCols (resolved : Record ResolvedTask) (t : TaskSpec) : TaskCols where
  key := t.key
  type := t.body.type
  title := t.title
  assigneeLevel := t.assignee.map Assignee.level
  assigneeId := t.assignee.map Assignee.id
  agentPackage := (agentRefOf t).map AgentRef.package
  agentRef := (agentRefOf t).map AgentRef.toJson
  input := inputOf t
  schedule := t.schedule.map ScheduleSpec.toJson
  anchor := anchorColumn t
  plannedStartUtc := (lookup resolved t.key).map ResolvedTask.plannedStartUtc
  plannedEndUtc := (lookup resolved t.key).map ResolvedTask.plannedEndUtc
  dueAtUtc := (lookup resolved t.key).map ResolvedTask.dueAtUtc
  required := t.required.getD true
  failurePolicy := t.failurePolicy
  missedWindowPolicy := t.missedWindowPolicy
  retryPolicy := t.retryPolicy
  maxAttempts := t.maxAttempts
  cancelPolicy := t.cancelPolicy
  pinned := t.pinned.getD false
  risk := t.risk
  foreachConfig := t.foreach

/-- `new Date(s)`, which a timestamp column refuses when it is no date. -/
def optionalDate (host : Host) : Option String → Except TxError (Option Instant)
  | none => .ok none
  | some s =>
    match host.dateParse s with
    | none => .error .invalidDate
    | some ms => .ok (some ms)

/-! ## Inserts -/

def newTaskRow (e : Engine) (id : RowId) (cols : TaskCols) : TaskRow :=
  { cols with
    id := id, parentTaskId := none, actualStartUtc := none, actualEndUtc := none,
    status := .idle, metadata := {}, lockVersion := 0, updatedAt := e.clock }

def insertTask (e : Engine) (row : TaskRow) : Except TxError Engine :=
  if e.db.tasks.any (fun t => t.id = row.id || t.key = row.key) then .error .uniqueViolation
  else .ok { e with db := { e.db with tasks := e.db.tasks ++ [row] } }

/-- The id of each key: the existing row's, else a fresh one; a repeated key
    keeps its last. -/
def assignIds (existing : String → Option RowId) : Nat → List String → Record RowId
  | _, [] => []
  | base, k :: ks => assignIds existing (base + 1) ks ++ [(k, (existing k).getD (.uuid base))]

/-- `parent_task_id`, once every row exists. -/
def setParentOf (ids : Record RowId) (e : Engine) (t : TaskSpec) : Except TxError Engine :=
  match lookup ids t.key with
  | none => .ok e
  | some id =>
    match t.parent with
    | none => .ok (e.updateTasks (fun r => r.id = id) (fun r => { r with parentTaskId := none }))
    | some parent =>
      match lookup ids parent with
      | none => .error (.unknownParent t.key parent)
      | some parentId =>
        .ok (e.updateTasks (fun r => r.id = id) (fun r => { r with parentTaskId := some parentId }))

/-- One dependency row of a task. -/
def insertSpecDependency (ids : Record RowId) (t : TaskSpec) (taskId : RowId) (e : Engine)
    (dep : TaskDependency) : Except TxError Engine :=
  match lookup ids dep.taskKey with
  | none => .error (.unknownDependency t.key dep.taskKey)
  | some upstream =>
    insertDependency (e.tookIds 1) ⟨e.freshId, taskId, upstream, dep.outcomeOrSuccess⟩

/-- The ledger columns of a task's approval before anyone has acted on it. -/
def blankApproval (e : Engine) (taskId : RowId) (scope : ApprovalScope)
    (solicitation : Option ScheduleSpec) (deadline : Option Instant)
    (policy : Option RejectionPolicy) : ApprovalRow :=
  { id := e.freshId, taskId := taskId, requiredScope := stored scope.toJson,
    solicitationSchedule := solicitation.map ScheduleSpec.toJson, deadlineUtc := deadline,
    reviewPacketHash := none, status := .pending, rejectionPolicy := policy,
    invalidatedAt := none, solicitedAt := none, decidedBy := none, decidedAt := none,
    reason := none, createdAt := e.clock, updatedAt := e.clock }

/-- A task's dependency rows and, for an approval task, its approval. -/
def insertSidecars (host : Host) (ids : Record RowId) (e : Engine) (t : TaskSpec) :
    Except TxError Engine :=
  match lookup ids t.key with
  | none => .ok e
  | some taskId => do
    let e ← t.dependsOn.foldlM (insertSpecDependency ids t taskId) e
    match t.body with
    | .approval scope solicitation deadline policy =>
      let deadline ← optionalDate host deadline
      insertApproval (e.tookIds 1) (blankApproval e taskId scope solicitation deadline policy)
    | _ => return e

def resolveOrThrow (host : Host) (spec : WorkflowSpec) (frozen : Record FrozenTaskTuple)
    (now : Instant) : Except TxError (Record ResolvedTask) :=
  match resolveSchedule host spec frozen now with
  | none => .error .invalidDate
  | some resolved => .ok resolved

/-- Insert one spec task under its assigned id. -/
def insertSpecTask (resolved : Record ResolvedTask) (ids : Record RowId) (e : Engine)
    (t : TaskSpec) : Except TxError Engine :=
  match lookup ids t.key with
  | none => .ok e
  | some id => insertTask e (newTaskRow e id (buildCols resolved t))

/-- `insertSpecRows`. -/
def insertSpecRows (host : Host) (spec : WorkflowSpec) (frozenDueAt : Record FrozenTaskTuple)
    (e : Engine) : Except TxError Engine := do
  let resolved ← resolveOrThrow host spec frozenDueAt e.clock
  let ids := assignIds (fun _ => none) e.nextUuid spec.keys
  let e := e.tookIds spec.tasks.length
  let e ← spec.tasks.foldlM (insertSpecTask resolved ids) e
  let e ← spec.tasks.foldlM (setParentOf ids) e
  spec.tasks.foldlM (insertSidecars host ids) e

def emptyEngine (workflow : WorkflowRow) (clock : Instant) : Engine where
  db := { workflow := workflow, tasks := [], deps := [], approvals := [], attempts := [],
          leases := [], artifacts := [] }
  clock := clock
  nextUuid := 0
  dispatched := []
  polled := []
  manualReads := []
  solicited := []
  fannedOut := []

/-- `createWorkflowFromSpec`: every caller creates a draft. -/
def createWorkflowFromSpec (host : Host) (workflowId name : String) (spec : WorkflowSpec)
    (clock : Instant) : Except TxError Engine := do
  let targetAtUtc ← optionalDate host (spec.target.bind Target.at_)
  let workflow : WorkflowRow :=
    { id := workflowId, name := name, product := spec.product, targetAtUtc := targetAtUtc,
      targetTz := spec.target.map Target.tz, status := .draft, specVersion := 1,
      lockVersion := 0, updatedAt := clock }
  insertSpecRows host spec [] (emptyEngine workflow clock)

/-! ## What a paused edit may not touch -/

/-- A task's last approval, by the task's key. -/
def approvalByKey (snap : Engine) (key : String) : Option ApprovalRow :=
  (snap.db.approvals.filter (fun ap =>
    (taskById snap.db.tasks ap.taskId).any (fun t => t.key = key))).getLast?

/-- The task has attempts or artifacts. -/
def hasEvidence (snap : Engine) (taskId : RowId) : Bool :=
  snap.db.attempts.any (fun a => a.taskId = taskId) ||
    snap.db.artifacts.any (fun a => a.taskId = taskId)

/-- Solicited, decided or invalidated. -/
def approvalIsEvidence (ap : ApprovalRow) : Bool :=
  ap.status ≠ .pending || ap.decidedAt.isSome || ap.invalidatedAt.isSome || ap.solicitedAt.isSome

def isFrozen (snap : Engine) (existing : TaskRow) : Bool :=
  hasEvidence snap existing.id || (existing.status ≠ .idle && existing.status ≠ .scheduled) ||
    (approvalByKey snap existing.key).any approvalIsEvidence

/-- The window a frozen row is pinned at; a row without a due has none. -/
def committedWindow (t : TaskRow) : Option FrozenTaskTuple :=
  t.dueAtUtc.map (fun due => ⟨t.plannedStartUtc.getD due, t.plannedEndUtc.getD due, due⟩)

/-- Pin every frozen kept task the caller has not pinned. -/
def pinFrozen (snap : Engine) (newKeys : List String) (frozen : Record FrozenTaskTuple)
    (t : TaskRow) : Record FrozenTaskTuple :=
  if newKeys.contains t.key && (lookup frozen t.key).isNone && isFrozen snap t then
    match committedWindow t with
    | none => frozen
    | some window => (t.key, window) :: frozen
  else frozen

/-- `FROZEN_TASK_IDENTITY_KEYS`, compared up to field order. -/
def identityKept (existing cols : TaskCols) : Bool :=
  existing.type = cols.type && existing.agentPackage = cols.agentPackage &&
  canonicalize existing.agentRef = canonicalize cols.agentRef &&
  canonicalize existing.input = canonicalize cols.input &&
  existing.required = cols.required && existing.failurePolicy = cols.failurePolicy &&
  existing.missedWindowPolicy = cols.missedWindowPolicy &&
  canonicalize existing.retryPolicy = canonicalize cols.retryPolicy &&
  existing.maxAttempts = cols.maxAttempts &&
  canonicalize existing.cancelPolicy = canonicalize cols.cancelPolicy &&
  canonicalize existing.schedule = canonicalize cols.schedule &&
  canonicalize existing.anchor = canonicalize cols.anchor

/-- A task's edges as `key:outcome` pairs; an outcome has no colon. -/
def oldEdges (snap : Engine) (taskId : RowId) : List (String × DependencyOutcome) :=
  ((snap.db.deps.filter (fun d => d.taskId = taskId)).map (fun d =>
    ((keyById snap.db.tasks d.dependsOnTaskId).getD (idText d.dependsOnTaskId), d.outcome))).dedup

def newEdges (t : TaskSpec) : List (String × DependencyOutcome) :=
  (t.dependsOn.map (fun d => (d.taskKey, d.outcomeOrSuccess))).dedup

def edgesKept (snap : Engine) (existing : TaskRow) (t : TaskSpec) : Bool :=
  (oldEdges snap existing.id).length = (newEdges t).length &&
    (newEdges t).all (fun e => (oldEdges snap existing.id).contains e)

/-- An approval's scope, solicitation, deadline and policy are as before. -/
def approvalKept (host : Host) (prev : ApprovalRow) (scope : ApprovalScope)
    (solicitation : Option ScheduleSpec) (deadlineIso : Option String)
    (policy : Option RejectionPolicy) : Except TxError Bool := do
  let deadline ← optionalDate host deadlineIso
  return canonicalize (some prev.requiredScope) = canonicalize (some scope.toJson) &&
    canonicalize prev.solicitationSchedule = canonicalize (solicitation.map ScheduleSpec.toJson) &&
    prev.deadlineUtc = deadline && prev.rejectionPolicy = policy

/-- The freeze precheck of one spec task. -/
def checkFrozen (host : Host) (snap : Engine) (resolved : Record ResolvedTask) (t : TaskSpec) :
    Except TxError Unit :=
  match taskByKey snap.db.tasks t.key with
  | none => .ok ()
  | some existing =>
    if !isFrozen snap existing then .ok ()
    else if !identityKept existing.toTaskCols (buildCols resolved t) then .error .taskImmutable
    else if !edgesKept snap existing t then .error .taskImmutable
    else match t.body, approvalByKey snap t.key with
    | .approval scope solicitation deadline policy, some prev => do
      if ← approvalKept host prev scope solicitation deadline policy then .ok ()
      else .error .taskImmutable
    | _, _ => .ok ()

/-- Why a task the spec leaves out cannot be deleted. -/
def checkDelete (snap : Engine) (t : TaskRow) : Except TxError Unit :=
  if !isFrozen snap t then .ok ()
  else if hasEvidence snap t.id || (approvalByKey snap t.key).any approvalIsEvidence then
    .error .taskHasAttempts
  else .error .taskImmutable

/-! ## Applying the difference -/

/-- `DELETE FROM workflow_task`: edges and leases go with the row, children float
    to the top, evidence holds it back. -/
def deleteTask (e : Engine) (id : RowId) : Except TxError Engine :=
  if e.db.attempts.any (fun a => a.taskId = id) || e.db.artifacts.any (fun a => a.taskId = id) ||
      e.db.approvals.any (fun a => a.taskId = id) then
    .error .foreignKeyViolation
  else .ok { e with db := { e.db with
    tasks := (e.db.tasks.filter (fun t => t.id ≠ id)).map (fun t =>
      if t.parentTaskId = some id then { t with parentTaskId := none } else t)
    deps := e.db.deps.filter (fun d => d.taskId ≠ id ∧ d.dependsOnTaskId ≠ id)
    leases := e.db.leases.filter (fun l => l.taskId ≠ id) } }

/-- Update a kept task in place, or insert a new one. -/
def applySpecTask (snap : Engine) (resolved : Record ResolvedTask) (ids : Record RowId)
    (e : Engine) (t : TaskSpec) : Except TxError Engine :=
  match lookup ids t.key with
  | none => .ok e
  | some id =>
    match taskByKey snap.db.tasks t.key with
    | some existing =>
      .ok (e.updateTasks (fun r => r.id = id) (fun r =>
        { r with toTaskCols := buildCols resolved t,
                 lockVersion := existing.lockVersion + 1, updatedAt := e.clock }))
    | none => insertTask e (newTaskRow e id (buildCols resolved t))

/-- The nodes of the new graph. -/
def newNodes (ids : Record RowId) (spec : WorkflowSpec) : List PacketTask :=
  spec.tasks.filterMap (fun t => (lookup ids t.key).map (fun id => ⟨id, t.key, t.title⟩))

/-- The edges of the new graph; they have no row id yet. -/
def newDeps (ids : Record RowId) (spec : WorkflowSpec) : List DependencyRow :=
  spec.tasks.flatMap (fun t => t.dependsOn.filterMap (fun d =>
    match lookup ids t.key, lookup ids d.taskKey with
    | some taskId, some upstream => some ⟨taskId, taskId, upstream, d.outcomeOrSuccess⟩
    | _, _ => none))

/-- The packet of an approval task in the new graph. -/
def newPacket (host : Host) (ids : Record RowId) (spec : WorkflowSpec) (t : TaskSpec)
    (taskId : RowId) (scope : ApprovalScope) : ReviewPacket :=
  reviewPacket host ⟨taskId, t.key, t.title⟩ scope.toJson (newDeps ids spec)
    (newNodes ids spec)

/-- The packet hash of an opened approval whose task is not consumed. -/
def openedHash (snap : Engine) (key : String) (prev : ApprovalRow) : Option String :=
  let consumed := (taskByKey snap.db.tasks key).any (fun t => isTerminalTaskStatus t.status)
  if !consumed && wasOpened prev then prev.reviewPacketHash else none

/-- The approval row a kept approval task is given: reopened when its packet has
    changed, else with its decision. -/
def carriedApproval (e : Engine) (prev : ApprovalRow) (blank : ApprovalRow)
    (openedHash : Option String) (newHash : String) : ApprovalRow :=
  match openedHash with
  | none =>
    { prev with taskId := blank.taskId, requiredScope := blank.requiredScope,
                solicitationSchedule := blank.solicitationSchedule,
                deadlineUtc := blank.deadlineUtc, rejectionPolicy := blank.rejectionPolicy }
  | some old =>
    let kept : ApprovalRow :=
      { prev with taskId := blank.taskId, requiredScope := blank.requiredScope,
                  solicitationSchedule := blank.solicitationSchedule,
                  deadlineUtc := blank.deadlineUtc, rejectionPolicy := blank.rejectionPolicy,
                  reviewPacketHash := some newHash }
    if newHash = old then kept
    else { kept with status := .pending, solicitedAt := none, decidedBy := none,
                     decidedAt := none, reason := none, invalidatedAt := some e.clock }

/-- A task's edges and approval in the new graph. -/
def applySidecars (host : Host) (snap : Engine) (spec : WorkflowSpec) (ids : Record RowId)
    (e : Engine) (t : TaskSpec) : Except TxError Engine :=
  match lookup ids t.key with
  | none => .ok e
  | some taskId => do
    let e ← t.dependsOn.foldlM (insertSpecDependency ids t taskId) e
    match t.body with
    | .approval scope solicitation deadline policy =>
      let deadline ← optionalDate host deadline
      let blank := blankApproval e taskId scope solicitation deadline policy
      match approvalByKey snap t.key with
      | none => insertApproval (e.tookIds 1) blank
      | some prev =>
        insertApproval e (carriedApproval e prev blank (openedHash snap t.key prev)
          ((newPacket host ids spec t taskId scope).hash host))
    | _ => return e

/-- `diffApplySpecRows`. -/
def diffApplySpecRows (host : Host) (spec : WorkflowSpec) (frozenDueAt : Record FrozenTaskTuple)
    (snap cur : Engine) : Except TxError Engine := do
  let frozen := snap.db.tasks.foldl (pinFrozen snap spec.keys) frozenDueAt
  let resolved ← resolveOrThrow host spec frozen cur.clock
  let toDelete := snap.db.tasks.filter (fun t => !spec.keys.contains t.key)
  toDelete.forM (checkDelete snap)
  spec.tasks.forM (checkFrozen host snap resolved)
  -- every check has passed: mutations begin
  let e := { cur with db := { cur.db with deps := [], approvals := [] } }
  let e ← toDelete.foldlM (fun e t => deleteTask e t.id) e
  let ids := assignIds (fun k => (taskByKey snap.db.tasks k).map TaskRow.id) e.nextUuid spec.keys
  let e := e.tookIds spec.tasks.length
  let e ← spec.tasks.foldlM (applySpecTask snap resolved ids) e
  let e ← spec.tasks.foldlM (setParentOf ids) e
  spec.tasks.foldlM (applySidecars host snap spec ids) e

/-! ## The edit -/

structure UpdateInput where
  spec : WorkflowSpec
  name : Option String
  product : Option String
  expectedLockVersion : Nat
  excludeFromFreeze : List String

inductive UpdateReason where
  | notDraft
  | stale
  | thrown (err : TxError)

structure UpdateDraftResult where
  engine : Engine
  reason : Option UpdateReason

/-- The edit went through. -/
def UpdateDraftResult.ok (r : UpdateDraftResult) : Bool := r.reason.isNone

/-- The windows of the pinned tasks, as committed. -/
def pinnedWindows (input : UpdateInput) (tasks : List TaskRow) : Record FrozenTaskTuple :=
  input.spec.tasks.filterMap (fun t =>
    if t.pinned.getD false && !input.excludeFromFreeze.contains t.key then
      ((taskByKey tasks t.key).bind committedWindow).map (fun w => (t.key, w))
    else none)

def editable (s : WorkflowStatus) : Bool := s = .draft || s = .paused

/-- The compare-and-set on the workflow row. -/
def editWorkflowRow (e : Engine) (input : UpdateInput) (targetAtUtc : Option Instant) : Engine :=
  { e with db := { e.db with workflow := { e.db.workflow with
      name := input.name.getD input.spec.name
      product := input.product.orElse (fun _ => input.spec.product)
      targetAtUtc := targetAtUtc
      targetTz := input.spec.target.map Target.tz
      lockVersion := input.expectedLockVersion + 1
      specVersion := e.db.workflow.specVersion + 1
      updatedAt := e.clock } } }

/-- A draft has no evidence: approvals and tasks go, the spec's rows come. -/
def replaceDraftRows (host : Host) (input : UpdateInput) (snap cur : Engine) :
    Except TxError Engine := do
  let e := { cur with db := { cur.db with approvals := [] } }
  let e ← e.db.tasks.foldlM (fun e t => deleteTask e t.id) e
  insertSpecRows host input.spec (pinnedWindows input snap.db.tasks) e

def editTransaction (host : Host) (input : UpdateInput) (snap cur : Engine) :
    Except TxError Engine := do
  let targetAtUtc ← optionalDate host (input.spec.target.bind Target.at_)
  let e := editWorkflowRow cur input targetAtUtc
  if cur.db.workflow.status = .paused then
    diffApplySpecRows host input.spec (pinnedWindows input snap.db.tasks) snap e
  else replaceDraftRows host input snap e

def updateWorkflowDraftSpec (host : Host) (input : UpdateInput) (snap cur : Engine) :
    UpdateDraftResult :=
  if !editable snap.db.workflow.status then ⟨cur, some .notDraft⟩
  else if snap.db.workflow.lockVersion ≠ input.expectedLockVersion then ⟨cur, some .stale⟩
  else if cur.db.workflow.lockVersion ≠ input.expectedLockVersion ∨
      !editable cur.db.workflow.status then ⟨cur, some .stale⟩
  else match editTransaction host input snap cur with
  | .error err => ⟨cur, some (.thrown err)⟩
  | .ok e => ⟨e, none⟩

end WfStore
