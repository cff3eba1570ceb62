import Cinatra.Workflows.State
import Cinatra.Workflows.Gates

/-! # Reconciler — the sub-passes of a reconcile tick

    Each sub-pass is one transaction under the workflow's advisory lock.  The
    rows it loads come from `snap`; what it writes goes to `cur`, where lock-free
    operations may have moved a row on in the meantime.  Rows written only for
    display (events, the gate ledger, notifications) are left out. -/

namespace WfReconciler

open JsonValue WfTransitions WfSpec WfRows WfState WfGates

/-- Acquire the lease of a freshly claimed task: an upsert on its task. -/
def acquireDispatchLease (e : Engine) (taskId attemptId token : RowId) : Engine :=
  let lease : LeaseRow :=
    { taskId := taskId, attemptId := attemptId, token := token, acquiredAt := e.clock,
      heartbeatAt := e.clock, expiresAt := e.clock + dispatchLeaseTtlMs }
  if e.db.leases.any (fun l => l.taskId = taskId) then
    e.updateLeases (fun l => l.taskId = taskId) (fun _ => lease)
  else { e with db := { e.db with leases := e.db.leases ++ [lease] } }

/-- The lease a takeover may rotate: this token's, expired on the wall clock. -/
def takeable (e : Engine) (taskId observedToken : RowId) (l : LeaseRow) : Bool :=
  l.taskId = taskId && l.token = observedToken && l.expiresAt ≤ e.clock

/-- Take over an expired lease; `none` when it was extended or rotated. -/
def takeOverDispatchLease (e : Engine) (taskId observedToken token : RowId) : Option Engine :=
  if e.db.leases.any (takeable e taskId observedToken) then
    some (e.updateLeases (takeable e taskId observedToken) (fun l =>
      { l with token := token, acquiredAt := e.clock, heartbeatAt := e.clock,
               expiresAt := e.clock + dispatchLeaseTtlMs }))
  else none

/-- One heartbeat of the dispatcher that holds `leaseToken`. -/
def heartbeat (e : Engine) (taskId leaseToken : RowId) : Engine :=
  e.updateLeases (fun l => l.taskId = taskId && l.token = leaseToken) (fun l =>
    { l with heartbeatAt := e.clock, expiresAt := e.clock + dispatchLeaseTtlMs })

/-! ## Claiming -/

def gateContextFor (task : TaskRow) (deps : List DependencyRow) (tasks : List TaskRow)
    (approvals : List ApprovalRow) (now : Instant) : TaskGateContext where
  dueAtUtc := task.dueAtUtc
  now := now
  dependencies := (deps.filter (fun d => d.taskId = task.id)).map (fun d =>
    ⟨d.dependsOnTaskId, keyById tasks d.dependsOnTaskId, d.outcome⟩)
  depStatusById := statusById tasks
  hasApproval := (approvalByTaskId approvals task.id).isSome
  approvalStatus := (approvalByTaskId approvals task.id).map ApprovalRow.status

/-- An instantaneous executor left `running` past the threshold.  The lease is
    not looked at. -/
def crashed (now : Instant) (task : TaskRow) : Bool :=
  task.status = .running && instantaneousExecutorType task.type &&
    task.foreachConfig.isNone && task.updatedAt < now - crashRecoveryMs

def crashError : Json := .obj [("recovered", .str "crash_mid_dispatch")]

/-- Crash recovery of one task: back to `scheduled`, its running attempt failed,
    its lease cleared. -/
def recoverTask (now : Instant) (e : Engine) (task : TaskRow) : Engine × TaskRow :=
  if crashed now task && e.casWins task.id task.lockVersion then
    let e := e.casTask task.id task.lockVersion (fun t =>
      { t with status := .scheduled, lockVersion := task.lockVersion + 1,
               updatedAt := e.clock })
    let e := e.updateAttempts (fun a => a.taskId = task.id && a.status = .running) (fun a =>
      { a with status := .failed, error := some crashError, completedAt := some e.clock,
               updatedAt := e.clock })
    let e := e.deleteLeases (fun l => l.taskId = task.id)
    (e, { task with status := .scheduled, lockVersion := task.lockVersion + 1 })
  else (e, task)

/-- Crash recovery of the loaded tasks, in order. -/
def recoverTasks (now : Instant) : Engine → List TaskRow → Engine × List TaskRow
  | e, [] => (e, [])
  | e, task :: tasks =>
    let (e, task) := recoverTask now e task
    let (e, tasks) := recoverTasks now e tasks
    (e, task :: tasks)

/-- The engine during a claim, and how many tasks this tick has claimed. -/
abbrev Claiming := Engine × Nat

/-- Hand a claim to the dispatcher. -/
def handOut (e : Engine) (n : Nat) (c : ClaimedTask) : Claiming :=
  ({ e with dispatched := e.dispatched ++ [c] }, n + 1)

/-- Reclaim one task: a running agent dispatch without a child run whose lease
    has expired is dispatched again, as the same attempt. -/
def reclaimTask (st : Claiming) (task : TaskRow) : Claiming :=
  let (e, n) := st
  if n ≥ dispatchBatchCap then st
  else if task.status ≠ .running ∨ task.type ≠ .agentTask ∨ task.foreachConfig.isSome then st
  else match highestAttempt (runningAttempts e.db.attempts task.id) with
  | none => st
  | some attempt =>
    if attempt.childRunId.isSome then st
    else match leaseOf e.db.leases task.id with
    | none => st
    | some lease =>
      if lease.expiresAt > e.clock then st
      else match takeOverDispatchLease e task.id lease.token e.freshId with
      | none => st
      | some e' =>
        handOut (e'.tookIds 1) n
          ⟨task.id, attempt.id, attempt.attemptNo, attempt.idempotencyKey, e.freshId⟩

/-- The three gates of a task pass, on the rows loaded. -/
def dispatchable (deps : List DependencyRow) (approvals : List ApprovalRow)
    (tasks : List TaskRow) (now : Instant) (task : TaskRow) : Bool :=
  deriveEffectiveGateState (evaluateTaskGates (gateContextFor task deps tasks approvals now))
    = .dispatchable

/-- The attempt the next claim of a task inserts. -/
def nextAttempt (e : Engine) (taskId : RowId) : AttemptRow :=
  let attemptNo := (e.db.attempts.filter (fun a => a.taskId = taskId)).length + 1
  { id := e.freshId, taskId := taskId, attemptNo := attemptNo,
    idempotencyKey := ⟨e.db.workflow.id, taskId, attemptNo⟩, status := .running,
    childRunId := none, error := none, output := none, startedAt := e.clock,
    completedAt := none, updatedAt := e.clock }

def insertAttempt (e : Engine) (a : AttemptRow) : Engine :=
  { e with db := { e.db with attempts := e.db.attempts ++ [a] } }

def deleteAttempt (e : Engine) (id : RowId) : Engine :=
  { e with db := { e.db with attempts := e.db.attempts.filter (fun a => a.id ≠ id) } }

/-- Start one dispatchable task: attempt, task row, lease.  A key already there
    or a row moved on leaves the task unclaimed. -/
def startDispatch (e : Engine) (n : Nat) (task : TaskRow) : Claiming :=
  let attempt := nextAttempt e task.id
  if e.db.attempts.any (fun a => a.idempotencyKey = attempt.idempotencyKey) then (e, n)
  else
    let token := RowId.uuid (e.nextUuid + 1)
    let e := (insertAttempt e attempt).tookIds 2
    if e.casWins task.id task.lockVersion then
      let e := e.casTask task.id task.lockVersion (fun t =>
        { t with status := .running,
                 actualStartUtc := some (task.actualStartUtc.getD e.clock),
                 lockVersion := task.lockVersion + 1, updatedAt := e.clock })
      let e := acquireDispatchLease e task.id attempt.id token
      handOut e n ⟨task.id, attempt.id, attempt.attemptNo, attempt.idempotencyKey, token⟩
    else (deleteAttempt e attempt.id, n)

/-- Claim one task of the loaded graph. -/
def claimTask (deps : List DependencyRow) (approvals : List ApprovalRow)
    (tasks : List TaskRow) (now : Instant) (st : Claiming) (task : TaskRow) : Claiming :=
  if st.2 ≥ dispatchBatchCap then st
  else if task.status ≠ .idle ∧ task.status ≠ .scheduled then st
  else if task.foreachConfig.isSome then st
  else if dispatchable deps approvals tasks now task then startDispatch st.1 st.2 task
  else st

/-- `claimReadyTasks`: crash recovery, reclaim, claim. -/
def claimReadyTasks (now : Instant) (snap cur : Engine) : Engine :=
  if snap.db.workflow.status ≠ .active then cur
  else
    let (e, tasks) := recoverTasks now cur snap.db.tasks
    let st := tasks.foldl reclaimTask (e, 0)
    (tasks.foldl (claimTask snap.db.deps snap.db.approvals tasks now) st).1

/-! ## Outcomes -/

inductive OutcomeStatus where
  | succeeded | failed | running
deriving DecidableEq

def OutcomeStatus.attemptStatus : OutcomeStatus → AttemptStatus
  | .succeeded => .succeeded
  | .failed => .failed
  | .running => .running

structure ExecutorOutcome where
  status : OutcomeStatus
  error : Option Json := none
  childRunId : Option String := none

/-- Retry with backoff while the budget lasts, else dead-letter. -/
def applyTaskFailure (now : Instant) (e : Engine) (current : TaskRow) (attemptNo : Nat) :
    Engine :=
  if attemptNo < current.maxAttempts.getD defaultMaxAttempts then
    e.casTask current.id current.lockVersion (fun t =>
      { t with status := .scheduled, dueAtUtc := some (now + retryBackoffMs attemptNo),
               lockVersion := current.lockVersion + 1, updatedAt := e.clock })
  else
    e.casTask current.id current.lockVersion (fun t =>
      { t with status := .failed, actualEndUtc := some e.clock,
               lockVersion := current.lockVersion + 1, updatedAt := e.clock })

def succeedTask (e : Engine) (current : TaskRow) : Engine :=
  e.casTask current.id current.lockVersion (fun t =>
    { t with status := .succeeded, actualEndUtc := some e.clock,
             lockVersion := current.lockVersion + 1, updatedAt := e.clock })

/-- The attempt of this id while it runs. -/
def liveAttempt (id : RowId) (a : AttemptRow) : Bool := a.id = id && a.status = .running

/-- Record one outcome, behind the ownership gate. -/
def recordOutcome (now : Instant) (snap cur : Engine) (claimed : ClaimedTask)
    (outcome : ExecutorOutcome) : Engine :=
  match leaseOf cur.db.leases claimed.taskId with
  | none => cur
  | some lease =>
    if lease.token ≠ claimed.leaseToken then cur
    else
      let e := cur.deleteLeases (fun l =>
        l.taskId = claimed.taskId && l.token = claimed.leaseToken)
      match taskById snap.db.tasks claimed.taskId with
      | none => e
      | some current =>
        if current.status ≠ .running then e
        else if !e.db.attempts.any (liveAttempt claimed.attemptId) then e
        else
          let e := e.updateAttempts (liveAttempt claimed.attemptId) (fun a =>
            { a with status := outcome.status.attemptStatus, childRunId := outcome.childRunId,
                     error := outcome.error,
                     completedAt := if outcome.status = .running then none else some e.clock,
                     updatedAt := e.clock })
          match outcome.status with
          | .running => e
          | .succeeded => succeedTask e current
          | .failed => applyTaskFailure now e current claimed.attemptNo

end WfReconciler
