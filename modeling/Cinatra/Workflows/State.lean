import Cinatra.Workflows.ReviewPacket

/-! # State — the engine around the tables

    `Engine` is the database of one workflow, the wall clock, the supply of
    random ids, and what the processes hold between two of their transactions:
    the claims handed to dispatchers, the child runs a poll has looked up, the
    rows a manual completion has read.  Two more logs, of solicitations and of
    fan-outs, are written and never read by any operation; results about runs
    are stated with them.

    A transaction under the advisory lock reads its rows from one state (`snap`)
    and writes to another (`cur`): between the two, operations that take no lock
    may have run. -/

namespace WfState

open RowTable WfTransitions WfSpec WfRows WfReviewPacket

/-- Max task dispatches per workflow per tick. -/
def dispatchBatchCap : Nat := 100
def defaultMaxAttempts : Nat := 3
def retryBackoffBaseMs : Int := 60000
/-- An instantaneous executor left `running` longer than this has crashed. -/
def crashRecoveryMs : Int := 120000
def dispatchLeaseTtlMs : Int := 120000

/-- Exponential backoff; `attemptNo` is 1-based. -/
def retryBackoffMs (attemptNo : Nat) : Int := retryBackoffBaseMs * Int.pow 2 (attemptNo - 1)

/-- `INSTANTANEOUS_EXECUTOR_TYPES`. -/
def instantaneousExecutorType : TaskType → Bool
  | .checkpoint | .approval | .wait | .timer | .notification => true
  | _ => false

/-! ## The engine -/

/-- What a dispatcher is handed. -/
structure ClaimedTask where
  taskId : RowId
  attemptId : RowId
  attemptNo : Nat
  idempotencyKey : IdempotencyKey
  leaseToken : RowId
deriving DecidableEq

/-- A child run whose status a poll looked up. -/
structure PolledAttempt where
  taskId : RowId
  attemptId : RowId
  attemptNo : Nat
  childRunId : String
deriving DecidableEq

/-- The task row a manual completion has read. -/
structure ManualRead where
  taskId : RowId
  lockVersion : Nat
deriving DecidableEq

/-- An approval was opened on this packet. -/
structure Solicitation where
  approvalId : RowId
  packet : ReviewPacket
deriving DecidableEq

/-- A child was materialised by a parent, in a tick of this logical instant. -/
structure FanOut where
  parentId : RowId
  childId : RowId
  tickNow : Instant
deriving DecidableEq

structure Engine where
  db : Db
  clock : Instant
  nextUuid : Nat
  dispatched : List ClaimedTask
  polled : List PolledAttempt
  manualReads : List ManualRead
  solicited : List Solicitation
  fannedOut : List FanOut
deriving DecidableEq

/-! ## Statements on one table -/

/-- `UPDATE workflow_task`. -/
def Engine.updateTasks (e : Engine) (p : TaskRow → Bool) (f : TaskRow → TaskRow) : Engine :=
  { e with db := { e.db with tasks := updateWhere p f e.db.tasks } }

/-- `UPDATE workflow_task_attempt`. -/
def Engine.updateAttempts (e : Engine) (p : AttemptRow → Bool) (f : AttemptRow → AttemptRow) :
    Engine :=
  { e with db := { e.db with attempts := updateWhere p f e.db.attempts } }

/-- `UPDATE workflow_approval`. -/
def Engine.updateApprovals (e : Engine) (p : ApprovalRow → Bool)
    (f : ApprovalRow → ApprovalRow) : Engine :=
  { e with db := { e.db with approvals := updateWhere p f e.db.approvals } }

/-- `UPDATE workflow_dispatch_lease`. -/
def Engine.updateLeases (e : Engine) (p : LeaseRow → Bool) (f : LeaseRow → LeaseRow) : Engine :=
  { e with db := { e.db with leases := updateWhere p f e.db.leases } }

/-- `DELETE FROM workflow_dispatch_lease`. -/
def Engine.deleteLeases (e : Engine) (p : LeaseRow → Bool) : Engine :=
  { e with db := { e.db with leases := e.db.leases.filter (fun l => !p l) } }

/-- The compare-and-set on the workflow row that moves its status. -/
def Engine.setWorkflowStatus (e : Engine) (lockVersion : Nat) (status : WorkflowStatus) : Engine :=
  { e with db := { e.db with workflow := { e.db.workflow with
      status := status, lockVersion := lockVersion + 1, updatedAt := e.clock } } }

/-- A fresh id. -/
def Engine.freshId (e : Engine) : RowId := .uuid e.nextUuid

/-- Use up `n` fresh ids. -/
def Engine.tookIds (e : Engine) (n : Nat) : Engine := { e with nextUuid := e.nextUuid + n }

/-- A row some other transaction moved on is not written. -/
def Engine.casTask (e : Engine) (id : RowId) (lockVersion : Nat) (f : TaskRow → TaskRow) : Engine :=
  e.updateTasks (versionIs id lockVersion) f

/-- The compare-and-set found its row. -/
def Engine.casWins (e : Engine) (id : RowId) (lockVersion : Nat) : Bool :=
  e.db.tasks.any (versionIs id lockVersion)

end WfState
