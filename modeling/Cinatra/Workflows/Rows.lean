import Cinatra.Workflows.Spec
import Cinatra.Lib.Table

/-! # Rows — the tables of one workflow

    One record per table of the schema, with the columns the engine reads or
    writes, and `Db` for the rows that belong to one workflow.  A `timestamptz`
    is an instant in milliseconds.  Row ids are either random
    (`prefix_<uuid>`, a fresh number here) or derived from a hash, as the ids of
    materialised children are.  The event log, the gate ledger and the columns no
    modelled operation reads (owner, creator, holder of a lease) are left out. -/

namespace WfRows

open JsonValue WfTransitions WfSpec

/-- Milliseconds since the epoch. -/
abbrev Instant := Int

inductive RowId where
  | uuid (n : Nat)
  | derived (text : String)
deriving DecidableEq

structure WorkflowRow where
  id : String
  name : String
  product : Option String
  targetAtUtc : Option Instant
  targetTz : Option String
  status : WorkflowStatus
  specVersion : Nat
  lockVersion : Nat
  updatedAt : Instant
deriving DecidableEq

/-- The columns of a task row that a spec task determines. -/
structure TaskCols where
  key : String
  type : TaskType
  title : String
  assigneeLevel : Option String
  assigneeId : Option String
  agentPackage : Option String
  agentRef : Option Json
  input : Option Json
  schedule : Option Json
  anchor : Option Json
  plannedStartUtc : Option Instant
  plannedEndUtc : Option Instant
  dueAtUtc : Option Instant
  required : Bool
  failurePolicy : Option FailurePolicy
  missedWindowPolicy : Option MissedWindowPolicy
  retryPolicy : Option Json
  maxAttempts : Option Nat
  cancelPolicy : Option Json
  pinned : Bool
  risk : Option String
  foreachConfig : Option ForeachConfig
deriving DecidableEq

/-- What the engine keeps in a foreach parent's `metadata`. -/
structure ForeachMetadata where
  hasFailure : Bool := false
  hasSuccess : Bool := false
  materializationError : Option String := none
deriving DecidableEq

structure TaskRow extends TaskCols where
  id : RowId
  parentTaskId : Option RowId
  actualStartUtc : Option Instant
  actualEndUtc : Option Instant
  status : TaskStatus
  metadata : ForeachMetadata
  lockVersion : Nat
  updatedAt : Instant
deriving DecidableEq

structure DependencyRow where
  id : RowId
  taskId : RowId
  dependsOnTaskId : RowId
  outcome : DependencyOutcome
deriving DecidableEq

/-- The attempt key `workflowId:taskId:attemptNo`; no id contains a colon. -/
structure IdempotencyKey where
  workflowId : String
  taskId : RowId
  attemptNo : Nat
deriving DecidableEq

structure AttemptRow where
  id : RowId
  taskId : RowId
  attemptNo : Nat
  idempotencyKey : IdempotencyKey
  status : AttemptStatus
  childRunId : Option String
  error : Option Json
  output : Option Json
  startedAt : Instant
  completedAt : Option Instant
  updatedAt : Instant
deriving DecidableEq

structure LeaseRow where
  taskId : RowId
  attemptId : RowId
  token : RowId
  acquiredAt : Instant
  heartbeatAt : Instant
  expiresAt : Instant
deriving DecidableEq

structure ArtifactRow where
  taskId : RowId
  kind : String
  ref : String
  authoringStepId : Option String
deriving DecidableEq

/-- `solicitedAt` is the one entry of `notification_state`. -/
structure ApprovalRow where
  id : RowId
  taskId : RowId
  requiredScope : Json
  solicitationSchedule : Option Json
  deadlineUtc : Option Instant
  reviewPacketHash : Option String
  status : ApprovalStatus
  rejectionPolicy : Option RejectionPolicy
  invalidatedAt : Option Instant
  solicitedAt : Option Instant
  decidedBy : Option String
  decidedAt : Option Instant
  reason : Option String
  createdAt : Instant
  updatedAt : Instant
deriving DecidableEq

/-- The rows of one workflow. -/
structure Db where
  workflow : WorkflowRow
  tasks : List TaskRow
  deps : List DependencyRow
  approvals : List ApprovalRow
  attempts : List AttemptRow
  leases : List LeaseRow
  artifacts : List ArtifactRow
deriving DecidableEq

/-! ## Lookups, as the engine's maps make them -/

/-- `new Map(tasks.map((t) => [t.id, t])).get(id)`; ids are primary keys. -/
def taskById (tasks : List TaskRow) (id : RowId) : Option TaskRow :=
  tasks.find? (fun t => t.id = id)

def taskByKey (tasks : List TaskRow) (key : String) : Option TaskRow :=
  tasks.find? (fun t => t.key = key)

def statusById (tasks : List TaskRow) (id : RowId) : Option TaskStatus :=
  (taskById tasks id).map TaskRow.status

def keyById (tasks : List TaskRow) (id : RowId) : Option String :=
  (taskById tasks id).map (fun t => t.key)

/-- `new Map(approvals.map((a) => [a.taskId, a])).get(id)`: a task is not kept
    from having two approvals, and the last row wins. -/
def approvalByTaskId (approvals : List ApprovalRow) (id : RowId) : Option ApprovalRow :=
  (approvals.filter (fun a => a.taskId = id)).getLast?

/-- The running attempts of a task. -/
def runningAttempts (attempts : List AttemptRow) (taskId : RowId) : List AttemptRow :=
  attempts.filter (fun a => a.taskId = taskId ∧ a.status = .running)

/-- The row of highest attempt number: `ORDER BY attempt_no DESC LIMIT 1`. -/
def highestAttempt : List AttemptRow → Option AttemptRow
  | [] => none
  | a :: rest =>
    match highestAttempt rest with
    | none => some a
    | some b => if a.attemptNo < b.attemptNo then some b else some a

def leaseOf (leases : List LeaseRow) (taskId : RowId) : Option LeaseRow :=
  leases.find? (fun l => l.taskId = taskId)

/-- The optimistic lock: the row of this id, at this version. -/
def versionIs (id : RowId) (lockVersion : Nat) (t : TaskRow) : Bool :=
  t.id = id && t.lockVersion = lockVersion

/-! ### What a lookup finds -/

variable {tasks : List TaskRow} {t : TaskRow} {id : RowId}

theorem mem_of_taskById (h : taskById tasks id = some t) : t ∈ tasks ∧ t.id = id :=
  ⟨List.mem_of_find?_eq_some h, by simpa using List.find?_some h⟩

theorem mem_of_taskByKey {key : String}
    (h : taskByKey tasks key = some t) : t ∈ tasks ∧ t.key = key :=
  ⟨List.mem_of_find?_eq_some h, by simpa using List.find?_some h⟩

theorem taskById_eq_some (hnd : (tasks.map TaskRow.id).Nodup) (ht : t ∈ tasks) : taskById tasks
    t.id = some t :=
  RowTable.find?_eq_some_of_key hnd ht

theorem taskByKey_eq_some (hnd : (tasks.map (fun t => t.key)).Nodup) (ht : t ∈ tasks) : taskByKey
    tasks t.key = some t :=
  RowTable.find?_eq_some_of_key hnd ht

variable {leases : List LeaseRow} {taskId : RowId} {l : LeaseRow}

theorem mem_of_leaseOf (h : leaseOf leases taskId = some l) : l ∈ leases ∧ l.taskId = taskId :=
  ⟨List.mem_of_find?_eq_some h, by simpa using List.find?_some h⟩

theorem leaseOf_eq_some (hnd : (leases.map LeaseRow.taskId).Nodup)
    (hl : l ∈ leases) : leaseOf leases l.taskId = some l :=
  RowTable.find?_eq_some_of_key hnd hl

variable {attempts : List AttemptRow} {a : AttemptRow}

theorem mem_of_highestAttempt (h : highestAttempt attempts = some a) : a ∈ attempts := by
  induction attempts generalizing a with
  | nil => cases h
  | cons b rest ih =>
    rw [highestAttempt] at h
    cases hr : highestAttempt rest with
    | none =>
      rw [hr] at h
      rw [← Option.some.inj h]
      exact .head _ ..
    | some c =>
      rw [hr] at h
      by_cases hlt : b.attemptNo < c.attemptNo
      · simp only [if_pos hlt] at h
        rw [← Option.some.inj h]
        exact .tail _ (ih hr)
      · simp only [if_neg hlt] at h
        rw [← Option.some.inj h]
        exact .head _ ..

theorem mem_runningAttempts : a ∈ runningAttempts attempts taskId ↔
      a ∈ attempts ∧ a.taskId = taskId ∧ a.status = .running := by
  rw [runningAttempts, List.mem_filter, decide_eq_true_eq]

theorem versionIs_iff {lockVersion : Nat} :
    versionIs id lockVersion t = true ↔ t.id = id ∧ t.lockVersion = lockVersion := by
  rw [versionIs, Bool.and_eq_true, decide_eq_true_eq, decide_eq_true_eq]

end WfRows
