import Mathlib.Data.List.Basic

/-! # Transitions — the status machines and the workflow roll-up

    The transition matrices of the engine and the roll-up that derives a workflow
    status from its tasks. -/

namespace WfTransitions

inductive TaskStatus where
  | idle | scheduled | pendingApproval | running
  | succeeded | failed | skipped | cancelled
deriving DecidableEq

inductive WorkflowStatus where
  | draft | active | paused | completed | cancelled | failed
deriving DecidableEq

inductive AttemptStatus where
  | pending | running | succeeded | failed
deriving DecidableEq

inductive ApprovalStatus where
  | pending | granted | rejected | needsRevision
deriving DecidableEq

inductive FailurePolicy where
  | block | skip
deriving DecidableEq

def workflowTransitions : WorkflowStatus → List WorkflowStatus
  | .draft => [.active, .cancelled]
  | .active => [.paused, .completed, .failed, .cancelled]
  | .paused => [.active, .cancelled]
  | .completed => []
  | .cancelled => []
  | .failed => []

/-- A move along a matrix; writing the same status again is allowed. -/
def canTransition {σ : Type} [DecidableEq σ] (matrix : σ → List σ) (source target : σ) : Bool :=
  source = target || (matrix source).contains target

def isTerminalTaskStatus : TaskStatus → Bool
  | .succeeded | .skipped | .cancelled | .failed => true
  | _ => false

def isTerminalWorkflowStatus : WorkflowStatus → Bool
  | .completed | .cancelled | .failed => true
  | _ => false

/-- The statuses a teardown cancels. -/
def nonTerminalTaskStatuses : List TaskStatus :=
  [.idle, .scheduled, .running, .pendingApproval]

theorem mem_nonTerminalTaskStatuses (s : TaskStatus) :
    s ∈ nonTerminalTaskStatuses ↔ isTerminalTaskStatus s = false := by
  cases s <;> decide

/-! ## Workflow roll-up -/

structure TaskRollupInput where
  status : TaskStatus
  required : Bool
  failurePolicy : FailurePolicy

/-- A failure the roll-up lets fail the workflow. -/
def blockingRow (t : TaskRollupInput) : Bool :=
  t.status = .failed && t.required && t.failurePolicy = .block

def rollUpWorkflowStatus (tasks : List TaskRollupInput) : WorkflowStatus :=
  if tasks = [] then .active
  else if tasks.any blockingRow then .failed
  else if tasks.all (fun t => isTerminalTaskStatus t.status) then .completed
  else .active

theorem rollUpWorkflowStatus_eq_failed (tasks : List TaskRollupInput) :
    rollUpWorkflowStatus tasks = .failed ↔ tasks.any blockingRow = true := by
  rw [rollUpWorkflowStatus]
  by_cases hnil : tasks = []
  · rw [if_pos hnil, hnil]
    decide
  rw [if_neg hnil]
  by_cases hany : tasks.any blockingRow = true
  · rw [if_pos hany]
    exact ⟨fun _ => hany, fun _ => rfl⟩
  rw [if_neg hany]
  constructor
  · intro h
    by_cases hall : tasks.all (fun t => isTerminalTaskStatus t.status) = true
    · rw [if_pos hall] at h; cases h
    · rw [if_neg hall] at h; cases h
  · intro h
    exact absurd h hany

theorem rollUpWorkflowStatus_perm {tasks tasks' : List TaskRollupInput} (h : tasks'.Perm tasks) :
    rollUpWorkflowStatus tasks' = rollUpWorkflowStatus tasks := by
  have hnil : tasks' = [] ↔ tasks = [] := by
    rw [← List.length_eq_zero_iff, ← List.length_eq_zero_iff, h.length_eq]
  rw [rollUpWorkflowStatus, rollUpWorkflowStatus, h.any_eq, h.all_eq]
  simp only [hnil]

end WfTransitions
