import Cinatra.Workflows.Engine

/-! # Acts — what one statement may do to the rows

    The row-level machine under the operations.  A `RowAct` is one statement of a
    tick or one lock-free statement, under the guard its site has established: a
    task row moves on, an attempt is settled, a claim is handed out, a lease is
    touched, dropped or taken over.  An `Act` is a row act, a write to the
    approvals, or the insertion of a materialised child.  Every locked operation
    but an edit is a sequence of acts and, for three of them, one closing write;
    what holds of every act then holds of every operation. -/

namespace WfActs

open RowTable WfTransitions WfSpec WfRows WfState WfReconciler

/-- The workflow runs or is held. -/
def Live (s : WorkflowStatus) : Prop := s = .active ∨ s = .paused

/-- The id was handed out before. -/
def Old (e : Engine) (id : RowId) : Prop := ∀ n, id = .uuid n → n < e.nextUuid

/-- The columns of a task no statement of a tick moves: all a spec task
    determines but the due instant, which a retry puts off. -/
def definition (t : TaskRow) : TaskCols := { t.toTaskCols with dueAtUtc := none }

/-- The task has been dispatched. -/
def Attempted (e : Engine) (taskId : RowId) : Prop := ∃ a ∈ e.db.attempts, a.taskId = taskId

/-- The status moves of a task row that are no claim. -/
inductive StatusMove (e : Engine) (t t' : TaskRow) : Prop where
  | same (hs : t'.status = t.status) (hd : t'.dueAtUtc = t.dueAtUtc)
  | finish (h : isTerminalTaskStatus t.status = false)
      (h' : isTerminalTaskStatus t'.status = true) (hd : t'.dueAtUtc = t.dueAtUtc)
      (hl : t.status = .running ∨ Live e.db.workflow.status)
  | requeue (h : t.status = .running) (h' : t'.status = .scheduled)
      (hatt : ∀ a ∈ e.db.attempts, a.taskId = t.id → a.status ≠ .running)
      (hlease : ∀ l ∈ e.db.leases, l.taskId ≠ t.id)
      (hown : Attempted e t.id ∨ instantaneousExecutorType t.type = true ∧ t.foreachConfig = none)
      (hl : Live e.db.workflow.status)
  | fanOut (h : t.status = .idle) (h' : t'.status = .running) (hd : t'.dueAtUtc = t.dueAtUtc)
      (hfe : t.foreachConfig ≠ none) (hl : Live e.db.workflow.status)

/-- A task row moves on: its version grows, its definition stays. -/
structure Advance (e : Engine) (t t' : TaskRow) : Prop where
  id : t'.id = t.id
  definition : definition t' = definition t
  parent : t'.parentTaskId = t.parentTaskId
  version : t.lockVersion < t'.lockVersion
  move : StatusMove e t t'

/-- A running attempt that no lease covers is written; its number and key stay. -/
structure Settle (e : Engine) (a a' : AttemptRow) : Prop where
  running : a.status = .running
  id : a'.id = a.id
  taskId : a'.taskId = a.taskId
  attemptNo : a'.attemptNo = a.attemptNo
  idempotencyKey : a'.idempotencyKey = a.idempotencyKey
  unleased : ∀ l ∈ e.db.leases, l.attemptId ≠ a.id

/-! ## A claim -/

/-- The lease `acquireDispatchLease` writes for the next claim of a task. -/
def nextLease (e : Engine) (taskId : RowId) : LeaseRow :=
  { taskId := taskId, attemptId := e.freshId, token := .uuid (e.nextUuid + 1),
    acquiredAt := e.clock, heartbeatAt := e.clock, expiresAt := e.clock + dispatchLeaseTtlMs }

/-- What the next claim of a task hands out. -/
def nextClaim (e : Engine) (taskId : RowId) : ClaimedTask :=
  ⟨taskId, e.freshId, (nextAttempt e taskId).attemptNo, (nextAttempt e taskId).idempotencyKey,
    .uuid (e.nextUuid + 1)⟩

/-- The rows after a claim: attempt, task row, lease. -/
def launched (e : Engine) (taskId : RowId) (lockVersion : Nat) (f : TaskRow → TaskRow) : Engine :=
  { e with
    db := { e.db with
      tasks := updateWhere (versionIs taskId lockVersion) f e.db.tasks
      attempts := e.db.attempts ++ [nextAttempt e taskId]
      leases := e.db.leases ++ [nextLease e taskId] }
    nextUuid := e.nextUuid + 2
    dispatched := e.dispatched ++ [nextClaim e taskId] }

/-- A waiting row becomes the running row of a claim. -/
structure Launch (t t' : TaskRow) : Prop where
  id : t'.id = t.id
  definition : definition t' = definition t
  parent : t'.parentTaskId = t.parentTaskId
  version : t.lockVersion < t'.lockVersion
  waiting : t.status = .idle ∨ t.status = .scheduled
  running : t'.status = .running
  due : t'.dueAtUtc = t.dueAtUtc
  plain : t.foreachConfig = none

/-- The rows after a reclaim: the lease of a task carries the fresh token. -/
def takenOver (e : Engine) (lease : LeaseRow) (attempt : AttemptRow) : Engine :=
  { e with
    db := { e.db with
      leases := updateWhere (takeable e lease.taskId lease.token) (fun l =>
        { l with token := e.freshId, acquiredAt := e.clock, heartbeatAt := e.clock,
                 expiresAt := e.clock + dispatchLeaseTtlMs }) e.db.leases }
    nextUuid := e.nextUuid + 1
    dispatched := e.dispatched ++
      [⟨lease.taskId, attempt.id, attempt.attemptNo, attempt.idempotencyKey, e.freshId⟩] }

inductive RowAct : Engine → Engine → Prop where
  | tasks {e : Engine} (p : TaskRow → Bool) (f : TaskRow → TaskRow)
      (h : ∀ t ∈ e.db.tasks, p t = true → Advance e t (f t)) : RowAct e (e.updateTasks p f)
  | attempts {e : Engine} (p : AttemptRow → Bool) (f : AttemptRow → AttemptRow)
      (h : ∀ a ∈ e.db.attempts, p a = true → Settle e a (f a)) : RowAct e (e.updateAttempts p f)
  | artifacts {e : Engine} (rows : List ArtifactRow)
      (h : ∀ r ∈ rows, r ∈ e.db.artifacts ∨ Attempted e r.taskId)
      (hk : ∀ r ∈ e.db.artifacts, r ∈ rows) :
      RowAct e { e with db := { e.db with artifacts := rows } }
  | launch {e : Engine} (t : TaskRow) (f : TaskRow → TaskRow) (ht : t ∈ e.db.tasks)
      (hf : Launch t (f t)) (hl : Live e.db.workflow.status) :
      RowAct e (launched e t.id t.lockVersion f)
  | takeOver {e : Engine} (lease : LeaseRow) (attempt : AttemptRow) (hl : lease ∈ e.db.leases)
      (ha : attempt ∈ e.db.attempts) (hid : attempt.id = lease.attemptId)
      (htask : attempt.taskId = lease.taskId) (hexp : lease.expiresAt ≤ e.clock) :
      RowAct e (takenOver e lease attempt)
  | touch {e : Engine} (p : LeaseRow → Bool) (f : LeaseRow → LeaseRow)
      (h : ∀ l, (f l).taskId = l.taskId ∧ (f l).attemptId = l.attemptId ∧ (f l).token = l.token) :
      RowAct e (e.updateLeases p f)
  | drop {e : Engine} (p : LeaseRow → Bool) : RowAct e (e.deleteLeases p)
  | workflow {e : Engine} (w : WorkflowRow) (hid : w.id = e.db.workflow.id)
      (hmove : canTransition workflowTransitions e.db.workflow.status w.status = true)
      (hopen : isTerminalWorkflowStatus w.status = isTerminalWorkflowStatus e.db.workflow.status)
      (hdraft : w.status = .draft → e.db.workflow.status = .draft)
      (hversion : e.db.workflow.lockVersion < w.lockVersion) :
      RowAct e { e with db := { e.db with workflow := w } }
  | clock {e : Engine} (ms : Nat) : RowAct e { e with clock := e.clock + ms }
  | ids {e : Engine} (n : Nat) : RowAct e (e.tookIds n)
  | polled {e : Engine} (ps : List PolledAttempt)
      (h : ∀ p ∈ ps, ∃ a ∈ e.db.attempts, a.id = p.attemptId ∧ a.taskId = p.taskId ∧
        a.attemptNo = p.attemptNo) : RowAct e { e with polled := e.polled ++ ps }
  | manualRead {e : Engine} (t : TaskRow) (ht : t ∈ e.db.tasks) (htype : t.type = .manual)
      (hs : t.status = .running) :
      RowAct e { e with manualReads := e.manualReads ++ [⟨t.id, t.lockVersion⟩] }

/-- A row of a materialised child, before its batch is written. -/
structure Fresh (e : Engine) (t : TaskRow) : Prop where
  id : ∀ r ∈ e.db.tasks, r.id ≠ t.id
  key : ∀ r ∈ e.db.tasks, r.key ≠ t.key
  old : Old e t.id
  idle : t.status = .idle
  plain : t.foreachConfig = none

/-- Which row a row of approvals is. -/
structure SameApproval (a a' : ApprovalRow) : Prop where
  id : a'.id = a.id
  taskId : a'.taskId = a.taskId
  scope : a'.requiredScope = a.requiredScope

inductive Act : Engine → Engine → Prop where
  | row {e e' : Engine} (h : RowAct e e') : Act e e'
  | approvals {e : Engine} (p : ApprovalRow → Bool) (f : ApprovalRow → ApprovalRow)
      (h : ∀ a, SameApproval a (f a)) : Act e (e.updateApprovals p f)
  | solicited {e : Engine} (s : List Solicitation) :
      Act e { e with solicited := e.solicited ++ s }
  | child {e : Engine} (t : TaskRow) (f : FanOut) (h : Fresh e t)
      (hl : Live e.db.workflow.status) :
      Act e { e with db := { e.db with tasks := e.db.tasks ++ [t] },
                     fannedOut := e.fannedOut ++ [f] }
  | dependency {e : Engine} (d : DependencyRow)
      (hd : ∃ t ∈ e.db.tasks, t.id = d.taskId) (hu : ∃ t ∈ e.db.tasks, t.id = d.dependsOnTaskId) :
      Act e { e with db := { e.db with deps := e.db.deps ++ [d] } }
  | approval {e : Engine} (a : ApprovalRow) (hid : ∀ r ∈ e.db.approvals, r.id ≠ a.id)
      (ht : ∃ t ∈ e.db.tasks, t.id = a.taskId) :
      Act e { e with db := { e.db with approvals := e.db.approvals ++ [a] } }

/-! ## What an act makes of a row -/

/-- The row is as it was, has moved on, or has been claimed. -/
def Became (e : Engine) (t t' : TaskRow) : Prop := t' = t ∨ Advance e t t' ∨ Launch t t'

variable {t t' : TaskRow} {e : Engine}

theorem Became.id (h : Became e t t') : t'.id = t.id := by
  rcases h with rfl | h | h
  · rfl
  · exact h.id
  · exact h.id

theorem Became.definition (h : Became e t t') : definition t' = definition t := by
  rcases h with rfl | h | h
  · rfl
  · exact h.definition
  · exact h.definition

theorem Became.version (h : Became e t t') : t' = t ∨ t.lockVersion < t'.lockVersion := by
  rcases h with rfl | h | h
  · exact .inl rfl
  · exact .inr h.version
  · exact .inr h.version

theorem Became.terminal (h : Became e t t')
    (ht : isTerminalTaskStatus t.status = true) : t'.status = t.status := by
  rcases h with rfl | h | h
  · rfl
  · rcases h.move with hs | h₁ | h₁ | h₁
    · exact hs
    · rw [ht] at h₁; cases h₁
    · rw [h₁] at ht; cases ht
    · rw [h₁] at ht; cases ht
  · rcases h.waiting with h₁ | h₁
    · rw [h₁] at ht; cases ht
    · rw [h₁] at ht; cases ht

section

variable (h : definition t' = definition t)

include h

theorem key_of_definition : t'.key = t.key := by
  show (definition t').key = (definition t).key
  rw [h]

theorem type_of_definition : t'.type = t.type := by
  show (definition t').type = (definition t).type
  rw [h]

theorem foreachConfig_of_definition : t'.foreachConfig = t.foreachConfig := by
  show (definition t').foreachConfig = (definition t).foreachConfig
  rw [h]

end

private theorem became_update {p : TaskRow → Bool} {f : TaskRow → TaskRow}
    {Q : TaskRow → TaskRow → Prop} (hQ : ∀ t t', Q t t' → Became e t t')
    (h : ∀ t ∈ e.db.tasks, p t = true → Q t (f t)) :
    ∀ t ∈ e.db.tasks, Became e t (if p t then f t else t) := by
  intro t ht
  by_cases hp : p t = true
  · rw [if_pos hp]
    exact hQ _ _ (h t ht hp)
  · rw [if_neg hp]
    exact .inl rfl

private theorem rows_same (e : Engine) : ∃ g : TaskRow → TaskRow, e.db.tasks = e.db.tasks.map g ∧
      ∀ t ∈ e.db.tasks, Became e t (g t) :=
  ⟨fun t => t, (List.map_id' _).symm, fun _ _ => .inl rfl⟩

theorem RowAct.rows {e e' : Engine} (hids : (e.db.tasks.map TaskRow.id).Nodup) (h : RowAct e e') :
    ∃ g : TaskRow → TaskRow, e'.db.tasks = e.db.tasks.map g ∧
      ∀ t ∈ e.db.tasks, Became e t (g t) := by
  cases h with
  | tasks p f hf =>
    exact ⟨_, rfl, became_update (fun _ _ h => .inr (.inl h)) hf⟩
  | launch t f ht hf hl =>
    refine ⟨_, rfl, became_update (fun _ _ h => .inr (.inr h)) ?_⟩
    intro r hr hp
    have hid : r.id = t.id := by
      simp only [versionIs, Bool.and_eq_true, decide_eq_true_eq] at hp
      exact hp.1
    rw [eq_of_key hids hr ht hid]
    exact hf
  | attempts | artifacts | takeOver | touch | drop | workflow | clock | ids | polled
  | manualRead => exact rows_same e

theorem RowAct.nextUuid {e e' : Engine} (h : RowAct e e') : e.nextUuid ≤ e'.nextUuid := by
  cases h with
  | launch => exact Nat.le_add_right _ 2
  | takeOver => exact Nat.le_add_right _ 1
  | ids n => exact Nat.le_add_right _ n
  | tasks | attempts | artifacts | touch | drop | workflow | clock | polled | manualRead =>
    exact Nat.le_refl _

/-- A sequence of row acts. -/
abbrev RowPath : Engine → Engine → Prop := Relation.ReflTransGen RowAct

/-- A sequence of acts. -/
abbrev Path : Engine → Engine → Prop := Relation.ReflTransGen Act

theorem RowPath.path {e e' : Engine} (h : RowPath e e') : Path e e' :=
  Relation.ReflTransGen.mono (fun _ _ hr => Act.row hr) _ _ h

end WfActs
