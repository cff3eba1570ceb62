import Cinatra.Workflows.Reconciler

/-! # Settle — polled child runs, skip propagation, the roll-up

    `pollRunningAgentTasks` settles agent tasks whose child run has resolved;
    `finalizeWorkflow` skips what can no longer run and closes the workflow. -/

namespace WfSettle

open JsonValue WfTransitions WfSpec WfRows WfState WfReconciler

structure ProducedArtifact where
  kind : String
  ref : String
  authoringStepId : String

/-- A child run's status, as the host reports it. -/
structure ChildRunStatus where
  terminal : Bool
  failed : Bool
  hitl : Bool
  error : Option Json := none
  artifacts : List (Option String × String) := []
  output : Option Json := none
  producedArtifacts : List ProducedArtifact := []

/-- The attempt a poll would look up for a task. -/
def polledAttempt (e : Engine) (task : TaskRow) : Option PolledAttempt := do
  let attempt ← highestAttempt
    ((runningAttempts e.db.attempts task.id).filter (fun a => a.childRunId.isSome))
  let childRunId ← attempt.childRunId
  return ⟨task.id, attempt.id, attempt.attemptNo, childRunId⟩

/-- A task the poll looks at: a running agent task that is no foreach parent. -/
def pollable (task : TaskRow) : Bool :=
  task.status = .running && task.type = .agentTask && task.foreachConfig.isNone

/-- The read half, outside the lock. -/
def pollRead (e : Engine) : Engine :=
  { e with polled := e.polled ++ (e.db.tasks.filter pollable).filterMap (polledAttempt e) }

/-- One artifact row per ledger step and reference. -/
def insertProduced (taskId : RowId) (rows : List ArtifactRow) (pa : ProducedArtifact) :
    List ArtifactRow :=
  if rows.any (fun r => r.taskId = taskId && r.ref = pa.ref && r.authoringStepId.isSome) then rows
  else rows ++ [⟨taskId, pa.kind, pa.ref, some pa.authoringStepId⟩]

/-- The artifacts a successful child run leaves. -/
def insertArtifacts (e : Engine) (taskId : RowId) (childRunId : String)
    (childStatus : ChildRunStatus) : Engine :=
  let linked := ((some "agent_run", childRunId) :: childStatus.artifacts).map
    (fun a => (⟨taskId, a.1.getD "agent_output", a.2, none⟩ : ArtifactRow))
  { e with db := { e.db with artifacts :=
      childStatus.producedArtifacts.foldl (insertProduced taskId) (e.db.artifacts ++ linked) } }

/-- Settle one polled attempt, re-read under the lock. -/
def settlePolled (now : Instant) (snap cur : Engine) (p : PolledAttempt)
    (childStatus : ChildRunStatus) : Engine :=
  -- still running without a human gate, or a gate bubbled as an event only
  if !childStatus.terminal then cur
  else match taskById snap.db.tasks p.taskId with
  | none => cur
  | some current =>
    if current.status ≠ .running then cur
    else if !cur.db.attempts.any (fun a =>
        a.id = p.attemptId && a.status = .running && a.childRunId = some p.childRunId) then cur
    else if !childStatus.failed then
      if cur.casWins current.id current.lockVersion then
        let e := succeedTask cur current
        let e := e.updateAttempts (fun a => a.id = p.attemptId) (fun a =>
          { a with status := .succeeded, completedAt := some e.clock,
                   output := childStatus.output, updatedAt := e.clock })
        insertArtifacts e p.taskId p.childRunId childStatus
      else cur
    else
      let e := cur.updateAttempts (fun a => a.id = p.attemptId) (fun a =>
        { a with status := .failed, error := childStatus.error, completedAt := some cur.clock,
                 updatedAt := cur.clock })
      applyTaskFailure now e current p.attemptNo

/-! ## Skip propagation -/

/-- The statuses of the tasks while the loop runs. -/
abbrev StatusMap := List (RowId × TaskStatus)

def StatusMap.ofTasks (tasks : List TaskRow) : StatusMap :=
  tasks.map (fun t => (t.id, t.status))

def StatusMap.get (m : StatusMap) (id : RowId) : Option TaskStatus :=
  (m.find? (fun p => p.1 = id)).map Prod.snd

def StatusMap.set (m : StatusMap) (id : RowId) (s : TaskStatus) : StatusMap :=
  m.map (fun p => if p.1 = id then (id, s) else p)

/-- An upstream that is terminal without matching the edge. -/
def terminalUnmatched (upStatus : TaskStatus) (outcome : DependencyOutcome) : Bool :=
  (upStatus = .failed && outcome ≠ .failed) ||
  (upStatus = .skipped && outcome = .success) ||
  (upStatus = .succeeded && outcome = .failed) ||
  upStatus = .cancelled

/-- A task's failure policy; `block` unless it says otherwise. -/
def policyOf (task : TaskRow) : FailurePolicy := task.failurePolicy.getD .block

def policyById (tasks : List TaskRow) (id : RowId) : FailurePolicy :=
  ((taskById tasks id).map policyOf).getD .block

/-- The edge can never be satisfied. -/
def edgeUnmatched (statuses : StatusMap) (d : DependencyRow) : Bool :=
  terminalUnmatched ((statuses.get d.dependsOnTaskId).getD .idle) d.outcome

/-- The edge is unmatched because a block-policy upstream failed. -/
def edgeBlocking (tasks : List TaskRow) (statuses : StatusMap) (d : DependencyRow) : Bool :=
  edgeUnmatched statuses d && statuses.get d.dependsOnTaskId = some .failed &&
    policyById tasks d.dependsOnTaskId = .block

structure SkipState where
  engine : Engine
  statuses : StatusMap
  blockingFailure : Bool
  changed : Bool

/-- Neither terminal nor running. -/
def waiting (s : TaskStatus) : Bool := !isTerminalTaskStatus s && s ≠ .running

/-- The edges of a task. -/
def edgesOf (deps : List DependencyRow) (id : RowId) : List DependencyRow :=
  deps.filter (fun d => d.taskId = id)

def skipStep (tasks : List TaskRow) (deps : List DependencyRow) (st : SkipState)
    (task : TaskRow) : SkipState :=
  if !waiting ((st.statuses.get task.id).getD task.status) then st
  else
    let edges := edgesOf deps task.id
    let permanentlyBlocked := edges.any (edgeUnmatched st.statuses)
    let blockingFailure := st.blockingFailure || edges.any (edgeBlocking tasks st.statuses)
    if permanentlyBlocked && !blockingFailure then
      { engine := st.engine.casTask task.id task.lockVersion (fun t =>
          { t with status := .skipped, lockVersion := task.lockVersion + 1,
                   updatedAt := st.engine.clock })
        statuses := st.statuses.set task.id .skipped
        blockingFailure := blockingFailure
        changed := true }
    else { st with blockingFailure := blockingFailure }

/-- One round over the tasks. -/
def skipRound (tasks : List TaskRow) (deps : List DependencyRow) (st : SkipState) : SkipState :=
  tasks.foldl (skipStep tasks deps) { st with changed := false }

/-- Rounds until one changes nothing. -/
def skipLoop (tasks : List TaskRow) (deps : List DependencyRow) : Nat → SkipState → SkipState
  | 0, st => st
  | fuel + 1, st =>
    let st := skipRound tasks deps st
    if st.changed then skipLoop tasks deps fuel st else st

/-- The loop as `finalizeWorkflow` starts it.  Every round but the last skips a
    task, so one round more than there are tasks is enough. -/
def skipPropagate (snap cur : Engine) : SkipState :=
  skipLoop snap.db.tasks snap.db.deps (snap.db.tasks.length + 1)
    { engine := cur, statuses := StatusMap.ofTasks snap.db.tasks,
      blockingFailure := false, changed := false }

def rollupInput (statuses : StatusMap) (t : TaskRow) : TaskRollupInput where
  status := (statuses.get t.id).getD t.status
  required := t.required
  failurePolicy := policyOf t

/-- The status the roll-up asks for. -/
def nextStatus (snap : Engine) (st : SkipState) : WorkflowStatus :=
  if st.blockingFailure then .failed
  else rollUpWorkflowStatus (snap.db.tasks.map (rollupInput st.statuses))

structure FinalizeResult where
  engine : Engine
  status : WorkflowStatus
  transitioned : Bool

def finalizeWorkflow (snap cur : Engine) : FinalizeResult :=
  if snap.db.workflow.status ≠ .active then ⟨cur, snap.db.workflow.status, false⟩
  else
    let st := skipPropagate snap cur
    let next := nextStatus snap st
    if next ≠ .active ∧ st.engine.db.workflow.lockVersion = snap.db.workflow.lockVersion then
      ⟨(st.engine.setWorkflowStatus snap.db.workflow.lockVersion next).deleteLeases
        (fun _ => true), next, true⟩
    else ⟨st.engine, next, false⟩

end WfSettle
