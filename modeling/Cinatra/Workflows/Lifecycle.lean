import Cinatra.Workflows.Approvals

/-! # Lifecycle — starting, pausing, cancelling; the lock-free writers

    `cancelWorkflow` runs under the advisory lock.  The others take no lock: each
    is guarded by a compare-and-set alone, so it can land inside any locked
    transaction. -/

namespace WfLifecycle

open WfTransitions WfSpec WfRows WfState WfReconciler WfApprovals

/-- Move the workflow from one status to another, if it has it.  The row is
    read, checked and written under its version, so the move is one step. -/
def moveWorkflow (source target : WorkflowStatus) (e : Engine) : Engine :=
  if e.db.workflow.status = source then e.setWorkflowStatus e.db.workflow.lockVersion target
  else e

/-- Any draft starts, as with `skipStartValid`; the gate `validateStart` lets fewer pass. -/
def startWorkflow (e : Engine) : Engine := moveWorkflow .draft .active e
def pauseWorkflow (e : Engine) : Engine := moveWorkflow .active .paused e
def resumeWorkflow (e : Engine) : Engine := moveWorkflow .paused .active e

def renameWorkflow (name : String) (e : Engine) : Engine :=
  { e with db := { e.db with workflow := { e.db.workflow with
      name := name, lockVersion := e.db.workflow.lockVersion + 1, updatedAt := e.clock } } }

/-- `cancelWorkflow`: the compare-and-set first, then the teardown. -/
def cancelWorkflow (snap cur : Engine) : Engine :=
  if snap.db.workflow.status ≠ .active ∧ snap.db.workflow.status ≠ .paused then cur
  else if cur.db.workflow.lockVersion = snap.db.workflow.lockVersion ∧
      (cur.db.workflow.status = .active ∨ cur.db.workflow.status = .paused) then
    let e := cancelTasks (cur.setWorkflowStatus snap.db.workflow.lockVersion .cancelled)
    let e := e.updateApprovals (fun a => a.status = .pending) (fun a =>
      { a with invalidatedAt := some e.clock, updatedAt := e.clock })
    e.deleteLeases (fun _ => true)
  else cur

/-- A task a manual completion accepts. -/
def completable (taskId : RowId) (t : TaskRow) : Bool :=
  t.id = taskId && t.type = .manual && t.status = .running

/-- `markManualDone`, the read: the row is kept by its version. -/
def readManual (taskId : RowId) (e : Engine) : Engine :=
  match e.db.tasks.find? (completable taskId) with
  | none => e
  | some t => { e with manualReads := e.manualReads ++ [⟨taskId, t.lockVersion⟩] }

/-- `markManualDone`, the write, of a row read before. -/
def writeManual (r : ManualRead) (e : Engine) : Engine :=
  if e.manualReads.contains r then
    e.casTask r.taskId r.lockVersion (fun t =>
      { t with status := .succeeded, actualEndUtc := some e.clock,
               lockVersion := r.lockVersion + 1, updatedAt := e.clock })
  else e

inductive LockFree where
  | start
  | pause
  | resume
  | rename (name : String)
  | heartbeat (taskId leaseToken : RowId)
  | readManual (taskId : RowId)
  | writeManual (r : ManualRead)
  | wait (ms : Nat)

def lockFreeStep (e : Engine) : LockFree → Engine
  | .start => startWorkflow e
  | .pause => pauseWorkflow e
  | .resume => resumeWorkflow e
  | .rename name => renameWorkflow name e
  | .heartbeat taskId leaseToken => heartbeat e taskId leaseToken
  | .readManual taskId => WfLifecycle.readManual taskId e
  | .writeManual r => WfLifecycle.writeManual r e
  | .wait ms => { e with clock := e.clock + ms }

/-- The lock-free steps that land between a read and a write. -/
def interfere (e : Engine) (between : List LockFree) : Engine := between.foldl lockFreeStep e

end WfLifecycle
