import Cinatra.Workflows.Reconciler

/-! # Approvals — staleness, rejection, solicitation, decision

    An approval opens when it is solicited, on a snapshot of its review packet;
    a human decides it; a changed packet reopens it; a rejection is applied by
    the engine. -/

namespace WfApprovals

open JsonValue WfTransitions WfSpec WfRows WfHost WfReviewPacket WfState WfGates
/-- The nodes a packet is computed from. -/
def packetTasks (tasks : List TaskRow) : List PacketTask := tasks.map PacketTask.ofRow

/-- The packet of an approval on the rows loaded. -/
def packetOf (host : Host) (deps : List DependencyRow) (tasks : List TaskRow) (task : TaskRow)
    (ap : ApprovalRow) : ReviewPacket :=
  reviewPacket host (PacketTask.ofRow task) ap.requiredScope deps (packetTasks tasks)

/-- Opened and not rejected: a change of its packet reopens it. -/
def wasOpened (ap : ApprovalRow) : Bool :=
  ap.status = .granted || ap.status = .needsRevision ||
    (ap.status = .pending && ap.solicitedAt.isSome)

/-- The current hash of an approval whose packet has changed. -/
def staleHash (host : Host) (deps : List DependencyRow) (tasks : List TaskRow)
    (ap : ApprovalRow) : Option String :=
  match ap.reviewPacketHash, taskById tasks ap.taskId with
  | some stored, some task =>
    let current := (packetOf host deps tasks task ap).hash host
    if isTerminalTaskStatus task.status || !wasOpened ap || current = stored then none
    else some current
  | _, _ => none

def invalidateApproval (host : Host) (now : Instant) (snap cur : Engine) (ap : ApprovalRow) :
    Engine :=
  match staleHash host snap.db.deps snap.db.tasks ap with
  | none => cur
  | some current =>
    cur.updateApprovals (fun a =>
        a.id = ap.id && a.status = ap.status && a.reviewPacketHash = ap.reviewPacketHash)
      (fun a => { a with status := .pending, solicitedAt := none, invalidatedAt := some now,
                         reviewPacketHash := some current, updatedAt := cur.clock })

def invalidateStaleApprovals (host : Host) (now : Instant) (snap cur : Engine) : Engine :=
  if snap.db.workflow.status ≠ .active then cur
  else snap.db.approvals.foldl (invalidateApproval host now snap) cur

/-- A rejected approval with the skip policy skips its task. -/
def applySkipPolicy (snap cur : Engine) (ap : ApprovalRow) : Engine :=
  if ap.status = .rejected ∧ ap.rejectionPolicy = some .skip then
    match taskById snap.db.tasks ap.taskId with
    | none => cur
    | some task =>
      if isTerminalTaskStatus task.status then cur
      else cur.casTask task.id task.lockVersion (fun t =>
        { t with status := .skipped, lockVersion := task.lockVersion + 1,
                 updatedAt := cur.clock })
  else cur

/-- Cancel every task that is not terminal. -/
def cancelTasks (e : Engine) : Engine :=
  e.updateTasks (fun t => nonTerminalTaskStatuses.contains t.status) (fun t =>
    { t with status := .cancelled, lockVersion := t.lockVersion + 1, updatedAt := e.clock })

def applyRejectedApprovalPolicies (snap cur : Engine) : Engine :=
  if snap.db.workflow.status ≠ .active then cur
  else
    let e := snap.db.approvals.foldl (applySkipPolicy snap) cur
    let cancel := snap.db.approvals.any (fun ap =>
      ap.status = .rejected && ap.rejectionPolicy = some .cancel)
    if cancel ∧ e.db.workflow.lockVersion = snap.db.workflow.lockVersion then
      (cancelTasks (e.setWorkflowStatus snap.db.workflow.lockVersion .cancelled)).deleteLeases
        (fun _ => true)
    else e

/-! ## Solicitation -/

/-- When an approval opens; `none` is an instant that is no date. -/
def computeSolicitAt (host : Host) (schedule : Option Json) (taskDueAtUtc : Option Instant)
    (now : Instant) (targetTz : String) : Option Instant :=
  match schedule with
  | none => some now
  | some sch =>
    match sch.field? "mode", sch.field? "at", sch.field? "offsetIso8601", taskDueAtUtc with
    | some (.str "absolute"), some (.str at_), _, _ =>
      let own := ((sch.field? "tz").bind Json.str?).getD ""
      let tz := if own ≠ "" then own else if targetTz ≠ "" then targetTz else "UTC"
      some ((parseInstantMs host at_ tz).getD now)
    | some (.str "relative"), _, some (.str offset), some due =>
      match parseIsoDuration offset with
      | none => some now
      | some dur =>
        if sch.field? "direction" = some (.str "after") then host.add none due dur
        else host.sub none due dur
    | _, _, _, _ => some now

/-- Every dependency edge of a task is satisfied, on the rows loaded. -/
def depsSatisfied (deps : List DependencyRow) (tasks : List TaskRow) (taskId : RowId) : Bool :=
  (deps.filter (fun d => d.taskId = taskId)).all (fun d =>
    resolveDependency ((statusById tasks d.dependsOnTaskId).getD .idle) d.outcome = .satisfied)

/-- The task of an approval that opens now. -/
def opens (host : Host) (now : Instant) (snap : Engine) (ap : ApprovalRow) : Option TaskRow :=
  if ap.status ≠ .pending ∨ ap.solicitedAt.isSome then none
  else match taskById snap.db.tasks ap.taskId with
  | none => none
  | some task =>
    if !depsSatisfied snap.db.deps snap.db.tasks task.id then none
    else
      let solicitAt := computeSolicitAt host ap.solicitationSchedule task.dueAtUtc now
        (snap.db.workflow.targetTz.getD "UTC")
      if solicitAt.any (fun at_ => now < at_) then none else some task

def solicitApproval (host : Host) (now : Instant) (snap cur : Engine) (ap : ApprovalRow) :
    Engine :=
  match opens host now snap ap with
  | none => cur
  | some task =>
    let pendingRow := fun (a : ApprovalRow) => a.id = ap.id && a.status = .pending
    if cur.db.approvals.any pendingRow then
      let packet := packetOf host snap.db.deps snap.db.tasks task ap
      let e := cur.updateApprovals pendingRow (fun a =>
        { a with solicitedAt := some now, reviewPacketHash := some (packet.hash host),
                 invalidatedAt := none, updatedAt := cur.clock })
      { e with solicited := e.solicited ++ [⟨ap.id, packet⟩] }
    else cur

def solicitApprovals (host : Host) (now : Instant) (snap cur : Engine) : Engine :=
  if snap.db.workflow.status ≠ .active then cur
  else snap.db.approvals.foldl (solicitApproval host now snap) cur

inductive ApprovalDecision where
  | approved | rejected
deriving DecidableEq

/-- The status a decision persists; `rp` is the rejection policy it has read. -/
def decisionStatus (decision : ApprovalDecision) (rp : Option RejectionPolicy) :
    ApprovalStatus :=
  match decision with
  | .approved => .granted
  | .rejected => if rp.getD .needsRevision = .needsRevision then .needsRevision else .rejected

/-- An approval open for decision. -/
def decidable (approvalId : RowId) (a : ApprovalRow) : Bool :=
  a.id = approvalId && a.status = .pending && a.invalidatedAt.isNone && a.solicitedAt.isSome

/-- `decideWorkflowApproval`: `rp` was read before the lock was taken. -/
def decideWorkflowApproval (approvalId : RowId) (decidedBy : String)
    (decision : ApprovalDecision) (rp : Option RejectionPolicy) (reason : Option String)
    (cur : Engine) : Engine :=
  cur.updateApprovals (decidable approvalId) (fun a =>
    { a with status := decisionStatus decision rp, decidedBy := some decidedBy,
             decidedAt := some cur.clock, reason := reason, updatedAt := cur.clock })

/-! ## What the passes keep -/

section Passes

variable {host : Host} {now : Instant} {snap cur : Engine} {motive : Engine → Prop}

theorem invalidateStaleApprovals_rec (hcur : motive cur)
    (hwrite : ∀ m p current, motive m → motive (m.updateApprovals p (fun a =>
      { a with status := .pending, solicitedAt := none, invalidatedAt := some now,
               reviewPacketHash := some current, updatedAt := m.clock }))) :
    motive (invalidateStaleApprovals host now snap cur) := by
  rw [invalidateStaleApprovals]
  split
  · exact hcur
  refine List.foldlRecOn snap.db.approvals (invalidateApproval host now snap) hcur ?_
  intro m hm ap _
  rw [invalidateApproval]
  split
  · exact hm
  · exact hwrite _ _ _ hm

theorem solicitApprovals_rec (hcur : motive cur)
    (hwrite : ∀ m p hash s, motive m → motive { m.updateApprovals p (fun a =>
        { a with solicitedAt := some now, reviewPacketHash := some hash, invalidatedAt := none,
                 updatedAt := m.clock }) with solicited := m.solicited ++ [s] }) :
    motive (solicitApprovals host now snap cur) := by
  rw [solicitApprovals]
  split
  · exact hcur
  refine List.foldlRecOn snap.db.approvals (solicitApproval host now snap) hcur ?_
  intro m hm ap _
  simp only [solicitApproval]
  split
  · exact hm
  split
  · exact hwrite _ _ _ _ hm
  · exact hm

end Passes

end WfApprovals
