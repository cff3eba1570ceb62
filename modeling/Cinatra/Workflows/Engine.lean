import Cinatra.Lib.Machine
import Cinatra.Workflows.Lifecycle
import Cinatra.Workflows.Settle
import Cinatra.Workflows.Store

/-! # Engine — every operation, and the runs of them

    An operation is one database transaction, or one lock-free statement.  Any
    number of ticks, dispatchers, users and editors interleave at this grain: the
    advisory lock keeps two locked transactions apart, and `between` holds the
    lock-free steps that land inside one.  What a process carries from one of its
    transactions to the next (a claim, a polled child run, a row read) is in the
    engine's logs, and any later step may use it. -/

namespace WfEngine

open WfTransitions WfSpec WfRows WfHost WfState WfReconciler WfSettle WfApprovals WfLifecycle
open WfForeachReconciler WfStore WfValidate

inductive Op where
  | lockFree (op : LockFree)
  | pollRead
  | pollSettle (now : Instant)
      (items : List (PolledAttempt × ChildRunStatus × List LockFree))
  | foreachPass (now : Instant) (between : List LockFree)
  | rejectedPolicies (between : List LockFree)
  | invalidate (now : Instant) (between : List LockFree)
  | claim (now : Instant) (between : List LockFree)
  | record (now : Instant)
      (results : List (ClaimedTask × ExecutorOutcome × List LockFree))
  | finalize (between : List LockFree)
  | solicit (now : Instant) (between : List LockFree)
  | cancel (between : List LockFree)
  | decide (approvalId : RowId) (decidedBy : String) (decision : ApprovalDecision)
      (rp : Option RejectionPolicy) (reason : Option String)
  | edit (input : UpdateInput) (between : List LockFree)

/-- Record one result of a claim that was handed out. -/
def recordResult (now : Instant) (e : Engine)
    (r : ClaimedTask × ExecutorOutcome × List LockFree) : Engine :=
  let cur := interfere e r.2.2
  if e.dispatched.contains r.1 then recordOutcome now e cur r.1 r.2.1 else cur

/-- `recordOutcomes`. -/
def recordOutcomes (now : Instant) (e : Engine)
    (results : List (ClaimedTask × ExecutorOutcome × List LockFree)) : Engine :=
  results.foldl (recordResult now) e

/-- Settle one child run that was polled. -/
def settleItem (now : Instant) (e : Engine)
    (r : PolledAttempt × ChildRunStatus × List LockFree) : Engine :=
  let cur := interfere e r.2.2
  if e.polled.contains r.1 then settlePolled now e cur r.1 r.2.1 else cur

/-- `pollRunningAgentTasks`, the locked half. -/
def pollSettle (now : Instant) (e : Engine)
    (items : List (PolledAttempt × ChildRunStatus × List LockFree)) : Engine :=
  if e.db.workflow.status ≠ .active then e else items.foldl (settleItem now) e

variable (host : Host)

def step (e : Engine) : Op → Engine
  | .lockFree op => lockFreeStep e op
  | .pollRead => WfSettle.pollRead e
  | .pollSettle now items => WfEngine.pollSettle now e items
  | .foreachPass now between => reconcileForeachParents host now e (interfere e between)
  | .rejectedPolicies between => applyRejectedApprovalPolicies e (interfere e between)
  | .invalidate now between => invalidateStaleApprovals host now e (interfere e between)
  | .claim now between => claimReadyTasks now e (interfere e between)
  | .record now results => recordOutcomes now e results
  | .finalize between => (finalizeWorkflow e (interfere e between)).engine
  | .solicit now between => solicitApprovals host now e (interfere e between)
  | .cancel between => cancelWorkflow e (interfere e between)
  | .decide id decidedBy decision rp reason =>
    decideWorkflowApproval id decidedBy decision rp reason e
  | .edit input between => (updateWorkflowDraftSpec host input e (interfere e between)).engine

/-- An edit's spec has passed validation. -/
def ValidInput : Op → Prop
  | .edit input _ => TemplateValid host input.spec
  | _ => True

instance (host : Host) : DecidablePred (ValidInput host)
  | .edit input _ => inferInstanceAs (Decidable (TemplateValid host input.spec))
  | .lockFree _ | .pollRead | .pollSettle _ _ | .foreachPass _ _ | .rejectedPolicies _
  | .invalidate _ _ | .claim _ _ | .record _ _ | .finalize _ | .solicit _ _ | .cancel _
  | .decide _ _ _ _ _ => isTrue trivial

/-- A run's specs have passed validation. -/
def Validated (_ : Engine) (op : Op) : Prop := ValidInput host op

/-- A workflow just created from a template-valid spec. -/
def Created (e : Engine) : Prop :=
  ∃ workflowId name spec clock, TemplateValid host spec ∧
    createWorkflowFromSpec host workflowId name spec clock = .ok e

/-- A run of the engine under a condition on its steps. -/
def ReachesUnder (ok : Engine → Op → Prop) (e : Engine) : Prop :=
  Machine.Reaches (Created host) (step host) (fun e op => Validated host e op ∧ ok e op) e

/-- A state some run of the engine reaches. -/
def Reachable (e : Engine) : Prop :=
  Machine.Reaches (Created host) (step host) (Validated host) e

/-- A run from one state on. -/
def Leads (e e' : Engine) : Prop := Machine.Leads (step host) (Validated host) e e'

/-! ## Runs to evaluate -/

/-- Execute a list of operations. -/
def run (e : Engine) (ops : List Op) : Engine := ops.foldl (step host) e

theorem leads_run (e : Engine) (ops : List Op) (h : ∀ op ∈ ops, ValidInput host op) :
    Leads host e (run host e ops) := by
  induction ops generalizing e with
  | nil => exact Machine.Leads.refl
  | cons op ops ih =>
    have hfirst : Leads host e (step host e op) :=
      Machine.Leads.next Machine.Leads.refl (h op (List.mem_cons_self ..))
    exact hfirst.trans (ih _ (fun o ho => h o (.tail _ ho)))

/-- The workflow a spec creates, at instant 0. -/
def start (spec : WorkflowSpec) : Engine :=
  match createWorkflowFromSpec host "wf" spec.name spec 0 with
  | .ok e => e
  | .error _ => emptyEngine ⟨"wf", spec.name, none, none, none, .draft, 1, 0, 0⟩ 0

/-- The transaction that creates a workflow went through. -/
def starts (spec : WorkflowSpec) : Bool :=
  match createWorkflowFromSpec host "wf" spec.name spec 0 with
  | .ok _ => true
  | .error _ => false

theorem created_start {spec : WorkflowSpec} (hvalid : TemplateValid host spec)
    (h : starts host spec = true) : Created host (start host spec) := by
  refine ⟨"wf", spec.name, spec, 0, hvalid, ?_⟩
  rw [starts] at h
  rw [start]
  cases hc : createWorkflowFromSpec host "wf" spec.name spec 0 with
  | ok e => rfl
  | error err =>
    rw [hc] at h
    cases h

theorem reachable_run (spec : WorkflowSpec) (ops : List Op)
    (hvalid : TemplateValid host spec) (h : starts host spec = true)
    (hops : ∀ op ∈ ops, ValidInput host op) : Reachable host (run host (start host spec) ops) :=
  ⟨_, created_start host hvalid h, leads_run host _ ops hops⟩

end WfEngine
