import Cinatra.Workflows.Rows

/-! # Gates — timing, dependency and approval

    The three gates of a task, each evaluated on its own, and the effective state
    derived from the ledger.  The texts that explain a gate to a reader (`reason`,
    `details`) are left out: nothing but the ledger's display reads them. -/

namespace WfGates

open WfTransitions WfSpec WfRows

inductive GateKind where
  | timing | dependency | approval
deriving DecidableEq

inductive GateState where
  | pending | passed | blocked | notRequired
deriving DecidableEq

structure GateEntry where
  kind : GateKind
  state : GateState
  blockerRefs : List (String ⊕ RowId) := []

inductive EffectiveGateState where
  | dispatchable | scheduled | pendingApproval | blocked
deriving DecidableEq

/-! ## Dependency edges -/

inductive DepResolution where
  | satisfied | blocked | pending
deriving DecidableEq

/-- What one edge makes of its upstream's status. -/
def resolveDependency (upstreamStatus : TaskStatus) (outcome : DependencyOutcome) :
    DepResolution :=
  match outcome with
  | .success =>
    match upstreamStatus with
    | .succeeded => .satisfied
    | .failed | .skipped | .cancelled => .blocked
    | _ => .pending
  | .skipped =>
    match upstreamStatus with
    | .succeeded | .skipped => .satisfied
    | .failed | .cancelled => .blocked
    | _ => .pending
  | .failed =>
    match upstreamStatus with
    | .failed => .satisfied
    | .succeeded | .skipped | .cancelled => .blocked
    | _ => .pending

theorem resolveDependency_pending_iff (s : TaskStatus) (o : DependencyOutcome) :
    resolveDependency s o = .pending ↔ isTerminalTaskStatus s = false := by
  cases s <;> cases o <;> decide

structure DependencyEdge where
  dependsOnTaskId : RowId
  dependsOnKey : Option String
  outcome : DependencyOutcome

structure TaskGateContext where
  dueAtUtc : Option Instant
  now : Instant
  dependencies : List DependencyEdge
  depStatusById : RowId → Option TaskStatus
  hasApproval : Bool
  approvalStatus : Option ApprovalStatus

/-- The resolution of an edge against the statuses known; an unknown upstream
    counts as `idle`. -/
def TaskGateContext.resolve (ctx : TaskGateContext) (dep : DependencyEdge) : DepResolution :=
  resolveDependency ((ctx.depStatusById dep.dependsOnTaskId).getD .idle) dep.outcome

/-- How an edge is named in a blocker list: by key, else by id. -/
def DependencyEdge.ref (dep : DependencyEdge) : String ⊕ RowId :=
  match dep.dependsOnKey with
  | some key => .inl key
  | none => .inr dep.dependsOnTaskId

def timingGate (ctx : TaskGateContext) : GateEntry :=
  match ctx.dueAtUtc with
  | none => { kind := .timing, state := .passed }
  | some due => { kind := .timing, state := if due ≤ ctx.now then .passed else .pending }

def dependencyGate (ctx : TaskGateContext) : GateEntry :=
  let blockers := ctx.dependencies.filter (fun d => ctx.resolve d = .blocked)
  let pending := ctx.dependencies.filter (fun d => ctx.resolve d = .pending)
  if blockers ≠ [] then
    { kind := .dependency, state := .blocked, blockerRefs := blockers.map DependencyEdge.ref }
  else if pending ≠ [] then
    { kind := .dependency, state := .pending, blockerRefs := pending.map DependencyEdge.ref }
  else { kind := .dependency, state := .passed }

def approvalGate (ctx : TaskGateContext) : GateEntry :=
  if ctx.hasApproval then
    { kind := .approval,
      state := if ctx.approvalStatus = some .granted then .passed else .pending }
  else { kind := .approval, state := .notRequired }

def evaluateTaskGates (ctx : TaskGateContext) : List GateEntry :=
  [timingGate ctx, dependencyGate ctx, approvalGate ctx]

def gate (ledger : List GateEntry) (kind : GateKind) : Option GateEntry :=
  ledger.find? (fun g => g.kind = kind)

/-- A gate that is absent, passed or not required. -/
def passed : Option GateEntry → Bool
  | none => true
  | some g => g.state = .passed || g.state = .notRequired

def stateIs (g : Option GateEntry) (s : GateState) : Bool :=
  g.map GateEntry.state = some s

def deriveEffectiveGateState (ledger : List GateEntry) : EffectiveGateState :=
  let timing := gate ledger .timing
  let dependency := gate ledger .dependency
  let approval := gate ledger .approval
  if stateIs dependency .blocked || stateIs timing .blocked then .blocked
  else if (passed timing && passed dependency) && stateIs approval .pending then
    .pendingApproval
  else if !(passed timing && passed dependency) && passed approval && passed dependency then
    .scheduled
  else if passed timing && passed dependency && passed approval then .dispatchable
  else .blocked

end WfGates
