import Cinatra.Lib.Pool
import Cinatra.Lib.CodeUnits
import Cinatra.Lib.Json
import Cinatra.Lib.Process
import Cinatra.Lib.Table

/-! # RunStore — agent runs, their status, and the statements that write it

    A run's status is a column of `agent_runs`.  `transitionRunStatus` is the way
    to change it: a compare-and-swap along the table of legal transitions, and,
    where the new status is final or comes with other columns, a second write by
    the run's id alone.  A setup approval has a compare-and-swap of its own, and a
    bulk stop reads, chooses, and writes by id.  Each is a program of single
    statements, so that they can take turns. -/

namespace AgentRuns

open Process JsonValue RowTable

inductive AgentRunStatus where
  | queued | running | completed | failed | pendingApproval | pendingInput | stopped
  | armed | pendingTrigger | waitingTrigger
deriving DecidableEq

def AgentRunStatus.text : AgentRunStatus → String
  | .queued => "queued"
  | .running => "running"
  | .completed => "completed"
  | .failed => "failed"
  | .pendingApproval => "pending_approval"
  | .pendingInput => "pending_input"
  | .stopped => "stopped"
  | .armed => "armed"
  | .pendingTrigger => "pending_trigger"
  | .waitingTrigger => "waiting_trigger"

/-- `TERMINAL_RUN_STATUSES`. -/
def terminalRunStatuses : List AgentRunStatus := [.completed, .failed, .stopped]

/-- `LEGAL_TRANSITIONS`. -/
def legalTransitions : List (AgentRunStatus × AgentRunStatus) :=
  [(.pendingInput, .queued), (.queued, .pendingInput), (.queued, .pendingApproval),
    (.queued, .running), (.pendingApproval, .running), (.running, .pendingApproval),
    (.running, .completed), (.running, .failed), (.running, .stopped), (.queued, .failed),
    (.pendingApproval, .completed), (.pendingApproval, .failed), (.pendingInput, .failed),
    (.failed, .pendingInput), (.stopped, .queued), (.queued, .stopped),
    (.pendingApproval, .stopped), (.pendingInput, .stopped), (.pendingInput, .armed),
    (.armed, .queued), (.armed, .stopped), (.armed, .failed), (.armed, .pendingInput),
    (.pendingInput, .pendingTrigger), (.pendingTrigger, .pendingInput),
    (.pendingTrigger, .armed), (.running, .waitingTrigger), (.waitingTrigger, .running),
    (.waitingTrigger, .stopped), (.waitingTrigger, .failed)]

/-- A row of `agent_runs`; an instant is in milliseconds.  Columns that nothing here
    reads or writes are left out. -/
structure AgentRun where
  id : String
  templateId : String
  versionId : Option String := none
  runBy : Option String := none
  orgId : String
  status : AgentRunStatus
  inputParams : List (String × Json) := []
  stepResults : Option (List Json) := none
  error : Option String := none
  startedAt : Option Int := none
  completedAt : Option Int := none
deriving DecidableEq

/-- What a transition may write beside the status. -/
structure RunMeta where
  error : Option String := none
  startedAt : Option Int := none
  completedAt : Option Int := none
  stepResults : Option (List Json) := none
deriving DecidableEq

structure AgentTemplate where
  id : String
  name : String
  packageName : Option String := none
  /-- the keys of `inputSchema.properties`, where it has any -/
  inputProperties : Option (List String) := none
deriving DecidableEq

inductive TriggerType where
  | immediate | scheduled | recurring
deriving DecidableEq

/-- A row of `agent_run_triggers`. -/
structure TriggerRecord where
  runId : String
  triggerType : TriggerType
  scheduledAt : Option Int := none
  cronExpression : Option String := none
  timezone : String := "UTC"
  enabled : Bool := true
  releasedAt : Option Int := none
  jobSchedulerId : Option String := none
deriving DecidableEq

inductive JobState where
  | pending | started | finished
deriving DecidableEq

/-- An execution job; one that has finished is retained for a while. -/
structure Job where
  id : String
  runId : String
  state : JobState := .pending
deriving DecidableEq

/-- Database, gate flags and queue. -/
structure World where
  runs : List AgentRun
  templates : List AgentTemplate := []
  /-- the versions of a template, newest first: template and version -/
  versions : List (String × String) := []
  triggers : List TriggerRecord := []
  released : List String := []
  schedulers : List String := []
  jobs : List Job := []
deriving DecidableEq

/-- The status of a run. -/
def World.status (w : World) (id : String) : Option AgentRunStatus :=
  (w.runs.find? (fun r => r.id = id)).map AgentRun.status

/-! ## Statements -/

inductive RunCall where
  | readAgentRunById (id : String)
  | readAgentTemplateById (id : String)
  | readLatestAgentVersionId (templateId : String)
  | casStatus (id : String) (expected next : AgentRunStatus)
  | writeStatus (id : String) (status : AgentRunStatus) (completedAt : Option Int)
      (patch : RunMeta)
  | selectByIds (ids : List String)
  | selectByTemplate (templateId : String) (statuses : List AgentRunStatus)
  | stopByIds (ids : List String) (now : Int)
  | approveSetup (id : String) (merge : List (String × Json))
  | readRunTriggerByRunId (runId : String)
  | upsertRunTrigger (trigger : TriggerRecord)
  | removeJobScheduler (id : String)
  | setReleasedFlag (runId : String)
  | markTriggerReleasedInDb (runId : String) (now : Int)
  | insertRun (run : AgentRun)
  | addJob (id runId : String)
deriving DecidableEq

abbrev RunCall.Reply : RunCall → Type
  | .readAgentRunById _ => Option AgentRun
  | .readAgentTemplateById _ => Option AgentTemplate
  | .readLatestAgentVersionId _ => Option String
  | .casStatus _ _ _ => Bool
  | .selectByIds _ | .selectByTemplate _ _ => List (String × AgentRunStatus)
  | .approveSetup _ _ => Nat
  | .readRunTriggerByRunId _ => Option TriggerRecord
  | _ => Unit

/-- `RunTransitionError`, and what anything else throws. -/
inductive RunError where
  | illegalTransition (runId : String) (source target : AgentRunStatus)
  | staleFromStatus (runId : String) (source target : AgentRunStatus)
  | thrown (message : String)

instance : Inhabited RunError := ⟨.thrown ""⟩

/-- A stale status is no error. -/
def unlessStale : RunError → Except RunError Bool
  | .staleFromStatus _ _ _ => .ok false
  | err => .error err

abbrev RunProg := Prog RunCall RunCall.Reply RunError

/-- `a || b` of two JSON objects. -/
def mergeFields (a b : List (String × Json)) : List (String × Json) :=
  a.filter (fun f => !(b.map Prod.fst).contains f.1) ++ b

/-- `updates` of `updateAgentRunStatus`, on one row. -/
def AgentRun.patched (r : AgentRun) (status : AgentRunStatus) (completedAt : Option Int)
    (patch : RunMeta) : AgentRun :=
  { r with
    status := status
    completedAt := completedAt.or r.completedAt
    stepResults := patch.stepResults.or r.stepResults
    error := patch.error.or r.error
    startedAt := patch.startedAt.or r.startedAt }

/-- `UPDATE agent_runs SET f WHERE p`. -/
def World.updateRuns (w : World) (p : AgentRun → Bool) (f : AgentRun → AgentRun) : World :=
  { w with runs := updateWhere p f w.runs }

/-- A configuration update leaves `releasedAt`. -/
def upsertTrigger (trigger : TriggerRecord) (rows : List TriggerRecord) : List TriggerRecord :=
  if rows.any (fun t => t.runId = trigger.runId) then
    updateWhere (fun t => t.runId = trigger.runId)
      (fun t => { trigger with releasedAt := t.releasedAt }) rows
  else rows ++ [{ trigger with releasedAt := none }]

def markReleased (runId : String) (now : Int) (rows : List TriggerRecord) : List TriggerRecord :=
  updateWhere (fun t => t.runId = runId) (fun t => { t with releasedAt := some now }) rows

/-- A job whose id is in the queue already is not added again. -/
def addJob (id runId : String) (jobs : List Job) : List Job :=
  if jobs.any (fun j => j.id = id) then jobs else jobs ++ [{ id := id, runId := runId }]

/-- What a statement replies, and the world it leaves. -/
def serve (w : World) : (c : RunCall) → c.Reply × World
  | .readAgentRunById id => (w.runs.find? (fun r => r.id = id), w)
  | .readAgentTemplateById id => (w.templates.find? (fun t => t.id = id), w)
  | .readLatestAgentVersionId templateId =>
    ((w.versions.find? (fun v => v.1 = templateId)).map Prod.snd, w)
  | .casStatus id expected next =>
    ((w.runs.filter (fun r => r.id = id && r.status = expected)).length = 1,
      w.updateRuns (fun r => r.id = id && r.status = expected)
        (fun r => { r with status := next }))
  | .writeStatus id status completedAt patch =>
    ((), w.updateRuns (fun r => r.id = id) (fun r => r.patched status completedAt patch))
  | .selectByIds ids =>
    ((w.runs.filter (fun r => ids.contains r.id)).map (fun r => (r.id, r.status)), w)
  | .selectByTemplate templateId statuses =>
    ((w.runs.filter (fun r => r.templateId = templateId && statuses.contains r.status)).map
      (fun r => (r.id, r.status)), w)
  | .stopByIds ids now =>
    ((), w.updateRuns (fun r => ids.contains r.id)
      (fun r => { r with status := .stopped, completedAt := some now }))
  | .approveSetup id merge =>
    ((w.runs.filter (fun r => r.id = id && r.status = .pendingApproval)).length,
      w.updateRuns (fun r => r.id = id && r.status = .pendingApproval)
        (fun r => { r with status := .queued, inputParams := mergeFields r.inputParams merge }))
  | .readRunTriggerByRunId runId => (w.triggers.find? (fun t => t.runId = runId), w)
  | .upsertRunTrigger trigger => ((), { w with triggers := upsertTrigger trigger w.triggers })
  | .removeJobScheduler id =>
    ((), { w with schedulers := w.schedulers.filter (fun s => s ≠ id) })
  | .setReleasedFlag runId => ((), { w with released := w.released.insert runId })
  | .markTriggerReleasedInDb runId now =>
    ((), { w with triggers := markReleased runId now w.triggers })
  | .insertRun run => ((), { w with runs := w.runs ++ [run] })
  | .addJob id runId => ((), { w with jobs := AgentRuns.addJob id runId w.jobs })

def updateAgentRunStatusConditional (id : String) (expectedStatus nextStatus : AgentRunStatus) :
    RunProg Bool :=
  perform (RunCall.casStatus id expectedStatus nextStatus)

/-- `now` is the clock; the status is written by the run's id alone. -/
def updateAgentRunStatus (now : Int) (id : String) (status : AgentRunStatus)
    (patch : Option RunMeta) : RunProg Unit :=
  perform (RunCall.writeStatus id status
    (if terminalRunStatuses.contains status then some now else none) (patch.getD {}))

section Transition

variable {C : Type} {R : C → Type} {S : C → Prop}

/-- A transition by a compare-and-swap, and a second write where the new status is final or
    comes with other columns. -/
def transition (runId : String) (source target : AgentRunStatus) (withMeta : Bool)
    (cas : Prog C R RunError Bool) (write : Prog C R RunError Unit) : Prog C R RunError Unit := do
  if !legalTransitions.contains (source, target) then
    throwErr (.illegalTransition runId source target)
  else
    let won ← cas
    if !won then throwErr (.staleFromStatus runId source target)
    else if withMeta || terminalRunStatuses.contains target then write
    else pure ()

theorem transition_only {runId : String} {source target : AgentRunStatus} {withMeta : Bool}
    {cas : Prog C R RunError Bool} {write : Prog C R RunError Unit}
    (hcas : (source, target) ∈ legalTransitions → Only S cas) (hwrite : Only S write) :
    Only S (transition runId source target withMeta cas write) := by
  rw [transition]
  split
  · exact only_throwErr _
  rename_i hlegal
  rw [Bool.not_eq_true', Bool.not_eq_false, List.contains_iff_mem] at hlegal
  refine Only.bind (hcas hlegal) fun won => ?_
  split
  · exact only_throwErr _
  · split
    · exact hwrite
    · exact only_pure _

end Transition

def transitionRunStatus (now : Int) (runId : String) (source target : AgentRunStatus)
    (runMeta : Option RunMeta) : RunProg Unit :=
  transition runId source target runMeta.isSome
    (updateAgentRunStatusConditional runId source target)
    (updateAgentRunStatus now runId target runMeta)

/-! ## Bulk stop -/

structure BulkStopResult where
  stopped : Nat
  alreadyTerminal : Nat
  total : Nat

/-- The statuses a bulk stop takes to be active. -/
def activeStatuses : List AgentRunStatus := [.queued, .running, .pendingApproval, .pendingInput]

/-- The rows of a selection that are to be stopped. -/
def toStop (rows : List (String × AgentRunStatus)) : List String :=
  (rows.filter (fun r => activeStatuses.contains r.2)).map Prod.fst

def bulkStopResult (rows : List (String × AgentRunStatus)) : BulkStopResult where
  stopped := (toStop rows).length
  alreadyTerminal := rows.length - (toStop rows).length
  total := rows.length

def bulkStopAgentRuns (now : Int) (runIds : List String) : RunProg BulkStopResult := do
  if runIds.isEmpty then pure { stopped := 0, alreadyTerminal := 0, total := 0 }
  else
    let rows : List (String × AgentRunStatus) ← perform (RunCall.selectByIds runIds)
    if (toStop rows).isEmpty then pure (bulkStopResult rows)
    else
      let _ ← perform (RunCall.stopByIds (toStop rows) now)
      pure (bulkStopResult rows)

def bulkStopAgentRunsByTemplate (now : Int) (templateId : String) : RunProg BulkStopResult := do
  let rows : List (String × AgentRunStatus) ←
    perform (RunCall.selectByTemplate templateId activeStatuses)
  if rows.isEmpty then pure { stopped := 0, alreadyTerminal := 0, total := 0 }
  else
    let _ ← perform (RunCall.stopByIds (rows.map Prod.fst) now)
    pure { stopped := rows.length, alreadyTerminal := 0, total := rows.length }

/-! ## Setup approval -/

/-- `s.length`. -/
def jsLength (cs : List Char) : Nat := (cs.flatMap CodeUnits.utf16).length

def payloadLimit : Nat := 65536

/-- `values[fieldName]` where `fieldName in values`; what a value has from its
    prototype cannot be serialised, and is refused too. -/
def ownValue (fieldName : String) : Json → Option Json
  | .obj fields => (Json.obj fields).field? fieldName
  | .arr xs =>
    if fieldName = "length" then some (.num (JsNumber.ofNat xs.length))
    else if isIndexName fieldName then xs[fieldName.toNat!]?
    else none
  | _ => none

/-- The values an approval merges into the run's input, or why it is refused. -/
def setupMerge (fieldName : Option String) (allowedKeys : Option (List String)) :
    Option Json → Except RunError (List (String × Json))
  | none => .ok []
  | some values =>
    match fieldName with
    | some name =>
      match ownValue name values with
      | none => .error (.thrown ("Setup approval rejected: fieldName \"" ++ name ++
          "\" is not present in the submitted values"))
      | some value =>
        if jsLength (print value) > payloadLimit then
          .error (.thrown ("[approveReviewTaskInternal] values payload too large (" ++
            toString (jsLength (print value)) ++ " bytes)"))
        else .ok [(name, value)]
    | none =>
      match values with
      | .obj fields =>
        let unknownKeys := (fields.map Prod.fst).filter
          (fun k => !(allowedKeys.all (fun keys => keys.contains k)))
        if jsLength (print values) > payloadLimit then
          .error (.thrown ("[approveReviewTaskInternal] values payload too large (" ++
            toString (jsLength (print values)) ++ " bytes)"))
        else if unknownKeys ≠ [] then
          .error (.thrown ("Setup approval rejected: values contain keys not declared in " ++
            "inputSchema: " ++ ", ".intercalate unknownKeys))
        else .ok fields
      | _ => .ok []

/-- Only values submitted as one form are checked against the template. -/
def readSetupTemplate (run : AgentRun) (values : Option Json) (fieldName : Option String) :
    RunProg (Option AgentTemplate) :=
  match values with
  | some (.obj _) =>
    if fieldName = none then perform (RunCall.readAgentTemplateById run.templateId)
    else pure none
  | _ => pure none

/-- Merge and status in one compare-and-swap; then the job that resumes the run. -/
def commitApproval (runId : String) (merge : List (String × Json)) : RunProg Unit := do
  let updated : Nat ← perform (RunCall.approveSetup runId merge)
  if updated ≠ 1 then
    throwErr (.thrown ("Setup approval rejected: run " ++ runId ++
      " left pending_approval before the approval committed (concurrent transition)"))
  else perform (RunCall.addJob ("resume-setup-" ++ runId) runId)

/-- The setup path of `approveReviewTaskInternal`, for the task `setup-{runId}`. -/
def approveSetupTask (runId : String) (values : Option Json) (fieldName : Option String) :
    RunProg Unit := do
  let found : Option AgentRun ← perform (RunCall.readAgentRunById runId)
  match found with
  | none => throwErr (.thrown ("[approveReviewTaskInternal] run " ++ runId ++
      " not found (setup path)"))
  | some run =>
    if run.status ≠ .pendingApproval then
      throwErr (.thrown ("Setup approval rejected: run " ++ runId ++
        " is not pending_approval (current status: " ++ run.status.text ++ ")"))
    else
      let template ← readSetupTemplate run values fieldName
      let merge ← lift
        (setupMerge fieldName (template.bind AgentTemplate.inputProperties) values)
      commitApproval runId merge

end AgentRuns
