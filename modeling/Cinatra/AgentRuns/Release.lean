import Cinatra.AgentRuns.RunStore

/-! # Release — a run is put in the queue

    The release job opens a run's gate when its trigger is due: it moves the run
    from `armed` to `queued` and then adds the execution job; a recurring trigger
    makes a new run on every tick and dispatches that.  A user's click moves a run
    from `pending_input` to `queued`, adds the job, and takes the move back where
    the queue throws.  In each the status is committed before the job is added. -/

namespace AgentRuns

open Process JsonValue

/-- `now` is the clock. -/
def markTriggerReleased (now : Int) (runId : String) : RunProg Unit := do
  perform (RunCall.setReleasedFlag runId)
  perform (RunCall.markTriggerReleasedInDb runId now)

/-- Move a run, or learn that it was elsewhere. -/
def tryTransition (now : Int) (runId : String) (source target : AgentRunStatus) : RunProg Bool :=
  tryCatch (do transitionRunStatus now runId source target none; pure true)
    (fun err => lift (unlessStale err))

/-- What the compare-and-swap of a transition replies. -/
def casReply : Except RunError Bool → Except RunError Bool
  | .ok won => .ok won
  | .error err => unlessStale err

/-- A transition to a status that is not final is one statement. -/
theorem tryTransition_eq {now : Int} {runId : String} {source target : AgentRunStatus}
    (hlegal : legalTransitions.contains (source, target) = true)
    (hlive : terminalRunStatuses.contains target = false) : tryTransition now runId source target =
      .call (.casStatus runId source target) (fun reply => .done (casReply reply)) := by
  rw [tryTransition, transitionRunStatus, transition, hlegal]
  refine congrArg (Prog.call _) (funext fun reply => ?_)
  cases reply with
  | error err => rfl
  | ok won =>
    cases won with
    | false => rfl
    | true =>
      simp only [hlive]
      rfl

section Queue

variable {jobId runId : String} {jobs : List Job} {j : Job}

theorem mem_addJob (hj : j ∈ addJob jobId runId jobs) :
    j ∈ jobs ∨ j = { id := jobId, runId := runId } := by
  rw [addJob] at hj
  split at hj
  · exact .inl hj
  · rw [List.mem_append, List.mem_singleton] at hj
    exact hj

theorem mem_addJob_of_mem (hj : j ∈ jobs) : j ∈ addJob jobId runId jobs := by
  rw [addJob]
  split
  · exact hj
  · exact List.mem_append_left _ hj

theorem addJob_of_absent (h : ∀ j ∈ jobs, j.id ≠ jobId) :
    addJob jobId runId jobs = jobs ++ [{ id := jobId, runId := runId }] := by
  rw [addJob, if_neg]
  rw [List.any_eq_true]
  rintro ⟨j, hj, hid⟩
  exact h j hj (of_decide_eq_true hid)

end Queue

/-! ## The release job -/

/-- `newId` is the UUID minted for the run. -/
def createAgentRunPendingInput (newId templateId : String) (runBy : Option String)
    (orgId : String) (inputParams : List (String × Json)) : RunProg AgentRun := do
  let versionId : Option String ← perform (RunCall.readLatestAgentVersionId templateId)
  perform (RunCall.insertRun
    { id := newId, templateId := templateId, versionId := versionId, runBy := runBy,
      orgId := orgId, status := .pendingInput, inputParams := inputParams })
  let created : Option AgentRun ← perform (RunCall.readAgentRunById newId)
  match created with
  | none => throwErr (.thrown ("Failed to create pending_input agent run: " ++ newId))
  | some run => pure run

def executionJobId (runId : String) : String := "agent-builder-" ++ runId

/-- The trigger of a tick's run: its gate opens when it starts. -/
def immediateTrigger (timezone runId : String) : TriggerRecord where
  runId := runId
  triggerType := .immediate
  timezone := timezone
  enabled := true
  jobSchedulerId := none

/-- Arm the tick's run, release it, move it to the queue and dispatch it. -/
def dispatchTick (now : Int) (timezone runId : String) : RunProg Unit := do
  perform (RunCall.upsertRunTrigger (immediateTrigger timezone runId))
  markTriggerReleased now runId
  let _ ← tryTransition now runId .pendingInput .queued
  perform (RunCall.addJob (executionJobId runId) runId)

/-- A tick of a recurring trigger clones the run that defines the schedule. -/
def releaseRecurring (now : Int) (newId runId : String) (trigger : TriggerRecord) :
    RunProg Unit := do
  let sourceRun : Option AgentRun ← perform (RunCall.readAgentRunById runId)
  match sourceRun with
  | none => pure ()
  | some sourceRun =>
    if sourceRun.orgId = "" then pure ()
    else
      let newRun ← createAgentRunPendingInput newId sourceRun.templateId sourceRun.runBy
        sourceRun.orgId sourceRun.inputParams
      dispatchTick now trigger.timezone newRun.id

def releaseScheduled (now : Int) (runId : String) : RunProg Unit := do
  markTriggerReleased now runId
  let moved ← tryTransition now runId .armed .queued
  if !moved then pure ()
  else perform (RunCall.addJob (executionJobId runId) runId)

def unschedule (trigger : TriggerRecord) : RunProg Unit :=
  match trigger.triggerType, trigger.jobSchedulerId with
  | .recurring, some id => if id = "" then pure () else perform (RunCall.removeJobScheduler id)
  | _, _ => pure ()

def runAgentRunTriggerReleaseJob (now : Int) (newId runId : String) : RunProg Unit := do
  let trigger : Option TriggerRecord ← perform (RunCall.readRunTriggerByRunId runId)
  match trigger with
  | none => pure ()
  | some trigger =>
    if !trigger.enabled then unschedule trigger
    else if trigger.triggerType = .recurring then releaseRecurring now newId runId trigger
    else releaseScheduled now runId

/-! ## A user's click -/

/-- `s.toLowerCase()`, as far as the letters `a` to `z` are concerned. -/
def lowerCase (c : Char) : List Char :=
  if c = '\u212a' then ['k'] else if c = '\u0130' then ['i', '\u0307'] else [c.toLower]

def isSlugChar (c : Char) : Bool := ('a' ≤ c && c ≤ 'z') || c.isDigit

/-- Runs of other characters become one dash. -/
def dashRuns : List Char → List Char
  | [] => []
  | c :: cs =>
    if isSlugChar c then c :: dashRuns cs
    else if (dashRuns cs).head? = some '-' then dashRuns cs
    else '-' :: dashRuns cs

def slugifyAgentTemplateName (value : String) : String :=
  let dashed := dashRuns (value.toList.flatMap lowerCase)
  String.ofList ((dashed.dropWhile (· = '-')).reverse.dropWhile (· = '-')).reverse

/-- `packageName` without its `@`. -/
def normalizedPackage (template : AgentTemplate) : String :=
  match template.packageName with
  | none => ""
  | some name => if name.startsWith "@" then (name.drop 1).toString else name

def matchesSlug (template : AgentTemplate) (templateSlug : String) : Bool :=
  template.id = templateSlug || slugifyAgentTemplateName template.name = templateSlug ||
    normalizedPackage template = templateSlug

/-- The job is added; where that throws, the move is taken back if it still can be. -/
def enqueueTriggered (now : Int) (runId : String) : RunProg (Except String Unit) :=
  tryCatch
    (do perform (RunCall.addJob runId runId)
        pure (.ok ()))
    (fun _ => do
      swallow (transitionRunStatus now runId .queued .pendingInput none)
      pure (.error "enqueue failed"))

/-- `userId` is the session's user, if there is a session. -/
def triggerAgentRun (now : Int) (userId : Option String) (runId templateSlug : String) :
    RunProg (Except String Unit) :=
  match userId with
  | none => pure (.error "unauthorized")
  | some userId => do
    let found : Option AgentRun ← perform (RunCall.readAgentRunById runId)
    match found with
    | none => pure (.error "run not found")
    | some run =>
      if run.runBy.any (fun owner => owner ≠ "" && owner ≠ userId) then
        pure (.error "forbidden")
      else if run.status ≠ .pendingInput then
        pure (.error "run is not in pending_input state")
      else
        let template : Option AgentTemplate ←
          perform (RunCall.readAgentTemplateById run.templateId)
        if !template.any (fun t => matchesSlug t templateSlug) then
          pure (.error "template mismatch")
        else
          let moved ← tryTransition now runId .pendingInput .queued
          if !moved then pure (.error "run is not in pending_input state")
          else enqueueTriggered now runId

end AgentRuns
