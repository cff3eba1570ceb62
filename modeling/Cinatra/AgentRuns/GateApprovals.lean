import Cinatra.AgentRuns.RunStore

/-! # GateApprovals — approvals of a flow's gates

    A remote flow stops at gates, each under a task id of its own, and goes on with
    every message sent into its context.  An approval names a gate's task id, finds
    the run by it, sends the response, waits for the flow to stop again, and brings
    the run up to date.  The calls of one approval are its awaits; the reply to a
    message is awaited apart from its being sent. -/

namespace AgentRuns.Gates

open Process JsonValue Machine

/-! ## The flow and the run -/

inductive FlowPhase where
  | idle | busy | paused | ended (failed : Bool)
deriving DecidableEq

/-- A remote flow: its context, the gates it has passed, and what it does. -/
structure Flow where
  context : String
  passed : Nat := 0
  phase : FlowPhase := .idle

/-- The gate that a flow is paused at. -/
def Flow.gate (gates : List String) (flow : Flow) : Option String :=
  if flow.phase = .paused then gates[flow.passed]? else none

/-- A message that was sent into the context of the flow: the gate that its sender answers,
    with which values, its text, and the gate that it met. -/
structure FlowMessage where
  answering : String
  values : Option Json
  text : String
  met : Option String
deriving DecidableEq

/-- Every message takes the flow past the gate it is paused at. -/
def Flow.take (gates : List String) (flow : Flow) : Flow :=
  if (flow.gate gates).isSome then { flow with passed := flow.passed + 1, phase := .busy } else flow

/-- The flow comes to its next gate, or to its end. -/
def Flow.reach (gates : List String) (flow : Flow) (failed : Bool) : Flow :=
  if flow.phase = .busy then
    if failed = false ∧ flow.passed < gates.length then { flow with phase := .paused }
    else { flow with phase := .ended failed }
  else flow

inductive RemoteState where
  | inputRequired | failed | completed
deriving DecidableEq

/-- The task of a reply. -/
structure WayflowTask where
  id : String
  contextId : String
  state : RemoteState

/-- The task that a flow shows once it has stopped; `done` is its id at the end. -/
def Flow.task (gates : List String) (flow : Flow) (done : String) : WayflowTask where
  id := (flow.gate gates).getD done
  contextId := flow.context
  state :=
    if flow.phase = .paused then .inputRequired
    else if flow.phase = .ended true then .failed else .completed

def Flow.stopped (flow : Flow) : Bool := flow.phase ≠ .idle ∧ flow.phase ≠ .busy

/-- The columns of the run that an approval goes by. -/
structure GateRun where
  id : String
  templateId : String
  status : AgentRunStatus
  a2aTaskId : Option String := none
  a2aContextId : Option String := none

structure GateTemplate where
  packageName : Option String
  sourceType : String
  /-- a step of its approval policy has a renderer -/
  rendersGates : Bool := true

/-- What an approval leaves for later prompts. -/
structure HitlPrompt where
  stepKey : String
  message : String
  submittedValues : Option (List (String × Json))
  schemaSnapshot : Option Json
  excluded : Bool
deriving DecidableEq

structure GateWorld where
  run : GateRun
  template : Option GateTemplate
  flow : Flow
  /-- the task ids that Redis maps to the run -/
  mapped : List String := []
  prompts : List HitlPrompt := []
  messages : List FlowMessage := []

inductive GateCall where
  | readRunByTaskId (taskId : String)
  | resolveRunId (taskId : String)
  | readRun (id : String)
  | readTemplate (id : String)
  | writeHitlPrompt (prompt : HitlPrompt)
  | connect (url : String)
  | sendMessage (contextId answering : String) (values : Option Json) (text : String)
  | startFlow
  | awaitTask
  | writeTaskId (taskId : String)
  | writeContextId (contextId : String)
  | gateIndex (taskId : String)
  | publish (event : String)
  | casStatus (source target : AgentRunStatus)
  | writeStatus (status : AgentRunStatus)
  /-- the flow goes on by itself -/
  | reach (failed : Bool)
deriving DecidableEq

abbrev GateCall.Reply : GateCall → Type
  | .readRunByTaskId _ | .readRun _ => Option GateRun
  | .resolveRunId _ => Option String
  | .readTemplate _ => Option GateTemplate
  | .awaitTask => WayflowTask
  | .casStatus _ _ => Bool
  | _ => Unit

abbrev GateProg := Prog GateCall GateCall.Reply RunError

/-- `transitionRunStatus`. -/
def transitionGateRun (runId : String) (source target : AgentRunStatus) (withMeta : Bool) :
    GateProg Unit :=
  transition runId source target withMeta (perform (GateCall.casStatus source target))
    (perform (GateCall.writeStatus target))

/-- Of a transition's errors only `stale_from_status` is swallowed; whether it was made. -/
def unlessStale (p : GateProg Unit) : GateProg Bool :=
  tryCatch (do let _ ← p; pure true) (fun error => lift (AgentRuns.unlessStale error))

/-- A column that is brought up to date where it has changed; its failure is swallowed. -/
def resync (changed : Bool) (c : GateCall) : GateProg Unit :=
  if changed then swallow (perform c) else pure ()

/-- `handleWayflowTaskState`. -/
def handleWayflowTaskState (run : GateRun) (fromStatus : AgentRunStatus) (task : WayflowTask) :
    GateProg Unit := do
  resync (run.a2aTaskId ≠ some task.id) (.writeTaskId task.id)
  resync (task.contextId ≠ "" ∧ run.a2aContextId ≠ some task.contextId)
    (.writeContextId task.contextId)
  match task.state with
  | .inputRequired => do
    -- the renderer of the gate, and with it the mapping of its task id
    swallow (do
      let template : Option GateTemplate ← perform (GateCall.readTemplate run.templateId)
      if template.any GateTemplate.rendersGates then perform (GateCall.gateIndex task.id)
      else pure ())
    perform (GateCall.publish "INTERRUPT")
    if fromStatus = .pendingApproval then pure ()
    else
      let _ ← unlessStale (transitionGateRun run.id fromStatus .pendingApproval false)
      pure ()
  | .failed => do
    swallow (perform (GateCall.publish "RUN_ERROR"))
    if fromStatus = .failed then pure ()
    else
      let _ ← unlessStale (transitionGateRun run.id fromStatus .failed true)
      pure ()
  | .completed => do
    swallow (perform (GateCall.publish "TEXT_MESSAGE"))
    if fromStatus = .completed then pure ()
    else
      let transitioned ← unlessStale (transitionGateRun run.id fromStatus .completed true)
      if transitioned then swallow (perform (GateCall.publish "RUN_FINISHED")) else pure ()

/-! ## `approveReviewTaskInternal`, for the gate of a flow -/

/-- What the language and the configuration do with texts. -/
structure GateHost where
  trim : String → String
  /-- `JSON.parse` -/
  parse : String → Option Json
  /-- the URL of a package's flow, or why there is none -/
  wayflowUrl : String → Except String String

def objectOf : Option Json → Option (List (String × Json))
  | some (.obj fields) => some fields
  | _ => none

/-- A text among the values, `userResponse` or `approvalNote`. -/
def textOf (name : String) (values : Option Json) : Option String :=
  (objectOf values).bind (fun fields => ((Json.obj fields).field? name).bind Json.str?)

/-- `typeof approvalNote === "string" ? approvalNote.trim() : ""`. -/
def trimmedNote (host : GateHost) (values : Option Json) : String :=
  ((textOf "approvalNote" values).map host.trim).getD ""

/-- A response that is not blank. -/
def userResponse (host : GateHost) (values : Option Json) : Option String :=
  (textOf "userResponse" values).filter (fun response => host.trim response ≠ "")

/-- The message: the response as it is, or the trimmed note, or a marker. -/
def resumeText (host : GateHost) (values : Option Json) : String :=
  match userResponse host values with
  | some response => response
  | none => if trimmedNote host values ≠ "" then trimmedNote host values
      else "[Approved by operator]"

/-- The values without the response, where there are any. -/
def restValues (values : Option Json) : Option (List (String × Json)) :=
  ((objectOf values).map (fun fields => fields.filter (fun f => f.1 ≠ "userResponse"))).filter
    (fun rest => rest ≠ [])

/-- The structured submission: the response parsed, or the other values. -/
def submittedValues (host : GateHost) (values : Option Json) :
    Option (List (String × Json)) :=
  match userResponse host values with
  | some response =>
    match host.parse response with
    | some parsed => objectOf (some parsed)
    | none => restValues values
  | none => restValues values

def gatePrompt (host : GateHost) (taskId : String) (values schemaSnapshot : Option Json) :
    HitlPrompt where
  stepKey := taskId
  message := trimmedNote host values
  submittedValues := submittedValues host values
  schemaSnapshot := schemaSnapshot
  excluded := trimmedNote host values = ""

/-- The run of a task id: by its column, or by what Redis has mapped it to. -/
def findRun (taskId : String) : GateProg (Option GateRun) := do
  let byTask : Option GateRun ← perform (GateCall.readRunByTaskId taskId)
  match byTask with
  | some run => pure (some run)
  | none => do
    let fallbackRunId : Option String ← perform (GateCall.resolveRunId taskId)
    match fallbackRunId with
    | some id => perform (GateCall.readRun id)
    | none => pure none

/-- Where the message goes: the checks of the template, and the URL of its flow. -/
def flowUrl (host : GateHost) (run : GateRun) : Option GateTemplate → Except RunError String
  | some template =>
    match template.packageName.filter (· ≠ "") with
    | none => .error (.thrown ("template.packageName is null for templateId=" ++ run.templateId))
    | some packageName =>
      if template.sourceType ≠ "internal" then
        .error (.thrown ("[approveReviewTaskInternal] WayFlow path requires internal template; " ++
          "got sourceType=" ++ template.sourceType ++ " for run " ++ run.id))
      else (host.wayflowUrl packageName).mapError .thrown
  | none => .error (.thrown ("template.packageName is null for templateId=" ++ run.templateId))

/-- The response is sent into the context, and the flow's next stop handled. -/
def resumeFlow (host : GateHost) (run : GateRun) (contextId taskId : String)
    (values schemaSnapshot : Option Json) : GateProg Unit := do
  let template : Option GateTemplate ← perform (GateCall.readTemplate run.templateId)
  let url ← lift (flowUrl host run template)
  swallow (perform (GateCall.writeHitlPrompt (gatePrompt host taskId values schemaSnapshot)))
  perform (GateCall.connect url)
  perform (GateCall.sendMessage contextId taskId values (resumeText host values))
  let task : WayflowTask ← perform GateCall.awaitTask
  handleWayflowTaskState run .pendingApproval task

def approveWayflowGate (host : GateHost) (taskId : String) (values schemaSnapshot : Option Json) :
    GateProg Unit := do
  let found ← findRun taskId
  match found with
  | none => throwErr (.thrown
      ("[approveReviewTaskInternal] no agent_run found for a2aTaskId=" ++ taskId))
  | some run =>
    if run.status ≠ .pendingApproval then
      throwErr (.thrown ("WayFlow approval rejected: run " ++ run.id ++
        " is not pending_approval (status: " ++ run.status.text ++ ")"))
    else
      match run.a2aContextId.filter (· ≠ "") with
      | none => throwErr (.thrown ("Run " ++ run.id ++
          " has no a2aContextId — cannot resume WayFlow task"))
      | some contextId => resumeFlow host run contextId taskId values schemaSnapshot

/-- The dispatch of a run: the flow is started, and its first stop handled. -/
def dispatchWayflow (run : GateRun) (url : String) : GateProg Unit := do
  let started ← unlessStale (transitionGateRun run.id .queued .running false)
  if started then
    swallow (perform (GateCall.publish "RUN_STARTED"))
    tryCatch
      (do perform (GateCall.connect url)
          perform GateCall.startFlow
          let task : WayflowTask ← perform GateCall.awaitTask
          handleWayflowTaskState run .running task)
      (fun _ => do
        let _ ← unlessStale (transitionGateRun run.id .running .failed true)
        pure ())
  else pure ()

/-! ## Approvals that take turns -/

/-- How a call ends: answered, failed, or carried out with the answer lost. -/
inductive GateOutcome where
  | answered | failed (error : RunError) | lost (error : RunError)

def GateWorld.setStatus (w : GateWorld) (status : AgentRunStatus) : GateWorld :=
  { w with run := { w.run with status := status } }

/-- What a call leaves. -/
def GateWorld.write (gates : List String) (w : GateWorld) : GateCall → GateWorld
  | .writeHitlPrompt prompt => { w with prompts := w.prompts ++ [prompt] }
  | .sendMessage contextId answering values text =>
    -- a message into another context starts another conversation
    if contextId = w.flow.context then
      { w with
        flow := w.flow.take gates
        messages := ⟨answering, values, text, w.flow.gate gates⟩ :: w.messages }
    else w
  | .startFlow =>
    if w.flow.phase = .idle then { w with flow := { w.flow with phase := .busy } } else w
  | .writeTaskId taskId => { w with run := { w.run with a2aTaskId := some taskId } }
  | .writeContextId contextId => { w with run := { w.run with a2aContextId := some contextId } }
  | .gateIndex taskId => { w with mapped := taskId :: w.mapped }
  | .casStatus source target => if w.run.status = source then w.setStatus target else w
  | .writeStatus status => w.setStatus status
  | .reach failed => { w with flow := w.flow.reach gates failed }
  | _ => w

/-- The run that a call reads. -/
def GateWorld.read (w : GateWorld) : GateCall → Option GateRun
  | .readRunByTaskId taskId =>
    if taskId ≠ "" ∧ w.run.a2aTaskId = some taskId then some w.run else none
  | .readRun id => if w.run.id = id then some w.run else none
  | _ => none

/-- `done` is the task id of the flow's end. -/
def GateWorld.reply (gates : List String) (done : String) (w : GateWorld) :
    (c : GateCall) → c.Reply
  | .readRunByTaskId taskId => w.read (.readRunByTaskId taskId)
  | .resolveRunId taskId => if taskId ∈ w.mapped ∧ taskId ≠ "" then some w.run.id else none
  | .readRun id => w.read (.readRun id)
  | .readTemplate _ => w.template
  | .writeHitlPrompt _ => ()
  | .connect _ => ()
  | .sendMessage _ _ _ _ => ()
  | .startFlow => ()
  | .awaitTask => w.flow.task gates done
  | .writeTaskId _ => ()
  | .writeContextId _ => ()
  | .gateIndex _ => ()
  | .publish _ => ()
  | .casStatus source _ => decide (w.run.status = source)
  | .writeStatus _ => ()
  | .reach _ => ()

/-- The reply to a message comes when the flow has stopped. -/
def remoteGates (gates : List String) (done : String) :
    Host GateCall GateCall.Reply RunError GateWorld GateOutcome where
  ready w _ c := c ≠ .awaitTask ∨ w.flow.stopped = true
  answer outcome _ c w :=
    match outcome with
    | .answered => (.ok (w.reply gates done c), w.write gates c)
    | .failed error => (.error error, w)
    | .lost error => (.error error, w.write gates c)
  leave _ w := w

/-- What an approval has seen: a run that is pending approval, and that it has sent. -/
structure ApprovalView where
  taskId : String := ""
  values : Option Json := none
  checked : Bool := false
  sent : Bool := false

/-- A read that finds the run pending approval. -/
def pendingRun : Option GateRun → Bool
  | some run => run.status = .pendingApproval
  | none => false

def ApprovalView.see (v : ApprovalView) : (c : GateCall) → Except RunError c.Reply → ApprovalView
  | .readRunByTaskId _, .ok found => { v with checked := pendingRun found }
  | .readRun _, .ok found => { v with checked := pendingRun found }
  | .sendMessage _ _ _ _, _ => { v with sent := true }
  | _, _ => v

/-- What goes on: approvals, the dispatch of the run, other transitions of it, and the flow. -/
inductive GateJob where
  | approve (taskId : String) (values schemaSnapshot : Option Json)
  | dispatch (run : GateRun) (url : String)
  | transition (runId : String) (source target : AgentRunStatus) (withMeta : Bool)
  | reach (failed : Bool)

def GateJob.task (host : GateHost) :
    GateJob → Task GateCall GateCall.Reply RunError ApprovalView
  | .approve taskId values schemaSnapshot =>
    Task.of (approveWayflowGate host taskId values schemaSnapshot)
      { taskId := taskId, values := values }
  | .dispatch run url => Task.of (dispatchWayflow run url) {}
  | .transition runId source target withMeta =>
    Task.of (transitionGateRun runId source target withMeta) {}
  | .reach failed => Task.of (perform (GateCall.reach failed)) {}

abbrev ApprovalPool := Pool GateCall GateCall.Reply RunError ApprovalView GateWorld

def approvalStep (host : GateHost) (gates : List String) (done : String) :
    ApprovalPool → Event GateJob GateOutcome → ApprovalPool :=
  step (remoteGates gates done) ApprovalView.see (GateJob.task host)

/-- No gate has been answered, and nothing goes on. -/
structure Unanswered (gates : List String) (s : ApprovalPool) : Prop where
  passed : s.world.flow.passed = 0
  paused : s.world.flow.phase = .paused → gates ≠ []
  messages : s.world.messages = []
  tasks : s.tasks = fun _ => none

/-- **A gate's approval answers that gate, once**: every message meets the gate that its sender
    answers, with the response submitted for it, and no two messages answer one gate. -/
structure AnswersGates (host : GateHost) (s : ApprovalPool) : Prop where
  met : ∀ m ∈ s.world.messages, m.met = some m.answering ∧ m.text = resumeText host m.values
  once : (s.world.messages.map FlowMessage.answering).Nodup

/-- Between its check and its message. -/
def ApprovalView.Committed (v : ApprovalView) : Prop := v.checked = true ∧ v.sent = false

/-- An approval that finds the run pending approval names the gate that the flow is paused at,
    and no other approval is between its check and its message. -/
def Timely (gates : List String) (s : ApprovalPool) : Event GateJob GateOutcome → Prop
  | .turn i _ => ∀ c v, NextCall s i c v → pendingRun (s.world.read c) = true →
      s.world.flow.gate gates = some v.taskId ∧
        ∀ j u, s.views j = some u → j ≠ i → ¬ u.Committed
  | _ => True

/-! ## One approval -/

/-- Neither a read of the run nor a message. -/
def GateCall.quiet : GateCall → Bool
  | .readRunByTaskId _ => false
  | .readRun _ => false
  | .sendMessage _ _ _ _ => false
  | _ => true

/-- An approval reads the run until it has found it pending, and then sends once, what its
    values say. -/
def ApprovalView.May (host : GateHost) (v : ApprovalView) : GateCall → Prop
  | .readRunByTaskId _ => v.checked = false ∧ v.sent = false
  | .readRun _ => v.checked = false ∧ v.sent = false
  | .sendMessage _ answering values text => v.Committed ∧ answering = v.taskId ∧
      values = v.values ∧ text = resumeText host v.values
  | _ => True

variable {host : GateHost} {v : ApprovalView} {c : GateCall}

theorem may_quiet (h : c.quiet = true) : v.May host c := by
  cases c with
  | readRunByTaskId | readRun | sendMessage => cases h
  | _ => trivial

theorem see_quiet {r : Except RunError c.Reply} (h : c.quiet = true) : v.see c r = v := by
  cases c with
  | readRunByTaskId | readRun | sendMessage => cases h
  | _ => cases r <;> rfl

theorem transition_quiet (runId : String) (source target : AgentRunStatus) (withMeta : Bool) :
    Only (fun c => c.quiet = true) (transitionGateRun runId source target withMeta) :=
  transition_only (fun _ => only_perform rfl) (only_perform rfl)

theorem unlessStale_quiet {p : GateProg Unit} (h : Only (fun c => c.quiet = true) p) :
    Only (fun c => c.quiet = true) (unlessStale p) :=
  Only.tryCatch (Only.bind h fun _ => only_pure _) fun _ => only_lift _

theorem resync_quiet {changed : Bool} (h : c.quiet = true) :
    Only (fun c => c.quiet = true) (resync changed c) := by
  unfold resync
  split
  · exact Only.swallow (only_perform h)
  · exact only_pure _

theorem handle_quiet (run : GateRun) (fromStatus : AgentRunStatus) (task : WayflowTask) :
    Only (fun c => c.quiet = true) (handleWayflowTaskState run fromStatus task) := by
  have htransition : ∀ target withMeta, Only (fun c => c.quiet = true)
      (unlessStale (transitionGateRun run.id fromStatus target withMeta)) :=
    fun target withMeta => unlessStale_quiet (transition_quiet run.id fromStatus target withMeta)
  have hpublish : ∀ event, Only (fun c => c.quiet = true)
      (swallow (perform (GateCall.publish event)) : GateProg Unit) :=
    fun event => Only.swallow (only_perform rfl)
  unfold handleWayflowTaskState
  refine Only.bind (resync_quiet rfl) fun _ => Only.bind (resync_quiet rfl) fun _ => ?_
  cases task.state with
  | inputRequired =>
    refine Only.bind ?_ fun _ => Only.bind (only_perform rfl) fun _ => ?_
    · refine Only.swallow (Only.bind (only_perform rfl) fun template => ?_)
      split
      · exact only_perform rfl
      · exact only_pure _
    · split
      · exact only_pure _
      · exact Only.bind (htransition _ _) fun _ => only_pure _
  | failed =>
    refine Only.bind (hpublish _) fun _ => ?_
    split
    · exact only_pure _
    · exact Only.bind (htransition _ _) fun _ => only_pure _
  | completed =>
    refine Only.bind (hpublish _) fun _ => ?_
    split
    · exact only_pure _
    · refine Only.bind (htransition _ _) fun transitioned => ?_
      split
      · exact hpublish _
      · exact only_pure _

theorem dispatch_quiet (run : GateRun) (url : String) :
    Only (fun c => c.quiet = true) (dispatchWayflow run url) := by
  unfold dispatchWayflow
  refine Only.bind (unlessStale_quiet (transition_quiet _ _ _ _)) fun started => ?_
  split
  · refine Only.bind (Only.swallow (only_perform rfl)) fun _ => ?_
    refine Only.tryCatch ?_ fun _ => ?_
    · exact Only.bind (only_perform rfl) fun _ => Only.bind (only_perform rfl) fun _ =>
        Only.bind (only_perform rfl) fun task => handle_quiet run .running task
    · exact Only.bind (unlessStale_quiet (transition_quiet _ _ _ _)) fun _ => only_pure _
  · exact only_pure _

variable {contextId : String}

theorem resumeFlow_checked {run : GateRun} {schemaSnapshot : Option Json} (h : v.Committed) :
    Checked ApprovalView.see (ApprovalView.May host)
      (resumeFlow host run contextId v.taskId v.values schemaSnapshot) v := by
  refine checked_call trivial fun template => ?_
  cases flowUrl host run template with
  | error error => exact checked_throw error _
  | ok url =>
    refine checked_swallow trivial fun r => ?_
    rw [see_quiet rfl]
    refine checked_call trivial fun _ => ?_
    refine checked_call ⟨h, rfl, rfl, rfl⟩ fun _ => ?_
    refine checked_call trivial fun task => ?_
    exact checked_only (handle_quiet run .pendingApproval task) (fun _ _ => may_quiet) _

theorem findRun_spec (host : GateHost) (taskId : String) (values : Option Json) :
    Spec (observed ApprovalView.see) (ApprovalView.May host) (findRun taskId)
      (Post (fun found v => v = { taskId := taskId, values := values, checked := pendingRun found })
        (fun _ _ => True)) { taskId := taskId, values := values } := by
  refine observe_call ⟨rfl, rfl⟩ (fun byTask => ?_) (fun _ => trivial)
  cases byTask with
  | some run => exact rfl
  | none =>
    refine observe_call trivial (fun fallbackRunId => ?_) (fun _ => trivial)
    cases fallbackRunId with
    | none => exact rfl
    | some id =>
      refine observe_spec ⟨rfl, rfl⟩ fun r => ?_
      cases r with
      | ok found => exact rfl
      | error error => trivial

theorem approve_checked (host : GateHost) (taskId : String) (values schemaSnapshot : Option Json) :
    Checked ApprovalView.see (ApprovalView.May host)
      (approveWayflowGate host taskId values schemaSnapshot)
      { taskId := taskId, values := values } := by
  refine Spec.bind (Spec.mono (findRun_spec host taskId values) ?_)
  intro r v hr
  cases r with
  | error error => trivial
  | ok found =>
    cases hr
    cases found with
    | none => trivial
    | some run =>
      dsimp only
      split
      · trivial
      rename_i hpending
      split
      · trivial
      · have hcommitted : ApprovalView.Committed
            { taskId := taskId, values := values, checked := pendingRun (some run) } :=
          ⟨decide_eq_true (not_not.mp hpending), rfl⟩
        exact resumeFlow_checked hcommitted

/-- **Every job makes only calls that its view allows.** -/
theorem job_keeps (host : GateHost) (j : GateJob) :
    (j.task host).Keeps ApprovalView.see (ApprovalView.May host) := by
  cases j with
  | approve taskId values schemaSnapshot =>
    exact (approve_checked host taskId values schemaSnapshot).task
  | dispatch run url =>
    exact (checked_only (dispatch_quiet run url) (fun _ _ => may_quiet) _).task
  | transition runId source target withMeta =>
    exact (checked_only (transition_quiet runId source target withMeta)
      (fun _ _ => may_quiet) _).task
  | reach failed =>
    have hquiet : Only (fun c => c.quiet = true) (perform (GateCall.reach failed) : GateProg _) :=
      only_perform rfl
    exact (checked_only hquiet (fun _ _ => may_quiet) _).task

/-! ## Messages and gates -/

/-- The gates that messages have met are those that the flow has passed, in their order, and
    a flow that is paused has a gate left. -/
structure GateWorld.Logged (w : GateWorld) (gates : List String) : Prop where
  met : w.messages.filterMap FlowMessage.met = (gates.take w.flow.passed).reverse
  bound : w.flow.phase = .paused → w.flow.passed < gates.length

variable {gates : List String} {g : String}

theorem gate_eq_some {flow : Flow} :
    flow.gate gates = some g ↔ flow.phase = .paused ∧ gates[flow.passed]? = some g := by
  rw [Flow.gate]
  split
  · rename_i hpaused
    simp [hpaused]
  · rename_i hpaused
    simp [hpaused]

variable {w : GateWorld}

/-- A message is logged with the gate that it takes the flow past. -/
theorem Logged.send (h : w.Logged gates)
    (answering : String) (values : Option Json) (text : String) :
    GateWorld.Logged { w with
      flow := w.flow.take gates
      messages := ⟨answering, values, text, w.flow.gate gates⟩ :: w.messages } gates := by
  cases hgate : w.flow.gate gates with
  | none =>
    rw [Flow.take, hgate]
    exact ⟨h.met, h.bound⟩
  | some g =>
    obtain ⟨hpaused, hg⟩ := gate_eq_some.mp hgate
    rw [Flow.take, hgate]
    constructor
    · show g :: w.messages.filterMap FlowMessage.met = (gates.take (w.flow.passed + 1)).reverse
      obtain ⟨hlt, heq⟩ := List.getElem?_eq_some_iff.mp hg
      rw [h.met, List.take_succ_eq_append_getElem hlt, heq]
      simp
    · rintro ⟨⟩

theorem logged_write (h : w.Logged gates) (c : GateCall) : (w.write gates c).Logged gates := by
  cases c with
  | sendMessage contextId answering values text =>
    simp only [GateWorld.write]
    split
    · exact Logged.send h answering values text
    · exact h
  | startFlow =>
    simp only [GateWorld.write]
    split
    · exact ⟨h.met, by rintro ⟨⟩⟩
    · exact h
  | casStatus source target =>
    simp only [GateWorld.write]
    split <;> exact ⟨h.met, h.bound⟩
  | reach failed =>
    simp only [GateWorld.write, Flow.reach]
    split
    · split
      · rename_i hlt
        exact ⟨h.met, fun _ => hlt.2⟩
      · exact ⟨h.met, by rintro ⟨⟩⟩
    · exact ⟨h.met, h.bound⟩
  | _ => exact ⟨h.met, h.bound⟩

theorem gate_write
    (hc : ∀ contextId answering values text, c ≠ .sendMessage contextId answering values text)
    (h : w.flow.gate gates = some g) : (w.write gates c).flow.gate gates = some g := by
  obtain ⟨hpaused, _⟩ := gate_eq_some.mp h
  cases c with
  | sendMessage contextId answering values text => exact absurd rfl (hc _ _ _ _)
  | startFlow => simp [GateWorld.write, hpaused, h]
  | reach failed => simp [GateWorld.write, Flow.reach, hpaused, h]
  | casStatus source target =>
    simp only [GateWorld.write]
    split <;> exact h
  | _ => exact h

theorem messages_write {m : FlowMessage} (hm : m ∈ (w.write gates c).messages) : m ∈ w.messages ∨
      ∃ contextId answering values text, c = .sendMessage contextId answering values text ∧
        m = ⟨answering, values, text, w.flow.gate gates⟩ := by
  cases c with
  | sendMessage contextId answering values text =>
    simp only [GateWorld.write] at hm
    split at hm
    · rcases List.mem_cons.mp hm with rfl | hold
      · exact .inr ⟨contextId, answering, values, text, rfl, rfl⟩
      · exact .inl hold
    · exact .inl hm
  | startFlow | casStatus =>
    simp only [GateWorld.write] at hm
    split at hm <;> exact .inl hm
  | _ => exact .inl hm

/-! ## Every run -/

/-- What the world and the views of the approvals agree on: an approval between its check and
    its message is the only one there, and the flow is paused at the gate it names. -/
structure Answering (host : GateHost) (gates : List String) (w : GateWorld)
    (views : Nat → Option ApprovalView) : Prop where
  logged : w.Logged gates
  met : ∀ m ∈ w.messages, m.met = some m.answering ∧ m.text = resumeText host m.values
  sole : ∀ i v, views i = some v → v.Committed → w.flow.gate gates = some v.taskId ∧
    ∀ j u, views j = some u → j ≠ i → ¬ u.Committed

variable {views : Nat → Option ApprovalView} {i : Nat}

theorem Answering.update {w w' : GateWorld} {o : Option ApprovalView}
    (h : Answering host gates w views) (hlogged : w'.Logged gates)
    (hmet : ∀ m ∈ w'.messages, m.met = some m.answering ∧ m.text = resumeText host m.values)
    (ho : ∀ v, o = some v → ¬ v.Committed) (hkeep : ∀ j v, views j = some v → j ≠ i → v.Committed →
      w'.flow.gate gates = some v.taskId) :
    Answering host gates w' (Function.update views i o) := by
  refine ⟨hlogged, hmet, ?_⟩
  intro k v hv hcommitted
  rcases update_cases hv with ⟨-, hv⟩ | ⟨hk, hv⟩
  · exact absurd hcommitted (ho v hv)
  refine ⟨hkeep k v hv hk hcommitted, ?_⟩
  intro j u hu hne
  rcases update_cases hu with ⟨-, hu⟩ | ⟨-, hu⟩
  · exact ho u hu
  · exact (h.sole k v hv hcommitted).2 j u hu hne

/-- A view that has become committed, alone, at the gate that it names. -/
theorem Answering.commit
    (h : Answering host gates w views) (hgate : w.flow.gate gates = some v.taskId)
    (halone : ∀ j u, views j = some u → j ≠ i → ¬ u.Committed) :
    Answering host gates w (Function.update views i (some v)) := by
  refine ⟨h.logged, h.met, ?_⟩
  intro k u hu hcommitted
  rcases update_cases hu with ⟨rfl, hv⟩ | ⟨hk, hu⟩
  · cases hv
    refine ⟨hgate, ?_⟩
    intro j u hu hne
    rw [Function.update_of_ne hne] at hu
    exact halone j u hu hne
  · exact absurd hcommitted (halone k u hu hk)

/-- A call that reads nothing and sends nothing leaves the view and the flow's gate. -/
theorem Answering.quiet
    (h : Answering host gates w views) (hview : views i = some v) (hquiet : c.quiet = true)
    {w' : GateWorld} (hw' : w' = w ∨ w' = w.write gates c) :
    Answering host gates w' (Function.update views i (some v)) := by
  have hsame : Function.update views i (some v) = views := by
    rw [← hview]
    exact Function.update_eq_self i views
  have hc : ∀ contextId answering values text,
      c ≠ .sendMessage contextId answering values text := by
    rintro contextId answering values text rfl
    cases hquiet
  rw [hsame]
  rcases hw' with rfl | rfl
  · exact h
  refine ⟨logged_write h.logged c, ?_, ?_⟩
  · intro m hm
    rcases messages_write hm with hold | ⟨contextId, answering, values, text, hsend, _⟩
    · exact h.met m hold
    · exact absurd hsend (hc _ _ _ _)
  · intro k u hu hcommitted
    obtain ⟨hgate, halone⟩ := h.sole k u hu hcommitted
    exact ⟨gate_write hc hgate, halone⟩

theorem answer_world (gates : List String) (done : String) (outcome : GateOutcome) (i : Nat)
    (c : GateCall) (w : GateWorld) : ((remoteGates gates done).answer outcome i c w).2 = w ∨
      ((remoteGates gates done).answer outcome i c w).2 = w.write gates c := by
  cases outcome with
  | answered => exact .inr rfl
  | failed error => exact .inl rfl
  | lost error => exact .inr rfl

/-- A read of the run: the approval is committed where it has found it pending. -/
theorem Answering.read {found : Option GateRun}
    (h : Answering host gates w views)
    (htimely : pendingRun found = true → w.flow.gate gates = some v.taskId ∧
      ∀ j u, views j = some u → j ≠ i → ¬ u.Committed) :
    Answering host gates w
      (Function.update views i (some { v with checked := pendingRun found })) := by
  cases hpending : pendingRun found with
  | true =>
    obtain ⟨hgate, halone⟩ := htimely hpending
    exact h.commit hgate halone
  | false =>
    refine h.update h.logged h.met ?_ (fun j u hu _ hcommitted => (h.sole j u hu hcommitted).1)
    rintro u ⟨⟩ ⟨hchecked, _⟩
    cases hchecked

theorem Answering.send {w w' : GateWorld}
    (h : Answering host gates w views) (hview : views i = some v) (hcommitted : v.Committed)
    (hw' : w' = w ∨ w' = w.write gates
      (.sendMessage contextId v.taskId v.values (resumeText host v.values))) :
    Answering host gates w' (Function.update views i (some { v with sent := true })) := by
  obtain ⟨hgate, halone⟩ := h.sole i v hview hcommitted
  refine h.update ?_ ?_ ?_ ?_
  · rcases hw' with rfl | rfl
    · exact h.logged
    · exact logged_write h.logged _
  · intro m hm
    rcases hw' with rfl | rfl
    · exact h.met m hm
    · rcases messages_write hm with hold | ⟨_, answering, values, text, hsend, rfl⟩
      · exact h.met m hold
      · cases hsend
        exact ⟨hgate, rfl⟩
  · rintro u ⟨⟩ ⟨_, hsent⟩
    cases hsent
  · exact fun j u hu hne hother => absurd hother (halone j u hu hne)

variable {done : String}

/-- **The turn of an approval keeps the agreement**, where it is timely. -/
theorem Answering.turn
    (outcome : GateOutcome) (h : Answering host gates w views) (hview : views i = some v)
    (hmay : v.May host c)
    (htimely : pendingRun (w.read c) = true → w.flow.gate gates = some v.taskId ∧
      ∀ j u, views j = some u → j ≠ i → ¬ u.Committed) :
    Answering host gates ((remoteGates gates done).answer outcome i c w).2 (Function.update views i
        (some (v.see c ((remoteGates gates done).answer outcome i c w).1))) := by
  have hunseen : Function.update views i (some v) = views := by
    rw [← hview]
    exact Function.update_eq_self i views
  cases hquiet : c.quiet with
  | true =>
    rw [see_quiet hquiet]
    exact h.quiet hview hquiet (answer_world gates done outcome i c w)
  | false =>
    cases c with
    | readRunByTaskId | readRun =>
      cases outcome with
      | answered => exact h.read htimely
      | failed error =>
        show Answering host gates w (Function.update views i (some v))
        rw [hunseen]
        exact h
      | lost error =>
        show Answering host gates w (Function.update views i (some v))
        rw [hunseen]
        exact h
    | sendMessage contextId answering values text =>
      obtain ⟨hcommitted, rfl, rfl, rfl⟩ := hmay
      have hsee : ∀ r, v.see (.sendMessage contextId v.taskId v.values
          (resumeText host v.values)) r = { v with sent := true } := by
        intro r
        cases r <;> rfl
      rw [hsee]
      exact h.send hview hcommitted (answer_world gates done outcome i _ w)
    | _ => cases hquiet

variable {s : ApprovalPool}

theorem answering_step
    {e : Event GateJob GateOutcome} (hkept : s.Kept ApprovalView.see (ApprovalView.May host))
    (h : Answering host gates s.world s.views) (htimely : Timely gates s e) :
    Answering host gates (approvalStep host gates done s e).world
      (approvalStep host gates done s e).views := by
  refine step_rule hkept ?_ ?_ ?_ h
  · intro i j _
    refine h.update h.logged h.met ?_ (fun j u hu _ hcommitted => (h.sole j u hu hcommitted).1)
    rintro u ⟨⟩ ⟨hchecked, _⟩
    cases j <;> cases hchecked
  · rintro i outcome c v rfl hcall hmay _
    exact h.turn outcome hcall.view hmay (htimely c v hcall)
  · intro w views i hw
    refine hw.update hw.logged hw.met ?_ (fun j u hu _ hcommitted => (hw.sole j u hu hcommitted).1)
    rintro u ⟨⟩

theorem Answering.answers
    (hgates : gates.Nodup) (h : Answering host gates s.world s.views) : AnswersGates host s := by
  refine ⟨h.met, ?_⟩
  have hall : ∀ messages : List FlowMessage, (∀ m ∈ messages, m.met = some m.answering) →
      messages.filterMap FlowMessage.met = messages.map FlowMessage.answering := by
    intro messages hm
    induction messages with
    | nil => rfl
    | cons m rest ih =>
      rw [List.filterMap_cons_some (hm m (.head _)), List.map_cons,
        ih (fun m' hm' => hm m' (.tail _ hm'))]
  rw [← hall _ (fun m hm => (h.met m hm).1), h.logged.met]
  exact List.nodup_reverse.mpr (hgates.sublist (List.take_sublist _ _))

/-- **Approvals answer their gates, once each, in every run in which each finds the flow paused
    at the gate that it names, and no other approval between its check and its message.** -/
theorem approvals_answer_gates (host : GateHost) (gates : List String) (done : String)
    (hgates : gates.Nodup) {s : ApprovalPool}
    (h : Reaches (Unanswered gates) (approvalStep host gates done) (Timely gates) s) :
    AnswersGates host s := by
  have hrun : s.Kept ApprovalView.see (ApprovalView.May host) ∧
      Answering host gates s.world s.views := by
    refine Reaches.invariant (I := fun s => s.Kept ApprovalView.see (ApprovalView.May host) ∧
      Answering host gates s.world s.views) ?_ ?_ h
    · intro s hs
      refine ⟨?_, ⟨?_, ?_⟩, ?_, ?_⟩
      · intro i t ht
        rw [hs.tasks] at ht
        cases ht
      · rw [hs.messages, hs.passed]
        rfl
      · intro hpaused
        rw [hs.passed]
        exact List.length_pos_iff.mpr (hs.paused hpaused)
      · intro m hm
        rw [hs.messages] at hm
        cases hm
      · intro i v hv
        rw [Pool.views, hs.tasks] at hv
        cases hv
    · rintro s e ⟨hkept, hanswering⟩ htimely
      exact ⟨step_kept (job_keeps host) e hkept, answering_step hkept hanswering htimely⟩
  exact hrun.2.answers hgates

/-- Texts as they are, and a flow for every package. -/
def plainHost : GateHost := ⟨id, fun _ => none, .ok⟩

/-- A run whose flow is paused at its first gate. -/
def atFirstGate : ApprovalPool where
  world :=
    { run := { id := "run", templateId := "t", status := .pendingApproval,
               a2aTaskId := some "g1", a2aContextId := some "c" }
      template := some { packageName := some "@v/flow", sourceType := "internal" }
      flow := { context := "c", phase := .paused } }
  tasks := fun _ => none

theorem unanswered_atFirstGate : Unanswered ["g1", "g2"] atFirstGate where
  passed := rfl
  paused _ := by simp
  messages := rfl
  tasks := rfl

/-- One bare approval, up to its message. -/
def approvedOnce : List (Event GateJob GateOutcome) :=
  [.start 0 (.approve "g1" none none), .turn 0 .answered, .turn 0 .answered, .turn 0 .answered,
    .turn 0 .answered, .turn 0 .answered]

theorem approvals_answer_gates_once : AnswersGates plainHost
    (approvedOnce.foldl (approvalStep plainHost ["g1", "g2"] "end") atFirstGate) := by
  refine approvals_answer_gates plainHost ["g1", "g2"] "end" (by decide)
    ⟨atFirstGate, unanswered_atFirstGate, Admits.leads ?_⟩
  refine ⟨trivial, ?_, ?_, ?_, ?_, ?_, trivial⟩
  all_goals
    rintro c v ⟨k, hk⟩
    cases hk
    intro hread
  · refine ⟨rfl, ?_⟩
    intro j u hu hne
    rcases j with _ | j
    · exact absurd rfl hne
    · cases hu
  all_goals cases hread

/-- Two approvals of the first gate both find the run pending, and both send. -/
def approvedTwice : List (Event GateJob GateOutcome) :=
  [.start 0 (.approve "g1" none none), .start 1 (.approve "g1" none none), .turn 0 .answered,
    .turn 1 .answered, .turn 0 .answered, .turn 1 .answered, .turn 0 .answered, .turn 1 .answered,
    .turn 0 .answered, .turn 1 .answered, .turn 0 .answered, .start 2 (.reach false),
    .turn 2 .answered, .turn 1 .answered]

theorem approved_twice : ¬ ∀ s,
    Reaches (Unanswered ["g1", "g2"]) (approvalStep plainHost ["g1", "g2"] "end")
      (fun _ _ => True) s → AnswersGates plainHost s := by
  intro hall
  have hanswers := hall
    (approvedTwice.foldl (approvalStep plainHost ["g1", "g2"] "end") atFirstGate)
    ⟨atFirstGate, unanswered_atFirstGate, Admits.leads (by
      refine ⟨?_, ?_, ?_, ?_, ?_, ?_, ?_, ?_, ?_, ?_, ?_, ?_, ?_, ?_, ?_⟩ <;> trivial)⟩
  have hmessages : (approvedTwice.foldl (approvalStep plainHost ["g1", "g2"] "end")
      atFirstGate).world.messages =
        [⟨"g1", none, "[Approved by operator]", some "g2"⟩,
          ⟨"g1", none, "[Approved by operator]", some "g1"⟩] := by decide +kernel
  have hsecond := (hanswers.met ⟨"g1", none, "[Approved by operator]", some "g2"⟩
    (by simp [hmessages])).1
  simp at hsecond

end AgentRuns.Gates
