import Cinatra.AgentRuns.Release
import Cinatra.AgentRuns.StatusMoves

/-! # QueuedRuns — a queued run has a job

    The release job, a user's click and a setup approval commit the status `queued`
    first and add the execution job then, in turns with each other, with workers,
    and with whatever else writes a status or adds a job.  A run is kept when the
    operation that moved it either is still under way, or has left a job added
    since.  It is kept as long as no operation ends between the move and an add
    that the queue accepts (`run_kept`): a retry finds a stale status and skips the
    add, and a job that is still retained swallows one with its id. -/

namespace AgentRuns

open Process Machine RowTable

/-! ## Operations, workers and the queue -/

inductive DeskJob where
  | release (now : Int) (newId runId : String)
  | click (now : Int) (userId : Option String) (runId templateSlug : String)
  | approve (runId : String) (values : Option JsonValue.Json) (fieldName : Option String)

def DeskJob.task : DeskJob → RunTask
  | .release now newId runId => Task.of (runAgentRunTriggerReleaseJob now newId runId) ()
  | .click now userId runId templateSlug =>
    Task.of (triggerAgentRun now userId runId templateSlug) ()
  | .approve runId values fieldName => Task.of (approveSetupTask runId values fieldName) ()

/-- The key of a run that is inserted is taken. -/
def refused (w : World) : RunCall → Bool
  | .insertRun run => w.runs.any (fun r => r.id = run.id)
  | _ => false

def desk : Host RunCall RunCall.Reply RunError World Fault where
  ready _ _ _ := true
  answer fault i c w :=
    if refused w c then
      (.error (.thrown "duplicate key value violates unique constraint"), w)
    else database.answer fault i c w
  leave _ w := w

/-- What happens: a turn of an operation, another write of a status, another add, a
    move of a job, or the removal of a finished one. -/
inductive DeskEvent where
  | op (e : Event DeskJob Fault)
  | write (runId : String) (status : AgentRunStatus)
  | add (jobId runId : String)
  | work (jobId : String) (source target : JobState)
  | forget (jobId : String)

/-- A job is started, given back after a throw, or finished. -/
def jobMoves : List (JobState × JobState) :=
  [(.pending, .started), (.started, .pending), (.started, .finished)]

def moveJob (jobId : String) (source target : JobState) (jobs : List Job) : List Job :=
  if jobMoves.contains (source, target) then
    updateWhere (fun j => j.id = jobId && j.state = source) (fun j => { j with state := target })
      jobs
  else jobs

/-- A finished job is retained until it is forgotten. -/
def forgetJob (jobId : String) (jobs : List Job) : List Job :=
  jobs.filter (fun j => !(j.id = jobId && j.state = .finished))

/-- What the others do. -/
def World.outside (w : World) : DeskEvent → World
  | .op _ => w
  | .write runId status =>
    w.updateRuns (fun r => r.id = runId) (fun r => { r with status := status })
  | .add jobId runId => { w with jobs := addJob jobId runId w.jobs }
  | .work jobId source target => { w with jobs := moveJob jobId source target w.jobs }
  | .forget jobId => { w with jobs := forgetJob jobId w.jobs }

/-- A job that the queue took, and whether a worker has started it. -/
structure Added where
  jobId : String
  runId : String
  time : Nat
  started : Bool
deriving DecidableEq

/-- The operations under way, and what is known of the past: the operations begun, when
    and by which of them a queued run was moved there, and the jobs added. -/
structure Desk where
  pool : RunPool
  clock : Nat
  begun : List Nat
  moved : String → Option (Nat × Nat)
  adds : List Added

/-- Every operation has a number of its own. -/
def Desk.next (s : Desk) : DeskEvent → RunPool
  | .op (.start i job) =>
    if s.begun.contains i then s.pool
    else step desk seeNothing DeskJob.task s.pool (.start i job)
  | .op e => step desk seeNothing DeskJob.task s.pool e
  | e => { s.pool with world := s.pool.world.outside e }

def Desk.nextBegun (s : Desk) : DeskEvent → List Nat
  | .op (.start i _) => i :: s.begun
  | _ => s.begun

/-- The operation that makes a step. -/
def DeskEvent.mover : DeskEvent → Option Nat
  | .op (.turn i _) => some i
  | _ => none

/-- A run that is queued, and was not, has been moved by the operation that made the
    step. -/
def Desk.nextMoved (s : Desk) (e : DeskEvent) (r : String) : Option (Nat × Nat) :=
  if (s.next e).world.status r = some .queued then
    if s.pool.world.status r = some .queued then s.moved r
    else e.mover.map (fun i => (s.clock, i))
  else none

/-- The jobs a step has put in the queue. -/
def newJobs (before after : List Job) : List Job :=
  after.filter (fun j => !before.any (fun j' => j'.id = j.id))

/-- Whether a worker has started it. -/
def Added.notice (jobs : List Job) (a : Added) : Added :=
  { a with started := a.started || jobs.any (fun j => j.id = a.jobId && j.state = .started) }

def Desk.nextAdds (s : Desk) (e : DeskEvent) : List Added :=
  (s.adds ++ (newJobs s.pool.world.jobs (s.next e).world.jobs).map
    (fun j => Added.mk j.id j.runId s.clock false)).map (Added.notice (s.next e).world.jobs)

def deskStep (s : Desk) (e : DeskEvent) : Desk where
  pool := s.next e
  clock := s.clock + 1
  begun := s.nextBegun e
  moved := s.nextMoved e
  adds := s.nextAdds e

/-- The tables and the queue, and no operation yet. -/
def openDesk (w : World) : Desk where
  pool := idle w
  clock := 0
  begun := []
  moved _ := none
  adds := []

/-! ## The law -/

/-- The job is pending in the queue, or a worker has started it. -/
def PendingOrStarted (s : Desk) (a : Added) : Prop :=
  a.started = true ∨ ∃ j ∈ s.pool.world.jobs, j.id = a.jobId ∧ j.runId = a.runId ∧
    j.state = .pending

/-- **The law**: once the operation that moved a run to `queued` is over, there is a job
    for it, added after the move, that is pending or has been started; or the run is
    no longer queued. -/
def Kept (r : String) (s : Desk) : Prop :=
  ∀ t i, s.moved r = some (t, i) → (s.pool.tasks i).isSome = true ∨
    ∃ a ∈ s.adds, a.runId = r ∧ t < a.time ∧ PendingOrStarted s a

/-- A job for the run has been added since. -/
def Served (s : Desk) (r : String) (t : Nat) : Prop := ∃ a ∈ s.adds, a.runId = r ∧ t < a.time

/-- The operation has moved the run, and no job has been added since. -/
def Owing (s : Desk) (i : Nat) (r : String) : Prop :=
  ∃ t, s.moved r = some (t, i) ∧ ¬ Served s r t

/-- The queue takes the job; or the click that adds it learns that it does not, and will
    take its move back. -/
def Accepted (s : Desk) (r : String) (fault : Fault) (jobId : String) : Prop :=
  fault ≠ .failed ∧ (∀ j ∈ s.pool.world.jobs, j.id ≠ jobId) ∨ jobId = r ∧ fault ≠ .answered

/-- A statement of an operation that owes the run a job. -/
def Passes (s : Desk) (r : String) (fault : Fault) : RunCall → Prop
  | .addJob jobId _ => Accepted s r fault jobId
  | _ => fault ≠ .failed

/-- No operation ends while it owes the run a job: it is not killed, the reply to its move
    is not lost, the queue takes its job, and a click's taking back does not fail. -/
def Spared (r : String) (s : Desk) : DeskEvent → Prop
  | .op (.kill i) => ¬ Owing s i r
  | .op (.turn i fault) => ∀ c v, NextCall s.pool i c v →
      (s.pool.world.status r ≠ some .queued →
        (serve s.pool.world c).2.status r = some .queued → fault ≠ .lost) ∧
      (Owing s i r → Passes s r fault c)
  | _ => True

/-! ## What an operation does after a move -/

section Programs

variable {α β : Type}

/-- The move is taken back next. -/
def Reverts (r : String) (p : RunProg α) : Prop :=
  ∃ k, p = .call (.casStatus r .queued .pendingInput) k

/-- The job is added next; or the move is taken back. -/
def Owes (r : String) (p : RunProg α) : Prop :=
  Reverts r p ∨ ∃ jobId k, p = .call (.addJob jobId r) k ∧
    (jobId = r → ∀ err, Reverts r (k (.error err)))

/-- The statement moves a run that was not queued to `queued`. -/
def Queues (w : World) (c : RunCall) (r : String) : Prop :=
  w.status r ≠ some .queued ∧ (serve w c).2.status r = some .queued

/-- A statement that moves a run to `queued` is followed by what is owed. -/
def Settles : RunProg α → Prop
  | .done _ => True
  | .call c k => (∀ rep, Settles (k rep)) ∧
      ∀ w r, (w.runs.map AgentRun.id).Nodup → Queues w c r → Owes r (k (.ok (serve w c).1))

variable {p : RunProg α} {r : String}

theorem Reverts.bind (h : Reverts r p) (f : α → RunProg β) : Reverts r (p >>= f) := by
  obtain ⟨k, rfl⟩ := h
  exact ⟨fun rep => (k rep).bind f, rfl⟩

theorem Owes.bind (h : Owes r p) (f : α → RunProg β) : Owes r (p >>= f) := by
  rcases h with h | ⟨jobId, k, rfl, hk⟩
  · exact .inl (h.bind f)
  · exact .inr ⟨jobId, fun rep => (k rep).bind f, rfl, fun hid err => (hk hid err).bind f⟩

theorem Settles.bind {f : α → RunProg β} (hp : Settles p)
    (hf : ∀ a, Settles (f a)) : Settles (p >>= f) := by
  show Settles (p.bind f)
  induction p with
  | done rep =>
    cases rep with
    | ok a => exact hf a
    | error err => trivial
  | call c k ih => exact ⟨fun rep => ih rep (hp.1 rep), fun w r hkeys hq => (hp.2 w r hkeys hq).bind f⟩

/-- The statement queues no run. -/
def Quiet (c : RunCall) : Prop := ∀ w r, ¬ Queues w c r

variable {c : RunCall}

theorem settles_perform (hc : Quiet c) : Settles (perform c : RunProg c.Reply) :=
  ⟨fun _ => trivial, fun w r _ hq => absurd hq (hc w r)⟩

theorem quiet_of_runs (h : ∀ w, (serve w c).2.runs = w.runs) : Quiet c := by
  rintro w r ⟨hnot, hq⟩
  rw [World.status, h w] at hq
  exact hnot hq

variable {f : AgentRun → AgentRun} {p : AgentRun → Bool} {w : World}

theorem quiet_updateRuns
    (hq : (w.updateRuns p f).status r = some .queued) (hid : ∀ a, (f a).id = a.id)
    (hf : ∀ a, (f a).status ≠ .queued) : w.status r = some .queued := by
  rw [status_updateRuns hid] at hq
  obtain ⟨a, ha, hstatus⟩ := Option.map_eq_some_iff.mp hq
  split at hstatus
  · exact absurd hstatus (hf a)
  · rw [World.status, ha, Option.map_some, hstatus]

variable {id : String}

theorem quiet_casStatus {source target : AgentRunStatus} (h : target ≠ .queued) :
    Quiet (.casStatus id source target) := by
  rintro w r ⟨hnot, hq⟩
  have hwritten : (w.updateRuns (fun a => a.id = id && a.status = source)
      (fun a => { a with status := target })).status r = some .queued := hq
  exact hnot (quiet_updateRuns hwritten (fun _ => rfl) (fun _ => h))

theorem quiet_insertRun {run : AgentRun} (h : run.status ≠ .queued) : Quiet (.insertRun run) := by
  rintro w r ⟨hnot, hq⟩
  obtain ⟨a, ha, hstatus⟩ := Option.map_eq_some_iff.mp hq
  have hfind : (w.runs ++ [run]).find? (fun a => a.id = r) = some a := ha
  rw [List.find?_append, Option.or_eq_some_iff] at hfind
  rcases hfind with hold | ⟨_, hnew⟩
  · exact hnot (by rw [World.status, hold, Option.map_some, hstatus])
  · rw [List.mem_singleton.mp (List.mem_of_find?_eq_some hnew)] at hstatus
    exact h hstatus

/-- A guarded write of `queued` queues one run, the one it asks for. -/
theorem queues_updateRuns
    (hkeys : (w.runs.map AgentRun.id).Nodup) (hnot : w.status r ≠ some .queued)
    (hq : (w.updateRuns p f).status r = some .queued) (hid : ∀ a, (f a).id = a.id)
    (hp : ∀ a, p a = true → a.id = id) : r = id ∧ (w.runs.filter p).length = 1 := by
  rw [status_updateRuns hid] at hq
  obtain ⟨a, ha, hstatus⟩ := Option.map_eq_some_iff.mp hq
  have har : a.id = r := of_decide_eq_true (List.find?_some ha :)
  have hpa : p a = true := by
    by_contra hpa
    rw [if_neg hpa] at hstatus
    exact hnot (by rw [World.status, ha, Option.map_some, hstatus])
  refine ⟨har.symm.trans (hp a hpa), ?_⟩
  -- the rows that match have one key
  have hmem : a ∈ w.runs.filter p := List.mem_filter.mpr ⟨List.mem_of_find?_eq_some ha, hpa⟩
  have hsame : (w.runs.filter p).map AgentRun.id = List.replicate (w.runs.filter p).length id := by
    rw [List.eq_replicate_iff, List.length_map, List.forall_mem_map]
    exact ⟨rfl, fun b hb => hp b (List.mem_filter.mp hb).2⟩
  have hnodup : ((w.runs.filter p).map AgentRun.id).Nodup :=
    hkeys.sublist (List.filter_sublist.map AgentRun.id)
  rw [hsame, List.nodup_replicate] at hnodup
  have hpos := List.length_pos_of_mem hmem
  omega

theorem settles_tryTransition {now : Int} {source : AgentRunStatus}
    {k : Bool → RunProg α} (hlegal : legalTransitions.contains (source, .queued) = true)
    (hk : ∀ moved, Settles (k moved)) (howes : Owes id (k true)) :
    Settles (tryTransition now id source .queued >>= k) := by
  rw [tryTransition_eq hlegal rfl]
  refine ⟨fun rep => ?_, ?_⟩
  · exact Settles.bind (p := .done (casReply rep)) trivial hk
  · rintro w r hkeys ⟨hnot, hq⟩
    have hwritten : (w.updateRuns (fun a => a.id = id && a.status = source)
        (fun a => { a with status := .queued })).status r = some .queued := hq
    obtain ⟨rfl, hone⟩ := queues_updateRuns hkeys hnot hwritten (fun _ => rfl)
      (fun a ha => of_decide_eq_true (Bool.and_eq_true_iff.mp ha).1)
    have hwon : (serve w (.casStatus r source .queued)).1 = true := decide_eq_true hone
    rw [hwon]
    exact howes

/-! ### The release job -/

theorem executionJobId_ne (r : String) : executionJobId r ≠ r := by
  intro h
  have hlen := congrArg String.length h
  rw [executionJobId, String.length_append] at hlen
  have hprefix : "agent-builder-".length = 14 := rfl
  omega

theorem quiet_addJob (jobId r : String) : Quiet (.addJob jobId r) := quiet_of_runs fun _ => rfl

theorem owes_addJob {jobId : String} (hne : jobId ≠ r) :
    Owes r (perform (RunCall.addJob jobId r) : RunProg Unit) :=
  .inr ⟨jobId, .done, rfl, fun h => absurd h hne⟩

theorem settles_markTriggerReleased (now : Int) (id : String) :
    Settles (markTriggerReleased now id) :=
  Settles.bind (settles_perform (quiet_of_runs fun _ => rfl)) fun _ =>
    settles_perform (quiet_of_runs fun _ => rfl)

theorem settles_dispatchTick (now : Int) (timezone id : String) :
    Settles (dispatchTick now timezone id) := by
  refine Settles.bind (settles_perform (quiet_of_runs fun _ => rfl)) fun _ => ?_
  refine Settles.bind (settles_markTriggerReleased now id) fun _ => ?_
  refine settles_tryTransition rfl (fun _ => settles_perform (quiet_addJob _ id)) ?_
  exact owes_addJob (executionJobId_ne id)

theorem settles_createAgentRun (newId templateId : String) (runBy : Option String) (orgId : String)
    (inputParams : List (String × JsonValue.Json)) :
    Settles (createAgentRunPendingInput newId templateId runBy orgId inputParams) := by
  refine Settles.bind (settles_perform (quiet_of_runs fun _ => rfl)) fun versionId => ?_
  refine Settles.bind (settles_perform (quiet_insertRun AgentRunStatus.noConfusion)) fun _ => ?_
  refine Settles.bind (settles_perform (quiet_of_runs fun _ => rfl)) fun created => ?_
  cases created with
  | none | some => trivial

theorem settles_releaseRecurring (now : Int) (newId runId : String) (trigger : TriggerRecord) :
    Settles (releaseRecurring now newId runId trigger) := by
  refine Settles.bind (settles_perform (quiet_of_runs fun _ => rfl)) fun source => ?_
  cases source with
  | none => trivial
  | some source =>
    dsimp only
    split
    · trivial
    · exact Settles.bind (settles_createAgentRun _ _ _ _ _) fun newRun =>
        settles_dispatchTick now trigger.timezone newRun.id

theorem settles_releaseScheduled (now : Int) (runId : String) :
    Settles (releaseScheduled now runId) := by
  refine Settles.bind (settles_markTriggerReleased now runId) fun _ => ?_
  refine settles_tryTransition rfl (fun moved => ?_) ?_
  · cases moved with
    | false => trivial
    | true => exact settles_perform (quiet_addJob _ runId)
  · exact owes_addJob (executionJobId_ne runId)

theorem settles_unschedule (trigger : TriggerRecord) : Settles (unschedule trigger) := by
  rw [unschedule]
  split
  · split
    · trivial
    · exact settles_perform (quiet_of_runs fun _ => rfl)
  · trivial

theorem settles_release (now : Int) (newId runId : String) :
    Settles (runAgentRunTriggerReleaseJob now newId runId) := by
  refine Settles.bind (settles_perform (quiet_of_runs fun _ => rfl)) fun trigger => ?_
  cases trigger with
  | none => trivial
  | some trigger =>
    dsimp only
    split
    · exact settles_unschedule trigger
    · split
      · exact settles_releaseRecurring now newId runId trigger
      · exact settles_releaseScheduled now runId

/-! ### The click and the approval -/

/-- Taking a move back is one statement, and then the click has failed. -/
theorem enqueueTriggered_eq (now : Int) (runId : String) :
    ∃ k, enqueueTriggered now runId = .call (.addJob runId runId) k ∧
      (∀ err, Reverts runId (k (.error err))) ∧ ∀ rep, Settles (k rep) := by
  refine ⟨_, rfl, fun err => ⟨_, rfl⟩, fun rep => ?_⟩
  cases rep with
  | ok _ => trivial
  | error err =>
    have hquiet : Quiet (.casStatus runId .queued .pendingInput) := quiet_casStatus (by decide)
    refine ⟨fun rep => ?_, fun w r _ hq => absurd hq (hquiet w r)⟩
    cases rep with
    | error err => trivial
    | ok won =>
      cases won with
      | false | true => trivial

theorem settles_click (now : Int) (userId : Option String) (runId templateSlug : String) :
    Settles (triggerAgentRun now userId runId templateSlug) := by
  cases userId with
  | none => trivial
  | some userId =>
    refine Settles.bind (settles_perform (quiet_of_runs fun _ => rfl)) fun found => ?_
    cases found with
    | none => trivial
    | some run =>
      dsimp only
      split
      · trivial
      split
      · trivial
      refine Settles.bind (settles_perform (quiet_of_runs fun _ => rfl)) fun template => ?_
      split
      · trivial
      obtain ⟨k, hk, hreverts, hsettles⟩ := enqueueTriggered_eq now runId
      refine settles_tryTransition rfl (fun moved => ?_) ?_
      · cases moved with
        | false => trivial
        | true =>
          rw [Bool.not_true, if_neg Bool.false_ne_true, hk]
          exact ⟨hsettles, fun w r _ hq => absurd hq (quiet_addJob runId runId w r)⟩
      · rw [Bool.not_true, if_neg Bool.false_ne_true, hk]
        exact .inr ⟨runId, k, rfl, fun _ => hreverts⟩

theorem resumeJobId_ne (r : String) : "resume-setup-" ++ r ≠ r := by
  intro h
  have hlen := congrArg String.length h
  rw [String.length_append] at hlen
  have hprefix : "resume-setup-".length = 13 := rfl
  omega

theorem settles_commitApproval (runId : String) (merge : List (String × JsonValue.Json)) :
    Settles (commitApproval runId merge) := by
  refine ⟨fun rep => ?_, ?_⟩
  · refine Settles.bind (p := .done rep) trivial fun updated => ?_
    split
    · trivial
    · exact settles_perform (quiet_addJob _ runId)
  · rintro w r hkeys ⟨hnot, hq⟩
    have hwritten : (w.updateRuns (fun a => a.id = runId && a.status = .pendingApproval)
        (fun a => { a with status := .queued, inputParams := mergeFields a.inputParams merge })
        ).status r = some .queued := hq
    obtain ⟨rfl, hone⟩ := queues_updateRuns hkeys hnot hwritten (fun _ => rfl)
      (fun a ha => of_decide_eq_true (Bool.and_eq_true_iff.mp ha).1)
    have hupdated : (serve w (.approveSetup r merge)).1 = 1 := hone
    rw [hupdated]
    exact owes_addJob (resumeJobId_ne r)

theorem settles_approve (runId : String) (values : Option JsonValue.Json)
    (fieldName : Option String) : Settles (approveSetupTask runId values fieldName) := by
  refine Settles.bind (settles_perform (quiet_of_runs fun _ => rfl)) fun found => ?_
  cases found with
  | none => trivial
  | some run =>
    dsimp only
    split
    · trivial
    have htemplate : Settles (readSetupTemplate run values fieldName) := by
      unfold readSetupTemplate
      split
      · rename_i fields
        by_cases hform : fieldName = none
        · rw [if_pos hform]
          exact settles_perform (quiet_of_runs fun _ => rfl)
        · rw [if_neg hform]
          trivial
      · trivial
    refine Settles.bind htemplate fun template => ?_
    exact Settles.bind (p := lift _) trivial fun merge => settles_commitApproval runId merge

/-- **Every operation owes a job for a run it has moved**, and pays next. -/
theorem settles_task (job : DeskJob) : Settles job.task.prog := by
  cases job with
  | release now newId runId => exact Settles.bind (settles_release now newId runId) fun _ => trivial
  | click now userId runId templateSlug =>
    exact Settles.bind (settles_click now userId runId templateSlug) fun _ => trivial
  | approve runId values fieldName =>
    exact Settles.bind (settles_approve runId values fieldName) fun _ => trivial

end Programs

section Step

variable {s : Desk} {e : DeskEvent} {r : String}

/-- What a step makes of the tables and the queue: nothing, what an operation's statement
    does, or what the others do. -/
theorem next_world (s : Desk) (e : DeskEvent) : (s.next e).world = s.pool.world ∨
      (∃ i fault c v, e = .op (.turn i fault) ∧ NextCall s.pool i c v ∧
        fault ≠ .failed ∧ refused s.pool.world c = false ∧
        (s.next e).world = (serve s.pool.world c).2) ∨
      e.mover = none ∧ (s.next e).world = s.pool.world.outside e := by
  cases e with
  | write | add | work | forget => exact .inr (.inr ⟨rfl, rfl⟩)
  | op e =>
    by_cases hsame : (s.next (.op e)).world = s.pool.world
    · exact .inl hsame
    have hstep : s.next (.op e) = step desk seeNothing DeskJob.task s.pool e := by
      cases e with
      | start i job =>
        by_cases hbegun : s.begun.contains i = true
        · exact absurd (by rw [Desk.next, if_pos hbegun]) hsame
        · rw [Desk.next, if_neg hbegun]
      | turn | kill => rfl
    rw [hstep] at hsame ⊢
    obtain ⟨i, fault, c, v, rfl, hcall, _, hworld⟩ := step_world (fun _ _ => rfl) hsame
    refine .inr (.inl ⟨i, fault, c, v, rfl, hcall, ?_⟩)
    rw [hworld] at hsame ⊢
    simp only [desk] at hsame ⊢
    cases hrefused : refused s.pool.world c with
    | true =>
      rw [hrefused, if_pos rfl] at hsame
      exact absurd rfl hsame
    | false =>
      rw [hrefused, if_neg Bool.false_ne_true] at hsame
      have hfault : fault ≠ .failed := by
        rintro rfl
        exact hsame rfl
      rw [if_neg Bool.false_ne_true]
      exact ⟨hfault, rfl, answer_world hfault⟩

variable {w : World}

theorem keys_updateRuns {p : AgentRun → Bool} {f : AgentRun → AgentRun}
    (hid : ∀ a, (f a).id = a.id) (h : (w.runs.map AgentRun.id).Nodup) :
    ((w.updateRuns p f).runs.map AgentRun.id).Nodup := by
  rw [World.updateRuns, map_updateWhere w.runs AgentRun.id hid]
  exact h

variable {c : RunCall}

theorem keys_serve (hrefused : refused w c = false)
    (h : (w.runs.map AgentRun.id).Nodup) : ((serve w c).2.runs.map AgentRun.id).Nodup := by
  cases c with
  | insertRun run =>
    rw [refused, List.any_eq_false] at hrefused
    exact nodup_concat h fun a ha hid => hrefused a ha (decide_eq_true hid)
  | casStatus | writeStatus | stopByIds | approveSetup => exact keys_updateRuns (fun _ => rfl) h
  | readAgentRunById | readAgentTemplateById | readLatestAgentVersionId | selectByIds
  | selectByTemplate | readRunTriggerByRunId | upsertRunTrigger | removeJobScheduler
  | setReleasedFlag | markTriggerReleasedInDb | addJob => exact h

theorem keys_next (h : (s.pool.world.runs.map AgentRun.id).Nodup) :
    ((s.next e).world.runs.map AgentRun.id).Nodup := by
  rcases next_world s e with hworld | ⟨i, fault, c, v, _, _, _, hrefused, hworld⟩ | ⟨_, hworld⟩
  · rw [hworld]
    exact h
  · rw [hworld]
    exact keys_serve hrefused h
  rw [hworld]
  cases e with
  | op e => exact h
  | write runId status => exact keys_updateRuns (fun _ => rfl) h
  | add | work | forget => exact h

/-! ### Jobs -/

theorem next_jobs (s : Desk) (e : DeskEvent) : (s.next e).world.jobs = s.pool.world.jobs ∨
      (∃ jobId runId, (s.next e).world.jobs = addJob jobId runId s.pool.world.jobs) ∨
      (∃ jobId source target, (s.next e).world.jobs =
        moveJob jobId source target s.pool.world.jobs) ∨
      ∃ jobId, (s.next e).world.jobs = forgetJob jobId s.pool.world.jobs := by
  rcases next_world s e with hworld | ⟨i, fault, c, v, _, _, _, _, hworld⟩ | ⟨_, hworld⟩
  · exact .inl (congrArg World.jobs hworld)
  · rw [hworld]
    cases c with
    | addJob id runId => exact .inr (.inl ⟨id, runId, rfl⟩)
    | readAgentRunById | readAgentTemplateById | readLatestAgentVersionId | casStatus
    | writeStatus | selectByIds | selectByTemplate | stopByIds | approveSetup
    | readRunTriggerByRunId | upsertRunTrigger | removeJobScheduler | setReleasedFlag
    | markTriggerReleasedInDb | insertRun => exact .inl rfl
  · rw [hworld]
    cases e with
    | op | write => exact .inl rfl
    | add jobId runId => exact .inr (.inl ⟨jobId, runId, rfl⟩)
    | work jobId source target => exact .inr (.inr (.inl ⟨jobId, source, target, rfl⟩))
    | forget jobId => exact .inr (.inr (.inr ⟨jobId, rfl⟩))

variable {j : Job}

/-- A pending job stays in the queue until a worker starts it. -/
theorem pending_next (hj : j ∈ s.pool.world.jobs) (hpending : j.state = .pending) :
    j ∈ (s.next e).world.jobs ∨
      ∃ j' ∈ (s.next e).world.jobs, j'.id = j.id ∧ j'.state = .started := by
  rcases next_jobs s e with h | ⟨jobId, runId, h⟩ | ⟨jobId, source, target, h⟩ | ⟨jobId, h⟩
  · rw [h]
    exact .inl hj
  · rw [h]
    exact .inl (mem_addJob_of_mem hj)
  · rw [h, moveJob]
    split
    · rename_i hmove
      by_cases hp : (j.id = jobId && j.state = source) = true
      · -- a worker takes it: the move from pending is to started
        refine .inr ⟨{ j with state := target }, mem_updateWhere.mpr ⟨j, hj, ?_⟩, rfl, ?_⟩
        · rw [if_pos hp]
        · have hsource : source = .pending :=
            (of_decide_eq_true (Bool.and_eq_true_iff.mp hp).2).symm.trans hpending
          rw [hsource] at hmove
          show target = .started
          cases target with
          | started => rfl
          | pending | finished => cases hmove
      · exact .inl (mem_updateWhere.mpr ⟨j, hj, by rw [if_neg hp]⟩)
    · exact .inl hj
  · rw [h, forgetJob, List.mem_filter, hpending]
    exact .inl ⟨hj, by simp⟩

theorem newJobs_pending (hj : j ∈ newJobs s.pool.world.jobs (s.next e).world.jobs) :
    j ∈ (s.next e).world.jobs ∧ j.state = .pending := by
  rw [newJobs, List.mem_filter, Bool.not_eq_true', List.any_eq_false] at hj
  obtain ⟨hmem, hnew⟩ := hj
  have hold : ∀ j' ∈ s.pool.world.jobs, j'.id ≠ j.id := fun j' hj' hid =>
    hnew j' hj' (decide_eq_true hid)
  refine ⟨hmem, ?_⟩
  rcases next_jobs s e with h | ⟨jobId, runId, h⟩ | ⟨jobId, source, target, h⟩ | ⟨jobId, h⟩
  · rw [h] at hmem
    exact absurd rfl (hold j hmem)
  · rw [h] at hmem
    rcases mem_addJob hmem with hmem | rfl
    · exact absurd rfl (hold j hmem)
    · rfl
  · rw [h, moveJob] at hmem
    split at hmem
    · obtain ⟨j', hj', rfl⟩ := mem_updateWhere.mp hmem
      refine absurd ?_ (hold j' hj')
      split
      · rfl
      · rfl
    · exact absurd rfl (hold j hmem)
  · rw [h] at hmem
    exact absurd rfl (hold j (List.mem_filter.mp hmem).1)

variable {t : Nat}

theorem Served.next (h : Served s r t) : Served (deskStep s e) r t := by
  obtain ⟨a, ha, hrun, htime⟩ := h
  refine ⟨a.notice (s.next e).world.jobs, ?_, hrun, htime⟩
  exact List.mem_map_of_mem (List.mem_append_left _ ha)

theorem served_of_added (ht : t < s.clock) (hrun : j.runId = r)
    (hj : j ∈ (s.next e).world.jobs) (hnew : ∀ j' ∈ s.pool.world.jobs, j'.id ≠ j.id) :
    Served (deskStep s e) r t := by
  refine ⟨(Added.mk j.id j.runId s.clock false).notice (s.next e).world.jobs, ?_, hrun, ht⟩
  refine List.mem_map_of_mem (List.mem_append_right _ (List.mem_map.mpr ⟨j, ?_, rfl⟩))
  rw [newJobs, List.mem_filter, Bool.not_eq_true', List.any_eq_false]
  exact ⟨hj, fun j' hj' hid => hnew j' hj' (of_decide_eq_true hid)⟩

/-- A job on record is pending, or has been started. -/
def Recorded (s : Desk) : Prop := ∀ a ∈ s.adds, PendingOrStarted s a

theorem recorded_next (h : Recorded s) : Recorded (deskStep s e) := by
  intro a ha
  obtain ⟨a₀, ha₀, rfl⟩ := List.mem_map.mp ha
  -- a job that has been started now is noticed
  have hnotice : ∀ j ∈ (s.next e).world.jobs, j.id = a₀.jobId → j.state = .started →
      PendingOrStarted (deskStep s e) (a₀.notice (s.next e).world.jobs) := by
    intro j hj hid hstate
    refine .inl ?_
    show (a₀.started || _) = true
    rw [Bool.or_eq_true, List.any_eq_true]
    exact .inr ⟨j, hj, by rw [hid, hstate]; simp⟩
  rcases List.mem_append.mp ha₀ with ha₀ | ha₀
  · rcases h a₀ ha₀ with hstarted | ⟨j, hj, hid, hrun, hpending⟩
    · refine .inl ?_
      show (a₀.started || _) = true
      rw [hstarted, Bool.true_or]
    · rcases pending_next (e := e) hj hpending with hstays | ⟨j', hj', hid', hstate⟩
      · exact .inr ⟨j, hstays, hid, hrun, hpending⟩
      · exact hnotice j' hj' (hid'.trans hid) hstate
  · obtain ⟨j, hj, rfl⟩ := List.mem_map.mp ha₀
    obtain ⟨hmem, hpending⟩ := newJobs_pending hj
    exact .inr ⟨j, hmem, rfl, rfl, hpending⟩

/-! ### What is owed -/

/-- The operation is under way, and pays next. -/
def Pays (s : Desk) (i : Nat) (r : String) : Prop :=
  ∃ p, (s.pool.tasks i).map Task.prog = some p ∧ Owes r p

variable {i : Nat}

theorem Pays.task (h : Pays s i r) : ∃ p v, s.pool.tasks i = some ⟨p, v⟩ ∧ Owes r p := by
  obtain ⟨p, hp, howes⟩ := h
  obtain ⟨t, ht, rfl⟩ := Option.map_eq_some_iff.mp hp
  exact ⟨t.prog, t.view, ht, howes⟩

variable {fault : Fault} {v : Unit}

theorem pays_turn {k : Except RunError c.Reply → RunProg Unit}
    (ht : s.pool.tasks i = some ⟨.call c k, v⟩)
    (howes : Owes r (k (desk.answer fault i c s.pool.world).1)) :
    Pays (deskStep s (.op (.turn i fault))) i r := by
  refine ⟨_, ?_, howes⟩
  obtain ⟨c', k', hcall⟩ : ∃ c' k', k (desk.answer fault i c s.pool.world).1 = .call c' k' := by
    rcases howes with ⟨k', hk⟩ | ⟨jobId, k', hk, _⟩
    · exact ⟨_, k', hk⟩
    · exact ⟨_, k', hk⟩
  rw [hcall]
  show ((step desk seeNothing DeskJob.task s.pool (.turn i fault)).tasks i).map Task.prog = _
  exact turn_task ht rfl hcall

/-- Where the operation that owes is not the one that makes the step, it stays. -/
theorem pays_other (hother : e.mover ≠ some i)
    (hkill : e ≠ .op (.kill i)) (h : Pays s i r) : Pays (deskStep s e) i r := by
  have htasks : (s.next e).tasks i = s.pool.tasks i := by
    cases e with
    | write | add | work | forget => rfl
    | op e =>
      cases e with
      | turn j fault =>
        show (step desk seeNothing DeskJob.task s.pool (.turn j fault)).tasks i = _
        exact turn_tasks_ne fun heq => hother (congrArg some heq.symm)
      | kill j =>
        have hne : i ≠ j := by
          rintro rfl
          exact hkill rfl
        rw [Desk.next]
        simp only [step]
        split
        · show (Pool.put _ j none).tasks i = _
          rw [put_tasks, Function.update_of_ne hne]
        · rfl
        · rintro _ _ ⟨⟩
      | start j job =>
        rw [Desk.next]
        split
        · rfl
        simp only [step]
        split
        · rfl
        rename_i hfree
        have hne : i ≠ j := by
          rintro rfl
          obtain ⟨p, v, htask, _⟩ := h.task
          exact hfree (by rw [htask]; rfl)
        rw [put_tasks, Function.update_of_ne hne]
  obtain ⟨p, hp, howes⟩ := h
  exact ⟨p, by rw [← hp]; exact congrArg _ htasks, howes⟩

theorem turn_next (hcall : NextCall s.pool i c v) (hrefused : refused s.pool.world c = false)
    (hfault : fault ≠ .failed) :
    (s.next (.op (.turn i fault))).world = (serve s.pool.world c).2 := by
  show (step desk seeNothing DeskJob.task s.pool (.turn i fault)).world = _
  rw [turn_world (fun _ _ => rfl) hcall rfl]
  simp only [desk, hrefused, Bool.false_eq_true, if_false]
  exact answer_world hfault

/-- An operation that owes makes its next statement: it has paid, or still does. -/
theorem pays_self {i : Nat} (hqueued : s.pool.world.status r = some .queued)
    (ht : t < s.clock) (hpays : Pays s i r)
    (hpasses : ∀ c v, NextCall s.pool i c v → Passes s r fault c)
    (hstill : (s.next (.op (.turn i fault))).world.status r = some .queued) :
    Served (deskStep s (.op (.turn i fault))) r t ∨ Pays (deskStep s (.op (.turn i fault))) i r := by
  obtain ⟨p, v, htask, howes⟩ := hpays.task
  rcases howes with ⟨k, rfl⟩ | ⟨jobId, k, rfl, hreverts⟩
  · -- the move is taken back
    have hfault : fault ≠ .failed := hpasses _ v ⟨k, htask⟩
    have hworld := turn_next ⟨k, htask⟩ rfl hfault
    obtain ⟨a, ha, hid, hstatus⟩ := status_eq_some hqueued
    have hback : (s.next (.op (.turn i fault))).world.status r = some .pendingInput := by
      rw [hworld]
      exact status_written (fun _ => rfl) ha (by rw [hid, hstatus]; simp)
    rw [hback] at hstill
    cases hstill
  · rcases hpasses _ v ⟨k, htask⟩ with ⟨hfault, habsent⟩ | ⟨hid, hfault⟩
    · -- the queue takes the job
      have hworld := turn_next ⟨k, htask⟩ rfl hfault
      refine .inl (served_of_added (j := { id := jobId, runId := r }) ht rfl ?_ habsent)
      rw [hworld]
      show _ ∈ addJob jobId r s.pool.world.jobs
      rw [addJob_of_absent habsent]
      exact List.mem_concat_self
    · -- the click learns that it does not
      have herror : ∃ err, (desk.answer fault i (.addJob jobId r) s.pool.world).1 = .error err := by
        cases fault with
        | answered => exact absurd rfl hfault
        | failed | lost => exact ⟨_, rfl⟩
      obtain ⟨err, herr⟩ := herror
      refine .inr (pays_turn htask ?_)
      rw [herr]
      exact .inl (hreverts hid err)

/-- **An operation that moves a run pays next.** -/
theorem pays_mover (hkeys : (s.pool.world.runs.map AgentRun.id).Nodup)
    (hsettles : s.pool.Every (fun t => Settles t.prog)) (he : e.mover = some i)
    (hspared : Spared r s e) (hnot : s.pool.world.status r ≠ some .queued)
    (hqueued : (s.next e).world.status r = some .queued) : Pays (deskStep s e) i r := by
  rcases next_world s e with hworld | ⟨j, fault, c, v, rfl, hcall, hfault, hrefused, hworld⟩ | ⟨hother, _⟩
  · rw [hworld] at hqueued
    exact absurd hqueued hnot
  · have hij : j = i := Option.some.inj he
    subst hij
    rw [hworld] at hqueued
    have hlost : fault ≠ .lost := (hspared c v hcall).1 hnot hqueued
    have hanswer : (desk.answer fault j c s.pool.world).1 = .ok (serve s.pool.world c).1 := by
      simp only [desk, hrefused, if_neg Bool.false_ne_true]
      cases fault with
      | answered => rfl
      | failed => exact absurd rfl hfault
      | lost => exact absurd rfl hlost
    obtain ⟨k, htask⟩ := hcall
    refine pays_turn htask ?_
    rw [hanswer]
    exact (hsettles j _ htask).2 s.pool.world r hkeys ⟨hnot, hqueued⟩
  · rw [hother] at he
    cases he

/-! ## Runs -/

/-- What holds while every step spares the run. -/
structure Sound (r : String) (s : Desk) : Prop where
  keys : (s.pool.world.runs.map AgentRun.id).Nodup
  settles : s.pool.Every (fun t => Settles t.prog)
  recorded : Recorded s
  moved : ∀ t i, s.moved r = some (t, i) → s.pool.world.status r = some .queued ∧ t < s.clock
  paid : ∀ t i, s.moved r = some (t, i) → Served s r t ∨ Pays s i r

theorem settles_next (h : s.pool.Every (fun t => Settles t.prog)) :
    (s.next e).Every (fun t => Settles t.prog) := by
  have hstep : ∀ ev, (step desk seeNothing DeskJob.task s.pool ev).Every
      (fun t => Settles t.prog) := fun ev =>
    step_every settles_task (fun _ _ _ rep hcall => hcall.1 rep) ev h
  cases e with
  | write | add | work | forget => exact h
  | op ev =>
    cases ev with
    | turn | kill => exact hstep _
    | start i job =>
      rw [Desk.next]
      split
      · exact h
      · exact hstep _

/-- A queued run was queued already, or has been moved by the operation that made the
    step. -/
theorem nextMoved_eq {i : Nat} (h : s.nextMoved e r = some (t, i)) :
    (s.next e).world.status r = some .queued ∧
      (s.pool.world.status r = some .queued ∧ s.moved r = some (t, i) ∨
        s.pool.world.status r ≠ some .queued ∧ e.mover = some i ∧ t = s.clock) := by
  rw [Desk.nextMoved] at h
  split at h
  · rename_i hqueued
    refine ⟨hqueued, ?_⟩
    split at h
    · rename_i hwas
      exact .inl ⟨hwas, h⟩
    · rename_i hwas
      obtain ⟨j, hj, hpair⟩ := Option.map_eq_some_iff.mp h
      cases hpair
      exact .inr ⟨hwas, hj, rfl⟩
  · cases h

theorem turn_of_mover (h : e.mover = some i) : ∃ fault, e = .op (.turn i fault) := by
  unfold DeskEvent.mover at h
  split at h
  · cases h
    exact ⟨_, rfl⟩
  · cases h

theorem sound_next (hspared : Spared r s e) (h : Sound r s) : Sound r (deskStep s e) := by
  refine ⟨keys_next h.keys, settles_next h.settles, recorded_next h.recorded, ?_, ?_⟩
  · intro t i hmoved
    obtain ⟨hqueued, ⟨_, hold⟩ | ⟨_, hmover, rfl⟩⟩ := nextMoved_eq hmoved
    · exact ⟨hqueued, Nat.lt_succ_of_lt (h.moved t i hold).2⟩
    · exact ⟨hqueued, Nat.lt_succ_self _⟩
  · intro t i hmoved
    obtain ⟨hqueued, ⟨hwas, hold⟩ | ⟨hnot, hmover, _⟩⟩ := nextMoved_eq hmoved
    · rcases h.paid t i hold with hserved | hpays
      · exact .inl hserved.next
      by_cases hserved : Served s r t
      · exact .inl hserved.next
      have howing : Owing s i r := ⟨t, hold, hserved⟩
      by_cases hself : e.mover = some i
      · obtain ⟨fault, rfl⟩ := turn_of_mover hself
        exact pays_self hwas (h.moved t i hold).2 hpays
          (fun c v hcall => (hspared c v hcall).2 howing) hqueued
      · refine .inr (pays_other hself ?_ hpays)
        rintro rfl
        exact hspared howing
    · exact .inr (pays_mover h.keys h.settles hmover hspared hnot hqueued)

end Step

variable {r : String} {s : Desk}

theorem Sound.kept (h : Sound r s) : Kept r s := by
  intro t i hmoved
  rcases h.paid t i hmoved with ⟨a, ha, hrun, htime⟩ | hpays
  · exact .inr ⟨a, ha, hrun, htime, h.recorded a ha⟩
  · obtain ⟨p, v, htask, _⟩ := hpays.task
    exact .inl (by rw [htask]; rfl)

/-- **A run that is released, triggered or approved is kept, in every state reached by
    steps that spare it.** -/
theorem run_kept {w : World} (hkeys : (w.runs.map AgentRun.id).Nodup) {r : String} {s : Desk}
    (h : Leads deskStep (Spared r) (openDesk w) s) : Kept r s := by
  have hinit : Sound r (openDesk w) := by
    refine ⟨hkeys, ?_, ?_, ?_, ?_⟩
    · rintro i t ⟨⟩
    · rintro a ⟨⟩
    · rintro t i ⟨⟩
    · rintro t i ⟨⟩
  have hsound := h.preserves (fun s e hs hspared => sound_next hspared hs) hinit
  exact hsound.kept

/-! ### A run approved, and approved again -/

theorem spared_answered {i : Nat} (hjobs : s.pool.world.jobs = []) :
    Spared r s (.op (.turn i .answered)) := by
  intro c v _
  refine ⟨fun _ _ => Fault.noConfusion, fun _ => ?_⟩
  unfold Passes
  split
  · refine .inl ⟨Fault.noConfusion, ?_⟩
    rw [hjobs]
    rintro j ⟨⟩
  · exact Fault.noConfusion

/-- A run that waits for its setup. -/
def inSetup : World where
  runs := [agentRun "r1" .pendingApproval]

/-- The approval of one field. -/
def approval (i : Nat) : List DeskEvent :=
  [.op (.start i (.approve "r1" none none)), .op (.turn i .answered), .op (.turn i .answered),
    .op (.turn i .answered)]

theorem run_kept_approval :
    ((approval 0).foldl deskStep (openDesk inSetup)).moved "r1" = some (2, 0) ∧
      Kept "r1" ((approval 0).foldl deskStep (openDesk inSetup)) := by
  refine ⟨rfl, run_kept (w := inSetup) (by decide) (Admits.leads ?_)⟩
  exact ⟨trivial, spared_answered rfl, spared_answered rfl, spared_answered rfl, trivial⟩

/-- A worker takes the job, finds another field missing, and finishes. -/
def nextField : List DeskEvent :=
  [.work "resume-setup-r1" .pending .started, .write "r1" .pendingApproval,
    .work "resume-setup-r1" .started .finished]

theorem run_lost : ¬ Kept "r1"
    ((approval 0 ++ nextField ++ approval 1).foldl deskStep (openDesk inSetup)) := by
  intro h
  rcases h 9 1 rfl with hunder | ⟨a, ha, _, htime, _⟩
  · cases hunder
  have hadds : ((approval 0 ++ nextField ++ approval 1).foldl deskStep (openDesk inSetup)).adds =
      [⟨"resume-setup-r1", "r1", 3, true⟩] := by decide +kernel
  rw [hadds, List.mem_singleton] at ha
  subst ha
  exact absurd htime (by decide)

end AgentRuns
