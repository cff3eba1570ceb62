import Cinatra.AgentRuns.TriggerService

/-! # OneSchedule — what the queue holds for a trigger

    Setting a trigger cancels the old schedule, writes the row, schedules and writes
    the row again; a failed cancellation is ignored, and only a failed schedule is
    made up for, by deleting the row.  Here calls of the two operations follow each
    other on one run, every statement and every call of the queue may fail, with or
    without effect, and release jobs are run in between. -/

namespace AgentRuns.Triggers

open Process Machine RowTable

variable {runId : String}

/-- The row of a run, and what the queue holds for it. -/
structure Held where
  row : Option TriggerRecord
  jobs : List ReleaseJob
  schedulers : List Scheduler
deriving DecidableEq

def TriggerWorld.held (w : TriggerWorld) (runId : String) : Held where
  row := w.row runId
  jobs := w.releaseJobs.filter (fun j => j.runId = runId)
  schedulers := w.schedulers.filter (fun s => s.runId = runId)

/-- The release jobs and schedulers of the run that are still to come. -/
def Held.pending (h : Held) : List Schedule :=
  (h.jobs.filter (fun j => !j.finished)).map (fun j => .once j.due) ++
    h.schedulers.map (fun s => .cron s.pattern s.tz)

/-- The row says so. -/
def Held.Describes (h : Held) (x : Schedule) : Prop :=
  ∃ t, h.row = some t ∧ scheduleOf t = some x

/-- Everything that is to come is described by the row. -/
def Held.Described (h : Held) : Prop := ∀ x ∈ h.pending, h.Describes x

/-- One schedule is to come, as the row describes it, and the row carries its id. -/
def Held.One (runId : String) (h : Held) : Prop :=
  ∃ t x, h.row = some t ∧ t.jobSchedulerId = some (jobSchedulerIdFor runId) ∧
    scheduleOf t = some x ∧ h.pending = [x]

/-! ## Calls, one after the other -/

inductive ScheduleOp where
  | set (now later : Int) (actor : TriggerActorContext) (args : SetTriggerForActorArgs)
  | delete (now : Int) (actor : TriggerActorContext)

/-- The call, and its answer. -/
def ScheduleOp.prog (host : TriggerHost) (runId : String) :
    ScheduleOp → TriggerProg (Except String (Option String))
  | .set now later actor args =>
    setRunTriggerForActor host now later actor { args with runId := runId }
  | .delete now actor => do
    let r ← deleteRunTriggerForActor now actor runId
    pure (r.map fun _ => none)

/-- Any call may fail, with or without effect. -/
def flaky : Environment TriggerCall TriggerCall.Reply RunError TriggerWorld Fault where
  answer fault c w := triggerHost.answer fault 0 c w

inductive ScheduleEvent where
  | call (op : ScheduleOp) (faults : Nat → Fault)
  /-- the delayed job of the run has been run, and is kept or dropped -/
  | ran (kept : Bool)

def scheduleStep (host : TriggerHost) (runId : String) (w : TriggerWorld) :
    ScheduleEvent → TriggerWorld
  | .call op faults => (Process.run flaky (op.prog host runId) faults w).2
  | .ran true =>
    { w with
      releaseJobs := updateWhere (fun j => j.runId = runId) (fun j => { j with finished := true })
        w.releaseJobs }
  | .ran false => { w with releaseJobs := w.releaseJobs.filter (fun j => j.runId ≠ runId) }

/-- The run has no trigger, and its id is not in the queue. -/
structure Unscheduled (runId : String) (w : TriggerWorld) : Prop where
  row : w.row runId = none
  jobs : ∀ j ∈ w.releaseJobs, j.runId ≠ runId ∧ j.id ≠ jobSchedulerIdFor runId
  schedulers : ∀ s ∈ w.schedulers, s.runId ≠ runId ∧ s.id ≠ jobSchedulerIdFor runId

/-- A set that is well has one schedule; nothing is left over where it is not, or where a
    trigger is deleted. -/
def SchedulesOne (runId : String) (op : ScheduleOp)
    (r : Except RunError (Except String (Option String))) (h : Held) : Prop :=
  match op, r with
  | .set _ _ _ args, .ok (.ok _) => args.triggerType ≠ .immediate → h.One runId
  | .set _ _ _ _, _ => h.Described
  | .delete _ _, .ok (.ok _) => h.Described
  | .delete _ _, _ => True

/-! ### The condition -/

/-- The row leads a cancellation to what the queue holds under the id. -/
def Held.LeadsTo (runId : String) (h : Held) (triggerType : TriggerType) : Prop :=
  ∃ t, h.row = some t ∧ t.triggerType = triggerType ∧
    t.jobSchedulerId = some (jobSchedulerIdFor runId)

/-- The row leads to all that is to come, and, where the id is wanted for a delayed job, to all
    that has it. -/
structure Held.Led (runId : String) (h : Held) (wantsId : Bool) : Prop where
  jobs : ∀ j ∈ h.jobs, (j.finished = false ∨ wantsId = true) → h.LeadsTo runId .scheduled
  schedulers : h.schedulers ≠ [] → h.LeadsTo runId .recurring

def SetTriggerForActorArgs.schedule (host : TriggerHost) (args : SetTriggerForActorArgs) :
    Option Schedule :=
  match args.date host with
  | .ok scheduledAt => scheduleOf (args.record scheduledAt none)
  | .error _ => none

/-- What the queue holds is what the new configuration puts in its place. -/
structure Held.InPlace (host : TriggerHost) (later : Int) (args : SetTriggerForActorArgs)
    (h : Held) : Prop where
  pending : ∀ j ∈ h.jobs, j.finished = false →
    args.schedule host = some (.once j.due) ∧ 1000 ≤ j.due - later
  finished : ∀ j ∈ h.jobs, j.finished = true → args.triggerType ≠ .scheduled
  schedulers : h.schedulers ≠ [] → args.triggerType = .recurring

/-- The row is not written anew, and not deleted. -/
def Halts : TriggerCall → Fault → Prop
  | .run (.upsertRunTrigger t), f => t.jobSchedulerId = none → ∃ err, f = .failed err
  | .deleteRunTriggerByRunId _, f => ∃ err, f = .failed err
  | _, _ => True

/-- The cancellation takes effect, and no new schedule is made without an answer. -/
def Clears : TriggerCall → Fault → Prop
  | .getJob _, f => f = .answered
  | .removeJob _, f | .run (.removeJobScheduler _), f => ∀ err, f ≠ .failed err
  | .enqueueRelease _ _ _ _, f | .upsertJobScheduler _ _ _ _, f => ∀ err, f ≠ .lost err
  | _, _ => True

/-- The new configuration is written, and scheduled. -/
def Replaces : TriggerCall → Fault → Prop
  | .run (.upsertRunTrigger t), f =>
    t.jobSchedulerId = none → t.triggerType ≠ .immediate → f = .answered
  | .enqueueRelease _ _ _ _, f | .upsertJobScheduler _ _ _ _, f => f = .answered
  | _, _ => True

/-- Every call that the operation makes is answered so. -/
def AllCalls (host : TriggerHost) (runId : String) (w : TriggerWorld) (op : ScheduleOp)
    (faults : Nat → Fault) (P : TriggerCall → Fault → Prop) : Prop :=
  ∀ x ∈ calls flaky (op.prog host runId) faults w, P x.1 x.2

/-- The operations that leave one schedule at most, described by the row. -/
def Orderly (host : TriggerHost) (runId : String) (w : TriggerWorld) : ScheduleEvent → Prop
  | .ran _ => True
  | .call op faults =>
    AllCalls host runId w op faults Halts ∨
    match op with
    | .set _ later _ args =>
      ((w.held runId).Led runId (args.triggerType = .scheduled) ∧
          AllCalls host runId w op faults Clears) ∨
        ((w.held runId).InPlace host later { args with runId := runId } ∧
          AllCalls host runId w op faults Replaces)
    | .delete _ _ =>
      ((w.held runId).Led runId false ∧ AllCalls host runId w op faults Clears) ∨
        (w.held runId).pending = []

/-! ## What the calls do to it -/

/-- What is held, and that the jobs and schedulers of the run are those under its id. -/
structure Holds (runId : String) (h : Held) (w : TriggerWorld) : Prop where
  held : w.held runId = h
  jobIds : ∀ j ∈ w.releaseJobs, j.runId = runId ↔ j.id = jobSchedulerIdFor runId
  schedulerIds : ∀ s ∈ w.schedulers, s.runId = runId ↔ s.id = jobSchedulerIdFor runId

/-- The calls of the operations on the run that write its row or its queue, or nothing. -/
inductive OfRun (runId : String) : TriggerCall → Prop where
  | upsert {t : TriggerRecord} (ht : t.runId = runId) : OfRun runId (.run (.upsertRunTrigger t))
  | readRun (id : String) : OfRun runId (.run (.readAgentRunById id))
  | readTrigger (id : String) : OfRun runId (.run (.readRunTriggerByRunId id))
  | cas (id : String) (source target : AgentRunStatus) : OfRun runId (.run (.casStatus id source target))
  | status (id : String) (status : AgentRunStatus) (completedAt : Option Int) (patch : RunMeta) :
      OfRun runId (.run (.writeStatus id status completedAt patch))
  | flag (id : String) : OfRun runId (.run (.setReleasedFlag id))
  | mark (now : Int) : OfRun runId (.run (.markTriggerReleasedInDb runId now))
  | unschedule (id : String) : OfRun runId (.run (.removeJobScheduler id))
  | delete : OfRun runId (.deleteRunTriggerByRunId runId)
  | enqueue (timestamp delay : Int) :
      OfRun runId (.enqueueRelease (jobSchedulerIdFor runId) runId timestamp delay)
  | schedule (pattern tz : String) :
      OfRun runId (.upsertJobScheduler (jobSchedulerIdFor runId) runId pattern tz)
  | getJob (id : String) : OfRun runId (.getJob id)
  | remove (id : String) : OfRun runId (.removeJob id)

/-- What such a call leaves. -/
def Held.after (runId : String) (h : Held) : TriggerCall → Held
  | .run (.upsertRunTrigger t) =>
    { h with row := some { t with releasedAt := h.row.bind TriggerRecord.releasedAt } }
  | .run (.markTriggerReleasedInDb _ now) =>
    { h with row := h.row.map (fun t => { t with releasedAt := some now }) }
  | .run (.removeJobScheduler id) =>
    { h with schedulers := if id = jobSchedulerIdFor runId then [] else h.schedulers }
  | .deleteRunTriggerByRunId _ => { h with row := none }
  | .enqueueRelease id runId timestamp delay =>
    { h with
      jobs := if h.jobs = [] then
          [{ id := id, runId := runId, due := timestamp + delay }] else h.jobs }
  | .upsertJobScheduler id runId pattern tz =>
    { h with schedulers := [{ id := id, runId := runId, pattern := pattern, tz := tz }] }
  | .removeJob id => { h with jobs := if id = jobSchedulerIdFor runId then [] else h.jobs }
  | _ => h

section Writes

variable {h : Held} {w : TriggerWorld} {α : Type}

theorem filter_filter_id {rows : List α} {id own : String} {idOf runOf : α → String}
    (hids : ∀ r ∈ rows, runOf r = runId ↔ idOf r = own) :
    (rows.filter (fun r => idOf r ≠ id)).filter (fun r => runOf r = runId) =
      if id = own then [] else rows.filter (fun r => runOf r = runId) := by
  rw [List.filter_filter]
  split
  · rename_i hown
    rw [List.filter_eq_nil_iff]
    intro r hr
    simp only [Bool.and_eq_true, decide_eq_true_eq, not_and, not_not, ne_eq]
    exact fun hrun => ((hids r hr).mp hrun).trans hown.symm
  · rename_i hother
    refine List.filter_congr fun r hr => ?_
    by_cases hrun : runOf r = runId
    · have hne : idOf r ≠ id := fun hid => hother (hid.symm.trans ((hids r hr).mp hrun))
      simp [hrun, hne]
    · simp [hrun]

theorem filter_eq_nil_of_id {rows : List α} {own : String} {idOf runOf : α → String}
    (hids : ∀ r ∈ rows, runOf r = runId ↔ idOf r = own) :
    rows.filter (fun r => runOf r = runId) = [] ↔ ∀ r ∈ rows, idOf r ≠ own := by
  rw [List.filter_eq_nil_iff]
  refine forall₂_congr fun r hr => ?_
  rw [decide_eq_true_eq, hids r hr]

variable {jobs : List ReleaseJob}

theorem mem_addRelease {job j : ReleaseJob}
    (hj : j ∈ addRelease job jobs) : j ∈ jobs ∨ j = job := by
  rw [addRelease] at hj
  split at hj
  · exact .inl hj
  · rw [List.mem_append, List.mem_singleton] at hj
    exact hj

theorem filter_addRelease {job : ReleaseJob}
    (hids : ∀ j ∈ jobs, j.runId = runId ↔ j.id = jobSchedulerIdFor runId)
    (hrun : job.runId = runId) (hid : job.id = jobSchedulerIdFor runId) :
    (addRelease job jobs).filter (fun j => j.runId = runId) =
      if jobs.filter (fun j => j.runId = runId) = [] then [job]
      else jobs.filter (fun j => j.runId = runId) := by
  have hnil := filter_eq_nil_of_id hids
  rw [addRelease]
  by_cases hnone : jobs.filter (fun j => j.runId = runId) = []
  · rw [if_pos hnone, if_neg]
    · rw [List.filter_append, hnone, List.nil_append, List.filter_singleton,
        decide_eq_true hrun]
      rfl
    · rw [List.any_eq_true]
      rintro ⟨j, hj, hsame⟩
      exact hnil.mp hnone j hj ((of_decide_eq_true hsame).trans hid)
  · rw [if_neg hnone, if_pos]
    rw [hnil] at hnone
    push Not at hnone
    obtain ⟨j, hj, hown⟩ := hnone
    rw [List.any_eq_true]
    exact ⟨j, hj, decide_eq_true (hown.trans hid.symm)⟩

theorem Holds.write {c : TriggerCall} (hw : Holds runId h w) (hc : OfRun runId c) :
    Holds runId (h.after runId c) (w.write 0 c) := by
  obtain ⟨rfl, hjobs, hschedulers⟩ := hw
  cases hc with
  | @upsert t ht =>
    refine ⟨?_, hjobs, hschedulers⟩
    have hrow := find_upsertTrigger runId t w.base.triggers
    rw [if_pos ht] at hrow
    show Held.mk _ _ _ = Held.mk _ _ _
    congr 1
  | mark now =>
    refine ⟨?_, hjobs, hschedulers⟩
    have hrow := find_markReleased runId runId now w.base.triggers
    rw [if_pos rfl] at hrow
    show Held.mk _ _ _ = Held.mk _ _ _
    congr 1
  | unschedule id =>
    refine ⟨?_, hjobs, fun s hs => hschedulers s (List.mem_filter.mp hs).1⟩
    show Held.mk _ _ _ = Held.mk _ _ _
    congr 1
    exact filter_filter_id hschedulers
  | delete =>
    refine ⟨?_, hjobs, hschedulers⟩
    have hrow := find_filter_ne runId runId w.base.triggers
    rw [if_pos rfl] at hrow
    show Held.mk _ _ _ = Held.mk _ _ _
    congr 1
  | enqueue timestamp delay =>
    let job : ReleaseJob :=
      { id := jobSchedulerIdFor runId, runId := runId, due := timestamp + delay }
    have hids : ∀ j ∈ addRelease job w.releaseJobs, j.runId = runId ↔ j.id = jobSchedulerIdFor runId := by
      intro j hj
      rcases mem_addRelease hj with hj | rfl
      · exact hjobs j hj
      · exact iff_of_true rfl rfl
    refine ⟨?_, hids, hschedulers⟩
    show Held.mk _ _ _ = Held.mk _ _ _
    congr 1
    exact filter_addRelease hjobs rfl rfl
  | schedule pattern tz =>
    refine ⟨?_, hjobs, ?_⟩
    · show Held.mk _ _ _ = Held.mk _ _ _
      congr 1
      show (w.schedulers.filter _ ++ [_]).filter _ = _
      rw [List.filter_append, filter_filter_id hschedulers, if_pos rfl, List.nil_append,
        List.filter_singleton, decide_eq_true rfl]
      rfl
    · intro s hs
      rcases mem_concat.mp hs with hs | rfl
      · exact hschedulers s (List.mem_filter.mp hs).1
      · exact iff_of_true rfl rfl
  | remove id =>
    refine ⟨?_, fun j hj => hjobs j (List.mem_filter.mp hj).1, hschedulers⟩
    show Held.mk _ _ _ = Held.mk _ _ _
    congr 1
    exact filter_filter_id hjobs
  | _ => exact ⟨rfl, hjobs, hschedulers⟩

end Writes

/-! ## Programs, where the calls are answered as a condition allows -/

section Programs

variable {P : TriggerCall → Fault → Prop} {h : Held} {w : TriggerWorld}

/-- What holds at the end of a program whose calls are answered as `P` allows. -/
abbrev Ends {α : Type} (P : TriggerCall → Fault → Prop) (p : TriggerProg α)
    (Q : Except RunError α → TriggerWorld → Prop) (w : TriggerWorld) : Prop :=
  Spec (flaky.restrict P) (fun _ _ => True) p Q w

variable {c : TriggerCall}

/-- One call: it is carried out and answered or not, or it is not carried out. -/
theorem ends_call (hc : OfRun runId c) (hw : Holds runId h w)
    {Q : Except RunError c.Reply → TriggerWorld → Prop}
    (hanswered : P c .answered → ∀ w', Holds runId (h.after runId c) w' → Q (.ok (w.reply c)) w')
    (hlost : ∀ err, P c (.lost err) → ∀ w', Holds runId (h.after runId c) w' → Q (.error err) w')
    (hfailed : ∀ err, P c (.failed err) → ∀ w', Holds runId h w' → Q (.error err) w') :
    Ends P (perform c) Q w := by
  refine ⟨trivial, fun f => ?_⟩
  show Q (triggerHost.answer (f c).1 0 c w).1 (triggerHost.answer (f c).1 0 c w).2
  have hf := (f c).2
  cases hfault : (f c).1 with
  | answered => exact hanswered (hfault ▸ hf) _ (hw.write hc)
  | failed err => exact hfailed err (hfault ▸ hf) _ hw
  | lost err => exact hlost err (hfault ▸ hf) _ (hw.write hc)

theorem ends_read (hc : OfRun runId c) (hw : Holds runId h w)
    (hsame : h.after runId c = h) {Q : Except RunError c.Reply → TriggerWorld → Prop}
    (hok : ∀ w', Holds runId h w' → Q (.ok (w.reply c)) w')
    (herr : ∀ err w', Holds runId h w' → Q (.error err) w') : Ends P (perform c) Q w := by
  refine ends_call hc hw ?_ ?_ ?_
  · rw [hsame]
    exact fun _ => hok
  · rw [hsame]
    exact fun err _ => herr err
  · exact fun err _ => herr err

/-- A call that writes nothing of what is held. -/
def Idle (runId : String) (c : TriggerCall) : Prop :=
  OfRun runId c ∧ ∀ h : Held, h.after runId c = h

variable {α : Type}

theorem ends_idle {p : TriggerProg α} (hp : Only (Idle runId) p)
    (hw : Holds runId h w) : Ends P p (fun _ w' => Holds runId h w') w := by
  refine hp.spec (I := Holds runId h) (fun w' c f hc hw' => ?_) hw
  have hwrite := hw'.write hc.1
  rw [hc.2] at hwrite
  show Holds runId h (triggerHost.answer (f c).1 0 c w').2
  cases (f c).1 with
  | answered => exact hwrite
  | failed err => exact hw'
  | lost err => exact hwrite

theorem idle_readRun (id : String) : Idle runId (.run (.readAgentRunById id)) :=
  ⟨.readRun id, fun _ => rfl⟩

theorem authorize_idle (actor : TriggerActorContext) (id : String) :
    Only (Idle runId) (authorize actor id) := by
  rw [authorize]
  split
  · exact only_pure _
  refine Only.bind (only_perform (idle_readRun id)) fun run => ?_
  split
  · exact only_pure _
  · split
    · exact only_pure _
    · exact only_pure _

theorem onRun_idle {p : RunProg α}
    (hp : Only (fun c => Idle runId (.run c)) p) : Only (Idle runId) (onRun p) :=
  hp.hoist fun _ hc => hc

theorem tryTransition_idle (now : Int) (id : String) (source target : AgentRunStatus) :
    Only (Idle runId) (onRun (tryTransition now id source target)) := by
  refine onRun_idle (Only.tryCatch ?_ fun err => only_lift _)
  refine Only.bind (transition_only (fun _ => ?_) ?_) fun _ => only_pure _
  · exact only_perform ⟨.cas _ _ _, fun _ => rfl⟩
  · exact only_perform ⟨.status _ _ _ _, fun _ => rfl⟩

theorem flipStatus_idle (now : Int) (args : SetTriggerForActorArgs) :
    Only (Idle runId) (flipStatus now args) := by
  rw [flipStatus]
  split
  · exact Only.bind (tryTransition_idle _ _ _ _) fun _ => only_pure _
  · refine Only.bind (tryTransition_idle _ _ _ _) fun moved => ?_
    split
    · exact only_pure _
    · exact Only.bind (tryTransition_idle _ _ _ _) fun _ => only_pure _

theorem disarm_idle (now : Int) (id : String) (triggerType : TriggerType) :
    Only (Idle runId) (disarm now id triggerType) := by
  rw [disarm.eq_def]
  split
  · exact only_pure _
  · exact Only.bind (tryTransition_idle _ _ _ _) fun _ => only_pure _

/-! ### The cancellation -/

/-- What a cancellation leaves: all of it or none, and none where the row leads to it and the
    calls take effect. -/
structure Cancelled (runId : String) (P : TriggerCall → Fault → Prop) (h h' : Held) : Prop where
  row : h'.row = h.row
  jobs : h'.jobs = h.jobs ∨ h'.jobs = []
  schedulers : h'.schedulers = h.schedulers ∨ h'.schedulers = []
  clearsJobs : (∀ c f, P c f → Clears c f) → h.LeadsTo runId .scheduled → h'.jobs = []
  clearsSchedulers : (∀ c f, P c f → Clears c f) → h.LeadsTo runId .recurring → h'.schedulers = []

theorem given_jobSchedulerIdFor (runId : String) :
    given (some (jobSchedulerIdFor runId)) = some (jobSchedulerIdFor runId) := by
  have hne : jobSchedulerIdFor runId ≠ "" := by
    intro h
    have hlength := congrArg String.length h
    rw [jobSchedulerIdFor, String.length_append] at hlength
    exact absurd (Nat.eq_zero_of_add_eq_zero_right hlength) (by decide)
  rw [given, Option.filter_some, if_pos (decide_eq_true hne)]

theorem Held.LeadsTo.given {triggerType : TriggerType} (hleads : h.LeadsTo runId triggerType) :
    Triggers.given (h.row.bind TriggerRecord.jobSchedulerId) = some (jobSchedulerIdFor runId) ∧
      (h.row.map TriggerRecord.triggerType).getD .immediate = triggerType := by
  obtain ⟨t, ht, htype, hid⟩ := hleads
  rw [ht, Option.bind_some, hid, given_jobSchedulerIdFor]
  exact ⟨rfl, htype⟩

theorem Cancelled.unchanged (hjobs : ¬ h.LeadsTo runId .scheduled)
    (hschedulers : ¬ h.LeadsTo runId .recurring) : Cancelled runId P h h :=
  ⟨rfl, .inl rfl, .inl rfl, fun _ hleads => absurd hleads hjobs,
    fun _ hleads => absurd hleads hschedulers⟩

theorem ite_nil_cases (p : Prop) [Decidable p] (rows : List α) :
    (if p then [] else rows) = rows ∨ (if p then [] else rows) = [] := by
  split
  · exact .inr rfl
  · exact .inl rfl

theorem cancel_ends (hw : Holds runId h w) :
    Ends P (cancelTriggerSchedule (h.row.bind TriggerRecord.jobSchedulerId)
        ((h.row.map TriggerRecord.triggerType).getD .immediate))
      (fun _ w' => ∃ h', Holds runId h' w' ∧ Cancelled runId P h h') w := by
  rw [cancelTriggerSchedule]
  cases hid : given (h.row.bind TriggerRecord.jobSchedulerId) with
  | none =>
    have hnot (triggerType : TriggerType) : ¬ h.LeadsTo runId triggerType := by
      intro hleads
      rw [hleads.given.1] at hid
      cases hid
    exact ⟨h, hw, .unchanged (hnot _) (hnot _)⟩
  | some id =>
    have hown {triggerType : TriggerType} (hleads : h.LeadsTo runId triggerType) :
        id = jobSchedulerIdFor runId := by
      rw [hleads.given.1] at hid
      exact (Option.some.inj hid).symm
    cases htype : (h.row.map TriggerRecord.triggerType).getD .immediate with
    | immediate =>
      have hnot {triggerType : TriggerType} (hne : triggerType ≠ .immediate) :
          ¬ h.LeadsTo runId triggerType := fun hleads => hne (hleads.given.2.symm.trans htype)
      exact ⟨h, hw, .unchanged (hnot TriggerType.noConfusion) (hnot TriggerType.noConfusion)⟩
    | recurring =>
      have hnot : ¬ h.LeadsTo runId .scheduled := fun hleads =>
        TriggerType.noConfusion (hleads.given.2.symm.trans htype)
      have hremoved : Cancelled runId P h (h.after runId (.run (.removeJobScheduler id))) := by
        refine ⟨rfl, .inl rfl, ?_, fun _ hleads => absurd hleads hnot, fun _ hleads => ?_⟩
        · exact ite_nil_cases _ _
        · exact if_pos (hown hleads)
      refine ends_call (.unschedule id) hw ?_ ?_ ?_
      · exact fun _ w' hw' => ⟨_, hw', hremoved⟩
      · exact fun _ _ w' hw' => ⟨_, hw', hremoved⟩
      · intro err hP w' hw'
        refine ⟨h, hw', rfl, .inl rfl, .inl rfl, fun _ hleads => absurd hleads hnot, ?_⟩
        exact fun hclears => absurd rfl (hclears _ _ hP err)
    | scheduled =>
      have hnot : ¬ h.LeadsTo runId .recurring := fun hleads =>
        TriggerType.noConfusion (hleads.given.2.symm.trans htype)
      have hkept (hfails : ∀ hclears : ∀ c f, P c f → Clears c f, h.LeadsTo runId .scheduled →
          h.jobs = []) : Cancelled runId P h h :=
        ⟨rfl, .inl rfl, .inl rfl, hfails, fun _ hleads => absurd hleads hnot⟩
      have hremoved : Cancelled runId P h (h.after runId (.removeJob id)) := by
        refine ⟨rfl, ?_, .inl rfl, fun _ hleads => ?_, fun _ hleads => absurd hleads hnot⟩
        · exact ite_nil_cases _ _
        · exact if_pos (hown hleads)
      refine Spec.bind (ends_call (.getJob id) hw ?_ ?_ ?_)
      · intro _ w' hw'
        show Ends P (if (w.releaseJobs.find? (fun j => j.id = id)).isSome then _ else _) _ _
        split
        · refine ends_call (.remove id) hw' ?_ ?_ ?_
          · exact fun _ w' hw' => ⟨_, hw', hremoved⟩
          · exact fun _ _ w' hw' => ⟨_, hw', hremoved⟩
          · intro err hP w' hw'
            exact ⟨h, hw', hkept fun hclears => absurd rfl (hclears _ _ hP err)⟩
        · -- no job has the id
          rename_i hnone
          rw [Option.not_isSome_iff_eq_none, List.find?_eq_none] at hnone
          refine ⟨h, hw', hkept fun _ hleads => ?_⟩
          rw [← hw.held]
          refine (filter_eq_nil_of_id hw.jobIds).mpr fun j hj => ?_
          rw [← hown hleads]
          exact fun hid => hnone j hj (decide_eq_true hid)
      · intro err hP w' hw'
        exact ⟨h, hw', hkept fun hclears => absurd (hclears _ _ hP) Fault.noConfusion⟩
      · intro err hP w' hw'
        exact ⟨h, hw', hkept fun hclears => absurd (hclears _ _ hP) Fault.noConfusion⟩

end Programs

/-! ## What is to come -/

section Pending

variable {P : TriggerCall → Fault → Prop} {h h' : Held} {host : TriggerHost} {later : Int}
  {args : SetTriggerForActorArgs} {x : Schedule}

theorem mem_pending : x ∈ h.pending ↔ (∃ j ∈ h.jobs, j.finished = false ∧ .once j.due = x) ∨
      ∃ s ∈ h.schedulers, .cron s.pattern s.tz = x := by
  simp [Held.pending, and_assoc]

theorem pending_eq_nil : h.pending = [] ↔
    (∀ j ∈ h.jobs, j.finished = true) ∧ h.schedulers = [] := by
  simp [Held.pending, List.filter_eq_nil_iff]

theorem described_of_nil (hnil : h.pending = []) : h.Described := by
  intro x hx
  rw [hnil] at hx
  cases hx

/-- One job at most is in the queue, and what is to come is described. -/
structure Held.Fine (h : Held) : Prop where
  few : h.jobs.length ≤ 1
  described : h.Described

section

variable (hc : Cancelled runId P h h')

include hc

theorem Cancelled.sub (hx : x ∈ h'.pending) : x ∈ h.pending := by
  rw [mem_pending] at hx ⊢
  rcases hx with ⟨j, hj, hx⟩ | ⟨s, hs, hx⟩
  · rcases hc.jobs with hsame | hnil
    · exact .inl ⟨j, hsame ▸ hj, hx⟩
    · rw [hnil] at hj
      cases hj
  · rcases hc.schedulers with hsame | hnil
    · exact .inr ⟨s, hsame ▸ hs, hx⟩
    · rw [hnil] at hs
      cases hs

theorem Cancelled.fine (hfine : h.Fine) : h'.Fine := by
  refine ⟨?_, fun x hx => ?_⟩
  · rcases hc.jobs with hsame | hnil
    · rw [hsame]
      exact hfine.few
    · rw [hnil]
      exact Nat.zero_le 1
  · obtain ⟨t, ht, hx⟩ := hfine.described x (hc.sub hx)
    exact ⟨t, hc.row.trans ht, hx⟩

theorem Cancelled.pending_eq_nil (hnil : h.pending = []) : h'.pending = [] := by
  rw [List.eq_nil_iff_forall_not_mem]
  intro x hx
  have hx := hc.sub hx
  rw [hnil] at hx
  cases hx

/-- Where the row leads to all that is held, a cancellation that takes effect leaves nothing. -/
theorem Cancelled.cleared {wantsId : Bool}
    (hclears : ∀ c f, P c f → Clears c f) (hled : h.Led runId wantsId) :
    h'.pending = [] ∧ (wantsId = true → h'.jobs = []) := by
  have hjobs : ∀ j ∈ h'.jobs, ¬ (j.finished = false ∨ wantsId = true) := by
    intro j hj hblocks
    rcases hc.jobs with hsame | hnil
    · have hempty := hc.clearsJobs hclears (hled.jobs j (hsame ▸ hj) hblocks)
      rw [hempty] at hj
      cases hj
    · rw [hnil] at hj
      cases hj
  refine ⟨Triggers.pending_eq_nil.mpr ⟨fun j hj => ?_, ?_⟩, fun hwants => ?_⟩
  · rw [← Bool.not_eq_false]
    exact fun hfinished => hjobs j hj (.inl hfinished)
  · rcases hc.schedulers with hsame | hnil
    · by_cases hsome : h.schedulers = []
      · exact hsame.trans hsome
      · exact hc.clearsSchedulers hclears (hled.schedulers hsome)
    · exact hnil
  · rw [List.eq_nil_iff_forall_not_mem]
    exact fun j hj => hjobs j hj (.inr hwants)

theorem Cancelled.inPlace (hin : h.InPlace host later args) : h'.InPlace host later args := by
  have hjobs : ∀ j ∈ h'.jobs, j ∈ h.jobs := by
    intro j hj
    rcases hc.jobs with hsame | hnil
    · exact hsame ▸ hj
    · rw [hnil] at hj
      cases hj
  refine ⟨fun j hj => hin.pending j (hjobs j hj), fun j hj => hin.finished j (hjobs j hj), ?_⟩
  intro hsome
  rcases hc.schedulers with hsame | hnil
  · exact hin.schedulers (hsame ▸ hsome)
  · exact absurd hnil hsome

end

theorem inPlace_of_nil (hnil : h.pending = [])
    (hjobs : args.triggerType = .scheduled → h.jobs = []) : h.InPlace host later args := by
  obtain ⟨hfinished, hschedulers⟩ := pending_eq_nil.mp hnil
  refine ⟨fun j hj hfresh => ?_, fun j hj _ htype => ?_, fun hsome => absurd hschedulers hsome⟩
  · rw [hfinished j hj] at hfresh
    cases hfresh
  · rw [hjobs htype] at hj
    cases hj

end Pending

/-! ## Setting a trigger -/

section Set

variable {P : TriggerCall → Fault → Prop} {h : Held} {w : TriggerWorld} {host : TriggerHost}
  {later : Int} {args : SetTriggerForActorArgs} {scheduledAt : Option Int}

/-- A new schedule is not made without an answer. -/
def Heard : TriggerCall → Fault → Prop
  | .enqueueRelease _ _ _ _, f | .upsertJobScheduler _ _ _ _, f => ∀ err, f ≠ .lost err
  | _, _ => True

/-- What the new configuration finds: nothing in its way, and, where something is to come that it
    replaces, calls that go through. -/
structure Ready (host : TriggerHost) (later : Int) (args : SetTriggerForActorArgs)
    (P : TriggerCall → Fault → Prop) (h : Held) : Prop where
  inPlace : h.InPlace host later args
  heard : ∀ c f, P c f → Heard c f
  replaces : h.pending = [] ∨ ∀ c f, P c f → Replaces c f

/-- The schedule that is made for a row. -/
structure Made (runId : String) (args : SetTriggerForActorArgs) (scheduledAt : Option Int)
    (id : Option String) (h : Held) : Prop where
  few : h.jobs.length ≤ 1
  row : ∃ t, h.row = some t ∧ scheduleOf t = scheduleOf (args.record scheduledAt none)
  immediate : args.triggerType = .immediate → h.pending = []
  scheduled : args.triggerType ≠ .immediate → id = some (jobSchedulerIdFor runId) ∧
    ∃ x, scheduleOf (args.record scheduledAt none) = some x ∧ h.pending = [x]

variable {id : Option String}

theorem Made.fine (hmade : Made runId args scheduledAt id h) : h.Fine := by
  refine ⟨hmade.few, ?_⟩
  by_cases himm : args.triggerType = .immediate
  · exact described_of_nil (hmade.immediate himm)
  obtain ⟨_, x, hx, hpending⟩ := hmade.scheduled himm
  obtain ⟨t, ht, hschedule⟩ := hmade.row
  intro y hy
  rw [hpending, List.mem_singleton] at hy
  exact ⟨t, ht, hschedule.trans (hx.trans (congrArg some hy.symm))⟩

theorem Ready.pending_immediate (hready : Ready host later args P h)
    (himm : args.triggerType = .immediate) : h.pending = [] := by
  refine pending_eq_nil.mpr ⟨fun j hj => ?_, ?_⟩
  · rw [← Bool.not_eq_false]
    intro hfresh
    have hschedule := (hready.inPlace.pending j hj hfresh).1
    rw [SetTriggerForActorArgs.schedule] at hschedule
    cases hdate : args.date host with
    | error err =>
      rw [hdate] at hschedule
      cases hschedule
    | ok scheduledAt =>
      rw [hdate] at hschedule
      simp [scheduleOf, SetTriggerForActorArgs.record, himm] at hschedule
  · by_contra hsome
    have htype := hready.inPlace.schedulers hsome
    rw [himm] at htype
    cases htype

/-- What a schedule is made of: the row, and what is in the queue. -/
structure Unmade (host : TriggerHost) (later : Int) (args : SetTriggerForActorArgs)
    (scheduledAt : Option Int) (P : TriggerCall → Fault → Prop) (h : Held) : Prop where
  few : h.jobs.length ≤ 1
  row : ∃ t, h.row = some t ∧ scheduleOf t = scheduleOf (args.record scheduledAt none)
  date : args.date host = .ok scheduledAt
  ready : Ready host later args P h

theorem Unmade.job (hun : Unmade host later args scheduledAt P h) {j : ReleaseJob} (hj : j ∈ h.jobs)
    (hfresh : j.finished = false) :
    scheduleOf (args.record scheduledAt none) = some (.once j.due) ∧ 1000 ≤ j.due - later := by
  have hschedule := hun.ready.inPlace.pending j hj hfresh
  rw [SetTriggerForActorArgs.schedule, hun.date] at hschedule
  exact hschedule

theorem Unmade.nothing (hun : Unmade host later args scheduledAt P h)
    (hnot : args.triggerType ≠ .recurring)
    (hjob : ∀ due, scheduleOf (args.record scheduledAt none) = some (.once due) →
      due - later < 1000) : h.pending = [] := by
  refine pending_eq_nil.mpr ⟨fun j hj => ?_, ?_⟩
  · rw [← Bool.not_eq_false]
    intro hfresh
    obtain ⟨hschedule, hlate⟩ := hun.job hj hfresh
    have hearly := hjob _ hschedule
    omega
  · by_contra hsome
    exact hnot (hun.ready.inPlace.schedulers hsome)

/-- How making a schedule ends: it is made, or nothing is to come. -/
def MadeOrNot (runId : String) (args : SetTriggerForActorArgs) (scheduledAt : Option Int)
    (r : Except RunError (Option String)) (w : TriggerWorld) : Prop :=
  ∃ h, Holds runId h w ∧
    match r with
    | .ok id => Made runId args scheduledAt id h
    | .error _ => h.jobs.length ≤ 1 ∧ h.pending = []

/-- A delayed job is added, or the one that is there is as good. -/
theorem Unmade.enqueued (hun : Unmade host later args scheduledAt P h)
    (htype : args.triggerType = .scheduled) {due : Int} (hdue : scheduledAt = some due) :
    Made runId args scheduledAt (some (jobSchedulerIdFor runId))
      (h.after runId (.enqueueRelease (jobSchedulerIdFor runId) runId later (due - later))) := by
  have hschedule : scheduleOf (args.record scheduledAt none) = some (.once due) := by
    simp [scheduleOf, SetTriggerForActorArgs.record, htype, hdue]
  have hnone : h.schedulers = [] := by
    by_contra hsome
    have hrec := hun.ready.inPlace.schedulers hsome
    rw [htype] at hrec
    cases hrec
  have hne : args.triggerType ≠ .immediate := by
    rw [htype]
    exact TriggerType.noConfusion
  by_cases hjobs : h.jobs = []
  · have hafter : h.after runId
        (.enqueueRelease (jobSchedulerIdFor runId) runId later (due - later)) =
        { h with jobs := [{ id := jobSchedulerIdFor runId, runId := runId,
                            due := later + (due - later) }] } := by
      simp only [Held.after, hjobs, if_true]
    rw [hafter]
    refine ⟨Nat.le_refl 1, hun.row, fun himm => absurd himm hne, fun _ => ⟨rfl, _, hschedule, ?_⟩⟩
    simp only [Held.pending, hnone, List.map_nil, List.append_nil]
    show [Schedule.once (later + (due - later))] = [.once due]
    congr 2
    omega
  · have hafter : h.after runId
        (.enqueueRelease (jobSchedulerIdFor runId) runId later (due - later)) = h := by
      simp only [Held.after, if_neg hjobs]
    rw [hafter]
    refine ⟨hun.few, hun.row, fun himm => absurd himm hne, fun _ => ⟨rfl, _, hschedule, ?_⟩⟩
    obtain ⟨j, hj⟩ : ∃ j, h.jobs = [j] := by
      refine List.length_eq_one_iff.mp (Nat.le_antisymm hun.few ?_)
      exact List.length_pos_iff.mpr hjobs
    have hmem : j ∈ h.jobs := hj ▸ List.mem_singleton_self j
    have hfresh : j.finished = false := by
      rw [← Bool.not_eq_true]
      exact fun hfinished => hun.ready.inPlace.finished j hmem hfinished htype
    have hsame := (hun.job hmem hfresh).1
    rw [hschedule] at hsame
    cases hsame
    simp [Held.pending, hj, hfresh, hnone]

theorem Unmade.registered (hun : Unmade host later args scheduledAt P h)
    (htype : args.triggerType = .recurring) {pattern : String}
    (hpattern : args.cronExpression = some pattern) :
    Made runId args scheduledAt (some (jobSchedulerIdFor runId))
      (h.after runId (.upsertJobScheduler (jobSchedulerIdFor runId) runId pattern args.tz)) := by
  have hschedule : scheduleOf (args.record scheduledAt none) = some (.cron pattern args.tz) := by
    simp [scheduleOf, SetTriggerForActorArgs.record, htype, hpattern]
  have hne : args.triggerType ≠ .immediate := by
    rw [htype]
    exact TriggerType.noConfusion
  refine ⟨hun.few, hun.row, fun himm => absurd himm hne, fun _ => ⟨rfl, _, hschedule, ?_⟩⟩
  have hfinished : h.jobs.filter (fun j => !j.finished) = [] := by
    rw [List.filter_eq_nil_iff]
    intro j hj hfresh
    have hsame := (hun.job hj (by simpa using hfresh)).1
    rw [hschedule] at hsame
    cases hsame
  simp [Held.after, Held.pending, hfinished]

theorem given_eq_some {text : Option String} {value : String} (h : given text = some value) :
    text = some value := (Option.filter_eq_some_iff.mp h).1

theorem scheduleTrigger_ends (hrun : args.runId = runId) (hw : Holds runId h w)
    (hun : Unmade host later args scheduledAt P h)
    (hcron : args.triggerType = .recurring → ∃ pattern, given args.cronExpression = some pattern) :
    Ends P (scheduleTrigger later args scheduledAt) (MadeOrNot runId args scheduledAt) w := by
  subst hrun
  rw [scheduleTrigger.eq_def]
  cases htype : args.triggerType with
  | immediate =>
    have hnil := hun.ready.pending_immediate htype
    obtain ⟨t, ht, hsame⟩ := hun.row
    dsimp only
    rw [markTriggerReleased, onRun_bind, onRun_perform, onRun_perform, bind_assoc]
    refine Spec.bind (ends_read (.flag _) hw rfl ?_ ?_)
    · intro w' hw'
      refine Spec.bind (ends_call (.mark _) hw' ?_ ?_ ?_)
      · intro _ w' hw'
        refine ⟨_, hw', hun.few, ⟨{ t with releasedAt := some later }, ?_, hsame⟩, fun _ => hnil, ?_⟩
        · show h.row.map _ = _
          rw [ht]
          rfl
        · exact fun hne => absurd htype hne
      · exact fun _ _ w' hw' => ⟨_, hw', hun.few, hnil⟩
      · exact fun _ _ w' hw' => ⟨h, hw', hun.few, hnil⟩
    · exact fun _ w' hw' => ⟨h, hw', hun.few, hnil⟩
  | scheduled =>
    have hnot : args.triggerType ≠ .recurring := by
      rw [htype]
      exact TriggerType.noConfusion
    have hdue {due : Int} : scheduleOf (args.record scheduledAt none) = some (.once due) →
        scheduledAt = some due := by
      simp [scheduleOf, SetTriggerForActorArgs.record, htype]
    dsimp only
    split
    · refine ⟨h, hw, hun.few, hun.nothing hnot fun due hsome => ?_⟩
      cases hdue hsome
    rename_i due
    split
    · rename_i hclose
      refine ⟨h, hw, hun.few, hun.nothing hnot fun due' hsome => ?_⟩
      cases hdue hsome
      exact hclose
    · refine Spec.bind (ends_call (.enqueue _ _) hw ?_ ?_ ?_)
      · exact fun _ w' hw' => ⟨_, hw', hun.enqueued htype rfl⟩
      · exact fun err hP => absurd rfl (hun.ready.heard _ _ hP err)
      · intro err hP w' hw'
        refine ⟨h, hw', hun.few, ?_⟩
        rcases hun.ready.replaces with hnil | hreplaces
        · exact hnil
        · exact absurd (hreplaces _ _ hP) Fault.noConfusion
  | recurring =>
    obtain ⟨pattern, hpattern⟩ := hcron htype
    dsimp only
    rw [hpattern]
    refine Spec.bind (ends_call (.schedule _ _) hw ?_ ?_ ?_)
    · exact fun _ w' hw' => ⟨_, hw', hun.registered htype (given_eq_some hpattern)⟩
    · exact fun err hP => absurd rfl (hun.ready.heard _ _ hP err)
    · intro err hP w' hw'
      refine ⟨h, hw', hun.few, ?_⟩
      rcases hun.ready.replaces with hnil | hreplaces
      · exact hnil
      · exact absurd (hreplaces _ _ hP) Fault.noConfusion

/-- The schedule is made, or the row is deleted, and nothing is to come. -/
theorem scheduleOrDelete_ends (hrun : args.runId = runId) (hw : Holds runId h w)
    (hun : Unmade host later args scheduledAt P h)
    (hcron : args.triggerType = .recurring → ∃ pattern, given args.cronExpression = some pattern) :
    Ends P (scheduleOrDelete later args scheduledAt)
      (Post (fun r w' => ∃ h', Holds runId h' w' ∧
        match r with
        | .ok id => Made runId args scheduledAt id h'
        | .error _ => h'.Fine) (fun _ _ => False)) w := by
  rw [scheduleOrDelete]
  refine Spec.tryCatch (Spec.bind (Spec.mono (scheduleTrigger_ends hrun hw hun hcron) ?_))
  rintro r w' ⟨h', hw', hr⟩
  cases r with
  | ok id => exact ⟨h', hw', hr⟩
  | error err =>
    obtain ⟨hfew, hnil⟩ := hr
    subst hrun
    have hfine (row : Option TriggerRecord) : Held.Fine { h' with row := row } :=
      ⟨hfew, described_of_nil (h := { h' with row := row }) hnil⟩
    refine Spec.bind (Spec.swallow (ends_call .delete hw' ?_ ?_ ?_))
    · exact fun _ w' hw' => ⟨_, hw', hfine none⟩
    · exact fun _ _ w' hw' => ⟨_, hw', hfine none⟩
    · exact fun _ _ w' hw' => ⟨h', hw', hfine h'.row⟩

/-- How a set ends. -/
def SetEnds (runId : String) (args : SetTriggerForActorArgs)
    (r : Except RunError (Except String (Option String))) (w : TriggerWorld) : Prop :=
  ∃ h, Holds runId h w ∧ h.Fine ∧
    ∀ id, r = .ok (.ok id) → args.triggerType ≠ .immediate → h.One runId

theorem complete_ends (hrun : args.runId = runId) (hw : Holds runId h w)
    (hmade : Made runId args scheduledAt id h) :
    Ends P (complete later args scheduledAt id) (fun r w' => SetEnds runId args (r.map .ok) w') w := by
  have hwritten : Made runId args scheduledAt id
      (h.after runId (.run (.upsertRunTrigger (args.record scheduledAt id)))) :=
    ⟨hmade.few, ⟨_, rfl, rfl⟩, hmade.immediate, hmade.scheduled⟩
  rw [complete]
  refine Spec.bind (ends_call (.upsert hrun) hw ?_ ?_ ?_)
  · intro _ w' hw'
    refine Spec.bind (Spec.mono (ends_idle (flipStatus_idle later args) hw') ?_)
    intro r w' hw'
    cases r with
    | error err =>
      refine ⟨_, hw', hwritten.fine, fun id h => ?_⟩
      cases h
    | ok a =>
      refine ⟨_, hw', hwritten.fine, fun _ _ hne => ?_⟩
      obtain ⟨rfl, x, hx, hpending⟩ := hmade.scheduled hne
      exact ⟨_, x, rfl, rfl, hx, hpending⟩
  · intro _ _ w' hw'
    refine ⟨_, hw', hwritten.fine, fun id h => ?_⟩
    cases h
  · intro _ _ w' hw'
    refine ⟨_, hw', hmade.fine, fun id h => ?_⟩
    cases h

/-- The condition on a set, for the calls that `P` allows. -/
def SetOrderly (runId : String) (host : TriggerHost) (later : Int) (args : SetTriggerForActorArgs)
    (P : TriggerCall → Fault → Prop) (h : Held) : Prop :=
  (∀ c f, P c f → Halts c f) ∨
    (h.Led runId (args.triggerType = .scheduled) ∧ ∀ c f, P c f → Clears c f) ∨
      (h.InPlace host later args ∧ ∀ c f, P c f → Replaces c f)

variable {c : TriggerCall} {f : Fault}

theorem Clears.heard (hf : Clears c f) : Heard c f := by
  cases c with
  | enqueueRelease | upsertJobScheduler => exact hf
  | _ => trivial

theorem Replaces.heard (hf : Replaces c f) : Heard c f := by
  cases c with
  | enqueueRelease | upsertJobScheduler =>
    rw [show f = .answered from hf]
    exact fun _ => Fault.noConfusion
  | _ => trivial

theorem SetOrderly.ready {h' : Held} (horderly : SetOrderly runId host later args P h)
    (hc : Cancelled runId P h h') : (∀ c f, P c f → Halts c f) ∨ Ready host later args P h' := by
  rcases horderly with hhalts | ⟨hled, hclears⟩ | ⟨hin, hreplaces⟩
  · exact .inl hhalts
  · obtain ⟨hnil, hjobs⟩ := hc.cleared hclears hled
    refine .inr ⟨inPlace_of_nil hnil fun htype => hjobs (decide_eq_true htype), ?_, .inl hnil⟩
    exact fun c f hP => (hclears c f hP).heard
  · exact .inr ⟨hc.inPlace hin, fun c f hP => (hreplaces c f hP).heard, .inr hreplaces⟩

theorem Ready.lost (hready : Ready host later args P h)
    (hP : ∃ err, P (.run (.upsertRunTrigger (args.record scheduledAt none))) (.lost err)) :
    h.pending = [] := by
  obtain ⟨err, hP⟩ := hP
  rcases hready.replaces with hnil | hreplaces
  · exact hnil
  · by_cases himm : args.triggerType = .immediate
    · exact hready.pending_immediate himm
    · exact absurd (hreplaces _ _ hP rfl himm) Fault.noConfusion

theorem configure_ends (hrun : args.runId = runId) (hw : Holds runId h w) (hfine : h.Fine)
    (hcron : args.triggerType = .recurring → ∃ pattern, given args.cronExpression = some pattern)
    (horderly : SetOrderly runId host later args P h) :
    Ends P (configure host later args) (SetEnds runId args) w := by
  have hends {h : Held} {w : TriggerWorld} (hw : Holds runId h w) (hfine : h.Fine)
      (err : RunError) : SetEnds runId args (.error err) w := by
    refine ⟨h, hw, hfine, fun id hid => ?_⟩
    cases hid
  rw [configure]
  refine Spec.bind (ends_read (.readTrigger _) hw rfl ?_ ?_)
  swap
  · exact fun err w' hw' => hends hw' hfine err
  intro w₁ hw₁
  have hrow : w.reply (.run (.readRunTriggerByRunId args.runId)) = h.row := by
    rw [hrun]
    exact congrArg Held.row hw.held
  rw [hrow]
  refine Spec.bind (Spec.swallow (Spec.mono (cancel_ends hw₁) ?_))
  rintro _ w₂ ⟨h₂, hw₂, hc⟩
  have hfine₂ := hc.fine hfine
  cases hdate : args.date host with
  | error err => exact hends hw₂ hfine₂ err
  | ok scheduledAt =>
    show Ends P (Prog.bind (perform (.run (.upsertRunTrigger (args.record scheduledAt none)))) _) _ _
    refine Spec.bind (ends_call (.upsert hrun) hw₂ ?_ ?_ ?_)
    · intro hP w₃ hw₃
      rcases horderly.ready hc with hhalts | hready
      · obtain ⟨err, hfailed⟩ := hhalts _ _ hP rfl
        cases hfailed
      have hun : Unmade host later args scheduledAt P
          (h₂.after runId (.run (.upsertRunTrigger (args.record scheduledAt none)))) := by
        refine ⟨hfine₂.few, ⟨_, rfl, rfl⟩, hdate, ?_, hready.heard, hready.replaces⟩
        exact ⟨hready.inPlace.pending, hready.inPlace.finished, hready.inPlace.schedulers⟩
      refine Spec.bind (Spec.mono (scheduleOrDelete_ends hrun hw₃ hun hcron) ?_)
      rintro r w₄ hr
      cases r with
      | error err => exact hr.elim
      | ok scheduled =>
        obtain ⟨h₄, hw₄, hr⟩ := hr
        cases scheduled with
        | error message =>
          refine ⟨h₄, hw₄, hr, fun id hid => ?_⟩
          cases hid
        | ok id =>
          refine Spec.bind (Spec.mono (complete_ends hrun hw₄ hr) ?_)
          intro r w₅ hr
          cases r with
          | ok | error => exact hr
    · intro err hP w₃ hw₃
      rcases horderly.ready hc with hhalts | hready
      · obtain ⟨_, hfailed⟩ := hhalts _ _ hP rfl
        cases hfailed
      refine hends hw₃ ⟨hfine₂.few, described_of_nil ?_⟩ err
      exact hready.lost ⟨err, hP⟩
    · exact fun err _ w₃ hw₃ => hends hw₃ hfine₂ err

theorem validate_cron {now : Int} (hvalid : validate host now args = .ok none)
    (htype : args.triggerType = .recurring) :
    ∃ pattern, given args.cronExpression = some pattern := by
  rw [validate.eq_def, htype] at hvalid
  cases hcron : given args.cronExpression with
  | none =>
    rw [hcron] at hvalid
    cases hvalid
  | some pattern => exact ⟨pattern, rfl⟩

theorem set_ends (hrun : args.runId = runId) (now : Int) (actor : TriggerActorContext)
    (hw : Holds runId h w) (hfine : h.Fine) (horderly : SetOrderly runId host later args P h) :
    Ends P (setRunTriggerForActor host now later actor args) (SetEnds runId args) w := by
  have hends {w : TriggerWorld} (hw : Holds runId h w)
      {r : Except RunError (Except String (Option String))} (hr : ∀ id, r ≠ .ok (.ok id)) :
      SetEnds runId args r w := ⟨h, hw, hfine, fun id hid => absurd hid (hr id)⟩
  rw [setRunTriggerForActor]
  refine Spec.bind (Spec.mono (ends_idle (authorize_idle actor args.runId) hw) ?_)
  intro r w₁ hw₁
  cases r with
  | error err =>
    refine hends hw₁ fun _ h => ?_
    cases h
  | ok refused =>
    cases refused with
    | some message =>
      refine hends hw₁ fun _ h => ?_
      cases h
    | none =>
      cases hvalid : validate host now args with
      | error err =>
        refine hends hw₁ fun _ h => ?_
        cases h
      | ok invalid =>
        cases invalid with
        | some message =>
          refine hends hw₁ fun _ h => ?_
          cases h
        | none => exact configure_ends hrun hw₁ hfine (validate_cron hvalid) horderly

end Set

section Delete

variable {P : TriggerCall → Fault → Prop} {h : Held} {w : TriggerWorld}

/-- The condition on a deletion, for the calls that `P` allows. -/
def DeleteOrderly (runId : String) (P : TriggerCall → Fault → Prop) (h : Held) : Prop :=
  (∀ c f, P c f → Halts c f) ∨ (h.Led runId false ∧ ∀ c f, P c f → Clears c f) ∨ h.pending = []

theorem DeleteOrderly.left {h' : Held} (horderly : DeleteOrderly runId P h)
    (hc : Cancelled runId P h h') : (∀ c f, P c f → Halts c f) ∨ h'.pending = [] := by
  rcases horderly with hhalts | ⟨hled, hclears⟩ | hnil
  · exact .inl hhalts
  · exact .inr (hc.cleared hclears hled).1
  · exact .inr (hc.pending_eq_nil hnil)

theorem delete_ends (now : Int) (actor : TriggerActorContext) (hw : Holds runId h w)
    (hfine : h.Fine) (horderly : DeleteOrderly runId P h) :
    Ends P (deleteRunTriggerForActor now actor runId)
      (fun _ w' => ∃ h', Holds runId h' w' ∧ h'.Fine) w := by
  rw [deleteRunTriggerForActor]
  refine Spec.bind (Spec.mono (ends_idle (authorize_idle actor runId) hw) ?_)
  intro r w₁ hw₁
  cases r with
  | error err => exact ⟨h, hw₁, hfine⟩
  | ok refused =>
    cases refused with
    | some message => exact ⟨h, hw₁, hfine⟩
    | none =>
      refine Spec.bind (ends_read (.readTrigger _) hw₁ rfl ?_ fun err w' hw' => ⟨h, hw', hfine⟩)
      intro w₂ hw₂
      have hrow : w₁.reply (.run (.readRunTriggerByRunId runId)) = h.row :=
        congrArg Held.row hw₁.held
      cases htrigger : h.row with
      | none =>
        rw [hrow, htrigger]
        exact ⟨h, hw₂, hfine⟩
      | some trigger =>
        have hcancel := cancel_ends (P := P) hw₂
        rw [htrigger] at hcancel
        rw [hrow, htrigger]
        refine Spec.bind (Spec.swallow (Spec.mono hcancel ?_))
        rintro _ w₃ ⟨h₃, hw₃, hc⟩
        have hgone (hP : ¬ ∀ c f, P c f → Halts c f) : Held.Fine { h₃ with row := none } := by
          refine ⟨(hc.fine hfine).few, described_of_nil (h := { h₃ with row := none }) ?_⟩
          exact (horderly.left hc).resolve_left hP
        refine Spec.bind (ends_call .delete hw₃ ?_ ?_ ?_)
        · intro hP w₄ hw₄
          have hgone := hgone fun hhalts => by
            obtain ⟨_, hfailed⟩ := hhalts _ _ hP
            cases hfailed
          refine Spec.bind (Spec.mono (ends_idle (disarm_idle now runId _) hw₄) ?_)
          intro r w₅ hw₅
          cases r with
          | ok | error => exact ⟨_, hw₅, hgone⟩
        · intro err hP w₄ hw₄
          refine ⟨_, hw₄, hgone fun hhalts => ?_⟩
          obtain ⟨_, hfailed⟩ := hhalts _ _ hP
          cases hfailed
        · exact fun err _ w₄ hw₄ => ⟨h₃, hw₄, hc.fine hfine⟩

end Delete

/-! ## Runs -/

section Runs

variable {host : TriggerHost} {w : TriggerWorld} {h : Held}

/-- What holds between two calls. -/
def Settled (runId : String) (w : TriggerWorld) : Prop := ∃ h, Holds runId h w ∧ h.Fine

theorem settled_unscheduled (hw : Unscheduled runId w) : Settled runId w := by
  have hjobs : (w.held runId).jobs = [] := by
    refine List.filter_eq_nil_iff.mpr fun j hj => ?_
    rw [decide_eq_true_eq]
    exact (hw.jobs j hj).1
  have hschedulers : (w.held runId).schedulers = [] := by
    refine List.filter_eq_nil_iff.mpr fun s hs => ?_
    rw [decide_eq_true_eq]
    exact (hw.schedulers s hs).1
  refine ⟨_, ⟨rfl, fun j hj => ?_, fun s hs => ?_⟩, ?_, ?_⟩
  · exact iff_of_false (hw.jobs j hj).1 (hw.jobs j hj).2
  · exact iff_of_false (hw.schedulers s hs).1 (hw.schedulers s hs).2
  · rw [hjobs]
    exact Nat.zero_le 1
  · refine described_of_nil (pending_eq_nil.mpr ⟨fun j hj => ?_, hschedulers⟩)
    rw [hjobs] at hj
    cases hj

theorem halts_failed (c : TriggerCall) (err : RunError) : Halts c (.failed err) := by
  cases c with
  | run c =>
    cases c with
    | upsertRunTrigger t => exact fun _ => ⟨_, rfl⟩
    | _ => trivial
  | deleteRunTriggerByRunId id => exact ⟨_, rfl⟩
  | _ => trivial

theorem clears_answered (c : TriggerCall) : Clears c .answered := by
  cases c with
  | run c =>
    cases c with
    | removeJobScheduler id => exact fun _ => Fault.noConfusion
    | _ => trivial
  | getJob id => rfl
  | removeJob | enqueueRelease | upsertJobScheduler => exact fun _ => Fault.noConfusion
  | _ => trivial

theorem replaces_answered (c : TriggerCall) : Replaces c .answered := by
  cases c with
  | run c =>
    cases c with
    | upsertRunTrigger t => exact fun _ _ => rfl
    | _ => trivial
  | enqueueRelease | upsertJobScheduler => rfl
  | _ => trivial

/-- A call of one of the operations ends well where it is orderly. -/
theorem call_ends {op : ScheduleOp} {faults : Nat → Fault} (hw : Holds runId h w) (hfine : h.Fine)
    (horderly : Orderly host runId w (.call op faults)) :
    ∃ h', Holds runId h' (Process.run flaky (op.prog host runId) faults w).2 ∧ h'.Fine ∧
      SchedulesOne runId op (Process.run flaky (op.prog host runId) faults w).1 h' := by
  rw [Orderly.eq_def] at horderly
  dsimp only at horderly
  rw [hw.held] at horderly
  cases op with
  | set now later actor args =>
    let own : SetTriggerForActorArgs := { args with runId := runId }
    have hown : own.runId = runId := rfl
    have hends : SetEnds runId own
        (Process.run flaky (setRunTriggerForActor host now later actor own) faults w).1
        (Process.run flaky (setRunTriggerForActor host now later actor own) faults w).2 := by
      rcases horderly with hcalls | ⟨hled, hcalls⟩ | ⟨hin, hcalls⟩
      · refine Spec.run_restricted (fun c => ⟨_, halts_failed c default⟩) (set_ends hown now actor hw hfine ?_) hcalls
        exact .inl fun _ _ hf => hf
      · refine Spec.run_restricted (fun c => ⟨_, clears_answered c⟩) (set_ends hown now actor hw hfine ?_) hcalls
        exact .inr (.inl ⟨hled, fun _ _ hf => hf⟩)
      · refine Spec.run_restricted (fun c => ⟨_, replaces_answered c⟩) (set_ends hown now actor hw hfine ?_) hcalls
        exact .inr (.inr ⟨hin, fun _ _ hf => hf⟩)
    obtain ⟨h', hw', hfine', hone⟩ := hends
    refine ⟨h', hw', hfine', ?_⟩
    show SchedulesOne runId _ (Process.run flaky (setRunTriggerForActor host now later actor own)
      faults w).1 h'
    cases hr : (Process.run flaky (setRunTriggerForActor host now later actor own) faults w).1 with
    | error err => exact hfine'.described
    | ok r =>
      cases r with
      | error message => exact hfine'.described
      | ok id => exact hone id hr
  | delete now actor =>
    have hany : ∀ c : TriggerCall, ∃ f : Fault, True := fun _ => ⟨.answered, trivial⟩
    have hprog {P : TriggerCall → Fault → Prop} (horderly : DeleteOrderly runId P h) :
        Ends P (ScheduleOp.prog host runId (.delete now actor))
          (fun _ w' => ∃ h', Holds runId h' w' ∧ h'.Fine) w := by
      refine Spec.bind (Spec.mono (delete_ends now actor hw hfine horderly) ?_)
      intro r w' hw'
      cases r with
      | ok | error => exact hw'
    have hends : ∃ h', Holds runId h' (Process.run flaky
        (ScheduleOp.prog host runId (.delete now actor)) faults w).2 ∧ h'.Fine := by
      rcases horderly with hcalls | ⟨hled, hcalls⟩ | hnil
      · exact Spec.run_restricted (fun c => ⟨_, halts_failed c default⟩) (hprog (.inl fun _ _ hf => hf)) hcalls
      · exact Spec.run_restricted (fun c => ⟨_, clears_answered c⟩)
          (hprog (.inr (.inl ⟨hled, fun _ _ hf => hf⟩))) hcalls
      · exact Spec.run_restricted hany (hprog (.inr (.inr hnil))) fun _ _ => trivial
    obtain ⟨h', hw', hfine'⟩ := hends
    refine ⟨h', hw', hfine', ?_⟩
    cases (Process.run flaky (ScheduleOp.prog host runId (.delete now actor)) faults w).1 with
    | error err => trivial
    | ok r =>
      cases r with
      | error message => trivial
      | ok id => exact hfine'.described

theorem Held.Fine.ran {h' : Held} (hfine : h.Fine) (hrow : h'.row = h.row)
    (hschedulers : h'.schedulers = h.schedulers) (hfew : h'.jobs.length ≤ h.jobs.length)
    (hfinished : ∀ j ∈ h'.jobs, j.finished = true) : h'.Fine := by
  refine ⟨hfew.trans hfine.few, fun x hx => ?_⟩
  rcases mem_pending.mp hx with ⟨j, hj, hfresh, _⟩ | ⟨s, hs, hx⟩
  · rw [hfinished j hj] at hfresh
    cases hfresh
  · rw [hschedulers] at hs
    obtain ⟨t, ht, hx⟩ := hfine.described x (mem_pending.mpr (.inr ⟨s, hs, hx⟩))
    exact ⟨t, hrow.trans ht, hx⟩

theorem settled_ran (kept : Bool) (hw : Settled runId w) :
    Settled runId (scheduleStep host runId w (.ran kept)) := by
  obtain ⟨h, ⟨rfl, hjobs, hschedulers⟩, hfine⟩ := hw
  cases kept with
  | true =>
    refine ⟨_, ⟨rfl, fun j hj => ?_, hschedulers⟩, hfine.ran rfl rfl ?_ fun j hj => ?_⟩
    · obtain ⟨j₀, hj₀, rfl⟩ := mem_updateWhere.mp hj
      have hids := hjobs j₀ hj₀
      split
      · exact hids
      · exact hids
    · refine Nat.le_of_eq ?_
      show ((updateWhere _ _ w.releaseJobs).filter _).length = (w.releaseJobs.filter _).length
      rw [← List.countP_eq_length_filter, ← List.countP_eq_length_filter, updateWhere,
        List.countP_map]
      refine List.countP_congr fun j _ => ?_
      show decide ((if decide (j.runId = runId) = true then _ else j).runId = runId) = true ↔ _
      split
      · rfl
      · rfl
    · obtain ⟨hj, hrun⟩ := List.mem_filter.mp hj
      obtain ⟨j₀, hj₀, rfl⟩ := mem_updateWhere.mp hj
      rw [decide_eq_true_eq] at hrun
      split at hrun
      · rename_i hown
        rw [if_pos hown]
      · rename_i hother
        exact absurd (decide_eq_true hrun) hother
  | false =>
    have hnone : (scheduleStep host runId w (.ran false)).releaseJobs.filter
        (fun j => j.runId = runId) = [] := by
      show (w.releaseJobs.filter (fun j => j.runId ≠ runId)).filter _ = []
      rw [List.filter_filter, List.filter_eq_nil_iff]
      intro j _
      simp
    refine ⟨_, ⟨rfl, fun j hj => hjobs j (List.mem_filter.mp hj).1, hschedulers⟩,
      hfine.ran rfl rfl ?_ fun j hj => ?_⟩
    · show List.length (List.filter _ _) ≤ _
      rw [hnone]
      exact Nat.zero_le _
    · have hj : j ∈ List.filter _ _ := hj
      rw [hnone] at hj
      cases hj

theorem settled_step {e : ScheduleEvent} (hw : Settled runId w) (he : Orderly host runId w e) :
    Settled runId (scheduleStep host runId w e) := by
  cases e with
  | ran kept => exact settled_ran kept hw
  | call op faults =>
    obtain ⟨h, hw, hfine⟩ := hw
    obtain ⟨h', hw', hfine', _⟩ := call_ends hw hfine he
    exact ⟨h', hw', hfine'⟩

/-- **One trigger has one schedule, in every run of orderly calls.** -/
theorem one_trigger_one_schedule (host : TriggerHost) {w : TriggerWorld}
    (hreached : Reaches (Unscheduled runId) (scheduleStep host runId) (Orderly host runId) w)
    {op : ScheduleOp} {faults : Nat → Fault} (horderly : Orderly host runId w (.call op faults)) :
    SchedulesOne runId op (Process.run flaky (op.prog host runId) faults w).1
      ((Process.run flaky (op.prog host runId) faults w).2.held runId) := by
  have hsettled : Settled runId w := by
    refine Reaches.invariant (I := Settled runId) (fun w hw => ?_) (fun w e hs he => ?_) hreached
    · exact settled_unscheduled hw
    · exact settled_step hs he
  obtain ⟨h, hw, hfine⟩ := hsettled
  obtain ⟨h', hw', _, hone⟩ := call_ends hw hfine horderly
  rw [hw'.held]
  exact hone

end Runs

/-! ## Two times for one run -/

def setAt (now : Int) (scheduledAt : String) : ScheduleOp :=
  .set now now { userId := "ada" }
    { runId := "run", triggerType := .scheduled, scheduledAt := some scheduledAt }

theorem unscheduled_oneRun : Unscheduled "run" oneRun where
  row := rfl
  jobs := by
    intro j hj
    cases hj
  schedulers := by
    intro s hs
    cases hs

/-- The run is set to be released after five seconds. -/
def setOnce : ScheduleEvent := .call (setAt 0 "1970-01-01T00:00:05") fun _ => .answered

theorem orderly_setOnce : Orderly plainHost "run" oneRun setOnce := by
  refine .inr (.inl ⟨⟨fun j hj => ?_, fun hs => absurd rfl hs⟩, fun x hx => ?_⟩)
  · cases hj
  · rw [calls_const hx]
    exact clears_answered x.1

theorem held_setOnce : (scheduleStep plainHost "run" oneRun setOnce).held "run" =
    { row := some { runId := "run", triggerType := .scheduled, scheduledAt := some 5000,
                    jobSchedulerId := some "trigger-release-run" }
      jobs := [{ id := "trigger-release-run", runId := "run", due := 5000 }]
      schedulers := [] } := by decide +kernel

theorem one_trigger_one_schedule_again : SchedulesOne "run" (setAt 1000 "1970-01-01T00:00:09")
    (Process.run flaky ((setAt 1000 "1970-01-01T00:00:09").prog plainHost "run")
      (fun _ => .answered) (scheduleStep plainHost "run" oneRun setOnce)).1
    ((Process.run flaky ((setAt 1000 "1970-01-01T00:00:09").prog plainHost "run")
      (fun _ => .answered) (scheduleStep plainHost "run" oneRun setOnce)).2.held "run") := by
  have hreached : Reaches (Unscheduled "run") (scheduleStep plainHost "run")
      (Orderly plainHost "run") (scheduleStep plainHost "run" oneRun setOnce) :=
    ⟨oneRun, unscheduled_oneRun, Leads.refl.next orderly_setOnce⟩
  refine one_trigger_one_schedule plainHost hreached (.inr (.inl ⟨?_, fun x hx => ?_⟩))
  · rw [held_setOnce]
    refine ⟨fun _ _ _ => ⟨_, rfl, rfl, rfl⟩, fun hs => absurd rfl hs⟩
  · rw [calls_const hx]
    exact clears_answered x.1

/-- The removal of the old job throws, and everything else is answered. -/
def removalFails : Nat → Fault
  | 3 => .failed (.thrown "Missing lock")
  | _ => .answered

/-- The set is well, and the job of the old time is still there, the only one. -/
theorem old_job_left : ¬ ∀ w,
    Reaches (Unscheduled "run") (scheduleStep plainHost "run") (fun _ _ => True) w →
      ∀ op faults, SchedulesOne "run" op (Process.run flaky (op.prog plainHost "run") faults w).1
        ((Process.run flaky (op.prog plainHost "run") faults w).2.held "run") := by
  intro hall
  have hone := hall (scheduleStep plainHost "run" oneRun setOnce)
    ⟨oneRun, unscheduled_oneRun, Leads.refl.next trivial⟩ (setAt 1000 "1970-01-01T00:00:09")
    removalFails
  have hresult : (Process.run flaky ((setAt 1000 "1970-01-01T00:00:09").prog plainHost "run")
      removalFails (scheduleStep plainHost "run" oneRun setOnce)).1 =
        .ok (.ok (some "trigger-release-run")) := by
    rfl
  have hheld : (Process.run flaky ((setAt 1000 "1970-01-01T00:00:09").prog plainHost "run")
      removalFails (scheduleStep plainHost "run" oneRun setOnce)).2.held "run" =
        { row := some { runId := "run", triggerType := .scheduled, scheduledAt := some 9000,
                        jobSchedulerId := some "trigger-release-run" }
          jobs := [{ id := "trigger-release-run", runId := "run", due := 5000 }]
          schedulers := [] } := by decide +kernel
  rw [hresult, hheld] at hone
  obtain ⟨t, x, ht, _, hx, hpending⟩ := hone TriggerType.noConfusion
  cases ht
  cases hx
  cases hpending

end AgentRuns.Triggers
