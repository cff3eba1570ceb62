import Cinatra.AgentRuns.Release

/-! # TriggerService — when a run is to be released

    A trigger says when a run starts: at once, at a time, or again and again.  Its
    configuration is a row; the gate it holds shut is a flag in Redis and a column
    of the row; what is to open the gate is a delayed job or a scheduler of the
    queue, both under one id.  Setting a trigger cancels the old schedule, writes
    the row, schedules, and writes the row again; deleting one cancels and deletes.
    The statements of the run's own tables are those of `RunStore`. -/

namespace AgentRuns.Triggers

open Process RowTable

/-- A delayed release job; one that has been run may be kept. -/
structure ReleaseJob where
  id : String
  runId : String
  /-- when it is run, in milliseconds -/
  due : Int
  finished : Bool := false
  /-- the operation that added it; the queue knows nothing of it -/
  addedBy : Nat := 0
deriving DecidableEq

structure Scheduler where
  id : String
  runId : String
  pattern : String
  tz : String
  addedBy : Nat := 0
deriving DecidableEq

/-- The configuration that a row holds: the operation that set it, and whether a release job
    of its own has opened the gate. -/
structure Configured where
  setBy : Nat
  released : Bool := false
deriving DecidableEq

/-- Database, flags and queue. -/
structure TriggerWorld where
  /-- the runs, the rows of `agent_run_triggers`, the flags `trigger:released:{runId}` -/
  base : World
  releaseJobs : List ReleaseJob := []
  schedulers : List Scheduler := []
  /-- whose configuration each row holds; no statement reads it -/
  current : String → Option Configured := fun _ => none
  /-- the operations that are over -/
  ended : List Nat := []

/-- The row of a run. -/
def TriggerWorld.row (w : TriggerWorld) (runId : String) : Option TriggerRecord :=
  w.base.triggers.find? (fun t => t.runId = runId)

/-- When a release job is run. -/
inductive Schedule where
  | once (due : Int)
  | cron (pattern tz : String)

/-- The schedule that a row describes, by the columns of its type. -/
def scheduleOf (t : TriggerRecord) : Option Schedule :=
  match t.triggerType with
  | .immediate => none
  | .scheduled => t.scheduledAt.map .once
  | .recurring => t.cronExpression.map (fun pattern => .cron pattern t.timezone)

/-! ## Calls -/

inductive TriggerCall where
  | run (c : RunCall)
  /-- a statement of the release job that an operation has scheduled -/
  | ofRelease (scheduledBy : Nat) (c : RunCall)
  | releasedFlag (runId : String)
  | deleteRunTriggerByRunId (runId : String)
  | enqueueRelease (id runId : String) (timestamp delay : Int)
  | upsertJobScheduler (id runId pattern tz : String)
  | getJob (id : String)
  | removeJob (id : String)
  /-- the time to live of the flag is over -/
  | expireFlag (runId : String)
deriving DecidableEq

abbrev TriggerCall.Reply : TriggerCall → Type
  | .run c | .ofRelease _ c => c.Reply
  | .releasedFlag _ => Bool
  | .getJob _ => Option ReleaseJob
  | _ => Unit

abbrev TriggerProg := Prog TriggerCall TriggerCall.Reply RunError

/-- A statement of the run's tables, or several. -/
def onRun {α : Type} (p : RunProg α) : TriggerProg α := p.hoist TriggerCall.run (fun _ r => r)

theorem onRun_bind {α β : Type} (p : RunProg α) (f : α → RunProg β) :
    onRun (p >>= f) = onRun p >>= fun a => onRun (f a) := hoist_bind p f

theorem onRun_perform (c : RunCall) : onRun (perform c) = perform (TriggerCall.run c) := by
  refine congrArg (Prog.call (TriggerCall.run c)) (funext fun r => ?_)
  cases r with
  | ok | error => rfl

def isTriggerReleased (runId : String) : TriggerProg Bool := do
  let flag : Bool ← perform (TriggerCall.releasedFlag runId)
  if flag then pure true
  else
    let row : Option TriggerRecord ← perform (TriggerCall.run (.readRunTriggerByRunId runId))
    if row.any (fun t => t.releasedAt.isSome) then
      swallow (perform (TriggerCall.run (.setReleasedFlag runId)))
      pure true
    else pure false

/-! ## Scheduling -/

def jobSchedulerIdFor (runId : String) : String := "trigger-release-" ++ runId

/-- What the language and its libraries do with times: `none` is `NaN`. -/
structure TriggerHost where
  /-- `new Date(text).getTime()` -/
  parseDate : String → Option Int
  /-- `formatToParts` in a timezone: year, month, day, hour, minute and second -/
  formatToParts : String → Int → Except String (String × String × String × String × String × String)
  /-- `parseExpression` of `cron-parser`, where there is one -/
  parseExpression : Option (String → String → Except String Unit)

/-- The wall-clock time of a timezone, as a UTC time. -/
def naiveDatetimeToUtcMs (host : TriggerHost) (naive timezone : String) :
    Except String (Option Int) :=
  let padded := if jsLength naive.toList = 16 then naive ++ ":00" else naive
  match host.parseDate (padded ++ "Z") with
  | none => .ok none
  | some asUtcMs =>
    match host.formatToParts timezone asUtcMs with
    | .error message => .error message
    | .ok (year, month, day, rawHour, minute, second) =>
      let hour := if rawHour = "24" then "00" else rawHour
      let inTzMs := host.parseDate
        (year ++ "-" ++ month ++ "-" ++ day ++ "T" ++ hour ++ ":" ++ minute ++ ":" ++
          second ++ "Z")
      .ok (inTzMs.map (fun inTzMs => asUtcMs + (asUtcMs - inTzMs)))

structure SetTriggerForActorArgs where
  runId : String
  triggerType : TriggerType
  scheduledAt : Option String := none
  cronExpression : Option String := none
  timezone : Option String := none
  enabled : Option Bool := none

structure TriggerActorContext where
  userId : String
  role : Option String := none

/-- A text that is given and not empty. -/
def given (text : Option String) : Option String := text.filter (· ≠ "")

def SetTriggerForActorArgs.tz (args : SetTriggerForActorArgs) : String := args.timezone.getD "UTC"

/-- A `Date` that a statement can be given. -/
def validTime (ms : Int) : Bool := -8640000000000000 ≤ ms && ms ≤ 8640000000000000

/-- `new Date(naiveDatetimeToUtcMs(scheduledAt, tz))`; the statement throws an invalid one. -/
def SetTriggerForActorArgs.date (host : TriggerHost) (args : SetTriggerForActorArgs) :
    Except RunError (Option Int) :=
  match given args.scheduledAt with
  | none => .ok none
  | some naive =>
    match naiveDatetimeToUtcMs host naive args.tz with
    | .error message => .error (.thrown message)
    | .ok (some ms) => if validTime ms then .ok (some ms) else .error (.thrown "Invalid time value")
    | .ok none => .error (.thrown "Invalid time value")

/-- The row that is written. -/
def SetTriggerForActorArgs.record (args : SetTriggerForActorArgs) (scheduledAt : Option Int)
    (jobSchedulerId : Option String) : TriggerRecord where
  runId := args.runId
  triggerType := args.triggerType
  scheduledAt := scheduledAt
  cronExpression := args.cronExpression
  timezone := args.tz
  enabled := args.enabled.getD true
  jobSchedulerId := jobSchedulerId

/-- `now` is the clock. -/
def scheduleTrigger (now : Int) (args : SetTriggerForActorArgs) (scheduledAt : Option Int) :
    TriggerProg (Option String) :=
  match args.triggerType with
  | .immediate => do
    onRun (markTriggerReleased now args.runId)
    pure none
  | .scheduled =>
    match scheduledAt with
    | none => throwErr (.thrown "scheduledAt is required for scheduled triggers")
    | some due =>
      if due - now < 1000 then
        throwErr (.thrown "scheduled time is in the past or too close to now")
      else do
        perform (TriggerCall.enqueueRelease (jobSchedulerIdFor args.runId) args.runId now
          (due - now))
        pure (some (jobSchedulerIdFor args.runId))
  | .recurring =>
    match given args.cronExpression with
    | none => throwErr (.thrown "cronExpression is required for recurring triggers")
    | some pattern => do
      perform (TriggerCall.upsertJobScheduler (jobSchedulerIdFor args.runId) args.runId pattern
        args.tz)
      pure (some (jobSchedulerIdFor args.runId))

def cancelTriggerSchedule (jobSchedulerId : Option String) (triggerType : TriggerType) :
    TriggerProg Unit :=
  match given jobSchedulerId with
  | none => pure ()
  | some id =>
    match triggerType with
    | .immediate => pure ()
    | .recurring => perform (TriggerCall.run (.removeJobScheduler id))
    | .scheduled => do
      let job : Option ReleaseJob ← perform (TriggerCall.getJob id)
      if job.isSome then perform (TriggerCall.removeJob id) else pure ()

/-! ## Setting a trigger -/

def isOwnerOrAdmin (actor : TriggerActorContext) (runOwnerId : Option String) : Bool :=
  actor.role = some "admin" || (given runOwnerId).any (fun owner => owner = actor.userId)

/-- Why the actor may not, if he may not. -/
def authorize (actor : TriggerActorContext) (runId : String) : TriggerProg (Option String) :=
  if actor.userId = "" then pure (some "unauthorized")
  else do
    let run : Option AgentRun ← perform (TriggerCall.run (.readAgentRunById runId))
    match run with
    | none => pure (some "run not found")
    | some run =>
      if !isOwnerOrAdmin actor run.runBy then pure (some "forbidden") else pure none

/-- What is wrong with the configuration, if anything. -/
def validate (host : TriggerHost) (now : Int) (args : SetTriggerForActorArgs) :
    Except RunError (Option String) :=
  match args.triggerType with
  | .immediate => .ok none
  | .recurring =>
    match given args.cronExpression with
    | none => .ok (some "cronExpression is required for recurring triggers")
    | some cronExpression =>
      if jsLength cronExpression.toList > 256 then
        .ok (some "cronExpression too long (max 256 chars)")
      else
        match host.parseExpression with
        | none => .ok (some "cron-parser unavailable")
        | some parse =>
          match parse cronExpression args.tz with
          | .error message => .ok (some ("invalid cron expression: " ++ message))
          | .ok () => .ok none
  | .scheduled =>
    match given args.scheduledAt with
    | none => .ok (some "scheduledAt is required for scheduled triggers")
    | some naive =>
      match naiveDatetimeToUtcMs host naive args.tz with
      | .error message => .error (.thrown message)
      | .ok none => .ok (some "scheduledAt is not a valid ISO datetime")
      | .ok (some ts) =>
        if ts ≤ now then .ok (some "scheduledAt must be in the future") else .ok none

/-- `err.message`. -/
def errorMessage : RunError → String
  | .illegalTransition runId source target =>
    "illegal transition " ++ source.text ++ "->" ++ target.text ++ " for " ++ runId
  | .staleFromStatus runId source target =>
    "stale from-status " ++ source.text ++ "->" ++ target.text ++ " for " ++ runId
  | .thrown message => message

/-- The schedule is made; where that throws, the row is deleted. -/
def scheduleOrDelete (now : Int) (args : SetTriggerForActorArgs) (scheduledAt : Option Int) :
    TriggerProg (Except String (Option String)) :=
  tryCatch
    (do let id ← scheduleTrigger now args scheduledAt
        pure (.ok id))
    (fun err => do
      swallow (perform (TriggerCall.deleteRunTriggerByRunId args.runId))
      pure (.error ("schedule failed: " ++ errorMessage err)))

/-- A run that waits is armed, or queued where the gate is open already. -/
def flipStatus (now : Int) (args : SetTriggerForActorArgs) : TriggerProg Unit :=
  match args.triggerType with
  | .immediate => do
    let _ ← onRun (tryTransition now args.runId .pendingInput .queued)
    pure ()
  | _ => do
    let moved ← onRun (tryTransition now args.runId .pendingInput .armed)
    if moved then pure ()
    else
      let _ ← onRun (tryTransition now args.runId .pendingTrigger .armed)
      pure ()

/-- The final row, and the status. -/
def complete (now : Int) (args : SetTriggerForActorArgs) (scheduledAt : Option Int)
    (jobSchedulerId : Option String) : TriggerProg (Option String) := do
  perform (TriggerCall.run (.upsertRunTrigger (args.record scheduledAt jobSchedulerId)))
  flipStatus now args
  pure jobSchedulerId

/-- The old schedule is cancelled, the row written, the new schedule made. -/
def configure (host : TriggerHost) (now : Int) (args : SetTriggerForActorArgs) :
    TriggerProg (Except String (Option String)) := do
  let existing : Option TriggerRecord ←
    perform (TriggerCall.run (.readRunTriggerByRunId args.runId))
  swallow (cancelTriggerSchedule (existing.bind TriggerRecord.jobSchedulerId)
    ((existing.map TriggerRecord.triggerType).getD .immediate))
  let scheduledAt ← lift (args.date host)
  perform (TriggerCall.run (.upsertRunTrigger (args.record scheduledAt none)))
  let scheduled ← scheduleOrDelete now args scheduledAt
  match scheduled with
  | .error message => pure (.error message)
  | .ok jobSchedulerId => do
    let id ← complete now args scheduledAt jobSchedulerId
    pure (.ok id)

/-- `now` is the clock when the configuration is checked, `later` when it is scheduled. -/
def setRunTriggerForActor (host : TriggerHost) (now later : Int) (actor : TriggerActorContext)
    (args : SetTriggerForActorArgs) : TriggerProg (Except String (Option String)) := do
  let refused ← authorize actor args.runId
  match refused with
  | some message => pure (.error message)
  | none => do
    let invalid ← lift (validate host now args)
    match invalid with
    | some message => pure (.error message)
    | none => configure host later args

def disarm (now : Int) (runId : String) (triggerType : TriggerType) : TriggerProg Unit :=
  match triggerType with
  | .immediate => pure ()
  | _ => do
    let _ ← onRun (tryTransition now runId .armed .stopped)
    pure ()

def deleteRunTriggerForActor (now : Int) (actor : TriggerActorContext) (runId : String) :
    TriggerProg (Except String Unit) := do
  let refused ← authorize actor runId
  match refused with
  | some message => pure (.error message)
  | none => do
    let trigger : Option TriggerRecord ←
      perform (TriggerCall.run (.readRunTriggerByRunId runId))
    match trigger with
    | none => pure (.ok ())
    | some trigger => do
      swallow (cancelTriggerSchedule trigger.jobSchedulerId trigger.triggerType)
      perform (TriggerCall.deleteRunTriggerByRunId runId)
      disarm now runId trigger.triggerType
      pure (.ok ())

/-! ## What the calls do -/

/-- How a call ends: answered, failed, or carried out with the answer lost. -/
inductive Fault where
  | answered | failed (error : RunError) | lost (error : RunError)

def TriggerWorld.reply (w : TriggerWorld) : (c : TriggerCall) → c.Reply
  | .run c => (serve w.base c).1
  | .ofRelease _ c => (serve w.base c).1
  | .releasedFlag runId => w.base.released.contains runId
  | .deleteRunTriggerByRunId _ => ()
  | .enqueueRelease _ _ _ _ => ()
  | .upsertJobScheduler _ _ _ _ => ()
  | .getJob id => w.releaseJobs.find? (fun j => j.id = id)
  | .removeJob _ => ()
  | .expireFlag _ => ()

/-- A job whose id is in the queue already, run or not, is not added again. -/
def addRelease (job : ReleaseJob) (jobs : List ReleaseJob) : List ReleaseJob :=
  if jobs.any (fun j => j.id = job.id) then jobs else jobs ++ [job]

/-- The gate is opened by a release job. -/
def Configured.openedBy (scheduledBy : Option Nat) (c : Configured) : Configured :=
  if scheduledBy = some c.setBy then { c with released := true } else c

/-- Whose configuration the rows hold, after a statement: a row that is written without the id
    of its schedule is a new configuration. -/
def noted (i : Nat) (scheduledBy : Option Nat) (current : String → Option Configured) :
    RunCall → String → Option Configured
  | .upsertRunTrigger t =>
    if t.jobSchedulerId = none then Function.update current t.runId (some { setBy := i })
    else current
  | .setReleasedFlag runId | .markTriggerReleasedInDb runId _ =>
    Function.update current runId ((current runId).map (Configured.openedBy scheduledBy))
  | _ => current

/-- A statement of the operation `i`. -/
def TriggerWorld.writeRun (i : Nat) (scheduledBy : Option Nat) (w : TriggerWorld) (c : RunCall) :
    TriggerWorld :=
  match c with
  | .removeJobScheduler id => { w with schedulers := w.schedulers.filter (fun s => s.id ≠ id) }
  | c => { w with base := (serve w.base c).2, current := noted i scheduledBy w.current c }

/-- What a call of the operation `i` leaves. -/
def TriggerWorld.write (i : Nat) (w : TriggerWorld) : TriggerCall → TriggerWorld
  | .run c => w.writeRun i none c
  | .ofRelease scheduledBy c => w.writeRun i (some scheduledBy) c
  | .deleteRunTriggerByRunId runId =>
    { w with
      base := { w.base with triggers := w.base.triggers.filter (fun t => t.runId ≠ runId) }
      current := Function.update w.current runId none }
  | .enqueueRelease id runId timestamp delay =>
    { w with
      releaseJobs := addRelease
        { id := id, runId := runId, due := timestamp + delay, addedBy := i } w.releaseJobs }
  | .upsertJobScheduler id runId pattern tz =>
    { w with
      schedulers := w.schedulers.filter (fun s => s.id ≠ id) ++
        [{ id := id, runId := runId, pattern := pattern, tz := tz, addedBy := i }] }
  | .removeJob id => { w with releaseJobs := w.releaseJobs.filter (fun j => j.id ≠ id) }
  | .expireFlag runId =>
    { w with base := { w.base with released := w.base.released.filter (fun r => r ≠ runId) } }
  | .releasedFlag _ => w
  | .getJob _ => w

/-- The operations take turns, and any call may fail. -/
def triggerHost : Host TriggerCall TriggerCall.Reply RunError TriggerWorld Fault where
  ready _ _ _ := true
  answer fault i c w :=
    match fault with
    | .answered => (.ok (w.reply c), w.write i c)
    | .failed error => (.error error, w)
    | .lost error => (.error error, w.write i c)
  leave i w := { w with ended := i :: w.ended }

theorem find_upsertTrigger (runId : String) (t : TriggerRecord) (rows : List TriggerRecord) :
    (upsertTrigger t rows).find? (fun r => r.runId = runId) =
      if t.runId = runId then
        some { t with
          releasedAt := (rows.find? (fun r => r.runId = runId)).bind TriggerRecord.releasedAt }
      else rows.find? (fun r => r.runId = runId) := by
  rw [upsertTrigger]
  by_cases hrun : t.runId = runId
  · subst hrun
    rw [if_pos rfl]
    split
    · rename_i hany
      rw [find?_updateWhere]
      · obtain ⟨r, hr⟩ : ∃ r, rows.find? (fun r => r.runId = t.runId) = some r := by
          rw [← Option.isSome_iff_exists, List.find?_isSome]
          exact List.any_eq_true.mp hany
        rw [hr, Option.map_some, if_pos (List.find?_some hr :), Option.bind_some]
      · intro r hr
        rw [hr]
        exact decide_eq_true rfl
    · rename_i hnone
      rw [Bool.not_eq_true, List.any_eq_false] at hnone
      have hfind : rows.find? (fun r => r.runId = t.runId) = none := List.find?_eq_none.mpr hnone
      rw [List.find?_append, hfind, Option.none_or, List.find?_singleton,
        if_pos (decide_eq_true rfl), Option.bind_none]
  · rw [if_neg hrun]
    split
    · refine find?_updateWhere_other rows (fun r _ => decide_eq_false hrun) ?_
      intro r hr
      rw [decide_eq_true_eq] at hr
      exact decide_eq_false (fun h => hrun (h.symm.trans hr))
    · rw [List.find?_append, List.find?_singleton, if_neg (by simpa using hrun), Option.or_none]

theorem find_markReleased (runId id : String) (now : Int) (rows : List TriggerRecord) :
    (markReleased id now rows).find? (fun r => r.runId = runId) =
      if id = runId then
        (rows.find? (fun r => r.runId = runId)).map (fun t => { t with releasedAt := some now })
      else rows.find? (fun r => r.runId = runId) := by
  rw [markReleased]
  by_cases hid : id = runId
  · subst hid
    rw [if_pos rfl, find?_updateWhere]
    · refine Option.map_congr fun t ht => ?_
      rw [if_pos (List.find?_some ht :)]
    · exact fun r _ => rfl
  · rw [if_neg hid]
    refine find?_updateWhere_other rows (fun r hr => ?_) (fun r hr => ?_)
    · rw [decide_eq_true_eq] at hr
      exact decide_eq_false (fun h => hid (hr.symm.trans h))
    · rw [decide_eq_true_eq] at hr
      exact decide_eq_false (fun h => hid (h.symm.trans hr))

theorem find_filter_ne (runId id : String) (rows : List TriggerRecord) :
    (rows.filter (fun t => t.runId ≠ id)).find? (fun r => r.runId = runId) =
      if id = runId then none else rows.find? (fun r => r.runId = runId) := by
  rw [List.find?_filter]
  split
  · rename_i hid
    rw [List.find?_eq_none]
    intro r _
    simp [hid]
  · rename_i hid
    congr 1
    funext r
    by_cases hr : r.runId = runId
    · simp [hr, Ne.symm hid]
    · simp [hr]

/-- A host that knows two times of the first minute of 1970, in UTC. -/
def plainHost : TriggerHost where
  parseDate text :=
    if text = "1970-01-01T00:00:05Z" then some 5000
    else if text = "1970-01-01T00:00:09Z" then some 9000
    else none
  formatToParts _ ms := .ok ("1970", "01", "01", "00", "00", if ms = 5000 then "05" else "09")
  parseExpression := none

/-- A run that waits for its input. -/
def oneRun : TriggerWorld where
  base :=
    { runs := [{ id := "run", templateId := "digest", orgId := "acme", status := .pendingInput,
                 runBy := some "ada" }] }

end AgentRuns.Triggers
