import Cinatra.AgentRuns.RunStore

/-! # TaskPoller — the stored task of a run

    A run that was started for an A2A task is polled: its status is read, mapped to
    a task state, and written to the task store where it has changed, until the
    poller has seen enough.  Between its commands the run moves on, and the task may
    be cancelled; the event of a cancellation is stored by the consumer of the event
    bus, some time after. -/

namespace A2a

open AgentRuns JsonValue Machine

inductive TaskState where
  | submitted | working | inputRequired | completed | canceled | failed | rejected
  | authRequired | unknown
deriving DecidableEq

/-- `CinatraTaskStatusMap`. -/
def cinatraTaskStatusMap : AgentRunStatus → Option TaskState
  | .queued => some .submitted
  | .running => some .working
  | .completed => some .completed
  | .failed => some .failed
  | .stopped => some .canceled
  | .pendingApproval => some .inputRequired
  | .pendingInput => some .inputRequired
  | .armed => none
  | .pendingTrigger => none
  | .waitingTrigger => none

/-- `TERMINAL_A2A_STATES`. -/
def terminalA2aStates : List TaskState := [.completed, .failed, .canceled, .rejected]

/-- `CinatraTaskStatusMap[status] ?? "unknown"`. -/
def mapped (status : AgentRunStatus) : TaskState :=
  (cinatraTaskStatusMap status).getD .unknown

/-- A part of an artifact. -/
inductive Part where
  | text (text : String)
  | data (data : Json)
deriving DecidableEq

/-- `RunStreamEvent`. -/
inductive RunStreamEvent where
  | status (state : String)
  | artifact (name : Option String) (parts : List Part)
  | error (reason : String) (detail : Option String)
  | done
deriving DecidableEq

/-- `stepResultsToArtifact`: its parts; `pretty` is `JSON.stringify(·, null, 2)`. -/
def stepResultsToArtifact (pretty : Json → String) (stepResults : List Json) : List Part :=
  let parts := stepResults.flatMap (fun result =>
    (match result.field? "output_data" with
      | some (.obj fields) => [Part.data (.obj fields)]
      | _ => []) ++ [Part.text (result.str?.getD (pretty result))])
  if parts = [] then [.text "(no step results)"] else parts

/-! ## The poller -/

/-- What the poller reads of a run. -/
structure PolledRun where
  status : AgentRunStatus
  stepResults : Option (List Json) := none
deriving DecidableEq

structure StoredTask where
  state : TaskState
  artifacts : Option (List Part) := none
deriving DecidableEq

inductive PollEnd where
  | aborted | missing | observed | deadline | threw
deriving DecidableEq

/-- The command that the poller awaits. -/
inductive PollPhase where
  | sleeping
  | reading
  | loading (run : PolledRun)
  | saving (run : PolledRun) (task : StoredTask)
  | stopped (reason : PollEnd)
deriving DecidableEq

structure Polling where
  run : Option PolledRun
  /-- the task in the store that the poller writes to -/
  store : Option StoredTask
  phase : PollPhase := .sleeping
  /-- `lastStatus`, empty at first -/
  lastStatus : Option TaskState := none
  aborted : Bool := false
  /-- `cancelTask` has been called -/
  cancelled : Bool := false
  /-- the consumer of the bus has stored the cancellation -/
  canceledSaved : Bool := false
  /-- what has been published for the run -/
  published : List RunStreamEvent := [.status "working"]

inductive PollEvent where
  /-- the run takes a transition -/
  | move (run : PolledRun)
  | delete
  /-- the command of the poller is answered; `late` is `Date.now() > deadline` -/
  | poll (late : Bool)
  | fail
  | cancel
  | saveCanceled

/-- The task that is written: the one that was loaded, with what the run says. -/
def PolledRun.write (pretty : Json → String) (run : PolledRun) (task : StoredTask) : StoredTask :=
  { task with
    state := mapped run.status
    artifacts := match run.stepResults with
      | some results => if mapped run.status = .completed then
          some (stepResultsToArtifact pretty results) else task.artifacts
      | none => task.artifacts }

/-- A state that ends the poll: final, or waiting for input. -/
def endsPoll (state : TaskState) : Bool := state ∈ terminalA2aStates || state == .inputRequired

/-- The end of a round, and the head of the next. -/
def Polling.settle (s : Polling) (run : PolledRun) (late : Bool) : Polling :=
  if endsPoll (mapped run.status) then
    { s with phase := .stopped .observed, published := s.published ++ [.done] }
  else if late then { s with phase := .stopped .deadline }
  else if s.aborted then { s with phase := .stopped .aborted }
  else { s with phase := .sleeping }

/-- `_backgroundPoll`, from one `await` to the next. -/
def Polling.poll (pretty : Json → String) (s : Polling) (late : Bool) : Polling :=
  match s.phase with
  | .sleeping => { s with phase := if s.aborted then .stopped .aborted else .reading }
  | .reading =>
    match s.run with
    | none => { s with phase := .stopped .missing }
    | some run =>
      if s.lastStatus ≠ some (mapped run.status) then { s with phase := .loading run }
      else s.settle run late
  | .loading run =>
    match s.store with
    | none => { s with lastStatus := some (mapped run.status) }.settle run late
    | some task => { s with phase := .saving run task }
  | .saving run task =>
    { s with store := some (run.write pretty task),
             lastStatus := some (mapped run.status) }.settle run late
  | .stopped _ => s

/-- A command of the poller that fails ends it. -/
def Polling.fail (s : Polling) : Polling :=
  match s.phase with
  | .reading => { s with phase := .stopped .threw }
  | .loading _ => { s with phase := .stopped .threw }
  | .saving _ _ => { s with phase := .stopped .threw }
  | _ => s

def pollStep (pretty : Json → String) (s : Polling) : PollEvent → Polling
  | .move run =>
    match s.run with
    | some old => if (old.status, run.status) ∈ legalTransitions then { s with run := some run }
        else s
    | none => s
  | .delete => { s with run := none }
  | .poll late => s.poll pretty late
  | .fail => s.fail
  | .cancel => { s with aborted := true, cancelled := true }
  | .saveCanceled =>
    if s.cancelled then
      { s with
        store := s.store.map (fun task => { task with state := .canceled })
        canceledSaved := true }
    else s

/-- The run is queued, and its task is stored as submitted. -/
def submitted : Polling :=
  { run := some { status := .queued }, store := some { state := .submitted } }

/-- No transition leads out of a status. -/
def Final (status : AgentRunStatus) : Prop := ∀ next, (status, next) ∉ legalTransitions

/-- **The stored task follows the run**: when the poller has stopped, and not for its
    deadline, the stored state is that of the run, which is final; or the task was cancelled,
    and what was stored of that is still there. -/
def Followed (s : Polling) : Prop :=
  ∀ reason, s.phase = .stopped reason → reason ≠ .deadline →
    (∃ run task, s.run = some run ∧ s.store = some task ∧ task.state = mapped run.status ∧
      Final run.status) ∨
    (s.cancelled = true ∧ (s.canceledSaved = true →
      ∃ task, s.store = some task ∧ task.state = .canceled))

/-- The poller finds the run and the task, and stops for no status but `completed`; it writes
    nothing after a cancellation has been stored. -/
def Unhindered (s : Polling) : PollEvent → Prop
  | .poll _ =>
    (s.phase = .reading → ∃ run, s.run = some run ∧
      (endsPoll (mapped run.status) = true → run.status = .completed)) ∧
    (∀ run, s.phase = .loading run → s.store.isSome = true) ∧
    ∀ run task, s.phase = .saving run task → s.canceledSaved = false
  | .fail => False
  | .delete => False
  | _ => True

/-! ## Rounds of the poller -/

theorem settle_run (s : Polling) (run : PolledRun) (late : Bool) :
    (s.settle run late).run = s.run ∧ (s.settle run late).store = s.store ∧
      (s.settle run late).lastStatus = s.lastStatus ∧ (s.settle run late).cancelled = s.cancelled ∧
      (s.settle run late).canceledSaved = s.canceledSaved ∧
      (s.settle run late).aborted = s.aborted := by
  unfold Polling.settle
  repeat' split
  all_goals exact ⟨rfl, rfl, rfl, rfl, rfl, rfl⟩

theorem final_completed : Final .completed := by
  rintro (_ | _ | _ | _ | _ | _ | _ | _ | _ | _) <;> decide

variable {run : PolledRun}

theorem completed_move {run' : PolledRun} (h : run.status = .completed) :
    (run.status, run'.status) ∉ legalTransitions := by
  rw [h]
  exact final_completed _

/-- A run as the poller has read it; where it ends the poll, it is completed still. -/
def Polling.Seen (s : Polling) (run : PolledRun) : Prop :=
  endsPoll (mapped run.status) = true →
    run.status = .completed ∧ ∃ now, s.run = some now ∧ now.status = .completed

/-- What holds of the store, and of the phase of the poller. -/
structure Polling.Kept (s : Polling) : Prop where
  present : s.store.isSome = true
  cancelled : s.canceledSaved = true → s.cancelled = true
  aborted : s.aborted = true → s.cancelled = true
  /-- what is stored: the cancellation, once it has been, and else what was last written -/
  canceled : s.canceledSaved = true → ∀ task, s.store = some task → task.state = .canceled
  written : s.canceledSaved = false → ∀ state, s.lastStatus = some state →
    ∀ task, s.store = some task → task.state = state
  loading : ∀ run, s.phase = .loading run → s.Seen run
  saving : ∀ run task, s.phase = .saving run task → s.Seen run
  stopped : ∀ reason, s.phase = .stopped reason → reason = .deadline ∨
    (reason = .aborted ∧ s.aborted = true) ∨
    (reason = .observed ∧ s.lastStatus = some (mapped .completed) ∧
      ∃ run, s.run = some run ∧ run.status = .completed)

variable {s : Polling}

/-- The end of a round keeps what holds, where it follows a write or finds nothing new. -/
theorem Polling.Kept.settle (h : s.Kept) (hseen : s.Seen run)
    (hlast : s.lastStatus = some (mapped run.status)) (late : Bool) : (s.settle run late).Kept := by
  obtain ⟨hrun, hstore, hlastStatus, hcancelled, hsaved, haborted⟩ := settle_run s run late
  constructor
  · rw [hstore]
    exact h.present
  · rw [hsaved, hcancelled]
    exact h.cancelled
  · rw [haborted, hcancelled]
    exact h.aborted
  · rw [hsaved, hstore]
    exact h.canceled
  · rw [hsaved, hlastStatus, hstore]
    exact h.written
  · intro run' hphase
    unfold Polling.settle at hphase
    repeat' split at hphase
    all_goals cases hphase
  · intro run' task hphase
    unfold Polling.settle at hphase
    repeat' split at hphase
    all_goals cases hphase
  · intro reason hphase
    rw [hlastStatus, hrun, haborted]
    unfold Polling.settle at hphase
    split at hphase
    · rename_i hends
      cases hphase
      obtain ⟨hcompleted, hnow⟩ := hseen hends
      rw [hcompleted] at hlast
      exact .inr (.inr ⟨rfl, hlast, hnow⟩)
    · split at hphase
      · cases hphase
        exact .inl rfl
      split at hphase
      · rename_i hab
        cases hphase
        exact .inr (.inl ⟨rfl, hab⟩)
      · cases hphase

theorem Polling.Kept.enter {phase : PollPhase} (h : s.Kept)
    (hloading : ∀ run, phase = .loading run → s.Seen run)
    (hsaving : ∀ run task, phase = .saving run task → s.Seen run)
    (hstopped : ∀ reason, phase = .stopped reason → reason = .aborted ∧ s.aborted = true) :
    Polling.Kept { s with phase := phase } :=
  ⟨h.present, h.cancelled, h.aborted, h.canceled, h.written, hloading, hsaving,
    fun reason hphase => .inr (.inl (hstopped reason hphase))⟩

variable {pretty : Json → String}

/-- **A command of the poller keeps what holds.** -/
theorem kept_poll {late : Bool} (h : s.Kept)
    (hun : Unhindered s (.poll late)) : (s.poll pretty late).Kept := by
  obtain ⟨hreading, hloading, hsaving⟩ := hun
  unfold Polling.poll
  split
  · -- sleeping
    refine h.enter ?_ ?_ ?_
    · intro run hphase
      split at hphase <;> cases hphase
    · intro run task hphase
      split at hphase <;> cases hphase
    · intro reason hphase
      split at hphase
      · rename_i haborted
        cases hphase
        exact ⟨rfl, haborted⟩
      · cases hphase
  · -- reading
    rename_i hphase
    obtain ⟨run, hrun, hcompleted⟩ := hreading hphase
    have hseen : s.Seen run := fun hends => ⟨hcompleted hends, run, hrun, hcompleted hends⟩
    split
    · rename_i hnone
      cases hrun.symm.trans hnone
    rename_i run' hrun'
    cases hrun.symm.trans hrun'
    split
    · refine h.enter ?_ ?_ ?_
      · rintro run' ⟨⟩
        exact hseen
      · rintro run' task ⟨⟩
      · rintro reason ⟨⟩
    · rename_i hsame
      exact h.settle hseen (not_not.mp hsame) late
  · -- loading
    rename_i run hphase
    have hseen := h.loading run hphase
    split
    · rename_i hnone
      have hsome := hloading run hphase
      rw [hnone] at hsome
      cases hsome
    · refine h.enter ?_ ?_ ?_
      · rintro run' ⟨⟩
      · rintro run' task ⟨⟩
        exact hseen
      · rintro reason ⟨⟩
  · -- saving
    rename_i run task hphase
    have hseen := h.saving run task hphase
    have hsaved := hsaving run task hphase
    refine Polling.Kept.settle (s := { s with
      store := some (run.write pretty task), lastStatus := some (mapped run.status) }) ?_ hseen
      rfl late
    constructor
    · exact rfl
    · exact h.cancelled
    · exact h.aborted
    · intro htrue
      rw [show s.canceledSaved = true from htrue] at hsaved
      cases hsaved
    · rintro _ state ⟨⟩ task' ⟨⟩
      rfl
    · intro run' hl
      rw [show s.phase = _ from hl] at hphase
      cases hphase
    · intro run' task' hs
      exact h.saving run' task' hs
    · intro reason hs
      rw [show s.phase = _ from hs] at hphase
      cases hphase
  · exact h

/-- A move of the run keeps what holds: a completed run moves no more. -/
theorem kept_move (h : s.Kept) : (pollStep pretty s (.move run)).Kept := by
  simp only [pollStep]
  split
  · rename_i old hold
    split
    · rename_i hlegal
      have hnot : ∀ now, s.run = some now → now.status ≠ .completed := by
        rintro now hnow hcompleted
        cases hold.symm.trans hnow
        exact completed_move hcompleted hlegal
      have hseen : ∀ seen, s.Seen seen → Polling.Seen { s with run := some run } seen := by
        intro seen hs hends
        obtain ⟨_, now, hnow, hcompleted⟩ := hs hends
        exact absurd hcompleted (hnot now hnow)
      refine ⟨h.present, h.cancelled, h.aborted, h.canceled, h.written,
        fun seen hphase => hseen seen (h.loading seen hphase),
        fun seen task hphase => hseen seen (h.saving seen task hphase), ?_⟩
      intro reason hphase
      rcases h.stopped reason hphase with hd | ha | ⟨_, _, now, hnow, hcompleted⟩
      · exact .inl hd
      · exact .inr (.inl ha)
      · exact absurd hcompleted (hnot now hnow)
    · exact h
  · exact h

theorem kept_saveCanceled (h : s.Kept) : (pollStep pretty s .saveCanceled).Kept := by
  simp only [pollStep]
  split
  · rename_i hcancelled
    constructor
    · rw [← h.present]
      exact Option.isSome_map
    · exact fun _ => hcancelled
    · exact h.aborted
    · intro _ task htask
      obtain ⟨old, _, rfl⟩ := Option.map_eq_some_iff.mp htask
      rfl
    · rintro ⟨⟩
    · exact h.loading
    · exact h.saving
    · exact h.stopped
  · exact h

theorem kept_step {e : PollEvent} (h : s.Kept)
    (hun : Unhindered s e) : (pollStep pretty s e).Kept := by
  cases e with
  | move run => exact kept_move h
  | delete => exact hun.elim
  | poll late => exact kept_poll h hun
  | fail => exact hun.elim
  | cancel =>
    refine ⟨h.present, fun _ => rfl, fun _ => rfl, h.canceled, h.written, h.loading, h.saving, ?_⟩
    intro reason hphase
    rcases h.stopped reason hphase with hd | ⟨hr, _⟩ | ho
    · exact .inl hd
    · exact .inr (.inl ⟨hr, rfl⟩)
    · exact .inr (.inr ho)
  | saveCanceled => exact kept_saveCanceled h

theorem kept_submitted : submitted.Kept := by
  constructor
  · rfl
  · rintro ⟨⟩
  · rintro ⟨⟩
  · rintro ⟨⟩
  · rintro _ state ⟨⟩
  · rintro run ⟨⟩
  · rintro run task ⟨⟩
  · rintro reason ⟨⟩

theorem Polling.Kept.followed (h : s.Kept) : Followed s := by
  intro reason hphase hdeadline
  rcases h.stopped reason hphase with hd | ⟨_, haborted⟩ | ⟨_, hlast, run, hrun, hcompleted⟩
  · exact absurd hd hdeadline
  · refine .inr ⟨h.aborted haborted, fun hsaved => ?_⟩
    obtain ⟨task, htask⟩ := Option.isSome_iff_exists.mp h.present
    exact ⟨task, htask, h.canceled hsaved task htask⟩
  obtain ⟨task, htask⟩ := Option.isSome_iff_exists.mp h.present
  cases hsaved : s.canceledSaved with
  | true => exact .inr ⟨h.cancelled hsaved, fun _ => ⟨task, htask, h.canceled hsaved task htask⟩⟩
  | false =>
    refine .inl ⟨run, task, hrun, htask, ?_, ?_⟩
    · rw [h.written hsaved _ hlast task htask, hcompleted]
    · rw [hcompleted]
      exact final_completed

/-- **The stored task follows the run, in every run in which the poller finds the run and the
    task, stops for no status but `completed`, and writes nothing over a cancellation.** -/
theorem stored_task_follows (pretty : Json → String) {s : Polling}
    (h : Reaches (· = submitted) (pollStep pretty) Unhindered s) : Followed s := by
  refine (Reaches.invariant (I := Polling.Kept) ?_ ?_ h).followed
  · rintro _ rfl
    exact kept_submitted
  · exact fun s e => kept_step

/-- The poller finds the run queued, and then completed. -/
def observed : List PollEvent :=
  [.poll false, .poll false, .poll false, .poll false, .move { status := .running },
    .move { status := .completed }, .poll false, .poll false, .poll false, .poll false]

theorem stored_task_follows_observed :
    Followed (observed.foldl (pollStep fun _ => "") submitted) := by
  refine stored_task_follows (fun _ => "") ⟨submitted, rfl, Admits.leads ?_⟩
  refine ⟨?_, ?_, ?_, ?_, trivial, trivial, ?_, ?_, ?_, ?_, trivial⟩
  all_goals
    refine ⟨?_, ?_, ?_⟩
    · first
        | rintro ⟨⟩
          done
        | exact fun _ => ⟨_, rfl, by decide⟩
    · rintro run hphase
      first
        | cases hphase
          done
        | rfl
    · rintro run task hphase
      rfl

/-- The run waits for an approval when it is first read, and completes after that. -/
def paused : List PollEvent :=
  [.move { status := .pendingApproval }, .poll false, .poll false, .poll false, .poll false,
    .move { status := .completed }]

theorem paused_task : ¬ ∀ s, Reaches (· = submitted) (pollStep fun _ => "") (fun _ _ => True) s →
    Followed s := by
  intro hall
  have hfollowed := hall (paused.foldl (pollStep fun _ => "") submitted) ⟨submitted, rfl,
    Admits.leads (by refine ⟨?_, ?_, ?_, ?_, ?_, ?_, ?_⟩ <;> trivial)⟩
  have hphase : (paused.foldl (pollStep fun _ => "") submitted).phase = .stopped .observed := by
    decide +kernel
  have hrun : (paused.foldl (pollStep fun _ => "") submitted).run =
      some { status := .completed } := by decide +kernel
  have hstore : (paused.foldl (pollStep fun _ => "") submitted).store =
      some { state := .inputRequired } := by decide +kernel
  rcases hfollowed .observed hphase (by decide) with ⟨run, task, hr, ht, hstate, _⟩ | ⟨hc, _⟩
  · cases hrun.symm.trans hr
    cases hstore.symm.trans ht
    cases hstate
  · have hnot : (paused.foldl (pollStep fun _ => "") submitted).cancelled = false := by
      decide +kernel
    rw [hnot] at hc
    cases hc

end A2a
