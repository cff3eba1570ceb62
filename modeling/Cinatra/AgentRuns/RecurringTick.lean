import Cinatra.AgentRuns.Release

/-! # RecurringTick — the runs one tick of a recurring trigger makes

    The queue runs a tick's job again when it throws or its worker dies, three
    times at most.  Wherever an attempt ends, some number of its statements has
    taken effect, so an attempt is that number.  Each attempt mints an id of its
    own: an attempt that ends after its run was inserted leaves that run behind, and
    the next one makes another.  So a tick makes one run exactly when no attempt
    that fails gets as far as the insert (`recurring_tick_once`). -/

namespace AgentRuns

open Process RowTable

/-- The database and the queue answer every statement. -/
def answering : Environment RunCall RunCall.Reply RunError World Unit where
  answer _ c w := (.ok (serve w c).1, (serve w c).2)

/-- One run of the job: the id it mints, the clock, and after how many statements it
    ends, unless it completes. -/
structure Attempt where
  newId : String
  now : Int
  endsAfter : Option Nat
deriving DecidableEq

/-- The world an attempt leaves. -/
def Attempt.leaves (runId : String) (a : Attempt) (w : World) : World :=
  match a.endsAfter with
  | none => (exec answering w (runAgentRunTriggerReleaseJob a.now a.newId runId)).2
  | some n => upTo answering n (runAgentRunTriggerReleaseJob a.now a.newId runId) w

/-- The attempts of a tick; one that completes is the last. -/
def tick (runId : String) : List Attempt → World → World
  | [], w => w
  | a :: rest, w =>
    if a.endsAfter = none then a.leaves runId w else tick runId rest (a.leaves runId w)

/-- `attempts: 3`. -/
def tickAttempts : Nat := 3

/-! ## The law of a tick -/

def World.hasRun (w : World) (id : String) : Prop := (w.status id).isSome = true

instance {w : World} {id : String} : Decidable (w.hasRun id) := inferInstanceAs (Decidable (_ = _))

variable {id : String} {w : World}

theorem World.hasRun_iff : w.hasRun id ↔ ∃ r ∈ w.runs, r.id = id := by
  rw [hasRun, status, Option.isSome_map, List.find?_isSome]
  simp only [decide_eq_true_eq]

/-- An execution job for the run is in the queue. -/
def World.hasJob (w : World) (id : String) : Prop := ∃ j ∈ w.jobs, j.runId = id

/-- One child run at most, created and dispatched; one that was created is dispatched if
    some attempt completes. -/
structure OnceDispatched (attempts : List Attempt) (w : World) : Prop where
  created : ∀ a ∈ attempts, ∀ b ∈ attempts, w.hasRun a.newId → w.hasRun b.newId → a.newId = b.newId
  dispatched : ∀ a ∈ attempts, ∀ b ∈ attempts, w.hasJob a.newId → w.hasJob b.newId →
    a.newId = b.newId
  completed : (∃ a ∈ attempts, a.endsAfter = none) → ∀ a ∈ attempts, w.hasRun a.newId →
    w.hasJob a.newId

/-- The trigger is enabled, and the run that defines its schedule is there. -/
def Ticks (w : World) (runId : String) : Prop :=
  (∃ t, w.triggers.find? (fun t => t.runId = runId) = some t ∧ t.enabled = true ∧
    t.triggerType = .recurring) ∧
  ∃ r, w.runs.find? (fun r => r.id = runId) = some r ∧ r.orgId ≠ ""

/-- The attempt gets past the insert of its run, the fourth statement. -/
def Attempt.inserts (a : Attempt) : Prop := a.endsAfter.all (4 ≤ ·) = true

instance {a : Attempt} : Decidable a.inserts := inferInstanceAs (Decidable (_ = _))

/-- The attempt gets past the add of its job, the tenth statement. -/
def Attempt.enqueues (a : Attempt) : Prop := a.endsAfter.all (10 ≤ ·) = true

/-- The attempts that are made: none after one that completes. -/
def made : List Attempt → List Attempt
  | [] => []
  | a :: rest => if a.endsAfter = none then [a] else a :: made rest

/-- One attempt at most gets past the insert. -/
def OneInserts (attempts : List Attempt) : Prop :=
  ∀ a ∈ made attempts, ∀ b ∈ made attempts, a.inserts → b.inserts → a.newId = b.newId

instance {attempts : List Attempt} : Decidable (OneInserts attempts) :=
  inferInstanceAs (Decidable (∀ a ∈ made attempts, ∀ b ∈ made attempts,
    a.inserts → b.inserts → a.newId = b.newId))

/-- The ids minted are new, and all different. -/
structure Fresh (w : World) (attempts : List Attempt) : Prop where
  runs : ∀ a ∈ attempts, ∀ r ∈ w.runs, r.id ≠ a.newId
  jobs : ∀ a ∈ attempts, ∀ j ∈ w.jobs, j.id ≠ executionJobId a.newId ∧ j.runId ≠ a.newId
  distinct : (attempts.map Attempt.newId).Nodup

/-! ## What an attempt changes -/

/-- The worlds differ in what concerns one run. -/
structure Grown (id : String) (w w' : World) : Prop where
  runs : ∀ id', id' ≠ id → w'.runs.find? (fun r => r.id = id') = w.runs.find? (fun r => r.id = id')
  triggers : ∀ id', id' ≠ id →
    w'.triggers.find? (fun t => t.runId = id') = w.triggers.find? (fun t => t.runId = id')
  jobs : ∀ j ∈ w'.jobs, j ∈ w.jobs ∨ j.id = executionJobId id ∧ j.runId = id
  kept : ∀ j ∈ w.jobs, j ∈ w'.jobs

theorem Grown.refl (id : String) (w : World) : Grown id w w :=
  ⟨fun _ _ => rfl, fun _ _ => rfl, fun _ hj => .inl hj, fun _ hj => hj⟩

theorem Grown.trans {w' w'' : World} (h : Grown id w w') (h' : Grown id w' w'') :
    Grown id w w'' := by
  refine ⟨fun id' hne => (h'.runs id' hne).trans (h.runs id' hne),
    fun id' hne => (h'.triggers id' hne).trans (h.triggers id' hne), fun j hj => ?_,
    fun j hj => h'.kept j (h.kept j hj)⟩
  rcases h'.jobs j hj with hj | hj
  · exact h.jobs j hj
  · exact .inr hj

section Statements

variable {id : String} {w : World}

theorem grown_insertRun {run : AgentRun} (hid : run.id = id) :
    Grown id w (serve w (.insertRun run)).2 := by
  refine ⟨fun id' hne => ?_, fun _ _ => rfl, fun j hj => .inl hj, fun _ hj => hj⟩
  show (w.runs ++ [run]).find? _ = _
  have hother : decide (run.id = id') = false := decide_eq_false fun h => hne (h.symm.trans hid)
  rw [List.find?_append, List.find?_cons, hother, List.find?_nil, Option.or_none]

theorem grown_upsertTrigger {t : TriggerRecord} (hid : t.runId = id) :
    Grown id w (serve w (.upsertRunTrigger t)).2 := by
  refine ⟨fun _ _ => rfl, fun id' hne => ?_, fun j hj => .inl hj, fun _ hj => hj⟩
  have hother : decide (t.runId = id') = false := decide_eq_false fun h => hne (h.symm.trans hid)
  show (upsertTrigger t w.triggers).find? _ = _
  rw [upsertTrigger]
  split
  · refine find?_updateWhere_other w.triggers (fun _ _ => hother) fun r hr => ?_
    rw [decide_eq_true_eq] at hr
    rw [hr, hid]
    exact decide_eq_false hne
  · rw [List.find?_append, List.find?_cons, hother, List.find?_nil, Option.or_none]

theorem grown_setReleasedFlag : Grown id w (serve w (.setReleasedFlag id)).2 :=
  ⟨fun _ _ => rfl, fun _ _ => rfl, fun _ hj => .inl hj, fun _ hj => hj⟩

theorem grown_markReleased {now : Int} : Grown id w (serve w (.markTriggerReleasedInDb id now)).2 := by
  refine ⟨fun _ _ => rfl, fun id' hne => ?_, fun j hj => .inl hj, fun _ hj => hj⟩
  refine find?_updateWhere_other w.triggers (fun r hr => ?_) fun r hr => ?_
  · rw [decide_eq_true_eq] at hr
    exact decide_eq_false fun h => hne (h.symm.trans hr)
  · rw [decide_eq_true_eq] at hr
    exact decide_eq_false fun h => hne (hr.symm.trans h)

theorem grown_casStatus {source target : AgentRunStatus} :
    Grown id w (serve w (.casStatus id source target)).2 := by
  refine ⟨fun id' hne => ?_, fun _ _ => rfl, fun j hj => .inl hj, fun _ hj => hj⟩
  refine find?_updateWhere_other w.runs (fun r hr => ?_) fun r hr => ?_
  · rw [Bool.and_eq_true, decide_eq_true_eq] at hr
    exact decide_eq_false fun h => hne (h.symm.trans hr.1)
  · rw [decide_eq_true_eq] at hr
    rw [Bool.and_eq_false_iff]
    exact .inl (decide_eq_false fun h => hne (hr.symm.trans h))

theorem grown_addJob : Grown id w (serve w (.addJob (executionJobId id) id)).2 :=
  ⟨fun _ _ => rfl, fun _ _ => rfl, fun j hj => (mem_addJob hj).imp_right fun h => by
      rw [h]
      exact ⟨rfl, rfl⟩, fun _ hj => mem_addJob_of_mem hj⟩

end Statements

/-! ## The statements of an attempt, one by one -/

section Attempt

variable {α : Type} {n : Nat} {w : World} {c : RunCall} {k : c.Reply → RunProg α}

theorem upTo_next :
    upTo answering (n + 1) (perform c >>= k) w = upTo answering n (k (serve w c).1) (serve w c).2 :=
  upTo_call rfl

theorem upTo_read {r : c.Reply} (h : serve w c = (r, w)) :
    upTo answering (n + 1) (perform c >>= k) w = upTo answering n (k r) w := by
  rw [upTo_next, h]

variable {runId : String} {now : Int}

theorem upTo_tryTransition {source target : AgentRunStatus}
    {k : Bool → RunProg α} (hlegal : legalTransitions.contains (source, target) = true)
    (hlive : terminalRunStatuses.contains target = false) :
    upTo answering (n + 1) (tryTransition now runId source target >>= k) w =
      upTo answering n (k (serve w (.casStatus runId source target)).1)
        (serve w (.casStatus runId source target)).2 := by
  rw [tryTransition_eq hlegal hlive]
  rfl

/-- Nothing in the queue is about the run, or has its job's id. -/
def Unqueued (w : World) (id : String) : Prop :=
  ∀ j ∈ w.jobs, j.id ≠ executionJobId id ∧ j.runId ≠ id

theorem Unqueued.hasJob (h : Unqueued w id) : ¬ w.hasJob id := by
  rintro ⟨j, hj, hid⟩
  exact (h j hj).2 hid

theorem hasJob_addJob (h : Unqueued w id) :
    (serve w (.addJob (executionJobId id) id)).2.hasJob id := by
  refine ⟨{ id := executionJobId id, runId := id }, ?_, rfl⟩
  show _ ∈ addJob (executionJobId id) id w.jobs
  rw [addJob_of_absent fun j hj => (h j hj).1]
  exact List.mem_concat_self

theorem hasRun_casStatus {source target : AgentRunStatus} (h : w.hasRun id) :
    (serve w (.casStatus id source target)).2.hasRun id := by
  obtain ⟨a, ha⟩ := Option.isSome_iff_exists.mp h
  obtain ⟨r, hr, _⟩ := Option.map_eq_some_iff.mp ha
  show (((updateWhere _ _ w.runs).find? _).map AgentRun.status).isSome = true
  rw [find?_updateWhere, hr]
  · rfl
  · intro _ _
    rfl

/-- What `n` statements of the dispatch of a run have done. -/
structure Dispatched (id : String) (n : Nat) (w w' : World) : Prop where
  grown : Grown id w w'
  run : w.hasRun id → w'.hasRun id
  job : w'.hasJob id ↔ 5 ≤ n

theorem dispatchTick_upTo {timezone : String} (hnew : Unqueued w id) (n : Nat) :
    Dispatched id n w (upTo answering n (dispatchTick now timezone id) w) := by
  have hnojob : ∀ w' : World, w'.jobs = w.jobs → ¬ w'.hasJob id := by
    rintro w' hjobs ⟨j, hj, hid⟩
    exact (hnew j (hjobs ▸ hj)).2 hid
  -- the five worlds, one statement apart
  let w₁ := (serve w (.upsertRunTrigger (immediateTrigger timezone id))).2
  let w₂ := (serve w₁ (.setReleasedFlag id)).2
  let w₃ := (serve w₂ (.markTriggerReleasedInDb id now)).2
  let w₄ := (serve w₃ (.casStatus id .pendingInput .queued)).2
  let w₅ := (serve w₄ (.addJob (executionJobId id) id)).2
  have h₁ : Grown id w w₁ := grown_upsertTrigger rfl
  have h₂ : Grown id w w₂ := h₁.trans grown_setReleasedFlag
  have h₃ : Grown id w w₃ := h₂.trans grown_markReleased
  have h₄ : Grown id w w₄ := h₃.trans grown_casStatus
  have h₅ : Grown id w w₅ := h₄.trans grown_addJob
  have hrun₄ : w.hasRun id → w₄.hasRun id := fun h => hasRun_casStatus (w := w₃) h
  rw [dispatchTick, markTriggerReleased]
  simp only [bind_assoc]
  rcases n with _ | n
  · exact ⟨Grown.refl id w, fun h => h, iff_of_false (hnojob w rfl) (by omega)⟩
  rw [upTo_next]
  rcases n with _ | n
  · exact ⟨h₁, fun h => h, iff_of_false (hnojob w₁ rfl) (by omega)⟩
  rw [upTo_next]
  rcases n with _ | n
  · exact ⟨h₂, fun h => h, iff_of_false (hnojob w₂ rfl) (by omega)⟩
  rw [upTo_next]
  rcases n with _ | n
  · exact ⟨h₃, fun h => h, iff_of_false (hnojob w₃ rfl) (by omega)⟩
  rw [upTo_tryTransition (by decide) (by decide)]
  rcases n with _ | n
  · exact ⟨h₄, hrun₄, iff_of_false (hnojob w₄ rfl) (by omega)⟩
  rw [upTo_perform]
  exact ⟨h₅, hrun₄, iff_of_true (hasJob_addJob (w := w₄) hnew) (by omega)⟩

/-! ## An attempt -/

/-- What `n` statements of an attempt have done. -/
structure Attempted (id : String) (n : Nat) (w w' : World) : Prop where
  grown : Grown id w w'
  run : w'.hasRun id ↔ 4 ≤ n
  job : w'.hasJob id ↔ 10 ≤ n

theorem find?_insertRun {run : AgentRun} (hnew : ∀ r ∈ w.runs, r.id ≠ run.id) :
    (serve w (.insertRun run)).2.runs.find? (fun r => r.id = run.id) = some run := by
  have hnone : w.runs.find? (fun r => decide (r.id = run.id)) = none := by
    rw [List.find?_eq_none]
    intro r hr
    rw [decide_eq_true_eq]
    exact hnew r hr
  show (w.runs ++ [run]).find? _ = _
  rw [List.find?_append, hnone, Option.none_or, List.find?_cons, decide_eq_true rfl]

theorem release_upTo (now : Int) {newId : String} (hticks : Ticks w runId)
    (hnew : ∀ r ∈ w.runs, r.id ≠ newId) (hunqueued : Unqueued w newId) (n : Nat) :
    Attempted newId n w (upTo answering n (runAgentRunTriggerReleaseJob now newId runId) w) := by
  obtain ⟨⟨t, ht, hon, hrec⟩, source, hsource, horg⟩ := hticks
  have hnone : ¬ w.hasRun newId := by
    rw [World.hasRun_iff]
    rintro ⟨r, hr, hid⟩
    exact hnew r hr hid
  -- the three reads before the insert change nothing
  have hstill : ∀ m, m < 4 → Attempted newId m w w := fun m hm =>
    ⟨Grown.refl newId w, iff_of_false hnone (by omega),
      iff_of_false hunqueued.hasJob (by omega)⟩
  rw [runAgentRunTriggerReleaseJob]
  rcases n with _ | n
  · exact hstill 0 (by omega)
  have htrigger : serve w (.readRunTriggerByRunId runId) = (some t, w) := congrArg (·, w) ht
  rw [upTo_read htrigger]
  simp only [hon, hrec, Bool.not_true, Bool.false_eq_true, if_false, if_true]
  rw [releaseRecurring]
  rcases n with _ | n
  · exact hstill 1 (by omega)
  have hread : serve w (.readAgentRunById runId) = (some source, w) := congrArg (·, w) hsource
  rw [upTo_read hread]
  simp only [if_neg horg, createAgentRunPendingInput, bind_assoc]
  rcases n with _ | n
  · exact hstill 2 (by omega)
  rw [upTo_read rfl]
  rcases n with _ | n
  · exact hstill 3 (by omega)
  rw [upTo_next]
  generalize hrun : AgentRun.mk newId _ _ _ _ _ _ _ _ _ _ = run
  have hid : run.id = newId := by rw [← hrun]
  subst hid
  -- the run is there, and the rest is its dispatch
  let w' := (serve w (.insertRun run)).2
  have hmade : w'.runs.find? (fun r => r.id = run.id) = some run := find?_insertRun hnew
  have hgrown : Grown run.id w w' := grown_insertRun rfl
  have hrun' : w'.hasRun run.id := by
    rw [World.hasRun_iff]
    exact ⟨run, List.mem_of_find?_eq_some hmade, rfl⟩
  rcases n with _ | n
  · exact ⟨hgrown, iff_of_true hrun' (by omega), iff_of_false hunqueued.hasJob (by omega)⟩
  have hback : serve w' (.readAgentRunById run.id) = (some run, w') := congrArg (·, w') hmade
  rw [upTo_read hback]
  have hrest : Dispatched run.id n w'
      (upTo answering n (dispatchTick now t.timezone run.id) w') :=
    dispatchTick_upTo (w := w') hunqueued n
  refine ⟨hgrown.trans hrest.grown, iff_of_true (hrest.run hrun') (by omega), ?_⟩
  exact hrest.job.trans (by omega)

/-- A trigger that is disabled, or whose source run is gone, makes no run. -/
theorem release_idle (now : Int) (newId : String) {t : TriggerRecord}
    (ht : w.triggers.find? (fun t => t.runId = runId) = some t) (hrec : t.triggerType = .recurring)
    (hidle : ¬ Ticks w runId) (n : Nat) :
    ∃ schedulers, upTo answering n (runAgentRunTriggerReleaseJob now newId runId) w =
      { w with schedulers := schedulers } := by
  rw [runAgentRunTriggerReleaseJob]
  rcases n with _ | n
  · exact ⟨_, rfl⟩
  have htrigger : serve w (.readRunTriggerByRunId runId) = (some t, w) := congrArg (·, w) ht
  rw [upTo_read htrigger]
  dsimp only
  split
  · -- disabled: its scheduler is removed, if it has one
    rw [unschedule]
    split
    · rename_i id _ _
      split
      · exact ⟨_, upTo_pure n ()⟩
      · rcases n with _ | n
        · exact ⟨_, rfl⟩
        · exact ⟨w.schedulers.filter (fun s => s ≠ id), upTo_perform⟩
    · exact ⟨_, upTo_pure n ()⟩
  · rename_i hon
    rw [Bool.not_eq_true, Bool.not_eq_false'] at hon
    rw [releaseRecurring]
    rcases n with _ | n
    · exact ⟨_, rfl⟩
    rw [upTo_next]
    split
    · exact ⟨_, upTo_pure n ()⟩
    rename_i source hsource
    split
    · exact ⟨_, upTo_pure n ()⟩
    · rename_i horg
      exact absurd ⟨⟨t, ht, hon, hrec⟩, source, hsource, horg⟩ hidle

end Attempt

/-- An attempt is so many statements, past the insert and the add or not. -/
theorem Attempt.leaves_upTo (runId : String) (a : Attempt) (w : World) : ∃ n, a.leaves runId w =
        upTo answering n (runAgentRunTriggerReleaseJob a.now a.newId runId) w ∧
      (4 ≤ n ↔ a.inserts) ∧ (10 ≤ n ↔ a.enqueues) := by
  rw [leaves, inserts, enqueues]
  cases a.endsAfter with
  | none =>
    let p := runAgentRunTriggerReleaseJob a.now a.newId runId
    have hexec : ∃ n, ∀ m, n ≤ m → upTo answering m p w = (exec answering w p).2 :=
      upTo_eq_exec p w
    obtain ⟨n, hn⟩ := hexec
    refine ⟨max n 10, (hn _ (Nat.le_max_left n 10)).symm, ?_, ?_⟩
    · exact iff_of_true (by omega) rfl
    · exact iff_of_true (by omega) rfl
  | some n => exact ⟨n, rfl, decide_eq_true_iff.symm, decide_eq_true_iff.symm⟩

theorem Attempt.enqueues.inserts {a : Attempt} (h : a.enqueues) : a.inserts := by
  rw [Attempt.enqueues] at h
  rw [Attempt.inserts]
  cases hends : a.endsAfter with
  | none => rfl
  | some n =>
    rw [hends, Option.all_some, decide_eq_true_eq] at h
    rw [Option.all_some, decide_eq_true_eq]
    omega

/-! ## The attempts of a tick -/

section Tick

variable {runId : String} {w w' : World} {a : Attempt} {attempts : List Attempt} {id' : String}

theorem Grown.hasRun_other (h : Grown id w w') (hne : id' ≠ id) : w'.hasRun id' ↔ w.hasRun id' := by
  show ((w'.runs.find? _).map AgentRun.status).isSome = true ↔ _
  rw [h.runs id' hne]
  rfl

theorem Grown.hasJob_other (h : Grown id w w') (hne : id' ≠ id) : w'.hasJob id' ↔ w.hasJob id' := by
  constructor
  · rintro ⟨j, hj, hid⟩
    rcases h.jobs j hj with hj | ⟨_, hj⟩
    · exact ⟨j, hj, hid⟩
    · exact absurd (hid.symm.trans hj) hne
  · rintro ⟨j, hj, hid⟩
    exact ⟨j, h.kept j hj, hid⟩

theorem executionJobId_injective (h : executionJobId id = executionJobId id') : id = id' :=
  (String.append_right_inj "agent-builder-").mp h

theorem Fresh.ne_source (hfresh : Fresh w attempts) (hticks : Ticks w runId) (ha : a ∈ attempts) :
    runId ≠ a.newId := by
  obtain ⟨_, r, hr, _⟩ := hticks
  have hid : r.id = runId := of_decide_eq_true (List.find?_some hr :)
  exact hid ▸ hfresh.runs a ha r (List.mem_of_find?_eq_some hr)

theorem Ticks.grown (hticks : Ticks w runId) (h : Grown id w w') (hne : runId ≠ id) :
    Ticks w' runId := by
  rw [Ticks, h.triggers runId hne, h.runs runId hne]
  exact hticks

/-- What the next attempts mint is new in the world an attempt leaves. -/
theorem Fresh.grown (hfresh : Fresh w (a :: attempts)) (h : Grown a.newId w w') :
    Fresh w' attempts := by
  have hdistinct := hfresh.distinct
  rw [List.map_cons, List.nodup_cons] at hdistinct
  have hne : ∀ b ∈ attempts, b.newId ≠ a.newId := by
    intro b hb hid
    exact hdistinct.1 (hid ▸ List.mem_map_of_mem hb)
  refine ⟨fun b hb r hr hid => ?_, fun b hb j hj => ?_, hdistinct.2⟩
  · have hnone : w'.runs.find? (fun r => decide (r.id = b.newId)) = none := by
      rw [h.runs _ (hne b hb), List.find?_eq_none]
      intro r hr
      rw [decide_eq_true_eq]
      exact hfresh.runs b (List.mem_cons_of_mem a hb) r hr
    rw [List.find?_eq_none] at hnone
    exact hnone r hr (decide_eq_true hid)
  · rcases h.jobs j hj with hj | ⟨hid, hrun⟩
    · exact hfresh.jobs b (List.mem_cons_of_mem a hb) j hj
    · refine ⟨fun hb' => hne b hb ?_, fun hb' => hne b hb (hb'.symm.trans hrun)⟩
      exact executionJobId_injective (hb'.symm.trans hid)

theorem leaves_ticking (hticks : Ticks w runId) (hfresh : Fresh w (a :: attempts)) :
    Grown a.newId w (a.leaves runId w) ∧ ((a.leaves runId w).hasRun a.newId ↔ a.inserts) ∧
      ((a.leaves runId w).hasJob a.newId ↔ a.enqueues) := by
  obtain ⟨n, hleaves, hinserts, henqueues⟩ := a.leaves_upTo runId w
  have h := release_upTo a.now hticks (hfresh.runs a (.head _))
    (hfresh.jobs a (.head _)) n
  rw [hleaves]
  exact ⟨h.grown, h.run.trans hinserts, h.job.trans henqueues⟩

theorem made_sub {b : Attempt} (hb : b ∈ made attempts) : b ∈ attempts := by
  induction attempts with
  | nil => exact hb
  | cons a rest ih =>
    rw [made] at hb
    split at hb
    · rw [List.mem_singleton.mp hb]
      exact .head _
    · rcases List.mem_cons.mp hb with rfl | hb
      · exact .head _
      · exact List.mem_cons_of_mem a (ih hb)

theorem made_completes (h : ∃ a ∈ attempts, a.endsAfter = none) :
    ∃ a ∈ made attempts, a.endsAfter = none := by
  induction attempts with
  | nil =>
    obtain ⟨a, ha, _⟩ := h
    cases ha
  | cons a rest ih =>
    rw [made]
    split
    · rename_i hends
      exact ⟨a, List.mem_singleton.mpr rfl, hends⟩
    rename_i hends
    obtain ⟨b, hb, hb'⟩ := h
    rcases List.mem_cons.mp hb with rfl | hb
    · exact absurd hb' hends
    · obtain ⟨c, hc, hc'⟩ := ih ⟨b, hb, hb'⟩
      exact ⟨c, List.mem_cons_of_mem a hc, hc'⟩

theorem tick_other (hticks : Ticks w runId) (hfresh : Fresh w attempts)
    (hid : ∀ a ∈ attempts, id ≠ a.newId) : ((tick runId attempts w).hasRun id ↔ w.hasRun id) ∧
      ((tick runId attempts w).hasJob id ↔ w.hasJob id) := by
  induction attempts generalizing w with
  | nil => exact ⟨Iff.rfl, Iff.rfl⟩
  | cons a rest ih =>
    obtain ⟨hgrown, _, _⟩ := leaves_ticking hticks hfresh
    have hne := hid a (.head _)
    have hrun := hgrown.hasRun_other hne
    have hjob := hgrown.hasJob_other hne
    rw [tick]
    split
    · exact ⟨hrun, hjob⟩
    · have hticks' := hticks.grown hgrown (hfresh.ne_source hticks (.head _))
      obtain ⟨ihrun, ihjob⟩ := ih hticks' (hfresh.grown hgrown)
        (fun b hb => hid b (List.mem_cons_of_mem a hb))
      exact ⟨ihrun.trans hrun, ihjob.trans hjob⟩

/-- **The runs and the jobs a tick leaves are those its attempts got as far as.** -/
theorem tick_ticking (hticks : Ticks w runId) (hfresh : Fresh w attempts) :
    ∀ a ∈ attempts, ((tick runId attempts w).hasRun a.newId ↔ a ∈ made attempts ∧ a.inserts) ∧
      ((tick runId attempts w).hasJob a.newId ↔ a ∈ made attempts ∧ a.enqueues) := by
  induction attempts generalizing w with
  | nil =>
    intro a ha
    cases ha
  | cons a rest ih =>
    obtain ⟨hgrown, hinserts, henqueues⟩ := leaves_ticking hticks hfresh
    have hdistinct := hfresh.distinct
    rw [List.map_cons, List.nodup_cons] at hdistinct
    have hne : ∀ b ∈ rest, b.newId ≠ a.newId := by
      intro b hb hid
      exact hdistinct.1 (hid ▸ List.mem_map_of_mem hb)
    have hfresh' := hfresh.grown hgrown
    have hticks' := hticks.grown hgrown (hfresh.ne_source hticks (.head _))
    intro b hb
    rw [tick, made]
    split
    · -- the attempt completes, and is the last
      rcases List.mem_cons.mp hb with rfl | hb
      · rw [hinserts, henqueues, List.mem_singleton]
        exact ⟨(and_iff_right rfl).symm, (and_iff_right rfl).symm⟩
      have hb' : b ∉ [a] := fun h => hne b hb (congrArg _ (List.mem_singleton.mp h))
      have hmem := List.mem_cons_of_mem a hb
      rw [hgrown.hasRun_other (hne b hb), hgrown.hasJob_other (hne b hb)]
      refine ⟨iff_of_false ?_ fun h => hb' h.1, iff_of_false ?_ fun h => hb' h.1⟩
      · rw [World.hasRun_iff]
        rintro ⟨r, hr, hid⟩
        exact hfresh.runs b hmem r hr hid
      · rintro ⟨j, hj, hid⟩
        exact (hfresh.jobs b hmem j hj).2 hid
    · rcases List.mem_cons.mp hb with rfl | hb
      · obtain ⟨hrun, hjob⟩ := tick_other hticks' hfresh' (fun c hc => (hne c hc).symm)
        rw [hrun, hjob, hinserts, henqueues]
        have hself : b ∈ b :: made rest := List.mem_cons_self
        exact ⟨(and_iff_right hself).symm, (and_iff_right hself).symm⟩
      · have hmem : b ∈ a :: made rest ↔ b ∈ made rest := by
          rw [List.mem_cons, or_iff_right]
          exact fun h => hne b hb (congrArg _ h)
        rw [hmem]
        exact ih hticks' hfresh' b hb

theorem tick_idle (attempts : List Attempt) {t : TriggerRecord}
    (ht : w.triggers.find? (fun t => t.runId = runId) = some t) (hrec : t.triggerType = .recurring)
    (hidle : ¬ Ticks w runId) :
    ∃ schedulers, tick runId attempts w = { w with schedulers := schedulers } := by
  induction attempts generalizing w with
  | nil => exact ⟨_, rfl⟩
  | cons a rest ih =>
    obtain ⟨n, hleaves, _⟩ := a.leaves_upTo runId w
    obtain ⟨schedulers, h⟩ := release_idle a.now a.newId ht hrec hidle n
    rw [tick, hleaves, h]
    split
    · exact ⟨schedulers, rfl⟩
    · exact ih (w := { w with schedulers := schedulers }) ht hidle

end Tick

variable {attempts : List Attempt}

theorem onceDispatched_of_idle (hfresh : Fresh w attempts) : OnceDispatched attempts w := by
  have hrun : ∀ a ∈ attempts, ¬ w.hasRun a.newId := by
    intro a ha
    rw [World.hasRun_iff]
    rintro ⟨r, hr, hid⟩
    exact hfresh.runs a ha r hr hid
  have hjob : ∀ a ∈ attempts, ¬ w.hasJob a.newId := by
    rintro a ha ⟨j, hj, hid⟩
    exact (hfresh.jobs a ha j hj).2 hid
  exact ⟨fun a ha b _ h => absurd h (hrun a ha), fun a ha b _ h => absurd h (hjob a ha),
    fun _ a ha h => absurd h (hrun a ha)⟩

/-- One run is made in a tick exactly when one attempt at most gets past the insert. -/
theorem onceDispatched_iff {runId : String} (hticks : Ticks w runId) (hfresh : Fresh w attempts) :
    OnceDispatched attempts (tick runId attempts w) ↔ OneInserts attempts := by
  have htick := tick_ticking hticks hfresh
  constructor
  · intro h a ha b hb hains hbins
    have hasub := made_sub ha
    have hbsub := made_sub hb
    exact h.created a hasub b hbsub ((htick a hasub).1.mpr ⟨ha, hains⟩)
      ((htick b hbsub).1.mpr ⟨hb, hbins⟩)
  · intro h
    refine ⟨fun a ha b hb hra hrb => ?_, fun a ha b hb hja hjb => ?_, fun hcompletes a ha hra => ?_⟩
    · obtain ⟨ha', hains⟩ := (htick a ha).1.mp hra
      obtain ⟨hb', hbins⟩ := (htick b hb).1.mp hrb
      exact h a ha' b hb' hains hbins
    · obtain ⟨ha', hadds⟩ := (htick a ha).2.mp hja
      obtain ⟨hb', hbadds⟩ := (htick b hb).2.mp hjb
      exact h a ha' b hb' hadds.inserts hbadds.inserts
    · -- the attempt that completes made the run, and dispatched it
      obtain ⟨c, hc, hends⟩ := made_completes hcompletes
      obtain ⟨ha', hains⟩ := (htick a ha).1.mp hra
      have hall : ∀ k : Nat, c.endsAfter.all (k ≤ ·) = true := fun k => by rw [hends]; rfl
      rw [h a ha' c hc hains (hall 4)]
      exact (htick c (made_sub hc)).2.mpr ⟨hc, hall 10⟩

/-- **A recurring tick makes and dispatches one run, unless two of its attempts get
    past the insert.** -/
theorem recurring_tick_once {runId : String} {w : World} {t : TriggerRecord}
    {attempts : List Attempt} (ht : w.triggers.find? (fun t => t.runId = runId) = some t)
    (hrec : t.triggerType = .recurring) (hfresh : Fresh w (attempts.take tickAttempts)) :
    OnceDispatched (attempts.take tickAttempts) (tick runId (attempts.take tickAttempts) w) ↔
      (Ticks w runId → OneInserts (attempts.take tickAttempts)) := by
  by_cases hticks : Ticks w runId
  · rw [onceDispatched_iff hticks hfresh]
    exact ⟨fun h _ => h, fun h => h hticks⟩
  · obtain ⟨schedulers, h⟩ := tick_idle (attempts.take tickAttempts) ht hrec hticks
    rw [h]
    refine iff_of_true (onceDispatched_of_idle ?_) fun h => absurd h hticks
    exact ⟨hfresh.runs, hfresh.jobs, hfresh.distinct⟩

/-- **At least once**: a tick one of whose attempts completes makes and dispatches a run, no job
    is left without its run, and no other run or job comes or goes. -/
theorem tick_at_least_once {runId : String} (hticks : Ticks w runId) (hfresh : Fresh w attempts) :
    ((∃ a ∈ attempts, a.endsAfter = none) →
      ∃ a ∈ attempts, (tick runId attempts w).hasJob a.newId) ∧
    (∀ a ∈ attempts, (tick runId attempts w).hasJob a.newId →
      (tick runId attempts w).hasRun a.newId) ∧ ∀ id, (∀ a ∈ attempts, id ≠ a.newId) →
      ((tick runId attempts w).hasRun id ↔ w.hasRun id) ∧
        ((tick runId attempts w).hasJob id ↔ w.hasJob id) := by
  have htick := tick_ticking hticks hfresh
  refine ⟨fun hcompletes => ?_, fun a ha hjob => ?_, fun id hid => tick_other hticks hfresh hid⟩
  · obtain ⟨a, ha, hends⟩ := made_completes hcompletes
    have hadds : a.enqueues := by rw [Attempt.enqueues, hends]; rfl
    exact ⟨a, made_sub ha, (htick a (made_sub ha)).2.mpr ⟨ha, hadds⟩⟩
  · obtain ⟨hmade, hadds⟩ := (htick a ha).2.mp hjob
    exact (htick a ha).1.mpr ⟨hmade, hadds.inserts⟩

/-! ## A tick, twice -/

/-- A run that defines a schedule. -/
def schedule : World where
  runs := [{ id := "schedule", templateId := "digest", orgId := "acme", status := .armed }]
  triggers :=
    [{ runId := "schedule", triggerType := .recurring, jobSchedulerId := some "trigger-schedule" }]

/-- The first attempt dies before its insert, the second completes. -/
def diesEarly : List Attempt :=
  [{ newId := "first", now := 0, endsAfter := some 2 },
    { newId := "second", now := 1000, endsAfter := none }]

/-- The first attempt dies when it has inserted its run. -/
def diesLate : List Attempt :=
  [{ newId := "first", now := 0, endsAfter := some 5 },
    { newId := "second", now := 1000, endsAfter := none }]

theorem tick_at_least_once_diesLate :
    ∃ a ∈ diesLate, (tick "schedule" diesLate schedule).hasJob a.newId :=
  (tick_at_least_once ⟨⟨_, rfl, rfl, rfl⟩, _, rfl, by decide⟩ ⟨by decide, by decide, by decide⟩).1
    (by decide)

theorem fresh_diesEarly : Fresh schedule (diesEarly.take tickAttempts) :=
  ⟨by decide, by decide, by decide⟩

theorem recurring_tick_once_diesEarly : OnceDispatched (diesEarly.take tickAttempts)
      (tick "schedule" (diesEarly.take tickAttempts) schedule) :=
  (recurring_tick_once (w := schedule) rfl rfl fresh_diesEarly).mpr fun _ => by decide

/-- Two runs for one tick; the first is left in `pending_input`. -/
theorem tick_twice : ¬ OnceDispatched (diesLate.take tickAttempts)
      (tick "schedule" (diesLate.take tickAttempts) schedule) := by
  intro h
  have hfirst : (tick "schedule" (diesLate.take tickAttempts) schedule).hasRun "first" := by
    decide +kernel
  have hsecond : (tick "schedule" (diesLate.take tickAttempts) schedule).hasRun "second" := by
    decide +kernel
  have heq : "first" = "second" :=
    h.created { newId := "first", now := 0, endsAfter := some 5 } (by decide)
      { newId := "second", now := 1000, endsAfter := none } (by decide) hfirst hsecond
  exact absurd heq (by decide)

end AgentRuns
