import Cinatra.Workflows.Claiming

/-! # Settling — outcomes and polled child runs as acts

    An outcome is recorded behind the ownership gate: the lease with the claim's
    token goes first, so the attempt it settles is under no lease any more.  A
    polled child run settles an attempt whose child run is known, which no lease
    covers. -/

namespace WfSettling

open RowTable WfTransitions WfSpec WfRows WfState WfReconciler WfSettle WfLifecycle WfEngine
open WfActs WfInvariant WfPaths WfInterference

variable {e e' cur : Engine} {tasks : List TaskRow} {now : Instant} {s : TaskRow}

theorem succeedTask_act (hk : Keyed e) (hl : Loaded tasks e) (hs : s ∈ tasks)
    (hrun : s.status = .running) : RowAct e (succeedTask e s) := by
  refine hl.cas hk hs ?_
  intro t _ _ hv hcopy
  refine ⟨rfl, rfl, rfl, ?_, StatusMove.finish ?_ rfl rfl (.inl (hcopy.status.trans hrun))⟩
  · show t.lockVersion < s.lockVersion + 1
    omega
  · rw [hcopy.status, hrun]
    rfl

theorem applyTaskFailure_act (hk : Keyed e) (hl : Loaded tasks e) (hs : s ∈ tasks)
    (hrun : s.status = .running) (hown : Attempted e s.id)
    (hatt : ∀ a ∈ e.db.attempts, a.taskId = s.id → a.status ≠ .running)
    (hlease : ∀ l ∈ e.db.leases, l.taskId ≠ s.id) (hlive : Live e.db.workflow.status)
    (attemptNo : Nat) : RowAct e (applyTaskFailure now e s attemptNo) := by
  rw [applyTaskFailure]
  by_cases hbudget : attemptNo < s.maxAttempts.getD defaultMaxAttempts
  · rw [if_pos hbudget]
    refine hl.cas hk hs ?_
    intro t _ hid hv hcopy
    refine ⟨rfl, rfl, rfl, ?_, StatusMove.requeue (hcopy.status.trans hrun) rfl ?_ ?_
      (.inl (hid ▸ hown)) hlive⟩
    · show t.lockVersion < s.lockVersion + 1
      omega
    · rw [hid]
      exact hatt
    · rw [hid]
      exact hlease
  · rw [if_neg hbudget]
    refine hl.cas hk hs ?_
    intro t _ _ hv hcopy
    refine ⟨rfl, rfl, rfl, ?_, StatusMove.finish ?_ rfl rfl (.inl (hcopy.status.trans hrun))⟩
    · show t.lockVersion < s.lockVersion + 1
      omega
    · rw [hcopy.status, hrun]
      rfl

theorem no_running_after (hinv : Inv e) {p : AttemptRow → Bool} {f : AttemptRow → AttemptRow}
    {b : AttemptRow} (hb : b ∈ e.db.attempts) (hrun : b.status = .running) (hp : p b = true)
    (hf : ∀ a, (f a).status ≠ .running) :
    ∀ a ∈ (e.updateAttempts p f).db.attempts, a.taskId = b.taskId → a.status ≠ .running := by
  intro a' ha' hid hs
  rcases updateWhere_cases ha' with ⟨a, ha, hpa, rfl⟩ | ⟨ha, hpa⟩
  · exact hf a hs
  · rw [hinv.running_unique ha hb hid hs hrun] at hpa
    exact hpa hp

variable {a : AttemptRow}

theorem liveAttempt_iff {id : RowId} :
    liveAttempt id a = true ↔ a.id = id ∧ a.status = .running := by
  rw [liveAttempt, Bool.and_eq_true, decide_eq_true_eq, decide_eq_true_eq]

/-! ## Recording an outcome -/

section Record

variable {claimed : ClaimedTask} {outcome : ExecutorOutcome}

/-- The lease a claim holds, given back. -/
def released (e : Engine) (claimed : ClaimedTask) : Engine :=
  e.deleteLeases (fun l => l.taskId = claimed.taskId && l.token = claimed.leaseToken)

variable {lease : LeaseRow}

theorem released_free (hinv : Inv e) (hlease : leaseOf e.db.leases claimed.taskId = some lease)
    (htoken : lease.token = claimed.leaseToken) :
    ∀ l ∈ (released e claimed).db.leases, l.taskId ≠ claimed.taskId := by
  obtain ⟨hlm, hlt⟩ := mem_of_leaseOf hlease
  intro l hl hid
  obtain ⟨hmem, hkeep⟩ := List.mem_filter.mp hl
  have hll : l = lease := eq_of_key hinv.leased.one hmem hlm (hid.trans hlt.symm)
  rw [hll] at hkeep
  simp [hlt, htoken] at hkeep

theorem claimed_taskId (hinv : Inv e) (hc : claimed ∈ e.dispatched)
    (ha : a ∈ e.db.attempts) (hid : a.id = claimed.attemptId) : a.taskId = claimed.taskId := by
  obtain ⟨b, hb, hbid, hbt, _⟩ := hinv.carried.dispatched claimed hc
  rw [eq_of_key hinv.ledger.ids ha hb (hid.trans hbid.symm)]
  exact hbt

/-- The attempt of the outcome, written. -/
def settledAttempt (e : Engine) (outcome : ExecutorOutcome) (a : AttemptRow) : AttemptRow :=
  { a with status := outcome.status.attemptStatus, childRunId := outcome.childRunId,
           error := outcome.error,
           completedAt := if outcome.status = .running then none else some e.clock,
           updatedAt := e.clock }

private theorem settledAttempt_act (outcome : ExecutorOutcome) (hinv : Inv e) (hc : claimed ∈ e.dispatched)
    (hfree : ∀ l ∈ e.db.leases, l.taskId ≠ claimed.taskId) :
    RowAct e (e.updateAttempts (liveAttempt claimed.attemptId) (settledAttempt e outcome)) := by
  refine RowAct.attempts _ _ ?_
  intro a ha hp
  rw [liveAttempt_iff] at hp
  refine ⟨hp.2, rfl, rfl, rfl, rfl, ?_⟩
  intro l hl hid
  exact hfree l hl ((hinv.lease_taskId hl ha hid).trans (claimed_taskId hinv hc ha hp.1))

theorem recordOutcome_eq (now : Instant) (snap cur : Engine) (claimed : ClaimedTask)
    (outcome : ExecutorOutcome)
    (hlease : leaseOf cur.db.leases claimed.taskId = some lease)
    (htoken : lease.token = claimed.leaseToken) :
    recordOutcome now snap cur claimed outcome =
      match taskById snap.db.tasks claimed.taskId with
      | none => released cur claimed
      | some current =>
        if current.status ≠ .running then released cur claimed
        else if !(released cur claimed).db.attempts.any (liveAttempt claimed.attemptId) then
          released cur claimed
        else
          let e := (released cur claimed).updateAttempts (liveAttempt claimed.attemptId)
            (settledAttempt (released cur claimed) outcome)
          match outcome.status with
          | .running => e
          | .succeeded => succeedTask e current
          | .failed => applyTaskFailure now e current claimed.attemptNo := by
  rw [recordOutcome, hlease]
  simp only [htoken, ne_eq, not_true_eq_false, if_false]
  rfl

theorem recordOutcome_dropped {snap : Engine}
    (h : ∀ l ∈ cur.db.leases, l.taskId = claimed.taskId → l.token ≠ claimed.leaseToken) :
    recordOutcome now snap cur claimed outcome = cur := by
  rw [recordOutcome]
  cases hlease : leaseOf cur.db.leases claimed.taskId with
  | none => rfl
  | some lease =>
    obtain ⟨hl, hlt⟩ := mem_of_leaseOf hlease
    simp only [ne_eq, h lease hl hlt, not_false_eq_true, if_true]

/-- A workflow with a lease runs or is held: a draft has no attempt, a terminal
    workflow no lease. -/
theorem live_of_lease (hinv : Inv cur) {l : LeaseRow} (hl : l ∈ cur.db.leases) :
    Live cur.db.workflow.status := by
  have hdraft : cur.db.workflow.status ≠ .draft := by
    intro hd
    obtain ⟨a, ha, _⟩ := lease_attempted hinv hl
    rw [(hinv.draft hd).attempts] at ha
    cases ha
  have hopen : isTerminalWorkflowStatus cur.db.workflow.status ≠ true := by
    intro ht
    rw [hinv.shut ht] at hl
    cases hl
  cases hs : cur.db.workflow.status with
  | draft => exact absurd hs hdraft
  | active => exact .inl rfl
  | paused => exact .inr rfl
  | completed | cancelled | failed =>
    rw [hs] at hopen
    exact absurd rfl hopen

/-- **Recording an outcome is a path.** -/
theorem recordOutcome_path (hinv : Inv e) (hpath : RowPath e cur) (hc : claimed ∈ cur.dispatched) :
    RowPath e (recordOutcome now e cur claimed outcome) := by
  by_cases hgate : ∀ l ∈ cur.db.leases, l.taskId = claimed.taskId → l.token ≠ claimed.leaseToken
  · rw [recordOutcome_dropped hgate]
    exact hpath
  push Not at hgate
  obtain ⟨lease, hlm, hlt, htoken⟩ := hgate
  have hinv' := hinv.path hpath.path
  have hlive : Live cur.db.workflow.status := live_of_lease hinv' hlm
  have hlease : leaseOf cur.db.leases claimed.taskId = some lease := by
    rw [← hlt]
    exact leaseOf_eq_some hinv'.leased.one hlm
  rw [recordOutcome_eq now e cur claimed outcome hlease htoken]
  have hfree := released_free hinv' hlease htoken
  have hrel : RowPath e (released cur claimed) := hpath.tail (RowAct.drop _)
  have hinv₁ := hinv.path hrel.path
  cases htask : taskById e.db.tasks claimed.taskId with
  | none => exact hrel
  | some s =>
    obtain ⟨hs, hsid⟩ := mem_of_taskById htask
    by_cases hrun : s.status ≠ .running
    · simp only [hrun, ne_eq, not_false_eq_true, if_true]
      exact hrel
    rw [not_not] at hrun
    by_cases hany : (released cur claimed).db.attempts.any (liveAttempt claimed.attemptId) = true
    · simp only [hrun, hany, ne_eq, not_true_eq_false, if_false, Bool.not_true, Bool.false_eq_true]
      obtain ⟨a, ha, hlivea⟩ := List.any_eq_true.mp hany
      have hact : RowAct (released cur claimed) _ :=
        settledAttempt_act outcome hinv₁ hc hfree
      have hset : RowPath e _ := hrel.tail hact
      have hinv₂ := hinv.path hset.path
      have hloaded := (loaded_self e).path hinv hset.path
      have hatask : a.taskId = s.id :=
        (claimed_taskId hinv₁ hc ha (liveAttempt_iff.mp hlivea).1).trans hsid.symm
      cases hout : outcome.status with
      | running => exact hset
      | succeeded => exact hset.tail (succeedTask_act hinv₂.keyed hloaded hs hrun)
      | failed =>
        refine hset.tail (applyTaskFailure_act hinv₂.keyed hloaded hs hrun ?_ ?_ ?_ hlive _)
        · exact ⟨_, mem_updateWhere.mpr ⟨a, ha, rfl⟩, by rw [if_pos hlivea]; exact hatask⟩
        · rw [← hatask]
          refine no_running_after hinv₁ ha (liveAttempt_iff.mp hlivea).2 hlivea ?_
          intro r hr
          have hs' : outcome.status.attemptStatus = .running := hr
          rw [hout] at hs'
          cases hs'
        · rw [hsid]
          exact hfree
    · simp only [hrun, hany, ne_eq, not_true_eq_false, if_false, Bool.not_false, if_true]
      exact hrel

theorem recordResult_path (hinv : Inv e) (r : ClaimedTask × ExecutorOutcome × List LockFree) :
    RowPath e (recordResult now e r) := by
  have hbetween := interfered_interfere hinv r.2.2
  rw [recordResult]
  by_cases hc : e.dispatched.contains r.1 = true
  · rw [if_pos hc]
    refine recordOutcome_path hinv hbetween.path ?_
    rw [hbetween.dispatched]
    exact List.contains_iff_mem.mp hc
  · rw [if_neg hc]
    exact hbetween.path

theorem recordOutcomes_path (hinv : Inv e)
    (results : List (ClaimedTask × ExecutorOutcome × List LockFree)) :
    RowPath e (recordOutcomes now e results) := by
  refine List.foldlRecOn results (recordResult now) (motive := fun m => RowPath e m)
    Relation.ReflTransGen.refl ?_
  exact fun m hpath r _ => hpath.trans (recordResult_path (hinv.path hpath.path) r)

end Record

/-! ## Polling -/

section Poll

variable {p : PolledAttempt} {childStatus : ChildRunStatus}

theorem polledAttempt_row {task : TaskRow} (h : polledAttempt e task = some p) :
    ∃ a ∈ e.db.attempts, a.id = p.attemptId ∧ a.taskId = p.taskId ∧ a.attemptNo = p.attemptNo := by
  simp only [polledAttempt, Option.bind_eq_bind, Option.bind_eq_some_iff] at h
  obtain ⟨a, ha, childRunId, _, hp⟩ := h
  obtain ⟨hmem, hid, _⟩ :=
    mem_runningAttempts.mp (List.mem_of_mem_filter (mem_of_highestAttempt ha))
  rw [← Option.some.inj hp]
  exact ⟨a, hmem, rfl, hid, rfl⟩

theorem pollRead_path (e : Engine) : RowPath e (pollRead e) := by
  refine Relation.ReflTransGen.single (RowAct.polled _ ?_)
  intro p hp
  obtain ⟨task, _, htask⟩ := List.mem_filterMap.mp hp
  exact polledAttempt_row htask

variable {taskId : RowId} {rows : List ArtifactRow} {pa : ProducedArtifact} {r : ArtifactRow}

theorem mem_insertProduced
    (h : r ∈ insertProduced taskId rows pa) : r ∈ rows ∨ r.taskId = taskId := by
  rw [insertProduced] at h
  by_cases hdup : rows.any (fun r => r.taskId = taskId && r.ref = pa.ref &&
      r.authoringStepId.isSome) = true
  · rw [if_pos hdup] at h
    exact .inl h
  · rw [if_neg hdup] at h
    rcases mem_concat.mp h with h | rfl
    · exact .inl h
    · exact .inr rfl

theorem insertProduced_keeps (h : r ∈ rows) : r ∈ insertProduced taskId rows pa := by
  rw [insertProduced]
  by_cases hdup : rows.any (fun r => r.taskId = taskId && r.ref = pa.ref &&
      r.authoringStepId.isSome) = true
  · rw [if_pos hdup]
    exact h
  · rw [if_neg hdup]
    exact List.mem_append_left _ h

private theorem insertArtifacts_act (h : Attempted e taskId)
    (childRunId : String) : RowAct e (insertArtifacts e taskId childRunId childStatus) := by
  refine RowAct.artifacts _ ?_ ?_
  · refine List.foldlRecOn childStatus.producedArtifacts (insertProduced taskId)
      (motive := fun rows => ∀ r ∈ rows, r ∈ e.db.artifacts ∨ Attempted e r.taskId) ?_ ?_
    · intro r hr
      rcases List.mem_append.mp hr with hr | hr
      · exact .inl hr
      · obtain ⟨_, _, rfl⟩ := List.mem_map.mp hr
        exact .inr h
    · intro rows ih pa _ r hr
      rcases mem_insertProduced hr with hr | hid
      · exact ih r hr
      · rw [hid]
        exact .inr h
  · refine List.foldlRecOn childStatus.producedArtifacts (insertProduced taskId)
      (motive := fun rows => ∀ r ∈ e.db.artifacts, r ∈ rows) ?_ ?_
    · exact fun r hr => List.mem_append_left _ hr
    · exact fun rows ih pa _ r hr => insertProduced_keeps (ih r hr)

theorem unleased_of_child (hinv : Inv e) (ha : a ∈ e.db.attempts)
    (hchild : a.childRunId ≠ none) : ∀ l ∈ e.db.leases, l.attemptId ≠ a.id := by
  intro l hl hid
  obtain ⟨b, hb, hbid, _, _, hnone⟩ := hinv.lease_attempt hl
  rw [eq_of_key hinv.ledger.ids ha hb (hid.symm.trans hbid.symm)] at hchild
  exact hchild hnone

/-- **Settling a polled child run is a path.** -/
theorem settlePolled_path (hinv : Inv e) (hlive : Live e.db.workflow.status) (hpath : RowPath e cur) (hp : p ∈ cur.polled) :
    RowPath e (settlePolled now e cur p childStatus) := by
  have hinv' := hinv.path hpath.path
  simp only [settlePolled]
  by_cases hterm : childStatus.terminal = true
  swap
  · simp only [hterm, Bool.not_false, if_true]
    exact hpath
  simp only [hterm, Bool.not_true, Bool.false_eq_true, if_false]
  cases htask : taskById e.db.tasks p.taskId with
  | none => exact hpath
  | some s =>
    obtain ⟨hs, hsid⟩ := mem_of_taskById htask
    by_cases hrun : s.status ≠ .running
    · simp only [hrun, ne_eq, not_false_eq_true, if_true]
      exact hpath
    rw [not_not] at hrun
    simp only [hrun, ne_eq, not_true_eq_false, if_false]
    by_cases hany : cur.db.attempts.any (fun a => a.id = p.attemptId && a.status = .running &&
        a.childRunId = some p.childRunId) = true
    swap
    · simp only [hany, Bool.not_false, if_true]
      exact hpath
    simp only [hany, Bool.not_true, Bool.false_eq_true, if_false]
    obtain ⟨a, ha, hmatch⟩ := List.any_eq_true.mp hany
    simp only [Bool.and_eq_true, decide_eq_true_eq] at hmatch
    obtain ⟨⟨haid, harun⟩, hchild⟩ := hmatch
    have hatask : a.taskId = s.id := by
      obtain ⟨b, hb, hbid, hbt, _⟩ := hinv'.carried.polled p hp
      rw [eq_of_key hinv'.ledger.ids ha hb (haid.trans hbid.symm), hbt, hsid]
    have hchild' : a.childRunId ≠ none := by
      rw [hchild]
      exact Option.some_ne_none _
    -- every row the update matches is the attempt polled
    have hsettle : ∀ (f : AttemptRow → AttemptRow), (∀ r, (f r).id = r.id ∧
        (f r).taskId = r.taskId ∧ (f r).attemptNo = r.attemptNo ∧
        (f r).idempotencyKey = r.idempotencyKey) → ∀ m : Engine, m.db.attempts = cur.db.attempts →
        m.db.leases = cur.db.leases →
        RowAct m (m.updateAttempts (fun r => r.id = p.attemptId) f) := by
      intro f hf m hma hml
      refine RowAct.attempts _ _ ?_
      intro r hr hrid
      rw [hma] at hr
      rw [decide_eq_true_eq] at hrid
      have hra : r = a := eq_of_key hinv'.ledger.ids hr ha (hrid.trans haid.symm)
      rw [hra]
      refine ⟨harun, (hf a).1, (hf a).2.1, (hf a).2.2.1, (hf a).2.2.2, ?_⟩
      rw [hml]
      exact unleased_of_child hinv' ha hchild'
    by_cases hfailed : childStatus.failed = true
    · simp only [hfailed, Bool.not_true, Bool.false_eq_true, if_false]
      have hact := hsettle (fun r =>
        { r with status := .failed, error := childStatus.error, completedAt := some cur.clock,
                 updatedAt := cur.clock }) (fun _ => ⟨rfl, rfl, rfl, rfl⟩) cur rfl rfl
      have hset : RowPath e _ := hpath.tail hact
      refine hset.tail (applyTaskFailure_act (hinv.path hset.path).keyed
        ((loaded_self e).path hinv hset.path) hs hrun ?_ ?_ ?_ (Path.live hset.path hlive) _)
      · refine ⟨_, mem_updateWhere.mpr ⟨a, ha, rfl⟩, ?_⟩
        rw [if_pos (by simpa using haid)]
        exact hatask
      · rw [← hatask]
        exact no_running_after hinv' ha harun (by simpa using haid)
          (fun _ hr => by cases hr)
      · intro l hl hid
        have hown := hinv'.lease_of_running hl ha harun (hid.trans hatask.symm)
        exact hchild' hown.2
    · simp only [hfailed, Bool.not_false, if_true]
      by_cases hwins : cur.casWins s.id s.lockVersion = true
      swap
      · rw [if_neg hwins]
        exact hpath
      rw [if_pos hwins]
      have hsucceed := succeedTask_act hinv'.keyed ((loaded_self e).path hinv hpath.path) hs hrun
      have hact := hsettle (fun r =>
        { r with status := .succeeded, completedAt := some cur.clock,
                 output := childStatus.output, updatedAt := cur.clock })
        (fun _ => ⟨rfl, rfl, rfl, rfl⟩) (succeedTask cur s) rfl rfl
      refine ((hpath.tail hsucceed).tail hact).tail (insertArtifacts_act ?_ _)
      refine ⟨_, mem_updateWhere.mpr ⟨a, ha, rfl⟩, ?_⟩
      rw [if_pos (by simpa using haid)]
      exact hatask.trans hsid

theorem settleItem_path (hinv : Inv e) (hlive : Live e.db.workflow.status)
    (r : PolledAttempt × ChildRunStatus × List LockFree) : RowPath e (settleItem now e r) := by
  have hbetween := interfered_interfere hinv r.2.2
  rw [settleItem]
  by_cases hc : e.polled.contains r.1 = true
  · rw [if_pos hc]
    refine settlePolled_path hinv hlive hbetween.path ?_
    rw [hbetween.polled]
    exact List.contains_iff_mem.mp hc
  · rw [if_neg hc]
    exact hbetween.path

theorem pollSettle_path (hinv : Inv e)
    (items : List (PolledAttempt × ChildRunStatus × List LockFree)) :
    RowPath e (WfEngine.pollSettle now e items) := by
  rw [WfEngine.pollSettle]
  by_cases hactive : e.db.workflow.status ≠ .active
  · rw [if_pos hactive]
  rw [if_neg hactive]
  have hlive : Live e.db.workflow.status := .inl (not_not.mp hactive)
  refine List.foldlRecOn items (settleItem now) (motive := fun m => RowPath e m)
    Relation.ReflTransGen.refl ?_
  exact fun m hpath r _ =>
    hpath.trans (settleItem_path (hinv.path hpath.path) (Path.live hpath.path hlive) r)

end Poll

end WfSettling
