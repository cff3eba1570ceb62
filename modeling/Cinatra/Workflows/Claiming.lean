import Cinatra.Workflows.Interference

/-! # Claiming — the claim pass and the outcomes as acts

    Crash recovery requeues a row, a reclaim takes a lease over, a claim starts a
    dispatch; an outcome gives the lease back and settles the attempt.  Each is a
    path of acts from the rows the pass has read. -/

namespace WfClaiming

open RowTable WfTransitions WfSpec WfRows WfState WfReconciler
open WfActs WfInvariant WfPaths

variable {e e' cur : Engine} {tasks : List TaskRow} {now : Instant}

/-! ## Crash recovery -/

/-- What recovery makes of a row held in memory. -/
def Recovered (now : Instant) (s s' : TaskRow) : Prop :=
  s' = s ∨ (crashed now s = true ∧
    s' = { s with status := .scheduled, lockVersion := s.lockVersion + 1 })

variable {s : TaskRow}

theorem crashed_iff : crashed now s = true ↔
    s.status = .running ∧ instantaneousExecutorType s.type = true ∧ s.foreachConfig = none ∧
      s.updatedAt < now - crashRecoveryMs := by
  rw [crashed, Bool.and_eq_true, Bool.and_eq_true, Bool.and_eq_true, decide_eq_true_eq,
    decide_eq_true_eq, Option.isNone_iff_eq_none, and_assoc, and_assoc]

/-- The statements of one recovery, leases first. -/
private def recovered (e : Engine) (s : TaskRow) : Engine :=
  ((e.deleteLeases (fun l => l.taskId = s.id)).updateAttempts
    (fun a => a.taskId = s.id && a.status = .running) (fun a =>
      { a with status := .failed, error := some crashError, completedAt := some e.clock,
               updatedAt := e.clock })).casTask s.id s.lockVersion (fun t =>
    { t with status := .scheduled, lockVersion := s.lockVersion + 1, updatedAt := e.clock })

private theorem recoverTask_eq (e : Engine) (s : TaskRow) : recoverTask now e s =
      if crashed now s && e.casWins s.id s.lockVersion then
        (recovered e s, { s with status := .scheduled, lockVersion := s.lockVersion + 1 })
      else (e, s) := rfl

private theorem recovered_path (hinv : Inv e) (hlive : Live e.db.workflow.status)
    (hl : Loaded tasks e) (hs : s ∈ tasks) (hc : crashed now s = true) : RowPath e
    (recovered e s) := by
  obtain ⟨hrun, hinst, hplain, _⟩ := crashed_iff.mp hc
  -- the lease goes
  have hdrop : RowAct e (e.deleteLeases (fun l => l.taskId = s.id)) := RowAct.drop _
  have hinv₁ := hinv.rowAct hdrop
  have hfree : ∀ l ∈ (e.deleteLeases (fun l => l.taskId = s.id)).db.leases, l.taskId ≠ s.id := by
    intro l hlm
    simpa using (List.mem_filter.mp hlm).2
  -- the running attempt fails
  have hfail : RowAct (e.deleteLeases (fun l => l.taskId = s.id))
      ((e.deleteLeases (fun l => l.taskId = s.id)).updateAttempts
        (fun a => a.taskId = s.id && a.status = .running) (fun a =>
          { a with status := .failed, error := some crashError, completedAt := some e.clock,
                   updatedAt := e.clock })) := by
    refine RowAct.attempts _ _ ?_
    intro a ha hp
    simp only [Bool.and_eq_true, decide_eq_true_eq] at hp
    refine ⟨hp.2, rfl, rfl, rfl, rfl, ?_⟩
    intro l hlm hid
    exact hfree l hlm ((hinv₁.lease_taskId hlm ha hid).trans hp.1)
  have hinv₂ := hinv₁.rowAct hfail
  have hl₂ := (hl.path hinv (Relation.ReflTransGen.single (Act.row hdrop))).path hinv₁
    (Relation.ReflTransGen.single (Act.row hfail))
  -- the row is requeued
  refine ((Relation.ReflTransGen.single hdrop).tail hfail).tail (hl₂.cas hinv₂.keyed hs ?_)
  intro t ht hid hv hcopy
  refine ⟨rfl, rfl, rfl, ?_, StatusMove.requeue ?_ rfl ?_ ?_ (.inr ⟨?_, ?_⟩) hlive⟩
  · show t.lockVersion < s.lockVersion + 1
    omega
  · rw [hcopy.status, hrun]
  · intro a' ha' hta hrun'
    rcases updateWhere_cases ha' with ⟨a, ha, hp, rfl⟩ | ⟨ha, hp⟩
    · cases hrun'
    · apply hp
      rw [hta.trans hid, hrun']
      simp
  · intro l hlm
    rw [hid]
    exact hfree l hlm
  · rw [type_of_definition hcopy.definition]
    exact hinst
  · rw [foreachConfig_of_definition hcopy.definition]
    exact hplain

private theorem recovered_loaded (hinv : Inv e) (hl : Loaded tasks e)
    (hs : s ∈ tasks) (hw : e.casWins s.id s.lockVersion = true) :
    Loaded [{ s with status := .scheduled, lockVersion := s.lockVersion + 1 }]
      (recovered e s) := by
  intro s' hs'
  rw [List.mem_singleton.mp hs']
  obtain ⟨t, ht, hv⟩ := List.any_eq_true.mp hw
  have hcopy := hl.copy hinv.keyed hs ht (versionIs_iff.mp hv).1 (versionIs_iff.mp hv).2
  refine ⟨_, mem_updateWhere.mpr ⟨t, ht, rfl⟩, ?_⟩
  rw [if_pos hv]
  exact ⟨(versionIs_iff.mp hv).1, Nat.le_refl _, fun _ => ⟨rfl, hcopy.definition, hcopy.due⟩⟩

theorem recoverTask_spec (now : Instant) (hinv : Inv e) (hlive : Live e.db.workflow.status)
    (hl : Loaded tasks e) (hs : s ∈ tasks) :
    RowPath e (recoverTask now e s).1 ∧ Loaded [(recoverTask now e s).2] (recoverTask now e s).1 ∧
      Recovered now s (recoverTask now e s).2 := by
  rw [recoverTask_eq]
  by_cases hc : (crashed now s && e.casWins s.id s.lockVersion) = true
  · rw [if_pos hc]
    rw [Bool.and_eq_true] at hc
    exact ⟨recovered_path hinv hlive hl hs hc.1, recovered_loaded hinv hl hs hc.2,
      .inr ⟨hc.1, rfl⟩⟩
  · rw [if_neg hc]
    refine ⟨Relation.ReflTransGen.refl, ?_, .inl rfl⟩
    intro s' hs'
    rw [List.mem_singleton.mp hs']
    exact hl s hs

theorem recoverTasks_cons (now : Instant) (e : Engine) (s : TaskRow) (ss : List TaskRow) :
    recoverTasks now e (s :: ss) = ((recoverTasks now (recoverTask now e s).1 ss).1,
        (recoverTask now e s).2 :: (recoverTasks now (recoverTask now e s).1 ss).2) := rfl

/-- Crash recovery is a path, and its rows in memory are the table's. -/
theorem recoverTasks_spec (now : Instant) (hinv : Inv e) (hlive : Live e.db.workflow.status)
    (hl : Loaded tasks e) : RowPath e (recoverTasks now e tasks).1 ∧
      Loaded (recoverTasks now e tasks).2 (recoverTasks now e tasks).1 ∧
      ∀ s' ∈ (recoverTasks now e tasks).2, ∃ s ∈ tasks, Recovered now s s' := by
  induction tasks generalizing e with
  | nil =>
    exact ⟨Relation.ReflTransGen.refl, fun s hs => absurd hs List.not_mem_nil,
      fun s hs => absurd hs List.not_mem_nil⟩
  | cons s ss ih =>
    rw [recoverTasks_cons]
    obtain ⟨hp₁, hl₁, hr₁⟩ := recoverTask_spec now hinv hlive hl (List.mem_cons_self ..)
    have hinv₁ := hinv.path hp₁.path
    have hrest : Loaded ss (recoverTask now e s).1 := by
      intro r hr
      exact (hl.path hinv hp₁.path) r (.tail _ hr)
    obtain ⟨hp₂, hl₂, hr₂⟩ := ih hinv₁ (Path.live hp₁.path hlive) hrest
    refine ⟨hp₁.trans hp₂, ?_, ?_⟩
    · intro r hr
      rcases List.mem_cons.mp hr with rfl | hr
      · exact (hl₁.path hinv₁ hp₂.path) _ (List.mem_singleton.mpr rfl)
      · exact hl₂ r hr
    · intro r hr
      rcases List.mem_cons.mp hr with rfl | hr
      · exact ⟨s, List.mem_cons_self .., hr₁⟩
      · obtain ⟨r₀, hr₀, h₀⟩ := hr₂ r hr
        exact ⟨r₀, .tail _ hr₀, h₀⟩

/-- A reclaim takes over the expired lease of a running agent dispatch, for the
    attempt the lease belongs to. -/
structure Reclaim (e : Engine) (s : TaskRow) (lease : LeaseRow) (attempt : AttemptRow) : Prop where
  running : s.status = .running
  agent : s.type = .agentTask
  leaseRow : lease ∈ e.db.leases
  attemptRow : attempt ∈ e.db.attempts
  task : lease.taskId = s.id
  live : attempt.status = .running
  id : attempt.id = lease.attemptId
  taskId : attempt.taskId = lease.taskId
  expired : lease.expiresAt ≤ e.clock

theorem reclaimTask_cases (hinv : Inv e) (n : Nat) (s : TaskRow) : reclaimTask (e, n) s = (e, n) ∨
      ∃ lease attempt, Reclaim e s lease attempt ∧
        reclaimTask (e, n) s = (takenOver e lease attempt, n + 1) := by
  simp only [reclaimTask]
  by_cases hcap : n ≥ dispatchBatchCap
  · rw [if_pos hcap]
    exact .inl rfl
  rw [if_neg hcap]
  by_cases hskip : s.status ≠ .running ∨ s.type ≠ .agentTask ∨ s.foreachConfig.isSome = true
  · rw [if_pos hskip]
    exact .inl rfl
  rw [if_neg hskip]
  push Not at hskip
  cases hatt : highestAttempt (runningAttempts e.db.attempts s.id) with
  | none => exact .inl rfl
  | some attempt =>
    obtain ⟨ha, hat, hrun⟩ := mem_runningAttempts.mp (mem_of_highestAttempt hatt)
    by_cases hchild : attempt.childRunId.isSome = true
    · simp only [hchild, if_true]
      exact .inl trivial
    simp only [hchild, Bool.false_eq_true, if_false]
    cases hlease : leaseOf e.db.leases s.id with
    | none => exact .inl rfl
    | some lease =>
      obtain ⟨hl, hlt⟩ := mem_of_leaseOf hlease
      by_cases hexp : lease.expiresAt > e.clock
      · simp only [hexp, if_true]
        exact .inl trivial
      have htake : takeable e s.id lease.token lease = true := by
        simp only [takeable, Bool.and_eq_true, decide_eq_true_eq]
        exact ⟨⟨hlt, trivial⟩, Int.not_lt.mp hexp⟩
      have hany : e.db.leases.any (takeable e s.id lease.token) = true :=
        List.any_eq_true.mpr ⟨lease, hl, htake⟩
      have hown := hinv.lease_of_running hl ha hrun (hlt.trans hat.symm)
      refine .inr ⟨lease, attempt, ⟨hskip.1, hskip.2.1, hl, ha, hlt, hrun, hown.1.symm,
        hat.trans hlt.symm, Int.not_lt.mp hexp⟩, ?_⟩
      simp only [hexp, if_false, takeOverDispatchLease, hany, if_true]
      rw [← hlt]
      rfl

theorem Reclaim.act {lease : LeaseRow} {attempt : AttemptRow}
    (h : Reclaim e s lease attempt) : RowAct e (takenOver e lease attempt) :=
  RowAct.takeOver lease attempt h.leaseRow h.attemptRow h.id h.taskId h.expired

/-! ## A claim -/

/-- What a claim makes of the row it has read as `s`. -/
def startRow (e : Engine) (s t : TaskRow) : TaskRow :=
  { t with status := .running, actualStartUtc := some (s.actualStartUtc.getD e.clock),
           lockVersion := s.lockVersion + 1, updatedAt := e.clock }

/-- A claim of a row read as `s`, which is `t` in the table. -/
structure Claim (e : Engine) (s t : TaskRow) : Prop where
  row : t ∈ e.db.tasks
  id : t.id = s.id
  version : t.lockVersion = s.lockVersion
  copy : Copy s t
  waiting : Waiting s
  plain : s.foreachConfig = none

theorem Claim.launch {s t : TaskRow} (h : Claim e s t) : Launch t (startRow e s t) := by
  have hv := h.version
  refine ⟨rfl, rfl, rfl, ?_, ?_, rfl, rfl, ?_⟩
  · show t.lockVersion < s.lockVersion + 1
    omega
  · rw [h.copy.status]
    exact h.waiting
  · rw [foreachConfig_of_definition h.copy.definition]
    exact h.plain

theorem Claim.act {s t : TaskRow} (h : Claim e s t) (hlive : Live e.db.workflow.status) :
    RowAct e (launched e t.id t.lockVersion (startRow e s)) :=
  RowAct.launch t _ h.row h.launch hlive

private theorem deleteAttempt_insertAttempt (hinv : Inv e) (taskId : RowId) :
    deleteAttempt ((insertAttempt e (nextAttempt e taskId)).tookIds 2) (nextAttempt e taskId).id =
      e.tookIds 2 := by
  have hrows : (e.db.attempts ++ [nextAttempt e taskId]).filter
      (fun a => a.id ≠ (nextAttempt e taskId).id) = e.db.attempts := by
    rw [List.filter_append, List.filter_eq_self.mpr, List.filter_singleton]
    · simp
    · intro a ha
      have hold := hinv.ledger.old a ha
      rw [decide_eq_true_eq]
      intro hid
      have := hold e.nextUuid hid
      omega
  simp only [deleteAttempt, insertAttempt, Engine.tookIds]
  rw [hrows]

theorem startDispatch_cases (hinv : Inv e) (hl : Loaded tasks e) (hs : s ∈ tasks)
    (hw : Waiting s) (hplain : s.foreachConfig = none) (n : Nat) :
    startDispatch e n s = (e, n) ∨ startDispatch e n s = (e.tookIds 2, n) ∨ ∃ t, Claim e s t ∧
        startDispatch e n s = (launched e t.id t.lockVersion (startRow e s), n + 1) := by
  simp only [startDispatch]
  by_cases hkey : e.db.attempts.any
      (fun a => a.idempotencyKey = (nextAttempt e s.id).idempotencyKey) = true
  · rw [if_pos hkey]
    exact .inl rfl
  rw [if_neg hkey]
  by_cases hwins : e.casWins s.id s.lockVersion = true
  · have hwins' : ((insertAttempt e (nextAttempt e s.id)).tookIds 2).casWins s.id
        s.lockVersion = true := hwins
    rw [if_pos hwins']
    obtain ⟨t, ht, hv⟩ := List.any_eq_true.mp hwins
    rw [versionIs_iff] at hv
    have hcopy := hl.copy hinv.keyed hs ht hv.1 hv.2
    -- a waiting task has no lease, so the upsert inserts
    have hfree : e.db.leases.any (fun l => l.taskId = s.id) ≠ true := by
      intro hany
      obtain ⟨l, hlm, hlt⟩ := List.any_eq_true.mp hany
      rw [decide_eq_true_eq] at hlt
      refine hinv.leased.held l hlm t ht (hv.1.trans hlt.symm) ?_
      rw [Waiting, hcopy.status]
      exact hw
    refine .inr (.inr ⟨t, ⟨ht, hv.1, hv.2, hcopy, hw, hplain⟩, ?_⟩)
    rw [hv.1, hv.2]
    simp only [acquireDispatchLease]
    rw [if_neg (show ¬ (((insertAttempt e (nextAttempt e s.id)).tookIds 2).casTask s.id
      s.lockVersion _).db.leases.any (fun l => decide (l.taskId = s.id)) = true from hfree)]
    rfl
  · have hwins' : ¬ ((insertAttempt e (nextAttempt e s.id)).tookIds 2).casWins s.id
        s.lockVersion = true := hwins
    rw [if_neg hwins', deleteAttempt_insertAttempt hinv]
    exact .inr (.inl rfl)

theorem claimTask_cases (hinv : Inv e) (hl : Loaded tasks e) (hs : s ∈ tasks)
    (deps : List DependencyRow) (approvals : List ApprovalRow) (n : Nat) :
    claimTask deps approvals tasks now (e, n) s = (e, n) ∨
    claimTask deps approvals tasks now (e, n) s = (e.tookIds 2, n) ∨
    ∃ t, Claim e s t ∧ dispatchable deps approvals tasks now s = true ∧
      claimTask deps approvals tasks now (e, n) s =
        (launched e t.id t.lockVersion (startRow e s), n + 1) := by
  simp only [claimTask]
  by_cases hcap : n ≥ dispatchBatchCap
  · rw [if_pos hcap]
    exact .inl rfl
  rw [if_neg hcap]
  by_cases hst : s.status ≠ .idle ∧ s.status ≠ .scheduled
  · rw [if_pos hst]
    exact .inl rfl
  rw [if_neg hst]
  by_cases hfe : s.foreachConfig.isSome = true
  · rw [if_pos hfe]
    exact .inl rfl
  rw [if_neg hfe]
  have hw : Waiting s := by
    by_cases hidle : s.status = .idle
    · exact .inl hidle
    · exact .inr (not_not.mp (not_and.mp hst hidle))
  by_cases hgate : dispatchable deps approvals tasks now s = true
  · rw [if_pos hgate]
    rcases startDispatch_cases hinv hl hs hw (by simpa using hfe) n with h | h | ⟨t, hc, h⟩
    · exact .inl h
    · exact .inr (.inl h)
    · exact .inr (.inr ⟨t, hc, hgate, h⟩)
  · rw [if_neg hgate]
    exact .inl rfl

theorem claimReadyTasks_eq (now : Instant) (snap cur : Engine) : claimReadyTasks now snap cur =
      if snap.db.workflow.status ≠ .active then cur
      else ((recoverTasks now cur snap.db.tasks).2.foldl
        (claimTask snap.db.deps snap.db.approvals (recoverTasks now cur snap.db.tasks).2 now)
        ((recoverTasks now cur snap.db.tasks).2.foldl reclaimTask
          ((recoverTasks now cur snap.db.tasks).1, 0))).1 := rfl

theorem reclaimTasks_path (hinv : Inv e) (n : Nat) (tasks : List TaskRow) :
    RowPath e (tasks.foldl reclaimTask (e, n)).1 := by
  refine List.foldlRecOn tasks reclaimTask (motive := fun st : Claiming => RowPath e st.1)
    (b := (e, n)) Relation.ReflTransGen.refl ?_
  rintro ⟨m, k⟩ hpath s _
  rcases reclaimTask_cases (hinv.path hpath.path) k s with h | ⟨lease, attempt, hr, h⟩
  · rw [h]
    exact hpath
  · rw [h]
    exact hpath.tail hr.act

theorem claimTasks_path (hinv : Inv e) (hlive : Live e.db.workflow.status) (hl : Loaded tasks e)
    (deps : List DependencyRow) (approvals : List ApprovalRow) (n : Nat) :
    RowPath e (tasks.foldl (claimTask deps approvals tasks now) (e, n)).1 := by
  refine List.foldlRecOn tasks _ (motive := fun st : Claiming => RowPath e st.1) (b := (e, n))
    Relation.ReflTransGen.refl ?_
  rintro ⟨m, k⟩ hpath s hs
  have hinv' := hinv.path hpath.path
  rcases claimTask_cases hinv' (hl.path hinv hpath.path) hs deps approvals k with h | h | ⟨t, hc, _, h⟩
  · rw [h]
    exact hpath
  · rw [h]
    exact hpath.tail (RowAct.ids 2)
  · rw [h]
    exact hpath.tail (hc.act (Path.live hpath.path hlive))

/-- **The claim pass is a path.** -/
theorem claimReadyTasks_path (hinv : Inv e) (hpath : RowPath e cur) :
    RowPath e (claimReadyTasks now e cur) := by
  rw [claimReadyTasks_eq]
  by_cases hactive : e.db.workflow.status ≠ .active
  · rw [if_pos hactive]
    exact hpath
  rw [if_neg hactive]
  have hlive : Live e.db.workflow.status := .inl (not_not.mp hactive)
  have hinv₁ := hinv.path hpath.path
  obtain ⟨hp, hl, _⟩ := recoverTasks_spec now hinv₁ (Path.live hpath.path hlive)
    ((loaded_self e).path hinv hpath.path)
  have hinv₂ := hinv₁.path hp.path
  have hp' := reclaimTasks_path hinv₂ 0 (recoverTasks now cur e.db.tasks).2
  have hlive' := Path.live (RowPath.path (hpath.trans (hp.trans hp'))) hlive
  exact hpath.trans (hp.trans (hp'.trans
    (claimTasks_path (hinv₂.path hp'.path) hlive' (hl.path hinv₂ hp'.path) _ _ _)))

end WfClaiming
