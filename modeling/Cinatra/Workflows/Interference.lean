import Cinatra.Workflows.Paths

/-! # Interference — what lock-free steps do inside a locked operation

    The steps that take no lock touch the workflow row, the times of a lease, and
    a running manual task its owner completes.  `Interfered` says what they leave
    alone; a locked operation is a path from the rows it read because of it. -/

namespace WfInterference

open RowTable WfTransitions WfSpec WfRows WfState WfReconciler WfLifecycle
open WfActs WfInvariant

variable {e e' cur : Engine}

/-- A move of the workflow is an act, or nothing. -/
private theorem moveWorkflow_act {source target : WorkflowStatus}
    (hmove : canTransition workflowTransitions source target = true)
    (hopen : isTerminalWorkflowStatus target = isTerminalWorkflowStatus source)
    (hdraft : target ≠ .draft) :
    moveWorkflow source target e = e ∨ RowAct e (moveWorkflow source target e) := by
  rw [moveWorkflow]
  by_cases hs : e.db.workflow.status = source
  · rw [if_pos hs]
    refine .inr (RowAct.workflow { e.db.workflow with
      status := target, lockVersion := e.db.workflow.lockVersion + 1, updatedAt := e.clock }
      rfl ?_ ?_ (fun h => absurd h hdraft) (Nat.lt_succ_self _))
    · rw [hs]
      exact hmove
    · rw [hs]
      exact hopen
  · rw [if_neg hs]
    exact .inl rfl

/-- A status may stay as it is. -/
theorem canTransition_self (s : WorkflowStatus) : canTransition workflowTransitions s s = true := by
  rw [canTransition, decide_eq_true rfl]
  rfl

/-- A row still at the version a manual read saw is running. -/
private theorem manual_running (hinv : Inv e) {r : ManualRead} (hr : r ∈ e.manualReads) {t : TaskRow}
    (ht : t ∈ e.db.tasks) (hv : versionIs r.taskId r.lockVersion t = true) :
    t.status = .running := by
  rw [versionIs_iff] at hv
  obtain ⟨s, hs, hid, _, hrun, _⟩ := hinv.carried.manual r hr
  obtain rfl := eq_of_key hinv.keyed.ids ht hs (hv.1.trans hid.symm)
  exact hrun hv.2.symm

/-- A manual task ends under the version that was read. -/
private theorem writeManual_act (hinv : Inv e) (r : ManualRead) :
    writeManual r e = e ∨ RowAct e (writeManual r e) := by
  rw [writeManual]
  by_cases hr : e.manualReads.contains r = true
  · rw [if_pos hr]
    refine .inr (RowAct.tasks _ _ ?_)
    intro t ht hv
    have hs := manual_running hinv (List.contains_iff_mem.mp hr) ht hv
    rw [versionIs_iff] at hv
    refine ⟨rfl, rfl, rfl, ?_, StatusMove.finish ?_ rfl rfl (.inl hs)⟩
    · show t.lockVersion < r.lockVersion + 1
      omega
    · rw [hs]
      rfl
  · rw [if_neg hr]
    exact .inl rfl

private theorem readManual_act (taskId : RowId) :
    readManual taskId e = e ∨ RowAct e (readManual taskId e) := by
  rw [readManual]
  cases hfind : e.db.tasks.find? (completable taskId) with
  | none => exact .inl rfl
  | some t =>
    have hc := List.find?_some hfind
    simp only [completable, Bool.and_eq_true, decide_eq_true_eq] at hc
    obtain ⟨⟨hid, htype⟩, hs⟩ := hc
    refine .inr ?_
    show RowAct e { e with manualReads := e.manualReads ++ [⟨taskId, t.lockVersion⟩] }
    rw [← hid]
    exact RowAct.manualRead t (List.mem_of_find?_eq_some hfind) htype hs

/-- **A lock-free operation is an act, or nothing.** -/
theorem lockFreeStep_act (hinv : Inv e) (op : LockFree) :
    lockFreeStep e op = e ∨ RowAct e (lockFreeStep e op) := by
  cases op with
  | start | pause | resume => exact moveWorkflow_act rfl rfl (by decide)
  | rename name =>
    exact .inr (RowAct.workflow { e.db.workflow with
      name := name, lockVersion := e.db.workflow.lockVersion + 1, updatedAt := e.clock }
      rfl (canTransition_self _) rfl id (Nat.lt_succ_self _))
  | heartbeat taskId leaseToken =>
    exact .inr (RowAct.touch _ _ (fun _ => ⟨rfl, rfl, rfl⟩))
  | readManual taskId => exact readManual_act taskId
  | writeManual r => exact writeManual_act hinv r
  | wait ms => exact .inr (RowAct.clock ms)

/-! ## What they leave alone -/

/-- A running manual task's row, once its owner has completed it. -/
structure Completed (t t' : TaskRow) : Prop where
  id : t'.id = t.id
  running : t.status = .running
  cols : t'.toTaskCols = t.toTaskCols
  parent : t'.parentTaskId = t.parentTaskId
  version : t'.lockVersion = t.lockVersion + 1

/-- The engine after lock-free steps. -/
structure Interfered (e cur : Engine) : Prop where
  path : RowPath e cur
  tasks : ∀ t' ∈ cur.db.tasks, t' ∈ e.db.tasks ∨
    (t'.status = .succeeded ∧ ∃ t ∈ e.db.tasks, Completed t t')
  deps : cur.db.deps = e.db.deps
  approvals : cur.db.approvals = e.db.approvals
  attempts : cur.db.attempts = e.db.attempts
  artifacts : cur.db.artifacts = e.db.artifacts
  leases : ∃ g : LeaseRow → LeaseRow, cur.db.leases = e.db.leases.map g ∧
    ∀ l, (g l).taskId = l.taskId ∧ (g l).attemptId = l.attemptId ∧ (g l).token = l.token
  dispatched : cur.dispatched = e.dispatched
  polled : cur.polled = e.polled
  solicited : cur.solicited = e.solicited
  fannedOut : cur.fannedOut = e.fannedOut
  nextUuid : cur.nextUuid = e.nextUuid
  clock : e.clock ≤ cur.clock

private theorem same_leases (leases : List LeaseRow) :
    ∃ g : LeaseRow → LeaseRow, leases = leases.map g ∧
      ∀ l, (g l).taskId = l.taskId ∧ (g l).attemptId = l.attemptId ∧ (g l).token = l.token :=
  ⟨fun l => l, (List.map_id' _).symm, fun _ => ⟨rfl, rfl, rfl⟩⟩

theorem Interfered.refl (e : Engine) : Interfered e e :=
  ⟨Relation.ReflTransGen.refl, fun _ ht => .inl ht, rfl, rfl, rfl, rfl, same_leases _, rfl, rfl,
    rfl, rfl, rfl, Int.le_refl _⟩

/-- Interference composes. -/
theorem Interfered.trans {a b c : Engine} (h : Interfered a b) (h' : Interfered b c) :
    Interfered a c := by
  refine ⟨h.path.trans h'.path, ?_, h'.deps.trans h.deps, h'.approvals.trans h.approvals,
    h'.attempts.trans h.attempts, h'.artifacts.trans h.artifacts, ?_,
    h'.dispatched.trans h.dispatched, h'.polled.trans h.polled, h'.solicited.trans h.solicited,
    h'.fannedOut.trans h.fannedOut, h'.nextUuid.trans h.nextUuid,
    Int.le_trans h.clock h'.clock⟩
  · intro t'' ht''
    rcases h'.tasks t'' ht'' with ht' | ⟨hs, t', ht', hdone⟩
    · exact h.tasks t'' ht'
    · rcases h.tasks t' ht' with ht | ⟨hs', _⟩
      · exact .inr ⟨hs, t', ht, hdone⟩
      · rw [hdone.running] at hs'
        cases hs'
  · obtain ⟨g, hg, hcols⟩ := h.leases
    obtain ⟨g', hg', hcols'⟩ := h'.leases
    refine ⟨fun l => g' (g l), ?_, ?_⟩
    · rw [hg', hg, List.map_map]
      rfl
    · intro l
      exact ⟨(hcols' (g l)).1.trans (hcols l).1, (hcols' (g l)).2.1.trans (hcols l).2.1,
        (hcols' (g l)).2.2.trans (hcols l).2.2⟩

private theorem path_of_act (hinv : Inv e) (op : LockFree) : RowPath e (lockFreeStep e op) := by
  rcases lockFreeStep_act hinv op with heq | hact
  · rw [heq]
  · exact Relation.ReflTransGen.single hact

private theorem interfered_moveWorkflow (source target : WorkflowStatus)
    (hpath : RowPath e (moveWorkflow source target e)) :
    Interfered e (moveWorkflow source target e) := by
  rw [moveWorkflow] at hpath ⊢
  by_cases hs : e.db.workflow.status = source
  · rw [if_pos hs] at hpath ⊢
    exact ⟨hpath, fun _ ht => .inl ht, rfl, rfl, rfl, rfl, same_leases _, rfl, rfl, rfl, rfl,
      rfl, Int.le_refl _⟩
  · rw [if_neg hs]
    exact Interfered.refl e

private theorem interfered_heartbeat (taskId leaseToken : RowId)
    (hpath : RowPath e (heartbeat e taskId leaseToken)) :
    Interfered e (heartbeat e taskId leaseToken) := by
  refine ⟨hpath, fun _ ht => .inl ht, rfl, rfl, rfl, rfl, ⟨_, rfl, ?_⟩, rfl, rfl, rfl, rfl, rfl,
    Int.le_refl _⟩
  intro l
  by_cases hp : (l.taskId = taskId && l.token = leaseToken) = true
  · rw [if_pos hp]
    exact ⟨rfl, rfl, rfl⟩
  · rw [if_neg hp]
    exact ⟨rfl, rfl, rfl⟩

private theorem interfered_writeManual (hinv : Inv e) (r : ManualRead)
    (hpath : RowPath e (writeManual r e)) : Interfered e (writeManual r e) := by
  rw [writeManual] at hpath ⊢
  by_cases hr : e.manualReads.contains r = true
  · rw [if_pos hr] at hpath ⊢
    refine ⟨hpath, ?_, rfl, rfl, rfl, rfl, same_leases _, rfl, rfl, rfl, rfl, rfl, Int.le_refl _⟩
    intro t' ht'
    rcases updateWhere_cases ht' with ⟨t, ht, hv, rfl⟩ | ⟨ht, -⟩
    · refine .inr ⟨rfl, t, ht, rfl, manual_running hinv (List.contains_iff_mem.mp hr) ht hv, rfl,
        rfl, ?_⟩
      show r.lockVersion + 1 = t.lockVersion + 1
      rw [(versionIs_iff.mp hv).2]
    · exact .inl ht
  · rw [if_neg hr]
    exact Interfered.refl e

private theorem interfered_readManual (taskId : RowId)
    (hpath : RowPath e (readManual taskId e)) : Interfered e (readManual taskId e) := by
  rw [readManual] at hpath ⊢
  cases hfind : e.db.tasks.find? (completable taskId) with
  | none => exact Interfered.refl e
  | some t =>
    rw [hfind] at hpath
    exact ⟨hpath, fun _ ht => .inl ht, rfl, rfl, rfl, rfl, same_leases _, rfl, rfl, rfl, rfl,
      rfl, Int.le_refl _⟩

/-- What one lock-free operation leaves alone. -/
theorem interfered_step (hinv : Inv e) (op : LockFree) : Interfered e (lockFreeStep e op) := by
  have hpath := path_of_act hinv op
  cases op with
  | start | pause | resume => exact interfered_moveWorkflow _ _ hpath
  | rename name =>
    exact ⟨hpath, fun _ ht => .inl ht, rfl, rfl, rfl, rfl, same_leases _, rfl, rfl, rfl, rfl,
      rfl, Int.le_refl _⟩
  | heartbeat taskId leaseToken => exact interfered_heartbeat _ _ hpath
  | readManual taskId => exact interfered_readManual _ hpath
  | writeManual r => exact interfered_writeManual hinv r hpath
  | wait ms =>
    refine ⟨hpath, fun _ ht => .inl ht, rfl, rfl, rfl, rfl, same_leases _, rfl, rfl, rfl, rfl,
      rfl, ?_⟩
    exact Int.le_add_of_nonneg_right (Int.natCast_nonneg ms)

/-- **Interference is a path** that leaves the rows a locked operation read as they
    were, but for manual tasks completed meanwhile. -/
theorem interfered_interfere (hinv : Inv e) (between : List LockFree) :
    Interfered e (interfere e between) := by
  refine List.foldlRecOn between lockFreeStep (motive := fun cur => Interfered e cur)
    (Interfered.refl e) ?_
  intro cur hcur op _
  exact hcur.trans (interfered_step (hinv.path hcur.path.path) op)

end WfInterference
