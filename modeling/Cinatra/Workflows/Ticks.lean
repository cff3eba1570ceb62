import Cinatra.Workflows.Frames
import Mathlib.Data.List.Induction

/-! # Ticks — which workflows the repeatable tick reaches

    `reconcileWorkflow` runs the sub-passes of one workflow to its fixed point;
    `reconcileDueWorkflows` takes the active workflows by the age of their row
    and cuts the list at the cap.  A reconcile writes the workflow row only to
    close it, so while nothing closes every tick takes the same ones: the tick
    reaches every workflow exactly when they fit under the cap. -/

namespace WfTicks

open RowTable WfTransitions WfSpec WfRows WfHost WfState WfReconciler WfSettle WfApprovals
open WfForeachReconciler WfLifecycle WfEngine WfRollup WfFrames

variable {host : Host} {e e' cur snap : Engine} {now : Instant}

/-- What the host supplies while one workflow is reconciled: the status of each
    polled child run, the outcome of each dispatch, the time that has passed. -/
structure ReconcileDeps where
  now : Instant
  elapsedMs : Nat
  childRunStatus : PolledAttempt → ChildRunStatus
  outcome : ClaimedTask → ExecutorOutcome

/-- `pollRunningAgentTasks`: look the running attempts up, then settle them. -/
def pollRunningAgentTasks (deps : ReconcileDeps) (e : Engine) : Engine :=
  let read := WfSettle.pollRead e
  let found := read.polled.drop e.polled.length
  WfEngine.pollSettle deps.now read (found.map (fun p => (p, deps.childRunStatus p, [])))

/-- Claim, dispatch and record until nothing is claimed, then finalize. -/
def claimLoop (deps : ReconcileDeps) : Nat → Engine → Engine
  | 0, e => e
  | iterations + 1, e =>
    if e.db.workflow.status ≠ .active then e
    else
      let claiming := claimReadyTasks deps.now e e
      let claimed := claiming.dispatched.drop e.dispatched.length
      if claimed = [] then (finalizeWorkflow claiming claiming).engine
      else claimLoop deps iterations
        (recordOutcomes deps.now claiming (claimed.map (fun c => (c, deps.outcome c, []))))

variable (host) in
/-- `reconcileWorkflow`. -/
def reconcileWorkflow (deps : ReconcileDeps) (e : Engine) : Engine :=
  let e := { e with clock := e.clock + deps.elapsedMs }
  let e := pollRunningAgentTasks deps e
  let e := reconcileForeachParents host deps.now e e
  let e := applyRejectedApprovalPolicies e e
  let e := invalidateStaleApprovals host deps.now e e
  let e := claimLoop deps 200 e
  solicitApprovals host deps.now e e

/-! ## The workflow row under the sub-passes -/

/-- The row is as it was, or an active workflow has been closed. -/
def KeepsRow (e e' : Engine) : Prop :=
  e'.db.workflow = e.db.workflow ∨
    e.db.workflow.status = .active ∧ isTerminalWorkflowStatus e'.db.workflow.status = true

theorem not_terminal_of_active (h : e.db.workflow.status = .active) :
    ¬ isTerminalWorkflowStatus e.db.workflow.status = true := by
  rw [h]
  intro hc
  cases hc

theorem KeepsRow.row (h : KeepsRow e e') (hactive : e'.db.workflow.status = .active) :
    e'.db.workflow = e.db.workflow := by
  rcases h with heq | ⟨_, hterm⟩
  · exact heq
  · exact absurd hterm (not_terminal_of_active hactive)

theorem KeepsRow.trans {m : Engine} (h : KeepsRow e m) (h' : KeepsRow m e') : KeepsRow e e' := by
  rcases h' with heq' | ⟨hactive, hterm⟩
  · rw [KeepsRow, heq']
    exact h
  · rcases h with heq | ⟨_, hclosed⟩
    · exact .inr ⟨heq ▸ hactive, hterm⟩
    · exact absurd hclosed (not_terminal_of_active hactive)

theorem applyTaskFailure_workflow (e : Engine) (t : TaskRow) (n : Nat) :
    (applyTaskFailure now e t n).db.workflow = e.db.workflow := by
  rw [applyTaskFailure]
  split
  · rfl
  · rfl

theorem recordOutcome_workflow (snap cur : Engine) (c : ClaimedTask) (o : ExecutorOutcome) :
    (recordOutcome now snap cur c o).db.workflow = cur.db.workflow := by
  simp only [recordOutcome]
  split
  · rfl
  split
  · rfl
  split
  · rfl
  split
  · rfl
  split
  · rfl
  · cases o.status with
    | running | succeeded => rfl
    | failed => exact applyTaskFailure_workflow _ _ _

theorem recordOutcomes_workflow (e : Engine) (claimed : List ClaimedTask)
    (outcome : ClaimedTask → ExecutorOutcome) :
    (recordOutcomes now e (claimed.map (fun c => (c, outcome c, [])))).db.workflow =
      e.db.workflow := by
  rw [recordOutcomes, List.foldl_map]
  refine List.foldlRecOn claimed _ (motive := fun m : Engine => m.db.workflow = e.db.workflow)
    rfl ?_
  intro m hm c _
  rw [recordResult]
  split
  · exact (recordOutcome_workflow _ _ _ _).trans hm
  · exact hm

theorem recoverTasks_workflow (e : Engine) (tasks : List TaskRow) :
    (recoverTasks now e tasks).1.db.workflow = e.db.workflow := by
  induction tasks generalizing e with
  | nil => rfl
  | cons t tasks ih =>
    show (recoverTasks now (recoverTask now e t).1 tasks).1.db.workflow = _
    rw [ih, recoverTask]
    split
    · rfl
    · rfl

theorem takeOverDispatchLease_workflow {t o tok : RowId}
    (h : takeOverDispatchLease e t o tok = some e') : e'.db.workflow = e.db.workflow := by
  rw [takeOverDispatchLease] at h
  split at h
  · rw [← Option.some.inj h]
    rfl
  · cases h

theorem reclaimTask_workflow (st : Claiming) (t : TaskRow) :
    (reclaimTask st t).1.db.workflow = st.1.db.workflow := by
  obtain ⟨e, n⟩ := st
  simp only [reclaimTask]
  split
  · rfl
  split
  · rfl
  split
  · rfl
  split
  · rfl
  split
  · rfl
  split
  · rfl
  split
  · rfl
  · rename_i hsome
    have hrow := takeOverDispatchLease_workflow hsome
    exact hrow

theorem acquireDispatchLease_workflow (e : Engine) (t a tok : RowId) :
    (acquireDispatchLease e t a tok).db.workflow = e.db.workflow := by
  simp only [acquireDispatchLease]
  split
  · rfl
  · rfl

theorem claimTask_workflow (deps : List DependencyRow) (approvals : List ApprovalRow)
    (tasks : List TaskRow) (st : Claiming) (t : TaskRow) :
    (claimTask deps approvals tasks now st t).1.db.workflow = st.1.db.workflow := by
  rw [claimTask]
  split
  · rfl
  split
  · rfl
  split
  · rfl
  split
  · simp only [startDispatch]
    split
    · rfl
    · split
      · exact acquireDispatchLease_workflow _ _ _ _
      · rfl
  · rfl

theorem claimReadyTasks_workflow (snap cur : Engine) :
    (claimReadyTasks now snap cur).db.workflow = cur.db.workflow := by
  simp only [claimReadyTasks]
  split
  · rfl
  have hfirst : ∀ (tasks : List TaskRow) (st : Claiming),
      (tasks.foldl reclaimTask st).1.db.workflow = st.1.db.workflow := by
    intro tasks st
    refine List.foldlRecOn tasks _
      (motive := fun m : Claiming => m.1.db.workflow = st.1.db.workflow) rfl ?_
    intro m hm t _
    exact (reclaimTask_workflow m t).trans hm
  refine List.foldlRecOn _ _
    (motive := fun m : Claiming => m.1.db.workflow = cur.db.workflow) ?_ ?_
  · exact (hfirst _ _).trans (recoverTasks_workflow _ _)
  · intro m hm t _
    exact (claimTask_workflow _ _ _ m t).trans hm

theorem settlePolled_workflow (snap cur : Engine) (p : PolledAttempt) (s : ChildRunStatus) :
    (settlePolled now snap cur p s).db.workflow = cur.db.workflow := by
  simp only [settlePolled]
  split
  · rfl
  split
  · rfl
  split
  · rfl
  split
  · rfl
  split
  · split
    · rfl
    · rfl
  · exact applyTaskFailure_workflow _ _ _

theorem pollRunningAgentTasks_workflow (deps : ReconcileDeps) (e : Engine) :
    (pollRunningAgentTasks deps e).db.workflow = e.db.workflow := by
  simp only [pollRunningAgentTasks, WfEngine.pollSettle]
  split
  · rfl
  rw [List.foldl_map]
  refine List.foldlRecOn _ _ (motive := fun m : Engine => m.db.workflow = e.db.workflow) rfl ?_
  intro m hm p _
  rw [settleItem]
  split
  · exact (settlePolled_workflow _ _ _ _).trans hm
  · exact hm

theorem finalizeWorkflow_row (e : Engine) : KeepsRow e (finalizeWorkflow e e).engine := by
  simp only [finalizeWorkflow]
  split
  · exact .inl rfl
  rename_i hactive
  split
  · rename_i h
    refine .inr ⟨not_not.mp hactive, ?_⟩
    show isTerminalWorkflowStatus (nextStatus e (skipPropagate e e)) = true
    rcases nextStatus_cases e (skipPropagate e e) with hn | hn | hn
    · rw [hn]; rfl
    · rw [hn]; rfl
    · exact absurd hn h.1
  · exact .inl (skipPropagate_only e e).workflow

theorem applyRejectedApprovalPolicies_row (e : Engine) :
    KeepsRow e (applyRejectedApprovalPolicies e e) := by
  simp only [applyRejectedApprovalPolicies]
  split
  · exact .inl rfl
  · rename_i hactive
    split
    · exact .inr ⟨not_not.mp hactive, rfl⟩
    · exact .inl (skipRejected_only e e).workflow

theorem claimLoop_row (deps : ReconcileDeps) (iterations : Nat) (e : Engine) :
    KeepsRow e (claimLoop deps iterations e) := by
  induction iterations generalizing e with
  | zero => exact .inl rfl
  | succ n ih =>
    simp only [claimLoop]
    have hclaim : KeepsRow e (claimReadyTasks deps.now e e) :=
      .inl (claimReadyTasks_workflow e e)
    split
    · exact .inl rfl
    · split
      · exact hclaim.trans (finalizeWorkflow_row _)
      · refine hclaim.trans (KeepsRow.trans (.inl ?_) (ih _))
        exact recordOutcomes_workflow _ _ _

theorem reconcileForeachParents_row (host : Host) (now : Instant) (e : Engine) :
    KeepsRow e (reconcileForeachParents host now e e) :=
  .inl (reconcileForeachParents_only e e).workflow

theorem invalidateStaleApprovals_row (host : Host) (now : Instant) (e : Engine) :
    KeepsRow e (invalidateStaleApprovals host now e e) :=
  .inl (invalidateStaleApprovals_only e e).workflow

theorem solicitApprovals_row (host : Host) (now : Instant) (e : Engine) :
    KeepsRow e (solicitApprovals host now e e) :=
  .inl (solicitApprovals_only e e).workflow

/-- **A reconcile writes the workflow row only to close it.** -/
theorem reconcileWorkflow_row (deps : ReconcileDeps) (e : Engine) :
    KeepsRow e (reconcileWorkflow host deps e) := by
  have hpoll : KeepsRow e (pollRunningAgentTasks deps { e with clock := e.clock + deps.elapsedMs }) :=
    .inl (pollRunningAgentTasks_workflow deps _)
  exact ((((hpoll.trans (reconcileForeachParents_row host deps.now _)).trans
    (applyRejectedApprovalPolicies_row _)).trans
    (invalidateStaleApprovals_row host deps.now _)).trans
    (claimLoop_row deps 200 _)).trans (solicitApprovals_row host deps.now _)

/-! ## reconcileDueWorkflows -/

/-- What `SELECT … WHERE status = 'active' ORDER BY updated_at ASC LIMIT limit`
    may return: rows of equal age come in any order. -/
def DueSelection (limit : Nat) (wfs : List Engine) (selected : List String) : Prop :=
  ∃ sorted : List Engine, sorted.Perm (wfs.filter (fun e => e.db.workflow.status = .active)) ∧
    sorted.Pairwise (fun a b => a.db.workflow.updatedAt ≤ b.db.workflow.updatedAt) ∧
    selected = (sorted.take limit).map (fun e => e.db.workflow.id)

variable (host) in
/-- Reconcile the selected workflows. -/
def reconcileSelected (deps : String → ReconcileDeps) (selected : List String)
    (wfs : List Engine) : List Engine :=
  wfs.map (fun e => if selected.contains e.db.workflow.id then
    reconcileWorkflow host (deps e.db.workflow.id) e else e)

variable (host) in
/-- Ticks in a row, with what each of them selects. -/
inductive Ticks (limit : Nat) : List Engine → List (List String) → Prop where
  | done (wfs : List Engine) : Ticks limit wfs []
  | tick {wfs : List Engine} {selected : List String} {rest : List (List String)}
      (deps : String → ReconcileDeps) (hdue : DueSelection limit wfs selected)
      (hrest : Ticks limit (reconcileSelected host deps selected wfs) rest) :
      Ticks limit wfs (selected :: rest)

variable (host) in
/-- Reconciling never changes the workflow's status. -/
def Quiet (e : Engine) : Prop :=
  ∀ deps : List ReconcileDeps,
    (deps.foldl (fun e d => reconcileWorkflow host d e) e).db.workflow.status = .active

/-- `⌈n / limit⌉`. -/
def ticksFor (n limit : Nat) : Nat := (n + limit - 1) / limit

variable (host) in
/-- Every workflow is selected within the first `⌈n / limit⌉` ticks. -/
def ReachesAll (limit : Nat) (wfs : List Engine) : Prop :=
  ∀ selections, Ticks host limit wfs selections → selections.length = ticksFor wfs.length limit →
    ∀ e ∈ wfs, ∃ selected ∈ selections, e.db.workflow.id ∈ selected

/-! ### A quiet workflow stands still -/

variable (host) in
/-- A workflow after a list of reconciles. -/
def reconciled (deps : List ReconcileDeps) (e : Engine) : Engine :=
  deps.foldl (fun e d => reconcileWorkflow host d e) e

theorem reconciled_append (deps : List ReconcileDeps) (d : ReconcileDeps) (e : Engine) :
    reconciled host (deps ++ [d]) e = reconcileWorkflow host d (reconciled host deps e) := by
  rw [reconciled, List.foldl_append, List.foldl_cons, List.foldl_nil, ← reconciled]

theorem Quiet.row (h : Quiet host e) (deps : List ReconcileDeps) :
    (reconciled host deps e).db.workflow = e.db.workflow := by
  induction deps using List.reverseRecOn with
  | nil => rfl
  | append_singleton deps d ih =>
    have hactive : (reconciled host (deps ++ [d]) e).db.workflow.status = .active :=
      h (deps ++ [d])
    rw [reconciled_append] at hactive ⊢
    exact ((reconcileWorkflow_row d _).row hactive).trans ih

variable {limit : Nat} {wfs : List Engine}

/-- The rows some ticks have left as they were. -/
def later (host : Host) (deps : String → List ReconcileDeps) (wfs : List Engine) : List Engine :=
  wfs.map (fun e => reconciled host (deps e.db.workflow.id) e)

theorem reconcileSelected_later (hquiet : ∀ e ∈ wfs, Quiet host e) (ds : String → ReconcileDeps)
    (deps : String → List ReconcileDeps) (selected : List String) :
    reconcileSelected host ds selected (later host deps wfs) =
      later host (fun id => if selected.contains id then deps id ++ [ds id] else deps id) wfs := by
  rw [reconcileSelected, later, List.map_map, later]
  apply List.map_congr_left
  intro e he
  have hrow := (hquiet e he).row (deps e.db.workflow.id)
  rw [Function.comp_apply, hrow]
  by_cases hsel : selected.contains e.db.workflow.id = true
  · rw [if_pos hsel, if_pos hsel, reconciled_append]
  · rw [if_neg hsel, if_neg hsel]

variable {sorted : List Engine}

theorem later_due (hquiet : ∀ e ∈ wfs, Quiet host e) (deps : String → List ReconcileDeps)
    (hperm : sorted.Perm wfs)
    (hsorted : sorted.Pairwise (fun a b => a.db.workflow.updatedAt ≤ b.db.workflow.updatedAt)) :
    DueSelection limit (later host deps wfs)
      ((sorted.take limit).map (fun e => e.db.workflow.id)) := by
  have hrow : ∀ e ∈ sorted, (reconciled host (deps e.db.workflow.id) e).db.workflow =
      e.db.workflow := fun e he => (hquiet e (hperm.mem_iff.mp he)).row _
  refine ⟨later host deps sorted, ?_, ?_, ?_⟩
  · have hall : (later host deps wfs).filter (fun e => e.db.workflow.status = .active) =
        later host deps wfs := by
      refine List.filter_eq_self.mpr ?_
      intro e he
      obtain ⟨e₀, he₀, rfl⟩ := List.mem_map.mp he
      exact decide_eq_true (hquiet e₀ he₀ _)
    rw [hall]
    exact hperm.map _
  · rw [later, List.pairwise_map]
    refine List.Pairwise.imp_of_mem ?_ hsorted
    intro a b ha hb hab
    rw [hrow a ha, hrow b hb]
    exact hab
  · rw [later, ← List.map_take, List.map_map]
    apply List.map_congr_left
    intro e he
    rw [Function.comp_apply, hrow e (List.mem_of_mem_take he)]

theorem ticks_same (limit : Nat) (hquiet : ∀ e ∈ wfs, Quiet host e) (deps : String → List ReconcileDeps)
    (hperm : sorted.Perm wfs)
    (hsorted : sorted.Pairwise (fun a b => a.db.workflow.updatedAt ≤ b.db.workflow.updatedAt))
    (ds : String → ReconcileDeps) (n : Nat) : Ticks host limit (later host deps wfs)
      (List.replicate n ((sorted.take limit).map (fun e => e.db.workflow.id))) := by
  induction n generalizing deps with
  | zero => exact Ticks.done _
  | succ n ih =>
    refine Ticks.tick ds (later_due hquiet deps hperm hsorted) ?_
    rw [reconcileSelected_later hquiet]
    exact ih _

/-- `ORDER BY updated_at ASC`. -/
def notYounger (a b : Engine) : Bool := a.db.workflow.updatedAt ≤ b.db.workflow.updatedAt

theorem exists_sorted (wfs : List Engine) : ∃ sorted : List Engine, sorted.Perm wfs ∧
    sorted.Pairwise (fun a b => a.db.workflow.updatedAt ≤ b.db.workflow.updatedAt) := by
  have htrans : ∀ a b c, notYounger a b = true → notYounger b c = true → notYounger a c = true := by
    intro a b c hab hbc
    exact decide_eq_true (Int.le_trans (of_decide_eq_true hab) (of_decide_eq_true hbc))
  have htotal : ∀ a b, (notYounger a b || notYounger b a) = true := by
    intro a b
    rw [Bool.or_eq_true]
    rcases Int.le_total a.db.workflow.updatedAt b.db.workflow.updatedAt with h | h
    · exact .inl (decide_eq_true h)
    · exact .inr (decide_eq_true h)
  refine ⟨wfs.mergeSort notYounger, List.mergeSort_perm _ _, ?_⟩
  exact (List.pairwise_mergeSort htrans htotal wfs).imp (fun h => of_decide_eq_true h)

/-- With more workflows than the cap, one can be passed over in every tick. -/
theorem not_reachesAll (hids : (wfs.map (fun e => e.db.workflow.id)).Nodup)
    (hquiet : ∀ e ∈ wfs, Quiet host e) (hlt : limit < wfs.length) : ¬ ReachesAll host limit wfs := by
  intro hall
  -- one order of the rows by age, used in every tick
  obtain ⟨sorted, hperm, hsorted⟩ := exists_sorted wfs
  -- the youngest is in none of them
  have hlen : limit < sorted.length := by rw [hperm.length_eq]; exact hlt
  have hlater : later host (fun _ => []) wfs = wfs := List.map_id wfs
  have hticks := ticks_same limit hquiet (fun _ => []) hperm hsorted
    (fun _ => ⟨0, 0, fun _ => ⟨false, false, false, none, [], none, []⟩,
      fun _ => ⟨.running, none, none⟩⟩) (ticksFor wfs.length limit)
  rw [hlater] at hticks
  have hlast := List.getElem_mem hlen
  obtain ⟨selected, hsel, hmem⟩ :=
    hall _ hticks List.length_replicate _ (hperm.mem_iff.mp hlast)
  rw [List.eq_of_mem_replicate hsel] at hmem
  have hnd : (sorted.map (fun e => e.db.workflow.id)).Nodup :=
    (hperm.map _).nodup_iff.mpr hids
  obtain ⟨e, he, heq⟩ := List.mem_map.mp hmem
  obtain ⟨i, hi, hie⟩ := List.getElem_of_mem he
  rw [List.length_take] at hi
  rw [List.getElem_take] at hie
  have hsame := RowTable.eq_of_key hnd (List.mem_of_mem_take he) hlast heq
  rw [← hie] at hsame
  have hidx := (List.Nodup.of_map _ hnd).getElem_inj_iff.mp hsame
  omega

/-- **The tick reaches every workflow exactly when they fit under the cap.** -/
theorem reachesAll_iff (hids : (wfs.map (fun e => e.db.workflow.id)).Nodup)
    (hquiet : ∀ e ∈ wfs, Quiet host e) : ReachesAll host limit wfs ↔ wfs.length ≤ limit := by
  constructor
  · intro hall
    by_contra hlt
    exact not_reachesAll hids hquiet (Nat.lt_of_not_le hlt) hall
  · intro hle selections hticks hlen e he
    have hpos : 0 < wfs.length := List.length_pos_of_mem he
    cases hticks with
    | done =>
      have : 1 ≤ ticksFor wfs.length limit :=
        (Nat.one_le_div_iff (by omega)).mpr (by omega)
      rw [← hlen] at this
      exact absurd this (by simp)
    | tick deps hdue hrest =>
      obtain ⟨sorted, hperm, _, rfl⟩ := hdue
      have hactive : wfs.filter (fun e => e.db.workflow.status = .active) = wfs :=
        List.filter_eq_self.mpr (fun e he => decide_eq_true (hquiet e he []))
      rw [hactive] at hperm
      refine ⟨_, List.mem_cons_self .., ?_⟩
      rw [List.take_of_length_le (by rw [hperm.length_eq]; exact hle)]
      exact List.mem_map.mpr ⟨e, hperm.mem_iff.mpr he, rfl⟩

/-! ### Workflows that wait for a manual task -/

/-- The workflow waits for its one task to be completed by hand. -/
structure AwaitsManual (e : Engine) : Prop where
  active : e.db.workflow.status = .active
  task : ∃ t, e.db.tasks = [t] ∧ t.type = .manual ∧ t.status = .running ∧ t.foreachConfig = none
  approvals : e.db.approvals = []

section

variable (h : AwaitsManual e)

include h

theorem AwaitsManual.poll (deps : ReconcileDeps) : pollRunningAgentTasks deps e = e := by
  obtain ⟨t, htasks, htype, _⟩ := h.task
  have hread : WfSettle.pollRead e = e := by
    simp [WfSettle.pollRead, htasks, pollable, htype]
  simp only [pollRunningAgentTasks, hread, WfEngine.pollSettle]
  simp [h.active]

theorem AwaitsManual.foreachPass (now : Instant) : reconcileForeachParents host now e e = e := by
  obtain ⟨t, htasks, _, _, hfe⟩ := h.task
  simp only [reconcileForeachParents, h.active, htasks, List.foldlM_cons, List.foldlM_nil,
    reconcileForeachParent, hfe]
  rfl

theorem AwaitsManual.approvalPasses (host : Host) (now : Instant) :
    applyRejectedApprovalPolicies e e = e ∧ invalidateStaleApprovals host now e e = e ∧
      solicitApprovals host now e e = e := by
  refine ⟨?_, ?_, ?_⟩
  · simp [applyRejectedApprovalPolicies, h.active, h.approvals]
  · simp [invalidateStaleApprovals, h.active, h.approvals]
  · simp [solicitApprovals, h.active, h.approvals]

theorem AwaitsManual.claim (now : Instant) : claimReadyTasks now e e = e := by
  obtain ⟨t, htasks, htype, hs, _⟩ := h.task
  simp [claimReadyTasks, h.active, htasks, recoverTasks, recoverTask, crashed, hs, htype,
    instantaneousExecutorType, reclaimTask, claimTask]

theorem AwaitsManual.finalize : (finalizeWorkflow e e).engine = e := by
  obtain ⟨t, htasks, _, hs, _⟩ := h.task
  have hskip : skipPropagate e e = ⟨e, StatusMap.ofTasks e.db.tasks, false, false⟩ := by
    simp [skipPropagate, htasks, skipLoop, skipRound, skipStep, hs, waiting, StatusMap.ofTasks,
      StatusMap.get]
  simp [finalizeWorkflow, h.active, hskip, nextStatus, htasks, rollUpWorkflowStatus, rollupInput,
    StatusMap.ofTasks, StatusMap.get, hs, blockingRow, isTerminalTaskStatus]

theorem AwaitsManual.reconcile (deps : ReconcileDeps) :
    AwaitsManual (reconcileWorkflow host deps e) := by
  have hlater : AwaitsManual { e with clock := e.clock + deps.elapsedMs } :=
    ⟨h.active, h.task, h.approvals⟩
  have hloop : claimLoop deps 200 { e with clock := e.clock + deps.elapsedMs } =
      { e with clock := e.clock + deps.elapsedMs } := by
    rw [claimLoop, if_neg (not_not.mpr hlater.active), hlater.claim]
    simp only [List.drop_length, if_true]
    exact hlater.finalize
  obtain ⟨hreject, hinvalid, hsolicit⟩ := hlater.approvalPasses host deps.now
  simp only [reconcileWorkflow]
  rw [hlater.poll, hlater.foreachPass, hreject, hinvalid, hloop, hsolicit]
  exact hlater

theorem AwaitsManual.quiet : Quiet host e := by
  intro deps
  refine (List.foldlRecOn deps _ (motive := AwaitsManual) h ?_).active
  intro m hm d _
  exact hm.reconcile d

end

/-- A started workflow of one manual task, dispatched and left to its assignee. -/
def awaiting (id : String) : Engine :=
  let e := run plainHost (start plainHost
      { name := "w", tasks := [{ key := "a", title := "a", body := .manual }] })
    [.lockFree .start, .claim 0 [],
      .record 0 [(⟨.uuid 0, .uuid 1, 1, ⟨"wf", .uuid 0, 1⟩, .uuid 2⟩, ⟨.running, none, none⟩, [])]]
  { e with db := { e.db with workflow := { e.db.workflow with id := id } } }

theorem awaiting_quiet (id : String) : Quiet plainHost (awaiting id) :=
  AwaitsManual.quiet ⟨rfl, ⟨_, rfl, rfl, rfl, rfl⟩, rfl⟩

/-- Two of them. -/
def twoAwaiting : List Engine := [awaiting "wf-a", awaiting "wf-b"]

theorem twoAwaiting_quiet : ∀ e ∈ twoAwaiting, Quiet plainHost e := by
  intro e he
  rcases List.mem_cons.mp he with rfl | he
  · exact awaiting_quiet "wf-a"
  · rw [List.mem_singleton.mp he]
    exact awaiting_quiet "wf-b"

theorem twoAwaiting_ids : (twoAwaiting.map (fun e => e.db.workflow.id)).Nodup := by decide

theorem reachesAll_twoAwaiting : ReachesAll plainHost 2 twoAwaiting :=
  (reachesAll_iff twoAwaiting_ids twoAwaiting_quiet).mpr (Nat.le_refl 2)

theorem starves_twoAwaiting : (∀ e ∈ twoAwaiting, Quiet plainHost e) ∧ twoAwaiting.length = 2 ∧
      ¬ ReachesAll plainHost 1 twoAwaiting :=
  ⟨twoAwaiting_quiet, rfl, not_reachesAll twoAwaiting_ids twoAwaiting_quiet (Nat.lt_succ_self 1)⟩

end WfTicks
