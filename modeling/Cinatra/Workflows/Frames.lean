import Cinatra.Workflows.Fanout
import Cinatra.Workflows.Rollup

/-! # Frames — what the passes leave alone

    Each frame is one equation: the state after a pass is the state before with
    only the named tables replaced.  Row acts leave edges and approvals, a
    foreach pass the ledgers, the approval passes everything but the approvals,
    skips everything but the task rows. -/

namespace WfFrames

open Loop WfTransitions WfSpec WfRows WfHost WfState WfReconciler WfSettle WfApprovals
open WfForeach WfForeachReconciler WfActs WfClosing
open WfRollup WfFanout

variable {host : Host} {e e' m cur : Engine} {now : Instant}

/-- What a row act leaves alone. -/
structure RowFrame (e e' : Engine) : Prop where
  deps : e'.db.deps = e.db.deps
  approvals : e'.db.approvals = e.db.approvals
  solicited : e'.solicited = e.solicited
  fannedOut : e'.fannedOut = e.fannedOut

/-- Row acts leave the edges and approvals alone. -/
theorem RowPath.frame (h : RowPath e e') : RowFrame e e' := by
  induction h with
  | refl => exact ⟨rfl, rfl, rfl, rfl⟩
  | tail _ hact ih =>
    cases hact with
    | tasks | attempts | artifacts | launch | takeOver | touch | drop | workflow | clock | ids
    | polled | manualRead => exact ⟨ih.deps, ih.approvals, ih.solicited, ih.fannedOut⟩

/-! ## A foreach pass -/

/-- Only the task graph and the log of fan-outs may differ. -/
def OnlyGraph (e e' : Engine) : Prop :=
  e' = { e with
    db := { e.db with tasks := e'.db.tasks, deps := e'.db.deps, approvals := e'.db.approvals }
    fannedOut := e'.fannedOut }

theorem OnlyGraph.refl (e : Engine) : OnlyGraph e e := rfl

/-- Writes to the graph compose. -/
theorem OnlyGraph.trans (h : OnlyGraph e m) (h' : OnlyGraph m e') : OnlyGraph e e' := by
  rw [OnlyGraph] at h h' ⊢
  rw [h'] at *
  rw [h]

theorem OnlyGraph.leases (h : OnlyGraph e e') : e'.db.leases = e.db.leases := by rw [h]
theorem OnlyGraph.dispatched (h : OnlyGraph e e') : e'.dispatched = e.dispatched := by rw [h]
theorem OnlyGraph.solicited (h : OnlyGraph e e') : e'.solicited = e.solicited := by rw [h]
theorem OnlyGraph.workflow (h : OnlyGraph e e') : e'.db.workflow = e.db.workflow := by rw [h]
variable {p : ChildPlan}

/-- The fan-out writes tasks, edges and approvals only. -/
private theorem insertChild_only (h : insertChild now cur p = .ok m) : OnlyGraph cur m := by
  rcases insertChild_ok h with ⟨rfl, -⟩ | ⟨_, _, rfl⟩
  · exact OnlyGraph.refl _
  · exact rfl

variable {plans : List ChildPlan}

private theorem insertChildDependency_only {childId : RowId}
    {dep : ChildDependencyInsert} (h : insertChildDependency plans childId cur dep = .ok m) :
    OnlyGraph cur m := by
  rcases insertChildDependency_ok h with rfl | ⟨_, _, _, rfl⟩
  · exact OnlyGraph.refl _
  · exact rfl

private theorem insertChildApproval_only (h : insertChildApproval cur p = .ok m) :
    OnlyGraph cur m := by
  rcases insertChildApproval_ok h with ⟨-, rfl⟩ | ⟨_, _, _, _, rfl⟩
  · exact OnlyGraph.refl _
  · exact rfl

theorem persistChildPlans_only (h : persistChildPlans now plans cur = .ok m) : OnlyGraph cur m := by
  rw [persistChildPlans] at h
  obtain ⟨m₁, h₁, h⟩ := bind_ok.mp h
  obtain ⟨m₂, h₂, h₃⟩ := bind_ok.mp h
  have hp₁ := foldlM_keeps (P := OnlyGraph cur) h₁ (OnlyGraph.refl cur)
    (fun a p b _ hab ha => ha.trans (insertChild_only hab))
  have hp₂ := foldlM_keeps (P := OnlyGraph cur) h₂ hp₁ (fun a p b _ hab ha =>
    foldlM_keeps (P := OnlyGraph cur) hab ha
      (fun a' d b' _ hab' ha' => ha'.trans (insertChildDependency_only hab')))
  exact foldlM_keeps (P := OnlyGraph cur) h₃ hp₂
    (fun a p b _ hab ha => ha.trans (insertChildApproval_only hab))

theorem handleIdleParent_only {taskKeys : List String} {parent source : TaskRow}
    {fe : ForeachConfig} (h : handleIdleParent host now taskKeys cur parent source fe = .ok m) :
    OnlyGraph cur m := by
  simp only [handleIdleParent] at h
  split at h
  · split at h
    · rw [← Except.ok.inj h]
      exact rfl
    · rw [← Except.ok.inj h]
      exact rfl
    · obtain ⟨m₁, h₁, h⟩ := bind_ok.mp h
      rw [← Except.ok.inj h]
      exact (persistChildPlans_only h₁).trans rfl
  · split at h
    · rw [← Except.ok.inj h]
      exact rfl
    · rw [← Except.ok.inj h]
      exact OnlyGraph.refl cur
  · rw [← Except.ok.inj h]
    exact rfl
  · rw [← Except.ok.inj h]
    exact OnlyGraph.refl cur

theorem handleRunningParent_only (parent : TaskRow) (fe : ForeachConfig)
    (allTasks : List TaskRow) : OnlyGraph cur (handleRunningParent cur parent fe allTasks) := by
  have hlatch : ∀ (a : Engine) (f s : Bool), OnlyGraph a (latchMetadata a parent f s) := by
    intro a f s
    simp only [latchMetadata]
    split
    · exact OnlyGraph.refl a
    · exact rfl
  have hcancel : ∀ (a : Engine) (p : RollupPolicy) (f : Bool),
      OnlyGraph a (rollupCancel a parent.id p f) := by
    intro a p f
    simp only [rollupCancel]
    split
    · exact OnlyGraph.refl a
    · cases p with
      | anyFails | allOrNothing => exact rfl
      | bestEffort => exact OnlyGraph.refl a
  simp only [handleRunningParent]
  split
  · exact OnlyGraph.refl cur
  · split
    · exact ((hlatch _ _ _).trans (hcancel _ _ _)).trans rfl
    · exact (hlatch _ _ _).trans (hcancel _ _ _)

/-- **The foreach pass writes the graph only.** -/
theorem reconcileForeachParents_only (snap cur : Engine) :
    OnlyGraph cur (reconcileForeachParents host now snap cur) := by
  rw [reconcileForeachParents]
  split
  · exact OnlyGraph.refl cur
  split
  · rename_i a hrun
    refine foldlM_keeps (P := OnlyGraph cur) hrun (OnlyGraph.refl cur) ?_
    intro a parent b _ hab ha
    refine ha.trans ?_
    rw [reconcileForeachParent] at hab
    split at hab
    · rw [← Except.ok.inj hab]
      exact OnlyGraph.refl a
    split at hab
    · rw [← Except.ok.inj hab]
      exact rfl
    split at hab
    · exact handleIdleParent_only hab
    · rw [← Except.ok.inj hab]
      exact handleRunningParent_only _ _ _
    · rw [← Except.ok.inj hab]
      exact OnlyGraph.refl a
  · exact OnlyGraph.refl cur

/-! ## Skips -/

/-- Only the task rows may differ. -/
def OnlyTasks (e e' : Engine) : Prop := e' = { e with db := { e.db with tasks := e'.db.tasks } }

theorem OnlyTasks.refl (e : Engine) : OnlyTasks e e := rfl

/-- Writes to tasks compose. -/
theorem OnlyTasks.trans (h : OnlyTasks e m) (h' : OnlyTasks m e') : OnlyTasks e e' := by
  rw [OnlyTasks] at h h' ⊢
  rw [h'] at *
  rw [h]

theorem OnlyTasks.leases (h : OnlyTasks e e') : e'.db.leases = e.db.leases := by rw [h]
theorem OnlyTasks.workflow (h : OnlyTasks e e') : e'.db.workflow = e.db.workflow := by rw [h]
theorem OnlyTasks.approvals (h : OnlyTasks e e') : e'.db.approvals = e.db.approvals := by rw [h]
theorem OnlyTasks.dispatched (h : OnlyTasks e e') : e'.dispatched = e.dispatched := by rw [h]
theorem OnlyTasks.solicited (h : OnlyTasks e e') : e'.solicited = e.solicited := by rw [h]

/-- Skips write tasks only. -/
theorem skipRejected_only (snap cur : Engine) : OnlyTasks cur (skipRejected snap cur) := by
  refine List.foldlRecOn snap.db.approvals (applySkipPolicy snap)
    (motive := fun m => OnlyTasks cur m) (OnlyTasks.refl cur) ?_
  intro m hm ap _
  refine hm.trans ?_
  rw [applySkipPolicy]
  split
  · split
    · exact OnlyTasks.refl m
    · split
      · exact OnlyTasks.refl m
      · exact rfl
  · exact OnlyTasks.refl m

/-- So do the rounds of the closing pass. -/
theorem skipPropagate_only (snap cur : Engine) : OnlyTasks cur (skipPropagate snap cur).engine := by
  have hround : ∀ st : SkipState,
      OnlyTasks st.engine (skipRound snap.db.tasks snap.db.deps st).engine := by
    intro st
    refine List.foldlRecOn snap.db.tasks (skipStep snap.db.tasks snap.db.deps)
      (motive := fun n : SkipState => OnlyTasks st.engine n.engine) (OnlyTasks.refl _) ?_
    intro n hn s _
    refine hn.trans ?_
    rcases skipStep_cases snap.db.tasks snap.db.deps n s with ⟨_, h⟩ | ⟨_, _, _, h⟩ | ⟨_, _, h⟩
    · rw [h]
      exact OnlyTasks.refl _
    · rw [h]
      exact rfl
    · rw [h]
      exact OnlyTasks.refl _
  have hloop : ∀ (fuel : Nat) (st : SkipState),
      OnlyTasks st.engine (skipLoop snap.db.tasks snap.db.deps fuel st).engine := by
    intro fuel
    induction fuel with
    | zero => exact fun st => OnlyTasks.refl _
    | succ fuel ih =>
      intro st
      rw [skipLoop]
      split
      · exact (hround st).trans (ih _)
      · exact hround st
  exact hloop _ _

/-- The two passes that may close the workflow keep its approvals and what was asked. -/
theorem applyRejectedApprovalPolicies_asks (snap cur : Engine) :
    (applyRejectedApprovalPolicies snap cur).db.approvals = cur.db.approvals ∧
      (applyRejectedApprovalPolicies snap cur).solicited = cur.solicited := by
  have hskip := skipRejected_only snap cur
  rw [applyRejectedApprovalPolicies_eq]
  split
  · exact ⟨rfl, rfl⟩
  · split <;> exact ⟨hskip.approvals, hskip.solicited⟩

/-- The closing pass keeps the approvals and what was asked. -/
theorem finalizeWorkflow_asks (snap cur : Engine) :
    (finalizeWorkflow snap cur).engine.db.approvals = cur.db.approvals ∧
      (finalizeWorkflow snap cur).engine.solicited = cur.solicited := by
  have hskip := skipPropagate_only snap cur
  rw [finalizeWorkflow_eq]
  split
  · exact ⟨rfl, rfl⟩
  · split <;> exact ⟨hskip.approvals, hskip.solicited⟩

/-! ## Approvals -/

/-- Only the approvals and the log of solicitations may differ. -/
def OnlyApprovals (e e' : Engine) : Prop :=
  e' = { e with db := { e.db with approvals := e'.db.approvals }, solicited := e'.solicited }

theorem OnlyApprovals.refl (e : Engine) : OnlyApprovals e e := rfl

/-- Writes to approvals compose. -/
theorem OnlyApprovals.trans (h : OnlyApprovals e m) (h' : OnlyApprovals m e') :
    OnlyApprovals e e' := by
  rw [OnlyApprovals] at h h' ⊢
  rw [h'] at *
  rw [h]

theorem OnlyApprovals.leases (h : OnlyApprovals e e') : e'.db.leases = e.db.leases := by rw [h]
theorem OnlyApprovals.workflow (h : OnlyApprovals e e') : e'.db.workflow = e.db.workflow := by
  rw [h]
theorem OnlyApprovals.tasks (h : OnlyApprovals e e') : e'.db.tasks = e.db.tasks := by rw [h]
theorem OnlyApprovals.deps (h : OnlyApprovals e e') : e'.db.deps = e.db.deps := by rw [h]
theorem OnlyApprovals.dispatched (h : OnlyApprovals e e') : e'.dispatched = e.dispatched := by
  rw [h]

theorem invalidateStaleApprovals_only (snap cur : Engine) :
    OnlyApprovals cur (invalidateStaleApprovals host now snap cur) :=
  invalidateStaleApprovals_rec (OnlyApprovals.refl cur) fun _ _ _ hm => hm.trans rfl

/-- Soliciting writes approvals only. -/
theorem solicitApprovals_only (snap cur : Engine) :
    OnlyApprovals cur (solicitApprovals host now snap cur) :=
  solicitApprovals_rec (OnlyApprovals.refl cur) fun _ _ _ _ hm => hm.trans rfl

theorem decideWorkflowApproval_only (id : RowId) (decidedBy : String)
    (decision : ApprovalDecision) (rp : Option RejectionPolicy) (reason : Option String) :
    OnlyApprovals cur (decideWorkflowApproval id decidedBy decision rp reason cur) := rfl

theorem settlePolled_leases (snap cur : Engine) (p : PolledAttempt) (s : ChildRunStatus) :
    (settlePolled now snap cur p s).db.leases = cur.db.leases ∧
      (settlePolled now snap cur p s).dispatched = cur.dispatched := by
  have hfail : ∀ (a : Engine) (t : TaskRow) (n : Nat),
      (applyTaskFailure now a t n).db.leases = a.db.leases ∧
        (applyTaskFailure now a t n).dispatched = a.dispatched := by
    intro a t n
    rw [applyTaskFailure]
    split
    · exact ⟨rfl, rfl⟩
    · exact ⟨rfl, rfl⟩
  simp only [settlePolled]
  split
  · exact ⟨rfl, rfl⟩
  split
  · exact ⟨rfl, rfl⟩
  split
  · exact ⟨rfl, rfl⟩
  split
  · exact ⟨rfl, rfl⟩
  split
  · split
    · exact ⟨rfl, rfl⟩
    · exact ⟨rfl, rfl⟩
  · exact hfail _ _ _

end WfFrames
