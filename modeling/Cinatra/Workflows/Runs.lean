import Cinatra.Workflows.Revising
import Cinatra.Workflows.Rollup

/-! # Runs — the effect of a step, and what holds in every reachable state

    A step is a path of acts, a path and the write that closes the workflow, the
    replacement of a draft's rows, or the revision of a paused workflow's
    (`effect`).  The invariant and the foreach sources survive each, so they hold
    in every reachable state. -/

namespace WfRuns

open WfTransitions WfSpec WfRows WfHost WfSchedule WfState WfLifecycle WfEngine WfStore WfValidate
open WfActs WfInvariant WfPaths WfInterference WfClaiming WfSettling WfClosing WfRollup WfFanout
open WfEditing WfRevising

variable {host : Host} {e e' : Engine} {op : Op}

/-! ## One step -/

/-- What a step does to the rows. -/
inductive Effect (host : Host) (e e' : Engine) : Prop where
  | acts (h : Path e e')
  | closed (m : Engine) (hpath : Path e m) (h : Close m e')
  | replaced (input : UpdateInput) (cur : Engine) (target : Option Instant)
      (hvalid : TemplateValid host input.spec) (hcur : Interfered e cur)
      (hdraft : e.db.workflow.status = .draft)
      (hversion : cur.db.workflow.lockVersion = input.expectedLockVersion)
      (hrow : cur.db.workflow = e.db.workflow) (hinv : Inv e') (hsrc : SourcesKnown e')
      (hframe : Framed (editWorkflowRow cur input target) e')
      (hblank : ∀ a ∈ e'.db.approvals, Blank a)
  | revised (input : UpdateInput) (cur : Engine) (target : Option Instant)
      (resolved : Record ResolvedTask) (hvalid : TemplateValid host input.spec)
      (hcur : Interfered e cur) (hpaused : e.db.workflow.status = .paused)
      (hversion : cur.db.workflow.lockVersion = input.expectedLockVersion)
      (hrow : cur.db.workflow = e.db.workflow)
      (hresolved : resolveSchedule host input.spec
        (pinnedAt e input.spec (pinnedWindows input e.db.tasks)) cur.clock = some resolved)
      (h : Revised host e (editWorkflowRow cur input target) input.spec resolved e')

theorem effect_of_closes (h : Closes e e') : Effect host e e' := by
  rcases h with h | ⟨m, hm, hc⟩
  · exact Effect.acts h.path
  · exact Effect.closed m hm hc

/-- An edit that goes through has found the workflow as it read it, and editable. -/
theorem updateWorkflowDraftSpec_cases (host : Host) (input : UpdateInput) (snap cur : Engine) :
    (∃ reason, updateWorkflowDraftSpec host input snap cur = ⟨cur, some reason⟩) ∨
      ∃ m, updateWorkflowDraftSpec host input snap cur = ⟨m, none⟩ ∧
        editTransaction host input snap cur = .ok m ∧ editable snap.db.workflow.status = true ∧
        snap.db.workflow.lockVersion = input.expectedLockVersion ∧
        cur.db.workflow.lockVersion = input.expectedLockVersion := by
  rw [updateWorkflowDraftSpec]
  by_cases hed : editable snap.db.workflow.status = true
  · rw [hed, Bool.not_true, if_neg Bool.false_ne_true]
    by_cases hv : snap.db.workflow.lockVersion ≠ input.expectedLockVersion
    · rw [if_pos hv]
      exact .inl ⟨_, rfl⟩
    rw [if_neg hv]
    by_cases hv' : cur.db.workflow.lockVersion ≠ input.expectedLockVersion ∨
        (!editable cur.db.workflow.status) = true
    · rw [if_pos hv']
      exact .inl ⟨_, rfl⟩
    rw [if_neg hv']
    cases htx : editTransaction host input snap cur with
    | error err => exact .inl ⟨_, rfl⟩
    | ok m =>
      have hcv := not_or.mp hv'
      exact .inr ⟨m, rfl, rfl, rfl, not_not.mp hv, not_not.mp hcv.1⟩
  · rw [Bool.eq_false_of_not_eq_true hed, Bool.not_false, if_pos rfl]
    exact .inl ⟨_, rfl⟩

variable {input : UpdateInput} {cur : Engine}

/-- An edit changes nothing, replaces the rows of a draft, or revises a paused workflow's. -/
theorem updateWorkflowDraftSpec_rec {motive : Engine → Prop} (hinv : Inv e)
    (hvalid : TemplateValid host input.spec) (hcur : Interfered e cur) (hsame : motive cur)
    (hreplaced : ∀ target m, e.db.workflow.status = .draft →
      cur.db.workflow.lockVersion = input.expectedLockVersion → cur.db.workflow = e.db.workflow →
      WfInvariant.Inv m → SourcesKnown m → Framed (editWorkflowRow cur input target) m →
      (∀ a ∈ m.db.approvals, Blank a) → motive m)
    (hrevised : ∀ target resolved m, e.db.workflow.status = .paused →
      cur.db.workflow.lockVersion = input.expectedLockVersion → cur.db.workflow = e.db.workflow →
      resolveSchedule host input.spec (pinnedAt e input.spec (pinnedWindows input e.db.tasks))
        cur.clock = some resolved →
      Revised host e (editWorkflowRow cur input target) input.spec resolved m → motive m) :
    motive (updateWorkflowDraftSpec host input e cur).engine := by
  have hpath := hcur.path.path
  rcases updateWorkflowDraftSpec_cases host input e cur with
    ⟨reason, heq⟩ | ⟨m, heq, htx, hed, hv, hv'⟩
  · rw [heq]
    exact hsame
  rw [heq]
  have hrow : cur.db.workflow = e.db.workflow := Path.workflow_eq hpath (hv'.trans hv.symm)
  rw [editTransaction] at htx
  obtain ⟨target, _, htx⟩ := Loop.bind_ok.mp htx
  by_cases hpaused : cur.db.workflow.status = .paused
  · rw [if_pos hpaused] at htx
    have hread := reread_of_interfered target hinv hcur hv'
    obtain ⟨resolved, hres, hrev⟩ := diffApplySpecRows_ok hread hvalid htx
    exact hrevised target resolved m (hrow ▸ hpaused) hv' hrow hres hrev
  · rw [if_neg hpaused] at htx
    have hdraft : e.db.workflow.status = .draft := by
      rw [hrow] at hpaused
      simp only [editable, Bool.or_eq_true, decide_eq_true_eq] at hed
      exact hed.resolve_right hpaused
    have hcurdraft : (editWorkflowRow cur input target).db.workflow.status = .draft := by
      show cur.db.workflow.status = .draft
      rw [hrow]
      exact hdraft
    obtain ⟨hm, hsrc, hframe, hblank⟩ := replaceDraftRows_inv
      ((hinv.path hpath).act (editWorkflowRow_act hv')) hcurdraft hvalid htx
    exact hreplaced target m hdraft hv' hrow hm hsrc hframe hblank

theorem updateWorkflowDraftSpec_effect (hinv : Inv e)
    (hvalid : TemplateValid host input.spec) (hcur : Interfered e cur) :
    Effect host e (updateWorkflowDraftSpec host input e cur).engine :=
  updateWorkflowDraftSpec_rec hinv hvalid hcur (Effect.acts hcur.path.path)
    (fun target _ => Effect.replaced input cur target hvalid hcur)
    (fun target resolved _ => Effect.revised input cur target resolved hvalid hcur)

/-- **The effect of a step.** -/
theorem effect (hinv : Inv e) (hsrc : SourcesKnown e) (hok : Validated host e op) :
    Effect host e (step host e op) := by
  have hpath : ∀ between, RowPath e (interfere e between) :=
    fun between => (interfered_interfere hinv between).path
  cases op with
  | lockFree op => exact Effect.acts (interfered_step hinv op).path.path
  | pollRead => exact Effect.acts (pollRead_path e).path
  | pollSettle now items => exact Effect.acts (pollSettle_path hinv items).path
  | foreachPass now between =>
    exact Effect.acts (reconcileForeachParents_path hinv hsrc (hpath between).path)
  | rejectedPolicies between =>
    exact effect_of_closes (applyRejectedApprovalPolicies_closes hinv (hpath between))
  | invalidate now between => exact Effect.acts (invalidateStaleApprovals_path (hpath between).path)
  | claim now between => exact Effect.acts (claimReadyTasks_path hinv (hpath between)).path
  | record now results => exact Effect.acts (recordOutcomes_path hinv results).path
  | finalize between =>
    exact effect_of_closes (finalizeWorkflow_closes hinv (interfered_interfere hinv between))
  | solicit now between => exact Effect.acts (solicitApprovals_path (hpath between).path)
  | cancel between => exact effect_of_closes (cancelWorkflow_closes (hpath between))
  | decide id decidedBy decision rp reason =>
    exact Effect.acts (decideWorkflowApproval_path id decidedBy decision rp reason)
  | edit input between =>
    exact updateWorkflowDraftSpec_effect hinv hok (interfered_interfere hinv between)

/-! ## Every reachable state -/

theorem Effect.inv (hinv : Inv e) (hsrc : SourcesKnown e) (h : Effect host e e') :
    Inv e' ∧ SourcesKnown e' := by
  cases h with
  | acts h => exact ⟨hinv.path h, Path.sourcesKnown hinv h hsrc⟩
  | closed m hpath hc =>
    refine ⟨Inv.close (hinv.path hpath) hc, ?_⟩
    have hm := Path.sourcesKnown hinv hpath hsrc
    rw [SourcesKnown, hc.tasks]
    exact hm
  | replaced input cur target hvalid hcur hdraft hversion hrow hinv' hsrc' hframe hblank =>
    exact ⟨hinv', hsrc'⟩
  | revised input cur target resolved hvalid hcur hpaused hversion hrow hresolved h =>
    exact ⟨h.inv, h.sourcesKnown (reread_of_interfered target hinv hcur hversion) hvalid⟩

/-- The invariant and the foreach sources, as one property of a state. -/
def Sound (e : Engine) : Prop := Inv e ∧ SourcesKnown e

theorem sound_created (h : Created host e) : Sound e := by
  obtain ⟨workflowId, name, spec, clock, hvalid, hok⟩ := h
  exact ⟨inv_created hvalid hok, sourcesKnown_created hvalid hok⟩

theorem sound_step (h : Sound e) (hok : Validated host e op) : Sound (step host e op) :=
  (effect h.1 h.2 hok).inv h.1 h.2

/-- **Every reachable state is sound.** -/
theorem sound_reachable (h : Reachable host e) : Sound e :=
  Machine.Reaches.invariant (I := Sound) (fun _ hc => sound_created hc)
    (fun _ _ hs hok => sound_step hs hok) h

theorem inv_reachable (h : Reachable host e) : Inv e := (sound_reachable h).1

theorem sound_leads (h : Sound e) (hl : Leads host e e') : Sound e' :=
  hl.preserves (fun _ _ hs hok => sound_step hs hok) h

end WfRuns
