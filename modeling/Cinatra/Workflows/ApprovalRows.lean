import Cinatra.Workflows.Absorbing
import Cinatra.Workflows.ChildRows
import Cinatra.Workflows.Frames

/-! # ApprovalRows — which approval rows a step leaves

    A step keeps an approval's row, marks it, or drops it; what it adds is blank and
    has a new id (`approvals_step`).  An approval that was solicited stays so, or is
    stamped invalidated. -/

namespace WfApprovalRows

open RowTable Loop JsonValue WfTransitions WfSpec WfRows WfHost WfSchedule WfState WfReconciler
open WfApprovals WfForeach WfForeachReconciler WfStore WfLifecycle WfEngine WfActs WfInvariant
open WfPaths WfInterference WfClosing WfClaiming WfSettling WfRollup WfEditing WfRevising WfRuns
open WfFrames WfFanout WfChildRows WfSettle WfValidate

variable {host : Host} {e e' snap cur m m' : Engine} {op : Op} {now : Instant}

theorem handleRunningParent_approvals (parent : TaskRow) (fe : ForeachConfig)
    (allTasks : List TaskRow) :
    (handleRunningParent m parent fe allTasks).db.approvals = m.db.approvals := by
  have hlatch : ∀ (a : Engine) (f s : Bool),
      (latchMetadata a parent f s).db.approvals = a.db.approvals := by
    intro a f s
    simp only [latchMetadata]
    split
    · rfl
    · rfl
  have hcancel : ∀ (a : Engine) (p : RollupPolicy) (f : Bool),
      (rollupCancel a parent.id p f).db.approvals = a.db.approvals := by
    intro a p f
    simp only [rollupCancel]
    split
    · rfl
    · cases p with
      | anyFails | allOrNothing | bestEffort => rfl
  simp only [handleRunningParent]
  split
  · rfl
  · split
    · exact (hcancel _ _ _).trans (hlatch _ _ _)
    · exact (hcancel _ _ _).trans (hlatch _ _ _)

theorem mem_of_approvalByKey {key : String} {ap : ApprovalRow}
    (h : approvalByKey snap key = some ap) : ap ∈ snap.db.approvals :=
  List.mem_of_mem_filter (List.mem_of_getLast? h)

/-! ## What becomes of a row -/

/-- What a row may become: solicited as it was, solicited now, or stamped invalidated. -/
def Marks (a a' : ApprovalRow) : Prop :=
  a'.solicitedAt = a.solicitedAt ∨ a'.solicitedAt ≠ none ∨ a'.invalidatedAt ≠ none

/-- Each approval is one from before, marked, or a new one that nobody has acted on. -/
def Traced (e e' : Engine) : Prop :=
  ∀ a' ∈ e'.db.approvals, (∃ a ∈ e.db.approvals, a'.id = a.id ∧ Marks a a') ∨
    Blank a' ∧ ∀ a ∈ e.db.approvals, a.id ≠ a'.id

/-- No approval has an id that is still to be handed out. -/
def ApprovalsOld (e : Engine) : Prop := ∀ a ∈ e.db.approvals, Old e a.id

/-- Each approval is one from before, marked. -/
def Marked (e e' : Engine) : Prop :=
  ∀ a' ∈ e'.db.approvals, ∃ a ∈ e.db.approvals, a'.id = a.id ∧ Marks a a'

theorem Marked.of_eq (h : e'.db.approvals = e.db.approvals) : Marked e e' := by
  intro a ha
  rw [h] at ha
  exact ⟨a, ha, rfl, .inl rfl⟩

theorem Marked.traced (h : Marked e e') : Traced e e' := fun a' ha' => .inl (h a' ha')

theorem Marked.old (h : Marked e e') (hold : ApprovalsOld e) (hn : e.nextUuid ≤ e'.nextUuid) :
    ApprovalsOld e' := by
  intro a' ha' n hid
  obtain ⟨a, ha, haid, _⟩ := h a' ha'
  exact Nat.lt_of_lt_of_le (hold a ha n (haid.symm.trans hid)) hn

theorem Path.nextUuid_le (h : Path e e') : e.nextUuid ≤ e'.nextUuid := by
  induction h with
  | refl => exact Nat.le_refl _
  | tail _ hact ih =>
    refine Nat.le_trans ih ?_
    cases hact with
    | row hrow => exact hrow.nextUuid
    | approvals | solicited | child | dependency | approval => exact Nat.le_refl _

/-! ## The rows an edit writes -/

/-- The rows written so far: blank ones with ids handed out since, and kept ones. -/
structure Written (e m : Engine) : Prop where
  later : e.nextUuid ≤ m.nextUuid
  rows : ∀ r ∈ m.db.approvals, (∃ n, r.id = .uuid n ∧ e.nextUuid ≤ n ∧ n < m.nextUuid ∧ Blank r) ∨
      ∃ prev ∈ e.db.approvals, r.id = prev.id ∧ Marks prev r

theorem Written.keep (h : Written e m) (hrows : m'.db.approvals = m.db.approvals)
    (hn : m.nextUuid ≤ m'.nextUuid) : Written e m' := by
  refine ⟨Nat.le_trans h.later hn, ?_⟩
  intro r hr
  rw [hrows] at hr
  rcases h.rows r hr with ⟨n, hid, hle, hlt, hb⟩ | hold
  · exact .inl ⟨n, hid, hle, Nat.lt_of_lt_of_le hlt hn, hb⟩
  · exact .inr hold

theorem Written.add {a : ApprovalRow} (h : Written e m)
    (ha : (∃ n, a.id = .uuid n ∧ e.nextUuid ≤ n ∧ n < m.nextUuid ∧ Blank a) ∨
      ∃ prev ∈ e.db.approvals, a.id = prev.id ∧ Marks prev a)
    (hok : insertApproval m a = .ok m') : Written e m' := by
  obtain ⟨_, _, rfl⟩ := insertApproval_ok hok
  refine ⟨h.later, ?_⟩
  intro r hr
  rcases mem_concat.mp hr with hr | rfl
  · exact h.rows r hr
  · exact ha

variable {taskId : RowId}

theorem Written.blank {scope : ApprovalScope} {solicitation : Option ScheduleSpec}
    {deadline : Option Instant} {policy : Option RejectionPolicy} (h : Written e m)
    (hok : insertApproval (m.tookIds 1) (blankApproval m taskId scope solicitation deadline policy) =
      .ok m') : Written e m' := by
  have h₁ : Written e (m.tookIds 1) := h.keep rfl (Nat.le_add_right _ _)
  exact h₁.add (.inl ⟨m.nextUuid, rfl, h.later, Nat.lt_succ_self _, rfl, rfl⟩) hok

variable {ids : Record RowId}

theorem Written.dependencies {t : TaskSpec}
    (h : Written e m) (hok : t.dependsOn.foldlM (insertSpecDependency ids t taskId) m = .ok m') :
    Written e m' := by
  obtain ⟨rows, n, rfl, _, _⟩ := dependencies_ok hok
  exact h.keep (List.append_nil _) (Nat.le_add_right _ _)

theorem Written.deleted {tasks : List TaskRow} (h : Written e m)
    (hok : tasks.foldlM (fun e t => deleteTask e t.id) m = .ok m') : Written e m' := by
  refine foldlM_keeps (P := Written e) hok h ?_
  intro a t b _ hstep ha
  obtain ⟨_, _, _, rfl⟩ := deleteTask_ok hstep
  exact ha.keep rfl (Nat.le_refl _)

theorem Written.parents {tasks : List TaskSpec} (h : Written e m)
    (hok : tasks.foldlM (setParentOf ids) m = .ok m') : Written e m' := by
  refine foldlM_keeps (P := Written e) hok h ?_
  intro a t b _ hstep ha
  rcases setParentOf_ok hstep with rfl | ⟨id, parent, _, rfl⟩
  · exact ha
  · exact ha.keep rfl (Nat.le_refl _)

variable {spec : WorkflowSpec}

/-- What carries an approval over keeps its solicitation, or stamps it. -/
theorem marks_carried {prev blank : ApprovalRow} {opened : Option String} {newHash : String} :
    (carriedApproval m prev blank opened newHash).id = prev.id ∧
      Marks prev (carriedApproval m prev blank opened newHash) := by
  cases opened with
  | none => exact ⟨rfl, .inl rfl⟩
  | some old =>
    simp only [carriedApproval]
    by_cases hh : newHash = old
    · rw [if_pos hh]
      exact ⟨rfl, .inl rfl⟩
    · rw [if_neg hh]
      exact ⟨rfl, .inr (.inr (Option.some_ne_none _))⟩

/-- A task's sidecars bring a blank approval, or carry over one of the snapshot's. -/
theorem Written.sidecars {t : TaskSpec} (h : Written e m)
    (hsnap : ∀ ap ∈ snap.db.approvals, ap ∈ e.db.approvals)
    (hok : applySidecars host snap spec ids m t = .ok m') : Written e m' := by
  rw [applySidecars] at hok
  split at hok
  · rw [← Except.ok.inj hok]
    exact h
  obtain ⟨m₁, hdeps, hok⟩ := bind_ok.mp hok
  have h₁ := h.dependencies hdeps
  cases hb : t.body with
  | approval scope solicitation deadline policy =>
    rw [hb] at hok
    obtain ⟨d, _, hok⟩ := bind_ok.mp hok
    cases hprev : approvalByKey snap t.key with
    | none =>
      rw [hprev] at hok
      exact h₁.blank hok
    | some prev =>
      rw [hprev] at hok
      exact h₁.add (.inr ⟨prev, hsnap _ (mem_of_approvalByKey hprev), marks_carried⟩) hok
  | agentTask | manual | notification | wait | checkpoint =>
    rw [hb] at hok
    rw [← Except.ok.inj hok]
    exact h₁

theorem Written.insertSpecRows {frozen : Record FrozenTaskTuple}
    (h : Written e m) (hok : insertSpecRows host spec frozen m = .ok m') : Written e m' := by
  rw [WfStore.insertSpecRows] at hok
  obtain ⟨resolved, _, hok⟩ := bind_ok.mp hok
  obtain ⟨m₁, h₁, hok⟩ := bind_ok.mp hok
  obtain ⟨m₂, h₂, h₃⟩ := bind_ok.mp hok
  have hw₁ : Written e m₁ := by
    refine foldlM_keeps (P := Written e) h₁ (h.keep rfl (Nat.le_add_right _ _)) ?_
    intro a t b _ hstep ha
    rcases insertSpecTask_ok hstep with ⟨_, rfl⟩ | ⟨id, _, hins⟩
    · exact ha
    · obtain ⟨_, _, rfl⟩ := insertTask_ok hins
      exact ha.keep rfl (Nat.le_refl _)
  refine foldlM_keeps (P := Written e) h₃ (hw₁.parents h₂) ?_
  intro a t b _ hstep ha
  have hnone : approvalByKey (emptyEngine a.db.workflow a.clock) t.key = none := rfl
  rw [insertSidecars_eq spec hnone] at hstep
  exact ha.sidecars (fun ap hap => absurd hap List.not_mem_nil) hstep

theorem Written.diffApplySpecRows {windows : Record FrozenTaskTuple}
    (hn : snap.nextUuid ≤ m.nextUuid) (hok : diffApplySpecRows host spec windows snap m = .ok m') :
    Written snap m' := by
  rw [WfStore.diffApplySpecRows] at hok
  obtain ⟨resolved, _, hok⟩ := bind_ok.mp hok
  obtain ⟨_, _, hok⟩ := bind_ok.mp hok
  obtain ⟨_, _, hok⟩ := bind_ok.mp hok
  obtain ⟨m₁, h₁, hok⟩ := bind_ok.mp hok
  obtain ⟨m₂, h₂, hok⟩ := bind_ok.mp hok
  obtain ⟨m₃, h₃, h₄⟩ := bind_ok.mp hok
  have hstart : Written snap { m with db := { m.db with deps := [], approvals := [] } } :=
    ⟨hn, fun r hr => absurd hr List.not_mem_nil⟩
  have hw₁ := hstart.deleted h₁
  have hw₂ : Written snap m₂ := by
    refine foldlM_keeps (P := Written snap) h₂ (hw₁.keep rfl (Nat.le_add_right _ _)) ?_
    intro a t b _ hstep ha
    rcases applySpecTask_ok hstep with ⟨_, rfl⟩ | ⟨id, _, ⟨s, _, rfl⟩ | ⟨_, hins⟩⟩
    · exact ha
    · exact ha.keep rfl (Nat.le_refl _)
    · obtain ⟨_, _, rfl⟩ := insertTask_ok hins
      exact ha.keep rfl (Nat.le_refl _)
  refine foldlM_keeps (P := Written snap) h₄ (hw₂.parents h₃) ?_
  intro a t b _ hstep ha
  exact ha.sidecars (fun _ hap => hap) hstep

theorem Written.old (hold : ApprovalsOld e) (h : Written e m) : ApprovalsOld m := by
  intro r hr n hid
  rcases h.rows r hr with ⟨k, hk, _, hlt, _⟩ | ⟨prev, hprev, heq, _⟩
  · rw [hk] at hid
    rw [← RowId.uuid.inj hid]
    exact hlt
  · exact Nat.lt_of_lt_of_le (hold prev hprev n (heq.symm.trans hid)) h.later

theorem Written.traced (hold : ApprovalsOld e) (h : Written e m) : Traced e m := by
  intro r hr
  rcases h.rows r hr with ⟨k, hk, hle, _, hb⟩ | hprev
  · refine .inr ⟨hb, ?_⟩
    intro a ha haid
    have hlt := hold a ha k (haid.trans hk)
    omega
  · exact .inl hprev

/-! ## A foreach pass -/

/-- What a pass adds: blank rows, under derived ids. -/
def Grown (cur m : Engine) : Prop :=
  ∃ rows, m.db.approvals = cur.db.approvals ++ rows ∧
    ∀ r ∈ rows, Blank r ∧ ∃ text, r.id = .derived text

theorem Grown.of_eq (h : Grown cur m) (heq : m'.db.approvals = m.db.approvals) : Grown cur m' := by
  obtain ⟨rows, hrows, hnew⟩ := h
  exact ⟨rows, heq.trans hrows, hnew⟩

theorem childApproval_id {childId : RowId} {type : TaskType} {tmpl : Json}
    {a : ChildApprovalInsert} (h : childApproval host childId type tmpl = some a) :
    ∃ text, a.id = .derived text := by
  unfold childApproval at h
  split at h
  · split at h
    · rw [← Option.some.inj h]
      exact ⟨_, rfl⟩
    · cases h
  · cases h

theorem Grown.batch {plans : List ChildPlan} {args : MaterializeForeachInput} (h : Grown cur m)
    (hmat : materializeForeachChildren host args = .ok plans)
    (hok : persistChildPlans now plans m = .ok m') : Grown cur m' := by
  obtain ⟨rows, hrows, hnew⟩ := h
  refine ⟨rows ++ batchApprovals m plans, ?_, ?_⟩
  · rw [persistChildPlans_approvals hok, hrows, List.append_assoc]
  · intro r hr
    rcases List.mem_append.mp hr with hr | hr
    · exact hnew r hr
    rw [batchApprovals, List.mem_filterMap] at hr
    obtain ⟨p, hp, hap⟩ := hr
    obtain ⟨a, ha, rfl⟩ := Option.map_eq_some_iff.mp hap
    refine ⟨⟨rfl, rfl⟩, ?_⟩
    obtain ⟨i, hi⟩ := List.mem_iff_getElem?.mp hp
    obtain ⟨items, stables, hitems, _, hlen, _, hkeys⟩ := WfFanoutRows.materialize_batch hmat
    have hlen' : plans.length = items.length := by
      have hl := congrArg List.length hkeys
      rw [List.length_map, List.length_map] at hl
      exact hl.trans hlen
    have hilt : i < items.length := by
      rw [← hlen']
      exact (List.getElem?_eq_some_iff.mp hi).1
    obtain ⟨_, _, happ⟩ := materialize_get hmat hitems hi (List.getElem?_eq_getElem hilt)
    rw [happ] at ha
    exact childApproval_id ha

private theorem handleIdleParent_grown {taskKeys : List String} {parent source : TaskRow}
    {fe : ForeachConfig} (h : Grown cur m)
    (hok : handleIdleParent host now taskKeys m parent source fe = .ok m') : Grown cur m' := by
  rw [handleIdleParent] at hok
  cases hs : source.status with
  | succeeded =>
    rw [hs] at hok
    simp only at hok
    split at hok
    · rw [← Except.ok.inj hok]
      exact h.of_eq rfl
    · rw [← Except.ok.inj hok]
      exact h.of_eq rfl
    · rename_i plans _ hplans
      obtain ⟨m₁, h₁, heq⟩ := bind_ok.mp hok
      rw [← Except.ok.inj heq]
      exact (h.batch hplans h₁).of_eq rfl
  | failed =>
    rw [hs] at hok
    simp only at hok
    split at hok
    · rw [← Except.ok.inj hok]
      exact h.of_eq rfl
    · rw [← Except.ok.inj hok]
      exact h.of_eq rfl
  | skipped =>
    rw [hs] at hok
    rw [← Except.ok.inj hok]
    exact h.of_eq rfl
  | idle | scheduled | pendingApproval | running | cancelled =>
    rw [hs] at hok
    rw [← Except.ok.inj hok]
    exact h

theorem reconcileForeachParents_grown (snap cur : Engine) :
    Grown cur (reconcileForeachParents host now snap cur) := by
  have hrefl : Grown cur cur := ⟨[], (List.append_nil _).symm, fun r hr => absurd hr List.not_mem_nil⟩
  rw [reconcileForeachParents]
  split
  · exact hrefl
  cases hrun : snap.db.tasks.foldlM (reconcileForeachParent host now snap.db.tasks) cur with
  | error err => exact hrefl
  | ok m =>
    refine foldlM_keeps (P := Grown cur) hrun hrefl ?_
    intro a parent b _ hab ha
    rw [reconcileForeachParent] at hab
    split at hab
    · rw [← Except.ok.inj hab]
      exact ha
    split at hab
    · rw [← Except.ok.inj hab]
      exact ha.of_eq rfl
    split at hab
    · exact handleIdleParent_grown ha hab
    · rw [← Except.ok.inj hab]
      exact ha.of_eq (handleRunningParent_approvals _ _ _)
    · rw [← Except.ok.inj hab]
      exact ha

theorem Grown.old (hold : ApprovalsOld cur) (hn : cur.nextUuid ≤ m.nextUuid) (h : Grown cur m) :
    ApprovalsOld m := by
  obtain ⟨rows, hrows, hnew⟩ := h
  intro r hr n hid
  rw [hrows] at hr
  rcases List.mem_append.mp hr with hr | hr
  · exact Nat.lt_of_lt_of_le (hold r hr n hid) hn
  · obtain ⟨_, text, htext⟩ := hnew r hr
    rw [htext] at hid
    cases hid

theorem Grown.traced (hids : (m.db.approvals.map ApprovalRow.id).Nodup) (h : Grown cur m) :
    Traced cur m := by
  obtain ⟨rows, hrows, hnew⟩ := h
  intro r hr
  rw [hrows] at hr
  rcases List.mem_append.mp hr with hr | hr
  · exact .inl ⟨r, hr, rfl, .inl rfl⟩
  · refine .inr ⟨(hnew r hr).1, ?_⟩
    intro a ha haid
    rw [hrows, List.map_append] at hids
    exact (List.nodup_append.mp hids).2.2 _ (List.mem_map_of_mem ha) _ (List.mem_map_of_mem hr) haid

/-! ## The passes on approvals -/

variable {f : ApprovalRow → ApprovalRow} {p : ApprovalRow → Bool}

theorem Marked.update
    (hid : ∀ a, (f a).id = a.id) (hf : ∀ a, Marks a (f a)) : Marked e (e.updateApprovals p f) := by
  intro a' ha'
  obtain ⟨a, ha, rfl⟩ := mem_updateWhere.mp ha'
  refine ⟨a, ha, ?_, ?_⟩
  · split
    · exact hid a
    · rfl
  · split
    · exact hf a
    · exact .inl rfl

theorem Marked.stamp (h : Marked cur m) (hid : ∀ a, (f a).id = a.id)
    (hf : ∀ a, (f a).solicitedAt ≠ none ∨ (f a).invalidatedAt ≠ none) :
    Marked cur (m.updateApprovals p f) := by
  intro a'' ha''
  obtain ⟨a', ha', rfl⟩ := mem_updateWhere.mp ha''
  obtain ⟨a, ha, haid, hm⟩ := h a' ha'
  refine ⟨a, ha, ?_, ?_⟩
  · split
    · exact (hid a').trans haid
    · exact haid
  · split
    · exact .inr (hf a')
    · exact hm

theorem invalidateStaleApprovals_marked (snap cur : Engine) :
    Marked cur (invalidateStaleApprovals host now snap cur) :=
  invalidateStaleApprovals_rec (Marked.of_eq rfl) fun _ _ _ hm =>
    hm.stamp (fun _ => rfl) (fun _ => .inr (Option.some_ne_none _))

theorem solicitApprovals_marked (snap cur : Engine) :
    Marked cur (solicitApprovals host now snap cur) :=
  solicitApprovals_rec (Marked.of_eq rfl) fun _ _ _ _ hm =>
    hm.stamp (fun _ => rfl) (fun _ => .inl (Option.some_ne_none _))

theorem cancelWorkflow_marked (snap cur : Engine) : Marked cur (cancelWorkflow snap cur) := by
  rw [cancelWorkflow]
  split
  · exact Marked.of_eq rfl
  · split
    · exact Marked.update (e := cancelTasks (cur.setWorkflowStatus _ .cancelled)) (fun _ => rfl)
        (fun _ => .inr (.inr (Option.some_ne_none _)))
    · exact Marked.of_eq rfl

/-- What an operation makes of the rows, when it reads and writes them as they are. -/
theorem updateWorkflowDraftSpec_approvals (hold : ApprovalsOld e) {input : UpdateInput}
    (hcur : Interfered e cur) : ApprovalsOld (updateWorkflowDraftSpec host input e cur).engine ∧
      Traced e (updateWorkflowDraftSpec host input e cur).engine := by
  rcases updateWorkflowDraftSpec_cases host input e cur with
    ⟨reason, heq⟩ | ⟨m, heq, htx, _, _, _⟩
  · have hmarked : Marked e cur := Marked.of_eq hcur.approvals
    rw [heq]
    exact ⟨hmarked.old hold (Nat.le_of_eq hcur.nextUuid.symm), hmarked.traced⟩
  rw [heq]
  rw [editTransaction] at htx
  obtain ⟨target, _, htx⟩ := bind_ok.mp htx
  have hn : e.nextUuid ≤ (editWorkflowRow cur input target).nextUuid :=
    Nat.le_of_eq hcur.nextUuid.symm
  have hw : Written e m := by
    by_cases hpaused : cur.db.workflow.status = .paused
    · rw [if_pos hpaused] at htx
      exact Written.diffApplySpecRows hn htx
    rw [if_neg hpaused] at htx
    rw [replaceDraftRows] at htx
    obtain ⟨m₁, hdel, hins⟩ := bind_ok.mp htx
    have hstart : Written e { editWorkflowRow cur input target with
        db := { (editWorkflowRow cur input target).db with approvals := [] } } :=
      ⟨hn, fun r hr => absurd hr List.not_mem_nil⟩
    exact (hstart.deleted hdel).insertSpecRows hins
  exact ⟨hw.old hold, hw.traced hold⟩

/-- **A step on the approvals.** -/
theorem approvals_step (hsound : Sound e) (hold : ApprovalsOld e) (hok : Validated host e op) :
    ApprovalsOld (step host e op) ∧ Traced e (step host e op) := by
  have hinv := hsound.1
  have hinv' := (sound_step hsound hok).1
  have hpath : ∀ between, RowPath e (interfere e between) :=
    fun between => (interfered_interfere hinv between).path
  have hbetween : ∀ between m, Marked (interfere e between) m → Marked e m := by
    intro between m h a' ha'
    obtain ⟨a, ha, hrest⟩ := h a' ha'
    rw [(interfered_interfere hinv between).approvals] at ha
    exact ⟨a, ha, hrest⟩
  have hmarked : ∀ m, Path e m → Marked e m → ApprovalsOld m ∧ Traced e m :=
    fun m hp hm => ⟨hm.old hold (Path.nextUuid_le hp), hm.traced⟩
  have hframe : ∀ m, RowPath e m → ApprovalsOld m ∧ Traced e m :=
    fun m hp => hmarked m hp.path (Marked.of_eq (RowPath.frame hp).approvals)
  have hcloses : ∀ m, Closes e m → Marked e m → ApprovalsOld m ∧ Traced e m := by
    rintro m (hp | ⟨n, hp, hc⟩) hm
    · exact hframe m hp
    · refine ⟨hm.old hold ?_, hm.traced⟩
      have hn : m.nextUuid = n.nextUuid := by rw [hc.row]
      rw [hn]
      exact Path.nextUuid_le hp
  cases op with
  | lockFree op => exact hframe _ (interfered_step hinv op).path
  | pollRead => exact hframe _ (pollRead_path e)
  | pollSettle now items => exact hframe _ (pollSettle_path hinv items)
  | foreachPass now between =>
    have hgrown : Grown e (step host e (.foreachPass now between)) := by
      have hpass : Grown (interfere e between)
          (reconcileForeachParents host now e (interfere e between)) :=
        reconcileForeachParents_grown e _
      obtain ⟨rows, hrows, hnew⟩ := hpass
      rw [(interfered_interfere hinv between).approvals] at hrows
      exact ⟨rows, hrows, hnew⟩
    have hp : Path e (step host e (.foreachPass now between)) :=
      reconcileForeachParents_path hinv hsound.2 (hpath between).path
    exact ⟨hgrown.old hold (Path.nextUuid_le hp), hgrown.traced hinv'.linked.approval_ids⟩
  | rejectedPolicies between =>
    exact hcloses _ (applyRejectedApprovalPolicies_closes hinv (hpath between))
      (hbetween between _ (Marked.of_eq (applyRejectedApprovalPolicies_asks e _).1))
  | invalidate now between =>
    exact hmarked _ (invalidateStaleApprovals_path (hpath between).path)
      (hbetween between _ (invalidateStaleApprovals_marked e _))
  | claim now between => exact hframe _ (claimReadyTasks_path hinv (hpath between))
  | record now results => exact hframe _ (recordOutcomes_path hinv results)
  | finalize between =>
    exact hcloses _ (finalizeWorkflow_closes hinv (interfered_interfere hinv between))
      (hbetween between _ (Marked.of_eq (finalizeWorkflow_asks e _).1))
  | solicit now between =>
    exact hmarked _ (solicitApprovals_path (hpath between).path)
      (hbetween between _ (solicitApprovals_marked e _))
  | cancel between =>
    exact hcloses _ (cancelWorkflow_closes (hpath between))
      (hbetween between _ (cancelWorkflow_marked e _))
  | decide id decidedBy decision rp reason =>
    exact hmarked _ (decideWorkflowApproval_path id decidedBy decision rp reason)
      (Marked.update (fun _ => rfl) (fun _ => .inl rfl))
  | edit input between =>
    exact updateWorkflowDraftSpec_approvals hold (interfered_interfere hinv between)

theorem approvalsOld_created (h : Created host e) : ApprovalsOld e := by
  obtain ⟨workflowId, name, spec, clock, _, hok⟩ := h
  obtain ⟨workflow, _, hins⟩ := createWorkflowFromSpec_ok hok
  have hstart : Written (emptyEngine workflow clock) (emptyEngine workflow clock) :=
    ⟨Nat.le_refl _, fun r hr => absurd hr List.not_mem_nil⟩
  exact (hstart.insertSpecRows hins).old (fun a ha => absurd ha List.not_mem_nil)

theorem approvalsOld_reachable (h : Reachable host e) : ApprovalsOld e :=
  (Machine.Reaches.invariant (I := fun e => Sound e ∧ ApprovalsOld e)
    (fun _ hc => ⟨sound_created hc, approvalsOld_created hc⟩)
    (fun _ _ hs hok => ⟨sound_step hs.1 hok, (approvals_step hs.1 hs.2 hok).1⟩) h).2

end WfApprovalRows
