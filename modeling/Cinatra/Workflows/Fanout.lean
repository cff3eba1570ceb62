import Cinatra.Lib.Loop
import Cinatra.Workflows.Closing

/-! # Fanout — the foreach pass as acts

    A committed pass is a path: every insert has checked its constraint, a parent
    is moved by a compare-and-set on the row read, and what cancels children or
    settles a parent filters on the row's own status. -/

namespace WfFanout

open Loop JsonValue WfTransitions WfSpec WfRows WfHost WfState
open WfForeach WfForeachReconciler WfActs WfInvariant WfPaths

variable {e cur m : Engine} {now : Instant} {host : Host}

/-- What every plan of a batch is: a child of the parent, under a derived id, that is
    no foreach parent itself. -/
structure Planned (args : MaterializeForeachInput) (p : ChildPlan) : Prop where
  plain : p.cols.foreachConfig = none
  derived : ∃ text, p.id = .derived text
  parent : p.parentTaskId = args.parentId

variable {args : MaterializeForeachInput} {p : ChildPlan} {known : String → Bool}

private theorem childPlan_planned {total i : Nat} {stable : String} {item : Json}
    (h : childPlan host args known total i stable item = .ok p) : Planned args p := by
  rw [childPlan] at h
  obtain ⟨deps, _, hp⟩ := bind_ok.mp h
  have hp' := Except.ok.inj hp
  rw [← hp']
  exact ⟨rfl, ⟨_, rfl⟩, rfl⟩

private theorem childPlans_planned {total : Nat} (stables : List String) :
    ∀ (i : Nat) (items : List Json) (plans : List ChildPlan),
      childPlans host args known total i stables items = .ok plans →
      ∀ p ∈ plans, Planned args p := by
  induction stables with
  | nil =>
    intro i items plans h p hp
    cases items with
    | nil | cons => rw [← Except.ok.inj h] at hp; exact absurd hp List.not_mem_nil
  | cons stable stables ih =>
    intro i items plans h p hp
    cases items with
    | nil => rw [← Except.ok.inj h] at hp; exact absurd hp List.not_mem_nil
    | cons item items =>
      rw [childPlans] at h
      obtain ⟨plan, hplan, hrest⟩ := bind_ok.mp h
      obtain ⟨rest, hrest, heq⟩ := bind_ok.mp hrest
      rw [← Except.ok.inj heq] at hp
      rcases List.mem_cons.mp hp with rfl | hp
      · exact childPlan_planned hplan
      · exact ih _ _ _ hrest p hp

variable {plans : List ChildPlan}

/-- The items of a source's output. -/
def sourceItems (output : Option Json) : Option (List Json) :=
  (output.bind (Json.field? "items")).bind Json.arr?

theorem materialize_ok (h : materializeForeachChildren host args = .ok plans) :
    ∃ items stables known, sourceItems args.sourceOutput = some items ∧
      stableIds host args.foreachConfig args.parentKey 0 [] items = .ok stables ∧
      childPlans host args known items.length 0 stables items = .ok plans := by
  rw [materializeForeachChildren] at h
  split at h
  · cases h
  rename_i items hitems
  simp only at h
  split at h
  · cases h
  · obtain ⟨stables, hstables, hplans⟩ := bind_ok.mp h
    exact ⟨items, stables, _, hitems, hstables, hplans⟩

/-- Every plan of a batch is a plain child of the parent. -/
theorem materialize_planned
    (h : materializeForeachChildren host args = .ok plans) : ∀ p ∈ plans, Planned args p := by
  obtain ⟨_, _, _, _, _, hplans⟩ := materialize_ok h
  exact childPlans_planned _ _ _ _ hplans

/-! ## A batch is inserted -/

theorem insertChild_ok (h : insertChild now cur p = .ok m) :
    (m = cur ∧ ∃ t ∈ cur.db.tasks, t.key = p.key) ∨
    ((∀ t ∈ cur.db.tasks, t.key ≠ p.key) ∧ (∀ t ∈ cur.db.tasks, t.id ≠ p.id) ∧
      m = { cur with
        db := { cur.db with tasks := cur.db.tasks ++ [childRow cur p] }
        fannedOut := cur.fannedOut ++ [⟨p.parentTaskId, p.id, now⟩] }) := by
  have hnone : ∀ {q : TaskRow → Prop} [DecidablePred q],
      ¬ cur.db.tasks.any (fun t => q t) = true → ∀ t ∈ cur.db.tasks, ¬ q t := by
    intro q _ hnot t ht hq
    exact hnot (List.any_eq_true.mpr ⟨t, ht, decide_eq_true hq⟩)
  rw [insertChild] at h
  split at h
  · rename_i hkey
    obtain ⟨t, ht, hkey⟩ := List.any_eq_true.mp hkey
    exact .inl ⟨(Except.ok.inj h).symm, t, ht, of_decide_eq_true hkey⟩
  split at h
  · cases h
  · rename_i hkey hid
    exact .inr ⟨hnone hkey, hnone hid, (Except.ok.inj h).symm⟩

/-- Inserting a child is an act, or nothing. -/
private theorem insertChild_path
    (hp : Planned args p) (hlive : Live cur.db.workflow.status) (hpath : Path e cur)
    (h : insertChild now cur p = .ok m) : Path e m := by
  rcases insertChild_ok h with ⟨rfl, -⟩ | ⟨hkey, hid, rfl⟩
  · exact hpath
  refine hpath.tail (Act.child (childRow cur p) ⟨p.parentTaskId, p.id, now⟩
    ⟨hid, hkey, ?_, rfl, hp.plain⟩ hlive)
  intro n hn
  obtain ⟨text, htext⟩ := hp.derived
  have hn' : p.id = .uuid n := hn
  rw [htext] at hn'
  cases hn'

theorem hasTask_iff {id : RowId} : hasTask cur id = true ↔ ∃ t ∈ cur.db.tasks, t.id = id := by
  rw [hasTask, List.any_eq_true]
  constructor
  · rintro ⟨t, ht, hid⟩
    exact ⟨t, ht, of_decide_eq_true hid⟩
  · rintro ⟨t, ht, hid⟩
    exact ⟨t, ht, decide_eq_true hid⟩

/-- An edge goes in between tasks that are there. -/
theorem insertDependency_ok {d : DependencyRow} (h : insertDependency cur d = .ok m) :
    (∃ t ∈ cur.db.tasks, t.id = d.taskId) ∧ (∃ t ∈ cur.db.tasks, t.id = d.dependsOnTaskId) ∧
      m = { cur with db := { cur.db with deps := cur.db.deps ++ [d] } } := by
  rw [insertDependency] at h
  split at h
  · cases h
  split at h
  · cases h
  · rename_i _ hfk
    rw [Bool.or_eq_true, Bool.not_eq_true', Bool.not_eq_true', not_or, Bool.not_eq_false,
      Bool.not_eq_false] at hfk
    exact ⟨hasTask_iff.mp hfk.1, hasTask_iff.mp hfk.2, (Except.ok.inj h).symm⟩

theorem insertApproval_ok {a : ApprovalRow} (h : insertApproval cur a = .ok m) :
    (∀ r ∈ cur.db.approvals, r.id ≠ a.id) ∧ (∃ t ∈ cur.db.tasks, t.id = a.taskId) ∧
      m = { cur with db := { cur.db with approvals := cur.db.approvals ++ [a] } } := by
  rw [insertApproval] at h
  by_cases hid : cur.db.approvals.any (fun r => r.id = a.id) = true
  · rw [if_pos hid] at h
    cases h
  rw [if_neg hid] at h
  by_cases hfk : (!hasTask cur a.taskId) = true
  · rw [if_pos hfk] at h
    cases h
  rw [if_neg hfk] at h
  rw [Bool.not_eq_true', Bool.not_eq_false] at hfk
  refine ⟨?_, hasTask_iff.mp hfk, (Except.ok.inj h).symm⟩
  intro r hr hrid
  exact hid (List.any_eq_true.mpr ⟨r, hr, decide_eq_true hrid⟩)

theorem insertChildDependency_ok {childId : RowId} {dep : ChildDependencyInsert}
    (h : insertChildDependency plans childId cur dep = .ok m) :
    m = cur ∨ ∃ d : DependencyRow, (∃ t ∈ cur.db.tasks, t.id = d.taskId) ∧
      (∃ t ∈ cur.db.tasks, t.id = d.dependsOnTaskId) ∧
      m = { cur with db := { cur.db with deps := cur.db.deps ++ [d] } } := by
  rw [insertChildDependency] at h
  split at h
  · exact .inl (Except.ok.inj h).symm
  · exact .inr ⟨_, insertDependency_ok h⟩

theorem insertChildApproval_ok (h : insertChildApproval cur p = .ok m) :
    (p.approval = none ∧ m = cur) ∨ ∃ a, p.approval = some a ∧
      (∀ r ∈ cur.db.approvals, r.id ≠ a.id) ∧ (∃ t ∈ cur.db.tasks, t.id = p.id) ∧
      m = { cur with db := { cur.db with
        approvals := cur.db.approvals ++ [childApprovalRow cur p.id a] } } := by
  rw [insertChildApproval] at h
  split at h
  · rename_i ha
    exact .inl ⟨ha, (Except.ok.inj h).symm⟩
  · rename_i a ha
    exact .inr ⟨a, ha, insertApproval_ok h⟩

private theorem insertChildDependency_path {childId : RowId}
    {dep : ChildDependencyInsert} (hpath : Path e cur)
    (h : insertChildDependency plans childId cur dep = .ok m) : Path e m := by
  rcases insertChildDependency_ok h with rfl | ⟨_, ht, hu, rfl⟩
  · exact hpath
  · exact hpath.tail (Act.dependency _ ht hu)

private theorem insertChildApproval_path (hpath : Path e cur)
    (h : insertChildApproval cur p = .ok m) : Path e m := by
  rcases insertChildApproval_ok h with ⟨-, rfl⟩ | ⟨_, _, hid, ht, rfl⟩
  · exact hpath
  · exact hpath.tail (Act.approval _ hid ht)

/-- **Persisting the batch is a path.** -/
theorem persistChildPlans_path
    (hplans : ∀ p ∈ plans, Planned args p) (hlive : Live e.db.workflow.status)
    (hpath : Path e cur) (h : persistChildPlans now plans cur = .ok m) : Path e m := by
  rw [persistChildPlans] at h
  obtain ⟨m₁, h₁, h⟩ := bind_ok.mp h
  obtain ⟨m₂, h₂, h₃⟩ := bind_ok.mp h
  have hp₁ : Path e m₁ := by
    refine foldlM_keeps (P := fun m => Path e m) h₁ hpath ?_
    exact fun a p b hp hab ha => insertChild_path (hplans p hp) (Path.live ha hlive) ha hab
  have hp₂ : Path e m₂ := by
    refine foldlM_keeps (P := fun m => Path e m) h₂ hp₁ ?_
    intro a p b _ hab ha
    refine foldlM_keeps (P := fun m => Path e m) hab ha ?_
    exact fun a' d b' _ hab' ha' => insertChildDependency_path ha' hab'
  refine foldlM_keeps (P := fun m => Path e m) h₃ hp₂ ?_
  exact fun a p b _ hab ha => insertChildApproval_path ha hab

variable {parent : TaskRow} {f : TaskRow → TaskRow}

private theorem setParent_path (hinv : Inv e) (hpath : Path e cur)
    (hparent : parent ∈ e.db.tasks)
    (hf : ∀ t, Copy parent t → (f t).id = t.id ∧ definition (f t) = definition t ∧
      (f t).parentTaskId = t.parentTaskId ∧ StatusMove cur t
        { f t with lockVersion := t.lockVersion + 1, updatedAt := cur.clock }) :
    Path e (setParent cur parent f) := by
  refine hpath.tail (Act.row (((loaded_self e).path hinv hpath).cas (hinv.path hpath).keyed hparent
    ?_))
  intro t _ _ _ hcopy
  obtain ⟨hid, hdef, hpar, hmove⟩ := hf t hcopy
  exact ⟨hid, hdef, hpar, Nat.lt_succ_self _, hmove⟩

private theorem finish_parent (hinv : Inv e) (hlive : Live e.db.workflow.status)
    (hpath : Path e cur) (hparent : parent ∈ e.db.tasks) (hidle : parent.status = .idle)
    (hf : ∀ t, (f t).id = t.id ∧ (f t).toTaskCols = t.toTaskCols ∧
      (f t).parentTaskId = t.parentTaskId ∧ isTerminalTaskStatus (f t).status = true) :
    Path e (setParent cur parent f) := by
  refine setParent_path hinv hpath hparent ?_
  intro t hcopy
  obtain ⟨hid, hcols, hpar, hterm⟩ := hf t
  refine ⟨hid, ?_, hpar, StatusMove.finish ?_ hterm ?_ (.inr (Path.live hpath hlive))⟩
  · rw [definition, definition, hcols]
  · rw [hcopy.status, hidle]
    rfl
  · exact congrArg TaskCols.dueAtUtc hcols

/-- A turn over an idle parent is a path. -/
theorem handleIdleParent_path (hinv : Inv e) (hlive : Live e.db.workflow.status)
    (hpath : Path e cur) {source : TaskRow} {fe : ForeachConfig} {taskKeys : List String}
    (hparent : parent ∈ e.db.tasks) (hidle : parent.status = .idle)
    (hfe : parent.foreachConfig = some fe)
    (h : handleIdleParent host now taskKeys cur parent source fe = .ok m) : Path e m := by
  have hskip : Path e (skipParent cur parent) :=
    finish_parent hinv hlive hpath hparent hidle (fun _ => ⟨rfl, rfl, rfl, rfl⟩)
  rw [handleIdleParent] at h
  cases hs : source.status with
  | succeeded =>
    rw [hs] at h
    simp only at h
    split at h
    · rw [← Except.ok.inj h]
      exact finish_parent hinv hlive hpath hparent hidle (fun _ => ⟨rfl, rfl, rfl, rfl⟩)
    · rw [← Except.ok.inj h]
      exact finish_parent hinv hlive hpath hparent hidle (fun _ => ⟨rfl, rfl, rfl, rfl⟩)
    rename_i plans _ hplans
    obtain ⟨m₁, h₁, heq⟩ := bind_ok.mp h
    have hp₁ := persistChildPlans_path (materialize_planned hplans) hlive hpath h₁
    rw [← Except.ok.inj heq]
    refine setParent_path hinv hp₁ hparent ?_
    intro t hcopy
    refine ⟨rfl, rfl, rfl, StatusMove.fanOut (hcopy.status.trans hidle) rfl rfl ?_
      (Path.live hp₁ hlive)⟩
    rw [foreachConfig_of_definition hcopy.definition, hfe]
    exact Option.some_ne_none _
  | failed =>
    rw [hs] at h
    simp only at h
    split at h
    · rw [← Except.ok.inj h]
      exact hskip
    · rw [← Except.ok.inj h]
      exact hpath
  | skipped =>
    rw [hs] at h
    rw [← Except.ok.inj h]
    exact hskip
  | idle | scheduled | pendingApproval | running | cancelled =>
    rw [hs] at h
    rw [← Except.ok.inj h]
    exact hpath

/-! ## A running parent -/

private theorem latchMetadata_path (hpath : Path e cur) (parent : TaskRow)
    (anyFailed anySucceeded : Bool) : Path e (latchMetadata cur parent anyFailed anySucceeded) := by
  rw [latchMetadata]
  split
  · exact hpath
  · refine hpath.tail (Act.row (RowAct.tasks _ _ ?_))
    intro t _ _
    exact ⟨rfl, rfl, rfl, Nat.lt_succ_self _, StatusMove.same rfl rfl⟩

private theorem cancelForeachChildren_path (hlive : Live e.db.workflow.status)
    (hpath : Path e cur) (parentId : RowId) (scope : CancelScope) :
    Path e (cancelForeachChildren cur parentId scope) := by
  refine hpath.tail (Act.row (RowAct.tasks _ _ ?_))
  intro t _ hp
  rw [Bool.and_eq_true] at hp
  refine ⟨rfl, rfl, rfl, Nat.lt_succ_self _, StatusMove.finish ?_ rfl rfl
    (.inr (Path.live hpath hlive))⟩
  have hmem := List.contains_iff_mem.mp hp.2
  cases scope with
  | pending | all =>
    cases hs : t.status <;> rw [hs] at hmem <;> first | rfl | exact absurd hmem (by decide)

private theorem rollupCancel_path (hlive : Live e.db.workflow.status) (hpath : Path e cur)
    (parentId : RowId) (policy : RollupPolicy) (anyFailed : Bool) :
    Path e (rollupCancel cur parentId policy anyFailed) := by
  cases anyFailed with
  | false => exact hpath
  | true =>
    cases policy with
    | anyFails => exact cancelForeachChildren_path hlive hpath parentId .pending
    | allOrNothing => exact cancelForeachChildren_path hlive hpath parentId .all
    | bestEffort => exact hpath

/-- A joined parent ends. -/
theorem finalStatus_terminal (policy : RollupPolicy) (anyFailed anySucceeded : Bool) :
    isTerminalTaskStatus (finalStatus policy anyFailed anySucceeded) = true := by
  cases policy <;> cases anyFailed <;> cases anySucceeded <;> rfl

private theorem settleParent_path (hpath : Path e cur) (parentId : RowId) {status : TaskStatus}
    (hterm : isTerminalTaskStatus status = true) : Path e (settleParent cur parentId status) := by
  refine hpath.tail (Act.row (RowAct.tasks _ _ ?_))
  intro t _ hp
  rw [Bool.and_eq_true, decide_eq_true_eq, decide_eq_true_eq] at hp
  refine ⟨rfl, rfl, rfl, Nat.lt_succ_self _, StatusMove.finish ?_ hterm rfl (.inl hp.2)⟩
  rw [hp.2]
  rfl

/-- So is one over a running parent. -/
theorem handleRunningParent_path (hlive : Live e.db.workflow.status) (hpath : Path e cur)
    (parent : TaskRow) (fe : ForeachConfig) (allTasks : List TaskRow) :
    Path e (handleRunningParent cur parent fe allTasks) := by
  simp only [handleRunningParent]
  split
  · exact hpath
  have hcancel := rollupCancel_path hlive (latchMetadata_path hpath parent
    ((allTasks.filter (fun t => t.parentTaskId = some parent.id)).any
      (fun c => c.status = .failed))
    ((allTasks.filter (fun t => t.parentTaskId = some parent.id)).any
      (fun c => c.status = .succeeded))) parent.id (fe.rollupPolicy.getD .anyFails)
    ((allTasks.filter (fun t => t.parentTaskId = some parent.id)).any
      (fun c => c.status = .failed))
  split
  · exact settleParent_path hcancel parent.id (finalStatus_terminal _ _ _)
  · exact hcancel

/-- **A turn over a parent is a path.** -/
theorem reconcileForeachParent_path (hinv : Inv e) (hsrc : SourcesKnown e)
    (hlive : Live e.db.workflow.status) (hpath : Path e cur) (hparent : parent ∈ e.db.tasks)
    (h : reconcileForeachParent host now e.db.tasks cur parent = .ok m) : Path e m := by
  rw [reconcileForeachParent] at h
  cases hfe : parent.foreachConfig with
  | none =>
    rw [hfe] at h
    rw [← Except.ok.inj h]
    exact hpath
  | some fe =>
    rw [hfe] at h
    -- the source is a task, so the branch that fails the parent is not taken
    obtain ⟨s, hs, hkey⟩ := hsrc parent hparent fe hfe
    have hfind : taskByKey e.db.tasks fe.source = some s := by
      rw [← hkey]
      exact taskByKey_eq_some hinv.keyed.keys hs
    simp only [hfind] at h
    cases hst : parent.status with
    | idle =>
      rw [hst] at h
      exact handleIdleParent_path hinv hlive hpath hparent hst hfe h
    | running =>
      rw [hst] at h
      rw [← Except.ok.inj h]
      exact handleRunningParent_path hlive hpath parent fe _
    | scheduled | pendingApproval | succeeded | failed | skipped | cancelled =>
      rw [hst] at h
      rw [← Except.ok.inj h]
      exact hpath

/-- **The foreach pass is a path**, committed or rolled back. -/
theorem reconcileForeachParents_path (hinv : Inv e) (hsrc : SourcesKnown e)
    (hpath : Path e cur) : Path e (reconcileForeachParents host now e cur) := by
  rw [reconcileForeachParents]
  by_cases hactive : e.db.workflow.status ≠ .active
  · rw [if_pos hactive]
    exact hpath
  rw [if_neg hactive]
  have hlive : Live e.db.workflow.status := .inl (not_not.mp hactive)
  cases hrun : e.db.tasks.foldlM (reconcileForeachParent host now e.db.tasks) cur with
  | error err => exact hpath
  | ok m =>
    refine foldlM_keeps (P := fun m => Path e m) hrun hpath ?_
    exact fun a parent b hparent hab ha =>
      reconcileForeachParent_path hinv hsrc hlive ha hparent hab

end WfFanout
