import Cinatra.Workflows.Editing

/-! # Revising — what a paused edit makes of the rows

    Once its checks have passed, the edit of a paused workflow drops every edge
    and approval, deletes the tasks the spec leaves out, updates or inserts one
    row for each spec task, and writes the spec's edges and approvals.  `Revised`
    says what the rows are then, task by task; what holds of a paused edit is
    read off it. -/

namespace WfRevising

open RowTable Loop JsonValue WfTransitions WfSpec WfRows WfHost WfSchedule WfReviewPacket WfState
open WfForeachReconciler WfStore WfValidate WfActs WfInvariant WfPaths
open WfInterference WfFanout WfEditing

variable {host : Host} {snap e m m' : Engine} {spec : WorkflowSpec}
  {resolved : Record ResolvedTask}

/-- The rows an edit writes are those it read, but for manual tasks completed
    meanwhile. -/
structure Reread (snap e : Engine) : Prop where
  read : Inv snap
  inv : Inv e
  rows : ∀ r ∈ e.db.tasks, r ∈ snap.db.tasks ∨
    (r.status = .succeeded ∧ ∃ s ∈ snap.db.tasks, Completed s r)
  all : ∀ s ∈ snap.db.tasks, ∃ r ∈ e.db.tasks, r.id = s.id
  attempts : e.db.attempts = snap.db.attempts
  artifacts : e.db.artifacts = snap.db.artifacts
  nextUuid : e.nextUuid = snap.nextUuid

theorem reread_of_interfered {cur : Engine} {input : UpdateInput} (target : Option Instant)
    (hinv : Inv snap) (hcur : Interfered snap cur)
    (hv : cur.db.workflow.lockVersion = input.expectedLockVersion) :
    Reread snap (editWorkflowRow cur input target) := by
  refine ⟨hinv, (hinv.path hcur.path.path).act (editWorkflowRow_act hv), hcur.tasks, ?_,
    hcur.attempts, hcur.artifacts, hcur.nextUuid⟩
  intro s hs
  obtain ⟨r, hr, hf⟩ := Path.follows hinv hcur.path.path s hs
  exact ⟨r, hr, hf.id⟩

/-- A row as an edit may find it, against the row it read. -/
structure Touched (s r : TaskRow) : Prop where
  key : r.key = s.key
  version : r.lockVersion ≤ s.lockVersion + 1
  status : r.status = s.status ∨ (s.status = .running ∧ r.status = .succeeded)

variable {s : TaskRow} {r : TaskRow}

theorem Reread.row (h : Reread snap e) (hs : s ∈ snap.db.tasks)
    (hr : r ∈ e.db.tasks) (hid : r.id = s.id) :
    r = s ∨ (r.status = .succeeded ∧ Completed s r) := by
  rcases h.rows r hr with hmem | ⟨hst, s', hs', hc⟩
  · exact .inl (eq_of_key h.read.keyed.ids hmem hs hid)
  · have hss : s' = s := eq_of_key h.read.keyed.ids hs' hs (hc.id.symm.trans hid)
    subst hss
    exact .inr ⟨hst, hc⟩

theorem Reread.touched (h : Reread snap e) (hs : s ∈ snap.db.tasks)
    (hr : r ∈ e.db.tasks) (hid : r.id = s.id) : Touched s r ∧ r.toTaskCols = s.toTaskCols := by
  rcases h.row hs hr hid with rfl | ⟨hst, hc⟩
  · exact ⟨⟨rfl, Nat.le_succ _, .inl rfl⟩, rfl⟩
  · refine ⟨⟨?_, Nat.le_of_eq hc.version, .inr ⟨hc.running, hst⟩⟩, hc.cols⟩
    show r.toTaskCols.key = s.toTaskCols.key
    rw [hc.cols]

/-! ## Frozen tasks -/

variable {id : RowId}

theorem hasEvidence_iff : hasEvidence snap id = true ↔
    Attempted snap id ∨ ∃ r ∈ snap.db.artifacts, r.taskId = id := by
  rw [hasEvidence, Bool.or_eq_true, List.any_eq_true, List.any_eq_true]
  constructor
  · rintro (⟨a, ha, h⟩ | ⟨r, hr, h⟩)
    · exact .inl ⟨a, ha, of_decide_eq_true h⟩
    · exact .inr ⟨r, hr, of_decide_eq_true h⟩
  · rintro (⟨a, ha, h⟩ | ⟨r, hr, h⟩)
    · exact .inl ⟨a, ha, decide_eq_true h⟩
    · exact .inr ⟨r, hr, decide_eq_true h⟩

variable {s : TaskRow}

theorem unfrozen (h : isFrozen snap s = false) : Waiting s ∧ hasEvidence snap s.id = false ∧
      (approvalByKey snap s.key).any approvalIsEvidence = false := by
  simp only [isFrozen, Bool.or_eq_false_iff, Bool.and_eq_false_iff, decide_eq_false_iff_not,
    not_not] at h
  exact ⟨h.1.2, h.1.1, h.2⟩

theorem unfrozen_unattempted (h : isFrozen snap s = false) : ¬ Attempted snap s.id := by
  intro ha
  have hev := hasEvidence_iff.mpr (.inl ha)
  rw [(unfrozen h).2.1] at hev
  cases hev

theorem frozen_of_status (h : ¬ Waiting s) : isFrozen snap s = true := by
  by_contra hf
  exact h (unfrozen (Bool.eq_false_of_not_eq_true hf)).1

/-- No lease and no manual completion holds a task that is not frozen. -/
theorem Reread.unheld (h : Reread snap e) (hs : s ∈ snap.db.tasks) (hf : isFrozen snap s = false) :
    (∀ l ∈ e.db.leases, l.taskId ≠ s.id) ∧ ∀ r ∈ e.manualReads, r.taskId ≠ s.id := by
  have hatt : ¬ Attempted e s.id := by
    rintro ⟨a, ha, hid⟩
    rw [h.attempts] at ha
    exact unfrozen_unattempted hf ⟨a, ha, hid⟩
  constructor
  · intro l hl hid
    exact hatt (hid ▸ lease_attempted h.inv hl)
  · intro r hr hid
    obtain ⟨t, ht, htid, _, _, hown⟩ := h.inv.carried.manual r hr
    rcases hown with ha | ⟨_, hw⟩
    · exact hatt (hid ▸ htid ▸ ha)
    rcases h.row hs ht (htid.trans hid) with rfl | ⟨_, hc⟩
    · exact hw (unfrozen hf).1
    · rcases (unfrozen hf).1 with hst | hst
      · rw [hc.running] at hst; cases hst
      · rw [hc.running] at hst; cases hst

theorem checkDelete_ok (h : checkDelete snap s = .ok ()) : isFrozen snap s = false := by
  rw [checkDelete] at h
  cases hf : isFrozen snap s with
  | false => rfl
  | true =>
    rw [hf] at h
    simp only [Bool.not_true, Bool.false_eq_true, if_false] at h
    split at h <;> cases h

/-- What the precheck has found of a frozen task. -/
structure Kept (host : Host) (snap : Engine) (resolved : Record ResolvedTask) (s : TaskRow)
    (t : TaskSpec) : Prop where
  identity : identityKept s.toTaskCols (buildCols resolved t) = true
  edges : edgesKept snap s t = true
  approval : ∀ scope solicitation deadline policy,
    t.body = .approval scope solicitation deadline policy →
    ∀ prev, approvalByKey snap t.key = some prev →
    approvalKept host prev scope solicitation deadline policy = .ok true

variable {t : TaskSpec}

theorem checkFrozen_ok (h : checkFrozen host snap resolved t = .ok ())
    (hs : taskByKey snap.db.tasks t.key = some s) (hf : isFrozen snap s = true) :
    Kept host snap resolved s t := by
  rw [checkFrozen, hs] at h
  simp only [hf, Bool.not_true, Bool.false_eq_true, if_false] at h
  by_cases hid : identityKept s.toTaskCols (buildCols resolved t) = true
  · rw [hid] at h
    simp only [Bool.not_true, Bool.false_eq_true, if_false] at h
    by_cases hed : edgesKept snap s t = true
    · rw [hed] at h
      simp only [Bool.not_true, Bool.false_eq_true, if_false] at h
      refine ⟨hid, hed, ?_⟩
      intro scope solicitation deadline policy hb prev hprev
      rw [hb, hprev] at h
      obtain ⟨b, hok, h⟩ := bind_ok.mp h
      cases b with
      | true => exact hok
      | false => cases h
    · rw [Bool.eq_false_of_not_eq_true hed] at h
      cases h
  · rw [Bool.eq_false_of_not_eq_true hid] at h
    cases h

theorem Kept.type (h : Kept host snap resolved s t) : s.type = t.body.type := by
  have hi := h.identity
  simp only [identityKept, Bool.and_eq_true, decide_eq_true_eq] at hi
  exact hi.1.1.1.1.1.1.1.1.1.1.1

/-! ## The ids of the spec's tasks -/

/-- The ids of an edit: a kept row's own, else a fresh one. -/
def editIds (snap e : Engine) (spec : WorkflowSpec) : Record RowId :=
  assignIds (fun k => (taskByKey snap.db.tasks k).map TaskRow.id) e.nextUuid spec.keys

section Ids

variable (hnd : spec.keys.Nodup)

include hnd

theorem editIds_kept (hk : Keyed snap) (hs : s ∈ snap.db.tasks)
    (hmem : s.key ∈ spec.keys) : lookup (editIds snap e spec) s.key = some s.id := by
  rw [editIds, lookup_assignIds _ hnd, if_pos hmem, taskByKey_eq_some hk.keys hs]
  rfl

variable {k : String}

theorem editIds_fresh (hnone : taskByKey snap.db.tasks k = none) (hmem : k ∈ spec.keys) :
    lookup (editIds snap e spec) k = some (.uuid (e.nextUuid + spec.keys.idxOf k)) := by
  rw [editIds, lookup_assignIds _ hnd, if_pos hmem, hnone]
  rfl

theorem editIds_known (h : lookup (editIds snap e spec) k = some id) : k ∈ spec.keys := by
  rw [editIds, lookup_assignIds _ hnd] at h
  by_contra hmem
  rw [if_neg hmem] at h
  cases h

theorem editIds_some (snap e : Engine) (hmem : k ∈ spec.keys) :
    ∃ id, lookup (editIds snap e spec) k = some id := by
  rw [editIds, lookup_assignIds _ hnd, if_pos hmem]
  exact ⟨_, rfl⟩

theorem editIds_cases (h : lookup (editIds snap e spec) k = some id) :
    (∃ s ∈ snap.db.tasks, s.key = k ∧ s.id = id) ∨
      (taskByKey snap.db.tasks k = none ∧ id = .uuid (e.nextUuid + spec.keys.idxOf k)) := by
  have hmem := editIds_known hnd h
  cases hrow : taskByKey snap.db.tasks k with
  | none =>
    rw [editIds_fresh hnd hrow hmem] at h
    exact .inr ⟨rfl, (Option.some.inj h).symm⟩
  | some s =>
    obtain ⟨hs, hkey⟩ := mem_of_taskByKey hrow
    rw [editIds, lookup_assignIds _ hnd, if_pos hmem, hrow] at h
    exact .inl ⟨s, hs, hkey, Option.some.inj h⟩

theorem editIds_injective (h : Reread snap e) {k' : String}
    (hk : lookup (editIds snap e spec) k = some id)
    (hk' : lookup (editIds snap e spec) k' = some id) : k = k' := by
  have hfresh : ∀ {s : TaskRow} {n : Nat}, s ∈ snap.db.tasks → s.id ≠ .uuid (e.nextUuid + n) := by
    intro s n hs he
    have := h.read.keyed.old s hs _ he
    have := h.nextUuid
    omega
  rcases editIds_cases hnd hk with ⟨s, hs, rfl, hid⟩ | ⟨_, hid⟩
  · rcases editIds_cases hnd hk' with ⟨s', hs', rfl, hid'⟩ | ⟨_, hid'⟩
    · rw [eq_of_key h.read.keyed.ids hs hs' (hid.trans hid'.symm)]
    · exact absurd (hid.trans hid') (hfresh hs)
  rcases editIds_cases hnd hk' with ⟨s', hs', rfl, hid'⟩ | ⟨_, hid'⟩
  · exact absurd (hid'.trans hid) (hfresh hs')
  have hidx : spec.keys.idxOf k = spec.keys.idxOf k' := by
    have := RowId.uuid.inj (hid.symm.trans hid')
    omega
  have hmem := editIds_known hnd hk
  have hmem' := editIds_known hnd hk'
  exact (List.idxOf_inj hmem).mp hidx

end Ids

/-! ## Tasks are updated or inserted -/

/-- The row of a kept task in the new spec. -/
def revisedRow (e : Engine) (s r : TaskRow) (cols : TaskCols) : TaskRow :=
  { r with toTaskCols := cols, lockVersion := s.lockVersion + 1, updatedAt := e.clock }

variable {ids : Record RowId}

theorem applySpecTask_ok (h : applySpecTask snap resolved ids m t = .ok m') :
    (lookup ids t.key = none ∧ m' = m) ∨ ∃ id, lookup ids t.key = some id ∧
      ((∃ s, taskByKey snap.db.tasks t.key = some s ∧ m' = m.updateTasks (fun r => r.id = id)
          (fun r => revisedRow m s r (buildCols resolved t))) ∨
        (taskByKey snap.db.tasks t.key = none ∧
          insertTask m (newTaskRow m id (buildCols resolved t)) = .ok m')) := by
  rw [applySpecTask] at h
  cases hid : lookup ids t.key with
  | none =>
    rw [hid] at h
    exact .inl ⟨rfl, (Except.ok.inj h).symm⟩
  | some id =>
    rw [hid] at h
    refine .inr ⟨id, rfl, ?_⟩
    cases hs : taskByKey snap.db.tasks t.key with
    | none =>
      rw [hs] at h
      exact .inr ⟨rfl, h⟩
    | some s =>
      rw [hs] at h
      exact .inl ⟨s, rfl, (Except.ok.inj h).symm⟩

/-- The loop over the spec's tasks: no row is of a key outside the spec, and a kept
    row is still the row read or its revision. -/
structure Applying (snap e : Engine) (spec : WorkflowSpec) (m : Engine) : Prop where
  inv : Inv m
  frame : Framed e m
  nextUuid : m.nextUuid = e.nextUuid + spec.tasks.length
  deps : m.db.deps = []
  approvals : m.db.approvals = []
  keys : ∀ r ∈ m.db.tasks, r.key ∈ spec.keys
  touched : ∀ s ∈ snap.db.tasks, ∀ r ∈ m.db.tasks, r.id = s.id →
    Touched s r ∧ (isFrozen snap s = true → r.type = s.type)

private theorem applying_revise (hread : Reread snap e)
    (hcheck : ∀ t ∈ spec.tasks, checkFrozen host snap resolved t = .ok ())
    (h : Applying snap e spec m) (ht : t ∈ spec.tasks)
    (hs : taskByKey snap.db.tasks t.key = some s) :
    Applying snap e spec (m.updateTasks (fun r => r.id = s.id)
      (fun r => revisedRow m s r (buildCols resolved t))) := by
  obtain ⟨hsm, hkey⟩ := mem_of_taskByKey hs
  have htype : ∀ hf : isFrozen snap s = true, (buildCols resolved t).type = s.type :=
    fun hf => (checkFrozen_ok (hcheck t ht) hs hf).type.symm
  refine ⟨inv_rewrite h.inv ?_, h.frame.trans ⟨rfl, rfl, rfl, rfl, rfl, rfl, rfl, rfl, rfl, rfl⟩,
    h.nextUuid, h.deps, h.approvals, ?_, ?_⟩
  · intro r hr
    by_cases hid : r.id = s.id
    · obtain ⟨hto, hty⟩ := h.touched s hsm r hr hid
      rw [if_pos (decide_eq_true hid)]
      refine ⟨rfl, hkey.symm.trans hto.key.symm, rfl, hto.version, ?_⟩
      -- a row that does not wait was frozen, and kept its type
      cases hf : isFrozen snap s with
      | true => exact .inl ((htype hf).trans (hty hf).symm)
      | false =>
        refine .inr (.inr ?_)
        have hw := (unfrozen hf).1
        rcases hto.status with hst | ⟨hrun, _⟩
        · rw [Waiting, hst]
          exact hw
        · rcases hw with hw | hw
          · rw [hrun] at hw; cases hw
          · rw [hrun] at hw; cases hw
    · rw [if_neg (by simpa using hid)]
      exact ⟨rfl, rfl, rfl, Nat.le_refl _, .inl rfl⟩
  · intro r' hr'
    obtain ⟨r, hr, rfl⟩ := mem_updateWhere.mp hr'
    by_cases hid : r.id = s.id
    · rw [if_pos (decide_eq_true hid)]
      exact List.mem_map_of_mem ht
    · rw [if_neg (by simpa using hid)]
      exact h.keys r hr
  · intro s' hs' r' hr' hid'
    obtain ⟨r, hr, rfl⟩ := mem_updateWhere.mp hr'
    by_cases hid : r.id = s.id
    · rw [if_pos (decide_eq_true hid)] at hid' ⊢
      have hss : s' = s := eq_of_key hread.read.keyed.ids hs' hsm (hid'.symm.trans hid)
      subst hss
      obtain ⟨hto, _⟩ := h.touched s' hsm r hr hid
      exact ⟨⟨hkey.symm, Nat.le_refl _, hto.status⟩, htype⟩
    · rw [if_neg (by simpa using hid)] at hid' ⊢
      exact h.touched s' hs' r hr hid'

private theorem applying_insert (hread : Reread snap e) (hnd : spec.keys.Nodup)
    (h : Applying snap e spec m) (ht : t ∈ spec.tasks)
    (hid : lookup (editIds snap e spec) t.key = some id)
    (hnone : taskByKey snap.db.tasks t.key = none)
    (hok : insertTask m (newTaskRow m id (buildCols resolved t)) = .ok m') :
    Applying snap e spec m' := by
  obtain ⟨hidf, hkeyf, rfl⟩ := insertTask_ok hok
  have hmem : t.key ∈ spec.keys := List.mem_map_of_mem ht
  rw [editIds_fresh hnd hnone hmem] at hid
  have hlt := List.idxOf_lt_length_of_mem hmem
  have hlen : spec.keys.length = spec.tasks.length := List.length_map ..
  have hold : Old m id := by
    intro n hn
    rw [← Option.some.inj hid] at hn
    have := RowId.uuid.inj hn
    have := h.nextUuid
    omega
  refine ⟨inv_insertTask h.inv hidf hkeyf hold rfl _,
    h.frame.trans ⟨rfl, rfl, rfl, rfl, rfl, rfl, rfl, rfl, rfl, rfl⟩, h.nextUuid, h.deps,
    h.approvals, ?_, ?_⟩
  · intro r hr
    rcases mem_concat.mp hr with hr | rfl
    · exact h.keys r hr
    · exact hmem
  · intro s hs r hr hrs
    rcases mem_concat.mp hr with hr | rfl
    · exact h.touched s hs r hr hrs
    have hsid : s.id = .uuid (e.nextUuid + spec.keys.idxOf t.key) :=
      hrs.symm.trans (Option.some.inj hid).symm
    have := hread.read.keyed.old s hs _ hsid
    have := hread.nextUuid
    omega

theorem Applying.step (hread : Reread snap e) (hnd : spec.keys.Nodup)
    (hcheck : ∀ t ∈ spec.tasks, checkFrozen host snap resolved t = .ok ())
    (h : Applying snap e spec m) (ht : t ∈ spec.tasks)
    (hok : applySpecTask snap resolved (editIds snap e spec) m t = .ok m') :
    Applying snap e spec m' := by
  rcases applySpecTask_ok hok with ⟨_, rfl⟩ | ⟨id, hid, ⟨s, hs, rfl⟩ | ⟨hnone, hins⟩⟩
  · exact h
  · obtain ⟨hsm, hkey⟩ := mem_of_taskByKey hs
    have hmem : s.key ∈ spec.keys := hkey ▸ List.mem_map_of_mem ht
    have hsid := editIds_kept (e := e) hnd hread.read.keyed hsm hmem
    rw [hkey, hid] at hsid
    rw [Option.some.inj hsid]
    exact applying_revise hread hcheck h ht hs
  · exact applying_insert hread hnd h ht hid hnone hins

private theorem applySpecTask_other {row : TaskRow}
    (h : HasRow m row) (hne : lookup ids t.key ≠ some row.id)
    (hok : applySpecTask snap resolved ids m t = .ok m') : HasRow m' row := by
  obtain ⟨p, hp⟩ := h
  rcases applySpecTask_ok hok with ⟨_, rfl⟩ | ⟨id, hid, ⟨s, hs, rfl⟩ | ⟨hnone, hins⟩⟩
  · exact ⟨p, hp⟩
  · refine ⟨p, mem_updateWhere.mpr ⟨_, hp, ?_⟩⟩
    rw [if_neg]
    exact fun he => hne (hid.trans (congrArg some (of_decide_eq_true he).symm))
  · obtain ⟨_, _, rfl⟩ := insertTask_ok hins
    exact ⟨p, List.mem_append_left _ hp⟩

private theorem applySpecTask_kept (h : HasRow m r) (hs : taskByKey snap.db.tasks t.key = some s)
    (hid : lookup ids t.key = some r.id) (hok : applySpecTask snap resolved ids m t = .ok m') :
    HasRow m' (revisedRow m s r (buildCols resolved t)) := by
  obtain ⟨p, hp⟩ := h
  rcases applySpecTask_ok hok with ⟨hnone, _⟩ | ⟨id, hid', ⟨s', hs', rfl⟩ | ⟨hnone, _⟩⟩
  · rw [hid] at hnone
    cases hnone
  · rw [hid] at hid'
    rw [hs] at hs'
    rw [← Option.some.inj hid', ← Option.some.inj hs']
    refine ⟨p, mem_updateWhere.mpr ⟨_, hp, ?_⟩⟩
    rw [if_pos (decide_eq_true rfl)]
    rfl
  · rw [hs] at hnone
    cases hnone

private theorem applySpecTask_fresh
    (hnone : taskByKey snap.db.tasks t.key = none) (hid : lookup ids t.key = some id)
    (hok : applySpecTask snap resolved ids m t = .ok m') :
    HasRow m' (newTaskRow m id (buildCols resolved t)) := by
  rcases applySpecTask_ok hok with ⟨hno, _⟩ | ⟨id', hid', ⟨s', hs', _⟩ | ⟨_, hins⟩⟩
  · rw [hid] at hno
    cases hno
  · rw [hnone] at hs'
    cases hs'
  · rw [hid] at hid'
    rw [Option.some.inj hid']
    obtain ⟨_, _, rfl⟩ := insertTask_ok hins
    exact ⟨none, List.mem_concat_self⟩

/-! ## Edges and approvals -/

/-- The edges of a spec task, under its id. -/
def EdgesOf (ids : Record RowId) (t : TaskSpec) (id : RowId) (rows : List DependencyRow) : Prop :=
  (∀ d ∈ rows, d.taskId = id) ∧ rows.map (fun d => (some d.dependsOnTaskId, d.outcome)) =
    t.dependsOn.map (fun d => (lookup ids d.taskKey, d.outcomeOrSuccess))

/-- The approval rows of a spec task, under its id: none, a blank one, or the one it
    had, reopened if its packet has changed. -/
def ApprovalsOf (host : Host) (snap e : Engine) (spec : WorkflowSpec) (t : TaskSpec) (id : RowId)
    (n : Nat) (rows : List ApprovalRow) : Prop :=
  match t.body with
  | .approval scope solicitation deadline policy => ∃ d, optionalDate host deadline = .ok d ∧
      rows = [match approvalByKey snap t.key with
        | none => { blankApproval e id scope solicitation d policy with id := .uuid n }
        | some prev => carriedApproval e prev (blankApproval e id scope solicitation d policy)
            (openedHash snap t.key prev)
            ((newPacket host (editIds snap e spec) spec t id scope).hash host)]
  | _ => rows = []

theorem ApprovalsOf.taskId {n : Nat} {rows : List ApprovalRow}
    (h : ApprovalsOf host snap e spec t id n rows) : ∀ a ∈ rows, a.taskId = id := by
  rw [ApprovalsOf] at h
  cases hb : t.body with
  | approval scope solicitation deadline policy =>
    rw [hb] at h
    obtain ⟨d, _, rfl⟩ := h
    intro a ha
    rw [List.mem_singleton.mp ha]
    cases hprev : approvalByKey snap t.key with
    | none => rfl
    | some prev =>
      simp only [carriedApproval]
      cases openedHash snap t.key prev with
      | none => rfl
      | some old =>
        simp only
        by_cases hh : (newPacket host (editIds snap e spec) spec t id scope).hash host = old
        · rw [if_pos hh]
          rfl
        · rw [if_neg hh]
          rfl
  | agentTask | manual | notification | wait | checkpoint =>
    rw [hb] at h
    rw [h]
    exact fun a ha => absurd ha List.not_mem_nil

theorem applySidecars_ok (hclock : m.clock = e.clock)
    (hok : applySidecars host snap spec (editIds snap e spec) m t = .ok m') :
    (lookup (editIds snap e spec) t.key = none ∧ m' = m) ∨
      ∃ id deps aps n k, lookup (editIds snap e spec) t.key = some id ∧
        m' = withSidecars m n deps aps ∧ EdgesOf (editIds snap e spec) t id deps ∧
        ApprovalsOf host snap e spec t id (m.nextUuid + k) aps := by
  rw [applySidecars] at hok
  cases hid : lookup (editIds snap e spec) t.key with
  | none =>
    rw [hid] at hok
    exact .inl ⟨rfl, (Except.ok.inj hok).symm⟩
  | some id =>
    rw [hid] at hok
    obtain ⟨m₁, hdeps, hok⟩ := bind_ok.mp hok
    obtain ⟨deps, n, rfl, htask, hedges⟩ := dependencies_ok hdeps
    cases hb : t.body with
    | approval scope solicitation deadline policy =>
      rw [hb] at hok
      obtain ⟨d, hd, hok⟩ := bind_ok.mp hok
      cases hprev : approvalByKey snap t.key with
      | none =>
        rw [hprev] at hok
        obtain ⟨_, _, rfl⟩ := insertApproval_ok hok
        refine .inr ⟨id, deps, [blankApproval (withSidecars m n deps []) id scope
          solicitation d policy], n + 1, n, rfl, ?_, ⟨htask, hedges⟩, ?_⟩
        · simp only [withSidecars, Engine.tookIds, List.append_nil]
          rfl
        · rw [ApprovalsOf, hb]
          refine ⟨d, hd, ?_⟩
          rw [hprev]
          simp only [blankApproval, withSidecars, Engine.freshId, hclock]
      | some prev =>
        rw [hprev] at hok
        obtain ⟨_, _, rfl⟩ := insertApproval_ok hok
        refine .inr ⟨id, deps, [carriedApproval (withSidecars m n deps []) prev
          (blankApproval (withSidecars m n deps []) id scope solicitation d policy)
          (openedHash snap t.key prev)
          ((newPacket host (editIds snap e spec) spec t id scope).hash host)], n, n, rfl,
          ?_, ⟨htask, hedges⟩, ?_⟩
        · simp only [withSidecars, List.append_nil]
        · rw [ApprovalsOf, hb]
          refine ⟨d, hd, ?_⟩
          rw [hprev]
          simp only [carriedApproval, blankApproval, withSidecars, hclock]
    | agentTask | manual | notification | wait | checkpoint =>
      rw [hb] at hok
      refine .inr ⟨id, deps, [], n, 0, rfl, (Except.ok.inj hok).symm, ⟨htask, hedges⟩, ?_⟩
      rw [ApprovalsOf, hb]

/-! ## The whole edit -/

/-- The windows the schedule is resolved against. -/
def pinnedAt (snap : Engine) (spec : WorkflowSpec) (windows : Record FrozenTaskTuple) :
    Record FrozenTaskTuple :=
  snap.db.tasks.foldl (pinFrozen snap spec.keys) windows

/-- The rows after a paused edit, task by task. -/
structure Revised (host : Host) (snap e : Engine) (spec : WorkflowSpec)
    (resolved : Record ResolvedTask) (m : Engine) : Prop where
  inv : Inv m
  frame : Framed e m
  nextUuid : e.nextUuid ≤ m.nextUuid
  keys : ∀ r ∈ m.db.tasks, r.key ∈ spec.keys
  kept : ∀ t ∈ spec.tasks, ∀ s ∈ snap.db.tasks, s.key = t.key → ∀ r ∈ e.db.tasks, r.id = s.id →
    HasRow m (revisedRow e s r (buildCols resolved t))
  fresh : ∀ t ∈ spec.tasks, taskByKey snap.db.tasks t.key = none →
    ∀ id, lookup (editIds snap e spec) t.key = some id →
    HasRow m (newTaskRow e id (buildCols resolved t))
  deps : ∀ t ∈ spec.tasks, ∀ id, lookup (editIds snap e spec) t.key = some id →
    EdgesOf (editIds snap e spec) t id (m.db.deps.filter (fun d => d.taskId = id))
  approvals : ∀ t ∈ spec.tasks, ∀ id, lookup (editIds snap e spec) t.key = some id →
    ∃ n, e.nextUuid ≤ n ∧
      ApprovalsOf host snap e spec t id n (m.db.approvals.filter (fun a => a.taskId = id))
  checked : ∀ t ∈ spec.tasks, ∀ s, taskByKey snap.db.tasks t.key = some s →
    isFrozen snap s = true → Kept host snap resolved s t
  deleted : ∀ s ∈ snap.db.tasks, s.key ∉ spec.keys → isFrozen snap s = false

/-- The tasks the spec leaves out. -/
def leftOut (snap : Engine) (spec : WorkflowSpec) : List TaskRow :=
  snap.db.tasks.filter (fun t => !spec.keys.contains t.key)

private theorem mem_leftOut : s ∈ leftOut snap spec ↔ s ∈ snap.db.tasks ∧ s.key ∉ spec.keys := by
  rw [leftOut, List.mem_filter, Bool.not_eq_true', ← Bool.not_eq_true, List.contains_iff_mem]

section Assembly

variable (hread : Reread snap e) (hnd : spec.keys.Nodup)

include hread

private theorem pruned_ok (hdel : ∀ s ∈ leftOut snap spec, isFrozen snap s = false)
    (hok : (leftOut snap spec).foldlM (fun e t => deleteTask e t.id)
      { e with db := { e.db with deps := [], approvals := [] } } = .ok m) :
    Pruned (leftOut snap spec) { e with db := { e.db with deps := [], approvals := [] } } m := by
  refine deleteTasks_ok (inv_clearLinks hread.inv) ?_ ?_ hok
  · intro s hs
    exact (hread.unheld (mem_leftOut.mp hs).1 (hdel s hs)).2
  · intro s hs
    exact (hread.unheld (mem_leftOut.mp hs).1 (hdel s hs)).1

private theorem stays_iff (hr : r ∈ e.db.tasks) :
    (∀ t ∈ leftOut snap spec, t.id ≠ r.id) ↔ r.key ∈ spec.keys := by
  obtain ⟨s, hs, hid⟩ : ∃ s ∈ snap.db.tasks, r.id = s.id := by
    rcases hread.rows r hr with hmem | ⟨_, s, hs, hc⟩
    · exact ⟨r, hmem, rfl⟩
    · exact ⟨s, hs, hc.id⟩
  have hkey := (hread.touched hs hr hid).1.key
  rw [hkey]
  constructor
  · intro h
    by_contra hout
    exact h s (mem_leftOut.mpr ⟨hs, hout⟩) hid.symm
  · intro hin t ht hne
    obtain ⟨htm, hout⟩ := mem_leftOut.mp ht
    rw [eq_of_key hread.read.keyed.ids htm hs (hne.trans hid)] at hout
    exact hout hin

private theorem applying_start {m : Engine}
    (h : Pruned (leftOut snap spec) { e with db := { e.db with deps := [], approvals := [] } } m) :
    Applying snap e spec (m.tookIds spec.tasks.length) := by
  refine ⟨h.inv.act (Act.row (RowAct.ids _)), ?_, congrArg (· + spec.tasks.length) h.nextUuid, ?_,
    h.approvals, ?_, ?_⟩
  · exact ⟨h.frame.workflow, h.frame.attempts, h.frame.artifacts, h.frame.leases, h.frame.clock,
      h.frame.dispatched, h.frame.polled, h.frame.manualReads, h.frame.solicited,
      h.frame.fannedOut⟩
  · exact List.eq_nil_iff_forall_not_mem.mpr (fun d hd => List.not_mem_nil (h.deps d hd))
  · intro r' hr'
    obtain ⟨r, hr, hne, heq⟩ := h.rows r' hr'
    rw [heq]
    exact (stays_iff hread hr).mp hne
  · intro s hs r' hr' hid
    obtain ⟨r, hr, hne, heq⟩ := h.rows r' hr'
    rw [heq] at hid ⊢
    obtain ⟨hto, hcols⟩ := hread.touched hs hr hid
    refine ⟨⟨hto.key, hto.version, hto.status⟩, fun _ => ?_⟩
    show r.toTaskCols.type = s.toTaskCols.type
    rw [hcols]

include hnd

private theorem other_id {t t' : TaskSpec} (ht : t ∈ spec.tasks) (ht' : t' ∈ spec.tasks)
    (hne : t' ≠ t) (hid : lookup (editIds snap e spec) t.key = some id) :
    lookup (editIds snap e spec) t'.key ≠ some id := by
  intro hid'
  exact hne (List.inj_on_of_nodup_map hnd ht' ht (editIds_injective hnd hread hid' hid))

variable {t : TaskSpec} {n : Engine}

/-- The loop turns each task's row into that of the new spec. -/
private theorem applied_row (hstart : Applying snap e spec m)
    (hcheck : ∀ t ∈ spec.tasks, checkFrozen host snap resolved t = .ok ())
    (hok : spec.tasks.foldlM (applySpecTask snap resolved (editIds snap e spec)) m = .ok n)
    (ht : t ∈ spec.tasks)
    (hid : lookup (editIds snap e spec) t.key = some id) {P : Engine → Prop} {row : TaskRow}
    (hrow : row.id = id) (hP : P m) (hother : ∀ a s b, s ∈ spec.tasks → s ≠ t →
      applySpecTask snap resolved (editIds snap e spec) a s = .ok b → P a → P b)
    (hat : ∀ a b, Framed e a → applySpecTask snap resolved (editIds snap e spec) a t = .ok b →
      P a → HasRow b row) : HasRow n row := by
  have hreach := foldlM_reaches (P := fun a => Applying snap e spec a ∧ P a)
    (Q := fun a => Applying snap e spec a ∧ HasRow a row) hok (List.Nodup.of_map _ hnd) ht
    ⟨hstart, hP⟩ ?_ ?_ ?_
  · exact hreach.2
  · rintro a s b hs hne hstep ⟨ha, hpa⟩
    exact ⟨ha.step hread hnd hcheck hs hstep, hother a s b hs hne hstep hpa⟩
  · rintro a s b hs hne hstep ⟨ha, hra⟩
    refine ⟨ha.step hread hnd hcheck hs hstep, applySpecTask_other hra ?_ hstep⟩
    rw [hrow]
    exact other_id hread hnd ht hs hne hid
  · rintro a b hstep ⟨ha, hpa⟩
    exact ⟨ha.step hread hnd hcheck ht hstep, hat a b ha.frame hstep hpa⟩

variable {n₀ : Engine}

private theorem applied_kept
    (hp : Pruned (leftOut snap spec) { e with db := { e.db with deps := [], approvals := [] } } n₀)
    (hcheck : ∀ t ∈ spec.tasks, checkFrozen host snap resolved t = .ok ())
    (hok : spec.tasks.foldlM (applySpecTask snap resolved (editIds snap e spec))
      (n₀.tookIds spec.tasks.length) = .ok n) (ht : t ∈ spec.tasks) (hs : s ∈
      snap.db.tasks)
    (hkey : s.key = t.key) (hr : r ∈ e.db.tasks) (hid : r.id = s.id) :
    HasRow n (revisedRow e s r (buildCols resolved t)) := by
  have hmem : s.key ∈ spec.keys := hkey ▸ List.mem_map_of_mem ht
  have hlook : lookup (editIds snap e spec) t.key = some r.id := by
    rw [← hkey, hid]
    exact editIds_kept hnd hread.read.keyed hs hmem
  have hrow : taskByKey snap.db.tasks t.key = some s := by
    rw [← hkey]
    exact taskByKey_eq_some hread.read.keyed.keys hs
  have hrkey : r.key ∈ spec.keys := by
    rw [(hread.touched hs hr hid).1.key]
    exact hmem
  refine applied_row hread hnd (applying_start hread hp) hcheck hok ht hlook
    (P := fun a => HasRow a r) rfl (hp.kept r hr ((stays_iff hread hr).mpr hrkey)) ?_ ?_
  · intro a t' b ht' hne hstep ha
    exact applySpecTask_other ha (other_id hread hnd ht ht' hne hlook) hstep
  · intro a b hframe hstep ha
    have hb := applySpecTask_kept ha hrow hlook hstep
    rw [revisedRow, hframe.clock] at hb
    exact hb

private theorem applied_fresh
    (hp : Pruned (leftOut snap spec) { e with db := { e.db with deps := [], approvals := [] } } n₀)
    (hcheck : ∀ t ∈ spec.tasks, checkFrozen host snap resolved t = .ok ())
    (hok : spec.tasks.foldlM (applySpecTask snap resolved (editIds snap e spec))
      (n₀.tookIds spec.tasks.length) = .ok n) (ht : t ∈ spec.tasks) (hnone : taskByKey
      snap.db.tasks t.key = none)
    (hid : lookup (editIds snap e spec) t.key = some id) :
    HasRow n (newTaskRow e id (buildCols resolved t)) := by
  refine applied_row hread hnd (applying_start hread hp) hcheck hok ht hid (P := fun _ => True)
    rfl trivial (fun _ _ _ _ _ _ _ => trivial) ?_
  intro a b hframe hstep _
  have hb := applySpecTask_fresh hnone hid hstep
  rw [newTaskRow, hframe.clock] at hb
  exact hb

omit hread hnd

private theorem parents_ok {ids : Record RowId}
    (hinv : Inv m) (hok : spec.tasks.foldlM (setParentOf ids) m = .ok n) :
    Inv n ∧ Framed m n ∧ n.nextUuid = m.nextUuid ∧ n.db.deps = m.db.deps ∧
      n.db.approvals = m.db.approvals ∧ (∀ r' ∈ n.db.tasks, ∃ r ∈ m.db.tasks, r'.key = r.key) ∧
      ∀ row, HasRow m row → HasRow n row := by
  refine foldlM_keeps (P := fun a : Engine => Inv a ∧ Framed m a ∧ a.nextUuid = m.nextUuid ∧
      a.db.deps = m.db.deps ∧ a.db.approvals = m.db.approvals ∧
      (∀ r' ∈ a.db.tasks, ∃ r ∈ m.db.tasks, r'.key = r.key) ∧
      ∀ row, HasRow m row → HasRow a row) hok
    ⟨hinv, Framed.refl m, rfl, rfl, rfl, fun r hr => ⟨r, hr, rfl⟩, fun _ h => h⟩ ?_
  rintro a t b _ hstep ⟨hi, hf, hn, hd, hap, hk, hrow⟩
  obtain ⟨g, hg⟩ := setParentOf_tasks hstep
  have hb := setParentOf_inv hi hstep
  refine ⟨hb, ?_⟩
  have hkeys : ∀ r' ∈ b.db.tasks, ∃ r ∈ m.db.tasks, r'.key = r.key := by
    intro r' hr'
    rw [hg] at hr'
    obtain ⟨r, hr, rfl⟩ := List.mem_map.mp hr'
    exact hk r hr
  have hrows : ∀ row, HasRow m row → HasRow b row := by
    intro row h
    obtain ⟨p, hp⟩ := hrow row h
    refine ⟨g { row with parentTaskId := p }, ?_⟩
    rw [hg]
    exact List.mem_map_of_mem hp
  rcases setParentOf_ok hstep with rfl | ⟨id, parent, _, rfl⟩
  · exact ⟨hf, hn, hd, hap, hkeys, hrows⟩
  · exact ⟨hf.trans ⟨rfl, rfl, rfl, rfl, rfl, rfl, rfl, rfl, rfl, rfl⟩, hn, hd, hap, hkeys, hrows⟩

/-- The loop over the sidecars. -/
structure Sidecarred (e m : Engine) : Prop where
  inv : Inv m
  frame : Framed e m
  nextUuid : e.nextUuid ≤ m.nextUuid

private theorem sidecarred_step (h : Sidecarred e m)
    (hok : applySidecars host snap spec (editIds snap e spec) m t = .ok m') :
    Sidecarred e m' ∧ m'.db.tasks = m.db.tasks := by
  have hinv := applySidecars_inv h.inv hok
  rcases applySidecars_ok h.frame.clock hok with ⟨_, rfl⟩ | ⟨id, deps, aps, n, k, _, rfl, _⟩
  · exact ⟨h, rfl⟩
  · refine ⟨⟨hinv, h.frame.trans ⟨rfl, rfl, rfl, rfl, rfl, rfl, rfl, rfl, rfl, rfl⟩, ?_⟩, rfl⟩
    exact Nat.le_trans h.nextUuid (Nat.le_add_right _ _)

include hread hnd

/-- A task's edges and approval, once its own iteration has written them. -/
private theorem sidecars_row (hstart : Sidecarred e m) (hdeps : m.db.deps = [])
    (haps : m.db.approvals = [])
    (hok : spec.tasks.foldlM (applySidecars host snap spec (editIds snap e spec)) m = .ok n)
    (ht : t ∈ spec.tasks) (hid : lookup (editIds snap e spec) t.key = some id) :
    EdgesOf (editIds snap e spec) t id (n.db.deps.filter (fun d => d.taskId = id)) ∧
      ∃ k, e.nextUuid ≤ k ∧
        ApprovalsOf host snap e spec t id k (n.db.approvals.filter (fun a => a.taskId = id)) := by
  -- the iterations of other tasks write rows of other ids
  have hskip : ∀ a s b, s ∈ spec.tasks → s ≠ t → Sidecarred e a →
      applySidecars host snap spec (editIds snap e spec) a s = .ok b →
      b.db.deps.filter (fun d => d.taskId = id) = a.db.deps.filter (fun d => d.taskId = id) ∧
        b.db.approvals.filter (fun d => d.taskId = id) =
          a.db.approvals.filter (fun d => d.taskId = id) := by
    intro a s b hs hne ha hstep
    rcases applySidecars_ok ha.frame.clock hstep with
      ⟨_, rfl⟩ | ⟨sid, deps, aps, i, k, hsid, rfl, hed, hap⟩
    · exact ⟨rfl, rfl⟩
    have hsne : sid ≠ id := fun he => other_id hread hnd ht hs hne hid (he ▸ hsid)
    have hnod : deps.filter (fun d => d.taskId = id) = [] := by
      refine List.filter_eq_nil_iff.mpr ?_
      intro d hd
      rw [hed.1 d hd]
      simpa using hsne
    have hnoa : aps.filter (fun d => d.taskId = id) = [] := by
      refine List.filter_eq_nil_iff.mpr ?_
      intro d hd
      rw [hap.taskId d hd]
      simpa using hsne
    constructor
    · show (a.db.deps ++ deps).filter (fun d => d.taskId = id) = _
      rw [List.filter_append, hnod, List.append_nil]
    · show (a.db.approvals ++ aps).filter (fun d => d.taskId = id) = _
      rw [List.filter_append, hnoa, List.append_nil]
  have hreach := foldlM_reaches (P := fun a => Sidecarred e a ∧
      a.db.deps.filter (fun d => d.taskId = id) = [] ∧
      a.db.approvals.filter (fun d => d.taskId = id) = [])
    (Q := fun a => Sidecarred e a ∧
      EdgesOf (editIds snap e spec) t id (a.db.deps.filter (fun d => d.taskId = id)) ∧
      ∃ k, e.nextUuid ≤ k ∧
        ApprovalsOf host snap e spec t id k (a.db.approvals.filter (fun a => a.taskId = id)))
    hok (List.Nodup.of_map _ hnd) ht ⟨hstart, by rw [hdeps]; rfl, by rw [haps]; rfl⟩ ?_ ?_ ?_
  · exact hreach.2
  · rintro a s b hs hne hstep ⟨ha, hd, hap⟩
    obtain ⟨hd', hap'⟩ := hskip a s b hs hne ha hstep
    exact ⟨(sidecarred_step ha hstep).1, hd'.trans hd, hap'.trans hap⟩
  · rintro a s b hs hne hstep ⟨ha, hd, k, hk, hap⟩
    obtain ⟨hd', hap'⟩ := hskip a s b hs hne ha hstep
    refine ⟨(sidecarred_step ha hstep).1, ?_, k, hk, ?_⟩
    · rw [hd']
      exact hd
    · rw [hap']
      exact hap
  · rintro a b hstep ⟨ha, hd, hap⟩
    refine ⟨(sidecarred_step ha hstep).1, ?_⟩
    rcases applySidecars_ok ha.frame.clock hstep with
      ⟨hno, _⟩ | ⟨sid, deps, aps, i, k, hsid, rfl, hed, hapo⟩
    · rw [hid] at hno
      cases hno
    rw [hid] at hsid
    rw [← Option.some.inj hsid] at hed hapo
    have hkd : deps.filter (fun d => d.taskId = id) = deps :=
      List.filter_eq_self.mpr (fun d hd => decide_eq_true (hed.1 d hd))
    have hka : aps.filter (fun d => d.taskId = id) = aps :=
      List.filter_eq_self.mpr (fun d hd => decide_eq_true (hapo.taskId d hd))
    refine ⟨?_, a.nextUuid + k, Nat.le_trans ha.nextUuid (Nat.le_add_right _ _), ?_⟩
    · show EdgesOf _ t id ((a.db.deps ++ deps).filter (fun d => d.taskId = id))
      rw [List.filter_append, hd, hkd]
      exact hed
    · show ApprovalsOf host snap e spec t id _
        ((a.db.approvals ++ aps).filter (fun d => d.taskId = id))
      rw [List.filter_append, hap, hka]
      exact hapo

end Assembly

/-- **What a paused edit makes of the rows.** -/
theorem diffApplySpecRows_ok (hread : Reread snap e) (hvalid : TemplateValid host spec)
    {windows : Record FrozenTaskTuple} (hok : diffApplySpecRows host spec windows snap e = .ok m) :
    ∃ resolved, resolveSchedule host spec (pinnedAt snap spec windows) e.clock = some resolved ∧
      Revised host snap e spec resolved m := by
  rw [diffApplySpecRows] at hok
  obtain ⟨resolved, hres, hok⟩ := bind_ok.mp hok
  obtain ⟨_, hdel, hok⟩ := bind_ok.mp hok
  obtain ⟨_, hcheck, hok⟩ := bind_ok.mp hok
  obtain ⟨m₁, h₁, hok⟩ := bind_ok.mp hok
  obtain ⟨m₂, h₂, hok⟩ := bind_ok.mp hok
  obtain ⟨m₃, h₃, h₄⟩ := bind_ok.mp hok
  have hnd := hvalid.keys_nodup
  have hdeleted : ∀ s ∈ leftOut snap spec, isFrozen snap s = false :=
    fun s hs => checkDelete_ok (forM_ok.mp hdel s hs)
  have hchecked := forM_ok.mp hcheck
  have hp := pruned_ok hread hdeleted h₁
  have hids : assignIds (fun k => (taskByKey snap.db.tasks k).map TaskRow.id) m₁.nextUuid
      spec.keys = editIds snap e spec := by
    rw [hp.nextUuid, editIds]
  simp only [hids] at h₂ h₃ h₄
  have happly : Applying snap e spec m₂ :=
    foldlM_keeps (P := Applying snap e spec) h₂ (applying_start hread hp)
      (fun _ _ _ ht hstep ha => ha.step hread hnd hchecked ht hstep)
  obtain ⟨hinv₃, hf₃, hn₃, hd₃, ha₃, hk₃, hrow₃⟩ := parents_ok happly.inv h₃
  have hside : Sidecarred e m₃ := by
    refine ⟨hinv₃, happly.frame.trans hf₃, ?_⟩
    rw [hn₃, happly.nextUuid]
    exact Nat.le_add_right _ _
  obtain ⟨hend, htasks⟩ : Sidecarred e m ∧ m.db.tasks = m₃.db.tasks := by
    refine foldlM_keeps (P := fun a => Sidecarred e a ∧ a.db.tasks = m₃.db.tasks) h₄
      ⟨hside, rfl⟩ ?_
    rintro a t b _ hstep ⟨ha, hta⟩
    obtain ⟨hb, htb⟩ := sidecarred_step ha hstep
    exact ⟨hb, htb.trans hta⟩
  have hhas : ∀ row, HasRow m₂ row → HasRow m row := by
    intro row h
    obtain ⟨p, hp⟩ := hrow₃ row h
    exact ⟨p, htasks ▸ hp⟩
  refine ⟨resolved, resolveOrThrow_ok hres, hend.inv, hend.frame, hend.nextUuid, ?_, ?_, ?_, ?_, ?_,
    ?_, ?_⟩
  · intro r hr
    rw [htasks] at hr
    obtain ⟨r₀, hr₀, hkey⟩ := hk₃ r hr
    rw [hkey]
    exact happly.keys r₀ hr₀
  · intro t ht s hs hkey r hr hid
    exact hhas _ (applied_kept hread hnd hp hchecked h₂ ht hs hkey hr hid)
  · intro t ht hnone id hid
    exact hhas _ (applied_fresh hread hnd hp hchecked h₂ ht hnone hid)
  · intro t ht id hid
    exact (sidecars_row hread hnd hside (hd₃.trans happly.deps) (ha₃.trans happly.approvals) h₄ ht
      hid).1
  · intro t ht id hid
    exact (sidecars_row hread hnd hside (hd₃.trans happly.deps) (ha₃.trans happly.approvals) h₄ ht
      hid).2
  · intro t ht s hs hf
    exact checkFrozen_ok (hchecked t ht) hs hf
  · intro s hs hout
    exact hdeleted s (mem_leftOut.mpr ⟨hs, hout⟩)

/-! ## Reading it off -/

/-- Which row a task has after the edit. -/
inductive RowOf (snap e : Engine) (resolved : Record ResolvedTask) (t : TaskSpec)
    (r' : TaskRow) : Prop where
  | kept (s r : TaskRow) (hs : s ∈ snap.db.tasks) (hkey : s.key = t.key) (hr : r ∈ e.db.tasks)
      (hid : r.id = s.id) (parent : Option RowId)
      (heq : r' = { revisedRow e s r (buildCols resolved t) with parentTaskId := parent })
  | fresh (id : RowId) (hnone : taskByKey snap.db.tasks t.key = none) (parent : Option RowId)
      (heq : r' = { newTaskRow e id (buildCols resolved t) with parentTaskId := parent })

variable {r' : TaskRow}

theorem RowOf.cols (h : RowOf snap e resolved t r') : r'.toTaskCols = buildCols resolved t := by
  cases h with
  | kept s r hs hkey hr hid parent heq => rw [heq]; rfl
  | fresh id hnone parent heq => rw [heq]; rfl

section Reading

variable (hread : Reread snap e) (hnd : spec.keys.Nodup)
  (h : Revised host snap e spec resolved m)

include hread hnd h

theorem Revised.row (hr' : r' ∈ m.db.tasks) :
    ∃ t ∈ spec.tasks, r'.key = t.key ∧ lookup (editIds snap e spec) t.key = some r'.id ∧
      RowOf snap e resolved t r' := by
  obtain ⟨t, ht, hkey⟩ := List.mem_map.mp (h.keys r' hr')
  have hone : ∀ row : TaskRow, row.key = t.key → HasRow m row →
      ∃ p, r' = { row with parentTaskId := p } := by
    rintro row hrk ⟨p, hp⟩
    exact ⟨p, eq_of_key h.inv.keyed.keys hr' hp (hkey.symm.trans hrk.symm)⟩
  cases hs : taskByKey snap.db.tasks t.key with
  | some s =>
    obtain ⟨hsm, hsk⟩ := mem_of_taskByKey hs
    obtain ⟨r, hr, hid⟩ := hread.all s hsm
    obtain ⟨p, heq⟩ := hone _ rfl (h.kept t ht s hsm hsk r hr hid)
    refine ⟨t, ht, hkey.symm, ?_, RowOf.kept s r hsm hsk hr hid p heq⟩
    have hmem : s.key ∈ spec.keys := hsk ▸ List.mem_map_of_mem ht
    rw [← hsk, editIds_kept hnd hread.read.keyed hsm hmem, heq, ← hid]
    rfl
  | none =>
    obtain ⟨id, hid⟩ := editIds_some hnd snap e
      (List.mem_map_of_mem (f := fun t : TaskSpec => t.key) ht)
    obtain ⟨p, heq⟩ := hone _ rfl (h.fresh t ht hs id hid)
    refine ⟨t, ht, hkey.symm, ?_, RowOf.fresh id hs p heq⟩
    rw [hid, heq]
    rfl

theorem Revised.task {t : TaskSpec} (ht : t ∈ spec.tasks)
    (hid : lookup (editIds snap e spec) t.key = some id) :
    ∃ r' ∈ m.db.tasks, r'.id = id ∧ r'.key = t.key := by
  cases hs : taskByKey snap.db.tasks t.key with
  | some s =>
    obtain ⟨hsm, hsk⟩ := mem_of_taskByKey hs
    obtain ⟨r, hr, hrid⟩ := hread.all s hsm
    obtain ⟨p, hp⟩ := h.kept t ht s hsm hsk r hr hrid
    refine ⟨_, hp, ?_, rfl⟩
    have hmem : s.key ∈ spec.keys := hsk ▸ List.mem_map_of_mem ht
    rw [← hsk, editIds_kept hnd hread.read.keyed hsm hmem] at hid
    exact hrid.trans (Option.some.inj hid)
  | none =>
    obtain ⟨p, hp⟩ := h.fresh t ht hs id hid
    exact ⟨_, hp, rfl, rfl⟩

omit hnd in
theorem Revised.frozen (hs : s ∈ snap.db.tasks) (hf : isFrozen snap s = true)
    (hr : r ∈ e.db.tasks) (hid : r.id = s.id) :
    ∃ t ∈ spec.tasks, t.key = s.key ∧ Kept host snap resolved s t ∧
      HasRow m (revisedRow e s r (buildCols resolved t)) := by
  have hmem : s.key ∈ spec.keys := by
    by_contra hout
    rw [h.deleted s hs hout] at hf
    cases hf
  obtain ⟨t, ht, hkey⟩ := List.mem_map.mp hmem
  have hkey' : t.key = s.key := hkey
  refine ⟨t, ht, hkey', h.checked t ht s ?_ hf, h.kept t ht s hs hkey.symm r hr hid⟩
  rw [hkey']
  exact taskByKey_eq_some hread.read.keyed.keys hs

end Reading

theorem Revised.sourcesKnown (hread : Reread snap e) (hvalid : TemplateValid host spec)
    (h : Revised host snap e spec resolved m) : SourcesKnown m := by
  have hnd := hvalid.keys_nodup
  refine sourcesKnown_of_cols resolved hvalid ?_ ?_
  · intro r' hr'
    obtain ⟨t, ht, _, _, hrow⟩ := h.row hread hnd hr'
    exact ⟨t, ht, hrow.cols⟩
  · intro t ht
    obtain ⟨id, hid⟩ := editIds_some hnd snap e
      (List.mem_map_of_mem (f := fun t : TaskSpec => t.key) ht)
    obtain ⟨r', hr', _, hkey⟩ := h.task hread hnd ht hid
    exact ⟨r', hr', hkey⟩

end WfRevising
