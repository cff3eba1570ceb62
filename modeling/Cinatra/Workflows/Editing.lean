import Cinatra.Workflows.Fanout

/-! # Editing — creating a workflow and editing its spec

    A spec's rows are inserted task by task, then parents, then edges and
    approvals; a draft's edit deletes every row first, a paused workflow's keeps
    the rows of the keys that stay.  Each statement keeps the invariant, and so
    does the transaction. -/

namespace WfEditing

open RowTable Loop JsonValue WfTransitions WfSpec WfRows WfHost WfSchedule WfState
open WfForeachReconciler WfStore WfValidate WfActs WfInvariant WfPaths WfInterference WfFanout

variable {host : Host} {e m m' cur : Engine} {spec : WorkflowSpec}

/-! ## Statements of an edit -/

theorem inv_rewrite {g : TaskRow → TaskRow} (h : Inv e)
    (hg : ∀ t ∈ e.db.tasks, (g t).id = t.id ∧ (g t).key = t.key ∧ (g t).status = t.status ∧
      t.lockVersion ≤ (g t).lockVersion ∧
      ((g t).type = t.type ∨ Attempted e t.id ∨ Waiting t)) :
    Inv { e with db := { e.db with tasks := e.db.tasks.map g } } := by
  have hback : ∀ t' ∈ e.db.tasks.map g, ∃ t ∈ e.db.tasks, g t = t' ∧ t'.id = t.id ∧
      t'.status = t.status := by
    intro t' ht'
    obtain ⟨t, ht, rfl⟩ := List.mem_map.mp ht'
    exact ⟨t, ht, rfl, (hg t ht).1, (hg t ht).2.2.1⟩
  have hstill : ∀ id, (∃ t ∈ e.db.tasks, t.id = id) → ∃ t ∈ e.db.tasks.map g, t.id = id := by
    rintro id ⟨t, ht, hid⟩
    exact ⟨g t, List.mem_map_of_mem ht, (hg t ht).1.trans hid⟩
  refine ⟨⟨?_, ?_, ?_⟩, ⟨h.ledger.ids, h.ledger.old, h.ledger.numbered, h.ledger.keyed,
    h.ledger.highest, ?_, ?_, fun a ha => hstill _ (h.ledger.task a ha)⟩,
    ⟨h.leased.one, ?_, h.leased.running, h.leased.backed⟩,
    ⟨h.carried.tokens, h.carried.old, h.carried.dispatched, h.carried.polled, ?_⟩,
    ⟨fun d hd => ⟨hstill _ (h.linked.deps d hd).1, hstill _ (h.linked.deps d hd).2⟩,
      fun a ha => hstill _ (h.linked.approvals a ha), h.linked.approval_ids,
      fun r hr => hstill _ (h.linked.artifacts r hr)⟩, ?_, h.shut⟩
  · have hids : (e.db.tasks.map g).map TaskRow.id = e.db.tasks.map TaskRow.id := by
      rw [List.map_map]
      apply List.map_congr_left
      exact fun t ht => (hg t ht).1
    show ((e.db.tasks.map g).map TaskRow.id).Nodup
    rw [hids]
    exact h.keyed.ids
  · have hkeys : (e.db.tasks.map g).map (fun t => t.key) = e.db.tasks.map (fun t => t.key) := by
      rw [List.map_map]
      apply List.map_congr_left
      exact fun t ht => (hg t ht).2.1
    show ((e.db.tasks.map g).map (fun t => t.key)).Nodup
    rw [hkeys]
    exact h.keyed.keys
  · intro t' ht'
    obtain ⟨t, ht, _, hid, _⟩ := hback t' ht'
    rw [hid]
    exact h.keyed.old t ht
  · intro t' ht' hw a ha haid
    obtain ⟨t, ht, _, hid, hs⟩ := hback t' ht'
    rw [Waiting, hs] at hw
    exact h.ledger.waiting t ht hw a ha (haid.trans hid)
  · intro t' ht' hidle
    obtain ⟨t, ht, _, hid, hs⟩ := hback t' ht'
    rw [hid]
    exact h.ledger.untouched t ht (hs.symm.trans hidle)
  · intro l hl t' ht' htid hw
    obtain ⟨t, ht, _, hid, hs⟩ := hback t' ht'
    rw [Waiting, hs] at hw
    exact h.leased.held l hl t ht (hid.symm.trans htid) hw
  · intro r hr
    obtain ⟨t, ht, hid, hle, heq, hown⟩ := h.carried.manual r hr
    obtain ⟨hgid, _, hgs, hgv, hgt⟩ := hg t ht
    refine ⟨g t, List.mem_map_of_mem ht, hgid.trans hid, Nat.le_trans hle hgv, ?_, ?_⟩
    · intro hv
      rw [hgs]
      exact heq (by omega)
    · rw [hgid, Waiting, hgs]
      rcases hown with hatt | ⟨htype, hw⟩
      · exact .inl hatt
      · rcases hgt with hsame | hatt | hw'
        · exact .inr ⟨hsame.trans htype, hw⟩
        · exact .inl hatt
        · exact absurd hw' hw
  · intro hs
    refine ⟨?_, (h.draft hs).attempts, (h.draft hs).artifacts⟩
    intro t' ht'
    obtain ⟨t, ht, _, _, hst⟩ := hback t' ht'
    exact hst.trans ((h.draft hs).idle t ht)

theorem insertTask_ok {row : TaskRow} (h : insertTask m row = .ok m') :
    (∀ r ∈ m.db.tasks, r.id ≠ row.id) ∧ (∀ r ∈ m.db.tasks, r.key ≠ row.key) ∧
      m' = { m with db := { m.db with tasks := m.db.tasks ++ [row] } } := by
  rw [insertTask] at h
  by_cases hdup : m.db.tasks.any (fun t => t.id = row.id || t.key = row.key) = true
  · rw [if_pos hdup] at h
    cases h
  rw [if_neg hdup] at h
  refine ⟨?_, ?_, (Except.ok.inj h).symm⟩
  · intro r hr hid
    refine hdup (List.any_eq_true.mpr ⟨r, hr, ?_⟩)
    rw [Bool.or_eq_true, decide_eq_true_eq, decide_eq_true_eq]
    exact .inl hid
  · intro r hr hkey
    refine hdup (List.any_eq_true.mpr ⟨r, hr, ?_⟩)
    rw [Bool.or_eq_true, decide_eq_true_eq, decide_eq_true_eq]
    exact .inr hkey

/-- What floats a row to the top when its parent goes. -/
def orphan (id : RowId) (t : TaskRow) : TaskRow :=
  if t.parentTaskId = some id then { t with parentTaskId := none } else t

theorem orphan_eq (id : RowId) (t : TaskRow) :
    orphan id t = { t with parentTaskId := (orphan id t).parentTaskId } := by
  rw [orphan]
  split <;> rfl

variable {id : RowId}

theorem deleteTask_ok (h : deleteTask m id = .ok m') :
    ¬ Attempted m id ∧ (∀ r ∈ m.db.artifacts, r.taskId ≠ id) ∧
      (∀ a ∈ m.db.approvals, a.taskId ≠ id) ∧
      m' = { m with db := { m.db with
        tasks := (m.db.tasks.filter (fun t => t.id ≠ id)).map (orphan id)
        deps := m.db.deps.filter (fun d => d.taskId ≠ id ∧ d.dependsOnTaskId ≠ id)
        leases := m.db.leases.filter (fun l => l.taskId ≠ id) } } := by
  rw [deleteTask] at h
  by_cases href : (m.db.attempts.any (fun a => a.taskId = id) ||
      m.db.artifacts.any (fun a => a.taskId = id) ||
      m.db.approvals.any (fun a => a.taskId = id)) = true
  · rw [if_pos href] at h
    cases h
  rw [if_neg href] at h
  rw [Bool.or_eq_true, Bool.or_eq_true, not_or, not_or] at href
  refine ⟨?_, ?_, ?_, (Except.ok.inj h).symm⟩
  · rintro ⟨a, ha, hid⟩
    exact href.1.1 (List.any_eq_true.mpr ⟨a, ha, decide_eq_true hid⟩)
  · intro r hr hid
    exact href.1.2 (List.any_eq_true.mpr ⟨r, hr, decide_eq_true hid⟩)
  · intro a ha hid
    exact href.2 (List.any_eq_true.mpr ⟨a, ha, decide_eq_true hid⟩)

theorem inv_deleteTask (h : Inv m) (hok : deleteTask m id = .ok m')
    (hman : ∀ r ∈ m.manualReads, r.taskId ≠ id) : Inv m' := by
  obtain ⟨hatt, hart, happ, rfl⟩ := deleteTask_ok hok
  have hback : ∀ t' ∈ (m.db.tasks.filter (fun t => t.id ≠ id)).map (orphan id),
      ∃ t ∈ m.db.tasks, t.id ≠ id ∧ t'.id = t.id ∧ t'.key = t.key ∧ t'.status = t.status := by
    intro t' ht'
    obtain ⟨t, ht, rfl⟩ := List.mem_map.mp ht'
    obtain ⟨htm, hne⟩ := List.mem_filter.mp ht
    rw [orphan_eq]
    exact ⟨t, htm, by simpa using hne, rfl, rfl, rfl⟩
  have hkept : ∀ t ∈ m.db.tasks, t.id ≠ id →
      orphan id t ∈ (m.db.tasks.filter (fun t => t.id ≠ id)).map (orphan id) := by
    intro t ht hne
    exact List.mem_map_of_mem (List.mem_filter.mpr ⟨ht, by simpa using hne⟩)
  have horphan : ∀ t : TaskRow, (orphan id t).id = t.id := by
    intro t
    rw [orphan_eq]
  have hstill : ∀ j, j ≠ id → (∃ t ∈ m.db.tasks, t.id = j) →
      ∃ t ∈ (m.db.tasks.filter (fun t => t.id ≠ id)).map (orphan id), t.id = j := by
    rintro j hj ⟨t, ht, rfl⟩
    exact ⟨orphan id t, hkept t ht hj, horphan t⟩
  refine ⟨⟨?_, ?_, ?_⟩, ⟨h.ledger.ids, h.ledger.old, h.ledger.numbered, h.ledger.keyed,
    h.ledger.highest, ?_, ?_, ?_⟩, ⟨?_, ?_, ?_, ?_⟩,
    ⟨h.carried.tokens, h.carried.old, h.carried.dispatched, h.carried.polled, ?_⟩,
    ⟨?_, ?_, h.linked.approval_ids, ?_⟩, ?_, ?_⟩
  · have hids : ((m.db.tasks.filter (fun t => t.id ≠ id)).map (orphan id)).map TaskRow.id =
        (m.db.tasks.filter (fun t => t.id ≠ id)).map TaskRow.id := by
      rw [List.map_map]
      exact List.map_congr_left (fun t _ => horphan t)
    show (((m.db.tasks.filter (fun t => t.id ≠ id)).map (orphan id)).map TaskRow.id).Nodup
    rw [hids]
    exact h.keyed.ids.sublist (List.filter_sublist.map _)
  · have hkeys : ((m.db.tasks.filter (fun t => t.id ≠ id)).map (orphan id)).map (fun t => t.key) =
        (m.db.tasks.filter (fun t => t.id ≠ id)).map (fun t => t.key) := by
      rw [List.map_map]
      refine List.map_congr_left (fun t _ => ?_)
      show (orphan id t).key = t.key
      rw [orphan_eq]
    show (((m.db.tasks.filter (fun t => t.id ≠ id)).map (orphan id)).map (fun t => t.key)).Nodup
    rw [hkeys]
    exact h.keyed.keys.sublist (List.filter_sublist.map _)
  · intro t' ht'
    obtain ⟨t, ht, _, hid, _⟩ := hback t' ht'
    rw [hid]
    exact h.keyed.old t ht
  · intro t' ht' hw a ha haid
    obtain ⟨t, ht, _, hid, _, hs⟩ := hback t' ht'
    rw [Waiting, hs] at hw
    exact h.ledger.waiting t ht hw a ha (haid.trans hid)
  · intro t' ht' hidle
    obtain ⟨t, ht, _, hid, _, hs⟩ := hback t' ht'
    rw [hid]
    exact h.ledger.untouched t ht (hs.symm.trans hidle)
  · intro a ha
    exact hstill _ (fun he => hatt ⟨a, ha, he⟩) (h.ledger.task a ha)
  · exact h.leased.one.sublist (List.filter_sublist.map _)
  · intro l hl t' ht' htid hw
    obtain ⟨t, ht, _, hid, _, hs⟩ := hback t' ht'
    rw [Waiting, hs] at hw
    exact h.leased.held l (List.mem_of_mem_filter hl) t ht (hid.symm.trans htid) hw
  · exact fun l hl => h.leased.running l (List.mem_of_mem_filter hl)
  · exact fun l hl => h.leased.backed l (List.mem_of_mem_filter hl)
  · intro r hr
    obtain ⟨t, ht, hid, hrest⟩ := h.carried.manual r hr
    have hne : t.id ≠ id := fun he => hman r hr (hid.symm.trans he)
    refine ⟨orphan id t, hkept t ht hne, ?_⟩
    rw [orphan_eq]
    exact ⟨hid, hrest⟩
  · intro d hd
    obtain ⟨hdm, hne⟩ := List.mem_filter.mp hd
    rw [decide_eq_true_eq] at hne
    exact ⟨hstill _ hne.1 (h.linked.deps d hdm).1, hstill _ hne.2 (h.linked.deps d hdm).2⟩
  · exact fun a ha => hstill _ (happ a ha) (h.linked.approvals a ha)
  · exact fun r hr => hstill _ (hart r hr) (h.linked.artifacts r hr)
  · intro hs
    refine ⟨?_, (h.draft hs).attempts, (h.draft hs).artifacts⟩
    intro t' ht'
    obtain ⟨t, ht, _, _, _, hst⟩ := hback t' ht'
    exact hst.trans ((h.draft hs).idle t ht)
  · intro hs
    show m.db.leases.filter (fun l => l.taskId ≠ id) = []
    rw [h.shut hs]
    rfl

variable {α : Type}

theorem lookup_append (xs ys : Record α) (key : String) :
    lookup (xs ++ ys) key = (lookup xs key).or (lookup ys key) := by
  rw [lookup, lookup, lookup, List.find?_append]
  cases xs.find? (fun r => r.1 = key) with
  | none | some => rfl

theorem lookup_singleton (k : String) (v : α) (key : String) :
    lookup [(k, v)] key = if k = key then some v else none := by
  rw [lookup, List.find?_cons]
  by_cases h : k = key
  · rw [decide_eq_true h, if_pos h]
    rfl
  · rw [decide_eq_false h, if_neg h]
    rfl

variable {ks : List String}

/-- The id of a key: the existing row's, else the fresh one at its position. -/
theorem lookup_assignIds (existing : String → Option RowId) (hnd : ks.Nodup)
    (base : Nat) (key : String) : lookup (assignIds existing base ks) key =
      if key ∈ ks then some ((existing key).getD (.uuid (base + ks.idxOf key))) else none := by
  induction ks generalizing base with
  | nil =>
    rw [if_neg List.not_mem_nil]
    rfl
  | cons k ks ih =>
    rw [List.nodup_cons] at hnd
    rw [assignIds, lookup_append, lookup_singleton, ih hnd.2]
    by_cases hk : k = key
    · subst hk
      rw [if_neg hnd.1, if_pos rfl, if_pos (List.mem_cons_self ..), List.idxOf_cons_self]
      rfl
    rw [if_neg hk, Option.or_none, List.idxOf_cons_ne _ hk]
    by_cases hmem : key ∈ ks
    · rw [if_pos hmem, if_pos (.tail _ hmem), Nat.succ_eq_add_one,
        Nat.add_right_comm, Nat.add_assoc]
    rw [if_neg hmem, if_neg]
    intro h
    rcases List.mem_cons.mp h with h | h
    · exact hk h.symm
    · exact hmem h

theorem assignIds_old (hnd : ks.Nodup) {base : Nat} {key : String}
    (h : lookup (assignIds (fun _ => none) base ks) key = some id)
    (hn : m.nextUuid = base + ks.length) : Old m id := by
  rw [lookup_assignIds _ hnd] at h
  by_cases hmem : key ∈ ks
  · rw [if_pos hmem] at h
    intro n hid
    have hidx := List.idxOf_lt_length_of_mem hmem
    rw [← Option.some.inj h] at hid
    have : base + ks.idxOf key = n := RowId.uuid.inj hid
    omega
  · rw [if_neg hmem] at h
    cases h

/-! ## Parents, edges, approvals -/

variable {ids : Record RowId} {t : TaskSpec}

theorem setParentOf_ok (h : setParentOf ids m t = .ok m') :
    m' = m ∨ ∃ id parent, lookup ids t.key = some id ∧
      m' = m.updateTasks (fun r => r.id = id) (fun r => { r with parentTaskId := parent }) := by
  rw [setParentOf] at h
  cases hid : lookup ids t.key with
  | none =>
    rw [hid] at h
    exact .inl (Except.ok.inj h).symm
  | some id =>
    rw [hid] at h
    cases hp : t.parent with
    | none =>
      rw [hp] at h
      exact .inr ⟨id, none, rfl, (Except.ok.inj h).symm⟩
    | some parent =>
      rw [hp] at h
      simp only at h
      cases hpid : lookup ids parent with
      | none =>
        rw [hpid] at h
        cases h
      | some parentId =>
        rw [hpid] at h
        exact .inr ⟨id, some parentId, rfl, (Except.ok.inj h).symm⟩

theorem setParentOf_inv (h : Inv m) (hok : setParentOf ids m t = .ok m') : Inv m' := by
  rcases setParentOf_ok hok with rfl | ⟨id, parent, _, rfl⟩
  · exact h
  refine inv_rewrite h ?_
  intro r _
  by_cases hr : decide (r.id = id) = true
  · rw [if_pos hr]
    exact ⟨rfl, rfl, rfl, Nat.le_refl _, .inl rfl⟩
  · rw [if_neg hr]
    exact ⟨rfl, rfl, rfl, Nat.le_refl _, .inl rfl⟩

variable {taskId : RowId} {dep : TaskDependency}

theorem insertSpecDependency_ok
    (h : insertSpecDependency ids t taskId m dep = .ok m') :
    ∃ upstream, lookup ids dep.taskKey = some upstream ∧
      (∃ r ∈ m.db.tasks, r.id = taskId) ∧ (∃ r ∈ m.db.tasks, r.id = upstream) ∧
      m' = { m.tookIds 1 with db := { m.db with
        deps := m.db.deps ++ [⟨m.freshId, taskId, upstream, dep.outcomeOrSuccess⟩] } } := by
  rw [insertSpecDependency] at h
  cases hup : lookup ids dep.taskKey with
  | none =>
    rw [hup] at h
    cases h
  | some upstream =>
    rw [hup] at h
    obtain ⟨ht, hu, heq⟩ := insertDependency_ok h
    exact ⟨upstream, rfl, ht, hu, heq⟩

private theorem insertSpecDependency_inv
    (h : Inv m) (hok : insertSpecDependency ids t taskId m dep = .ok m') : Inv m' := by
  obtain ⟨upstream, _, ht, hu, rfl⟩ := insertSpecDependency_ok hok
  exact inv_insertDependency (h.act (Act.row (RowAct.ids 1))) ht hu

theorem insertApproval_inv {a : ApprovalRow} (h : Inv m)
    (hok : insertApproval m a = .ok m') : Inv m' := by
  obtain ⟨hid, ht, rfl⟩ := insertApproval_ok hok
  exact inv_insertApproval h hid ht

theorem dependencies_inv
    (h : Inv m) (hok : t.dependsOn.foldlM (insertSpecDependency ids t taskId) m = .ok m') :
    Inv m' :=
  foldlM_keeps (P := Inv) hok h (fun _ _ _ _ hstep hm => insertSpecDependency_inv hm hstep)

theorem applySidecars_inv {snap : Engine} (h : Inv m)
    (hok : applySidecars host snap spec ids m t = .ok m') : Inv m' := by
  rw [applySidecars] at hok
  cases hid : lookup ids t.key with
  | none =>
    rw [hid] at hok
    rw [← Except.ok.inj hok]
    exact h
  | some id =>
    rw [hid] at hok
    obtain ⟨m₁, hdeps, hok⟩ := bind_ok.mp hok
    have h₁ := dependencies_inv h hdeps
    cases hb : t.body with
    | approval scope solicitation deadline policy =>
      rw [hb] at hok
      obtain ⟨d, _, hok⟩ := bind_ok.mp hok
      cases hprev : approvalByKey snap t.key with
      | none =>
        rw [hprev] at hok
        exact insertApproval_inv (h₁.act (Act.row (RowAct.ids 1))) hok
      | some prev =>
        rw [hprev] at hok
        exact insertApproval_inv h₁ hok
    | agentTask | manual | notification | wait | checkpoint =>
      rw [hb] at hok
      rw [← Except.ok.inj hok]
      exact h₁

/-- A first insert is an edit of a workflow without approvals. -/
theorem insertSidecars_eq (spec : WorkflowSpec) {snap : Engine} (hnone : approvalByKey snap t.key = none) :
    insertSidecars host ids m t = applySidecars host snap spec ids m t := by
  rw [insertSidecars, applySidecars, hnone]

variable {resolved : Record ResolvedTask}

theorem insertSpecTask_ok (h : insertSpecTask resolved ids m t = .ok m') :
    (lookup ids t.key = none ∧ m' = m) ∨ ∃ id, lookup ids t.key = some id ∧
      insertTask m (newTaskRow m id (buildCols resolved t)) = .ok m' := by
  rw [insertSpecTask] at h
  cases hid : lookup ids t.key with
  | none =>
    rw [hid] at h
    exact .inl ⟨rfl, (Except.ok.inj h).symm⟩
  | some id =>
    rw [hid] at h
    exact .inr ⟨id, rfl, h⟩

variable {frozen : Record FrozenTaskTuple}

theorem resolveOrThrow_ok {now : Instant} (h : resolveOrThrow host spec frozen now = .ok resolved) :
    resolveSchedule host spec frozen now = some resolved := by
  rw [resolveOrThrow] at h
  cases hr : resolveSchedule host spec frozen now with
  | none =>
    rw [hr] at h
    cases h
  | some r =>
    rw [hr] at h
    rw [Except.ok.inj h]

theorem insertSpecRows_inv (hnd : spec.keys.Nodup) (h : Inv e)
    (hok : insertSpecRows host spec frozen e = .ok m) : Inv m := by
  rw [insertSpecRows] at hok
  obtain ⟨resolved, _, hok⟩ := bind_ok.mp hok
  obtain ⟨m₁, h₁, hok⟩ := bind_ok.mp hok
  obtain ⟨m₂, h₂, h₃⟩ := bind_ok.mp hok
  have hlen : spec.keys.length = spec.tasks.length := List.length_map ..
  have hinv₁ : Inv m₁ ∧ m₁.nextUuid = e.nextUuid + spec.tasks.length := by
    refine foldlM_keeps (P := fun m : Engine =>
      Inv m ∧ m.nextUuid = e.nextUuid + spec.tasks.length) h₁
      ⟨h.act (Act.row (RowAct.ids _)), rfl⟩ ?_
    rintro a t b _ hstep ⟨ha, hn⟩
    rcases insertSpecTask_ok hstep with ⟨_, rfl⟩ | ⟨id, hid, hins⟩
    · exact ⟨ha, hn⟩
    · obtain ⟨hidf, hkeyf, rfl⟩ := insertTask_ok hins
      refine ⟨inv_insertTask ha hidf hkeyf ?_ rfl _, hn⟩
      exact assignIds_old hnd hid (by rw [hn, hlen])
  have hinv₂ : Inv m₂ :=
    foldlM_keeps (P := Inv) h₂ hinv₁.1 (fun _ _ _ _ hstep hm => setParentOf_inv hm hstep)
  refine foldlM_keeps (P := Inv) h₃ hinv₂ fun n t _ _ hstep hn => ?_
  have hnone : approvalByKey (emptyEngine n.db.workflow n.clock) t.key = none := rfl
  rw [insertSidecars_eq spec hnone] at hstep
  exact applySidecars_inv hn hstep

theorem inv_emptyEngine (workflow : WorkflowRow) (clock : Instant) :
    Inv (emptyEngine workflow clock) := by
  have hnil : ∀ {α : Type} {P : α → Prop}, ∀ a ∈ ([] : List α), P a :=
    fun a ha => absurd ha List.not_mem_nil
  refine ⟨⟨List.nodup_nil, List.nodup_nil, hnil⟩, ⟨List.nodup_nil, hnil, fun _ => rfl, hnil, hnil,
    hnil, hnil, hnil⟩, ⟨List.nodup_nil, hnil, hnil, hnil⟩, ⟨List.nodup_nil, hnil, hnil, hnil,
    hnil⟩, ⟨hnil, hnil, List.nodup_nil, hnil⟩, fun _ => ⟨hnil, rfl, rfl⟩, fun _ => rfl⟩

variable {workflowId name : String} {clock : Instant}

theorem createWorkflowFromSpec_ok
    (h : createWorkflowFromSpec host workflowId name spec clock = .ok m) :
    ∃ workflow : WorkflowRow, workflow.status = .draft ∧
      insertSpecRows host spec [] (emptyEngine workflow clock) = .ok m := by
  rw [createWorkflowFromSpec] at h
  obtain ⟨targetAtUtc, _, h⟩ := bind_ok.mp h
  exact ⟨_, rfl, h⟩

theorem inv_created (hvalid : TemplateValid host spec)
    (h : createWorkflowFromSpec host workflowId name spec clock = .ok m) : Inv m := by
  obtain ⟨workflow, _, hins⟩ := createWorkflowFromSpec_ok h
  exact insertSpecRows_inv hvalid.keys_nodup (inv_emptyEngine workflow clock) hins

/-! ## The rows of a spec -/

theorem sourcesKnown_of_cols (resolved : Record ResolvedTask) (hvalid : TemplateValid host spec)
    (hcols : ∀ r ∈ m.db.tasks, ∃ t ∈ spec.tasks, r.toTaskCols = buildCols resolved t)
    (hall : ∀ t ∈ spec.tasks, ∃ r ∈ m.db.tasks, r.key = t.key) : SourcesKnown m := by
  intro r hr fe hfe
  obtain ⟨t, ht, heq⟩ := hcols r hr
  rw [heq] at hfe
  obtain ⟨s, hs, hkey⟩ := List.mem_map.mp (hvalid.foreach_source_known ht hfe)
  obtain ⟨r', hr', hk⟩ := hall s hs
  exact ⟨r', hr', hk.trans hkey⟩

/-- What the statements on parents, edges and approvals leave of the task rows. -/
theorem setParentOf_tasks (hok : setParentOf ids m t = .ok m') :
    ∃ g : TaskRow → Option RowId, m'.db.tasks = m.db.tasks.map (fun r =>
      { r with parentTaskId := g r }) := by
  rcases setParentOf_ok hok with rfl | ⟨id, parent, _, rfl⟩
  · exact ⟨fun r => r.parentTaskId, (List.map_id' _).symm⟩
  refine ⟨fun r => if r.id = id then parent else r.parentTaskId, ?_⟩
  refine List.map_congr_left (fun r _ => ?_)
  by_cases hr : r.id = id
  · simp only [decide_eq_true hr, if_true, if_pos hr]
  · simp only [decide_eq_false hr, if_neg hr]
    rfl

/-- An approval no one has acted on. -/
def Blank (a : ApprovalRow) : Prop := a.status = .pending ∧ a.solicitedAt = none

/-- The state after a task's edges and approval are written. -/
def withSidecars (m : Engine) (n : Nat) (deps : List DependencyRow) (aps : List ApprovalRow) :
    Engine :=
  { m with db := { m.db with deps := m.db.deps ++ deps, approvals := m.db.approvals ++ aps },
           nextUuid := m.nextUuid + n }

theorem dependencies_ok
    {edges : List TaskDependency} (hok : edges.foldlM (insertSpecDependency ids t id) m = .ok m') :
    ∃ rows n, m' = withSidecars m n rows [] ∧ (∀ d ∈ rows, d.taskId = id) ∧
      rows.map (fun d => (some d.dependsOnTaskId, d.outcome)) =
        edges.map (fun d => (lookup ids d.taskKey, d.outcomeOrSuccess)) := by
  induction edges generalizing m with
  | nil =>
    have heq : m = m' := Except.ok.inj hok
    subst heq
    refine ⟨[], 0, ?_, fun d hd => absurd hd List.not_mem_nil, rfl⟩
    rw [withSidecars, List.append_nil, List.append_nil]
    rfl
  | cons dep edges ih =>
    obtain ⟨m₁, hstep, hrest⟩ := foldlM_cons_ok.mp hok
    obtain ⟨upstream, hup, _, _, rfl⟩ := insertSpecDependency_ok hstep
    obtain ⟨rows, n, rfl, htask, hrows⟩ := ih hrest
    refine ⟨⟨m.freshId, id, upstream, dep.outcomeOrSuccess⟩ :: rows, 1 + n, ?_, ?_, ?_⟩
    · simp only [withSidecars, Engine.tookIds, List.append_assoc, List.singleton_append,
        Nat.add_assoc]
    · intro d hd
      rcases List.mem_cons.mp hd with rfl | hd
      · rfl
      · exact htask d hd
    · rw [List.map_cons, List.map_cons, hrows, hup]

/-- The approvals of a spec task: one with the settings of an approval task, else none. -/
def SpecApprovals (host : Host) (t : TaskSpec) (rows : List ApprovalRow) : Prop :=
  match t.body with
  | .approval scope solicitation deadline policy =>
    ∃ d a, optionalDate host deadline = .ok d ∧ rows = [a] ∧ a.requiredScope = stored scope.toJson ∧
      a.solicitationSchedule = solicitation.map ScheduleSpec.toJson ∧
      a.deadlineUtc = d ∧ a.rejectionPolicy = policy
  | _ => rows = []

theorem insertSidecars_ok (hok : insertSidecars host ids m t = .ok m') :
    ∃ deps aps n, m' = withSidecars m n deps aps ∧ (∀ a ∈ aps, Blank a) ∧
      ∀ id, lookup ids t.key = some id → (∀ a ∈ aps, a.taskId = id) ∧ SpecApprovals host t aps := by
  have hnil : ∀ {P : ApprovalRow → Prop}, ∀ a ∈ ([] : List ApprovalRow), P a :=
    fun a ha => absurd ha List.not_mem_nil
  rw [insertSidecars] at hok
  cases hid : lookup ids t.key with
  | none =>
    rw [hid] at hok
    refine ⟨[], [], 0, ?_, hnil, nofun⟩
    rw [← Except.ok.inj hok, withSidecars, List.append_nil, List.append_nil]
    rfl
  | some taskId =>
    rw [hid] at hok
    obtain ⟨m₁, hdeps, hok⟩ := bind_ok.mp hok
    obtain ⟨deps, n, rfl, _, _⟩ := dependencies_ok hdeps
    cases hb : t.body with
    | approval scope solicitation deadline policy =>
      rw [hb] at hok
      obtain ⟨d, hd, hok⟩ := bind_ok.mp hok
      obtain ⟨_, _, rfl⟩ := insertApproval_ok hok
      refine ⟨deps, [blankApproval (withSidecars m n deps []) taskId scope solicitation d
        policy], n + 1, ?_, ?_, ?_⟩
      · simp only [withSidecars, Engine.tookIds, List.append_nil]
        rfl
      · intro a ha
        rw [List.mem_singleton.mp ha]
        exact ⟨rfl, rfl⟩
      · rintro _ ⟨⟩
        rw [SpecApprovals, hb]
        exact ⟨fun a ha => List.mem_singleton.mp ha ▸ rfl, d, _, hd, rfl, rfl, rfl, rfl, rfl⟩
    | agentTask | manual | notification | wait | checkpoint =>
      rw [hb] at hok
      refine ⟨deps, [], n, (Except.ok.inj hok).symm, hnil, fun _ _ => ⟨hnil, ?_⟩⟩
      rw [SpecApprovals, hb]

/-- Each row is a spec task's, under the id of its key; the approvals are as before. -/
def Inserted (spec : WorkflowSpec) (resolved : Record ResolvedTask) (ids : Record RowId)
    (e m : Engine) : Prop :=
  (∀ r ∈ m.db.tasks, ∃ t ∈ spec.tasks, lookup ids t.key = some r.id ∧
    r.toTaskCols = buildCols resolved t) ∧ m.db.approvals = e.db.approvals

/-- The rows of a fresh insert, once they have their parents. -/
theorem inserted_rows (hempty : e.db.tasks = []) {m₁ m₂ : Engine} {n : Nat}
    (h₁ : spec.tasks.foldlM (insertSpecTask resolved ids) (e.tookIds n) = .ok m₁)
    (h₂ : spec.tasks.foldlM (setParentOf ids) m₁ = .ok m₂) :
    Inserted spec resolved ids e m₂ := by
  have hrows₁ : Inserted spec resolved ids e m₁ := by
    refine foldlM_keeps (P := Inserted spec resolved ids e) h₁ ⟨?_, rfl⟩ ?_
    · intro r hr
      have hr' : r ∈ e.db.tasks := hr
      rw [hempty] at hr'
      cases hr'
    · rintro a t b ht hstep ⟨ha, hap⟩
      rcases insertSpecTask_ok hstep with ⟨_, rfl⟩ | ⟨id, hid, hins⟩
      · exact ⟨ha, hap⟩
      obtain ⟨_, _, rfl⟩ := insertTask_ok hins
      refine ⟨?_, hap⟩
      intro r hr
      rcases mem_concat.mp hr with hr | rfl
      · exact ha r hr
      · exact ⟨t, ht, hid, rfl⟩
  refine foldlM_keeps (P := Inserted spec resolved ids e) h₂ hrows₁ ?_
  rintro a t b _ hstep ⟨ha, hap⟩
  rcases setParentOf_ok hstep with rfl | ⟨id, parent, _, rfl⟩
  · exact ⟨ha, hap⟩
  refine ⟨?_, hap⟩
  intro r' hr'
  obtain ⟨r, hr, rfl⟩ := mem_updateWhere.mp hr'
  obtain ⟨s, hs, hid', hcols⟩ := ha r hr
  refine ⟨s, hs, ?_, ?_⟩
  · split <;> exact hid'
  · split <;> exact hcols

/-- Every row of a fresh insert is a spec task's, and every spec task has its row. -/
theorem insertSpecRows_cols (hvalid : TemplateValid host spec)
    (hempty : e.db.tasks = []) (hok : insertSpecRows host spec frozen e = .ok m) :
    SourcesKnown m := by
  rw [insertSpecRows] at hok
  obtain ⟨resolved, _, hok⟩ := bind_ok.mp hok
  obtain ⟨m₁, h₁, hok⟩ := bind_ok.mp hok
  obtain ⟨m₂, h₂, h₃⟩ := bind_ok.mp hok
  have hnd := hvalid.keys_nodup
  have hrows := (inserted_rows hempty h₁ h₂).1
  have hall₁ : ∀ t ∈ spec.tasks, ∃ r ∈ m₁.db.tasks, r.key = t.key := by
    intro t ht
    have hkeep : ∀ (a : Engine) (s : TaskSpec) (b : Engine), s ∈ spec.tasks → s ≠ t →
        insertSpecTask resolved (assignIds (fun _ => none) e.nextUuid spec.keys) a s = .ok b →
        (∃ r ∈ a.db.tasks, r.key = t.key) → ∃ r ∈ b.db.tasks, r.key = t.key := by
      rintro a s b _ _ hstep ⟨r, hr, hk⟩
      rcases insertSpecTask_ok hstep with ⟨_, rfl⟩ | ⟨id, _, hins⟩
      · exact ⟨r, hr, hk⟩
      · obtain ⟨_, _, rfl⟩ := insertTask_ok hins
        exact ⟨r, List.mem_append_left _ hr, hk⟩
    refine foldlM_reaches (P := fun _ => True)
      (Q := fun m : Engine => ∃ r ∈ m.db.tasks, r.key = t.key) h₁
      (List.Nodup.of_map _ hnd) ht trivial (fun _ _ _ _ _ _ _ => trivial) hkeep ?_
    intro a b hstep _
    rcases insertSpecTask_ok hstep with ⟨hnone, _⟩ | ⟨id, _, hins⟩
    · have hmem : t.key ∈ spec.keys := List.mem_map_of_mem ht
      rw [lookup_assignIds _ hnd, if_pos hmem] at hnone
      cases hnone
    · obtain ⟨_, _, rfl⟩ := insertTask_ok hins
      exact ⟨_, List.mem_concat_self, rfl⟩
  have hall₂ := foldlM_keeps (P := fun m : Engine =>
      ∀ t ∈ spec.tasks, ∃ r ∈ m.db.tasks, r.key = t.key) h₂ hall₁ (by
    intro a s b _ hstep ha t ht
    obtain ⟨g, hg⟩ := setParentOf_tasks hstep
    obtain ⟨r, hr, hk⟩ := ha t ht
    rw [hg]
    exact ⟨_, List.mem_map_of_mem hr, hk⟩)
  have hsame := foldlM_keeps (P := fun n : Engine => n.db.tasks = m₂.db.tasks) h₃ rfl (by
    intro a t b _ hstep ha
    obtain ⟨_, _, _, rfl, _⟩ := insertSidecars_ok hstep
    exact ha)
  refine sourcesKnown_of_cols resolved hvalid ?_ ?_
  · intro r hr
    rw [hsame] at hr
    obtain ⟨t, ht, _, hcols⟩ := hrows r hr
    exact ⟨t, ht, hcols⟩
  · rw [hsame]
    exact hall₂

theorem sourcesKnown_created (hvalid : TemplateValid host spec)
    (h : createWorkflowFromSpec host workflowId name spec clock = .ok m) : SourcesKnown m := by
  obtain ⟨workflow, _, hins⟩ := createWorkflowFromSpec_ok h
  exact insertSpecRows_cols hvalid rfl hins

/-! ## A draft's edit -/

variable {input : UpdateInput}

theorem editWorkflowRow_act {target : Option Instant}
    (hv : cur.db.workflow.lockVersion = input.expectedLockVersion) :
    Act cur (editWorkflowRow cur input target) := by
  refine Act.row (RowAct.workflow _ rfl ?_ rfl (fun h => h) ?_)
  · show canTransition workflowTransitions cur.db.workflow.status cur.db.workflow.status = true
    exact canTransition_self _
  · show cur.db.workflow.lockVersion < input.expectedLockVersion + 1
    rw [hv]
    exact Nat.lt_succ_self _

theorem inv_clearLinks (h : Inv m) :
    Inv { m with db := { m.db with deps := [], approvals := [] } } := by
  refine inv_relinked h rfl rfl rfl rfl rfl ⟨?_, ?_, List.nodup_nil, h.linked.artifacts⟩
  · exact fun _ hd => by cases hd
  · exact fun _ ha => by cases ha

theorem inv_clearApprovals (h : Inv m) : Inv { m with db := { m.db with approvals := [] } } := by
  refine inv_relinked h rfl rfl rfl rfl rfl
    ⟨h.linked.deps, ?_, List.nodup_nil, h.linked.artifacts⟩
  exact fun _ ha => by cases ha

/-- What no statement of an edit touches. -/
structure Framed (e m : Engine) : Prop where
  workflow : m.db.workflow = e.db.workflow
  attempts : m.db.attempts = e.db.attempts
  artifacts : m.db.artifacts = e.db.artifacts
  leases : m.db.leases = e.db.leases
  clock : m.clock = e.clock
  dispatched : m.dispatched = e.dispatched
  polled : m.polled = e.polled
  manualReads : m.manualReads = e.manualReads
  solicited : m.solicited = e.solicited
  fannedOut : m.fannedOut = e.fannedOut

theorem Framed.refl (e : Engine) : Framed e e := ⟨rfl, rfl, rfl, rfl, rfl, rfl, rfl, rfl, rfl, rfl⟩

theorem Framed.trans {a b c : Engine} (h : Framed a b) (h' : Framed b c) : Framed a c :=
  ⟨h'.workflow.trans h.workflow, h'.attempts.trans h.attempts, h'.artifacts.trans h.artifacts,
    h'.leases.trans h.leases, h'.clock.trans h.clock, h'.dispatched.trans h.dispatched,
    h'.polled.trans h.polled, h'.manualReads.trans h.manualReads,
    h'.solicited.trans h.solicited, h'.fannedOut.trans h.fannedOut⟩

/-- The row is in the table, under some parent. -/
def HasRow (m : Engine) (row : TaskRow) : Prop :=
  ∃ parent, { row with parentTaskId := parent } ∈ m.db.tasks

/-- What deleting tasks leaves: the other rows, some of them now at the top. -/
structure Pruned (tasks : List TaskRow) (e m : Engine) : Prop where
  inv : Inv m
  frame : Framed e m
  nextUuid : m.nextUuid = e.nextUuid
  rows : ∀ r' ∈ m.db.tasks, ∃ r ∈ e.db.tasks, (∀ t ∈ tasks, t.id ≠ r.id) ∧
    r' = { r with parentTaskId := r'.parentTaskId }
  kept : ∀ r ∈ e.db.tasks, (∀ t ∈ tasks, t.id ≠ r.id) → HasRow m r
  deps : ∀ d ∈ m.db.deps, d ∈ e.db.deps
  approvals : m.db.approvals = e.db.approvals

variable {tasks : List TaskRow}

private theorem pruned_cons {t : TaskRow} {m₁ : Engine}
    (hdel : deleteTask m t.id = .ok m₁) (hlease : ∀ l ∈ m.db.leases, l.taskId ≠ t.id)
    (h : Pruned tasks m₁ m') : Pruned (t :: tasks) m m' := by
  obtain ⟨_, _, _, rfl⟩ := deleteTask_ok hdel
  have hleases : m.db.leases.filter (fun l => l.taskId ≠ t.id) = m.db.leases :=
    List.filter_eq_self.mpr (fun l hl => by simpa using hlease l hl)
  have hframe : Framed m m' :=
    ⟨h.frame.workflow, h.frame.attempts, h.frame.artifacts, h.frame.leases.trans hleases,
      h.frame.clock, h.frame.dispatched, h.frame.polled, h.frame.manualReads, h.frame.solicited,
      h.frame.fannedOut⟩
  refine ⟨h.inv, hframe, h.nextUuid, ?_, ?_, ?_, h.approvals⟩
  · intro r' hr'
    obtain ⟨r₁, hr₁, hne, heq⟩ := h.rows r' hr'
    obtain ⟨r, hr, rfl⟩ := List.mem_map.mp hr₁
    obtain ⟨hrm, hrt⟩ := List.mem_filter.mp hr
    rw [orphan_eq] at hne heq
    refine ⟨r, hrm, ?_, heq⟩
    intro s hs
    rcases List.mem_cons.mp hs with rfl | hs
    · exact fun he => absurd he.symm (by simpa using hrt)
    · exact hne s hs
  · intro r hr hne
    have hmem : orphan t.id r ∈ (m.db.tasks.filter (fun s => s.id ≠ t.id)).map (orphan t.id) := by
      refine List.mem_map_of_mem (List.mem_filter.mpr ⟨hr, ?_⟩)
      simpa using fun he => hne t (List.mem_cons_self ..) he.symm
    obtain ⟨p, hp⟩ := h.kept _ hmem (by
      intro s hs
      rw [orphan_eq]
      exact hne s (.tail _ hs))
    rw [orphan_eq] at hp
    exact ⟨p, hp⟩
  · exact fun d hd => List.mem_of_mem_filter (h.deps d hd)

theorem deleteTasks_ok (h : Inv m) (hman : ∀ t ∈ tasks, ∀ r ∈ m.manualReads, r.taskId ≠ t.id)
    (hlease : ∀ t ∈ tasks, ∀ l ∈ m.db.leases, l.taskId ≠ t.id)
    (hok : tasks.foldlM (fun e t => deleteTask e t.id) m = .ok m') : Pruned tasks m m' := by
  induction tasks generalizing m with
  | nil =>
    have heq : m = m' := Except.ok.inj hok
    subst heq
    exact ⟨h, Framed.refl m, rfl, fun r hr => ⟨r, hr, fun _ ht => absurd ht List.not_mem_nil, rfl⟩,
      fun r hr _ => ⟨r.parentTaskId, hr⟩, fun _ hd => hd, rfl⟩
  | cons t tasks ih =>
    obtain ⟨m₁, hdel, hrest⟩ := foldlM_cons_ok.mp hok
    have h₁ := inv_deleteTask h hdel (hman t (List.mem_cons_self ..))
    have heq := (deleteTask_ok hdel).2.2.2
    refine pruned_cons hdel (hlease t (List.mem_cons_self ..)) (ih h₁ ?_ ?_ hrest)
    · rw [heq]
      exact fun s hs => hman s (.tail _ hs)
    · rw [heq]
      intro s hs l hl
      exact hlease s (.tail _ hs) l (List.mem_of_mem_filter hl)

/-- Inserting a spec's rows touches nothing else, and its approvals are blank. -/
theorem insertSpecRows_frame (hblank : ∀ a ∈ e.db.approvals, Blank a)
    (hok : insertSpecRows host spec frozen e = .ok m) :
    Framed e m ∧ ∀ a ∈ m.db.approvals, Blank a := by
  rw [insertSpecRows] at hok
  obtain ⟨resolved, _, hok⟩ := bind_ok.mp hok
  obtain ⟨m₁, h₁, hok⟩ := bind_ok.mp hok
  obtain ⟨m₂, h₂, h₃⟩ := bind_ok.mp hok
  have hframe₁ : Framed e m₁ ∧ ∀ a ∈ m₁.db.approvals, Blank a := by
    refine foldlM_keeps (P := fun m : Engine => Framed e m ∧ ∀ a ∈ m.db.approvals, Blank a) h₁
      ⟨⟨rfl, rfl, rfl, rfl, rfl, rfl, rfl, rfl, rfl, rfl⟩, hblank⟩ ?_
    rintro a t b _ hstep ⟨hf, ha⟩
    rcases insertSpecTask_ok hstep with ⟨_, rfl⟩ | ⟨id, _, hins⟩
    · exact ⟨hf, ha⟩
    · obtain ⟨_, _, rfl⟩ := insertTask_ok hins
      exact ⟨hf.trans ⟨rfl, rfl, rfl, rfl, rfl, rfl, rfl, rfl, rfl, rfl⟩, ha⟩
  have hframe₂ := foldlM_keeps (P := fun m : Engine =>
      Framed e m ∧ ∀ a ∈ m.db.approvals, Blank a) h₂ hframe₁ (by
    rintro a t b _ hstep ⟨hf, ha⟩
    rcases setParentOf_ok hstep with rfl | ⟨id, parent, _, rfl⟩
    · exact ⟨hf, ha⟩
    · exact ⟨hf.trans ⟨rfl, rfl, rfl, rfl, rfl, rfl, rfl, rfl, rfl, rfl⟩, ha⟩)
  refine foldlM_keeps (P := fun m : Engine => Framed e m ∧ ∀ a ∈ m.db.approvals, Blank a) h₃
    hframe₂ ?_
  rintro a t b _ hstep ⟨hf, ha⟩
  obtain ⟨deps, aps, n, rfl, hblank, -⟩ := insertSidecars_ok hstep
  refine ⟨hf.trans ⟨rfl, rfl, rfl, rfl, rfl, rfl, rfl, rfl, rfl, rfl⟩, ?_⟩
  intro ap hap
  rcases List.mem_append.mp hap with hap | hap
  · exact ha ap hap
  · exact hblank ap hap

theorem replaceDraftRows_inv {snap : Engine} (h : Inv cur)
    (hdraft : cur.db.workflow.status = .draft) (hvalid : TemplateValid host input.spec)
    (hok : replaceDraftRows host input snap cur = .ok m) :
    Inv m ∧ SourcesKnown m ∧ Framed cur m ∧ ∀ a ∈ m.db.approvals, Blank a := by
  rw [replaceDraftRows] at hok
  obtain ⟨m₁, hdel, hins⟩ := bind_ok.mp hok
  have hatt : ∀ id, ¬ Attempted cur id := by
    rintro id ⟨a, ha, _⟩
    rw [(h.draft hdraft).attempts] at ha
    cases ha
  -- a draft has dispatched nothing, so nothing holds a task of it
  have hman : ∀ r ∈ cur.manualReads, False := by
    intro r hr
    obtain ⟨t, ht, _, _, _, hown⟩ := h.carried.manual r hr
    rcases hown with hown | ⟨_, hw⟩
    · exact hatt _ hown
    · exact hw (.inl ((h.draft hdraft).idle t ht))
  have hp := deleteTasks_ok (inv_clearApprovals h) (fun _ _ r hr => absurd (hman r hr) id)
    (fun _ _ l hl => absurd (lease_attempted h hl) (hatt _)) hdel
  have hnil : m₁.db.tasks = [] := by
    refine List.eq_nil_iff_forall_not_mem.mpr ?_
    intro r' hr'
    obtain ⟨r, hr, hne, _⟩ := hp.rows r' hr'
    exact hne r hr rfl
  have hnone : ∀ a ∈ m₁.db.approvals, Blank a := by
    intro a ha
    rw [hp.approvals] at ha
    cases ha
  obtain ⟨hframe, hblank⟩ := insertSpecRows_frame hnone hins
  refine ⟨insertSpecRows_inv hvalid.keys_nodup hp.inv hins, insertSpecRows_cols hvalid hnil hins,
    Framed.trans ?_ (hp.frame.trans hframe), hblank⟩
  exact ⟨rfl, rfl, rfl, rfl, rfl, rfl, rfl, rfl, rfl, rfl⟩

end WfEditing
