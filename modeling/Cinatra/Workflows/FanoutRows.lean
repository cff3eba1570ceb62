import Cinatra.Workflows.Runs

/-! # FanoutRows — the rows a foreach parent writes

    An accepted batch has one plan for each item of the source's output.  A plan whose
    key is already taken inserts nothing (`ON CONFLICT DO NOTHING`), and the parent
    runs all the same; keys are `parent__stable`, and both halves may contain `__`, so
    a batch can meet an ordinary task or a child of another parent. -/

namespace WfFanoutRows

open RowTable Loop JsonValue WfTransitions WfSpec WfRows WfHost WfState WfReconciler WfForeach
open WfForeachReconciler WfLifecycle WfEngine WfActs WfInvariant WfPaths WfInterference WfFanout
open WfRuns

variable {e cur m m' : Engine} {now : Instant} {host : Host}

/-! ## The batch -/

variable {fe : ForeachConfig}

theorem stableIds_spec {parentKey : String} (items : List Json) :
    ∀ (i : Nat) (seen stables : List String),
      stableIds host fe parentKey i seen items = .ok stables →
      stables.length = items.length ∧ stables.Nodup ∧ ∀ s ∈ stables, s ∉ seen := by
  induction items with
  | nil =>
    intro i seen stables h
    rw [← Except.ok.inj h]
    exact ⟨rfl, List.nodup_nil, fun s hs => absurd hs List.not_mem_nil⟩
  | cons item items ih =>
    intro i seen stables h
    rw [stableIds] at h
    obtain ⟨stable, _, h⟩ := bind_ok.mp h
    cases hfind : seen.reverse.findIdx? (fun s => s = stable) with
    | some j =>
      rw [hfind] at h
      cases h
    | none =>
      rw [hfind] at h
      obtain ⟨rest, hrest, heq⟩ := bind_ok.mp h
      obtain ⟨hlen, hnd, hseen⟩ := ih _ _ _ hrest
      have hnew : stable ∉ seen := by
        intro hmem
        have hnone := List.findIdx?_eq_none_iff.mp hfind stable (List.mem_reverse.mpr hmem)
        simp at hnone
      rw [← Except.ok.inj heq]
      refine ⟨?_, ?_, ?_⟩
      · simp [hlen]
      · refine List.nodup_cons.mpr ⟨?_, hnd⟩
        exact fun hmem => hseen stable hmem (List.mem_cons_self ..)
      · intro s hs hmem
        rcases List.mem_cons.mp hs with rfl | hs
        · exact hnew hmem
        · exact hseen s hs (.tail _ hmem)

variable {args : MaterializeForeachInput} {known : String → Bool}

theorem childPlan_key {total i : Nat} {stable : String} {item : Json} {p : ChildPlan}
    (h : childPlan host args known total i stable item = .ok p) :
    p.key = childKey args.parentKey stable := by
  rw [childPlan] at h
  obtain ⟨deps, _, hp⟩ := bind_ok.mp h
  rw [← Except.ok.inj hp]
  rfl

theorem childPlans_keys {total : Nat} (stables : List String) :
    ∀ (i : Nat) (items : List Json) (plans : List ChildPlan), stables.length = items.length →
      childPlans host args known total i stables items = .ok plans →
      plans.map ChildPlan.key = stables.map (childKey args.parentKey) := by
  induction stables with
  | nil =>
    intro i items plans hlen h
    rw [childPlans] at h
    · rw [← Except.ok.inj h]
      rfl
    · intro _ _ _ _ hnil _
      cases hnil
  | cons stable stables ih =>
    intro i items plans hlen h
    cases items with
    | nil => cases hlen
    | cons item items =>
      rw [childPlans] at h
      obtain ⟨plan, hplan, hrest⟩ := bind_ok.mp h
      obtain ⟨rest, hrest, heq⟩ := bind_ok.mp hrest
      rw [← Except.ok.inj heq, List.map_cons, List.map_cons, childPlan_key hplan,
        ih _ _ _ (Nat.succ.inj hlen) hrest]

theorem childKey_injective (parentKey : String) : Function.Injective (childKey parentKey) := by
  intro a b h
  have hlist := congrArg String.toList h
  rw [childKey, childKey] at hlist
  simp only [String.toList_append] at hlist
  exact String.toList_injective (List.append_cancel_left hlist)

variable {plans : List ChildPlan}

/-- **What an accepted batch is**: a plan for each item, under its own key. -/
theorem materialize_batch (h : materializeForeachChildren host args = .ok plans) :
    ∃ items stables, sourceItems args.sourceOutput = some items ∧
      stableIds host args.foreachConfig args.parentKey 0 [] items = .ok stables ∧
      stables.length = items.length ∧ stables.Nodup ∧
      plans.map ChildPlan.key = stables.map (childKey args.parentKey) := by
  obtain ⟨items, stables, _, hitems, hstables, hplans⟩ := materialize_ok h
  obtain ⟨hlen, hnd, _⟩ := stableIds_spec _ _ _ _ hstables
  exact ⟨items, stables, hitems, hstables, hlen, hnd, childPlans_keys _ _ _ _ hlen hplans⟩

/-! ## The rows of a batch -/

/-- No task has the key of the plan. -/
def free (e : Engine) (p : ChildPlan) : Bool := !e.db.tasks.any (fun t => t.key = p.key)

/-- **What the inserts write**: a row for each plan whose key is free, under an id no
    task has. -/
theorem insertChildren_rows (plans : List ChildPlan) (hnd : (plans.map ChildPlan.key).Nodup)
    (h : plans.foldlM (insertChild now) e = .ok m) :
    m.db.tasks = e.db.tasks ++ (plans.filter (free e)).map (childRow e) ∧ m.clock = e.clock ∧
      ∀ p ∈ plans.filter (free e), ∀ t ∈ e.db.tasks, t.id ≠ p.id := by
  induction plans generalizing e with
  | nil =>
    rw [← Except.ok.inj h]
    simp
  | cons p plans ih =>
    obtain ⟨m₁, hfirst, hrest⟩ := foldlM_cons_ok.mp h
    rw [List.map_cons, List.nodup_cons] at hnd
    obtain ⟨hrows, hclock, hids⟩ := ih hnd.2 hrest
    rcases insertChild_ok hfirst with ⟨rfl, t, ht, hkey⟩ | ⟨hkey, hid, heq⟩
    · have hnot : ¬ free m₁ p = true := by
        simpa [free] using ⟨t, ht, hkey⟩
      rw [List.filter_cons_of_neg hnot]
      exact ⟨hrows, hclock, hids⟩
    have hfree : free e p = true := by
      simpa [free] using hkey
    -- the row just inserted takes no key of the plans to come
    have hsame : plans.filter (free m₁) = plans.filter (free e) := by
      apply List.filter_congr
      intro q hq
      have hqp : ¬ p.key = q.key := fun hk => hnd.1 (hk ▸ List.mem_map_of_mem hq)
      rw [heq, free, free, List.any_append]
      show (!(e.db.tasks.any (fun t => t.key = q.key) || (decide (p.key = q.key) || false))) = _
      rw [decide_eq_false hqp, Bool.or_false, Bool.or_false]
    rw [hsame] at hrows hids
    rw [heq] at hrows hclock hids
    rw [List.filter_cons_of_pos hfree, List.map_cons]
    refine ⟨?_, hclock, ?_⟩
    · rw [hrows, List.append_assoc]
      rfl
    · intro q hq t ht
      rcases List.mem_cons.mp hq with rfl | hq
      · exact hid t ht
      · exact hids q hq t (List.mem_append_left _ ht)

theorem persistChildPlans_rows (hnd : (plans.map ChildPlan.key).Nodup)
    (h : persistChildPlans now plans e = .ok m) :
    m.db.tasks = e.db.tasks ++ (plans.filter (free e)).map (childRow e) ∧
      ∀ p ∈ plans.filter (free e), ∀ t ∈ e.db.tasks, t.id ≠ p.id := by
  rw [persistChildPlans] at h
  obtain ⟨m₁, h₁, h⟩ := bind_ok.mp h
  obtain ⟨m₂, h₂, h₃⟩ := bind_ok.mp h
  obtain ⟨hrows, _, hids⟩ := insertChildren_rows plans hnd h₁
  have hedges : m₂.db.tasks = m₁.db.tasks := by
    refine foldlM_keeps (P := fun n => n.db.tasks = m₁.db.tasks) h₂ rfl ?_
    intro a p b _ hab ha
    refine foldlM_keeps (P := fun n => n.db.tasks = m₁.db.tasks) hab ha ?_
    intro a' d b' _ hab' ha'
    rcases insertChildDependency_ok hab' with rfl | ⟨_, _, _, rfl⟩
    · exact ha'
    · exact ha'
  have happrovals : m.db.tasks = m₂.db.tasks := by
    refine foldlM_keeps (P := fun n => n.db.tasks = m₂.db.tasks) h₃ rfl ?_
    intro a p b _ hab ha
    rcases insertChildApproval_ok hab with ⟨-, rfl⟩ | ⟨_, _, _, _, rfl⟩
    · exact ha
    · exact ha
  exact ⟨(happrovals.trans hedges).trans hrows, hids⟩

/-- The rows of `m'` whose id no row of `m` has. -/
def newRows (m m' : Engine) : List TaskRow := m'.db.tasks.filter (fun t => !hasTask m t.id)

variable {added : List TaskRow}

/-- The new rows are the ones appended, when the old rows keep their ids. -/
theorem newRows_eq {old : List TaskRow} (hrows : m'.db.tasks = old ++ added)
    (hold : old.map TaskRow.id = m.db.tasks.map TaskRow.id)
    (hadded : ∀ r ∈ added, ∀ t ∈ m.db.tasks, t.id ≠ r.id) : newRows m m' = added := by
  rw [newRows, hrows, List.filter_append]
  have hfirst : old.filter (fun t => !hasTask m t.id) = [] := by
    rw [List.filter_eq_nil_iff]
    intro r hr hnew
    rw [Bool.not_eq_true', ← Bool.not_eq_true, hasTask_iff] at hnew
    have hmem : r.id ∈ m.db.tasks.map TaskRow.id := hold ▸ List.mem_map_of_mem hr
    obtain ⟨t, ht, hid⟩ := List.mem_map.mp hmem
    exact hnew ⟨t, ht, hid⟩
  have hrest : added.filter (fun t => !hasTask m t.id) = added := by
    rw [List.filter_eq_self]
    intro r hr
    rw [Bool.not_eq_true', ← Bool.not_eq_true, hasTask_iff]
    rintro ⟨t, ht, hid⟩
    exact hadded r hr t ht hid
  rw [hfirst, hrest, List.nil_append]

/-- Moving the parent's row leaves the new rows as they are. -/
theorem newRows_setParent {parent : TaskRow} {f : TaskRow → TaskRow}
    (hf : ∀ t, (f t).id = t.id) (hparent : parent ∈ m.db.tasks)
    (hrows : cur.db.tasks = m.db.tasks ++ added)
    (hadded : ∀ r ∈ added, ∀ t ∈ m.db.tasks, t.id ≠ r.id) :
    newRows m (setParent cur parent f) = added := by
  have hset : (setParent cur parent f).db.tasks =
      updateWhere (versionIs parent.id parent.lockVersion) (fun t =>
        { f t with lockVersion := t.lockVersion + 1, updatedAt := cur.clock }) m.db.tasks ++
      added := by
    show updateWhere (versionIs parent.id parent.lockVersion) _ cur.db.tasks = _
    rw [hrows]
    conv_lhs => rw [updateWhere, List.map_append]
    refine congrArg₂ (· ++ ·) rfl (updateWhere_eq_self ?_)
    intro r hr
    rw [← Bool.not_eq_true, versionIs_iff]
    exact fun h => hadded r hr parent hparent h.1.symm
  refine newRows_eq hset ?_ hadded
  exact map_updateWhere _ _ hf

/-! ## A parent's turn -/

section Turns

variable {parent : TaskRow}

theorem childRow_ids (hids : ∀ p ∈ plans.filter (free m), ∀ t ∈ m.db.tasks, t.id ≠ p.id) :
    ∀ r ∈ (plans.filter (free m)).map (childRow m), ∀ t ∈ m.db.tasks, t.id ≠ r.id := by
  intro r hr t ht
  obtain ⟨p, hp, rfl⟩ := List.mem_map.mp hr
  exact hids p hp t ht

theorem materialize_keys_nodup (h : materializeForeachChildren host args = .ok plans) :
    (plans.map ChildPlan.key).Nodup := by
  obtain ⟨_, stables, _, _, _, hnd, hkeys⟩ := materialize_batch h
  rw [hkeys]
  exact hnd.map (childKey_injective _)

/-- The turn of an idle parent in a foreach pass over the rows of `e`, its source having
    succeeded: from `m`, which the parents before it have left, to `m'`. -/
structure DueTurn (host : Host) (now : Instant) (e : Engine) (parent : TaskRow)
    (fe : ForeachConfig) (source : TaskRow) (m m' : Engine) : Prop where
  passed : ∃ between before after, e.db.tasks = before ++ parent :: after ∧
    before.foldlM (reconcileForeachParent host now e.db.tasks) (interfere e between) = .ok m
  turn : reconcileForeachParent host now e.db.tasks m parent = .ok m'
  idle : parent.status = .idle
  config : parent.foreachConfig = some fe
  sourceRow : taskByKey e.db.tasks fe.source = some source
  succeeded : source.status = .succeeded

variable {fe : ForeachConfig} {source : TaskRow}

section

variable (h : DueTurn host now e parent fe source m m')

include h

theorem DueTurn.mem : parent ∈ e.db.tasks := by
  obtain ⟨_, before, after, hrows, _⟩ := h.passed
  rw [hrows]
  exact List.mem_append_right _ (List.mem_cons_self ..)

theorem DueTurn.path (hinv : Inv e)
    (hsrc : SourcesKnown e) (hlive : Live e.db.workflow.status) : Path e m ∧ Path e m' := by
  obtain ⟨between, before, after, hrows, hrun⟩ := h.passed
  have hm : Path e m := by
    refine foldlM_keeps (P := fun n => Path e n) hrun
      (interfered_interfere hinv between).path.path ?_
    intro a q b hq hab ha
    refine reconcileForeachParent_path hinv hsrc hlive ha ?_ hab
    rw [hrows]
    exact List.mem_append_left _ hq
  exact ⟨hm, reconcileForeachParent_path hinv hsrc hlive hm h.mem h.turn⟩

end

/-- The materialiser's input in a turn. -/
def turnArgs (e m : Engine) (parent : TaskRow) (fe : ForeachConfig) (source : TaskRow) :
    MaterializeForeachInput :=
  { workflowId := m.db.workflow.id, parentId := parent.id, parentKey := parent.key,
    foreachConfig := fe, sourceOutput := readLatestSucceededAttemptOutput m source.id,
    taskKeys := e.db.tasks.map (fun t => t.key) }

theorem DueTurn.outcome (h : DueTurn host now e parent fe source m m') :
    (∃ err, materializeForeachChildren host (turnArgs e m parent fe source) = .error err ∧
      m' = persistForeachMaterializationFailure m parent err.code) ∨
    (materializeForeachChildren host (turnArgs e m parent fe source) = .ok [] ∧
      m' = setParent m parent (fun t =>
        { t with status := .succeeded, actualStartUtc := some m.clock,
                 actualEndUtc := some m.clock })) ∨
    (∃ plans m₁, materializeForeachChildren host (turnArgs e m parent fe source) = .ok plans ∧
      plans ≠ [] ∧ persistChildPlans now plans m = .ok m₁ ∧
      m' = setParent m₁ parent (fun t =>
        { t with status := .running, actualStartUtc := some m₁.clock })) := by
  have hturn := h.turn
  simp only [reconcileForeachParent, h.config, h.sourceRow, h.idle, handleIdleParent,
    h.succeeded] at hturn
  split at hturn
  · rename_i err hmat
    exact .inl ⟨err, hmat, (Except.ok.inj hturn).symm⟩
  · rename_i hmat
    exact .inr (.inl ⟨hmat, (Except.ok.inj hturn).symm⟩)
  · rename_i plans hne hmat
    obtain ⟨m₁, h₁, heq⟩ := bind_ok.mp hturn
    exact .inr (.inr ⟨plans, m₁, hmat, hne, h₁, (Except.ok.inj heq).symm⟩)

/-! ## The keys of a batch -/

/-- If the batch is accepted, no task has the key of one of its items. -/
def KeysFree (host : Host) (e m : Engine) (parent : TaskRow) (fe : ForeachConfig)
    (source : TaskRow) : Prop :=
  (∃ plans, materializeForeachChildren host (turnArgs e m parent fe source) = .ok plans) →
  ∀ items stables, sourceItems (turnArgs e m parent fe source).sourceOutput = some items →
    stableIds host fe parent.key 0 [] items = .ok stables →
    ∀ s ∈ stables, ∀ t ∈ m.db.tasks, t.key ≠ childKey parent.key s

/-- The keys of an accepted batch are free when every plan's is. -/
theorem keysFree_iff
    (hmat : materializeForeachChildren host (turnArgs e m parent fe source) = .ok plans) :
    KeysFree host e m parent fe source ↔ plans.filter (free m) = plans := by
  obtain ⟨items, stables, hitems, hstables, _, _, hkeys⟩ := materialize_batch hmat
  have hfree : ∀ p, free m p = true ↔ ∀ t ∈ m.db.tasks, t.key ≠ p.key := by
    intro p
    rw [free, Bool.not_eq_true', ← Bool.not_eq_true, List.any_eq_true]
    simp
  have hmem : ∀ p ∈ plans, ∃ s ∈ stables, childKey parent.key s = p.key := by
    intro p hp
    have hpk := List.mem_map_of_mem (f := ChildPlan.key) hp
    rw [hkeys] at hpk
    exact List.mem_map.mp hpk
  rw [List.filter_eq_self]
  constructor
  · intro h p hp
    obtain ⟨s, hs, hsk⟩ := hmem p hp
    rw [hfree, ← hsk]
    exact h ⟨plans, hmat⟩ items stables hitems hstables s hs
  · intro h _ items' stables' hitems' hstables' s hs
    have hii : items' = items := Option.some.inj (hitems'.symm.trans hitems)
    rw [hii] at hstables'
    rw [Except.ok.inj (hstables'.symm.trans hstables)] at hs
    have hkmem : childKey parent.key s ∈ plans.map ChildPlan.key := by
      rw [hkeys]
      exact List.mem_map_of_mem hs
    obtain ⟨p, hp, hpk⟩ := List.mem_map.mp hkmem
    rw [← hpk]
    exact (hfree p).mp (h p hp)

/-- A parent's row once its children are inserted. -/
def started (clock : Instant) (t : TaskRow) : TaskRow :=
  { t with status := .running, actualStartUtc := some clock }

end Turns

/-! ## A fan-out over one item -/

/-- A checkpoint for each item. -/
def oneCheckpoint : ForeachConfig :=
  ⟨"s", "item", none,
    .obj [("type", .str "checkpoint"), ("key", .str "c"), ("title", .str "c")], none, none⟩

/-- The agent task succeeds with one item. -/
def oneItem : List Op :=
  [.lockFree .start, .claim 0 [],
    .record 0 [(⟨.uuid 0, .uuid 3, 1, ⟨"wf", .uuid 0, 1⟩, .uuid 4⟩,
      ⟨.running, none, some "r"⟩, [])],
    .pollRead,
    .pollSettle 0 [(⟨.uuid 0, .uuid 3, 1, "r"⟩,
      { terminal := true, failed := false, hitl := false,
        output := some (.obj [("items", .arr [.str "x"])]) }, [])]]

/-- The task row of a key. -/
def rowOf (e : Engine) (key : String) : TaskRow :=
  (taskByKey e.db.tasks key).getD (childRow e ⟨.uuid 0, childCols "" "" "" .null, .uuid 0, [], none⟩)

theorem dueTurn_second {parent source next : TaskRow} (hrows : e.db.tasks = [source, parent, next])
    (hturn : reconcileForeachParent host now e.db.tasks e parent = .ok m')
    (hplain : source.foreachConfig = none ∧ source.status = .succeeded)
    (hparent : parent.status = .idle ∧ parent.foreachConfig = some fe)
    (hsource : taskByKey e.db.tasks fe.source = some source) :
    DueTurn host now e parent fe source e m' := by
  refine ⟨⟨[], [source], [next], hrows, ?_⟩, hturn, hparent.1, hparent.2, hsource, hplain.2⟩
  refine foldlM_cons_ok.mpr ⟨e, ?_, rfl⟩
  rw [reconcileForeachParent, hplain.1]
  rfl

end WfFanoutRows
