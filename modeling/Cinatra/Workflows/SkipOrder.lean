import Mathlib.Data.List.Perm.Basic
import Mathlib.Order.Bounds.Basic
import Cinatra.Workflows.Frames

/-! # SkipOrder — what the finalize pass decides, whatever the order of its rows

    The loop skips a task when an edge of it can never be satisfied, given the
    skips so far.  Skipping only ever adds to what can be skipped, so with no
    blocking failure the skipped tasks are the least set closed under that rule
    (`skippedSet_least`), whatever the order in which the database returned tasks
    and edges (`finalize_confluent`).

    A blocking failure is decided twice: by the roll-up, which looks at `required`
    and the policy, and by the loop, which looks at the policy of an upstream
    alone.  They agree exactly when no optional block-policy failure has a task
    waiting behind it (`failsOnlyRequired_iff`). -/

namespace WfSkipOrder

open RowTable Rounds WfTransitions WfSpec WfRows WfHost WfState WfReconciler WfSettle WfEngine
open WfRollup WfFrames

/-! ## The rule, without an order -/

/-- Some edge of the task can never be satisfied, once the tasks of `S` are skipped. -/
def Stuck (e : Engine) (S : Set RowId) (s : TaskRow) : Prop :=
  ∃ d ∈ edgesOf e.db.deps s.id,
    terminalUnmatched ((statusById e.db.tasks d.dependsOnTaskId).getD .idle) d.outcome = true ∨
      (d.dependsOnTaskId ∈ S ∧ terminalUnmatched .skipped d.outcome = true)

/-- A set of tasks that contains every waiting task it leaves stuck. -/
def SkipClosed (e : Engine) (S : Set RowId) : Prop :=
  ∀ s ∈ e.db.tasks, waiting s.status = true → Stuck e S s → s.id ∈ S

/-- The tasks the loop has skipped. -/
def skippedSet (e : Engine) (st : SkipState) : Set RowId :=
  {id | ∃ s ∈ e.db.tasks, s.id = id ∧ waiting s.status = true ∧ statusIn st s = .skipped}

variable {e cur : Engine} {st : SkipState}

variable {s : TaskRow}

theorem Stuck.mono {S T : Set RowId} (hST : S ⊆ T) (h : Stuck e S s) : Stuck e T s := by
  obtain ⟨d, hd, h⟩ := h
  refine ⟨d, hd, ?_⟩
  rcases h with h | ⟨hup, hout⟩
  · exact .inl h
  · exact .inr ⟨hST hup, hout⟩

theorem terminalUnmatched_waiting {s : TaskStatus} (h : waiting s = true)
    (outcome : DependencyOutcome) : terminalUnmatched s outcome = false := by
  cases s with
  | idle | scheduled | pendingApproval => cases outcome <;> rfl
  | running | succeeded | failed | skipped | cancelled => exact absurd h (by decide)

/-- The loop's test on an edge is the rule at the tasks skipped so far. -/
theorem edgeUnmatched_iff (hids : TaskIds e) (h : Marked e st) (s : TaskRow) :
    (edgesOf e.db.deps s.id).any (edgeUnmatched st.statuses) = true ↔
      Stuck e (skippedSet e st) s := by
  have hedge : ∀ d, edgeUnmatched st.statuses d = true ↔
      terminalUnmatched ((statusById e.db.tasks d.dependsOnTaskId).getD .idle) d.outcome = true ∨
        (d.dependsOnTaskId ∈ skippedSet e st ∧ terminalUnmatched .skipped d.outcome = true) := by
    intro d
    rw [edgeUnmatched]
    cases hfind : taskById e.db.tasks d.dependsOnTaskId with
    | none =>
      -- no such row, so the map has none either
      have hnone : st.statuses.get d.dependsOnTaskId = none := by
        by_contra hget
        obtain ⟨u, hu, hid⟩ := h.known _ hget
        rw [← hid, taskById_eq_some hids hu] at hfind
        cases hfind
      rw [hnone, statusById, hfind]
      constructor
      · exact fun hun => .inl hun
      · rintro (hun | ⟨⟨u, hu, hid, _⟩, _⟩)
        · exact hun
        · rw [← hid, taskById_eq_some hids hu] at hfind
          cases hfind
    | some u =>
      obtain ⟨hu, hid⟩ := mem_of_taskById hfind
      rw [statusById, hfind, ← hid]
      show terminalUnmatched ((st.statuses.get u.id).getD .idle) d.outcome = true ↔
        terminalUnmatched u.status d.outcome = true ∨ _
      rcases h.status u hu with hget | ⟨hw, hget, _⟩
      · rw [hget]
        constructor
        · exact fun hun => .inl hun
        · rintro (hun | ⟨⟨r, hr, hrid, hw, hsk⟩, _⟩)
          · exact hun
          · -- the map has the row's own status, which is not `skipped`
            have hru : r = u := eq_of_key hids hr hu hrid
            rw [hru, statusIn, hget] at hsk
            rw [hru] at hw
            have hus : u.status = .skipped := hsk
            rw [hus] at hw
            exact absurd hw (by decide)
      · have hin : statusIn st u = .skipped := by
          rw [statusIn, hget]
          rfl
        rw [hget, terminalUnmatched_waiting hw]
        constructor
        · exact fun hun => .inr ⟨⟨u, hu, rfl, hw, hin⟩, hun⟩
        · rintro (hun | ⟨_, hun⟩)
          · cases hun
          · exact hun
  rw [List.any_eq_true]
  constructor
  · rintro ⟨d, hd, hun⟩
    exact ⟨d, hd, (hedge d).mp hun⟩
  · rintro ⟨d, hd, hun⟩
    exact ⟨d, hd, (hedge d).mpr hun⟩

/-! ## The loop against the rule -/

/-- Every task skipped so far is in each closed set. -/
def Forced (e : Engine) (st : SkipState) : Prop :=
  ∀ S, SkipClosed e S → skippedSet e st ⊆ S

theorem skippedSet_skipped (h : Marked e st) (hs : s ∈ e.db.tasks)
    (hw : waiting (statusIn st s) = true) :
    skippedSet e (skipped st s) = insert s.id (skippedSet e st) := by
  obtain ⟨hws, hget⟩ := h.waiting hs hw
  ext id
  constructor
  · rintro ⟨r, hr, rfl, hwr, hsk⟩
    rw [statusIn_skipped hget] at hsk
    by_cases hid : r.id = s.id
    · exact .inl hid
    · rw [if_neg hid] at hsk
      exact .inr ⟨r, hr, rfl, hwr, hsk⟩
  · rintro (rfl | ⟨r, hr, rfl, hwr, hsk⟩)
    · refine ⟨s, hs, rfl, hws, ?_⟩
      rw [statusIn_skipped hget, if_pos rfl]
    · refine ⟨r, hr, rfl, hwr, ?_⟩
      rw [statusIn_skipped hget, hsk]
      exact ite_self _

theorem Forced.step (hids : TaskIds e) (h : Marked e st) (hf : Forced e st) (hs : s ∈ e.db.tasks) :
    Forced e (skipStep e.db.tasks e.db.deps st s) := by
  rcases skipStep_cases e.db.tasks e.db.deps st s with ⟨_, heq⟩ | ⟨hw, hun, _, heq⟩ | ⟨_, _, heq⟩
  · rw [heq]
    exact hf
  · rw [heq]
    intro S hS
    rw [skippedSet_skipped h hs hw]
    refine Set.insert_subset ?_ (hf S hS)
    have hstuck : Stuck e (skippedSet e st) s := by
      rw [← edgeUnmatched_iff hids h]
      exact hun
    exact hS s hs (h.waiting hs hw).1 (hstuck.mono (hf S hS))
  · rw [heq]
    exact hf

/-- What the loop's order cannot change. -/
structure Ruled (e : Engine) (st : SkipState) : Prop where
  marked : Marked e st
  forced : Forced e st

theorem ruled_start (hids : TaskIds e) : Ruled e (skipStart e cur) := by
  refine ⟨marked_start hids, ?_⟩
  rintro S _ id ⟨s, hs, rfl, hw, hsk⟩
  rw [statusIn, show (skipStart e cur).statuses.get s.id = some s.status from
    get_start hids hs] at hsk
  have hss : s.status = .skipped := hsk
  rw [hss] at hw
  exact absurd hw (by decide)

theorem skipPropagate_ruled (cur : Engine) (hids : TaskIds e) : Ruled e (skipPropagate e cur) :=
  skipPropagate_keeps
    (fun _ h _ hs => ⟨h.marked.step hids hs, h.forced.step hids h.marked hs⟩)
    (fun _ h => ⟨h.marked.reset, h.forced⟩) (ruled_start hids)

/-- **The loop terminates**: past one round more than there are tasks, more rounds
    change nothing. -/
theorem skipLoop_enough (cur : Engine) (hids : TaskIds e) {fuel : Nat}
    (hfuel : e.db.tasks.length < fuel) :
    skipLoop e.db.tasks e.db.deps fuel (skipStart e cur) = skipPropagate e cur := by
  rw [skipPropagate, skipLoop_eq, skipLoop_eq]
  exact untilStable_enough (fun _ h => h.round hids) (fun _ h hc => h.round_count hids hc)
    (marked_start hids) (waitingCount_lt e _) hfuel

/-- **Without a blocking failure the skipped tasks are the least closed set.** -/
theorem skippedSet_least (cur : Engine) (hids : TaskIds e)
    (hb : (skipPropagate e cur).blockingFailure = false) :
    IsLeast {S | SkipClosed e S} (skippedSet e (skipPropagate e cur)) := by
  obtain ⟨hm, _, hfix⟩ := skipPropagate_marked cur hids
  refine ⟨?_, fun S hS => (skipPropagate_ruled cur hids).forced S hS⟩
  intro s hs hw hstuck
  by_contra hnot
  have hin : statusIn (skipPropagate e cur) s = s.status := by
    rcases hm.statusIn_cases hs with heq | ⟨_, hsk, _⟩
    · exact heq
    · exact absurd ⟨s, hs, rfl, hw, hsk⟩ hnot
  have hfound := hfix s hs (by rw [hin]; exact hw) ((edgeUnmatched_iff hids hm s).mpr hstuck)
  rw [hb] at hfound
  cases hfound

theorem mem_skippedSet_iff (st : SkipState) (hids : TaskIds e) (hs : s ∈ e.db.tasks) :
    s.id ∈ skippedSet e st ↔ waiting s.status = true ∧ statusIn st s = .skipped := by
  constructor
  · rintro ⟨r, hr, hid, h⟩
    rw [eq_of_key hids hr hs hid] at h
    exact h
  · exact fun h => ⟨s, hs, rfl, h⟩

/-- The row of a task after the loop, when the loop was not disturbed. -/
def rowAfter (clock : Instant) (st : SkipState) (s : TaskRow) : TaskRow :=
  if statusIn st s = s.status then s
  else { s with status := .skipped, lockVersion := s.lockVersion + 1, updatedAt := clock }

/-- The rows follow the map. -/
def Mirrored (e : Engine) (clock : Instant) (st : SkipState) : Prop :=
  st.engine.clock = clock ∧ st.engine.db.tasks = e.db.tasks.map (rowAfter clock st)

theorem Mirrored.step (hids : TaskIds e) {clock : Instant}
    (h : Marked e st) (hm : Mirrored e clock st) (hs : s ∈ e.db.tasks) :
    Mirrored e clock (skipStep e.db.tasks e.db.deps st s) := by
  rcases skipStep_cases e.db.tasks e.db.deps st s with ⟨_, heq⟩ | ⟨hw, _, _, heq⟩ | ⟨_, _, heq⟩
  · rw [heq]
    exact hm
  · rw [heq]
    obtain ⟨hws, hget⟩ := h.waiting hs hw
    have hin : statusIn st s = s.status := by
      rw [statusIn, hget]
      rfl
    refine ⟨hm.1, ?_⟩
    show updateWhere (versionIs s.id s.lockVersion) _ st.engine.db.tasks = _
    rw [hm.2, updateWhere, List.map_map]
    apply List.map_congr_left
    intro r hr
    show (if versionIs s.id s.lockVersion (rowAfter clock st r) = true then _
      else rowAfter clock st r) = rowAfter clock (skipped st s) r
    rw [rowAfter, rowAfter, statusIn_skipped hget]
    by_cases hid : r.id = s.id
    · have hrs : r = s := eq_of_key hids hr hs hid
      subst hrs
      have hne : ¬ TaskStatus.skipped = r.status := by
        intro hsk
        rw [← hsk] at hws
        exact absurd hws (by decide)
      rw [if_pos hin, if_pos (versionIs_iff.mpr ⟨rfl, rfl⟩), if_pos rfl, if_neg hne, hm.1]
    · have hv : ¬ versionIs s.id s.lockVersion (if statusIn st r = r.status then r else
          { r with status := .skipped, lockVersion := r.lockVersion + 1, updatedAt := clock }) =
            true := by
        intro hv
        refine hid (Eq.trans ?_ (versionIs_iff.mp hv).1)
        split <;> rfl
      rw [if_neg hv, if_neg hid]
  · rw [heq]
    exact hm

/-- **The rows the loop leaves**, undisturbed: a skipped task's row says so, every
    other row is as read. -/
theorem skipPropagate_rows (hids : TaskIds e) (hcur : cur.db.tasks = e.db.tasks) :
    (skipPropagate e cur).engine.db.tasks =
      e.db.tasks.map (rowAfter cur.clock (skipPropagate e cur)) := by
  have hkeeps : Marked e (skipPropagate e cur) ∧ Mirrored e cur.clock (skipPropagate e cur) := by
    refine skipPropagate_keeps (I := fun st => Marked e st ∧ Mirrored e cur.clock st) ?_ ?_ ?_
    · exact fun st h s hs => ⟨h.1.step hids hs, h.2.step hids h.1 hs⟩
    · exact fun st h => ⟨h.1.reset, h.2⟩
    · refine ⟨marked_start hids, rfl, ?_⟩
      show cur.db.tasks = _
      rw [hcur]
      conv_lhs => rw [← List.map_id e.db.tasks]
      apply List.map_congr_left
      intro s hs
      have hin : statusIn (skipStart e cur) s = s.status := by
        rw [statusIn, show (skipStart e cur).statuses.get s.id = some s.status from
          get_start hids hs]
        rfl
      rw [rowAfter, if_pos hin]
      rfl
  exact hkeeps.2.2

/-! ## The same rows in another order -/

/-- The same graph, its rows in any order. -/
structure SameRows (e e' : Engine) : Prop where
  tasks : e'.db.tasks.Perm e.db.tasks
  deps : e'.db.deps.Perm e.db.deps
  workflow : e'.db.workflow = e.db.workflow

section Same

variable {e' cur' : Engine}

variable (h : SameRows e e')

include h

theorem SameRows.ids (hids : TaskIds e) :
    (e'.db.tasks.map TaskRow.id).Nodup := ((h.tasks.map _).nodup_iff).mpr hids

theorem SameRows.taskById (hids : TaskIds e)
    (id : RowId) : taskById e'.db.tasks id = taskById e.db.tasks id := by
  cases hfind : WfRows.taskById e.db.tasks id with
  | some u =>
    obtain ⟨hu, hid⟩ := mem_of_taskById hfind
    rw [← hid]
    exact taskById_eq_some (h.ids hids) (h.tasks.mem_iff.mpr hu)
  | none =>
    cases hfind' : WfRows.taskById e'.db.tasks id with
    | none => rfl
    | some u =>
      obtain ⟨hu, hid⟩ := mem_of_taskById hfind'
      rw [← hid, taskById_eq_some hids (h.tasks.mem_iff.mp hu)] at hfind
      cases hfind

theorem SameRows.mem_edgesOf {d : DependencyRow} {id : RowId} :
    d ∈ edgesOf e'.db.deps id ↔ d ∈ edgesOf e.db.deps id := by
  rw [edgesOf, edgesOf, List.mem_filter, List.mem_filter, h.deps.mem_iff]

theorem SameRows.stuck_iff (hids : TaskIds e)
    (S : Set RowId) (s : TaskRow) : Stuck e' S s ↔ Stuck e S s := by
  rw [Stuck, Stuck]
  simp only [h.mem_edgesOf, statusById, h.taskById hids]

theorem SameRows.skipClosed_iff (hids : TaskIds e)
    (S : Set RowId) : SkipClosed e' S ↔ SkipClosed e S := by
  rw [SkipClosed, SkipClosed]
  simp only [h.tasks.mem_iff, h.stuck_iff hids]

theorem SameRows.blocks_iff : Blocks e' ↔ Blocks e := by
  rw [Blocks, Blocks]
  simp only [BlockingEdge, h.tasks.mem_iff, h.mem_edgesOf]

theorem SameRows.fails_iff : Fails e' ↔ Fails e := by
  rw [Fails, Fails]
  simp only [h.blocks_iff, h.tasks.mem_iff]

/-- **The skipped tasks do not depend on the order.** -/
theorem SameRows.skippedSet (cur cur' : Engine) (hids : TaskIds e) (hf : ¬ Fails e) :
    skippedSet e' (skipPropagate e' cur') = skippedSet e (skipPropagate e cur) := by
  have hb : (skipPropagate e cur).blockingFailure = false := by
    rw [← Bool.not_eq_true, blockingFailure_iff cur hids]
    exact fun hbl => hf (.inl hbl)
  have hb' : (skipPropagate e' cur').blockingFailure = false := by
    rw [← Bool.not_eq_true, blockingFailure_iff cur' (h.ids hids), h.blocks_iff]
    exact fun hbl => hf (.inl hbl)
  have hleast := skippedSet_least cur' (h.ids hids) hb'
  have hsets : {S | SkipClosed e' S} = {S | SkipClosed e S} :=
    Set.ext (fun S => h.skipClosed_iff hids S)
  rw [hsets] at hleast
  exact hleast.unique (skippedSet_least cur hids hb)

theorem SameRows.nextStatus (cur cur' : Engine) (hids : TaskIds e) :
    nextStatus e' (skipPropagate e' cur') = nextStatus e (skipPropagate e cur) := by
  by_cases hf : Fails e
  · rw [(nextStatus_eq_failed cur' (h.ids hids)).mpr (h.fails_iff.mpr hf),
      (nextStatus_eq_failed cur hids).mpr hf]
  have hset := h.skippedSet cur cur' hids hf
  have hb : ¬ (skipPropagate e cur).blockingFailure = true := by
    rw [blockingFailure_iff cur hids]
    exact fun hbl => hf (.inl hbl)
  have hb' : ¬ (skipPropagate e' cur').blockingFailure = true := by
    rw [blockingFailure_iff cur' (h.ids hids), h.blocks_iff]
    exact fun hbl => hf (.inl hbl)
  rw [WfSettle.nextStatus, WfSettle.nextStatus, if_neg hb, if_neg hb']
  -- a task has the same status on both sides, skipped or as read
  have hsame : ∀ s ∈ e.db.tasks,
      statusIn (skipPropagate e' cur') s = statusIn (skipPropagate e cur) s := by
    intro s hs
    have hs' := h.tasks.mem_iff.mpr hs
    have hiff := mem_skippedSet_iff (skipPropagate e cur) hids hs
    have hiff' := mem_skippedSet_iff (skipPropagate e' cur') (h.ids hids) hs'
    rw [hset, hiff] at hiff'
    rcases (skipPropagate_marked cur hids).1.statusIn_cases hs with heq | ⟨hw, heq, _⟩
    · rcases (skipPropagate_marked cur' (h.ids hids)).1.statusIn_cases hs' with heq' | ⟨hw', heq', _⟩
      · rw [heq, heq']
      · rw [heq', (hiff'.mpr ⟨hw', heq'⟩).2]
    · rw [heq, (hiff'.mp ⟨hw, heq⟩).2]
  have hinputs : e.db.tasks.map (rollupInput (skipPropagate e' cur').statuses) =
      e.db.tasks.map (rollupInput (skipPropagate e cur).statuses) := by
    apply List.map_congr_left
    intro s hs
    have hst : ((skipPropagate e' cur').statuses.get s.id).getD s.status =
        ((skipPropagate e cur).statuses.get s.id).getD s.status := hsame s hs
    rw [rollupInput, rollupInput, hst]
  rw [rollUpWorkflowStatus_perm (h.tasks.map _), hinputs]

end Same

theorem finalizeWorkflow_active (cur : Engine) (hactive : e.db.workflow.status = .active) :
    (finalizeWorkflow e cur).status = nextStatus e (skipPropagate e cur) ∧
      (finalizeWorkflow e cur).engine.db.tasks = (skipPropagate e cur).engine.db.tasks := by
  rw [finalizeWorkflow_eq, if_neg (not_not.mpr hactive)]
  split <;> exact ⟨rfl, rfl⟩

/-- **Finalize is confluent**, for a graph of any size, statuses and policies: the loop
    needs at most one round more than there are tasks; the status is the same for the
    rows in any other order; and when it is not `failed` so are the skipped tasks, the
    least set closed under skipping a task, neither terminal nor running, that has an
    edge no longer satisfiable.  Those are the rows the pass writes. -/
theorem finalize_confluent {snap snap' : Engine} (hids : (snap.db.tasks.map TaskRow.id).Nodup)
    (hactive : snap.db.workflow.status = .active) (hsame : SameRows snap snap')
    (cur cur' : Engine) : (skipPropagate snap cur).changed = false ∧
    (∀ fuel, snap.db.tasks.length < fuel →
      skipLoop snap.db.tasks snap.db.deps fuel (skipStart snap cur) = skipPropagate snap cur) ∧
    (finalizeWorkflow snap' cur').status = (finalizeWorkflow snap cur).status ∧
    ((finalizeWorkflow snap cur).status ≠ .failed →
      skippedSet snap' (skipPropagate snap' cur') = skippedSet snap (skipPropagate snap cur) ∧
      IsLeast {S | SkipClosed snap S} (skippedSet snap (skipPropagate snap cur))) ∧
    (cur.db.tasks = snap.db.tasks → (finalizeWorkflow snap cur).engine.db.tasks =
        snap.db.tasks.map (rowAfter cur.clock (skipPropagate snap cur))) := by
  have hactive' : snap'.db.workflow.status = .active := by
    rw [hsame.workflow]
    exact hactive
  obtain ⟨hstatus, htasks⟩ := finalizeWorkflow_active cur hactive
  refine ⟨(skipPropagate_marked cur hids).2.1, fun fuel hfuel => skipLoop_enough cur hids hfuel,
    ?_, ?_, ?_⟩
  · rw [hstatus, (finalizeWorkflow_active cur' hactive').1]
    exact hsame.nextStatus cur cur' hids
  · intro hne
    rw [hstatus] at hne
    have hf : ¬ Fails snap := fun hf => hne ((nextStatus_eq_failed cur hids).mpr hf)
    refine ⟨hsame.skippedSet cur cur' hids hf, skippedSet_least cur hids ?_⟩
    rw [← Bool.not_eq_true, blockingFailure_iff cur hids]
    exact fun hbl => hf (.inl hbl)
  · intro hcur
    rw [htasks]
    exact skipPropagate_rows hids hcur

/-- Two checkpoints, the second after the first. -/
def twoCheckpoints : WorkflowSpec :=
  { name := "w"
    tasks := [{ key := "a", title := "a", body := .checkpoint },
      { key := "b", title := "b", body := .checkpoint, dependsOn := [⟨"a", none⟩] }] }

/-- Its workflow, started, with these statuses. -/
def inStatuses (a b : TaskStatus) : Engine :=
  let e := run plainHost (start plainHost twoCheckpoints) [.lockFree .start]
  { e with db := { e.db with tasks := e.db.tasks.map (fun t =>
      { t with status := if t.key = "a" then a else b }) } }

/-- The rows in the opposite order. -/
def reversed (e : Engine) : Engine :=
  { e with db := { e.db with tasks := e.db.tasks.reverse, deps := e.db.deps.reverse } }

set_option maxRecDepth 4000 in
theorem finalize_confluent_reversed :
    let e := inStatuses .cancelled .idle
    (finalizeWorkflow (reversed e) e).status = (finalizeWorkflow e e).status ∧
      IsLeast {S | SkipClosed e S} (skippedSet e (skipPropagate e e)) ∧
      (finalizeWorkflow e e).engine.db.tasks.map TaskRow.status = [.cancelled, .skipped] := by
  intro e
  have hids : (e.db.tasks.map TaskRow.id).Nodup := by decide +kernel
  have hactive : e.db.workflow.status = .active := by decide +kernel
  have hsame : SameRows e (reversed e) := ⟨List.reverse_perm _, List.reverse_perm _, rfl⟩
  have hconf := finalize_confluent hids hactive hsame e e
  exact ⟨hconf.2.2.1, (hconf.2.2.2.1 (by decide +kernel)).2, by decide +kernel⟩

/-- A running task is not skipped: read over every non-terminal task, the rule asks for
    more than the loop does. -/
theorem running_not_skipped :
    let e := inStatuses .cancelled .running
    (finalizeWorkflow e e).status ≠ .failed ∧
      ¬ IsLeast {S : Set RowId | ∀ s ∈ e.db.tasks, isTerminalTaskStatus s.status = false →
        Stuck e S s → s.id ∈ S} (skippedSet e (skipPropagate e e)) := by
  intro e
  refine ⟨by decide +kernel, ?_⟩
  rintro ⟨hclosed, _⟩
  obtain ⟨b, hb, hstatus, d, hd, hun⟩ : ∃ b ∈ e.db.tasks, b.status = .running ∧
      ∃ d ∈ edgesOf e.db.deps b.id,
        terminalUnmatched ((statusById e.db.tasks d.dependsOnTaskId).getD .idle) d.outcome =
          true := by
    decide +kernel
  have hmem := hclosed b hb (by rw [hstatus]; rfl) ⟨d, hd, .inl hun⟩
  obtain ⟨r, hr, hid, hw, _⟩ := hmem
  have hrb : r = b := eq_of_key (by decide +kernel) hr hb hid
  rw [hrb, hstatus] at hw
  exact absurd hw (by decide)

/-! ## What fails a workflow -/

/-- A required task whose policy is `block` has failed. -/
def RequiredFailure (e : Engine) : Prop :=
  ∃ t ∈ e.db.tasks, t.status = .failed ∧ t.required = true ∧ policyOf t = .block

/-- Finalize fails the workflow for a required block-policy failure only: without one
    what is stuck behind the other failures is skipped, and the workflow completes once
    every task is terminal. -/
def FailsOnlyRequired (snap cur : Engine) : Prop :=
  ((finalizeWorkflow snap cur).engine.db.workflow.status = .failed ↔ RequiredFailure snap) ∧
  (¬ RequiredFailure snap → SkipClosed snap (skippedSet snap (skipPropagate snap cur)) ∧
    (snap.db.tasks ≠ [] → (∀ t ∈ snap.db.tasks,
        isTerminalTaskStatus (statusIn (skipPropagate snap cur) t) = true) →
      (finalizeWorkflow snap cur).engine.db.workflow.status = .completed))

/-- The pass writes the status it computes, unless that is `active`. -/
theorem finalizeWorkflow_status (hactive : e.db.workflow.status = .active)
    (hcur : cur.db.workflow = e.db.workflow) :
    (finalizeWorkflow e cur).engine.db.workflow.status = nextStatus e (skipPropagate e cur) := by
  have hrow : (skipPropagate e cur).engine.db.workflow = e.db.workflow := by
    rw [(skipPropagate_only e cur).workflow, hcur]
  rw [finalizeWorkflow_eq, if_neg (not_not.mpr hactive), hrow]
  by_cases hne : nextStatus e (skipPropagate e cur) ≠ .active
  · rw [if_pos ⟨hne, rfl⟩]
    rfl
  · rw [if_neg (fun h => hne h.1), hrow, hactive]
    exact (not_not.mp hne).symm

/-- **When the two rules agree**: exactly when a block-policy failure with a task waiting
    behind it means that a required task has failed. -/
theorem failsOnlyRequired_iff {snap cur : Engine} (hids : (snap.db.tasks.map TaskRow.id).Nodup)
    (hactive : snap.db.workflow.status = .active) (hcur : cur.db.workflow = snap.db.workflow) :
    FailsOnlyRequired snap cur ↔ (Blocks snap → RequiredFailure snap) := by
  have hstatus := finalizeWorkflow_status hactive hcur
  have hfailed : (finalizeWorkflow snap cur).engine.db.workflow.status = .failed ↔
      Blocks snap ∨ RequiredFailure snap := by
    rw [hstatus, nextStatus_eq_failed cur hids]
    rfl
  constructor
  · exact fun h hb => h.1.mp (hfailed.mpr (.inl hb))
  intro hagree
  refine ⟨?_, ?_⟩
  · rw [hfailed]
    exact ⟨fun h => h.elim hagree id, .inr⟩
  · intro hnone
    have hb : (skipPropagate snap cur).blockingFailure = false := by
      rw [← Bool.not_eq_true, blockingFailure_iff cur hids]
      exact fun h => hnone (hagree h)
    refine ⟨(skippedSet_least cur hids hb).1, ?_⟩
    intro hne hterm
    rw [hstatus]
    have hnf : ¬ nextStatus snap (skipPropagate snap cur) = .failed := by
      rw [nextStatus_eq_failed cur hids]
      exact fun h => hnone (h.elim hagree id)
    rw [nextStatus, if_neg (by rw [hb]; exact Bool.false_ne_true)] at hnf ⊢
    rw [rollUpWorkflowStatus_eq_failed] at hnf
    rw [rollUpWorkflowStatus, if_neg (fun h => hne (List.map_eq_nil_iff.mp h)), if_neg hnf, if_pos]
    rw [List.all_map, List.all_eq_true]
    exact hterm

/-- The first of the two fails and is optional; it gets one attempt. -/
def optionalFirst : WorkflowSpec :=
  { name := "w"
    tasks := [{ key := "a", title := "a", body := .agentTask ⟨"pkg", none, none, none⟩ none,
                required := some false, maxAttempts := some 1 },
      { key := "b", title := "b", body := .checkpoint, dependsOn := [⟨"a", none⟩] }] }

def optionalFailed : List Op :=
  [.lockFree .start, .claim 0 [],
    .record 0 [(⟨.uuid 0, .uuid 3, 1, ⟨"wf", .uuid 0, 1⟩, .uuid 4⟩, ⟨.failed, none, none⟩, [])]]

set_option maxRecDepth 4000 in
theorem optionalFailure_fails :
    let e := run plainHost (start plainHost optionalFirst) optionalFailed
    Reachable plainHost e ∧ ¬ FailsOnlyRequired e e := by
  intro e
  refine ⟨reachable_run plainHost optionalFirst optionalFailed (by decide +kernel)
    (by decide +kernel) (by decide +kernel), ?_⟩
  intro h
  have hnone : ¬ RequiredFailure e := by
    unfold RequiredFailure
    decide +kernel
  exact hnone (h.1.mp (by decide +kernel))

set_option maxRecDepth 4000 in
theorem failsOnlyRequired_failed :
    let e := inStatuses .failed .idle
    FailsOnlyRequired e e ∧ RequiredFailure e := by
  intro e
  have hfailed : RequiredFailure e := by
    unfold RequiredFailure
    decide +kernel
  have hids : (e.db.tasks.map TaskRow.id).Nodup := by decide +kernel
  have hactive : e.db.workflow.status = .active := by decide +kernel
  have hcur : e.db.workflow = e.db.workflow := rfl
  exact ⟨(failsOnlyRequired_iff hids hactive hcur).mpr (fun _ => hfailed), hfailed⟩

end WfSkipOrder
