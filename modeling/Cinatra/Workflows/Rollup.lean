import Cinatra.Lib.Rounds
import Cinatra.Workflows.Closing

/-! # Rollup — the skip fixed point and the status it leads to

    `finalizeWorkflow` skips waiting tasks in rounds, tracking statuses in a map.
    The map starts as the statuses read and only ever turns a waiting task into a
    skipped one (`SkipInv`); a round that changes nothing leaves no waiting task
    with an edge that can never be satisfied, and the number of waiting tasks
    bounds the rounds.  A blocking failure is seen in the first round or never,
    so it is a property of the rows read (`blockingFailure_iff`). -/

namespace WfRollup

open RowTable Rounds WfTransitions WfSpec WfRows WfState WfSettle
open WfActs WfInvariant WfPaths WfInterference WfClosing

theorem StatusMap.get_cons (p : RowId × TaskStatus) (m : StatusMap) (id : RowId) :
    StatusMap.get (p :: m) id = if p.1 = id then some p.2 else StatusMap.get m id := by
  rw [StatusMap.get, StatusMap.get, List.find?_cons]
  by_cases h : p.1 = id
  · rw [if_pos h, decide_eq_true h]
    rfl
  · rw [if_neg h, decide_eq_false h]

theorem StatusMap.get_set (m : StatusMap) (id : RowId) (s : TaskStatus) (j : RowId) :
    (StatusMap.set m id s).get j = if j = id then (m.get j).map (fun _ => s) else m.get j := by
  induction m with
  | nil =>
    show (none : Option TaskStatus) = _
    by_cases h : j = id
    · rw [if_pos h]
      rfl
    · rw [if_neg h]
      rfl
  | cons p m ih =>
    show StatusMap.get ((if p.1 = id then (id, s) else p) :: StatusMap.set m id s) j = _
    rw [StatusMap.get_cons, StatusMap.get_cons, ih]
    by_cases hj : j = id
    · subst hj
      by_cases hp : p.1 = j
      · simp [hp]
      · simp [hp]
    · by_cases hp : p.1 = id
      · have hpj : ¬ p.1 = j := fun h => hj (h.symm.trans hp)
        have hij : ¬ id = j := fun h => hj h.symm
        rw [if_pos hp, if_neg hij, if_neg hpj]
      · rw [if_neg hp, if_neg hj, if_neg hj]

theorem StatusMap.get_ofTasks (tasks : List TaskRow) (id : RowId) :
    (StatusMap.ofTasks tasks).get id = statusById tasks id := by
  induction tasks with
  | nil => rfl
  | cons t tasks ih =>
    show StatusMap.get ((t.id, t.status) :: StatusMap.ofTasks tasks) id = _
    rw [StatusMap.get_cons, ih, statusById, statusById, taskById, taskById, List.find?_cons]
    by_cases h : t.id = id
    · rw [if_pos h, decide_eq_true h]
      rfl
    · rw [if_neg h, decide_eq_false h]

/-! ## What a step of the loop keeps -/

/-- The status the map has for a row read. -/
def statusIn (st : SkipState) (s : TaskRow) : TaskStatus := (st.statuses.get s.id).getD s.status

/-- An edge a failed block-policy task leaves unsatisfied, on the rows read. -/
def BlockingEdge (tasks : List TaskRow) (d : DependencyRow) : Prop :=
  d.outcome ≠ .failed ∧
    ∃ u ∈ tasks, u.id = d.dependsOnTaskId ∧ u.status = .failed ∧ policyOf u = .block

/-- A waiting task has such an edge. -/
def Blocks (e : Engine) : Prop :=
  ∃ s ∈ e.db.tasks, waiting s.status = true ∧
    ∃ d ∈ edgesOf e.db.deps s.id, BlockingEdge e.db.tasks d

/-- The state of the loop against the rows read. -/
structure SkipInv (e : Engine) (st : SkipState) : Prop where
  path : RowPath e st.engine
  status : ∀ s ∈ e.db.tasks, st.statuses.get s.id = some s.status ∨
    (waiting s.status = true ∧ st.statuses.get s.id = some .skipped ∧
      ∀ d ∈ edgesOf e.db.deps s.id, ¬ BlockingEdge e.db.tasks d)
  known : ∀ id, st.statuses.get id ≠ none → ∃ s ∈ e.db.tasks, s.id = id
  row : ∀ t ∈ st.engine.db.tasks, (t ∈ e.db.tasks ∧ st.statuses.get t.id = some t.status) ∨
    (t.status = .skipped ∧ st.statuses.get t.id = some .skipped) ∨
    (t.status = .succeeded ∧ ∃ s ∈ e.db.tasks, s.id = t.id ∧ s.status = .running)
  deps : st.engine.db.deps = e.db.deps
  approvals : st.engine.db.approvals = e.db.approvals
  blocking : st.blockingFailure = true → Blocks e

/-- The part of it that does not see the engine: what the loop holds in memory. -/
structure Marked (e : Engine) (st : SkipState) : Prop where
  status : ∀ s ∈ e.db.tasks, st.statuses.get s.id = some s.status ∨
    (waiting s.status = true ∧ st.statuses.get s.id = some .skipped ∧
      ∀ d ∈ edgesOf e.db.deps s.id, ¬ BlockingEdge e.db.tasks d)
  known : ∀ id, st.statuses.get id ≠ none → ∃ s ∈ e.db.tasks, s.id = id
  blocking : st.blockingFailure = true → Blocks e

section Loop

variable {e cur : Engine} {st : SkipState}

theorem SkipInv.marked (h : SkipInv e st) : Marked e st := ⟨h.status, h.known, h.blocking⟩

variable {s : TaskRow}

theorem Marked.statusIn_cases (h : Marked e st) (hs : s ∈ e.db.tasks) : statusIn st s = s.status ∨
      (waiting s.status = true ∧ statusIn st s = .skipped ∧
        ∀ d ∈ edgesOf e.db.deps s.id, ¬ BlockingEdge e.db.tasks d) := by
  rcases h.status s hs with hget | ⟨hw, hget, hnb⟩
  · left
    rw [statusIn, hget]
    rfl
  · refine .inr ⟨hw, ?_, hnb⟩
    rw [statusIn, hget]
    rfl

theorem Marked.waiting (h : Marked e st) (hs : s ∈ e.db.tasks)
    (hw : waiting (statusIn st s) = true) :
    waiting s.status = true ∧ st.statuses.get s.id = some s.status := by
  rcases h.status s hs with hget | ⟨_, hget, _⟩
  · rw [statusIn, hget] at hw
    exact ⟨hw, hget⟩
  · rw [statusIn, hget] at hw
    have hsk : WfSettle.waiting .skipped = true := hw
    exact absurd hsk (by decide)

theorem Marked.failed_iff (h : Marked e st) {id : RowId} :
    st.statuses.get id = some .failed ↔ ∃ u ∈ e.db.tasks, u.id = id ∧ u.status = .failed := by
  constructor
  · intro hget
    obtain ⟨u, hu, rfl⟩ := h.known id (by rw [hget]; exact Option.some_ne_none _)
    rcases h.status u hu with hget' | ⟨_, hget', _⟩
    · rw [hget'] at hget
      exact ⟨u, hu, rfl, Option.some.inj hget⟩
    · rw [hget'] at hget
      cases hget
  · rintro ⟨u, hu, rfl, hs⟩
    rcases h.status u hu with hget | ⟨hw, _, _⟩
    · rw [hget, hs]
    · rw [hs] at hw
      exact absurd hw (by decide)

/-- No two tasks have one id. -/
abbrev TaskIds (e : Engine) : Prop := (e.db.tasks.map TaskRow.id).Nodup

theorem policyById_eq (hids : TaskIds e) {u : TaskRow} (hu : u ∈ e.db.tasks) :
    policyById e.db.tasks u.id = policyOf u := by
  rw [policyById, taskById_eq_some hids hu]
  rfl

/-- The loop's test for a blocking edge reads the rows alone. -/
theorem Marked.edgeBlocking_iff (h : Marked e st) (hids : TaskIds e) (d : DependencyRow) :
    edgeBlocking e.db.tasks st.statuses d = true ↔ BlockingEdge e.db.tasks d := by
  rw [edgeBlocking, Bool.and_eq_true, Bool.and_eq_true, decide_eq_true_eq, decide_eq_true_eq,
    and_assoc]
  constructor
  · rintro ⟨hun, hget, hpol⟩
    obtain ⟨u, hu, hid, hs⟩ := h.failed_iff.mp hget
    rw [edgeUnmatched, hget] at hun
    refine ⟨?_, u, hu, hid, hs, ?_⟩
    · intro ho
      rw [ho] at hun
      exact absurd hun (by decide)
    · rw [← policyById_eq hids hu, hid]
      exact hpol
  · rintro ⟨ho, u, hu, hid, hs, hpol⟩
    have hget : st.statuses.get d.dependsOnTaskId = some .failed :=
      h.failed_iff.mpr ⟨u, hu, hid, hs⟩
    refine ⟨?_, hget, ?_⟩
    · rw [edgeUnmatched, hget]
      cases hd : d.outcome with
      | failed => exact absurd hd ho
      | success | skipped => rfl
    · rw [← hid, policyById_eq hids hu]
      exact hpol

/-- The step has found a blocking failure, on this task or before. -/
def blockingAfter (tasks : List TaskRow) (deps : List DependencyRow) (st : SkipState)
    (s : TaskRow) : Bool :=
  st.blockingFailure || (edgesOf deps s.id).any (edgeBlocking tasks st.statuses)

/-- The state after a skip. -/
def skipped (st : SkipState) (s : TaskRow) : SkipState :=
  { engine := st.engine.casTask s.id s.lockVersion (fun t =>
      { t with status := .skipped, lockVersion := s.lockVersion + 1,
               updatedAt := st.engine.clock })
    statuses := st.statuses.set s.id .skipped
    blockingFailure := false
    changed := true }

/-- **What one step does**: nothing, a skip, or a look at the edges. -/
theorem skipStep_cases (tasks : List TaskRow) (deps : List DependencyRow) (st : SkipState)
    (s : TaskRow) :
    (waiting (statusIn st s) = false ∧ skipStep tasks deps st s = st) ∨
    (waiting (statusIn st s) = true ∧ (edgesOf deps s.id).any (edgeUnmatched st.statuses) = true ∧
      blockingAfter tasks deps st s = false ∧ skipStep tasks deps st s = skipped st s) ∨
    (waiting (statusIn st s) = true ∧ ((edgesOf deps s.id).any (edgeUnmatched st.statuses) = true →
        blockingAfter tasks deps st s = true) ∧
      skipStep tasks deps st s = { st with blockingFailure := blockingAfter tasks deps st s }) := by
  have hdef : skipStep tasks deps st s =
      if !waiting (statusIn st s) then st
      else if (edgesOf deps s.id).any (edgeUnmatched st.statuses) &&
          !blockingAfter tasks deps st s then
        { skipped st s with blockingFailure := blockingAfter tasks deps st s }
      else { st with blockingFailure := blockingAfter tasks deps st s } := rfl
  rw [hdef]
  by_cases hw : waiting (statusIn st s) = true
  swap
  · rw [Bool.not_eq_true] at hw
    rw [hw]
    exact .inl ⟨rfl, rfl⟩
  rw [hw]
  simp only [Bool.not_true, Bool.false_eq_true, if_false]
  by_cases hu : (edgesOf deps s.id).any (edgeUnmatched st.statuses) = true
  · by_cases hb : blockingAfter tasks deps st s = true
    · rw [hu, hb]
      exact .inr (.inr ⟨trivial, fun _ => rfl, rfl⟩)
    · rw [Bool.not_eq_true] at hb
      rw [hu, hb]
      exact .inr (.inl ⟨trivial, rfl, rfl, rfl⟩)
  · rw [Bool.not_eq_true] at hu
    rw [hu]
    exact .inr (.inr ⟨trivial, fun h => absurd h (by decide), rfl⟩)

private theorem skipped_row (hinv : Inv e) (h : SkipInv e st) (hs : s ∈ e.db.tasks)
    (hw : waiting (statusIn st s) = true) : ∀ t ∈ (skipped st s).engine.db.tasks,
      (t ∈ e.db.tasks ∧ (skipped st s).statuses.get t.id = some t.status) ∨
      (t.status = .skipped ∧ (skipped st s).statuses.get t.id = some .skipped) ∨
      (t.status = .succeeded ∧ ∃ s ∈ e.db.tasks, s.id = t.id ∧ s.status = .running) := by
  obtain ⟨hws, hget⟩ := h.marked.waiting hs hw
  intro t' ht'
  obtain ⟨t, ht, rfl⟩ := mem_updateWhere.mp ht'
  by_cases hid : t.id = s.id
  · -- the row of `s` is as read, so the compare-and-set finds it
    have hts : t = s := by
      rcases h.row t ht with ⟨hte, _⟩ | ⟨_, hsk⟩ | ⟨_, r, hr, hrid, hrun⟩
      · exact eq_of_key hinv.keyed.ids hte hs hid
      · rw [hid, hget] at hsk
        rw [Option.some.inj hsk] at hws
        exact absurd hws (by decide)
      · rw [eq_of_key hinv.keyed.ids hr hs (hrid.trans hid)] at hrun
        rw [hrun] at hws
        exact absurd hws (by decide)
    rw [if_pos (versionIs_iff.mpr ⟨hid, congrArg TaskRow.lockVersion hts⟩)]
    refine .inr (.inl ⟨rfl, ?_⟩)
    show (StatusMap.set st.statuses s.id .skipped).get t.id = some .skipped
    rw [StatusMap.get_set, if_pos hid, hid, hget]
    rfl
  · have hv : ¬ versionIs s.id s.lockVersion t = true := fun hv => hid (versionIs_iff.mp hv).1
    have hsame : (StatusMap.set st.statuses s.id .skipped).get t.id = st.statuses.get t.id := by
      rw [StatusMap.get_set, if_neg hid]
    rw [if_neg hv]
    show (t ∈ e.db.tasks ∧ (StatusMap.set st.statuses s.id .skipped).get t.id = some t.status) ∨
      (t.status = .skipped ∧ (StatusMap.set st.statuses s.id .skipped).get t.id = some .skipped) ∨ _
    rw [hsame]
    exact h.row t ht

private theorem skipped_path (hinv : Inv e) (hlive : Live e.db.workflow.status)
    (h : SkipInv e st) (hs : s ∈ e.db.tasks) (hw : waiting s.status = true) :
    RowPath e (skipped st s).engine := by
  refine h.path.tail (((loaded_self e).path hinv h.path.path).cas (hinv.path h.path.path).keyed
    hs ?_)
  intro t _ _ hv hcopy
  refine ⟨rfl, rfl, rfl, ?_, StatusMove.finish ?_ rfl rfl (.inr (Path.live h.path.path hlive))⟩
  · show t.lockVersion < s.lockVersion + 1
    omega
  · rw [hcopy.status]
    rw [WfSettle.waiting, Bool.and_eq_true, Bool.not_eq_true'] at hw
    exact hw.1

theorem Marked.step (hids : TaskIds e) (h : Marked e st)
    (hs : s ∈ e.db.tasks) : Marked e (skipStep e.db.tasks e.db.deps st s) := by
  rcases skipStep_cases e.db.tasks e.db.deps st s with ⟨_, heq⟩ | ⟨hw, _, hb, heq⟩ | ⟨hw, _, heq⟩
  · rw [heq]
    exact h
  · rw [heq]
    obtain ⟨hws, hget⟩ := h.waiting hs hw
    rw [blockingAfter, Bool.or_eq_false_iff] at hb
    have hnone : ∀ d ∈ edgesOf e.db.deps s.id, ¬ BlockingEdge e.db.tasks d := by
      intro d hd hblock
      have := List.any_eq_false.mp hb.2 d hd
      exact this ((h.edgeBlocking_iff hids d).mpr hblock)
    refine ⟨?_, ?_, fun hf => absurd hf Bool.false_ne_true⟩
    · intro r hr
      show (StatusMap.set st.statuses s.id .skipped).get r.id = some r.status ∨ _ ∧
        (StatusMap.set st.statuses s.id .skipped).get r.id = some .skipped ∧ _
      rw [StatusMap.get_set]
      by_cases hid : r.id = s.id
      · have hrs : r = s := eq_of_key hids hr hs hid
        subst hrs
        rw [if_pos rfl, hget]
        exact .inr ⟨hws, rfl, hnone⟩
      · rw [if_neg hid]
        exact h.status r hr
    · intro id hid
      have hid' : (StatusMap.set st.statuses s.id .skipped).get id ≠ none := hid
      rw [StatusMap.get_set] at hid'
      by_cases he : id = s.id
      · exact ⟨s, hs, he.symm⟩
      · rw [if_neg he] at hid'
        exact h.known id hid'
  · rw [heq]
    refine ⟨h.status, h.known, ?_⟩
    intro hf
    have hf' : blockingAfter e.db.tasks e.db.deps st s = true := hf
    rw [blockingAfter, Bool.or_eq_true] at hf'
    rcases hf' with hf' | hf'
    · exact h.blocking hf'
    · obtain ⟨d, hd, hdb⟩ := List.any_eq_true.mp hf'
      exact ⟨s, hs, (h.waiting hs hw).1, d, hd, (h.edgeBlocking_iff hids d).mp hdb⟩

theorem SkipInv.step (hinv : Inv e) (hlive : Live e.db.workflow.status) (h : SkipInv e st)
    (hs : s ∈ e.db.tasks) : SkipInv e (skipStep e.db.tasks e.db.deps st s) := by
  have hm := h.marked.step hinv.keyed.ids hs
  rcases skipStep_cases e.db.tasks e.db.deps st s with ⟨_, heq⟩ | ⟨hw, _, _, heq⟩ | ⟨_, _, heq⟩
  · rw [heq]
    exact h
  · rw [heq] at hm ⊢
    have hws := (h.marked.waiting hs hw).1
    exact ⟨skipped_path hinv hlive h hs hws, hm.status, hm.known, skipped_row hinv h hs hw, h.deps,
      h.approvals, hm.blocking⟩
  · rw [heq] at hm ⊢
    exact ⟨h.path, hm.status, hm.known, h.row, h.deps, h.approvals, hm.blocking⟩

/-! ## Rounds -/

/-- How many tasks wait, as the map has them. -/
def waitingCount (e : Engine) (st : SkipState) : Nat :=
  (e.db.tasks.filter (fun s => waiting (statusIn st s))).length

theorem statusIn_skipped (hget : st.statuses.get s.id = some s.status) (r : TaskRow) :
    statusIn (skipped st s) r = if r.id = s.id then .skipped else statusIn st r := by
  show ((StatusMap.set st.statuses s.id .skipped).get r.id).getD r.status = _
  rw [StatusMap.get_set]
  by_cases hid : r.id = s.id
  · rw [if_pos hid, if_pos hid, hid, hget]
    rfl
  · rw [if_neg hid, if_neg hid]
    rfl

private theorem waitingCount_skipped (h : Marked e st) (hs : s ∈ e.db.tasks)
    (hw : waiting (statusIn st s) = true) : waitingCount e (skipped st s) < waitingCount e st := by
  have hget := (h.waiting hs hw).2
  refine length_filter_lt ?_ hs hw ?_
  · intro r _ hr
    rw [statusIn_skipped hget] at hr
    by_cases hid : r.id = s.id
    · rw [if_pos hid] at hr
      exact absurd hr (by decide)
    · rw [if_neg hid] at hr
      exact hr
  · rw [statusIn_skipped hget, if_pos rfl]
    rfl

/-- What a run of steps does to the count: the flag tells whether it went down. -/
private theorem steps_count (hids : TaskIds e)
    (l : List TaskRow) (hl : ∀ s ∈ l, s ∈ e.db.tasks) :
    ∀ st, Marked e st →
      let st' := l.foldl (skipStep e.db.tasks e.db.deps) st
      Marked e st' ∧ waitingCount e st' ≤ waitingCount e st ∧
        (st'.changed = true → st.changed = true ∨ waitingCount e st' < waitingCount e st) := by
  induction l with
  | nil => exact fun st h => ⟨h, Nat.le_refl _, fun hc => .inl hc⟩
  | cons s l ih =>
    intro st h
    have hs := hl s (List.mem_cons_self ..)
    obtain ⟨hm', hle, hchg⟩ := ih (fun r hr => hl r (.tail _ hr)) _
      (h.step hids hs)
    rw [List.foldl_cons]
    refine ⟨hm', ?_⟩
    rcases skipStep_cases e.db.tasks e.db.deps st s with
      ⟨_, heq⟩ | ⟨hw, _, _, heq⟩ | ⟨_, _, heq⟩
    · rw [heq] at hle hchg ⊢
      exact ⟨hle, hchg⟩
    · have hlt := waitingCount_skipped h hs hw
      rw [heq] at hle ⊢
      exact ⟨by omega, fun _ => .inr (by omega)⟩
    · rw [heq] at hle hchg ⊢
      exact ⟨hle, hchg⟩

/-- A run of steps without a skip keeps the map, and has looked at every edge. -/
theorem steps_unchanged (tasks : List TaskRow) (deps : List DependencyRow) (l : List TaskRow) :
    ∀ st : SkipState, (l.foldl (skipStep tasks deps) st).changed = false →
      (l.foldl (skipStep tasks deps) st).statuses = st.statuses ∧
      (st.blockingFailure = true → (l.foldl (skipStep tasks deps) st).blockingFailure = true) ∧
      st.changed = false ∧ ∀ s ∈ l, waiting (statusIn st s) = true →
        (edgesOf deps s.id).any (edgeUnmatched st.statuses) = true →
        (l.foldl (skipStep tasks deps) st).blockingFailure = true := by
  induction l with
  | nil =>
    exact fun st hc => ⟨rfl, fun h => h, hc, fun s hs => absurd hs List.not_mem_nil⟩
  | cons s l ih =>
    intro st hc
    rw [List.foldl_cons] at hc ⊢
    obtain ⟨hst, hmono, hfirst, hedges⟩ := ih _ hc
    rcases skipStep_cases tasks deps st s with ⟨hw, heq⟩ | ⟨_, _, _, heq⟩ | ⟨_, hb, heq⟩
    · rw [heq] at hst hmono hfirst hedges ⊢
      refine ⟨hst, hmono, hfirst, ?_⟩
      intro r hr hwr hun
      rcases List.mem_cons.mp hr with rfl | hr
      · rw [hw] at hwr
        cases hwr
      · exact hedges r hr hwr hun
    · rw [heq] at hfirst
      cases hfirst
    · rw [heq] at hst hmono hfirst hedges ⊢
      refine ⟨hst, ?_, hfirst, ?_⟩
      · intro hbf
        refine hmono ?_
        show blockingAfter tasks deps st s = true
        rw [blockingAfter, hbf]
        rfl
      · intro r hr hwr hun
        rcases List.mem_cons.mp hr with rfl | hr
        · exact hmono (hb hun)
        · exact hedges r hr hwr hun

/-! ## The loop -/

theorem skipLoop_eq (tasks : List TaskRow) (deps : List DependencyRow) (fuel : Nat)
    (st : SkipState) :
    skipLoop tasks deps fuel st = untilStable (skipRound tasks deps) SkipState.changed fuel st := by
  induction fuel generalizing st with
  | zero => rfl
  | succ fuel ih =>
    rw [skipLoop, untilStable]
    by_cases hc : (skipRound tasks deps st).changed = true
    · simp only [hc, if_true]
      exact ih _
    · simp only [hc, Bool.false_eq_true, if_false]

/-- The state the loop starts in. -/
def skipStart (snap cur : Engine) : SkipState where
  engine := cur
  statuses := StatusMap.ofTasks snap.db.tasks
  blockingFailure := false
  changed := false

theorem get_start (hids : TaskIds e)
    (hs : s ∈ e.db.tasks) : (StatusMap.ofTasks e.db.tasks).get s.id = some s.status := by
  rw [StatusMap.get_ofTasks, statusById, taskById_eq_some hids hs]
  rfl

theorem marked_start (hids : TaskIds e) : Marked e (skipStart e cur) := by
  refine ⟨fun s hs => .inl (get_start hids hs), ?_, fun h => absurd h Bool.false_ne_true⟩
  intro id hid
  have hid' : (StatusMap.ofTasks e.db.tasks).get id ≠ none := hid
  rw [StatusMap.get_ofTasks, statusById] at hid'
  cases hfind : taskById e.db.tasks id with
  | none =>
    rw [hfind] at hid'
    exact absurd rfl hid'
  | some s => exact ⟨s, (mem_of_taskById hfind).1, (mem_of_taskById hfind).2⟩

private theorem skipInv_start (hinv : Inv e) (hcur : Interfered e cur) :
    SkipInv e (skipStart e cur) := by
  have hm : Marked e (skipStart e cur) := marked_start hinv.keyed.ids
  refine ⟨hcur.path, hm.status, hm.known, ?_, hcur.deps, hcur.approvals, hm.blocking⟩
  intro t ht
  rcases hcur.tasks t ht with hte | ⟨hs, r, hr, hdone⟩
  · exact .inl ⟨hte, get_start hinv.keyed.ids hte⟩
  · exact .inr (.inr ⟨hs, r, hr, hdone.id.symm, hdone.running⟩)

theorem Marked.reset (h : Marked e st) : Marked e { st with changed := false } :=
  ⟨h.status, h.known, h.blocking⟩

theorem Marked.round (hids : TaskIds e) (h : Marked e st) :
    Marked e (skipRound e.db.tasks e.db.deps st) :=
  (steps_count hids e.db.tasks (fun _ hs => hs) _ h.reset).1

theorem Marked.round_count (hids : TaskIds e) (h : Marked e st)
    (hc : (skipRound e.db.tasks e.db.deps st).changed = true) :
    waitingCount e (skipRound e.db.tasks e.db.deps st) < waitingCount e st := by
  rcases (steps_count hids e.db.tasks (fun _ hs => hs) _ h.reset).2.2 hc with hfalse | hlt
  · cases hfalse
  · exact hlt

theorem waitingCount_lt (e : Engine) (st : SkipState) : waitingCount e st < e.db.tasks.length + 1 :=
  Nat.lt_succ_of_le (List.length_filter_le _ _)

/-- **The skip fixed point**: the last round changes nothing, and at the end no waiting
    task has an edge that can never be satisfied, unless a blocking failure has been
    found. -/
theorem skipPropagate_marked (cur : Engine) (hids : TaskIds e) :
    Marked e (skipPropagate e cur) ∧ (skipPropagate e cur).changed = false ∧
      ∀ s ∈ e.db.tasks, waiting (statusIn (skipPropagate e cur) s) = true →
        (edgesOf e.db.deps s.id).any (edgeUnmatched (skipPropagate e cur).statuses) = true →
        (skipPropagate e cur).blockingFailure = true := by
  obtain ⟨last, hlast, hstop, heq⟩ := untilStable_spec (fun _ h => h.round hids)
    (fun _ h hc => h.round_count hids hc) (marked_start hids) (waitingCount_lt e (skipStart e cur))
  have hprop : skipPropagate e cur = skipRound e.db.tasks e.db.deps last := by
    rw [skipPropagate, skipLoop_eq]
    exact heq
  rw [hprop]
  refine ⟨hlast.round hids, hstop, ?_⟩
  obtain ⟨hst, _, _, hedges⟩ := steps_unchanged e.db.tasks e.db.deps e.db.tasks
    { last with changed := false } hstop
  intro s hs hw hun
  have hst' : (skipRound e.db.tasks e.db.deps last).statuses = last.statuses := hst
  rw [statusIn, hst'] at hw
  rw [hst'] at hun
  exact hedges s hs hw hun

/-- **The rule of the loop**: what each step and the reset of the flag keep, the loop
    keeps. -/
theorem skipPropagate_keeps {I : SkipState → Prop}
    (hstep : ∀ st, I st → ∀ s ∈ e.db.tasks, I (skipStep e.db.tasks e.db.deps st s))
    (hreset : ∀ st, I st → I { st with changed := false }) (hstart : I (skipStart e cur)) :
    I (skipPropagate e cur) := by
  rw [skipPropagate, skipLoop_eq]
  refine untilStable_keeps (fun st h => ?_) hstart
  exact List.foldlRecOn e.db.tasks _ (hreset st h) hstep

theorem skipPropagate_inv (hinv : Inv e) (hlive : Live e.db.workflow.status)
    (hcur : Interfered e cur) : SkipInv e (skipPropagate e cur) :=
  skipPropagate_keeps (fun _ h _ hs => h.step hinv hlive hs)
    (fun _ h => ⟨h.path, h.status, h.known, h.row, h.deps, h.approvals, h.blocking⟩)
    (skipInv_start hinv hcur)

/-- **A blocking failure is a property of the rows read.** -/
theorem blockingFailure_iff (cur : Engine) (hids : TaskIds e) :
    (skipPropagate e cur).blockingFailure = true ↔ Blocks e := by
  obtain ⟨h, _, hfix⟩ := skipPropagate_marked cur hids
  constructor
  · exact h.blocking
  · rintro ⟨s, hs, hw, d, hd, hblock⟩
    have hstatus : statusIn (skipPropagate e cur) s = s.status := by
      rcases h.statusIn_cases hs with heq | ⟨_, _, hnone⟩
      · exact heq
      · exact absurd hblock (hnone d hd)
    refine hfix s hs (by rw [hstatus]; exact hw) (List.any_eq_true.mpr ⟨d, hd, ?_⟩)
    have hb := (h.edgeBlocking_iff hids d).mpr hblock
    rw [edgeBlocking, Bool.and_eq_true, Bool.and_eq_true] at hb
    exact hb.1.1

/-! ## Finalize -/

/-- The rows fail the workflow: a failed required block-policy task, or a waiting
    task behind a failed block-policy one. -/
def Fails (e : Engine) : Prop :=
  Blocks e ∨ ∃ t ∈ e.db.tasks, t.status = .failed ∧ t.required = true ∧ policyOf t = .block

theorem nextStatus_eq_failed (cur : Engine) (hids : TaskIds e) :
    nextStatus e (skipPropagate e cur) = .failed ↔ Fails e := by
  have hspec := (skipPropagate_marked cur hids).1
  have hblock := blockingFailure_iff cur hids
  rw [nextStatus]
  by_cases hb : (skipPropagate e cur).blockingFailure = true
  · rw [if_pos hb]
    exact ⟨fun _ => .inl (hblock.mp hb), fun _ => rfl⟩
  rw [if_neg hb, rollUpWorkflowStatus_eq_failed]
  -- a row the roll-up counts as failed failed before the loop
  have hrow : ∀ t ∈ e.db.tasks, blockingRow (rollupInput (skipPropagate e cur).statuses t) = true ↔
      t.status = .failed ∧ t.required = true ∧ policyOf t = .block := by
    intro t ht
    have hin : (rollupInput (skipPropagate e cur).statuses t).status =
        statusIn (skipPropagate e cur) t := rfl
    rw [blockingRow, Bool.and_eq_true, Bool.and_eq_true, decide_eq_true_eq, decide_eq_true_eq,
      and_assoc, hin]
    show statusIn (skipPropagate e cur) t = .failed ∧ t.required = true ∧ policyOf t = .block ↔ _
    rcases hspec.statusIn_cases ht with heq | ⟨hw, heq, _⟩
    · rw [heq]
    rw [heq]
    constructor
    · rintro ⟨hf, _⟩
      cases hf
    · rintro ⟨hf, _⟩
      rw [hf] at hw
      exact absurd hw (by decide)
  constructor
  · intro hany
    obtain ⟨r, hr, hrb⟩ := List.any_eq_true.mp hany
    obtain ⟨t, ht, rfl⟩ := List.mem_map.mp hr
    exact .inr ⟨t, ht, (hrow t ht).mp hrb⟩
  · rintro (hbl | ⟨t, ht, h⟩)
    · exact absurd (hblock.mpr hbl) hb
    · exact List.any_eq_true.mpr ⟨_, List.mem_map_of_mem ht, (hrow t ht).mpr h⟩

theorem nextStatus_cases (snap : Engine) (st : SkipState) :
    nextStatus snap st = .failed ∨ nextStatus snap st = .completed ∨
      nextStatus snap st = .active := by
  rw [nextStatus]
  by_cases hb : st.blockingFailure = true
  · rw [if_pos hb]
    exact .inl rfl
  rw [if_neg hb, rollUpWorkflowStatus]
  split
  · exact .inr (.inr rfl)
  split
  · exact .inl rfl
  · split
    · exact .inr (.inl rfl)
    · exact .inr (.inr rfl)

theorem finalizeWorkflow_eq (snap cur : Engine) : finalizeWorkflow snap cur =
      if snap.db.workflow.status ≠ .active then ⟨cur, snap.db.workflow.status, false⟩
      else if nextStatus snap (skipPropagate snap cur) ≠ .active ∧
          (skipPropagate snap cur).engine.db.workflow.lockVersion =
            snap.db.workflow.lockVersion then
        ⟨((skipPropagate snap cur).engine.setWorkflowStatus snap.db.workflow.lockVersion
          (nextStatus snap (skipPropagate snap cur))).deleteLeases (fun _ => true),
          nextStatus snap (skipPropagate snap cur), true⟩
      else ⟨(skipPropagate snap cur).engine, nextStatus snap (skipPropagate snap cur), false⟩ := rfl

/-- **Finalize is a path and perhaps the close.** -/
theorem finalizeWorkflow_closes (hinv : Inv e) (hcur : Interfered e cur) :
    Closes e (finalizeWorkflow e cur).engine := by
  rw [finalizeWorkflow_eq]
  by_cases hactive : e.db.workflow.status ≠ .active
  · rw [if_pos hactive]
    exact .inl hcur.path
  rw [if_neg hactive]
  rw [not_not] at hactive
  have hpath := (skipPropagate_inv hinv (.inl hactive) hcur).path
  by_cases hmove : nextStatus e (skipPropagate e cur) ≠ .active ∧
      (skipPropagate e cur).engine.db.workflow.lockVersion = e.db.workflow.lockVersion
  · rw [if_pos hmove]
    have hrow := Path.workflow_eq hpath.path hmove.2
    have hstatus : (skipPropagate e cur).engine.db.workflow.status = .active := by
      rw [hrow]
      exact hactive
    have hbare := deleteLeases_all (skipPropagate e cur).engine
    refine .inr ⟨_, hpath.path.tail (Act.row (RowAct.drop (fun _ => true))), .inl hstatus,
      hbare, rfl, rfl, ?_, ?_⟩
    · show canTransition workflowTransitions (skipPropagate e cur).engine.db.workflow.status
        (nextStatus e (skipPropagate e cur)) = true
      rw [hstatus]
      rcases nextStatus_cases e (skipPropagate e cur) with h | h | h
      · rw [h]; rfl
      · rw [h]; rfl
      · exact absurd h hmove.1
    · show isTerminalWorkflowStatus (nextStatus e (skipPropagate e cur)) = true
      rcases nextStatus_cases e (skipPropagate e cur) with h | h | h
      · rw [h]; rfl
      · rw [h]; rfl
      · exact absurd h hmove.1
  · rw [if_neg hmove]
    exact .inl hpath

end Loop

end WfRollup
