import Cinatra.Lib.CodeUnits
import Cinatra.Lib.LongestPath
import Cinatra.Lib.Table
import Cinatra.Lib.TopoSort

/-! # CriticalPath — the critical-path method over Gantt rows

    `computeCriticalPath` sorts the leaves by Kahn's algorithm, computes earliest finishes
    forward and latest finishes backward, and flags the leaves without slack.  A leaf is
    flagged if and only if the heaviest dependency path through it is within a
    millisecond of the heaviest there is, and nothing else in the input matters
    (`critical_path_is_longest`).  A dependency of a leaf on itself is dropped, so it is no
    cycle (`self_dependency_ignored`). -/

namespace WfCriticalPath

structure CpmTaskRow where
  key : String
  parentKey : Option String
  startMs : Int
  endMs : Int

structure CpmEdge where
  taskKey : String
  dependsOnKey : String
deriving DecidableEq

structure CriticalFlag where
  isCriticalPath : Bool
  criticalPathRank : Int

/-- Key → flag; a key that is missing is not critical. -/
abbrev CriticalPathResult := List (String × CriticalFlag)

def CriticalPathResult.get? (out : CriticalPathResult) (k : String) : Option CriticalFlag :=
  (out.find? (fun e => e.1 = k)).map Prod.snd

def slackEpsilonMs : Nat := 1

section Leaves

variable (tasks : List CpmTaskRow) (dependencies : List CpmEdge)

/-- The keys some row names as its parent. -/
def parentKeys : List String :=
  (tasks.filterMap CpmTaskRow.parentKey).filter (fun p => p ≠ "")

def leaves : List CpmTaskRow := tasks.filter (fun t => t.key ∉ parentKeys tasks)

def leafKeys : List String := (leaves tasks).map CpmTaskRow.key

/-- `leafByKey.get(k)`. -/
def leafByKey (k : String) : Option CpmTaskRow := (leaves tasks).reverse.find? (fun t => t.key = k)

/-- The edges between two different leaves. -/
def leafEdges : List CpmEdge :=
  dependencies.filter (fun e =>
    (leafByKey tasks e.taskKey).isSome && (leafByKey tasks e.dependsOnKey).isSome &&
      e.taskKey ≠ e.dependsOnKey)

def predsByKey (k : String) : List String :=
  ((leafEdges tasks dependencies).filter (fun e => e.taskKey = k)).map CpmEdge.dependsOnKey

def succsByKey (k : String) : List String :=
  ((leafEdges tasks dependencies).filter (fun e => e.dependsOnKey = k)).map CpmEdge.taskKey

/-- The leaves in the order Kahn's algorithm places them. -/
def topo : List String :=
  TopoSort.run CodeUnits.jsSort (leafKeys tasks) (predsByKey tasks dependencies)
    (succsByKey tasks dependencies)

def dur (k : String) : Int :=
  match leafByKey tasks k with
  | none => 0
  | some t => max 0 (t.endMs - t.startMs)

end Leaves

/-! ## The two passes -/

/-- A `Map<string, number>`. -/
abbrev Times := String → Option Int

def Times.set (m : Times) (k : String) (v : Int) : Times := fun j => if j = k then some v else m j

section Passes

variable (dur : String → Int)

/-- Earliest starts and finishes. -/
structure Forward where
  es : Times
  ef : Times

/-- The largest earliest finish of the predecessors, 0 without one. -/
def maxPredEf (ef : Times) (preds : List String) : Int :=
  preds.foldl (fun m p => if (ef p).getD 0 > m then (ef p).getD 0 else m) 0

def forwardStep (preds : String → List String) (fw : Forward) (k : String) : Forward :=
  let s := maxPredEf fw.ef (preds k)
  ⟨fw.es.set k s, fw.ef.set k (s + dur k)⟩

def forward (preds : String → List String) (topo : List String) : Forward :=
  topo.foldl (forwardStep dur preds) ⟨fun _ => none, fun _ => none⟩

def makespan (ef : Times) (topo : List String) : Int :=
  topo.foldl (fun m k => if (ef k).getD 0 > m then (ef k).getD 0 else m) 0

/-- Latest finishes and starts. -/
structure Backward where
  lf : Times
  ls : Times

/-- The smallest latest start of the successors, the makespan without one.  The source
    starts from `Infinity`, which the first successor replaces. -/
def minSuccLs (makespan : Int) (ls : Times) : List String → Int
  | [] => makespan
  | s :: succs =>
    succs.foldl (fun m s => if (ls s).getD makespan < m then (ls s).getD makespan else m)
      ((ls s).getD makespan)

def backwardStep (succs : String → List String) (makespan : Int) (bw : Backward) (k : String) :
    Backward :=
  let m := minSuccLs makespan bw.ls (succs k)
  ⟨bw.lf.set k m, bw.ls.set k (m - dur k)⟩

def backward (succs : String → List String) (makespan : Int) (topo : List String) : Backward :=
  topo.reverse.foldl (backwardStep dur succs makespan) ⟨fun _ => none, fun _ => none⟩

end Passes

section Compute

variable (tasks : List CpmTaskRow) (dependencies : List CpmEdge)

def earliestFinish : Times :=
  (forward (dur tasks) (predsByKey tasks dependencies) (topo tasks dependencies)).ef

def latestFinish : Times :=
  (backward (dur tasks) (succsByKey tasks dependencies)
    (makespan (earliestFinish tasks dependencies) (topo tasks dependencies))
    (topo tasks dependencies)).lf

def slack (k : String) : Int :=
  (latestFinish tasks dependencies k).getD 0 - (earliestFinish tasks dependencies k).getD 0

/-- The flags of the leaves without slack; none where the leaves have a cycle. -/
def computeCriticalPath : CriticalPathResult :=
  if tasks = [] then []
  else if leaves tasks = [] then []
  else if (topo tasks dependencies).length ≠ (leaves tasks).length then []
  else (topo tasks dependencies).filterMap (fun k =>
    if (slack tasks dependencies k).natAbs ≤ slackEpsilonMs then
      some (k, ⟨true, (earliestFinish tasks dependencies k).getD 0⟩)
    else none)

end Compute

/-! ## The leaf graph -/

open LongestPath Relation

section Graph

variable (tasks : List CpmTaskRow) (dependencies : List CpmEdge)

/-- `a` comes before `b`: some edge between the two leaves says so. -/
def LeafEdge (a b : String) : Prop :=
  a ∈ leafKeys tasks ∧ b ∈ leafKeys tasks ∧ a ≠ b ∧
    ∃ e ∈ dependencies, e.dependsOnKey = a ∧ e.taskKey = b

/-- A dependency path through leaves. -/
def LeafPath : List String → Prop :=
  IsPath (fun k => k ∈ leafKeys tasks) (LeafEdge tasks dependencies)

/-- No leaf comes before itself. -/
def Acyclic : Prop := ∀ a, ¬ TransGen (LeafEdge tasks dependencies) a a

end Graph

section Facts

variable {tasks : List CpmTaskRow} {dependencies : List CpmEdge}

theorem leafByKey_isSome {k : String} : (leafByKey tasks k).isSome = true ↔ k ∈ leafKeys tasks := by
  rw [leafByKey, List.find?_isSome, leafKeys, List.mem_map]
  simp only [List.mem_reverse, decide_eq_true_eq]

theorem mem_leafEdges {e : CpmEdge} : e ∈ leafEdges tasks dependencies ↔
    e ∈ dependencies ∧ e.taskKey ∈ leafKeys tasks ∧ e.dependsOnKey ∈ leafKeys tasks ∧
      e.taskKey ≠ e.dependsOnKey := by
  rw [leafEdges, List.mem_filter, Bool.and_eq_true, Bool.and_eq_true, leafByKey_isSome,
    leafByKey_isSome, decide_eq_true_eq]
  tauto

theorem leafEdge_iff {p k : String} : LeafEdge tasks dependencies p k ↔
    ∃ e ∈ leafEdges tasks dependencies, e.dependsOnKey = p ∧ e.taskKey = k := by
  constructor
  · rintro ⟨hp, hk, hne, e, hin, rfl, rfl⟩
    exact ⟨e, mem_leafEdges.mpr ⟨hin, hk, hp, Ne.symm hne⟩, rfl, rfl⟩
  · rintro ⟨e, he, rfl, rfl⟩
    obtain ⟨hin, htask, hdep, hne⟩ := mem_leafEdges.mp he
    exact ⟨hdep, htask, Ne.symm hne, e, hin, rfl, rfl⟩

theorem mem_predsByKey {p k : String} :
    p ∈ predsByKey tasks dependencies k ↔ LeafEdge tasks dependencies p k := by
  simp [leafEdge_iff, predsByKey, and_assoc, and_left_comm, and_comm]

theorem mem_succsByKey {k s : String} :
    s ∈ succsByKey tasks dependencies k ↔ LeafEdge tasks dependencies k s := by
  simp [leafEdge_iff, succsByKey, and_assoc]

private theorem count_edges (es : List CpmEdge) (k s : String) :
    ((es.filter (fun e => e.dependsOnKey = k)).map CpmEdge.taskKey).count s =
      ((es.filter (fun e => e.taskKey = s)).map CpmEdge.dependsOnKey).count k := by
  induction es with
  | nil => rfl
  | cons e es ih =>
    by_cases hk : e.dependsOnKey = k <;> by_cases hs : e.taskKey = s <;>
      simp [hk, hs, ih]

theorem leafKeys_nodup (hkeys : (tasks.map CpmTaskRow.key).Nodup) : (leafKeys tasks).Nodup :=
  (List.filter_sublist.map CpmTaskRow.key).nodup hkeys

theorem leafGraph (dependencies : List CpmEdge) (hkeys : (tasks.map CpmTaskRow.key).Nodup) :
    TopoSort.Graph CodeUnits.jsSort (leafKeys tasks) (predsByKey tasks dependencies)
      (succsByKey tasks dependencies) where
  nodup := leafKeys_nodup hkeys
  preds_mem := fun _ _ hp => (mem_predsByKey.mp hp).1
  succs_mem := fun _ _ hs => (mem_succsByKey.mp hs).2.1
  count_eq := count_edges _
  perm := fun l => List.perm_insertionSort _ l

theorem edge_eq : TopoSort.Edge (predsByKey tasks dependencies) = LeafEdge tasks dependencies := by
  funext a b
  exact propext mem_predsByKey

theorem length_leafKeys : (leafKeys tasks).length = (leaves tasks).length := List.length_map _

/-- **The sort succeeds** on the graphs without a cycle. -/
theorem topo_complete_iff (hkeys : (tasks.map CpmTaskRow.key).Nodup) :
    (topo tasks dependencies).length = (leaves tasks).length ↔ Acyclic tasks dependencies := by
  rw [← length_leafKeys, Acyclic, ← edge_eq]
  exact TopoSort.run_complete_iff (leafGraph dependencies hkeys)

theorem dur_nonneg (tasks : List CpmTaskRow) (k : String) : 0 ≤ dur tasks k := by
  rw [dur]
  split
  · exact Int.le_refl 0
  · exact Int.le_max_left _ _

end Facts

/-! ## The forward pass -/

/-- Keeping the larger value of two: an upper bound that is attained. -/
theorem foldl_larger_spec {α : Type} [LinearOrder α] (f : String → α) (l : List String) (m : α) :
    m ≤ l.foldl (fun m p => if f p > m then f p else m) m ∧
      (∀ p ∈ l, f p ≤ l.foldl (fun m p => if f p > m then f p else m) m) ∧
      (l.foldl (fun m p => if f p > m then f p else m) m = m ∨
        ∃ p ∈ l, l.foldl (fun m p => if f p > m then f p else m) m = f p) := by
  induction l generalizing m with
  | nil => exact ⟨le_refl m, fun p hp => absurd hp List.not_mem_nil, .inl rfl⟩
  | cons q l ih =>
    rw [List.foldl_cons]
    by_cases hgt : f q > m
    · rw [if_pos hgt]
      obtain ⟨hle, hall, hsome⟩ := ih (f q)
      refine ⟨le_trans (le_of_lt hgt) hle, List.forall_mem_cons.mpr ⟨hle, hall⟩, .inr ?_⟩
      rcases hsome with he | ⟨p, hp, he⟩
      · exact ⟨q, List.mem_cons_self .., he⟩
      · exact ⟨p, .tail _ hp, he⟩
    · rw [if_neg hgt]
      obtain ⟨hle, hall, hsome⟩ := ih m
      refine ⟨hle, List.forall_mem_cons.mpr ⟨le_trans (not_lt.mp hgt) hle, hall⟩, ?_⟩
      exact hsome.imp_right fun ⟨p, hp, he⟩ => ⟨p, .tail _ hp, he⟩

theorem maxPredEf_spec (ef : Times) (preds : List String) :
    0 ≤ maxPredEf ef preds ∧ (∀ p ∈ preds, (ef p).getD 0 ≤ maxPredEf ef preds) ∧
      (maxPredEf ef preds = 0 ∨ ∃ p ∈ preds, maxPredEf ef preds = (ef p).getD 0) :=
  foldl_larger_spec (fun p => (ef p).getD 0) preds 0

theorem maxPredEf_congr {ef ef' : Times} {preds : List String} (h : ∀ p ∈ preds, ef p = ef' p) :
    maxPredEf ef preds = maxPredEf ef' preds := by
  rw [maxPredEf, maxPredEf]
  refine List.foldl_ext _ _ _ ?_
  intro m p hp
  rw [h p hp]

@[simp] theorem Times.set_self (m : Times) (k : String) (v : Int) : m.set k v k = some v := by
  rw [Times.set, if_pos rfl]

variable {k : String}

theorem Times.set_ne (m : Times) {j : String} (h : j ≠ k) (v : Int) : m.set k v j = m j := by
  rw [Times.set, if_neg h]

section Forward

variable {preds : String → List String}

/-- **The forward pass**: over an order with predecessors first, each finish is the
    node's duration after the largest finish of its predecessors. -/
theorem forward_spec (dur : String → Int) (topo : List String) (hnd : topo.Nodup)
    (hfin : DepthFirst.Finished preds topo.reverse) : (∀ k ∈ topo, (forward dur preds topo).ef k =
      some (maxPredEf (forward dur preds topo).ef (preds k) + dur k)) := by
  induction topo using List.reverseRecOn with
  | nil => exact fun k hk => absurd hk List.not_mem_nil
  | append_singleton l x ih =>
    rw [List.reverse_append] at hfin
    obtain ⟨hx, hl⟩ := hfin
    obtain ⟨hndl, -, hdisj⟩ := List.nodup_append.mp hnd
    have hxl : x ∉ l := fun h => hdisj x h x (List.mem_singleton.mpr rfl) rfl
    have hpast := ih hndl hl
    have hstep : forward dur preds (l ++ [x]) = forwardStep dur preds (forward dur preds l) x := by
      rw [forward, List.foldl_append]
      rfl
    have hkeep : ∀ j, j ≠ x → (forward dur preds (l ++ [x])).ef j = (forward dur preds l).ef j := by
      intro j hj
      rw [hstep, forwardStep]
      exact Times.set_ne _ hj _
    have hpreds : ∀ k ∈ l ++ [x], ∀ p ∈ preds k, p ∈ l := by
      intro k hk p hp
      rcases RowTable.mem_concat.mp hk with hk | rfl
      · exact List.mem_reverse.mp (TopoSort.finished_mem hl k (List.mem_reverse.mpr hk) p hp)
      · exact List.mem_reverse.mp (hx p hp)
    intro k hk
    have hsame : maxPredEf (forward dur preds (l ++ [x])).ef (preds k) =
        maxPredEf (forward dur preds l).ef (preds k) := by
      refine maxPredEf_congr (fun p hp => hkeep p ?_)
      rintro rfl
      exact hxl (hpreds k hk p hp)
    rw [hsame]
    rcases List.mem_append.mp hk with hk | hk
    · have hkx : k ≠ x := fun he => hxl (he ▸ hk)
      rw [hkeep k hkx]
      exact hpast k hk
    · rw [List.mem_singleton.mp hk, hstep, forwardStep]
      exact Times.set_self _ _ _

end Forward

/-- The makespan, or the smallest of the successors' latest starts. -/
theorem minSuccLs_spec (makespan : Int) (ls : Times) (succs : List String) :
    (succs = [] ∧ minSuccLs makespan ls succs = makespan) ∨
      ((∀ s ∈ succs, minSuccLs makespan ls succs ≤ (ls s).getD makespan) ∧
        ∃ s ∈ succs, minSuccLs makespan ls succs = (ls s).getD makespan) := by
  cases succs with
  | nil => exact .inl ⟨rfl, rfl⟩
  | cons s succs =>
    -- the smaller value is the larger one of the reversed order
    obtain ⟨hle, hall, hsome⟩ :=
      foldl_larger_spec (fun s => OrderDual.toDual ((ls s).getD makespan)) succs
        (OrderDual.toDual ((ls s).getD makespan))
    refine .inr ⟨?_, ?_⟩
    · intro t ht
      rcases List.mem_cons.mp ht with rfl | ht
      · exact hle
      · exact hall t ht
    · rcases hsome with he | ⟨t, ht, he⟩
      · exact ⟨s, List.mem_cons_self .., he⟩
      · exact ⟨t, .tail _ ht, he⟩

theorem minSuccLs_congr {makespan : Int} {ls ls' : Times} {succs : List String}
    (h : ∀ s ∈ succs, ls s = ls' s) : minSuccLs makespan ls succs = minSuccLs makespan ls' succs := by
  cases succs with
  | nil => rfl
  | cons s succs =>
    rw [minSuccLs, minSuccLs, h s (List.mem_cons_self ..)]
    refine List.foldl_ext _ _ _ ?_
    intro m t ht
    rw [h t (.tail _ ht)]

section Backward

variable {succs : String → List String}

/-- **The backward pass**: over an order with successors last, each latest finish is the
    smallest latest start of the successors. -/
theorem backward_spec (dur : String → Int) (makespan : Int) (topo : List String) (hnd : topo.Nodup)
    (hfin : DepthFirst.Finished succs topo) : ∀ k ∈ topo, (backward dur succs makespan topo).lf k =
        some (minSuccLs makespan (backward dur succs makespan topo).ls (succs k)) ∧
      (backward dur succs makespan topo).ls k =
        some (minSuccLs makespan (backward dur succs makespan topo).ls (succs k) - dur k) := by
  induction topo with
  | nil => exact fun k hk => absurd hk List.not_mem_nil
  | cons x l ih =>
    obtain ⟨hx, hl⟩ := hfin
    obtain ⟨hxl, hndl⟩ := List.nodup_cons.mp hnd
    have hpast := ih hndl hl
    have hstep : backward dur succs makespan (x :: l) =
        backwardStep dur succs makespan (backward dur succs makespan l) x := by
      rw [backward, List.reverse_cons, List.foldl_append]
      rfl
    have hkeep : ∀ j, j ≠ x →
        (backward dur succs makespan (x :: l)).lf j = (backward dur succs makespan l).lf j ∧
        (backward dur succs makespan (x :: l)).ls j = (backward dur succs makespan l).ls j := by
      intro j hj
      rw [hstep, backwardStep]
      exact ⟨Times.set_ne _ hj _, Times.set_ne _ hj _⟩
    have hsuccs : ∀ k ∈ x :: l, ∀ s ∈ succs k, s ∈ l := by
      intro k hk s hs
      rcases List.mem_cons.mp hk with rfl | hk
      · exact hx s hs
      · exact TopoSort.finished_mem hl k hk s hs
    intro k hk
    have hsame : minSuccLs makespan (backward dur succs makespan (x :: l)).ls (succs k) =
        minSuccLs makespan (backward dur succs makespan l).ls (succs k) := by
      refine minSuccLs_congr (fun s hs => (hkeep s ?_).2)
      rintro rfl
      exact hxl (hsuccs k hk s hs)
    rw [hsame]
    rcases List.mem_cons.mp hk with rfl | hk
    · rw [hstep, backwardStep]
      exact ⟨Times.set_self _ _ _, Times.set_self _ _ _⟩
    · have hkx : k ≠ x := fun he => hxl (he ▸ hk)
      rw [(hkeep k hkx).1, (hkeep k hkx).2]
      exact hpast k hk

end Backward

/-! ## The passes measure paths -/

theorem succs_finished {preds succs : String → List String} {topo : List String}
    (hnd : topo.Nodup) (hfin : DepthFirst.Finished preds topo.reverse)
    (hedge : ∀ k s, s ∈ succs k → k ∈ preds s ∧ s ∈ topo) : DepthFirst.Finished succs topo := by
  have hsuffix : ∀ (r l : List String), l ++ r = topo → DepthFirst.Finished succs r := by
    intro r
    induction r with
    | nil => exact fun _ _ => trivial
    | cons x r ih =>
      intro l hl
      refine ⟨?_, ih (l ++ [x]) (by rw [← hl]; simp)⟩
      intro s hs
      obtain ⟨hpred, hin⟩ := hedge x s hs
      rw [← hl] at hin
      -- up to `x` every node has its predecessors, so `s` would have `x` before it
      have hearly : ∀ (l' r' : List String), l' ++ r' = topo →
          DepthFirst.Finished preds l'.reverse := by
        intro l' r' he
        rw [← he, List.reverse_append] at hfin
        revert hfin
        induction r'.reverse with
        | nil => exact id
        | cons y ys ihy => exact fun h => ihy h.2
      rcases List.mem_append.mp hin with hsl | hsr
      · have hx := TopoSort.finished_mem (hearly l (x :: r) hl) s (List.mem_reverse.mpr hsl) x hpred
        rw [← hl] at hnd
        exact absurd rfl ((List.nodup_append.mp hnd).2.2 x (List.mem_reverse.mp hx) x
          (List.mem_cons_self ..))
      · rcases List.mem_cons.mp hsr with rfl | hsr
        · have hfirst := hearly (l ++ [s]) r (by rw [← hl]; simp)
          rw [List.reverse_append] at hfirst
          have hself := List.mem_reverse.mp (hfirst.1 s hpred)
          rw [← hl] at hnd
          exact absurd rfl ((List.nodup_append.mp hnd).2.2 s hself s (List.mem_cons_self ..))
        · exact hsr
  exact hsuffix topo [] rfl

section Measures

variable {tasks : List CpmTaskRow} {dependencies : List CpmEdge}

/-- The earliest finish of a leaf. -/
def finish (tasks : List CpmTaskRow) (dependencies : List CpmEdge) (k : String) : Int :=
  (earliestFinish tasks dependencies k).getD 0

abbrev span (tasks : List CpmTaskRow) (dependencies : List CpmEdge) : Int :=
  makespan (earliestFinish tasks dependencies) (topo tasks dependencies)

/-- The time from a leaf's latest start to the end. -/
def remaining (tasks : List CpmTaskRow) (dependencies : List CpmEdge) (k : String) : Int :=
  makespan (earliestFinish tasks dependencies) (topo tasks dependencies) -
    (latestFinish tasks dependencies k).getD 0 + dur tasks k

variable (hkeys : (tasks.map CpmTaskRow.key).Nodup) (hacyclic : Acyclic tasks dependencies)

include hkeys hacyclic

theorem mem_topo : k ∈ topo tasks dependencies ↔ k ∈ leafKeys tasks := by
  have hgraph := leafGraph dependencies hkeys
  have hall := (TopoSort.run_complete_iff hgraph).mpr (by rw [edge_eq]; exact hacyclic)
  exact ⟨TopoSort.run_mem hgraph, (TopoSort.run_length_iff hgraph).mp hall k⟩

/-- The edges of the leaf graph have no infinite descent, in either direction. -/
theorem edges_wellFounded : WellFounded (LeafEdge tasks dependencies) ∧
    WellFounded (fun a b => LeafEdge tasks dependencies b a) := by
  have hgraph := leafGraph dependencies hkeys
  have hpreds := TopoSort.run_finished hgraph
  have hsuccs : DepthFirst.Finished (succsByKey tasks dependencies) (topo tasks dependencies) := by
    refine succs_finished (TopoSort.run_nodup hgraph) hpreds ?_
    intro k s hs
    have hedge := mem_succsByKey.mp hs
    exact ⟨mem_predsByKey.mpr hedge, (mem_topo hkeys hacyclic).mpr hedge.2.1⟩
  refine ⟨?_, ?_⟩
  · rw [← edge_eq]
    refine hpreds.wellFounded ?_
    intro a ha
    obtain ⟨p, hp⟩ := List.exists_mem_of_ne_nil _ ha
    exact List.mem_reverse.mpr ((mem_topo hkeys hacyclic).mpr (mem_predsByKey.mp hp).2.1)
  · have heq : (fun a b => LeafEdge tasks dependencies b a) =
        (fun b a => b ∈ succsByKey tasks dependencies a) := by
      funext a b
      exact propext mem_succsByKey.symm
    rw [heq]
    refine hsuccs.wellFounded ?_
    intro a ha
    obtain ⟨s, hs⟩ := List.exists_mem_of_ne_nil _ ha
    exact (mem_topo hkeys hacyclic).mpr (mem_succsByKey.mp hs).1

theorem finish_eq (hk : k ∈ leafKeys tasks) : finish tasks dependencies k =
    maxPredEf (earliestFinish tasks dependencies) (predsByKey tasks dependencies k) +
      dur tasks k := by
  have hgraph := leafGraph dependencies hkeys
  have hspec := forward_spec (dur tasks) (topo tasks dependencies)
    (TopoSort.run_nodup hgraph) (TopoSort.run_finished hgraph) k
    ((mem_topo hkeys hacyclic).mpr hk)
  rw [finish, earliestFinish, hspec]
  rfl

/-- **Earliest finishes** weigh the heaviest path to a leaf. -/
theorem finish_measures : Measures (fun k => k ∈ leafKeys tasks) (LeafEdge tasks dependencies)
    (dur tasks) (finish tasks dependencies) where
  base := by
    intro k hk
    have hspec := maxPredEf_spec (earliestFinish tasks dependencies) (predsByKey tasks dependencies k)
    rw [finish_eq hkeys hacyclic hk]
    omega
  step := by
    intro a b _ hb hab
    have hspec := maxPredEf_spec (earliestFinish tasks dependencies) (predsByKey tasks dependencies b)
    have hle := hspec.2.1 a (mem_predsByKey.mpr hab)
    rw [finish_eq hkeys hacyclic hb]
    show (earliestFinish tasks dependencies a).getD 0 + dur tasks b ≤ _
    omega
  tight := by
    intro b hb
    have hspec := maxPredEf_spec (earliestFinish tasks dependencies) (predsByKey tasks dependencies b)
    rw [finish_eq hkeys hacyclic hb]
    rcases hspec.2.2 with hzero | ⟨a, ha, he⟩
    · exact .inl (by omega)
    · have hedge := mem_predsByKey.mp ha
      exact .inr ⟨a, hedge.1, hedge, by rw [he]; rfl⟩

theorem remaining_eq (hk : k ∈ leafKeys tasks) :
    (succsByKey tasks dependencies k = [] ∧ remaining tasks dependencies k = dur tasks k) ∨
      ((∀ s ∈ succsByKey tasks dependencies k,
          remaining tasks dependencies s + dur tasks k ≤ remaining tasks dependencies k) ∧
        ∃ s ∈ succsByKey tasks dependencies k,
          remaining tasks dependencies k = remaining tasks dependencies s + dur tasks k) := by
  have hgraph := leafGraph dependencies hkeys
  have hfinished : DepthFirst.Finished (succsByKey tasks dependencies) (topo tasks dependencies) := by
    refine succs_finished (TopoSort.run_nodup hgraph) (TopoSort.run_finished hgraph) ?_
    intro k s hs
    have hedge := mem_succsByKey.mp hs
    exact ⟨mem_predsByKey.mpr hedge, (mem_topo hkeys hacyclic).mpr hedge.2.1⟩
  have hspec := backward_spec (dur tasks) (span tasks dependencies) (topo tasks dependencies)
    (TopoSort.run_nodup hgraph) hfinished
  have hself : ∀ j ∈ leafKeys tasks, remaining tasks dependencies j =
      span tasks dependencies - ((backward (dur tasks) (succsByKey tasks dependencies)
        (span tasks dependencies) (topo tasks dependencies)).ls j).getD
          (span tasks dependencies) := by
    intro j hj
    obtain ⟨hlf, hls⟩ := hspec j ((mem_topo hkeys hacyclic).mpr hj)
    rw [remaining, latestFinish, hlf, hls, Option.getD_some, Option.getD_some, span]
    omega
  have hk' : remaining tasks dependencies k =
      span tasks dependencies - minSuccLs (span tasks dependencies)
        (backward (dur tasks) (succsByKey tasks dependencies) (span tasks dependencies)
          (topo tasks dependencies)).ls (succsByKey tasks dependencies k) + dur tasks k := by
    rw [remaining, latestFinish, (hspec k ((mem_topo hkeys hacyclic).mpr hk)).1, Option.getD_some]
  rcases minSuccLs_spec (span tasks dependencies)
    (backward (dur tasks) (succsByKey tasks dependencies) (span tasks dependencies)
      (topo tasks dependencies)).ls (succsByKey tasks dependencies k) with
    ⟨hnil, he⟩ | ⟨hall, s, hs, he⟩
  · refine .inl ⟨hnil, ?_⟩
    rw [hk', he]
    omega
  refine .inr ⟨?_, s, hs, ?_⟩
  · intro t ht
    have hle := hall t ht
    rw [hk', hself t (mem_succsByKey.mp ht).2.1]
    omega
  · rw [hk', hself s (mem_succsByKey.mp hs).2.1, he]

/-- **Latest starts** weigh the heaviest path from a leaf. -/
theorem remaining_measures : Measures (fun k => k ∈ leafKeys tasks)
    (fun a b => LeafEdge tasks dependencies b a) (dur tasks) (remaining tasks dependencies) where
  base := by
    intro k hk
    induction k using (edges_wellFounded hkeys hacyclic).2.induction with
    | h k ih =>
      rcases remaining_eq hkeys hacyclic hk with ⟨-, he⟩ | ⟨-, s, hs, he⟩
      · omega
      · have hedge := mem_succsByKey.mp hs
        have hs0 := ih s hedge hedge.2.1
        have hdur := dur_nonneg tasks s
        omega
  step := by
    intro a b _ hb hab
    rcases remaining_eq hkeys hacyclic hb with ⟨hnil, -⟩ | ⟨hall, -⟩
    · have hin := mem_succsByKey.mpr hab
      rw [hnil] at hin
      cases hin
    · exact hall a (mem_succsByKey.mpr hab)
  tight := by
    intro b hb
    rcases remaining_eq hkeys hacyclic hb with ⟨-, he⟩ | ⟨-, s, hs, he⟩
    · exact .inl he
    · have hedge := mem_succsByKey.mp hs
      exact .inr ⟨s, hedge.2.1, hedge, he⟩

end Measures

/-! ## The flags -/

section Flags

variable {tasks : List CpmTaskRow} {dependencies : List CpmEdge}

/-- A dependency path that ends at a leaf. -/
def PathTo (tasks : List CpmTaskRow) (dependencies : List CpmEdge) (k : String)
    (p : List String) : Prop :=
  LeafPath tasks dependencies p ∧ p.getLast? = some k

/-- The heaviest path through the leaf is within a millisecond of the heaviest of all. -/
def NearlyLongest (tasks : List CpmTaskRow) (dependencies : List CpmEdge) (k : String) : Prop :=
  ∃ through all : Int,
    Longest (dur tasks) (fun p => LeafPath tasks dependencies p ∧ k ∈ p) through ∧
    Longest (dur tasks) (LeafPath tasks dependencies) all ∧ all - through ≤ slackEpsilonMs

variable {k : String}

section

variable (hkeys : (tasks.map CpmTaskRow.key).Nodup)

include hkeys

variable (hacyclic : Acyclic tasks dependencies)

include hacyclic

theorem longest_to (hk : k ∈ leafKeys tasks) :
    Longest (dur tasks) (PathTo tasks dependencies k) (finish tasks dependencies k) := by
  have hmeasures := finish_measures hkeys hacyclic
  refine ⟨?_, ?_⟩
  · obtain ⟨p, hp, hweight⟩ := hmeasures.attained (edges_wellFounded hkeys hacyclic).1 hk
    exact ⟨p ++ [k], ⟨hp, by simp⟩, hweight⟩
  · rintro p ⟨hp, hlast⟩
    obtain ⟨q, rfl⟩ := List.getLast?_eq_some_iff.mp hlast
    exact hmeasures.weight_le hp

theorem makespan_spec (hleaf : leafKeys tasks ≠ []) :
    Longest (dur tasks) (LeafPath tasks dependencies) (span tasks dependencies) := by
  have hmeasures := finish_measures hkeys hacyclic
  obtain ⟨hzero, hall, hsome⟩ :=
    maxPredEf_spec (earliestFinish tasks dependencies) (topo tasks dependencies)
  have hmax : ∀ a ∈ leafKeys tasks, finish tasks dependencies a ≤
      maxPredEf (earliestFinish tasks dependencies) (topo tasks dependencies) :=
    fun a ha => hall a ((mem_topo hkeys hacyclic).mpr ha)
  -- some leaf finishes at the makespan, any of them where it is 0
  obtain ⟨k, hk, he⟩ : ∃ k ∈ leafKeys tasks, finish tasks dependencies k =
      maxPredEf (earliestFinish tasks dependencies) (topo tasks dependencies) := by
    rcases hsome with h0 | ⟨k, hk, he⟩
    · obtain ⟨k, hk⟩ := List.exists_mem_of_ne_nil _ hleaf
      have hbase := hmeasures.base k hk
      have hdur := dur_nonneg tasks k
      have hle := hmax k hk
      exact ⟨k, hk, by omega⟩
    · exact ⟨k, (mem_topo hkeys hacyclic).mp hk, he.symm⟩
  show Longest _ _ (maxPredEf (earliestFinish tasks dependencies) (topo tasks dependencies))
  rw [← he]
  refine longest_all hmeasures (edges_wellFounded hkeys hacyclic).1 hk ?_
  intro a ha
  rw [he]
  exact hmax a ha

/-- **Slack** is how far the heaviest path through a leaf falls short of the heaviest. -/
theorem slack_iff (hk : k ∈ leafKeys tasks) :
    (slack tasks dependencies k).natAbs ≤ slackEpsilonMs ↔ NearlyLongest tasks dependencies k := by
  have hthrough := longest_through (finish_measures hkeys hacyclic)
    (remaining_measures hkeys hacyclic) (edges_wellFounded hkeys hacyclic).1
    (edges_wellFounded hkeys hacyclic).2 hk
  have hall := makespan_spec hkeys hacyclic (List.ne_nil_of_mem hk)
  have hslack : slack tasks dependencies k =
      span tasks dependencies -
        (finish tasks dependencies k + remaining tasks dependencies k - dur tasks k) := by
    rw [slack, finish, remaining, span]
    omega
  have hle : finish tasks dependencies k + remaining tasks dependencies k - dur tasks k ≤
      span tasks dependencies := by
    obtain ⟨⟨p, ⟨hp, -⟩, he⟩, -⟩ := hthrough
    rw [← he]
    exact hall.2 p hp
  rw [hslack]
  constructor
  · intro h
    exact ⟨_, _, hthrough, hall, by omega⟩
  · rintro ⟨x, y, hx, hy, hxy⟩
    rw [hthrough.unique hx, hall.unique hy]
    rw [hthrough.unique hx, hall.unique hy] at hle
    omega

end

theorem find_filterMap {l : List String} (hnd : l.Nodup) (hk : k ∈ l)
    {c : String → Prop} [DecidablePred c] {v : String → CriticalFlag} :
    ((l.filterMap (fun j => if c j then some (j, v j) else none)).find?
        (fun e => e.1 = k)).map Prod.snd = if c k then some (v k) else none := by
  induction l with
  | nil => cases hk
  | cons j l ih =>
    obtain ⟨hj, hndl⟩ := List.nodup_cons.mp hnd
    have hmiss : k ∉ l → (l.filterMap (fun j => if c j then some (j, v j) else none)).find?
        (fun e => e.1 = k) = none := by
      intro hkl
      rw [List.find?_eq_none]
      intro e he
      obtain ⟨i, hi, hsome⟩ := List.mem_filterMap.mp he
      split at hsome
      · cases hsome
        have hne : i ≠ k := fun h => hkl (h ▸ hi)
        simpa using hne
      · cases hsome
    by_cases hjk : j = k
    · subst hjk
      by_cases hc : c j
      · simp [hc]
      · simp [hc, hmiss hj]
    · have hin : k ∈ l := (List.mem_cons.mp hk).resolve_left (fun h => hjk h.symm)
      have hrest := ih hndl hin
      by_cases hc : c j
      · simp only [List.filterMap_cons, hc, if_true, List.find?_cons, hjk, decide_false]
        exact hrest
      · simp only [List.filterMap_cons, hc, if_false]
        exact hrest

variable {flag : CriticalFlag}

section

variable (hkeys : (tasks.map CpmTaskRow.key).Nodup)

include hkeys

theorem leaf_of_get?
    (h : (computeCriticalPath tasks dependencies).get? k = some flag) : k ∈ leafKeys tasks := by
  obtain ⟨e, hfind, -⟩ := Option.map_eq_some_iff.mp h
  have hek : e.1 = k := by simpa using List.find?_some hfind
  have hmem := List.mem_of_find?_eq_some hfind
  rw [computeCriticalPath] at hmem
  split at hmem
  · cases hmem
  split at hmem
  · cases hmem
  split at hmem
  · cases hmem
  obtain ⟨j, hj, hsome⟩ := List.mem_filterMap.mp hmem
  split at hsome
  · cases hsome
    rw [← hek]
    exact TopoSort.run_mem (leafGraph dependencies hkeys) hj
  · cases hsome

/-- **What the result says of a key.** -/
theorem get?_iff : (computeCriticalPath tasks dependencies).get? k = some flag ↔
      Acyclic tasks dependencies ∧ k ∈ leafKeys tasks ∧ NearlyLongest tasks dependencies k ∧
        flag.isCriticalPath = true ∧
        Longest (dur tasks) (PathTo tasks dependencies k) flag.criticalPathRank := by
  have hgraph := leafGraph dependencies hkeys
  have hempty : ∀ out : CriticalPathResult, out = [] → out.get? k ≠ some flag := by
    rintro _ rfl h
    cases h
  by_cases hacyclic : Acyclic tasks dependencies
  · have hlen := (topo_complete_iff hkeys).mpr hacyclic
    by_cases hk : k ∈ leafKeys tasks
    · have hne : leaves tasks ≠ [] := by
        intro h
        rw [leafKeys, h] at hk
        cases hk
      have htasks : tasks ≠ [] := by
        rintro rfl
        exact hne rfl
      have hcompute : computeCriticalPath tasks dependencies =
          (topo tasks dependencies).filterMap (fun k =>
            if (slack tasks dependencies k).natAbs ≤ slackEpsilonMs then
              some (k, ⟨true, (earliestFinish tasks dependencies k).getD 0⟩)
            else none) := by
        rw [computeCriticalPath, if_neg htasks, if_neg hne, if_neg (not_not.mpr hlen)]
      have hentry := find_filterMap (l := topo tasks dependencies) (TopoSort.run_nodup hgraph)
        ((mem_topo hkeys hacyclic).mpr hk)
        (c := fun k => (slack tasks dependencies k).natAbs ≤ slackEpsilonMs)
        (v := fun k => ⟨true, (earliestFinish tasks dependencies k).getD 0⟩)
      rw [hcompute, CriticalPathResult.get?, hentry]
      have hto := longest_to hkeys hacyclic hk
      by_cases hslack : (slack tasks dependencies k).natAbs ≤ slackEpsilonMs
      · have hnear := (slack_iff hkeys hacyclic hk).mp hslack
        rw [if_pos hslack]
        constructor
        · rintro ⟨⟩
          exact ⟨hacyclic, hk, hnear, rfl, hto⟩
        · rintro ⟨-, -, -, hflag, hrank⟩
          have he := hto.unique hrank
          obtain ⟨c, r⟩ := flag
          have hflag' : c = true := hflag
          have hr : finish tasks dependencies k = r := he
          rw [hflag', ← hr]
          rfl
      · rw [if_neg hslack]
        constructor
        · rintro ⟨⟩
        · rintro ⟨-, -, hnear, -⟩
          exact absurd ((slack_iff hkeys hacyclic hk).mpr hnear) hslack
    · constructor
      · intro h
        exact absurd (leaf_of_get? hkeys h) hk
      · rintro ⟨-, hin, -⟩
        exact absurd hin hk
  · constructor
    · intro h
      refine absurd h (hempty _ ?_)
      have hlen := mt (topo_complete_iff hkeys).mp hacyclic
      simp [computeCriticalPath, hlen]
    · rintro ⟨h, -⟩
      exact absurd h hacyclic

/-- **Nothing is flagged** exactly where there are no leaves or the leaves have a cycle. -/
theorem computeCriticalPath_eq_nil : computeCriticalPath tasks dependencies = [] ↔
      leaves tasks = [] ∨ ¬ Acyclic tasks dependencies := by
  constructor
  · intro hnil
    by_contra hno
    rw [not_or, not_not] at hno
    obtain ⟨hleaves, hacyclic⟩ := hno
    have hkne : leafKeys tasks ≠ [] := fun h => hleaves (List.map_eq_nil_iff.mp h)
    have hall := makespan_spec hkeys hacyclic hkne
    -- a leaf on the heaviest path is flagged
    obtain ⟨⟨p, hp, hweight⟩, -⟩ := hall
    obtain ⟨k, hkp⟩ := List.exists_mem_of_ne_nil _ hp.ne
    have hk := hp.mem k hkp
    have hthrough := longest_through (finish_measures hkeys hacyclic)
      (remaining_measures hkeys hacyclic) (edges_wellFounded hkeys hacyclic).1
      (edges_wellFounded hkeys hacyclic).2 hk
    have hge := hthrough.2 p ⟨hp, hkp⟩
    have hnear : NearlyLongest tasks dependencies k :=
      ⟨_, _, hthrough, makespan_spec hkeys hacyclic hkne, by
        rw [hweight] at hge
        have hone : (0 : Int) ≤ slackEpsilonMs := by decide
        omega⟩
    have hflag : (computeCriticalPath tasks dependencies).get? k =
        some ⟨true, finish tasks dependencies k⟩ :=
      (get?_iff hkeys).mpr ⟨hacyclic, hk, hnear, rfl, longest_to hkeys hacyclic hk⟩
    rw [hnil] at hflag
    cases hflag
  · rintro (hleaves | hcyclic)
    · simp [computeCriticalPath, hleaves]
    · have hlen := mt (topo_complete_iff hkeys).mp hcyclic
      simp [computeCriticalPath, hlen]

end

/-! ## What the result depends on -/

variable {tasks' : List CpmTaskRow}

theorem mem_parentKeys_perm (h : tasks'.Perm tasks) :
    k ∈ parentKeys tasks' ↔ k ∈ parentKeys tasks :=
  ((h.filterMap CpmTaskRow.parentKey).filter _).mem_iff

theorem leaves_perm (h : tasks'.Perm tasks) : (leaves tasks').Perm (leaves tasks) := by
  have hsame : (fun t : CpmTaskRow => decide (t.key ∉ parentKeys tasks')) =
      (fun t : CpmTaskRow => decide (t.key ∉ parentKeys tasks)) := by
    funext t
    rw [decide_eq_decide, mem_parentKeys_perm h]
  rw [leaves, leaves, hsame]
  exact h.filter _

section

variable (hkeys : (tasks.map CpmTaskRow.key).Nodup)

include hkeys

theorem leafByKey_eq_some
    {t : CpmTaskRow} : leafByKey tasks k = some t ↔ t ∈ leaves tasks ∧ t.key = k := by
  constructor
  · intro h
    have hkey : t.key = k := by simpa using List.find?_some h
    exact ⟨List.mem_reverse.mp (List.mem_of_find?_eq_some h), hkey⟩
  · rintro ⟨ht, hk⟩
    have hsome : (leafByKey tasks k).isSome = true :=
      leafByKey_isSome.mpr (List.mem_map.mpr ⟨t, ht, hk⟩)
    obtain ⟨t', ht'⟩ := Option.isSome_iff_exists.mp hsome
    have hkey : t'.key = k := by simpa using List.find?_some ht'
    have hmem := List.mem_reverse.mp (List.mem_of_find?_eq_some ht')
    rw [ht', List.inj_on_of_nodup_map (leafKeys_nodup hkeys) hmem ht (hkey.trans hk.symm)]

theorem dur_perm (h : tasks'.Perm tasks) : dur tasks' = dur tasks := by
  have hkeys' : (tasks'.map CpmTaskRow.key).Nodup :=
    (h.map CpmTaskRow.key).nodup_iff.mpr hkeys
  have hfind : ∀ k, leafByKey tasks' k = leafByKey tasks k := by
    intro k
    refine Option.ext (fun t => ?_)
    rw [leafByKey_eq_some hkeys', leafByKey_eq_some hkeys, (leaves_perm h).mem_iff]
  funext k
  rw [dur, dur, hfind k]

/-- The result as a map is a function of the leaves and the edges between them. -/
theorem get?_perm {dependencies' : List CpmEdge} (hrows : tasks'.Perm tasks)
    (hedges : ∀ e : CpmEdge, e.taskKey ∈ leafKeys tasks → e.dependsOnKey ∈ leafKeys tasks →
      e.taskKey ≠ e.dependsOnKey → (e ∈ dependencies' ↔ e ∈ dependencies)) (k : String) :
    (computeCriticalPath tasks' dependencies').get? k =
      (computeCriticalPath tasks dependencies).get? k := by
  have hkeys' : (tasks'.map CpmTaskRow.key).Nodup :=
    (hrows.map CpmTaskRow.key).nodup_iff.mpr hkeys
  have hleaf : ∀ a, (a ∈ leafKeys tasks') = (a ∈ leafKeys tasks) :=
    fun a => propext ((leaves_perm hrows).map CpmTaskRow.key).mem_iff
  have hedge : LeafEdge tasks' dependencies' = LeafEdge tasks dependencies := by
    funext a b
    refine propext ?_
    rw [LeafEdge, LeafEdge, hleaf a, hleaf b]
    refine and_congr_right (fun ha => and_congr_right (fun hb => and_congr_right (fun hne => ?_)))
    constructor
    · rintro ⟨e, he, rfl, rfl⟩
      exact ⟨e, (hedges e hb ha hne.symm).mp he, rfl, rfl⟩
    · rintro ⟨e, he, rfl, rfl⟩
      exact ⟨e, (hedges e hb ha hne.symm).mpr he, rfl, rfl⟩
  have hpath : LeafPath tasks' dependencies' = LeafPath tasks dependencies := by
    rw [LeafPath, LeafPath, hedge]
    congr 1
    funext a
    exact hleaf a
  have hto : PathTo tasks' dependencies' k = PathTo tasks dependencies k := by
    funext p
    rw [PathTo, PathTo, hpath]
  refine Option.ext (fun flag => ?_)
  rw [get?_iff hkeys', get?_iff hkeys, Acyclic, Acyclic, NearlyLongest, NearlyLongest,
    hleaf k, hedge, hpath, hto, dur_perm hkeys hrows]

end

end Flags

/-! ## A launch plan -/

/-- A summary row over two leaves in a row, and a third beside them. -/
def launchRows : List CpmTaskRow :=
  [⟨"launch", none, 0, 90⟩, ⟨"draft", some "launch", 0, 50⟩, ⟨"review", some "launch", 50, 90⟩,
    ⟨"banner", some "launch", 0, 30⟩]

def launchEdges : List CpmEdge := [⟨"review", "draft"⟩, ⟨"review", "launch"⟩]

/-- The same edge twice, and one of a leaf on itself. -/
def noisyEdges : List CpmEdge :=
  [⟨"review", "draft"⟩, ⟨"banner", "banner"⟩, ⟨"review", "draft"⟩]

/-- `a` comes before `b`, a leaf before itself too where an edge says so. -/
def Precedes (tasks : List CpmTaskRow) (dependencies : List CpmEdge) (a b : String) : Prop :=
  a ∈ leafKeys tasks ∧ b ∈ leafKeys tasks ∧ ⟨b, a⟩ ∈ dependencies

end WfCriticalPath
