import Cinatra.Lib.DepthFirst
import Mathlib.Data.Set.Finite.List

/-! # TopoSort — Kahn's algorithm

    Nodes without unplaced predecessors wait in `ready`; placing one lowers the count of
    its successors, and a successor whose count falls to zero joins the others.  Two
    things are proved of the loop: it places a node after its predecessors
    (`run_finished`), and it places every node if and only if the graph has no cycle
    (`run_complete_iff`). -/

namespace TopoSort

variable {α : Type} [DecidableEq α]

/-- The loop's variables: the nodes to place next, the counts, and the order so far. -/
structure State (α : Type) where
  ready : List α
  indegree : α → Int
  topo : List α

/-- One predecessor of `s` is placed. -/
def lower (st : State α) (s : α) : State α :=
  let n := st.indegree s - 1
  { st with
    indegree := fun j => if j = s then n else st.indegree j
    ready := if n = 0 then st.ready ++ [s] else st.ready }

/-- Place `k`, which stood before `rest`. -/
def place (sort : List α → List α) (succs : α → List α) (st : State α) (k : α)
    (rest : List α) : State α :=
  let lowered := (sort (succs k)).foldl lower { st with
    ready := rest
    topo := st.topo ++ [k] }
  { lowered with ready := sort lowered.ready }

/-- Place what is ready, at most `fuel` nodes. -/
def loop (sort : List α → List α) (succs : α → List α) : Nat → State α → State α
  | 0, st => st
  | fuel + 1, st =>
    match st.ready with
    | [] => st
    | k :: rest => loop sort succs fuel (place sort succs st k rest)

def start (sort : List α → List α) (nodes : List α) (preds : α → List α) : State α where
  ready := sort (nodes.filter (fun k => (preds k).length = 0))
  indegree := fun k => (preds k).length
  topo := []

/-- The order Kahn's algorithm places the nodes in. -/
def run (sort : List α → List α) (nodes : List α) (preds succs : α → List α) : List α :=
  (loop sort succs nodes.length (start sort nodes preds)).topo

/-! ## Graphs -/

/-- Nodes, each once, with lists of predecessors and successors that have the same edges. -/
structure Graph (sort : List α → List α) (nodes : List α) (preds succs : α → List α) : Prop where
  nodup : nodes.Nodup
  preds_mem : ∀ k, ∀ p ∈ preds k, p ∈ nodes
  succs_mem : ∀ k, ∀ s ∈ succs k, s ∈ nodes
  count_eq : ∀ k s, (succs k).count s = (preds s).count k
  perm : ∀ l, (sort l).Perm l

/-- What holds each time round the loop. -/
structure Invariant (nodes : List α) (preds : α → List α) (st : State α) : Prop where
  nodup : (st.topo ++ st.ready).Nodup
  mem : ∀ k ∈ st.topo ++ st.ready, k ∈ nodes
  indegree : ∀ k, k ∈ nodes → st.indegree k = ((preds k).countP (fun p => p ∉ st.topo) : Nat)
  ready : ∀ k, k ∈ nodes → k ∉ st.topo → (k ∈ st.ready ↔ st.indegree k = 0)
  finished : DepthFirst.Finished preds st.topo.reverse

section Lower

variable {st : State α} {l : List α}

/-- Lowering a list of nodes lowers each by the number of times it is in the list. -/
theorem foldl_lower_indegree (l : List α) (st : State α) (j : α) :
    (l.foldl lower st).indegree j = st.indegree j - (l.count j : Nat) := by
  induction l generalizing st with
  | nil => simp
  | cons s l ih =>
    rw [List.foldl_cons, ih, List.count_cons]
    simp only [lower]
    by_cases hj : j = s
    · subst hj
      simp only [if_true, BEq.rfl]
      push_cast
      omega
    · have hs : (s == j) = false := by simpa using Ne.symm hj
      simp only [if_neg hj, hs, Bool.false_eq_true, if_false]
      push_cast
      omega

theorem foldl_lower_topo (l : List α) (st : State α) : (l.foldl lower st).topo = st.topo := by
  induction l generalizing st with
  | nil => rfl
  | cons s l ih => rw [List.foldl_cons, ih]; rfl

/-- **A node joins when its last predecessor is placed**, once. -/
theorem foldl_lower_ready (l : List α) (st : State α)
    (hle : ∀ j, (l.count j : Int) ≤ st.indegree j ∨ j ∉ l) :
    ∃ joined, (l.foldl lower st).ready = st.ready ++ joined ∧ joined.Nodup ∧
      ∀ j, j ∈ joined ↔ j ∈ l ∧ st.indegree j = (l.count j : Nat) := by
  induction l generalizing st with
  | nil =>
    refine ⟨[], by simp, List.nodup_nil, ?_⟩
    intro j
    simp
  | cons s l ih =>
    have hrest : ∀ j, (l.count j : Int) ≤ (lower st s).indegree j ∨ j ∉ l := by
      intro j
      rcases hle j with hj | hj
      · refine .inl ?_
        rw [List.count_cons] at hj
        simp only [lower]
        by_cases hjs : j = s
        · subst hjs
          simp only [if_true, BEq.rfl] at hj ⊢
          push_cast at hj
          omega
        · rw [if_neg hjs]
          have hs : (s == j) = false := by simpa using Ne.symm hjs
          simp only [hs, Bool.false_eq_true, if_false] at hj
          exact_mod_cast hj
      · exact .inr (fun hin => hj (.tail _ hin))
    obtain ⟨joined, hready, hnd, hmem⟩ := ih (lower st s) hrest
    have hcount : ∀ j, j ≠ s → (s :: l).count j = l.count j := by
      intro j hj
      rw [List.count_cons_of_ne (Ne.symm hj)]
    by_cases hzero : st.indegree s - 1 = 0
    · refine ⟨s :: joined, ?_, ?_, ?_⟩
      · rw [List.foldl_cons, hready]
        simp [lower, hzero]
      · refine List.nodup_cons.mpr ⟨?_, hnd⟩
        intro hin
        obtain ⟨hl, hcnt⟩ := (hmem s).mp hin
        have hpos := List.count_pos_iff.mpr hl
        simp only [lower, if_true] at hcnt
        omega
      · intro j
        by_cases hj : j = s
        · subst hj
          have hzeroCount : l.count j = 0 := by
            rcases hle j with h | h
            · rw [List.count_cons_self] at h
              push_cast at h
              omega
            · exact absurd (List.mem_cons_self ..) h
          simp only [List.mem_cons, true_or, true_and, List.count_cons_self, hzeroCount, true_iff]
          push_cast
          omega
        · have hiff := hmem j
          simp only [lower, if_neg hj] at hiff
          rw [List.mem_cons, List.mem_cons, hcount j hj]
          simp only [hj, false_or]
          exact hiff
    · refine ⟨joined, ?_, hnd, ?_⟩
      · rw [List.foldl_cons, hready]
        simp [lower, hzero]
      · intro j
        by_cases hj : j = s
        · subst hj
          have hiff := hmem j
          simp only [lower, if_true] at hiff
          rw [hiff, List.count_cons_self]
          constructor
          · rintro ⟨hl, hcnt⟩
            exact ⟨List.mem_cons_self .., by push_cast; omega⟩
          · rintro ⟨-, hcnt⟩
            push_cast at hcnt
            refine ⟨List.count_pos_iff.mp ?_, by omega⟩
            by_contra hno
            omega
        · have hiff := hmem j
          simp only [lower, if_neg hj] at hiff
          rw [List.mem_cons, hcount j hj]
          simp only [hj, false_or]
          exact hiff

end Lower

variable {k : α}

theorem countP_append_singleton {l topo : List α} (hk : k ∉ topo) :
    l.countP (fun p => p ∉ topo ++ [k]) + l.count k = l.countP (fun p => p ∉ topo) := by
  induction l with
  | nil => rfl
  | cons p l ih =>
    by_cases hpk : p = k
    · simp_all
      omega
    · simp_all [List.countP_cons]
      omega

omit [DecidableEq α] in
theorem finished_mem {next : α → List α} {l : List α} (h : DepthFirst.Finished next l) :
    ∀ a ∈ l, ∀ b ∈ next a, b ∈ l := by
  induction l with
  | nil => exact fun a ha => absurd ha List.not_mem_nil
  | cons x l ih =>
    obtain ⟨hx, hl⟩ := h
    intro a ha b hb
    rcases List.mem_cons.mp ha with rfl | ha
    · exact .tail _ (hx b hb)
    · exact .tail _ (ih hl a ha b hb)

/-- The edge of a graph from a node to a successor. -/
def Edge (preds : α → List α) (a b : α) : Prop := a ∈ preds b

omit [DecidableEq α] in
theorem exists_cycle {nodes : List α} {preds : α → List α} {left : α → Prop} (hleft : ∃ k ∈ nodes, left k)
    (hpred : ∀ k ∈ nodes, left k → ∃ p ∈ nodes, left p ∧ Edge preds p k) :
    ∃ a, Relation.TransGen (Edge preds) a a := by
  by_contra hno
  push Not at hno
  let r : {k // k ∈ nodes} → {k // k ∈ nodes} → Prop :=
    fun a b => Relation.TransGen (Edge preds) a.1 b.1
  have : IsTrans {k // k ∈ nodes} r := ⟨fun _ _ _ h h' => h.trans h'⟩
  have : Std.Irrefl r := ⟨fun a => hno a.1⟩
  have : Finite {k // k ∈ nodes} := List.finite_toSet nodes
  have hwf : WellFounded r := Finite.wellFounded_of_trans_of_irrefl r
  obtain ⟨k, hk, hleftk⟩ := hleft
  obtain ⟨m, hm, hmin⟩ := hwf.has_min {k | left k.1} ⟨⟨k, hk⟩, hleftk⟩
  obtain ⟨p, hp, hlp, hedge⟩ := hpred m.1 m.2 hm
  exact hmin ⟨p, hp⟩ hlp (.single hedge)

section Loop

variable {sort : List α → List α} {nodes : List α} {preds succs : α → List α} {st : State α}

theorem start_invariant (hg : Graph sort nodes preds succs) :
    Invariant nodes preds (start sort nodes preds) := by
  have hperm := hg.perm (nodes.filter (fun k => (preds k).length = 0))
  refine ⟨?_, ?_, ?_, ?_, trivial⟩
  · exact hperm.nodup_iff.mpr (hg.nodup.filter _)
  · intro k hk
    exact (List.mem_filter.mp (hperm.mem_iff.mp hk)).1
  · intro k _
    have hall : (preds k).countP (fun p => p ∉ ([] : List α)) = (preds k).length := by
      rw [List.countP_eq_length]
      intro p _
      simp
    show ((preds k).length : Int) = _
    exact_mod_cast hall.symm
  · intro k hk _
    show k ∈ sort (nodes.filter (fun k => (preds k).length = 0)) ↔ ((preds k).length : Int) = 0
    rw [hperm.mem_iff, List.mem_filter]
    simp [hk]

/-- **The step lemma**: placing the first ready node keeps the invariant. -/
theorem place_invariant (hg : Graph sort nodes preds succs) (hi : Invariant nodes preds st)
    {rest : List α} (hready : st.ready = k :: rest) :
    Invariant nodes preds (place sort succs st k rest) := by
  have hnd := hi.nodup
  rw [hready] at hnd
  obtain ⟨hndTopo, hndReady, hdisj⟩ := List.nodup_append.mp hnd
  obtain ⟨hkRest, hndRest⟩ := List.nodup_cons.mp hndReady
  have hkTopo : k ∉ st.topo := fun h => hdisj k h k (List.mem_cons_self ..) rfl
  have hrestTopo : ∀ j ∈ rest, j ∉ st.topo :=
    fun j hj h => hdisj j h j (.tail _ hj) rfl
  have hkNodes : k ∈ nodes :=
    hi.mem k (List.mem_append_right _ (by rw [hready]; exact .head _ ..))
  -- every predecessor of `k` is placed
  have hpreds : ∀ p ∈ preds k, p ∈ st.topo := by
    have hzero := (hi.ready k hkNodes hkTopo).mp (by rw [hready]; exact .head _ ..)
    rw [hi.indegree k hkNodes] at hzero
    intro p hp
    have hcount := List.countP_eq_zero.mp (Int.ofNat_eq_zero.mp hzero) p hp
    simpa using hcount
  have hlist := hg.perm (succs k)
  have hcount : ∀ j, (sort (succs k)).count j = (preds j).count k :=
    fun j => (hlist.count_eq j).trans (hg.count_eq k j)
  have hsplit : ∀ j, (preds j).countP (fun p => p ∉ st.topo ++ [k]) + (preds j).count k =
      (preds j).countP (fun p => p ∉ st.topo) := fun j => countP_append_singleton hkTopo
  -- a successor of `k` is a node that waits for `k`
  have hsucc : ∀ j ∈ sort (succs k), j ∈ nodes ∧ k ∈ preds j := by
    intro j hj
    refine ⟨hg.succs_mem k j (hlist.mem_iff.mp hj), ?_⟩
    rw [← List.count_pos_iff, ← hcount j]
    exact List.count_pos_iff.mpr hj
  obtain ⟨joined, hjoin, hndJoined, hmemJoined⟩ := foldl_lower_ready (sort (succs k))
    { st with ready := rest, topo := st.topo ++ [k] } (by
      intro j
      by_cases hj : j ∈ sort (succs k)
      · refine .inl ?_
        show ((sort (succs k)).count j : Int) ≤ st.indegree j
        rw [hi.indegree j (hsucc j hj).1, hcount j, ← hsplit j]
        push_cast
        omega
      · exact .inr hj)
  have hnewReady : (place sort succs st k rest).ready = sort (rest ++ joined) := by
    rw [place]
    dsimp only
    rw [hjoin]
  have hnewTopo : (place sort succs st k rest).topo = st.topo ++ [k] := by
    rw [place]
    dsimp only
    rw [foldl_lower_topo]
  have hnewIndegree : ∀ j, (place sort succs st k rest).indegree j =
      st.indegree j - ((preds j).count k : Nat) := by
    intro j
    rw [place]
    dsimp only
    rw [foldl_lower_indegree, hcount]
  have hperm := hg.perm (rest ++ joined)
  have hjoinedOut : ∀ j ∈ joined, j ∈ nodes ∧ j ∉ st.topo ∧ j ≠ k ∧ j ∉ rest := by
    intro j hj
    obtain ⟨hl, hcnt⟩ := (hmemJoined j).mp hj
    obtain ⟨hjn, hkj⟩ := hsucc j hl
    have hjTopo : j ∉ st.topo := by
      intro hin
      have hk' := finished_mem hi.finished j (List.mem_reverse.mpr hin) k hkj
      exact hkTopo (List.mem_reverse.mp hk')
    refine ⟨hjn, hjTopo, ?_, ?_⟩
    · rintro rfl
      exact hkTopo (hpreds _ hkj)
    · intro hin
      have hzero := (hi.ready j hjn hjTopo).mp (by rw [hready]; exact .tail _ hin)
      have hpos := List.count_pos_iff.mpr hl
      have hcnt' : st.indegree j = ((sort (succs k)).count j : Nat) := hcnt
      omega
  refine ⟨?_, ?_, ?_, ?_, ?_⟩
  · rw [hnewTopo, hnewReady]
    refine ((hperm.append_left _).nodup_iff).mpr ?_
    rw [List.nodup_append]
    refine ⟨?_, ?_, ?_⟩
    · exact List.concat_eq_append ▸ hndTopo.concat hkTopo
    · exact List.nodup_append.mpr ⟨hndRest, hndJoined,
        fun a ha b hb => by rintro rfl; exact (hjoinedOut a hb).2.2.2 ha⟩
    · intro a ha b hb
      rintro rfl
      rcases List.mem_append.mp ha with ha | ha <;> rcases List.mem_append.mp hb with hb | hb
      · exact hrestTopo a hb ha
      · exact (hjoinedOut a hb).2.1 ha
      · rw [List.mem_singleton.mp ha] at hb
        exact hkRest hb
      · exact (hjoinedOut a hb).2.2.1 (List.mem_singleton.mp ha)
  · rw [hnewTopo, hnewReady]
    intro j hj
    rcases List.mem_append.mp hj with hj | hj
    · rcases List.mem_append.mp hj with hj | hj
      · exact hi.mem j (List.mem_append_left _ hj)
      · rw [List.mem_singleton.mp hj]
        exact hkNodes
    · rcases List.mem_append.mp (hperm.mem_iff.mp hj) with hj | hj
      · exact hi.mem j (List.mem_append_right _ (by rw [hready]; exact .tail _ hj))
      · exact (hjoinedOut j hj).1
  · intro j hj
    rw [hnewIndegree, hnewTopo, hi.indegree j hj, ← hsplit j]
    push_cast
    omega
  · intro j hj hjt
    rw [hnewTopo, List.mem_append, List.mem_singleton, not_or] at hjt
    obtain ⟨hjTopo, hjk⟩ := hjt
    have hold := hi.ready j hj hjTopo
    rw [hready, List.mem_cons] at hold
    simp only [hjk, false_or] at hold
    have hle := hsplit j
    have hind := hi.indegree j hj
    rw [hnewReady, hnewIndegree, hperm.mem_iff, List.mem_append, hold, hmemJoined]
    show st.indegree j = 0 ∨ j ∈ sort (succs k) ∧ st.indegree j = ((sort (succs k)).count j : Nat) ↔ _
    rw [hcount]
    constructor
    · rintro (hz | ⟨-, hz⟩)
      · omega
      · omega
    · intro hz
      by_cases hzero : st.indegree j = 0
      · exact .inl hzero
      · refine .inr ⟨?_, by omega⟩
        rw [← List.count_pos_iff, hcount j]
        omega
  · rw [hnewTopo, List.reverse_append]
    exact ⟨fun p hp => List.mem_reverse.mpr (hpreds p hp), hi.finished⟩

/-! ## The whole loop -/

theorem Invariant.length_le (hi : Invariant nodes preds st) :
    st.topo.length + st.ready.length ≤ nodes.length := by
  have hle := (List.subperm_of_subset hi.nodup hi.mem).length_le
  rwa [List.length_append] at hle

/-- **The run lemma**: with fuel for the nodes still to place, the loop ends with nothing
    ready. -/
theorem loop_spec (hg : Graph sort nodes preds succs) (fuel : Nat) :
    ∀ st : State α, Invariant nodes preds st → nodes.length ≤ fuel + st.topo.length →
      Invariant nodes preds (loop sort succs fuel st) ∧ (loop sort succs fuel st).ready = [] := by
  induction fuel with
  | zero =>
    intro st hi hfuel
    have hle := hi.length_le
    rw [loop]
    exact ⟨hi, List.length_eq_zero_iff.mp (by omega)⟩
  | succ fuel ih =>
    intro st hi hfuel
    cases hready : st.ready with
    | nil =>
      have hstop : loop sort succs (fuel + 1) st = st := by rw [loop, hready]
      rw [hstop]
      exact ⟨hi, hready⟩
    | cons k rest =>
      have hstep : loop sort succs (fuel + 1) st =
          loop sort succs fuel (place sort succs st k rest) := by rw [loop, hready]
      rw [hstep]
      refine ih _ (place_invariant hg hi hready) ?_
      have htopo : (place sort succs st k rest).topo = st.topo ++ [k] := by
        rw [place]
        dsimp only
        rw [foldl_lower_topo]
      rw [htopo, List.length_append, List.length_singleton]
      omega

variable (hg : Graph sort nodes preds succs)

include hg

theorem run_spec : ∃ st, Invariant nodes preds st ∧ st.ready = [] ∧
    st.topo = run sort nodes preds succs := by
  obtain ⟨hi, hready⟩ := loop_spec hg nodes.length (start sort nodes preds)
    (start_invariant hg) (Nat.le_add_right _ _)
  exact ⟨_, hi, hready, rfl⟩

theorem run_nodup : (run sort nodes preds succs).Nodup := by
  obtain ⟨st, hi, -, htopo⟩ := run_spec hg
  rw [← htopo]
  exact (List.nodup_append.mp hi.nodup).1

theorem run_mem (hk : k ∈ run sort nodes preds succs) : k ∈ nodes := by
  obtain ⟨st, hi, -, htopo⟩ := run_spec hg
  rw [← htopo] at hk
  exact hi.mem k (List.mem_append_left _ hk)

theorem run_finished : DepthFirst.Finished preds (run sort nodes preds succs).reverse := by
  obtain ⟨st, hi, -, htopo⟩ := run_spec hg
  rw [← htopo]
  exact hi.finished

theorem run_length_iff : (run sort nodes preds succs).length = nodes.length ↔
    ∀ k ∈ nodes, k ∈ run sort nodes preds succs := by
  have hsub := List.subperm_of_subset (run_nodup hg) (fun k hk => run_mem hg hk)
  constructor
  · intro hlen k hk
    exact (hsub.perm_of_length_le hlen.ge).mem_iff.mpr hk
  · intro hall
    have hle := (List.subperm_of_subset hg.nodup hall).length_le
    have hge := hsub.length_le
    omega

/-- **Kahn's loop finds a cycle or an order**: it places every node if and only if no
    node comes before itself. -/
theorem run_complete_iff : (run sort nodes preds succs).length = nodes.length ↔
    ∀ a, ¬ Relation.TransGen (Edge preds) a a := by
  rw [run_length_iff hg]
  constructor
  · intro hall a ha
    have hwf : WellFounded (Edge preds) := by
      refine (run_finished hg).wellFounded ?_
      intro b hb
      obtain ⟨p, hp⟩ := List.exists_mem_of_ne_nil _ hb
      have hcount := hg.count_eq p b
      have hsucc : b ∈ succs p := by
        rw [← List.count_pos_iff, hcount]
        exact List.count_pos_iff.mpr hp
      exact List.mem_reverse.mpr (hall b (hg.succs_mem p b hsucc))
    exact hwf.transGen.asymmetric a a ha ha
  · intro hacyclic k hk
    obtain ⟨st, hi, hready, htopo⟩ := run_spec hg
    rw [← htopo]
    by_contra hkt
    obtain ⟨a, ha⟩ := exists_cycle ⟨k, hk, hkt⟩ (by
      intro j hj hjt
      have hne : st.indegree j ≠ 0 := by
        intro hz
        have hin := (hi.ready j hj hjt).mpr hz
        rw [hready] at hin
        cases hin
      rw [hi.indegree j hj] at hne
      have hpos : 0 < (preds j).countP (fun p => p ∉ st.topo) := by omega
      obtain ⟨p, hp, hpt⟩ := List.countP_pos_iff.mp hpos
      exact ⟨p, hg.preds_mem j p hp, by simpa using hpt, hp⟩)
    exact hacyclic a ha

end Loop

end TopoSort
