import Mathlib.Data.Prod.Lex
import Cinatra.Extensions.PlanAccepts

/-! # PlanOrder — plans are placed from the outside in

    That the directories around a node are nodes themselves is nowhere checked: it comes
    from reachability, since an edge leads at most one package below the directories its
    parent lies in (`Enclosed.step`).  The order of execution counts `/node_modules/` in
    the text, which is not the number of packages where one is itself named so, but still
    grows from a directory to what lies in it (`nesting_lt`). -/

namespace ExtMatPlan

open JsonValue
open CodeUnits

/-- `outer` is the directory of a package, and the path lies in it. -/
def LiesIn (placementPath outer : String) : Prop :=
  (∃ chain, parsePlacementPath outer "outer" = .ok chain) ∧
    ∃ rest, placementPath.toList = outer.toList ++ '/' :: rest

/-- The path leads down: no segment is empty, `.` or `..`. -/
def Inside (placementPath : String) : Prop :=
  ∀ s ∈ Split.split '/' placementPath.toList, s ∉ [[], ['.'], ['.', '.']]

theorem chainPath_inside {c : List (List Char)} (hne : c ≠ []) (hc : ValidChain c) :
    Inside (chainPath c) := by
  intro s hs
  rw [split_chainPath hne] at hs
  obtain ⟨n, hn, hs⟩ := List.mem_flatMap.mp hs
  rcases List.mem_cons.mp hs with rfl | hs
  · decide
  · exact npmPackageName_inside (hc n hn) s hs

theorem prefix_of_segments {c : List (List Char)} : ∀ {d rest : List (List Char)}, ValidChain c →
    ValidChain d → chainSegments d = chainSegments c ++ rest → c <+: d := by
  induction c with
  | nil => exact fun _ _ _ => List.nil_prefix
  | cons n c ih =>
    intro d rest hc hd heq
    cases d with
    | nil => cases heq
    | cons m d =>
      obtain ⟨hn, hcs⟩ := List.forall_mem_cons.mp hc
      obtain ⟨hm, hds⟩ := List.forall_mem_cons.mp hd
      have htail := (List.cons.inj heq).2
      have hfirst : Split.split '/' m = Split.split '/' n ∧
          chainSegments d = chainSegments c ++ rest := by
        rcases npmPackageName_segments hn with ⟨hns, hnat⟩ | ⟨s, t, _, hnat, hns⟩
        · rcases npmPackageName_segments hm with ⟨hms, _⟩ | ⟨s, t, _, hmat, hms⟩
          · rw [hns, hms] at htail ⊢
            obtain ⟨hone, htail⟩ := List.cons.inj htail
            exact ⟨by rw [hone], htail⟩
          · rw [hns, hms] at htail
            exact absurd ((List.cons.inj htail).1 ▸ hmat) hnat
        · rcases npmPackageName_segments hm with ⟨hms, hmat⟩ | ⟨s', t', _, _, hms⟩
          · rw [hns, hms] at htail
            exact absurd ((List.cons.inj htail).1 ▸ hnat) hmat
          · rw [hns, hms] at htail ⊢
            obtain ⟨hone, htail⟩ := List.cons.inj htail
            obtain ⟨htwo, htail⟩ := List.cons.inj htail
            exact ⟨by rw [hone, htwo], htail⟩
      obtain rfl := Split.split_injective hfirst.1
      exact (List.prefix_cons_inj m).mpr (ih hcs hds hfirst.2)

/-- **What a path lies in** is the path of a shorter chain. -/
theorem liesIn_chain {d : List (List Char)} (hne : d ≠ []) (hd : ValidChain d) {outer : String}
    (h : LiesIn (chainPath d) outer) : ∃ c, c ≠ [] ∧ c <+: d ∧ c ≠ d ∧ outer = chainPath c := by
  obtain ⟨⟨c, hparse⟩, rest, hrest⟩ := h
  obtain ⟨hcne, hc, rfl⟩ := parsePlacementPath_ok.mp hparse
  have hsegs := split_chainPath hne
  rw [hrest, Split.split_append, split_chainPath hcne] at hsegs
  refine ⟨c, hcne, prefix_of_segments hc hd hsegs.symm, ?_, rfl⟩
  rintro rfl
  have hlen := congrArg List.length hrest
  rw [List.length_append, List.length_cons] at hlen
  omega

theorem chainPath_append {c d : List (List Char)} (hc : c ≠ []) (hd : d ≠ []) :
    ∃ rest, (chainPath (c ++ d)).toList = (chainPath c).toList ++ separator ++ rest := by
  obtain ⟨n, d, rfl⟩ := List.exists_cons_of_ne_nil hd
  refine ⟨Split.join '/' (Split.split '/' n ++ chainSegments d), ?_⟩
  rw [chainPath, chainPath, String.toList_ofList, String.toList_ofList, chainSegments_append,
    Split.join_append (chainSegments_ne_nil hc) (chainSegments_ne_nil (List.cons_ne_nil n d)),
    chainSegments_cons, Split.join_cons (List.append_ne_nil_of_left_ne_nil
      (Split.split_ne_nil '/' n) _), List.append_assoc]
  rfl

/-- **What lies in a directory is nested deeper.** -/
theorem nesting_lt {c d : List (List Char)} (hc : c ≠ []) (hpre : c <+: d) (hne : c ≠ d) :
    nesting (chainPath c) < nesting (chainPath d) := by
  obtain ⟨e, rfl⟩ := hpre
  have he : e ≠ [] := fun h => hne (by rw [h, List.append_nil])
  obtain ⟨rest, hrest⟩ := chainPath_append hc he
  rw [nesting, nesting, hrest]
  exact Nat.succ_lt_succ (Split.occurrences_lt (by decide) rest _ 0 (Nat.zero_le _))

variable {plan : MaterializationPlan}

/-- The chain of a path, each beginning of which is a node. -/
def Enclosed (plan : MaterializationPlan) (path : String) (chain : List (List Char)) : Prop :=
  chain ≠ [] ∧ ValidChain chain ∧ path = chainPath chain ∧ ∀ outer, outer ≠ [] → outer <+: chain →
      ∃ m ∈ plan.nodes, m.placementPath = chainPath outer

/-- An edge adds one package to a beginning of its parent's chain. -/
theorem Enclosed.step {outer : List (List Char)} {ref : MaterializationPlanDependencyRef}
    (houter : outer ≠ [] → ∃ path chain, Enclosed plan path chain ∧ outer <+: chain)
    (hends : EndsIn ref.placementPath ref.name)
    (hpath : ref.placementPath = chainPath (outer ++ [ref.name.toList]))
    (htarget : ∃ m ∈ plan.nodes, m.placementPath = ref.placementPath ∧ m.name = ref.name) :
    Enclosed plan ref.placementPath (outer ++ [ref.name.toList]) := by
  have hvalid : ValidChain (outer ++ [ref.name.toList]) := by
    intro n hn
    rcases List.mem_append.mp hn with hn | hn
    · obtain ⟨_, chain, ⟨_, hchain, _⟩, hpre⟩ := houter (List.ne_nil_of_mem hn)
      exact hchain n (hpre.subset hn)
    · obtain ⟨before, hbefore, _⟩ := hends
      exact hbefore n (List.mem_append_right _ hn)
  refine ⟨by simp, hvalid, hpath, fun inner hne hpre => ?_⟩
  rcases List.prefix_concat_iff.mp hpre with rfl | hpre
  · obtain ⟨m, hm, hmpath, _⟩ := htarget
    exact ⟨m, hm, hmpath.trans hpath⟩
  have hone : outer ≠ [] := by
    rintro rfl
    exact hne (List.prefix_nil.mp hpre)
  obtain ⟨_, chain, ⟨_, _, _, hnodes⟩, hlonger⟩ := houter hone
  exact hnodes inner hne (hpre.trans hlonger)

/-- **What the roots reach is enclosed by nodes.** -/
theorem ValidPlan.enclosed (h : ValidPlan plan) {path : String}
    (hreached : Worklist.Reached (nextPaths plan.nodes)
      (plan.rootDependencies.map MaterializationPlanDependencyRef.placementPath) path) :
    ∃ chain, Enclosed plan path chain := by
  obtain ⟨r, hr, hpath⟩ := hreached
  induction hpath with
  | refl =>
    obtain ⟨ref, href, rfl⟩ := List.mem_map.mp hr
    obtain ⟨htarget, hcandidate⟩ := h.rootEdges ref href
    exact ⟨[] ++ [ref.name.toList], Enclosed.step (fun hne => absurd rfl hne)
      (h.roots.endsIn ref href) (mem_candidates_root.mp hcandidate) htarget⟩
  | @tail p q _ hq ih =>
    obtain ⟨chain, hchain⟩ := ih
    obtain ⟨n, hn, rfl⟩ := List.mem_map.mp (nextPaths_ne_nil (List.ne_nil_of_mem hq))
    rw [nextPaths_of_mem h.paths hn] at hq
    obtain ⟨ref, href, rfl⟩ := List.mem_map.mp hq
    obtain ⟨htarget, hcandidate⟩ := h.edges n hn ref href
    obtain ⟨hne, hvalid, hpath, _⟩ := id hchain
    rw [hpath] at hcandidate
    obtain ⟨outer, houter, hat⟩ := (mem_candidates_iff hne hvalid).mp hcandidate
    exact ⟨_, Enclosed.step (fun _ => ⟨_, chain, hchain, houter⟩)
      ((h.nodes n hn).dependencies.endsIn ref href) hat htarget⟩

/-! ## The order -/

theorem executesBefore_iff {a b : MaterializationPlanNode} : executesBefore a b ↔
    toLex (nesting a.placementPath, units a.placementPath) ≤
      toLex (nesting b.placementPath, units b.placementPath) := by
  rw [executesBefore, Prod.Lex.le_iff]
  rfl

theorem planExecutionOrder_perm (plan : MaterializationPlan) :
    (planExecutionOrder plan).Perm plan.nodes := List.perm_insertionSort _ _

theorem planExecutionOrder_sorted (plan : MaterializationPlan) :
    (planExecutionOrder plan).Pairwise executesBefore := by
  have : Std.Total executesBefore := ⟨fun a b => by
    rw [executesBefore_iff, executesBefore_iff]
    exact le_total _ _⟩
  have : IsTrans MaterializationPlanNode executesBefore := ⟨fun a b c hab hbc => by
    rw [executesBefore_iff] at *
    exact hab.trans hbc⟩
  exact List.pairwise_insertionSort executesBefore plan.nodes

theorem pair_sublist {α : Type} {R : α → α → Prop} {l : List α} (hsorted : l.Pairwise R) {a b : α}
    (ha : a ∈ l) (hb : b ∈ l) (hne : a ≠ b) (hnot : ¬ R b a) : [a, b].Sublist l := by
  induction hsorted with
  | nil => cases ha
  | @cons c l hc _ ih =>
    rcases List.mem_cons.mp ha with rfl | hain
    · have hb := (List.mem_cons.mp hb).resolve_left hne.symm
      exact (List.singleton_sublist.mpr hb).cons_cons a
    · rcases List.mem_cons.mp hb with rfl | hb
      · exact absurd (hc a hain) hnot
      · exact (ih hain hb).cons c

/-- **Plans are placed inside the package, from the outside in**: every directory that a
    node lies in is the directory of a node that is executed before, and the order does
    not depend on the order of transport. -/
theorem plan_placed {value : Json} (h : parseMaterializationPlan value = .ok plan) :
    (∀ n ∈ plan.nodes, Inside n.placementPath) ∧
      (∀ n ∈ plan.nodes, ∀ outer, LiesIn n.placementPath outer →
        ∃ m ∈ plan.nodes, m.placementPath = outer ∧ [m, n].Sublist (planExecutionOrder plan)) ∧
      (planExecutionOrder plan).Perm plan.nodes ∧
      ∀ nodes, nodes.Perm plan.nodes →
        planExecutionOrder { plan with nodes := nodes } = planExecutionOrder plan := by
  have hvalid := (parseMaterializationPlan_ok.mp h).2
  refine ⟨fun n hn => ?_, fun n hn outer houter => ?_, planExecutionOrder_perm plan,
    fun nodes hperm => ?_⟩
  · obtain ⟨chain, hne, hchain, hpath, _⟩ := hvalid.enclosed (hvalid.reached n hn)
    exact hpath ▸ chainPath_inside hne hchain
  · obtain ⟨chain, hne, hchain, hpath, hnodes⟩ := hvalid.enclosed (hvalid.reached n hn)
    rw [hpath] at houter
    obtain ⟨c, hcne, hpre, hshort, rfl⟩ := liesIn_chain hne hchain houter
    obtain ⟨m, hm, hmpath⟩ := hnodes c hcne hpre
    have hlt : nesting m.placementPath < nesting n.placementPath := by
      rw [hmpath, hpath]
      exact nesting_lt hcne hpre hshort
    refine ⟨m, hm, hmpath, pair_sublist (planExecutionOrder_sorted plan)
      ((planExecutionOrder_perm plan).mem_iff.mpr hm)
      ((planExecutionOrder_perm plan).mem_iff.mpr hn) ?_ ?_⟩
    · rintro rfl
      exact Nat.lt_irrefl _ hlt
    · rintro (hback | ⟨hback, _⟩)
      · exact Nat.lt_asymm hlt hback
      · exact Nat.ne_of_gt hlt hback
  · have hsame := (planExecutionOrder_perm { plan with nodes := nodes }).trans
      (hperm.trans (planExecutionOrder_perm plan).symm)
    refine List.Perm.eq_of_pairwise ?_ (planExecutionOrder_sorted _) (planExecutionOrder_sorted _) hsame
    intro a b ha hb hab hba
    rw [executesBefore_iff] at hab hba
    have hunits := (Prod.ext_iff.mp (toLex.injective (le_antisymm hab hba))).2
    exact List.inj_on_of_nodup_map hvalid.paths
      ((planExecutionOrder_perm plan).mem_iff.mp (hsame.mem_iff.mp ha))
      ((planExecutionOrder_perm plan).mem_iff.mp hb) (CodeUnits.units_injective hunits)

theorem nestedPlan_placed : ∃ m ∈ nestedPlan.nodes, m.placementPath = "node_modules/a" ∧
    [m, innerNode].Sublist (planExecutionOrder nestedPlan) := by
  have hlies : LiesIn innerNode.placementPath "node_modules/a" :=
    ⟨⟨[['a']], by decide +kernel⟩, "node_modules/b".toList, by decide +kernel⟩
  exact (plan_placed nestedPlan_ok).2.1 innerNode (.head _) _ hlies

end ExtMatPlan
