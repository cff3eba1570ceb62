import Cinatra.Lib.DepthFirst
import Cinatra.Workflows.Validate

/-! # Acyclic — what the cycle checks are worth

    `hasCycle` walks a graph of task keys depth first.  Its fuel is never used up
    (`visitAll_finished`), so a graph it passes has no cycle: in a template-valid spec
    anchors and parents each lead away for good. -/

namespace WfAcyclic

open DepthFirst WfSpec WfHost WfValidate

variable {host : Host} {spec : WorkflowSpec} {adjacency : Adjacency}

/-! ## The depth-first search -/

/-- The depth still to come: the nodes left to visit, and the edges of the nodes that are
    not open. -/
def toVisit (adjacency : Adjacency) (gray nodes : List String) : Nat :=
  nodes.length + weight (fun k => (adjacency.next k).length) gray (adjacency.map Prod.fst)

variable {k : String}

theorem next_nil (h : k ∉ adjacency.map Prod.fst) : adjacency.next k = [] := by
  have hnone : adjacency.find? (fun e => e.1 = k) = none := by
    rw [List.find?_eq_none]
    intro e he hk
    exact h (List.mem_map.mpr ⟨e, he, of_decide_eq_true hk⟩)
  rw [Adjacency.next, hnone]
  rfl

theorem toVisit_open {gray nodes : List String} (hk : k ∉ gray) :
    toVisit adjacency (k :: gray) (adjacency.next k) < toVisit adjacency gray (k :: nodes) := by
  rw [toVisit, toVisit, List.length_cons]
  by_cases hin : k ∈ adjacency.map Prod.fst
  · have hopen := weight_open (fun k => (adjacency.next k).length) hin hk
    omega
  · have hsub : ∀ b ∈ gray, b ∈ k :: gray := fun b hb => List.mem_cons_of_mem k hb
    have hanti := weight_anti (fun k => (adjacency.next k).length) hsub (adjacency.map Prod.fst)
    rw [next_nil hin, List.length_nil]
    omega

/-- **The search**: with enough fuel, what it closes is finished in order, and contains
    the nodes it was given. -/
theorem visitAll_finished {fuel : Nat} {gray nodes black closed : List String}
    (hfuel : toVisit adjacency gray nodes ≤ fuel)
    (h : visitAll adjacency fuel gray nodes black = some closed)
    (hblack : Finished adjacency.next black) :
    Finished adjacency.next closed ∧ (∀ k ∈ black, k ∈ closed) ∧ ∀ k ∈ nodes, k ∈ closed := by
  induction fuel generalizing gray nodes black closed with
  | zero =>
    have hnil : nodes = [] := by
      rw [toVisit] at hfuel
      exact List.eq_nil_of_length_eq_zero (by omega)
    rw [visitAll] at h
    rw [← Option.some.inj h, hnil]
    exact ⟨hblack, fun k hk => hk, fun k hk => absurd hk List.not_mem_nil⟩
  | succ fuel ih =>
    cases nodes with
    | nil =>
      rw [visitAll] at h
      rw [← Option.some.inj h]
      exact ⟨hblack, fun k hk => hk, fun k hk => absurd hk List.not_mem_nil⟩
    | cons node nodes =>
      rw [visitAll] at h
      have hrest : toVisit adjacency gray nodes ≤ fuel := by
        rw [toVisit, List.length_cons] at hfuel
        rw [toVisit]
        omega
      by_cases hgray : gray.contains node = true
      · rw [if_pos hgray] at h
        cases h
      rw [if_neg hgray] at h
      by_cases hb : black.contains node = true
      · rw [if_pos hb] at h
        obtain ⟨hfin, hsub, hall⟩ := ih hrest h hblack
        refine ⟨hfin, hsub, ?_⟩
        intro k hk
        rcases List.mem_cons.mp hk with rfl | hk
        · exact hsub _ (List.contains_iff_mem.mp hb)
        · exact hall k hk
      · rw [if_neg hb] at h
        have hnew : node ∉ gray := fun hin => hgray (List.contains_iff_mem.mpr hin)
        have hdown : toVisit adjacency (node :: gray) (adjacency.next node) ≤ fuel := by
          have hlt : _ < toVisit adjacency gray (node :: nodes) := toVisit_open hnew
          omega
        cases hvisit : visitAll adjacency fuel (node :: gray) (adjacency.next node) black with
        | none =>
          rw [hvisit] at h
          cases h
        | some below =>
          rw [hvisit] at h
          -- the node closes once its successors have
          obtain ⟨hfin, hsub, hall⟩ := ih hdown hvisit hblack
          obtain ⟨hfin', hsub', hall'⟩ := ih hrest h ⟨hall, hfin⟩
          refine ⟨hfin', fun k hk => hsub' k (.tail _ (hsub k hk)), ?_⟩
          intro k hk
          rcases List.mem_cons.mp hk with rfl | hk
          · exact hsub' _ (List.mem_cons_self ..)
          · exact hall' k hk

/-- In a graph that lists each node once, a node's successors are its entry's. -/
theorem next_eq (hnd : (adjacency.map Prod.fst).Nodup) {e : String × List String}
    (he : e ∈ adjacency) : adjacency.next e.1 = e.2 := by
  rw [Adjacency.next, RowTable.find?_eq_some_of_key hnd he]
  rfl

/-- **A graph without a cycle**: each walk along it ends. -/
theorem wellFounded_of_noCycle (hnd : (adjacency.map Prod.fst).Nodup)
    (h : hasCycle adjacency = false) : WellFounded (fun b a => b ∈ adjacency.next a) := by
  rw [hasCycle] at h
  cases hvisit : visitAll adjacency (2 * (adjacency.length + edgeCount adjacency) + 2) []
      (adjacency.map Prod.fst) [] with
  | none =>
    rw [hvisit] at h
    cases h
  | some closed =>
    have hweight : weight (fun k => (adjacency.next k).length) [] (adjacency.map Prod.fst) =
        edgeCount adjacency := by
      rw [weight_nil, List.foldl_map]
      refine List.foldl_ext _ _ 0 ?_
      intro n e he
      rw [next_eq hnd he]
    have hfuel : toVisit adjacency [] (adjacency.map Prod.fst) ≤
        2 * (adjacency.length + edgeCount adjacency) + 2 := by
      rw [toVisit, hweight, List.length_map]
      omega
    obtain ⟨hfin, _, hall⟩ := visitAll_finished hfuel hvisit trivial
    refine hfin.wellFounded ?_
    intro k hk
    by_contra hout
    exact hk (next_nil (fun hin => hout (hall k hin)))

/-! ## The graphs of a spec -/

variable {f : TaskSpec → List String}

theorem next_of_task (hvalid : TemplateValid host spec) {t : TaskSpec} (ht : t ∈ spec.tasks) :
    Adjacency.next (spec.tasks.map (fun t => (t.key, f t))) t.key = f t := by
  have hnd : ((spec.tasks.map (fun t => (t.key, f t))).map Prod.fst).Nodup := by
    rw [List.map_map]
    exact hvalid.keys_nodup
  exact next_eq (e := (t.key, f t)) hnd (List.mem_map_of_mem ht)

theorem wellFounded_of_tasks (hvalid : TemplateValid host spec)
    (h : hasCycle (spec.tasks.map (fun t => (t.key, f t))) = false) :
    WellFounded (fun b a => ∃ t ∈ spec.tasks, t.key = a ∧ b ∈ f t) := by
  have hnd : ((spec.tasks.map (fun t => (t.key, f t))).map Prod.fst).Nodup := by
    rw [List.map_map]
    exact hvalid.keys_nodup
  refine Subrelation.wf ?_ (wellFounded_of_noCycle hnd h)
  rintro b a ⟨t, ht, rfl, hb⟩
  rw [next_of_task hvalid ht]
  exact hb

/-- `a` is the task `b`'s schedule is anchored to. -/
def AnchorOf (spec : WorkflowSpec) (a b : String) : Prop :=
  ∃ t ∈ spec.tasks, t.key = b ∧ anchorKey t = some a

/-- **Anchor chains end.** -/
theorem anchors_wellFounded (hvalid : TemplateValid host spec) : WellFounded (AnchorOf spec) := by
  refine Subrelation.wf ?_ (wellFounded_of_tasks hvalid hvalid.no_anchor_cycle)
  rintro a b ⟨t, ht, hkey, ha⟩
  obtain ⟨hk, hne⟩ := hvalid.anchor_known ht ha
  refine ⟨t, ht, hkey, ?_⟩
  rw [ha, Option.toList_some, List.mem_filter]
  refine ⟨List.mem_singleton.mpr rfl, ?_⟩
  simp [known, hk, hne]

/-- `a` is the summary parent of `b`. -/
def ParentOf (spec : WorkflowSpec) (a b : String) : Prop :=
  ∃ t ∈ spec.tasks, t.key = b ∧ t.parent = some a

/-- **The hierarchy has a top.** -/
theorem parents_wellFounded (hvalid : TemplateValid host spec) : WellFounded (ParentOf spec) := by
  refine Subrelation.wf ?_ (wellFounded_of_tasks hvalid hvalid.no_parent_cycle)
  rintro a b ⟨t, ht, hkey, ha⟩
  have hk := hvalid.parent_known ht ha
  have hne := hvalid.parent_other ht ha
  refine ⟨t, ht, hkey, ?_⟩
  rw [ha, Option.toList_some, List.mem_filter]
  refine ⟨List.mem_singleton.mpr rfl, ?_⟩
  simp [known, hk, hne]

end WfAcyclic
