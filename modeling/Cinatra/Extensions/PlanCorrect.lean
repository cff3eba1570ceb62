import Cinatra.Lib.CodeUnits
import Cinatra.Extensions.PlanWalk

/-! # PlanCorrect — an install plan is what the manifests ask for

    The members of a plan are what the walk resolved, each once, the root last.  On a
    graph without cycles dependencies come before their dependents: moving the root
    behind the others changes no order there, since nothing depends on it. -/

namespace ExtPlanCorrect

open ExtCanonical ExtClosure ExtPlan ExtPlanWalk Loop

variable {satisfies : String → String → Bool} {μ : Type} {deps : DependencyPlanDeps μ}
  {input : PlanDependencyInstallInput} {resolved : OrderedMap String PlannedMember}
  {w : Walk} {opened : List String}

theorem start_walked {m : PlannedMember} {planning : Planning}
    (h : resolveNode satisfies deps input input.root.packageName none ⟨[], []⟩ =
      .ok (m, planning)) : Walked deps input ⟨planning, [m], [input.root.packageName]⟩ [] := by
  rcases (resolveNode_ok h).2 with ⟨hold, -⟩ | ⟨-, hgood, hset⟩
  · cases hold
  have hset : planning.resolved = [(input.root.packageName, m)] := hset
  have hget : ∀ {name m'}, OrderedMap.get? name planning.resolved = some m' →
      name = input.root.packageName ∧ m' = m := by
    intro name m' hm
    rw [hset, OrderedMap.get?] at hm
    split at hm
    · next hname => exact ⟨hname.symm, (Option.some.inj hm).symm⟩
    · cases hm
  have hroot : OrderedMap.get? input.root.packageName planning.resolved = some m := by
    rw [hset, OrderedMap.get?, if_pos rfl]
  have hnew : m.alreadyInstalled = false := by
    rw [← Bool.not_eq_true, hgood.installed]
    exact fun hc => hc.1 rfl
  refine ⟨⟨m, hroot⟩, ?_, ?_, ?_, ?_, ?_, ?_, ?_⟩
  · show (OrderedMap.keys planning.resolved).Nodup
    rw [hset]
    exact List.nodup_singleton _
  · intro name m' hm
    obtain ⟨rfl, rfl⟩ := hget hm
    exact hgood
  · intro name
    rw [List.mem_singleton]
    constructor
    · rintro rfl
      exact ⟨m, hroot⟩
    · rintro ⟨m', hm⟩
      exact (hget hm).1
  · intro m' hm
    rw [List.mem_singleton.mp hm, hgood.named]
    exact ⟨hroot, hnew⟩
  · intro name m' hm
    rw [(hget hm).2]
    exact .inr (.inl (List.mem_singleton.mpr rfl))
  · exact fun name hin => absurd hin List.not_mem_nil
  · intro name m' hm
    rw [(hget hm).1]
    exact .root

variable {name : String}

theorem resolved_of_reach (h : Walked deps input w opened) (hq : w.queue = [])
    (hclosed : Closed satisfies deps w.planning.resolved opened)
    (hr : Reach deps input w.planning.resolved name) :
    ∃ m, OrderedMap.get? name w.planning.resolved = some m := by
  induction hr with
  | root => exact h.root
  | @step parent m e _ hm hi he ha _ =>
    have hopened : parent ∈ opened := by
      rcases h.covered hm with hc | hc | hc
      · rw [hi] at hc
        cases hc
      · rw [hq] at hc
        cases hc
      · exact hc
    obtain ⟨t, ht, -⟩ := hclosed parent hopened m hm e he ha
    exact ⟨t, ht⟩

theorem moveRootLast_eq {rootName : String} {l : List PlannedMember}
    (hnd : (l.map PlannedMember.packageName).Nodup) {r : PlannedMember} (hr : r ∈ l)
    (hname : r.packageName = rootName) :
    moveRootLast rootName l = l.filter (fun m => m.packageName ≠ rootName) ++ [r] := by
  obtain ⟨l₁, l₂, rfl⟩ := List.append_of_mem hr
  rw [List.map_append, List.map_cons, List.nodup_append] at hnd
  obtain ⟨-, htail, hdisj⟩ := hnd
  have h₁ : ∀ m ∈ l₁, m.packageName ≠ rootName := by
    intro m hm hc
    exact hdisj _ (List.mem_map_of_mem hm) _ (List.mem_cons_self ..) (hc.trans hname.symm)
  have h₂ : ∀ m ∈ l₂, m.packageName ≠ rootName := by
    intro m hm hc
    refine (List.nodup_cons.mp htail).1 ?_
    rw [hname, ← hc]
    exact List.mem_map_of_mem hm
  have hidx : (l₁ ++ r :: l₂).findIdx (fun m => m.packageName = rootName) = l₁.length := by
    rw [List.findIdx_append, List.findIdx_eq_length_of_false (by simpa using h₁),
      if_neg (Nat.lt_irrefl _), List.findIdx_cons]
    simp [hname]
  have hfilter : (l₁ ++ r :: l₂).filter (fun m => m.packageName ≠ rootName) = l₁ ++ l₂ := by
    rw [List.filter_append, List.filter_cons, List.filter_eq_self.mpr (by simpa using h₁),
      List.filter_eq_self.mpr (by simpa using h₂)]
    simp [hname]
  rw [moveRootLast, hidx, hfilter]
  split
  · next hlen =>
      rw [List.length_append, List.length_cons] at hlen
      have hnil : l₂ = [] := List.length_eq_zero_iff.mp (by omega)
      rw [hnil, List.append_nil]
  · rw [List.eraseIdx_append_of_length_le (Nat.le_refl _), Nat.sub_self,
      List.getElem?_append_right (Nat.le_refl _), Nat.sub_self]
    rfl

/-! ## The order -/

theorem pickReady_picks (rootName : String) : ReadyOrder.Picks (pickReady rootName) := by
  refine ⟨?_, ?_⟩
  · intro l x h
    rcases Option.or_eq_some_iff.mp h with h | ⟨-, h⟩
    · exact List.mem_of_find?_eq_some h
    · exact List.mem_of_head? h
  · intro l hne h
    exact hne (List.head?_eq_none_iff.mp (Option.or_eq_none_iff.mp h).2)

/-- The names of a plan, in the order they are placed in before the root is moved. -/
def placedNames (deps : DependencyPlanDeps μ) (input : PlanDependencyInstallInput)
    (resolved : OrderedMap String PlannedMember) : List String :=
  ReadyOrder.loop (dependsOn deps resolved) (pickReady input.root.packageName)
    (CodeUnits.jsSort (OrderedMap.keys resolved)).length [] (CodeUnits.jsSort (OrderedMap.keys resolved))

theorem placedNames_perm (hnd : (OrderedMap.keys resolved).Nodup) :
    (placedNames deps input resolved).Perm (OrderedMap.keys resolved) := by
  have hsorted := CodeUnits.jsSort_perm (OrderedMap.keys resolved)
  have hplaced : (placedNames deps input resolved).Perm
      ([] ++ CodeUnits.jsSort (OrderedMap.keys resolved)) :=
    ReadyOrder.loop_perm (pickReady_picks input.root.packageName) _ [] _
      (hsorted.nodup_iff.mpr hnd) (Nat.le_refl _)
  exact hplaced.trans hsorted

theorem map_filterMap_get? (hgood : ∀ {name m}, OrderedMap.get? name resolved = some m →
    m.packageName = name) : ∀ names : List String, (∀ name ∈ names,
      ∃ m, OrderedMap.get? name resolved = some m) →
      (names.filterMap (fun name => OrderedMap.get? name resolved)).map PlannedMember.packageName =
        names := by
  intro names
  induction names with
  | nil => exact fun _ => rfl
  | cons name names ih =>
    intro hall
    obtain ⟨m, hm⟩ := hall name (List.mem_cons_self ..)
    rw [List.filterMap_cons]
    simp only [hm, List.map_cons, hgood hm]
    rw [ih (fun n hn => hall n (.tail _ hn))]

/-- **The order of a plan**: the placed members, the root behind the others. -/
theorem planOrder_eq (h : Walked deps input w opened) :
    ∃ others root, planOrder deps input w.planning.resolved = others ++ [root] ∧
      OrderedMap.get? input.root.packageName w.planning.resolved = some root ∧
      others.map PlannedMember.packageName =
        (placedNames deps input w.planning.resolved).filter (· ≠ input.root.packageName) ∧
      ∀ m ∈ others, OrderedMap.get? m.packageName w.planning.resolved = some m := by
  have hperm : (placedNames deps input w.planning.resolved).Perm
      (OrderedMap.keys w.planning.resolved) := placedNames_perm h.nodup
  have hnamed : ∀ {name m}, OrderedMap.get? name w.planning.resolved = some m →
      m.packageName = name := fun hm => (h.good hm).named
  have hmap := map_filterMap_get? hnamed (placedNames deps input w.planning.resolved)
    (fun name hin => OrderedMap.mem_keys_iff.mp (hperm.mem_iff.mp hin))
  have hget : ∀ m ∈ (placedNames deps input w.planning.resolved).filterMap
      (fun name => OrderedMap.get? name w.planning.resolved),
      OrderedMap.get? m.packageName w.planning.resolved = some m := by
    intro m hm
    obtain ⟨name, -, hname⟩ := List.mem_filterMap.mp hm
    rw [hnamed hname]
    exact hname
  obtain ⟨root, hroot⟩ := h.root
  have hin : root ∈ (placedNames deps input w.planning.resolved).filterMap
      (fun name => OrderedMap.get? name w.planning.resolved) :=
    List.mem_filterMap.mpr ⟨input.root.packageName,
      hperm.mem_iff.mpr (OrderedMap.mem_keys_iff.mpr ⟨root, hroot⟩), hroot⟩
  have hnd := hmap.symm ▸ hperm.nodup_iff.mpr h.nodup
  refine ⟨_, root, moveRootLast_eq hnd hin (hnamed hroot), hroot, ?_, ?_⟩
  · conv_rhs => rw [← hmap, List.filter_map]
    rfl
  · exact fun m hm => hget m (List.mem_filter.mp hm).1

theorem mem_planOrder (h : Walked deps input w opened) (m : PlannedMember) :
    m ∈ planOrder deps input w.planning.resolved ↔
      OrderedMap.get? m.packageName w.planning.resolved = some m := by
  obtain ⟨others, root, horder, hroot, hothers, hget⟩ := planOrder_eq h
  have hperm : (placedNames deps input w.planning.resolved).Perm
      (OrderedMap.keys w.planning.resolved) := placedNames_perm h.nodup
  rw [horder, List.mem_append, List.mem_singleton]
  constructor
  · rintro (hm | rfl)
    · exact hget m hm
    · rw [(h.good hroot).named]
      exact hroot
  · intro hm
    by_cases hname : m.packageName = input.root.packageName
    · rw [hname, hroot] at hm
      exact .inr (Option.some.inj hm).symm
    have hin : m.packageName ∈ others.map PlannedMember.packageName := by
      rw [hothers, List.mem_filter]
      exact ⟨hperm.mem_iff.mpr (OrderedMap.mem_keys_iff.mpr ⟨m, hm⟩), by simpa using hname⟩
    obtain ⟨m', hm', hsame⟩ := List.mem_map.mp hin
    have hget' := hget m' hm'
    rw [hsame, hm] at hget'
    exact .inl (Option.some.inj hget' ▸ hm')

/-- A planned member `b` has an auto-installable edge on a planned package `a`. -/
def PlanEdge (deps : DependencyPlanDeps μ) (ordered : List PlannedMember) (a b : String) : Prop :=
  (∃ t ∈ ordered, t.packageName = a) ∧ ∃ m ∈ ordered, m.packageName = b ∧
    ∃ e ∈ m.edges, deps.isAutoInstallableEdge e = true ∧ e.packageName = a

theorem edge_iff_planEdge (h : Walked deps input w opened) (a b : String) :
    TopoSort.Edge (dependsOn deps w.planning.resolved) a b ↔
      PlanEdge deps (planOrder deps input w.planning.resolved) a b := by
  rw [TopoSort.Edge, dependsOn]
  constructor
  · intro hin
    split at hin
    · cases hin
    next m hm =>
      obtain ⟨e, he, rfl⟩ := List.mem_map.mp hin
      obtain ⟨he, hok⟩ := List.mem_filter.mp he
      rw [Bool.and_eq_true, Option.isSome_iff_exists] at hok
      obtain ⟨ha, t, ht⟩ := hok
      have htn := (h.good ht).named
      have hmn := (h.good hm).named
      refine ⟨⟨t, (mem_planOrder h t).mpr ?_, htn⟩, m, (mem_planOrder h m).mpr ?_, hmn, e, he, ha, rfl⟩
      · rw [htn]
        exact ht
      · rw [hmn]
        exact hm
  · rintro ⟨⟨t, ht, htn⟩, m, hm, rfl, e, he, ha, rfl⟩
    have ht := (mem_planOrder h t).mp ht
    rw [htn] at ht
    rw [(mem_planOrder h m).mp hm]
    refine List.mem_map_of_mem (List.mem_filter.mpr ⟨he, ?_⟩)
    rw [ha, ht]
    rfl

theorem root_depends (hr : Reach deps input w.planning.resolved name)
    (hin : ∃ m, OrderedMap.get? name w.planning.resolved = some m) :
    Relation.ReflTransGen (TopoSort.Edge (dependsOn deps w.planning.resolved)) name
      input.root.packageName := by
  induction hr with
  | root => exact .refl
  | @step parent m e hparent hm hi he ha ih =>
    refine .head ?_ (ih ⟨m, hm⟩)
    show e.packageName ∈ dependsOn deps w.planning.resolved parent
    rw [dependsOn, hm]
    obtain ⟨t, ht⟩ := hin
    refine List.mem_map_of_mem (List.mem_filter.mpr ⟨he, ?_⟩)
    rw [ha, ht]
    rfl

/-- **Dependencies first**: without a cycle an in-plan dependency stands before its
    dependent. -/
theorem planOrder_respects (h : Walked deps input w opened) (hacyclic : ∀ a, ¬ Relation.TransGen
      (PlanEdge deps (planOrder deps input w.planning.resolved)) a a) {a b : String}
    (hedge : PlanEdge deps (planOrder deps input w.planning.resolved) a b) : [a, b].Sublist
      ((planOrder deps input w.planning.resolved).map PlannedMember.packageName) := by
  have hacyclic : ∀ a, ¬ Relation.TransGen
      (TopoSort.Edge (dependsOn deps w.planning.resolved)) a a := by
    intro a hcycle
    exact hacyclic a (Relation.TransGen.mono (fun x y => (edge_iff_planEdge h x y).mp) _ _ hcycle)
  have hedge := (edge_iff_planEdge h a b).mpr hedge
  have hkeys : ∀ {x y}, TopoSort.Edge (dependsOn deps w.planning.resolved) x y →
      (∃ m, OrderedMap.get? x w.planning.resolved = some m) ∧
        ∃ m, OrderedMap.get? y w.planning.resolved = some m := by
    intro x y hxy
    obtain ⟨⟨t, ht, htx⟩, m, hm, hmy, -⟩ := (edge_iff_planEdge h x y).mp hxy
    have ht := (mem_planOrder h t).mp ht
    have hm := (mem_planOrder h m).mp hm
    rw [htx] at ht
    rw [hmy] at hm
    exact ⟨⟨t, ht⟩, ⟨m, hm⟩⟩
  -- nothing the root depends on, and so nothing in the plan, depends on the root
  have hroot : a ≠ input.root.packageName := by
    rintro rfl
    obtain ⟨-, m, hm⟩ := hkeys hedge
    exact hacyclic _ (.head' hedge (root_depends (h.reached hm) ⟨m, hm⟩))
  have hsorted := CodeUnits.jsSort_perm (OrderedMap.keys w.planning.resolved)
  have hrespects : ReadyOrder.Respects (dependsOn deps w.planning.resolved)
      (placedNames deps input w.planning.resolved) := by
    refine ReadyOrder.loop_respects (pickReady_picks input.root.packageName) hacyclic _ [] _
      (hsorted.nodup_iff.mpr h.nodup) ?_ (fun x hx => absurd hx List.not_mem_nil)
    intro y _ x hxy
    exact hsorted.mem_iff.mpr (OrderedMap.mem_keys_iff.mpr (hkeys hxy).1)
  have hplaced : ∀ {x}, (∃ m, OrderedMap.get? x w.planning.resolved = some m) →
      x ∈ placedNames deps input w.planning.resolved := by
    intro x hx
    have hperm : (placedNames deps input w.planning.resolved).Perm
        (OrderedMap.keys w.planning.resolved) := placedNames_perm h.nodup
    exact hperm.mem_iff.mpr (OrderedMap.mem_keys_iff.mpr hx)
  obtain ⟨others, root, horder, hrootGet, hothers, -⟩ := planOrder_eq h
  rw [horder, List.map_append, hothers, List.map_singleton, (h.good hrootGet).named]
  by_cases hb : b = input.root.packageName
  · rw [hb]
    have hin : a ∈ (placedNames deps input w.planning.resolved).filter
        (· ≠ input.root.packageName) :=
      List.mem_filter.mpr ⟨hplaced (hkeys hedge).1, by simpa using hroot⟩
    exact (List.singleton_sublist.mpr hin).append (List.Sublist.refl [input.root.packageName])
  · have hsub := (hrespects b (hplaced (hkeys hedge).2) a hedge).filter
      (fun x => decide (x ≠ input.root.packageName))
    rw [List.filter_eq_self.mpr (by simp [hroot, hb])] at hsub
    exact hsub.trans (List.sublist_append_left _ _)

/-! ## The walk ends -/

/-- A step that does not run out of rounds. -/
def Ends {α : Type} (x : Except PlanFailure α) : Prop := x ≠ .error .outOfFuel

variable {α : Type}

theorem Ends.ok (a : α) : Ends (.ok a) := by
  intro h
  cases h

variable {β : Type}

theorem Ends.bind_of_ok {x : Except PlanFailure α} {f : α → Except PlanFailure β}
    (hx : Ends x) (hf : ∀ a, x = .ok a → Ends (f a)) : Ends (x >>= f) := by
  cases x with
  | ok a => exact hf a rfl
  | error err => exact fun h => hx (congrArg Except.error (Except.error.inj h))

theorem Ends.bind {x : Except PlanFailure α} {f : α → Except PlanFailure β}
    (hx : Ends x) (hf : ∀ a, Ends (f a)) : Ends (x >>= f) :=
  hx.bind_of_ok (fun a _ => hf a)

theorem rethrow_ends (x : Except String α) : Ends (rethrow x) := by
  intro h
  cases x <;> cases h

theorem assertPin_ends (from_ : String) (dep : ExtensionDependency) (pin : String) :
    Ends (assertPinSatisfiesConstraint satisfies from_ dep pin) := by
  unfold assertPinSatisfiesConstraint Ends
  intro h
  split at h
  · cases h
  · split at h <;> cases h
  · split at h <;> cases h

theorem checkRequest_ends (requestedBy : Option Request) (pin : String) :
    Ends (checkRequest satisfies requestedBy pin) := by
  cases requestedBy with
  | none => exact .ok ()
  | some r => exact assertPin_ends r.from r.edge pin

theorem authorisedPin_ends (closure : List DependencyClosurePin) (name : String)
    (requestedBy : Option Request) : Ends (authorisedPin input closure name requestedBy) := by
  unfold authorisedPin Ends
  intro h
  split at h
  · cases h
  · split at h <;> cases h

theorem devConstraint_ends (requestedBy : Option Request) :
    Ends (devConstraint satisfies input requestedBy) := by
  unfold devConstraint Ends
  intro h
  split at h
  · cases h
  split at h
  · cases h
  · cases h
  split at h
  · next err herr =>
      rw [Except.error.inj h] at herr
      exact assertPin_ends _ _ _ herr
  · cases h

theorem pinNode_ends (name : String) (requestedBy : Option Request) :
    Ends (pinNode satisfies deps input name requestedBy) := by
  unfold pinNode
  split
  · refine (authorisedPin_ends _ _ _).bind (fun pin => (checkRequest_ends _ _).bind (fun _ =>
      (rethrow_ends _).bind (fun summary => ?_)))
    split
    · intro h
      cases h
    · exact (rethrow_ends _).bind (fun edges => .ok _)
  · exact (devConstraint_ends _).bind (fun constraint => (rethrow_ends _).bind (fun summary =>
      (rethrow_ends _).bind (fun edges => (checkRequest_ends _ _).bind (fun _ => .ok _))))

theorem finalizeNode_ends (name : String) (requestedBy : Option Request) (pinned : Pinned μ)
    (s : Planning) : Ends (finalizeNode deps input name requestedBy pinned s) := by
  have hinstalled : Ends (installedCheck deps input name pinned.pin requestedBy) := by
    unfold installedCheck Ends
    intro h
    split at h
    · cases h
    split at h
    · cases h
    · split at h
      · cases h
      · split at h <;> cases h
  have hkind : Ends (kindToTypeId pinned.summary.kind name) := by
    unfold kindToTypeId Ends
    intro h
    split at h
    · cases h
    · split at h <;> cases h
  exact hinstalled.bind (fun _ => hkind.bind (fun _ => .ok _))

theorem resolveNode_ends (name : String) (requestedBy : Option Request) (s : Planning) :
    Ends (resolveNode satisfies deps input name requestedBy s) := by
  unfold resolveNode
  split
  · exact (checkRequest_ends _ _).bind (fun _ => .ok _)
  have hscope : Ends (assertInDependencyScope input name (input.requester requestedBy)) := by
    unfold assertInDependencyScope Ends
    intro h
    dsimp only at h
    split at h <;> cases h
  exact hscope.bind (fun _ => (pinNode_ends _ _).bind (fun _ => finalizeNode_ends _ _ _ _))

theorem walkEdge_ends (current : PlannedMember) (w : Walk) (edge : ExtensionDependency) :
    Ends (walkEdge satisfies deps input current w edge) := by
  unfold walkEdge
  split
  · exact .ok _
  refine (resolveNode_ends _ _ _).bind ?_
  rintro ⟨target, planning⟩
  dsimp only
  split
  · exact .ok _
  · exact .ok _

theorem walkEdges_ends (current : PlannedMember) (edges : List ExtensionDependency) :
    ∀ w, Ends (edges.foldlM (walkEdge satisfies deps input current) w) := by
  induction edges with
  | nil => exact fun w => .ok w
  | cons edge edges ih =>
    intro w
    rw [List.foldlM_cons]
    exact (walkEdge_ends current w edge).bind ih

/-- What is left to do: the queue, and the packages of the registry not enqueued yet. -/
def todo (names : List String) (w : Walk) : Nat :=
  w.queue.length + DepthFirst.weight (fun _ => 1) w.enqueued names

/-- The registry answers for finitely many packages. -/
def FiniteRegistry (deps : DependencyPlanDeps μ) (names : List String) : Prop :=
  ∀ name constraint summary, deps.fetchSummary name constraint = .ok summary → name ∈ names

variable {names : List String} {current : PlannedMember} {w' : Walk}

section

variable (hnames : FiniteRegistry deps names)

include hnames

theorem todo_walkEdge {edge : ExtensionDependency} (h : Walked deps input w opened)
    (hrun : walkEdge satisfies deps input current w edge = .ok w') : todo names w' ≤ todo names w := by
  unfold walkEdge at hrun
  split at hrun
  · obtain rfl := Except.ok.inj hrun
    exact Nat.le_refl _
  obtain ⟨⟨target, planning⟩, hnode, hrun⟩ := bind_ok.mp hrun
  dsimp only at hrun
  split at hrun
  · obtain rfl := Except.ok.inj hrun
    exact Nat.le_refl _
  next hfresh =>
  obtain rfl := Except.ok.inj hrun
  have htarget : target.packageName ∈ names := by
    rcases (resolveNode_ok hnode).2 with ⟨hold, -⟩ | ⟨-, hgood, -⟩
    · refine absurd ((h.enqueued _).mpr ⟨target, ?_⟩) hfresh
      rw [(h.good hold).named]
      exact hold
    · obtain ⟨constraint, summary, hfetch, -⟩ := hgood.manifest
      rw [hgood.named]
      exact hnames _ _ _ hfetch
  have hsub : ∀ a ∈ target.packageName :: w.enqueued, a ∈ w.enqueued ++ [target.packageName] := by
    intro a ha
    rcases List.mem_cons.mp ha with rfl | ha
    · exact List.mem_concat_self
    · exact List.mem_append_left _ ha
  have hanti := DepthFirst.weight_anti (fun _ => 1) hsub names
  have hopen := DepthFirst.weight_open (fun _ => 1) htarget hfresh
  have hqueue : (if target.alreadyInstalled = true then w.queue else w.queue ++ [target]).length ≤
      w.queue.length + 1 := by
    split
    · omega
    · rw [List.length_append]
      exact Nat.le_refl _
  simp only [todo]
  omega

theorem todo_walkEdges {w : Walk} (h : Walked deps input w opened)
    (hcurrent : OrderedMap.get? current.packageName w.planning.resolved = some current)
    (hnew : current.alreadyInstalled = false)
    (hrun : current.edges.foldlM (walkEdge satisfies deps input current) w = .ok w') :
    todo names w' ≤ todo names w := by
  refine (foldlM_keeps (P := fun v : Walk => Walked deps input v opened ∧
    OrderedMap.get? current.packageName v.planning.resolved = some current ∧
      todo names v ≤ todo names w) hrun ⟨h, hcurrent, Nat.le_refl _⟩ ?_).2.2
  rintro v edge v' hin hstep ⟨hv, hcurrent, hle⟩
  obtain ⟨hv', hgrows, -⟩ := walkEdge_ok hv hcurrent hnew hin hstep
  exact ⟨hv', hgrows _ _ hcurrent, Nat.le_trans (todo_walkEdge hnames hv hstep) hle⟩

/-- **The walk ends** over a finite registry: each round opens a member. -/
theorem walkLoop_ends (fuel : Nat) :
    ∀ (w : Walk) (opened : List String), Walked deps input w opened → todo names w < fuel →
      Ends (walkLoop satisfies deps input fuel w) := by
  induction fuel with
  | zero => exact fun w opened _ hlt => absurd hlt (Nat.not_lt_zero _)
  | succ fuel ih =>
    intro w opened h hlt
    rw [walkLoop]
    split
    · exact .ok _
    next current rest hq =>
      split
      · next err herr =>
          intro hend
          rw [Except.error.inj hend] at herr
          exact walkEdges_ends _ _ _ herr
      · next w₁ hedges =>
          obtain ⟨hcurrent, hnew⟩ := h.queued current (hq ▸ List.mem_cons_self ..)
          have hdequeue := h.dequeue hq
          have hle := todo_walkEdges hnames hdequeue hcurrent hnew hedges
          have h₁ := (walkEdges_ok current.edges _ hdequeue hcurrent hnew (fun _ he => he)
            hedges).1
          refine ih w₁ _ h₁ ?_
          simp only [todo, hq, List.length_cons] at hle hlt ⊢
          omega

end

/-! ## Plans -/

/-- What the root reaches in a plan through members that are not installed yet. -/
inductive PlanReaches (deps : DependencyPlanDeps μ) (input : PlanDependencyInstallInput)
    (ordered : List PlannedMember) : String → Prop
  | root : PlanReaches deps input ordered input.root.packageName
  | step {m : PlannedMember} {e : ExtensionDependency} :
      PlanReaches deps input ordered m.packageName → m ∈ ordered →
      (m.packageName = input.root.packageName ∨ ¬ Present deps input m.packageName) →
      e ∈ m.edges → deps.isAutoInstallableEdge e = true →
      PlanReaches deps input ordered e.packageName

structure CorrectPlan (satisfies : String → String → Bool) (deps : DependencyPlanDeps μ)
    (input : PlanDependencyInstallInput) (plan : DependencyInstallPlan) : Prop where
  distinct : (plan.ordered.map PlannedMember.packageName).Nodup
  rootLast : (plan.ordered.map PlannedMember.packageName).getLast? = some input.root.packageName
  reached : ∀ name, (∃ m ∈ plan.ordered, m.packageName = name) ↔
    PlanReaches deps input plan.ordered name
  /-- The edges of a member are those of the registry's manifest at its pin. -/
  manifest : ∀ m ∈ plan.ordered, ManifestEdges deps m.packageName m.version m.edges
  /-- The edges of the root and of what is to be installed. -/
  satisfied : ∀ m ∈ plan.ordered,
    (m.packageName = input.root.packageName ∨ ¬ Present deps input m.packageName) →
    ∀ e ∈ m.edges, deps.isAutoInstallableEdge e = true →
      ∃ t ∈ plan.ordered, t.packageName = e.packageName ∧ PinSatisfies satisfies e t.version
  scope : ∀ m ∈ plan.ordered,
    RegResolver.inScope (dependencyScopePrefixesFor input.root.packageName) m.packageName = true
  authorised : ∀ m ∈ plan.ordered, Authorised input m.packageName m.version
  /-- A present package other than the root is marked, at the version it is there in. -/
  marked : ∀ m ∈ plan.ordered, m.alreadyInstalled = true ↔
    m.packageName ≠ input.root.packageName ∧ Present deps input m.packageName
  kept : ∀ m ∈ plan.ordered, m.packageName ≠ input.root.packageName → ∀ row,
    findLiveRow deps.installedRows m.packageName input.orgId = some row →
      ∀ v, installedVersionOfRow row = some v → v = m.version
  dependenciesFirst : (∀ a, ¬ Relation.TransGen (PlanEdge deps plan.ordered) a a) →
    ∀ a b, PlanEdge deps plan.ordered a b →
      [a, b].Sublist (plan.ordered.map PlannedMember.packageName)

theorem planReaches_of_reach (h : Walked deps input w opened)
    (hr : Reach deps input w.planning.resolved name) :
    PlanReaches deps input (planOrder deps input w.planning.resolved) name := by
  induction hr with
  | root => exact .root
  | @step parent m e _ hm hi he ha ih =>
    have hgood := h.good hm
    have hm : OrderedMap.get? m.packageName w.planning.resolved = some m := by
      rw [hgood.named]
      exact hm
    have hnew : m.packageName = input.root.packageName ∨ ¬ Present deps input m.packageName := by
      by_contra hc
      push Not at hc
      rw [hgood.named] at hc
      rw [hgood.installed.mpr hc] at hi
      cases hi
    rw [← hgood.named] at ih
    exact .step ih ((mem_planOrder h m).mpr hm) hnew he ha

theorem reach_of_planReaches (h : Walked deps input w opened)
    (hr : PlanReaches deps input (planOrder deps input w.planning.resolved) name) :
    Reach deps input w.planning.resolved name := by
  induction hr with
  | root => exact .root
  | @step m e _ hm hnew he ha ih =>
    have hm := (mem_planOrder h m).mp hm
    have hi : m.alreadyInstalled = false := by
      rw [← Bool.not_eq_true, (h.good hm).installed]
      rintro ⟨hne, hp⟩
      exact hnew.elim hne (fun hc => hc hp)
    exact .step ih hm hi he ha

theorem correct_of_walked (h : Walked deps input w opened) (hq : w.queue = [])
    (hclosed : Closed satisfies deps w.planning.resolved opened) (plan : DependencyInstallPlan)
    (hplan : plan.ordered = planOrder deps input w.planning.resolved) :
    CorrectPlan satisfies deps input plan := by
  have hmem := mem_planOrder h
  obtain ⟨others, root, horder, hroot, hothers, -⟩ := planOrder_eq h
  have hnames : (planOrder deps input w.planning.resolved).map PlannedMember.packageName =
      (placedNames deps input w.planning.resolved).filter (· ≠ input.root.packageName) ++
        [input.root.packageName] := by
    rw [horder, List.map_append, hothers, List.map_singleton, (h.good hroot).named]
  constructor
  · rw [hplan, hnames]
    have hperm : (placedNames deps input w.planning.resolved).Perm
        (OrderedMap.keys w.planning.resolved) := placedNames_perm h.nodup
    refine ((hperm.nodup_iff.mpr h.nodup).filter _).append (List.nodup_singleton _) ?_
    intro a ha hb
    rw [List.mem_singleton.mp hb] at ha
    simpa using (List.mem_filter.mp ha).2
  · rw [hplan, hnames, List.getLast?_concat]
  · intro name
    rw [hplan]
    constructor
    · rintro ⟨m, hm, rfl⟩
      exact planReaches_of_reach h (h.reached ((hmem m).mp hm))
    · intro hr
      obtain ⟨m, hm⟩ := resolved_of_reach h hq hclosed (reach_of_planReaches h hr)
      have hnamed := (h.good hm).named
      refine ⟨m, (hmem m).mpr ?_, hnamed⟩
      rw [hnamed]
      exact hm
  · rw [hplan]
    exact fun m hm => (h.good ((hmem m).mp hm)).manifest
  · rw [hplan]
    intro m hm hnew e he ha
    have hm := (hmem m).mp hm
    have hopened : m.packageName ∈ opened := by
      rcases h.covered hm with hc | hc | hc
      · obtain ⟨hne, hp⟩ := (h.good hm).installed.mp hc
        exact absurd hp (hnew.resolve_left hne)
      · rw [hq] at hc
        cases hc
      · exact hc
    obtain ⟨t, ht, hsat⟩ := hclosed _ hopened m hm e he ha
    have hnamed := (h.good ht).named
    refine ⟨t, (hmem t).mpr ?_, hnamed, hsat⟩
    rw [hnamed]
    exact ht
  · rw [hplan]
    exact fun m hm => (h.good ((hmem m).mp hm)).scope
  · rw [hplan]
    exact fun m hm => (h.good ((hmem m).mp hm)).authorised
  · rw [hplan]
    exact fun m hm => (h.good ((hmem m).mp hm)).installed
  · rw [hplan]
    exact fun m hm => (h.good ((hmem m).mp hm)).kept
  · rw [hplan]
    exact fun hacyclic a b hedge => planOrder_respects h hacyclic hedge

/-- **Install plans are correct**: over a finite registry the planner ends, and the plan it
    returns has the packages reached, each once, at pins that every edge of what is to be
    installed admits, in scope and authorised, dependencies first and the root last. -/
theorem plan_correct (satisfies : String → String → Bool) (deps : DependencyPlanDeps μ)
    (input : PlanDependencyInstallInput) (names : List String)
    (hnames : FiniteRegistry deps names) (fuel : Nat) (hfuel : names.length + 1 < fuel) :
    planDependencyInstall satisfies deps input fuel ≠ .error .outOfFuel ∧
      ∀ plan, planDependencyInstall satisfies deps input fuel = .ok plan →
        CorrectPlan satisfies deps input plan := by
  have hstart : ∀ m planning, todo names ⟨planning, [m], [input.root.packageName]⟩ < fuel := by
    intro m planning
    have hle : DepthFirst.weight (fun _ => 1) [input.root.packageName] names ≤ names.length * 1 :=
      DepthFirst.weight_le_mul _ (fun _ _ => Nat.le_refl 1)
    simp only [todo, List.length_singleton]
    omega
  refine ⟨?_, ?_⟩
  · unfold planDependencyInstall
    refine Ends.bind_of_ok (resolveNode_ends _ _ _) ?_
    rintro ⟨m, planning⟩ hroot
    dsimp only
    exact (walkLoop_ends hnames fuel _ [] (start_walked hroot) (hstart m planning)).bind
      (fun _ => .ok _)
  · intro plan hplan
    unfold planDependencyInstall at hplan
    obtain ⟨⟨m, planning₀⟩, hroot, hplan⟩ := bind_ok.mp hplan
    dsimp only at hplan
    obtain ⟨planning, hwalk, hplan⟩ := bind_ok.mp hplan
    obtain rfl := Except.ok.inj hplan
    obtain ⟨w, opened, rfl, hq, hwalked, hclosed⟩ := walkLoop_ok fuel _ [] planning
      (start_walked hroot) (fun name hin => absurd hin List.not_mem_nil) hwalk
    exact correct_of_walked hwalked hq hclosed _ rfl

/-! ## An update over an installed theme -/

def requiredEdge (name : String) (constraint : VersionConstraint) : ExtensionDependency where
  packageName := name
  kind := none
  edgeType := .runtime
  versionConstraint := constraint
  requirement := .required

def liveAt (name version : String) : InstalledExtension where
  id := name
  packageName := name
  organizationId := none
  kind := .connector
  status := .active
  source := .verdaccio ⟨"https://registry", name, version, "sha512-x", none, none, none, none⟩
  dependencies := []

/-- An app at its second version needs a theme and a new core; the theme, which is
    installed like the old app, was made for the old core. -/
def appSummary (name : String) : Except String (MemberSummary (List ExtensionDependency)) :=
  if name = "@acme/app" then .ok ⟨"2.0.0", some "agent",
    [requiredEdge "@acme/theme" (.semverRange "*"), requiredEdge "@acme/core" (.exact "2.0.0")]⟩
  else if name = "@acme/theme" then
    .ok ⟨"1.0.0", some "artifact", [requiredEdge "@acme/core" (.exact "1.0.0")]⟩
  else if name = "@acme/core" then .ok ⟨"2.0.0", some "skill", []⟩
  else .error "not found"

def appDeps : DependencyPlanDeps (List ExtensionDependency) where
  fetchSummary := fun name _ => appSummary name
  parseEdges := fun manifest _ => .ok manifest
  isAutoInstallableEdge := fun dep => dep.requirement = .required && dep.edgeType ≠ .peer
  installedRows := [liveAt "@acme/app" "1.0.0", liveAt "@acme/theme" "1.0.0"]

def appRequest : PlanDependencyInstallInput := ⟨⟨"@acme/app", "2.0.0"⟩, none, none⟩

def appPlan : DependencyInstallPlan where
  ordered := [
    ⟨"@acme/core", "2.0.0", "skill", [], false⟩,
    ⟨"@acme/theme", "1.0.0", "artifact", [requiredEdge "@acme/core" (.exact "1.0.0")], true⟩,
    ⟨"@acme/app", "2.0.0", "agent", [requiredEdge "@acme/theme" (.semverRange "*"),
      requiredEdge "@acme/core" (.exact "2.0.0")], false⟩]
  root := ⟨"@acme/app", "2.0.0"⟩
  source := .manifestWalk
  memberKinds := [("@acme/app", "agent"), ("@acme/theme", "artifact"), ("@acme/core", "skill")]

theorem appSummary_finite : FiniteRegistry appDeps ["@acme/app", "@acme/theme", "@acme/core"] := by
  intro name _ summary h
  have h : appSummary name = .ok summary := h
  unfold appSummary at h
  split at h
  · next hname => simp [hname]
  split at h
  · next hname => simp [hname]
  split at h
  · next hname => simp [hname]
  · cases h

/-- The plan goes in over the present app at another version, and the edge of the installed
    theme is not met by the pin of the core. -/
theorem installed_theme_unchecked :
    planDependencyInstall (fun _ _ => false) appDeps appRequest 5 = .ok appPlan ∧
      (∃ m ∈ appPlan.ordered, ∃ e ∈ m.edges, appDeps.isAutoInstallableEdge e = true ∧
        ∃ t ∈ appPlan.ordered, t.packageName = e.packageName ∧
          ¬ PinSatisfies (fun _ _ => false) e t.version) ∧ ∃ m ∈ appPlan.ordered, ∃ row,
        findLiveRow appDeps.installedRows m.packageName appRequest.orgId = some row ∧
          ∃ v, installedVersionOfRow row = some v ∧ v ≠ m.version := by
  refine ⟨by decide +kernel, ?_, ?_⟩
  · refine ⟨_, .tail _ (List.mem_cons_self ..), _, List.mem_singleton.mpr rfl,
      by decide, _, List.mem_cons_self .., rfl, ?_⟩
    show ¬ "1.0.0" = "2.0.0"
    decide
  · exact ⟨_, .tail _ (.tail _ (List.mem_cons_self ..)),
      liveAt "@acme/app" "1.0.0", by decide, "1.0.0", by decide, by decide⟩

theorem plan_correct_update : CorrectPlan (fun _ _ => false) appDeps appRequest appPlan := by
  have hplan : planDependencyInstall (fun _ _ => false) appDeps appRequest 5 = .ok appPlan := by
    decide +kernel
  exact (plan_correct (fun _ _ => false) appDeps appRequest
    ["@acme/app", "@acme/theme", "@acme/core"] appSummary_finite 5 (by decide)).2 appPlan hplan

end ExtPlanCorrect
