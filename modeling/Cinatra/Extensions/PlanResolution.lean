import Cinatra.Extensions.PlanOrder

/-! # PlanResolution — what Node loads from a plan

    Node goes from the directory of the dependent outwards, passes over directories that
    are themselves called `node_modules`, and takes the first package of the name that it
    finds.  The parser asks only that an edge leads somewhere Node may look, so a package
    placed nearer is loaded instead of the one the edge names (`plan_loads_iff`). -/

namespace ExtMatPlan

open JsonValue

variable {plan : MaterializationPlan} {nodes : List MaterializationPlanNode}

/-- Node looks below directories that are not themselves called `node_modules`. -/
def visible (dir : List (List Char)) : Prop := dir.getLast? ≠ some nodeModules

instance (dir : List (List Char)) : Decidable (visible dir) := inferInstanceAs (Decidable (_ ≠ _))

/-- The package of the name below the first `k` segments, where Node looks there. -/
def foundAt (nodes : List MaterializationPlanNode) (name : List Char) (dir : List (List Char))
    (k : Nat) : Option MaterializationPlanNode :=
  if visible (dir.take k) then nodeAt nodes (String.ofList (candidate (dir.take k) name)) else none

/-- What is found last, counting down. -/
def countDown {α : Type} (f : Nat → Option α) : Nat → Option α
  | 0 => f 0
  | k + 1 => (f (k + 1)).or (countDown f k)

/-- The planned package that Node loads for a name, from the package at a path. -/
def nodeResolve (nodes : List MaterializationPlanNode) (parent : Option String) (name : String) :
    Option MaterializationPlanNode :=
  let dir := parent.elim [] (fun path => Split.split '/' path.toList)
  countDown (foundAt nodes name.toList dir) dir.length

/-- **Every dependency loads the node its edge names.** -/
def LoadsAsDeclared (plan : MaterializationPlan) : Prop :=
  (∀ ref ∈ plan.rootDependencies, ∃ target ∈ plan.nodes,
    target.placementPath = ref.placementPath ∧ nodeResolve plan.nodes none ref.name = some target) ∧
  ∀ n ∈ plan.nodes, ∀ ref ∈ n.dependencies, ∃ target ∈ plan.nodes,
    target.placementPath = ref.placementPath ∧
      nodeResolve plan.nodes (some n.placementPath) ref.name = some target

theorem countDown_eq {α : Type} {f : Nat → Option α} (k : Nat) {a : α} : countDown f k = some a ↔
    ∃ j ≤ k, f j = some a ∧ ∀ i, j < i → i ≤ k → f i = none := by
  induction k with
  | zero =>
    constructor
    · exact fun h => ⟨0, Nat.le_refl 0, h, fun i hi hle => absurd hle (Nat.not_le.mpr hi)⟩
    · rintro ⟨j, hj, h, _⟩
      rw [Nat.le_zero.mp hj] at h
      exact h
  | succ k ih =>
    rw [countDown]
    cases hat : f (k + 1) with
    | some b =>
      rw [Option.some_or]
      constructor
      · intro h
        exact ⟨k + 1, Nat.le_refl _, hat.trans h, fun i hi hle => absurd hle (Nat.not_le.mpr hi)⟩
      · rintro ⟨j, hj, h, hnone⟩
        rcases Nat.lt_or_eq_of_le hj with hlt | rfl
        · rw [hnone (k + 1) hlt (Nat.le_refl _)] at hat
          cases hat
        · exact hat.symm.trans h
    | none =>
      rw [Option.none_or, ih]
      constructor
      · rintro ⟨j, hj, h, hnone⟩
        refine ⟨j, Nat.le_succ_of_le hj, h, fun i hi hle => ?_⟩
        rcases Nat.lt_or_eq_of_le hle with hlt | rfl
        · exact hnone i hi (Nat.le_of_lt_succ hlt)
        · exact hat
      · rintro ⟨j, hj, h, hnone⟩
        refine ⟨j, Nat.le_of_lt_succ (Nat.lt_of_le_of_ne hj ?_), h,
          fun i hi hle => hnone i hi (Nat.le_succ_of_le hle)⟩
        rintro rfl
        rw [hat] at h
        cases h

/-! ## Where the search looks from a package -/

/-- Segments that begin a chain: those of a shorter one, or some that stop at a
    `node_modules`, or between a scope and its name. -/
def Begins (c d : List (List Char)) : Prop :=
  (∃ e, e <+: c ∧ d = chainSegments e) ∨ ¬ visible d ∨
    ∃ e s, e <+: c ∧ s.head? = some '@' ∧ d = chainSegments e ++ [nodeModules, s]

variable {c : List (List Char)} {d : List (List Char)}

theorem Begins.cons (h : Begins c d) (n : List Char) :
    Begins (n :: c) (nodeModules :: (Split.split '/' n ++ d)) := by
  rcases h with ⟨e, he, rfl⟩ | hlast | ⟨e, s, he, hs, rfl⟩
  · exact .inl ⟨n :: e, (List.prefix_cons_inj n).mpr he, rfl⟩
  · refine .inr (.inl fun hvisible => hvisible ?_)
    rw [← List.cons_append, List.getLast?_append, not_not.mp hlast]
    rfl
  · refine .inr (.inr ⟨n :: e, s, (List.prefix_cons_inj n).mpr he, hs, ?_⟩)
    rw [chainSegments_cons, List.cons_append, List.append_assoc]

theorem begins_take (hc : ValidChain c) : ∀ k, Begins c ((chainSegments c).take k) := by
  induction c with
  | nil => exact fun k => .inl ⟨[], List.prefix_refl _, List.take_nil⟩
  | cons n c ih =>
    obtain ⟨hn, hcs⟩ := List.forall_mem_cons.mp hc
    have ih := fun k => (ih hcs k).cons n
    intro k
    rw [chainSegments_cons]
    rcases npmPackageName_segments hn with ⟨hsplit, _⟩ | ⟨s, t, hname, hs, hsplit⟩
    · rw [hsplit] at ih ⊢
      match k with
      | 0 => exact .inl ⟨[], List.nil_prefix, rfl⟩
      | 1 => exact .inr (.inl fun hvisible => hvisible rfl)
      | k + 2 => exact ih k
    · rw [hsplit] at ih ⊢
      match k with
      | 0 => exact .inl ⟨[], List.nil_prefix, rfl⟩
      | 1 => exact .inr (.inl fun hvisible => hvisible rfl)
      | 2 => exact .inr (.inr ⟨[], s, List.nil_prefix, hs, rfl⟩)
      | k + 3 => exact ih k

theorem split_candidate (hslash : ∀ s ∈ d, '/' ∉ s)
    (hd : d = [] ∨ d.head? = some nodeModules) (name : List Char) :
    Split.split '/' (candidate d name) = d ++ nodeModules :: Split.split '/' name := by
  have htail : Split.split '/' (nodeModules ++ '/' :: name) = nodeModules :: Split.split '/' name := by
    rw [Split.split_append, Split.split_eq_self (by decide)]
    rfl
  rcases hd with rfl | hhead
  · exact htail
  obtain ⟨rest, rfl⟩ := List.head?_eq_some_iff.mp hhead
  have hpos : (Split.join '/' (nodeModules :: rest)).length ≠ 0 := by
    intro hzero
    have hsplit := Split.split_join (List.cons_ne_nil nodeModules rest) hslash
    rw [List.length_eq_zero_iff.mp hzero] at hsplit
    exact absurd (List.cons.inj hsplit).1 (by decide)
  simp only [candidate, if_neg hpos]
  rw [Split.split_append, Split.split_join (List.cons_ne_nil nodeModules rest) hslash, htail]

variable {name : List Char}

theorem split_ne_chainSegments (hname : npmPackageName name = true)
    (d : List (List Char)) : chainSegments d ≠ Split.split '/' name := by
  intro h
  cases d with
  | nil => exact Split.split_ne_nil '/' name h.symm
  | cons m d =>
    rw [chainSegments_cons] at h
    rcases npmPackageName_segments hname with ⟨hsplit, _⟩ | ⟨s, t, _, hs, hsplit⟩
    · rw [hsplit] at h
      exact List.append_ne_nil_of_left_ne_nil (Split.split_ne_nil '/' m) _ (List.cons.inj h).2
    · rw [hsplit] at h
      exact absurd ((List.cons.inj h).1 ▸ hs) (by decide)

theorem nodeAt_scope (hnodes : ∀ m ∈ nodes, ValidNode m) {e : List (List Char)} (he : ValidChain e)
    {s : List Char} (hs : s.head? = some '@') (hslash : '/' ∉ s)
    (hname : npmPackageName name = true) :
    nodeAt nodes (String.ofList (candidate (chainSegments e ++ [nodeModules, s]) name)) = none := by
  by_contra hsome
  obtain ⟨m, hm⟩ := Option.ne_none_iff_exists'.mp hsome
  obtain ⟨hin, hpath⟩ := nodeAt_some hm
  obtain ⟨outer, hvalid, hmpath⟩ := (hnodes m hin).endsIn
  have hsegs := split_chainPath (c := outer ++ [m.name.toList]) (by simp)
  rw [← hmpath, hpath, String.toList_ofList, split_candidate] at hsegs
  · have hassoc : chainSegments (outer ++ [m.name.toList]) =
        chainSegments e ++ nodeModules :: s :: nodeModules :: Split.split '/' name := by
      rw [← hsegs, List.append_assoc]
      rfl
    obtain ⟨d, hd⟩ := prefix_of_segments he hvalid hassoc
    rw [← hd, chainSegments_append] at hassoc
    have htail := List.append_cancel_left hassoc
    cases d with
    | nil => cases htail
    | cons n d =>
      have hn : npmPackageName n = true := hvalid n (hd ▸ by simp)
      have htail := (List.cons.inj htail).2
      rcases npmPackageName_segments hn with ⟨hsplit, hat⟩ | ⟨s', t', _, _, hsplit⟩
      · rw [hsplit] at htail
        exact hat ((List.cons.inj htail).1 ▸ hs)
      · rw [hsplit] at htail
        exact split_ne_chainSegments hname d (List.cons.inj (List.cons.inj htail).2).2
  · intro t ht
    rcases List.mem_append.mp ht with ht | ht
    · exact chainSegments_slash t ht
    · rcases List.mem_pair.mp ht with rfl | rfl
      · decide
      · exact hslash
  · cases e with
    | nil | cons => exact .inr rfl

/-! ## Shadowed edges -/

/-- Node looks below the directory that the edge names, and no package of the name is
    placed below a longer one of those around the dependent. -/
def Unshadowed (plan : MaterializationPlan) : Prop :=
  ∀ n ∈ plan.nodes, ∀ ref ∈ n.dependencies, ∀ chain outer, ValidChain chain → outer <+: chain →
    n.placementPath = chainPath chain → ref.placementPath = chainPath (outer ++ [ref.name.toList]) →
      visible (chainSegments outer) ∧ ∀ inner, outer <+: inner → inner ≠ outer → inner <+: chain →
        visible (chainSegments inner) → ∀ m ∈ plan.nodes,
          m.placementPath ≠ chainPath (inner ++ [ref.name.toList])

variable {m : MaterializationPlanNode}

theorem foundAt_eq_some {dir : List (List Char)} {k : Nat} : foundAt nodes name dir k = some m ↔ visible (dir.take k) ∧
      nodeAt nodes (String.ofList (candidate (dir.take k) name)) = some m := by
  rw [foundAt]
  split
  · next h => exact ⟨fun hm => ⟨h, hm⟩, And.right⟩
  · next h => exact iff_of_false (fun hm => by cases hm) (fun hm => h hm.1)

variable {outer : List (List Char)}

theorem take_outer (h : outer <+: c) :
    (chainSegments c).take (chainSegments outer).length = chainSegments outer := by
  obtain ⟨rest, rfl⟩ := h
  rw [chainSegments_append, List.take_left]

theorem length_segments_lt {inner : List (List Char)} (h : outer <+: inner) (hne : inner ≠ outer) :
    (chainSegments outer).length < (chainSegments inner).length := by
  obtain ⟨rest, rfl⟩ := h
  have hrest : rest ≠ [] := fun hnil => hne (by rw [hnil, List.append_nil])
  have := List.length_pos_of_ne_nil (chainSegments_ne_nil hrest)
  rw [chainSegments_append, List.length_append]
  omega

theorem take_segments (c : List (List Char)) (k : Nat) : (∀ s ∈ (chainSegments c).take k, '/' ∉ s) ∧
      ((chainSegments c).take k = [] ∨ ((chainSegments c).take k).head? = some nodeModules) := by
  refine ⟨fun s hs => chainSegments_slash s (List.mem_of_mem_take hs), ?_⟩
  cases c with
  | nil => exact .inl List.take_nil
  | cons n c =>
    cases k with
    | zero => exact .inl rfl
    | succ k => exact .inr rfl

theorem nodeAt_chain (hvalid : ValidPlan plan) :
    nodeAt plan.nodes (String.ofList (candidate (chainSegments c) name)) = some m ↔
      m ∈ plan.nodes ∧ m.placementPath = chainPath (c ++ [name]) := by
  rw [candidate_chain, nodeAt_iff hvalid.paths]

variable {ref : MaterializationPlanDependencyRef}

/-- **One edge**: Node finds its node exactly when nothing shadows it. -/
theorem edge_loads_iff (hvalid : ValidPlan plan) (hc : ValidChain c)
    (hne : c ≠ []) (houter : outer <+: c) (hname : npmPackageName ref.name.toList = true)
    (hpath : ref.placementPath = chainPath (outer ++ [ref.name.toList]))
    {target : MaterializationPlanNode} (hin : target ∈ plan.nodes)
    (htarget : target.placementPath = ref.placementPath) :
    nodeResolve plan.nodes (some (chainPath c)) ref.name = some target ↔
      visible (chainSegments outer) ∧ ∀ inner, outer <+: inner → inner ≠ outer → inner <+: c →
        visible (chainSegments inner) → ∀ m ∈ plan.nodes,
          m.placementPath ≠ chainPath (inner ++ [ref.name.toList]) := by
  have hat : nodeAt plan.nodes (String.ofList (candidate (chainSegments outer) ref.name.toList)) =
      some target := (nodeAt_chain hvalid).mpr ⟨hin, htarget.trans hpath⟩
  rw [nodeResolve, Option.elim_some, split_chainPath hne, countDown_eq]
  constructor
  · rintro ⟨j, hle, hfound, hnone⟩
    obtain ⟨hvisible, hfoundAt⟩ := foundAt_eq_some.mp hfound
    -- a path is found below one directory only
    have hdir : (chainSegments c).take j = chainSegments outer := by
      have hsame := (nodeAt_some hfoundAt).2.symm.trans (nodeAt_some hat).2
      obtain ⟨hslash, hhead⟩ := take_segments c j
      obtain ⟨hslash', hhead'⟩ := take_segments c (chainSegments outer).length
      rw [take_outer houter] at hslash' hhead'
      have hsplit := congrArg (Split.split '/') (String.ofList_injective hsame)
      rw [split_candidate hslash hhead, split_candidate hslash' hhead'] at hsplit
      exact List.append_cancel_right hsplit
    rw [hdir] at hvisible
    refine ⟨hvisible, fun inner hlonger hne' hinner hvisible' m hm hmpath => ?_⟩
    have hj : j < (chainSegments inner).length := by
      refine Nat.lt_of_le_of_lt ?_ (length_segments_lt hlonger hne')
      rw [← hdir, List.length_take, Nat.min_eq_left hle]
    have hk : (chainSegments inner).length ≤ (chainSegments c).length := by
      rw [← take_outer hinner]
      exact List.length_take_le' _ _
    have hfound' := hnone _ hj hk
    rw [foundAt, take_outer hinner, if_pos hvisible',
      (nodeAt_chain hvalid).mpr ⟨hm, hmpath⟩] at hfound'
    cases hfound'
  · rintro ⟨hvisible, hshadow⟩
    refine ⟨(chainSegments outer).length, ?_, foundAt_eq_some.mpr ?_, fun i hi hle => ?_⟩
    · rw [← take_outer houter]
      exact List.length_take_le' _ _
    · rw [take_outer houter]
      exact ⟨hvisible, hat⟩
    · by_contra hsome
      obtain ⟨m, hm⟩ := Option.ne_none_iff_exists'.mp hsome
      obtain ⟨hvisible', hm⟩ := foundAt_eq_some.mp hm
      rcases begins_take hc i with ⟨e, he, htake⟩ | hhidden | ⟨e, s, he, hs, htake⟩
      · rw [htake] at hvisible' hm
        have hlen := congrArg List.length htake
        rw [List.length_take, Nat.min_eq_left hle] at hlen
        obtain ⟨hmin, hmpath⟩ := (nodeAt_chain hvalid).mp hm
        have hlonger : outer <+: e := by
          rcases List.prefix_or_prefix_of_prefix houter he with h | h
          · exact h
          · have := take_outer h ▸ List.length_take_le' (chainSegments e).length (chainSegments outer)
            omega
        refine hshadow e hlonger ?_ he hvisible' m hmin hmpath
        rintro rfl
        omega
      · exact hhidden hvisible'
      · have hslash : '/' ∉ s := (take_segments c i).1 s (htake ▸ by simp)
        rw [htake, nodeAt_scope hvalid.nodes (fun n hn => hc n (he.subset hn)) hs hslash hname] at hm
        cases hm

/-! ## The plan -/

theorem root_loads (hvalid : ValidPlan plan)
    (href : ref ∈ plan.rootDependencies) : ∃ target ∈ plan.nodes,
      target.placementPath = ref.placementPath ∧ nodeResolve plan.nodes none ref.name = some target := by
  obtain ⟨⟨target, hin, htarget, _⟩, hcandidate⟩ := hvalid.rootEdges ref href
  have hat : nodeAt plan.nodes (String.ofList (candidate (chainSegments []) ref.name.toList)) =
      some target := (nodeAt_chain hvalid).mpr ⟨hin, htarget.trans (mem_candidates_root.mp hcandidate)⟩
  have hfound : foundAt plan.nodes ref.name.toList [] 0 = some target :=
    foundAt_eq_some.mpr ⟨by decide, hat⟩
  exact ⟨target, hin, htarget, hfound⟩

/-- **A plan means what Node loads exactly when no edge of it is shadowed.** -/
theorem plan_loads_iff {value : Json} (h : parseMaterializationPlan value = .ok plan) :
    LoadsAsDeclared plan ↔ Unshadowed plan := by
  have hvalid := (parseMaterializationPlan_ok.mp h).2
  constructor
  · rintro ⟨_, hloads⟩ n hn ref href chain outer hchain houter hpath hrefPath
    obtain ⟨target, hin, htarget, hresolve⟩ := hloads n hn ref href
    obtain ⟨_, hnames, _⟩ := (hvalid.nodes n hn).dependencies.endsIn ref href
    obtain ⟨_, _, hends⟩ := (hvalid.nodes n hn).endsIn
    have hne : chain ≠ [] := by
      rintro rfl
      exact chainPath_ne_empty (by simp) (hends.symm.trans hpath)
    rw [hpath] at hresolve
    exact (edge_loads_iff hvalid hchain hne houter (hnames _ (by simp)) hrefPath hin htarget).mp hresolve
  · intro hclear
    refine ⟨fun ref href => root_loads hvalid href, fun n hn ref href => ?_⟩
    obtain ⟨⟨target, hin, htarget, _⟩, hcandidate⟩ := hvalid.edges n hn ref href
    obtain ⟨_, hnames, _⟩ := (hvalid.nodes n hn).dependencies.endsIn ref href
    obtain ⟨above, hchain, hpath⟩ := (hvalid.nodes n hn).endsIn
    have hne : above ++ [n.name.toList] ≠ [] := by simp
    rw [hpath] at hcandidate ⊢
    obtain ⟨outer, houter, hrefPath⟩ := (mem_candidates_iff hne hchain).mp hcandidate
    exact ⟨target, hin, htarget, (edge_loads_iff hvalid hchain hne houter (hnames _ (by simp))
      hrefPath hin htarget).mpr (hclear n hn ref href _ outer hchain houter hpath hrefPath)⟩

theorem nestedPlan_loads : LoadsAsDeclared nestedPlan ∧ Unshadowed nestedPlan := by
  have hloads : LoadsAsDeclared nestedPlan := by
    unfold LoadsAsDeclared
    decide +kernel
  exact ⟨hloads, (plan_loads_iff nestedPlan_ok).mp hloads⟩

/-- The package `a` names the `b` beside it, and the `x` in it has a `b` of its own. -/
def shadowingPlan : MaterializationPlan where
  format := materializationPlanFormat
  package := ⟨"@acme/tool", "1.0.0"⟩
  rootDependencies := [⟨"a", "node_modules/a"⟩]
  nodes :=
    [⟨"a", "1.0.0", someIntegrity, "node_modules/a",
        [⟨"b", "node_modules/b"⟩, ⟨"x", "node_modules/a/node_modules/x"⟩]⟩,
      ⟨"b", "1.0.0", someIntegrity, "node_modules/b", []⟩,
      ⟨"b", "2.0.0", someIntegrity, "node_modules/a/node_modules/b", []⟩,
      ⟨"x", "1.0.0", someIntegrity, "node_modules/a/node_modules/x",
        [⟨"b", "node_modules/a/node_modules/b"⟩]⟩]

theorem shadowingPlan_valid : ValidPlan shadowingPlan :=
  validPlan_of_checks rfl (by decide +kernel) (by decide) (by decide +kernel) (by decide)
    (by decide +kernel) (by decide +kernel) (by decide +kernel) (by decide +kernel) (by decide +kernel)

theorem shadowingPlan_loads_other :
    parseMaterializationPlan (planJson shadowingPlan) = .ok shadowingPlan ∧
      (nodeResolve shadowingPlan.nodes (some "node_modules/a") "b").map
          MaterializationPlanNode.placementPath = some "node_modules/a/node_modules/b" ∧
        ¬ LoadsAsDeclared shadowingPlan := by
  have hother : (nodeResolve shadowingPlan.nodes (some "node_modules/a") "b").map
      MaterializationPlanNode.placementPath = some "node_modules/a/node_modules/b" := by decide +kernel
  refine ⟨parseMaterializationPlan_ok.mpr ⟨planJson_renders shadowingPlan, shadowingPlan_valid⟩,
    hother, fun hloads => ?_⟩
  obtain ⟨target, _, hpath, hresolve⟩ := hloads.2 _ (.head _) _ (.head _)
  rw [hresolve, Option.map_some, hpath] at hother
  exact absurd hother (by decide)

end ExtMatPlan
