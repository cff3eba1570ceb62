import Mathlib.Data.List.Perm.Subperm
import Cinatra.Extensions.PlanPaths

/-! # PlanAccepts — what a plan that is accepted is

    The parser reads a value field by field and checks as it goes.  Taken apart, that is
    two things: the value is a rendering of the plan, with its fields in any order
    (`PlanJson`), and the plan is sound (`ValidPlan`).  The parser accepts exactly these
    (`parseMaterializationPlan_ok`). -/

namespace ExtMatPlan

open JsonValue
open Loop

/-- A path of the grammar that ends in the name. -/
def EndsIn (placementPath name : String) : Prop :=
  ∃ outer, ValidChain (outer ++ [name.toList]) ∧ placementPath = chainPath (outer ++ [name.toList])

/-- References in the grammar, no two by one name. -/
structure ValidRefs (refs : List MaterializationPlanDependencyRef) : Prop where
  endsIn : ∀ ref ∈ refs, EndsIn ref.placementPath ref.name
  names : (refs.map MaterializationPlanDependencyRef.name).Nodup

structure ValidNode (n : MaterializationPlanNode) : Prop where
  endsIn : EndsIn n.placementPath n.name
  guest : n.name ∉ hostProvidedPackages
  version : exactVersion n.version.toList = true
  integrity : isStrictSha512Sri n.integrity.toList = true
  dependencies : ValidRefs n.dependencies

/-- An edge leads to a node of its name, placed where Node looks from the parent. -/
def ValidEdge (nodes : List MaterializationPlanNode) (parentPlacementPath : Option String)
    (ref : MaterializationPlanDependencyRef) : Prop :=
  (∃ target ∈ nodes, target.placementPath = ref.placementPath ∧ target.name = ref.name) ∧
    ref.placementPath ∈ nodeResolutionCandidates parentPlacementPath ref.name

structure ValidPlan (plan : MaterializationPlan) : Prop where
  format : plan.format = materializationPlanFormat
  package : npmPackageName plan.package.name.toList = true ∧
    exactVersion plan.package.version.toList = true
  count : plan.nodes.length ≤ maxPlanNodes
  nodes : ∀ n ∈ plan.nodes, ValidNode n
  paths : (plan.nodes.map MaterializationPlanNode.placementPath).Nodup
  roots : ValidRefs plan.rootDependencies
  rootEdges : ∀ ref ∈ plan.rootDependencies, ValidEdge plan.nodes none ref
  edges : ∀ n ∈ plan.nodes, ∀ ref ∈ n.dependencies, ValidEdge plan.nodes (some n.placementPath) ref
  reached : ∀ n ∈ plan.nodes, Worklist.Reached (nextPaths plan.nodes)
    (plan.rootDependencies.map MaterializationPlanDependencyRef.placementPath) n.placementPath
  size : (canonicalMaterializationPlanBytes plan).size ≤ maxPlanCanonicalBytes

/-! ## Renderings -/

/-- An object with exactly the fields, in any order. -/
def HasFields (v : Json) (expected : List (String × Json)) : Prop :=
  ∃ fields, v = .obj fields ∧ fields.Perm expected

def RefJson (v : Json) (ref : MaterializationPlanDependencyRef) : Prop :=
  HasFields v [("name", .str ref.name), ("placementPath", .str ref.placementPath)]

/-- A list of references in their order. -/
def RefsJson (v : Json) (refs : List MaterializationPlanDependencyRef) : Prop :=
  ∃ items, v = .arr items ∧ List.Forall₂ RefJson items refs

def NodeJson (v : Json) (n : MaterializationPlanNode) : Prop :=
  ∃ deps, RefsJson deps n.dependencies ∧
    HasFields v [("name", .str n.name), ("version", .str n.version), ("integrity", .str n.integrity),
      ("placementPath", .str n.placementPath), ("dependencies", deps)]

def PackageJson (v : Json) (p : PlanPackage) : Prop :=
  HasFields v [("name", .str p.name), ("version", .str p.version)]

def PlanJson (v : Json) (plan : MaterializationPlan) : Prop :=
  ∃ package roots items, PackageJson package plan.package ∧
    RefsJson roots plan.rootDependencies ∧ List.Forall₂ NodeJson items plan.nodes ∧
    HasFields v [("format", .str plan.format), ("package", package), ("rootDependencies", roots),
      ("nodes", .arr items)]

/-! ## Fields -/

theorem field?_of_perm {fields expected : List (String × Json)} (h : fields.Perm expected)
    (hkeys : (expected.map Prod.fst).Nodup) {k : String} {v : Json} (hin : (k, v) ∈ expected) :
    (Json.obj fields).field? k = some v := by
  have hnodup : (fields.map Prod.fst).Nodup := (h.map Prod.fst).nodup_iff.mpr hkeys
  have hmem : (k, v) ∈ fields := h.mem_iff.mpr hin
  have hsome : (fields.find? (fun f => f.1 = k)).isSome = true :=
    List.find?_isSome.mpr ⟨(k, v), hmem, decide_eq_true rfl⟩
  obtain ⟨f, hf⟩ := Option.isSome_iff_exists.mp hsome
  have hkey : f.1 = k := of_decide_eq_true (List.find?_some hf :)
  have hsame : f = (k, v) := List.inj_on_of_nodup_map hnodup (List.mem_of_find?_eq_some hf) hmem hkey
  rw [Json.field?, hf, hsame]
  rfl

variable {keys : List String}

/-- **The keys and the values of the fields** are the fields, where no key is there twice. -/
theorem perm_of_fields {fields expected : List (String × Json)}
    (hperm : (fields.map Prod.fst).Perm keys) (hexpected : expected.map Prod.fst = keys)
    (hkeys : keys.Nodup)
    (h : ∀ f ∈ expected, (Json.obj fields).field? f.1 = some f.2) : fields.Perm expected := by
  have hsub : expected ⊆ fields := by
    intro f hf
    have hfield := h f hf
    rw [Json.field?, Option.map_eq_some_iff] at hfield
    obtain ⟨g, hg, hval⟩ := hfield
    have hkey : g.1 = f.1 := of_decide_eq_true (List.find?_some hg :)
    rw [show f = g from Prod.ext hkey.symm hval.symm]
    exact List.mem_of_find?_eq_some hg
  have hlen : fields.length ≤ expected.length := by
    have := hperm.length_eq
    rw [← hexpected, List.length_map, List.length_map] at this
    exact this.le
  have hnodup : expected.Nodup := List.Nodup.of_map Prod.fst (hexpected ▸ hkeys)
  exact ((List.subperm_of_subset hnodup hsub).perm_of_length_le hlen).symm

variable {v : Option Json} {label : String}

theorem exactFields_ok {notObject : String} {w : Json} :
    exactFields v keys label notObject = .ok w ↔
      ∃ fields, v = some (.obj fields) ∧ (fields.map Prod.fst).Perm keys ∧ w = .obj fields := by
  constructor
  · intro h
    unfold exactFields at h
    split at h
    · next fields =>
        simp only at h
        split at h
        · next hsorted =>
            refine ⟨fields, rfl, ?_, (Except.ok.inj h).symm⟩
            exact (CodeUnits.jsSort_perm _).symm.trans (hsorted ▸ CodeUnits.jsSort_perm keys)
        · cases h
    · cases h
  · rintro ⟨fields, rfl, hperm, rfl⟩
    exact if_pos (CodeUnits.jsSort_eq_of_perm hperm)

variable {β : Type}

theorem demand_bind {holds : Prop} [Decidable holds] {message : String}
    {f : Unit → Except String β} {b : β} :
    (demand holds message >>= f) = .ok b ↔ holds ∧ f () = .ok b := by
  rw [bind_ok]
  constructor
  · rintro ⟨_, h, hf⟩
    exact ⟨demand_ok.mp h, hf⟩
  · rintro ⟨h, hf⟩
    exact ⟨(), demand_ok.mpr h, hf⟩

variable {s : String}

theorem requireString_ok : requireString v label = .ok s ↔ v = some (.str s) ∧ s ≠ "" := by
  cases v with
  | none => exact iff_of_false (fun h => by cases h) (fun h => by cases h.1)
  | some v =>
    cases v with
    | str t =>
      rw [requireString]
      simp only [Option.bind_some, Json.str?]
      by_cases ht : t = ""
      · rw [if_pos ht]
        refine iff_of_false (fun h => by cases h) (fun h => h.2 ?_)
        rw [← Json.str.inj (Option.some.inj h.1), ht]
      rw [if_neg ht]
      constructor
      · intro h
        obtain rfl := Except.ok.inj h
        exact ⟨rfl, ht⟩
      · rintro ⟨h, _⟩
        rw [Json.str.inj (Option.some.inj h)]
    | null | bool | num | arr | obj =>
      exact iff_of_false (fun h => by cases h) (fun h => by cases h.1)

variable {label : String}

theorem requireArray_ok {xs : List Json} : requireArray v label = .ok xs ↔ v = some (.arr xs) := by
  cases v with
  | none => exact iff_of_false (fun h => by cases h) (fun h => by cases h)
  | some v =>
    cases v with
    | arr ys =>
      constructor
      · intro h
        rw [show ys = xs from Except.ok.inj h]
      · intro h
        rw [Json.arr.inj (Option.some.inj h)]
        rfl
    | null | bool | num | str | obj =>
      exact iff_of_false (fun h => by cases h) (fun h => by cases h)

theorem ne_empty {p : List Char → Bool} (hp : p [] = false) (h : p s.toList = true) : s ≠ "" := by
  rintro rfl
  rw [show "".toList = [] from rfl, hp] at h
  cases h

theorem requireName_ok {name : String} :
    requireName v label = .ok name ↔ v = some (.str name) ∧ npmPackageName name.toList = true := by
  rw [requireName, bind_ok]
  simp only [requireString_ok, demand_bind, Except.ok.injEq]
  constructor
  · rintro ⟨_, ⟨hv, _⟩, hname, rfl⟩
    exact ⟨hv, hname⟩
  · rintro ⟨hv, hname⟩
    exact ⟨name, ⟨hv, ne_empty rfl hname⟩, hname, rfl⟩

theorem requireVersion_ok {version : String} : requireVersion v label = .ok version ↔
      v = some (.str version) ∧ exactVersion version.toList = true := by
  rw [requireVersion, bind_ok]
  simp only [requireString_ok, demand_bind, Except.ok.injEq]
  constructor
  · rintro ⟨_, ⟨hv, _⟩, hversion, rfl⟩
    exact ⟨hv, hversion⟩
  · rintro ⟨hv, hversion⟩
    exact ⟨version, ⟨hv, ne_empty rfl hversion⟩, hversion, rfl⟩

theorem chainPath_ne_empty {c : List (List Char)} (h : c ≠ []) : chainPath c ≠ "" := by
  intro hempty
  have hsplit := split_chainPath h
  rw [hempty] at hsplit
  obtain ⟨n, c, rfl⟩ := List.exists_cons_of_ne_nil h
  exact absurd (List.cons.inj hsplit).1 (by decide)

theorem requirePath_ok {name path : String} :
    requirePath v label name = .ok path ↔ v = some (.str path) ∧ EndsIn path name := by
  rw [requirePath, bind_ok]
  simp only [requireString_ok, bind_ok, Except.ok.injEq, parsePlacementPath_ok]
  constructor
  · rintro ⟨_, ⟨hv, _⟩, chain, ⟨hne, hvalid, hpath⟩, _, hlast, rfl⟩
    refine ⟨hv, chain.dropLast, ?_⟩
    have hchain : chain.dropLast ++ [name.toList] = chain :=
      List.dropLast_append_getLast? _ (demand_ok.mp hlast)
    rw [hchain]
    exact ⟨hvalid, hpath⟩
  · rintro ⟨hv, outer, hvalid, hpath⟩
    have hne : outer ++ [name.toList] ≠ [] := by simp
    exact ⟨path, ⟨hv, hpath ▸ chainPath_ne_empty hne⟩, outer ++ [name.toList],
      ⟨hne, hvalid, hpath⟩, (), demand_ok.mpr List.getLast?_concat, rfl⟩

/-! ## Items -/

/-- The labels are for messages: what the items come to does not depend on them. -/
theorem parseItems_ok {f : String → Json → Except String β} {R : Json → β → Prop}
    (hf : ∀ label v b, f label v = .ok b ↔ R v b) : ∀ (i : Nat) (vs : List Json)
    (bs : List β), parseItems f label i vs = .ok bs ↔ List.Forall₂ R vs bs := by
  intro i vs
  induction vs generalizing i with
  | nil =>
    intro bs
    rw [List.forall₂_nil_left_iff]
    constructor
    · intro h
      exact (Except.ok.inj h).symm
    · rintro rfl
      rfl
  | cons v vs ih =>
    intro bs
    rw [parseItems]
    simp only [bind_ok, hf, ih, Except.ok.injEq]
    constructor
    · rintro ⟨b, hb, rest, hrest, rfl⟩
      exact List.Forall₂.cons hb hrest
    · intro h
      obtain ⟨b, rest, hb, hrest, rfl⟩ := List.forall₂_cons_left_iff.mp h
      exact ⟨b, hb, rest, hrest, rfl⟩

theorem noRepeat_ok {message : String → String} (xs : List String) : ∀ seen : List String,
    noRepeat message seen xs = .ok () ↔ xs.Nodup ∧ ∀ x ∈ xs, x ∉ seen := by
  induction xs with
  | nil =>
    intro seen
    exact iff_of_true rfl ⟨List.nodup_nil, fun x hx => absurd hx List.not_mem_nil⟩
  | cons x xs ih =>
    intro seen
    rw [noRepeat]
    by_cases hx : x ∈ seen
    · rw [if_pos hx]
      exact iff_of_false (fun h => by cases h) (fun h => h.2 x (.head _) hx)
    rw [if_neg hx, ih, List.nodup_cons]
    rw [List.forall_mem_cons]
    simp only [List.mem_cons, not_or]
    constructor
    · rintro ⟨hnodup, hout⟩
      exact ⟨⟨fun hin => (hout x hin).1 rfl, hnodup⟩, hx, fun y hy => (hout y hy).2⟩
    · rintro ⟨⟨hin, hnodup⟩, _, hout⟩
      exact ⟨hnodup, fun y hy => ⟨fun heq => hin (heq ▸ hy), hout y hy⟩⟩

theorem parseDependencyRef_ok (label : String) (v : Json) (ref : MaterializationPlanDependencyRef) :
    parseDependencyRef label v = .ok ref ↔ RefJson v ref ∧ EndsIn ref.placementPath ref.name := by
  rw [parseDependencyRef, bind_ok]
  simp only [exactFields_ok, bind_ok, requireName_ok, requirePath_ok, Except.ok.injEq,
    Option.some.injEq]
  constructor
  · rintro ⟨_, ⟨fields, rfl, hkeys, rfl⟩, name, ⟨hname, _⟩, path, ⟨hpath, hends⟩, rfl⟩
    refine ⟨⟨fields, rfl, perm_of_fields hkeys rfl (by decide) ?_⟩, hends⟩
    simp only [List.forall_mem_cons, List.not_mem_nil, false_implies, implies_true, and_true]
    exact ⟨hname, hpath⟩
  · rintro ⟨⟨fields, rfl, hperm⟩, hends⟩
    obtain ⟨outer, hvalid, _⟩ := id hends
    have hkeys : ["name", "placementPath"].Nodup := by decide
    exact ⟨.obj fields, ⟨fields, rfl, hperm.map Prod.fst, rfl⟩, ref.name,
      ⟨field?_of_perm hperm hkeys (by simp), hvalid _ (by simp)⟩, ref.placementPath,
      ⟨field?_of_perm hperm hkeys (by simp), hends⟩, rfl⟩

theorem forall₂_and {α : Type} {R : α → β → Prop} {P : β → Prop} {xs : List α} {ys : List β} :
    List.Forall₂ (fun x y => R x y ∧ P y) xs ys ↔ List.Forall₂ R xs ys ∧ ∀ y ∈ ys, P y := by
  induction xs generalizing ys with
  | nil => simp +contextual [List.forall₂_nil_left_iff]
  | cons x xs ih =>
    cases ys with
    | nil => simp
    | cons y ys => simp only [List.forall₂_cons, ih, List.forall_mem_cons, and_and_and_comm]

variable {refs : List MaterializationPlanDependencyRef}

theorem parseDependencyRefList_ok : parseDependencyRefList label v = .ok refs ↔
      (∃ w, v = some w ∧ RefsJson w refs) ∧ ValidRefs refs := by
  rw [parseDependencyRefList]
  simp only [bind_ok, requireArray_ok, parseItems_ok parseDependencyRef_ok, Except.ok.injEq,
    forall₂_and]
  constructor
  · rintro ⟨items, rfl, refs, ⟨hitems, hends⟩, _, hnodup, rfl⟩
    exact ⟨⟨_, rfl, items, rfl, hitems⟩, hends, ((noRepeat_ok _ []).mp hnodup).1⟩
  · rintro ⟨⟨_, rfl, items, rfl, hitems⟩, hends, hnodup⟩
    exact ⟨items, rfl, refs, ⟨hitems, hends⟩, (),
      (noRepeat_ok _ []).mpr ⟨hnodup, fun x _ => List.not_mem_nil⟩, rfl⟩

theorem parseNode_ok (label : String) (v : Json) (n : MaterializationPlanNode) :
    parseNode label v = .ok n ↔ NodeJson v n ∧ ValidNode n := by
  rw [parseNode]
  simp only [bind_ok, exactFields_ok, requireName_ok, requireVersion_ok, requireString_ok,
    requirePath_ok, parseDependencyRefList_ok, Except.ok.injEq, Option.some.injEq]
  constructor
  · rintro ⟨_, ⟨fields, rfl, hkeys, rfl⟩, name, ⟨hname, _⟩, _, hguest, version,
      ⟨hversion, hexact⟩, integrity, ⟨hintegrity, _⟩, _, hsri, path, ⟨hpath, hends⟩, deps,
      ⟨⟨w, hdeps, hrefs⟩, hvalid⟩, rfl⟩
    refine ⟨⟨w, hrefs, fields, rfl, perm_of_fields hkeys rfl (by decide) ?_⟩, hends,
      demand_ok.mp hguest, hexact, demand_ok.mp hsri, hvalid⟩
    simp only [List.forall_mem_cons, List.not_mem_nil, false_implies, implies_true, and_true]
    exact ⟨hname, hversion, hintegrity, hpath, hdeps⟩
  · rintro ⟨⟨w, hrefs, fields, rfl, hperm⟩, hends, hguest, hexact, hsri, hvalid⟩
    obtain ⟨outer, hchain, _⟩ := id hends
    have hkeys : ["name", "version", "integrity", "placementPath", "dependencies"].Nodup := by decide
    exact ⟨.obj fields, ⟨fields, rfl, hperm.map Prod.fst, rfl⟩, n.name,
      ⟨field?_of_perm hperm hkeys (by simp), hchain _ (by simp)⟩, (), demand_ok.mpr hguest,
      n.version, ⟨field?_of_perm hperm hkeys (by simp), hexact⟩, n.integrity,
      ⟨field?_of_perm hperm hkeys (by simp), ne_empty rfl hsri⟩, (), demand_ok.mpr hsri,
      n.placementPath, ⟨field?_of_perm hperm hkeys (by simp), hends⟩, n.dependencies,
      ⟨⟨w, field?_of_perm hperm hkeys (by simp), hrefs⟩, hvalid⟩, rfl⟩

/-! ## Edges and reachability -/

variable {nodes : List MaterializationPlanNode} {n : MaterializationPlanNode} {path : String}

theorem nodeAt_some (h : nodeAt nodes path = some n) : n ∈ nodes ∧ n.placementPath = path :=
  ⟨List.mem_of_find?_eq_some h, of_decide_eq_true (List.find?_some h :)⟩

theorem nodeAt_iff
    (hpaths : (nodes.map MaterializationPlanNode.placementPath).Nodup) : nodeAt nodes path = some
    n ↔ n ∈ nodes ∧ n.placementPath = path := by
  refine ⟨nodeAt_some, ?_⟩
  rintro ⟨hin, rfl⟩
  have hsome : (nodeAt nodes n.placementPath).isSome = true :=
    List.find?_isSome.mpr ⟨n, hin, decide_eq_true rfl⟩
  obtain ⟨m, hm⟩ := Option.isSome_iff_exists.mp hsome
  obtain ⟨hmin, hpath⟩ := nodeAt_some hm
  rw [hm, List.inj_on_of_nodup_map hpaths hmin hin hpath]

variable {parent : Option String}

theorem validateEdge_ok (hpaths : (nodes.map MaterializationPlanNode.placementPath).Nodup)
    {ref : MaterializationPlanDependencyRef} :
    validateEdge nodes parent label ref = .ok () ↔ ValidEdge nodes parent ref := by
  unfold validateEdge
  cases hat : nodeAt nodes ref.placementPath with
  | none =>
    refine iff_of_false (fun h => by cases h) ?_
    rintro ⟨⟨target, hin, hpath, _⟩, _⟩
    rw [(nodeAt_iff hpaths).mpr ⟨hin, hpath⟩] at hat
    cases hat
  | some target =>
    obtain ⟨hin, hpath⟩ := nodeAt_some hat
    simp only [demand_bind, demand_ok]
    constructor
    · rintro ⟨hname, hcandidate⟩
      exact ⟨⟨target, hin, hpath, hname⟩, hcandidate⟩
    · rintro ⟨⟨other, hother, hotherPath, hname⟩, hcandidate⟩
      rw [List.inj_on_of_nodup_map hpaths hin hother (hpath.trans hotherPath.symm)]
      exact ⟨hname, hcandidate⟩

theorem validateEdges_ok (hpaths : (nodes.map MaterializationPlanNode.placementPath).Nodup) :
    validateEdges nodes parent label refs = .ok () ↔ ∀ ref ∈ refs, ValidEdge nodes parent ref := by
  rw [validateEdges, forM_ok]
  exact forall₂_congr (fun ref _ => validateEdge_ok hpaths)

theorem nextPaths_ne_nil
    (h : nextPaths nodes path ≠ []) : path ∈ nodes.map MaterializationPlanNode.placementPath := by
  rw [nextPaths] at h
  cases hat : nodeAt nodes path with
  | none =>
    rw [hat] at h
    exact absurd rfl h
  | some n =>
    obtain ⟨hin, rfl⟩ := nodeAt_some hat
    exact List.mem_map_of_mem hin

theorem nextPaths_of_mem
    (hpaths : (nodes.map MaterializationPlanNode.placementPath).Nodup) (hn : n ∈ nodes) : nextPaths
    nodes n.placementPath = n.dependencies.map MaterializationPlanDependencyRef.placementPath := by
  rw [nextPaths, (nodeAt_iff hpaths).mpr ⟨hn, rfl⟩]
  rfl

theorem turns_enough {next : String → List String}
    (hnext : ∀ n ∈ nodes, (next n.placementPath).length = n.dependencies.length) : ∀ k,
    k + DepthFirst.weight (fun a => (next a).length) []
        (nodes.map MaterializationPlanNode.placementPath) =
      nodes.foldl (fun k n => k + n.dependencies.length) k := by
  induction nodes with
  | nil => exact fun k => rfl
  | cons n nodes ih =>
    intro k
    obtain ⟨hn, hrest⟩ := List.forall_mem_cons.mp hnext
    rw [List.foldl_cons, ← ih hrest, List.map_cons, DepthFirst.weight,
      if_neg List.not_mem_nil, hn, Nat.add_assoc]

/-- **The queue finds what the roots reach**, no more and no less. -/
theorem mem_reachablePaths (hpaths : (nodes.map MaterializationPlanNode.placementPath).Nodup)
    {roots : List MaterializationPlanDependencyRef} :
    path ∈ reachablePaths nodes roots ↔ Worklist.Reached (nextPaths nodes)
      (roots.map MaterializationPlanDependencyRef.placementPath) path := by
  refine Worklist.mem_loop_iff (fun a => nextPaths_ne_nil) (le_of_eq ?_)
  rw [List.length_map, turnsFor]
  refine turns_enough (fun n hn => ?_) _
  rw [nextPaths_of_mem hpaths hn, List.length_map]

variable {plan : MaterializationPlan}

/-- **What the parser accepts**: the renderings of sound plans. -/
theorem parseMaterializationPlan_ok {v : Json} :
    parseMaterializationPlan v = .ok plan ↔ PlanJson v plan ∧ ValidPlan plan := by
  rw [parseMaterializationPlan]
  simp only [bind_ok, exactFields_ok, requireName_ok, requireVersion_ok, requireArray_ok,
    parseItems_ok parseNode_ok, parseDependencyRefList_ok, Except.ok.injEq, Option.some.injEq,
    forall₂_and]
  constructor
  · rintro ⟨_, ⟨fields, rfl, hkeys, rfl⟩, _, hformat, _, ⟨pkgFields, hpackage, hpkgKeys, rfl⟩,
      pkgName, ⟨hname, hnameOk⟩, pkgVersion, ⟨hversion, hversionOk⟩, items, hitems, _, hcount, nodes,
      ⟨hnodes, hvalid⟩, _, hrepeat, roots, ⟨⟨rootsJson, hroots, hrootsJson⟩, hrefs⟩, _, hrootEdges, _,
      hedges, _, hreached, _, hsize, rfl⟩
    have hpaths := ((noRepeat_ok _ []).mp hrepeat).1
    have hpkg : PackageJson (.obj pkgFields) ⟨pkgName, pkgVersion⟩ := by
      refine ⟨pkgFields, rfl, perm_of_fields hpkgKeys rfl (by decide) ?_⟩
      simp only [List.forall_mem_cons, List.not_mem_nil, false_implies, implies_true, and_true]
      exact ⟨hname, hversion⟩
    refine ⟨⟨_, rootsJson, items, hpkg, hrootsJson, hnodes, fields, rfl,
      perm_of_fields hkeys rfl (by decide) ?_⟩, rfl, ⟨hnameOk, hversionOk⟩, ?_, hvalid, hpaths, hrefs,
      (validateEdges_ok hpaths).mp hrootEdges,
      fun n hn => (validateEdges_ok hpaths).mp (forM_ok.mp hedges n hn),
      fun n hn => (mem_reachablePaths hpaths).mp (demand_ok.mp (forM_ok.mp hreached n hn)),
      demand_ok.mp hsize⟩
    · simp only [List.forall_mem_cons, List.not_mem_nil, false_implies, implies_true, and_true]
      exact ⟨demand_ok.mp hformat, hpackage, hroots, hitems⟩
    · rw [← hnodes.length_eq]
      exact demand_ok.mp hcount
  · rintro ⟨⟨_, rootsJson, items, ⟨pkgFields, rfl, hpkg⟩, hrootsJson, hnodes, fields, rfl, hperm⟩,
      hvalid⟩
    have hkeys : ["format", "package", "rootDependencies", "nodes"].Nodup := by decide
    have hpkgKeys : ["name", "version"].Nodup := by decide
    obtain ⟨format, package, roots, nodes⟩ := plan
    obtain rfl : format = materializationPlanFormat := hvalid.format
    refine ⟨.obj fields, ⟨fields, rfl, hperm.map Prod.fst, rfl⟩, (),
      demand_ok.mpr (field?_of_perm hperm hkeys (by simp)), .obj pkgFields,
      ⟨pkgFields, field?_of_perm hperm hkeys (by simp), hpkg.map Prod.fst, rfl⟩, package.name,
      ⟨field?_of_perm hpkg hpkgKeys (by simp), hvalid.package.1⟩, package.version,
      ⟨field?_of_perm hpkg hpkgKeys (by simp), hvalid.package.2⟩, items,
      field?_of_perm hperm hkeys (by simp), (), demand_ok.mpr ?_, nodes, ⟨hnodes, hvalid.nodes⟩, (),
      (noRepeat_ok _ []).mpr ⟨hvalid.paths, fun x _ => List.not_mem_nil⟩, roots,
      ⟨⟨rootsJson, field?_of_perm hperm hkeys (by simp), hrootsJson⟩, hvalid.roots⟩, (),
      (validateEdges_ok hvalid.paths).mpr hvalid.rootEdges, (),
      forM_ok.mpr (fun n hn => (validateEdges_ok hvalid.paths).mpr (hvalid.edges n hn)), (),
      forM_ok.mpr (fun n hn => demand_ok.mpr ((mem_reachablePaths hvalid.paths).mpr
        (hvalid.reached n hn))), (), demand_ok.mpr hvalid.size, rfl⟩
    rw [hnodes.length_eq]
    exact hvalid.count

/-! ## A plan is rendered by its own object -/

theorem refsJson_renders (refs : List MaterializationPlanDependencyRef) :
    RefsJson (.arr (refs.map refJson)) refs := by
  refine ⟨_, rfl, List.forall₂_map_left_iff.mpr (List.forall₂_same.mpr fun ref _ => ?_)⟩
  exact ⟨_, rfl, List.Perm.refl _⟩

theorem nodeJson_renders (n : MaterializationPlanNode) : NodeJson (nodeJson n) n := by
  have hkeys : ["dependencies", "integrity", "name", "placementPath", "version"].Perm
      ["name", "version", "integrity", "placementPath", "dependencies"] := by decide
  refine ⟨_, refsJson_renders n.dependencies, _, rfl, perm_of_fields hkeys rfl (by decide) ?_⟩
  simp only [List.forall_mem_cons, List.not_mem_nil, false_implies, implies_true, and_true]
  exact ⟨rfl, rfl, rfl, rfl, rfl⟩

/-- **A plan is rendered by the object that is signed for it.** -/
theorem planJson_renders (plan : MaterializationPlan) : PlanJson (planJson plan) plan := by
  have hkeys : ["format", "nodes", "package", "rootDependencies"].Perm
      ["format", "package", "rootDependencies", "nodes"] := by decide
  refine ⟨_, _, _, ⟨_, rfl, List.Perm.refl _⟩, refsJson_renders plan.rootDependencies,
    List.forall₂_map_left_iff.mpr (List.forall₂_same.mpr fun n _ => nodeJson_renders n), _, rfl,
    perm_of_fields hkeys rfl (by decide) ?_⟩
  simp only [List.forall_mem_cons, List.not_mem_nil, false_implies, implies_true, and_true]
  exact ⟨rfl, rfl, rfl, rfl⟩

theorem encode_size_le (text : List Char) : (encode text).size ≤ 4 * text.length := by
  have hsize : (encode text).size = text.utf8Encode.size := by
    rw [encode, String.toUTF8_eq_toByteArray, String.toByteArray_ofList]
  rw [hsize]
  clear hsize
  induction text with
  | nil => rw [List.utf8Encode_nil]; exact Nat.le_refl 0
  | cons c text ih =>
    have hone := Char.utf8Size_le_four c
    rw [List.utf8Encode_cons, ByteArray.size_append, List.utf8Encode_singleton,
      List.size_toByteArray, String.length_utf8EncodeChar, List.length_cons]
    omega

/-- A hash in the grammar. -/
def someIntegrity : String := "sha512-" ++ String.ofList (List.replicate 86 'A') ++ "=="

def innerNode : MaterializationPlanNode :=
  ⟨"b", "2.0.0", someIntegrity, "node_modules/a/node_modules/b", []⟩

def outerNode : MaterializationPlanNode :=
  ⟨"a", "1.0.0", someIntegrity, "node_modules/a", [⟨"b", "node_modules/a/node_modules/b"⟩]⟩

/-- A package with another one in it, sent before it. -/
def nestedPlan : MaterializationPlan where
  format := materializationPlanFormat
  package := ⟨"@acme/tool", "1.0.0"⟩
  rootDependencies := [⟨"a", "node_modules/a"⟩]
  nodes := [innerNode, outerNode]

/-- A plan whose own rendering is read back piece by piece is sound. -/
theorem validPlan_of_checks (hformat : plan.format = materializationPlanFormat)
    (hpackage : npmPackageName plan.package.name.toList = true ∧
      exactVersion plan.package.version.toList = true) (hcount : plan.nodes.length ≤ maxPlanNodes)
    (hnodes : ∀ n ∈ plan.nodes, parseNode "" (nodeJson n) = .ok n)
    (hpaths : (plan.nodes.map MaterializationPlanNode.placementPath).Nodup)
    (hroots : parseDependencyRefList "" (some (.arr (plan.rootDependencies.map refJson))) =
      .ok plan.rootDependencies)
    (hedge : validateEdges plan.nodes none "" plan.rootDependencies = .ok ())
    (hedges : ∀ n ∈ plan.nodes,
      validateEdges plan.nodes (some n.placementPath) "" n.dependencies = .ok ())
    (hreached : ∀ n ∈ plan.nodes, n.placementPath ∈ reachablePaths plan.nodes plan.rootDependencies)
    (hlength : (print (planJson (canonicalPlan plan))).length ≤ 4096) : ValidPlan plan := by
  refine ⟨hformat, hpackage, hcount, fun n hn => ((parseNode_ok _ _ _).mp (hnodes n hn)).2, hpaths,
    (parseDependencyRefList_ok.mp hroots).2, (validateEdges_ok hpaths).mp hedge,
    fun n hn => (validateEdges_ok hpaths).mp (hedges n hn),
    fun n hn => (mem_reachablePaths hpaths).mp (hreached n hn), ?_⟩
  refine (encode_size_le _).trans ?_
  rw [maxPlanCanonicalBytes]
  omega

theorem nestedPlan_valid : ValidPlan nestedPlan :=
  validPlan_of_checks rfl (by decide +kernel) (by decide) (by decide +kernel) (by decide)
    (by decide +kernel) (by decide +kernel) (by decide +kernel) (by decide +kernel) (by decide +kernel)

theorem nestedPlan_ok : parseMaterializationPlan (planJson nestedPlan) = .ok nestedPlan :=
  parseMaterializationPlan_ok.mpr ⟨planJson_renders nestedPlan, nestedPlan_valid⟩

end ExtMatPlan
