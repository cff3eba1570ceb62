import Mathlib.Data.Multiset.Defs
import Cinatra.Lib.Records
import Cinatra.Extensions.PlanAccepts

/-! # PlanBytes — the canonical bytes are the plan without its order

    A plan up to order is its fields with the lists as multisets (`unordered`).  Values
    that differ in order alone are accepted alike, as one plan up to order, and on sound
    plans the canonical bytes say just that (`canonical_eq`, `SamePlan.of_bytes`). -/

namespace ExtMatPlan

open JsonValue
open CodeUnits

/-- A node, its edges in no order. -/
def unorderedNode (n : MaterializationPlanNode) :
    String × String × String × String × Multiset MaterializationPlanDependencyRef :=
  (n.name, n.version, n.integrity, n.placementPath, n.dependencies)

/-- Equal up to the order of nodes and edges. -/
structure SamePlan (p q : MaterializationPlan) : Prop where
  format : p.format = q.format
  package : p.package = q.package
  roots : p.rootDependencies.Perm q.rootDependencies
  nodes : (p.nodes.map unorderedNode).Perm (q.nodes.map unorderedNode)

variable {p q plan : MaterializationPlan} {n m : MaterializationPlanNode}

theorem SamePlan.symm (h : SamePlan p q) : SamePlan q p :=
  ⟨h.format.symm, h.package.symm, h.roots.symm, h.nodes.symm⟩

theorem SamePlan.trans {r : MaterializationPlan} (h : SamePlan p q) (h' : SamePlan q r) :
    SamePlan p r :=
  ⟨h.format.trans h'.format, h.package.trans h'.package, h.roots.trans h'.roots,
    h.nodes.trans h'.nodes⟩

theorem unorderedNode_eq : unorderedNode n = unorderedNode m ↔ n.name = m.name ∧
    n.version = m.version ∧ n.integrity = m.integrity ∧ n.placementPath = m.placementPath ∧
      n.dependencies.Perm m.dependencies := by
  simp only [unorderedNode, Prod.mk.injEq, Multiset.coe_eq_coe]

theorem SamePlan.node (h : SamePlan p q) (hn : n ∈ q.nodes) :
    ∃ m ∈ p.nodes, unorderedNode m = unorderedNode n :=
  List.mem_map.mp (h.nodes.mem_iff.mpr (List.mem_map_of_mem hn))

theorem SamePlan.paths (h : SamePlan p q) : (p.nodes.map MaterializationPlanNode.placementPath).Perm
    (q.nodes.map MaterializationPlanNode.placementPath) := by
  have hpaths := h.nodes.map (fun u => u.2.2.2.1)
  rw [List.map_map, List.map_map] at hpaths
  exact hpaths

theorem unordered_canonicalNode (n : MaterializationPlanNode) :
    unorderedNode (canonicalNode n) = unorderedNode n :=
  unorderedNode_eq.mpr ⟨rfl, rfl, rfl, rfl, sortBy_perm _ _⟩

/-- Nodes that differ in order only are written alike. -/
theorem canonicalNode_eq (h : unorderedNode n = unorderedNode m) (hn : ValidRefs n.dependencies) :
    canonicalNode n = canonicalNode m := by
  obtain ⟨hname, hversion, hintegrity, hpath, hdeps⟩ := unorderedNode_eq.mp h
  rw [canonicalNode, canonicalNode, canonicalRefs, canonicalRefs, sortBy_eq hdeps (List.inj_on_of_nodup_map hn.names)]
  obtain ⟨_, _, _, _, _⟩ := n
  obtain ⟨_, _, _, _, _⟩ := m
  cases hname
  cases hversion
  cases hintegrity
  cases hpath
  rfl

/-- Canonicalising changes the order only. -/
theorem samePlan_canonical (plan : MaterializationPlan) : SamePlan (canonicalPlan plan) plan := by
  refine ⟨rfl, rfl, sortBy_perm _ _, ?_⟩
  show (((sortBy _ plan.nodes).map canonicalNode).map unorderedNode).Perm _
  rw [List.map_map, show unorderedNode ∘ canonicalNode = unorderedNode from
    funext unordered_canonicalNode]
  exact (sortBy_perm _ _).map unorderedNode

theorem canonicalPlan_sorted (plan : MaterializationPlan) : (canonicalPlan plan).nodes.Pairwise
    (fun a b => units a.placementPath ≤ units b.placementPath) :=
  List.pairwise_map.mpr (sortBy_sorted MaterializationPlanNode.placementPath plan.nodes)

/-- **Sound plans that are equal up to order have one canonical form.** -/
theorem canonical_eq (hp : ValidPlan p) (h : SamePlan p q) : canonicalPlan p = canonicalPlan q := by
  have hsame := (samePlan_canonical p).trans (h.trans (samePlan_canonical q).symm)
  have hpaths := (samePlan_canonical p).paths.nodup_iff.mpr hp.paths
  -- a canonical node of either is one of the other, and no path is there twice
  have hmem : ∀ n, n ∈ (canonicalPlan p).nodes ↔ n ∈ (canonicalPlan q).nodes := by
    have hnode : ∀ a ∈ p.nodes, ∀ b ∈ q.nodes, unorderedNode a = unorderedNode b →
        canonicalNode a = canonicalNode b :=
      fun a ha b _ hab => canonicalNode_eq hab (hp.nodes a ha).dependencies
    intro n
    simp only [canonicalPlan, List.mem_map, (sortBy_perm _ _).mem_iff]
    constructor
    · rintro ⟨a, ha, rfl⟩
      obtain ⟨b, hb, hab⟩ := h.symm.node ha
      exact ⟨b, hb, (hnode a ha b hb hab.symm).symm⟩
    · rintro ⟨b, hb, rfl⟩
      obtain ⟨a, ha, hab⟩ := h.node hb
      exact ⟨a, ha, hnode a ha b hb hab⟩
  have hperm : (canonicalPlan p).nodes.Perm (canonicalPlan q).nodes :=
    (List.perm_ext_iff_of_nodup hpaths.of_map (hsame.paths.nodup_iff.mp hpaths).of_map).mpr hmem
  have hnodes := eq_of_sorted hperm
    (List.inj_on_of_nodup_map (hsame.paths.nodup_iff.mp hpaths)) (canonicalPlan_sorted p)
    (canonicalPlan_sorted q)
  have hroots : canonicalRefs p.rootDependencies = canonicalRefs q.rootDependencies :=
    sortBy_eq h.roots (List.inj_on_of_nodup_map hp.roots.names)
  obtain ⟨hformat, hpackage, _, _⟩ := h
  simp only [canonicalPlan] at hnodes ⊢
  rw [hnodes, hroots, hformat, hpackage]

/-! ## Soundness up to order -/

theorem ValidRefs.perm {refs refs' : List MaterializationPlanDependencyRef} (h : ValidRefs refs)
    (hperm : refs.Perm refs') : ValidRefs refs' :=
  ⟨fun ref href => h.endsIn ref (hperm.mem_iff.mpr href), (hperm.map _).nodup_iff.mp h.names⟩

theorem ValidNode.same (h : ValidNode m) (hsame : unorderedNode m = unorderedNode n) :
    ValidNode n := by
  obtain ⟨hname, hversion, hintegrity, hpath, hdeps⟩ := unorderedNode_eq.mp hsame
  refine ⟨?_, ?_, ?_, ?_, h.dependencies.perm hdeps⟩
  · rw [← hpath, ← hname]
    exact h.endsIn
  · rw [← hname]
    exact h.guest
  · rw [← hversion]
    exact h.version
  · rw [← hintegrity]
    exact h.integrity

variable {ref : MaterializationPlanDependencyRef}

theorem ValidEdge.same (hs : SamePlan p q) {parent : Option String}
    (h : ValidEdge p.nodes parent ref) : ValidEdge q.nodes parent ref := by
  obtain ⟨⟨target, htarget, hpath, hname⟩, hcandidate⟩ := h
  obtain ⟨other, hother, hsame⟩ := hs.symm.node htarget
  obtain ⟨hname', _, _, hpath', _⟩ := unorderedNode_eq.mp hsame
  exact ⟨⟨other, hother, hpath'.trans hpath, hname'.trans hname⟩, hcandidate⟩

/-- The placement paths do not depend on the order. -/
theorem nextPaths_same (hs : SamePlan p q)
    (hp : (p.nodes.map MaterializationPlanNode.placementPath).Nodup) {path next : String}
    (h : next ∈ nextPaths p.nodes path) : next ∈ nextPaths q.nodes path := by
  obtain ⟨n, hn, rfl⟩ := List.mem_map.mp (nextPaths_ne_nil (List.ne_nil_of_mem h))
  obtain ⟨m, hm, hsame⟩ := hs.symm.node hn
  obtain ⟨_, _, _, hpath, hdeps⟩ := unorderedNode_eq.mp hsame
  rw [nextPaths_of_mem hp hn] at h
  rw [← hpath, nextPaths_of_mem (hs.paths.nodup_iff.mp hp) hm]
  exact (hdeps.map _).mem_iff.mpr h

/-- **What is equal to a sound plan up to order is sound.** -/
theorem SamePlan.valid (hs : SamePlan p q) (h : ValidPlan p) : ValidPlan q where
  format := hs.format.symm.trans h.format
  package := hs.package ▸ h.package
  count := by
    rw [← List.length_map unorderedNode, ← hs.nodes.length_eq, List.length_map]
    exact h.count
  nodes := fun n hn => by
    obtain ⟨m, hm, hsame⟩ := hs.node hn
    exact (h.nodes m hm).same hsame
  paths := hs.paths.nodup_iff.mp h.paths
  roots := h.roots.perm hs.roots
  rootEdges := fun ref href => (h.rootEdges ref (hs.roots.mem_iff.mpr href)).same hs
  edges := fun n hn ref href => by
    obtain ⟨m, hm, hsame⟩ := hs.node hn
    obtain ⟨_, _, _, hpath, hdeps⟩ := unorderedNode_eq.mp hsame
    rw [← hpath]
    exact (h.edges m hm ref (hdeps.mem_iff.mpr href)).same hs
  reached := fun n hn => by
    obtain ⟨m, hm, hsame⟩ := hs.node hn
    obtain ⟨_, _, _, hpath, _⟩ := unorderedNode_eq.mp hsame
    obtain ⟨r, hr, hreach⟩ := h.reached m hm
    rw [← hpath]
    exact ⟨r, (hs.roots.map _).mem_iff.mp hr,
      Relation.ReflTransGen.mono (fun _ _ hb => nextPaths_same hs h.paths hb) _ _ hreach⟩
  size := by
    rw [canonicalMaterializationPlanBytes, ← canonical_eq h hs]
    exact h.size

/-! ## Values up to order -/

mutual
/-- The items of arrays and the fields of objects in another order, at any depth. -/
inductive Reordered : Json → Json → Prop
  | same (v : Json) : Reordered v v
  | arr {xs ys zs : List Json} : List.Forall₂ Reordered xs ys → ys.Perm zs →
      Reordered (.arr xs) (.arr zs)
  | obj {fs gs hs : List (String × Json)} : List.Forall₂ ReorderedField fs gs → gs.Perm hs →
      Reordered (.obj fs) (.obj hs)

/-- The same of one field. -/
inductive ReorderedField : String × Json → String × Json → Prop
  | mk (k : String) {v w : Json} : Reordered v w → ReorderedField (k, v) (k, w)
end

variable {xs : List Json}

theorem reordered_arr {w : Json} (h : Reordered (.arr xs) w) :
    ∃ ys zs, w = .arr zs ∧ List.Forall₂ Reordered xs ys ∧ ys.Perm zs := by
  cases h with
  | same => exact ⟨xs, xs, rfl, List.forall₂_same.mpr (fun x _ => .same x), List.Perm.refl _⟩
  | arr hall hperm => exact ⟨_, _, rfl, hall, hperm⟩

variable {v w : Json}

theorem HasFields.reordered {expected : List (String × Json)}
    (h : HasFields v expected) (hw : Reordered v w) :
    ∃ expected', HasFields w expected' ∧ List.Forall₂ ReorderedField expected expected' := by
  obtain ⟨fields, rfl, hperm⟩ := h
  cases hw with
  | same => exact ⟨expected, ⟨fields, rfl, hperm⟩, List.forall₂_same.mpr (fun f _ => ⟨f.1, .same f.2⟩)⟩
  | obj hall hgs =>
    obtain ⟨expected', hexpected, hperm'⟩ := List.perm_comp_forall₂ hperm.symm hall
    exact ⟨expected', ⟨_, rfl, (hperm'.trans hgs).symm⟩, hexpected⟩

theorem ReorderedField.of_str {k s : String} {f : String × Json}
    (h : ReorderedField (k, .str s) f) : f = (k, .str s) := by
  obtain ⟨_, hw⟩ := h
  cases hw
  rfl

/-- What is read as a reference is so in any order. -/
theorem RefJson.reordered (h : RefJson v ref) (hw : Reordered v w) : RefJson w ref := by
  obtain ⟨expected, hfields, hall⟩ := HasFields.reordered h hw
  obtain _ | ⟨hname, _ | ⟨hpath, _ | _⟩⟩ := hall
  rw [hname.of_str, hpath.of_str] at hfields
  exact hfields

/-- Items that render a list render it, permuted, when they are reordered. -/
theorem forall₂_reordered {R : Json → β → Prop} {E : β → β → Prop}
    (hR : ∀ {v w b}, R v b → Reordered v w → ∃ b', R w b' ∧ E b b') :
    ∀ {ys : List Json} {bs : List β}, List.Forall₂ R xs bs → List.Forall₂ Reordered xs ys →
      ∃ bs', List.Forall₂ R ys bs' ∧ List.Forall₂ E bs bs' := by
  induction xs with
  | nil =>
    intro ys bs hbs hys
    obtain rfl := List.forall₂_nil_left_iff.mp hbs
    obtain rfl := List.forall₂_nil_left_iff.mp hys
    exact ⟨[], .nil, .nil⟩
  | cons x xs ih =>
    intro ys bs hbs hys
    obtain _ | ⟨hb, hbs⟩ := hbs
    obtain _ | ⟨hy, hys⟩ := hys
    obtain ⟨b', hb', hE⟩ := hR hb hy
    obtain ⟨bs', hbs', hEs⟩ := ih hbs hys
    exact ⟨b' :: bs', .cons hb' hbs', .cons hE hEs⟩

theorem RefsJson.reordered {refs : List MaterializationPlanDependencyRef}
    (h : RefsJson v refs) (hw : Reordered v w) : ∃ refs', RefsJson w refs' ∧ refs.Perm refs' := by
  obtain ⟨items, rfl, hitems⟩ := h
  obtain ⟨ys, zs, rfl, hys, hzs⟩ := reordered_arr hw
  obtain ⟨refs₁, hrefs₁, hsame⟩ := forall₂_reordered (E := Eq)
    (fun hb hvw => ⟨_, RefJson.reordered hb hvw, rfl⟩) hitems hys
  obtain rfl := List.forall₂_eq_eq_eq ▸ hsame
  obtain ⟨refs', hrefs', hperm⟩ := List.perm_comp_forall₂ hzs.symm hrefs₁
  exact ⟨refs', ⟨zs, rfl, hrefs'⟩, hperm.symm⟩

theorem NodeJson.reordered (h : NodeJson v n) (hw : Reordered v w) :
    ∃ m, NodeJson w m ∧ unorderedNode n = unorderedNode m := by
  obtain ⟨deps, hdeps, hfields⟩ := h
  obtain ⟨expected, hfields, hall⟩ := hfields.reordered hw
  obtain _ | ⟨hname, _ | ⟨hversion, _ | ⟨hintegrity, _ | ⟨hpath, _ | ⟨⟨_, hmoved⟩, _ | _⟩⟩⟩⟩⟩ := hall
  obtain ⟨deps', hdeps', hperm⟩ := hdeps.reordered hmoved
  rw [hname.of_str, hversion.of_str, hintegrity.of_str, hpath.of_str] at hfields
  exact ⟨{ n with dependencies := deps' }, ⟨_, hdeps', hfields⟩,
    unorderedNode_eq.mpr ⟨rfl, rfl, rfl, rfl, hperm⟩⟩

/-- A plan is read alike from any order of its fields. -/
theorem PlanJson.reordered (h : PlanJson v plan) (hw : Reordered v w) :
    ∃ plan', PlanJson w plan' ∧ SamePlan plan plan' := by
  obtain ⟨package, roots, items, hpackage, hroots, hitems, hfields⟩ := h
  obtain ⟨expected, hfields, hall⟩ := hfields.reordered hw
  obtain _ | ⟨hformat, _ | ⟨⟨_, hpackageMoved⟩, _ | ⟨⟨_, hrootsMoved⟩, _ | ⟨⟨_, hnodesMoved⟩,
    _ | _⟩⟩⟩⟩ := hall
  obtain ⟨pkgExpected, hpkg, hpkgAll⟩ := HasFields.reordered hpackage hpackageMoved
  obtain _ | ⟨hname, _ | ⟨hversion, _ | _⟩⟩ := hpkgAll
  rw [hname.of_str, hversion.of_str] at hpkg
  obtain ⟨roots', hroots', hrootsPerm⟩ := hroots.reordered hrootsMoved
  obtain ⟨ys, zs, rfl, hys, hzs⟩ := reordered_arr hnodesMoved
  obtain ⟨nodes₁, hnodes₁, hsame⟩ := forall₂_reordered
    (E := fun n m => unorderedNode n = unorderedNode m) NodeJson.reordered hitems hys
  obtain ⟨nodes', hnodes', hperm⟩ := List.perm_comp_forall₂ hzs.symm hnodes₁
  rw [hformat.of_str] at hfields
  have hunordered : plan.nodes.map unorderedNode = nodes₁.map unorderedNode := by
    rw [← List.forall₂_eq_eq_eq, List.forall₂_map_left_iff, List.forall₂_map_right_iff]
    exact hsame
  refine ⟨⟨plan.format, plan.package, roots', nodes'⟩,
    ⟨_, _, zs, hpkg, hroots', hnodes', hfields⟩, rfl, rfl, hrootsPerm, ?_⟩
  rw [hunordered]
  exact hperm.symm.map unorderedNode

/-! ## Bytes -/

theorem encode_injective {a b : List Char} (h : encode a = encode b) : a = b :=
  String.ofList_injective (String.toByteArray_inj.mp h)

/-- UTF-8 is read back. -/
theorem decode_encode (text : List Char) : String.fromUTF8? (encode text) = some (String.ofList text) :=
  dif_pos (String.ofList text).isValidUTF8

theorem refJson_injective {a b : MaterializationPlanDependencyRef} (h : refJson a = refJson b) :
    a = b := by
  obtain ⟨_, _⟩ := a
  obtain ⟨_, _⟩ := b
  simpa [refJson] using h

theorem refs_injective {as bs : List MaterializationPlanDependencyRef}
    (h : as.map refJson = bs.map refJson) : as = bs :=
  List.map_injective_iff.mpr (fun _ _ => refJson_injective) h

theorem nodeJson_injective (h : nodeJson n = nodeJson m) : n = m := by
  obtain ⟨_, _, _, _, _⟩ := n
  obtain ⟨_, _, _, _, _⟩ := m
  simp only [nodeJson, Json.obj.injEq, List.cons.injEq, Prod.mk.injEq, Json.arr.injEq,
    Json.str.injEq, and_true, true_and] at h
  obtain ⟨hdeps, rfl, rfl, rfl, rfl⟩ := h
  rw [refs_injective hdeps]

/-- The tree of a plan tells the plan. -/
theorem planJson_injective (h : planJson p = planJson q) : p = q := by
  obtain ⟨_, ⟨_, _⟩, _, _⟩ := p
  obtain ⟨_, ⟨_, _⟩, _, _⟩ := q
  simp only [planJson, packageJson, Json.obj.injEq, List.cons.injEq, Prod.mk.injEq, Json.arr.injEq,
    Json.str.injEq, and_true, true_and] at h
  obtain ⟨rfl, hnodes, ⟨rfl, rfl⟩, hroots⟩ := h
  rw [List.map_injective_iff.mpr (fun _ _ => nodeJson_injective) hnodes, refs_injective hroots]

/-- **Plans with the same bytes** are equal up to order. -/
theorem SamePlan.of_bytes
    (h : canonicalMaterializationPlanBytes p = canonicalMaterializationPlanBytes q) : SamePlan p q := by
  have hcanonical := planJson_injective (print_injective (encode_injective h))
  exact (samePlan_canonical p).symm.trans (hcanonical ▸ samePlan_canonical q)

theorem hex_injective {a b : ByteArray} (h : hex a = hex b) : a = b := by
  have hdigit : ∀ i < 16, ∀ j < 16, hexDigit i = hexDigit j → i = j := by decide
  have hlists : ∀ as bs : List UInt8,
      as.flatMap (fun b => [hexDigit (b.toNat / 16), hexDigit (b.toNat % 16)]) =
        bs.flatMap (fun b => [hexDigit (b.toNat / 16), hexDigit (b.toNat % 16)]) → as = bs := by
    intro as
    induction as with
    | nil =>
      intro bs hbs
      cases bs with
      | nil => rfl
      | cons b bs => cases hbs
    | cons a as ih =>
      intro bs hbs
      cases bs with
      | nil => cases hbs
      | cons b bs =>
        obtain ⟨hhigh, hbs⟩ := List.cons.inj hbs
        obtain ⟨hlow, hbs⟩ := List.cons.inj hbs
        have ha := a.toNat_lt
        have hb := b.toNat_lt
        have hhigh := hdigit _ (by omega) _ (by omega) hhigh
        have hlow := hdigit _ (by omega) _ (by omega) hlow
        have hab : a = b := UInt8.toNat_inj.mp (by omega)
        rw [hab, ih bs hbs]
  exact ByteArray.ext (Array.toList_inj.mp (hlists _ _ (String.ofList_injective h)))

theorem readable_obj {number : List Char → Option JsNumber} {fs : List (String × Json)}
    (keys : List String) (hkeys : fs.map Prod.fst = keys) (hnd : keys.Nodup)
    (hnames : ∀ k ∈ keys, arrayIndex? k = none) (h : ∀ f ∈ fs, Readable number ownFields f.2) :
    Readable number ownFields (.obj fs) := by
  refine .obj (ownFields_eq_self (hkeys ▸ hnd) fun f hf => hnames f.1 ?_) h
  rw [← hkeys]
  exact List.mem_map_of_mem hf

theorem refsJson_readable (number : List Char → Option JsNumber)
    (refs : List MaterializationPlanDependencyRef) :
    Readable number ownFields (.arr (refs.map refJson)) := by
  refine .arr (List.forall_mem_map.mpr fun ref _ => ?_)
  refine readable_obj ["name", "placementPath"] rfl (by decide) (by decide) ?_
  simp only [List.forall_mem_cons]
  exact ⟨.str _, .str _, fun _ h => by cases h⟩

/-- Reading the text keeps every field of a plan. -/
theorem planJson_readable (number : List Char → Option JsNumber) (plan : MaterializationPlan) :
    Readable number ownFields (planJson plan) := by
  refine readable_obj ["format", "nodes", "package", "rootDependencies"] rfl (by decide)
    (by decide) ?_
  simp only [List.forall_mem_cons]
  refine ⟨.str _, .arr (List.forall_mem_map.mpr fun n _ => ?_), ?_, refsJson_readable number _,
    fun _ h => by cases h⟩
  · refine readable_obj ["dependencies", "integrity", "name", "placementPath", "version"] rfl
      (by decide) (by decide) ?_
    simp only [List.forall_mem_cons]
    exact ⟨refsJson_readable number _, .str _, .str _, .str _, .str _,
      fun _ h => by cases h⟩
  · refine readable_obj ["name", "version"] rfl (by decide) (by decide) ?_
    simp only [List.forall_mem_cons]
    exact ⟨.str _, .str _, fun _ h => by cases h⟩

/-- **The canonical bytes are a faithful encoding that forgets the order**: reordered values
    are accepted with the same bytes, the bytes are read back as the plan, and plans with
    the same bytes or the same hash are equal up to order. -/
theorem plan_bytes_faithful {value : Json} (h : parseMaterializationPlan value = .ok plan) :
    (∀ value', Reordered value value' → ∃ plan', parseMaterializationPlan value' = .ok plan' ∧
      SamePlan plan plan' ∧
        canonicalMaterializationPlanBytes plan' = canonicalMaterializationPlanBytes plan) ∧
    (∀ number, ∃ text value' plan',
      String.fromUTF8? (canonicalMaterializationPlanBytes plan) = some text ∧
        parseJson number text = some value' ∧ parseMaterializationPlan value' = .ok plan' ∧
          SamePlan plan plan' ∧
            canonicalMaterializationPlanBytes plan' = canonicalMaterializationPlanBytes plan) ∧
    (∀ value' plan', parseMaterializationPlan value' = .ok plan' →
      canonicalMaterializationPlanBytes plan' = canonicalMaterializationPlanBytes plan →
        SamePlan plan plan') ∧ ∀ sha512 : ByteArray → ByteArray, Function.Injective sha512 →
      ∀ value' plan', parseMaterializationPlan value' = .ok plan' →
        computeClosureHash sha512 plan' = computeClosureHash sha512 plan → SamePlan plan plan' := by
  obtain ⟨hjson, hvalid⟩ := parseMaterializationPlan_ok.mp h
  have haccepts : ∀ {value' : Json} {plan' : MaterializationPlan}, PlanJson value' plan' →
      SamePlan plan plan' → parseMaterializationPlan value' = .ok plan' ∧ SamePlan plan plan' ∧
        canonicalMaterializationPlanBytes plan' = canonicalMaterializationPlanBytes plan := by
    intro value' plan' hjson' hsame
    refine ⟨parseMaterializationPlan_ok.mpr ⟨hjson', hsame.valid hvalid⟩, hsame, ?_⟩
    rw [canonicalMaterializationPlanBytes, canonicalMaterializationPlanBytes,
      canonical_eq hvalid hsame]
  refine ⟨fun value' hreordered => ?_, fun number => ?_, fun value' plan' _ hbytes => ?_,
    fun sha512 hinj value' plan' _ hhash => ?_⟩
  · obtain ⟨plan', hjson', hsame⟩ := hjson.reordered hreordered
    exact ⟨plan', haccepts hjson' hsame⟩
  · refine ⟨_, planJson (canonicalPlan plan), canonicalPlan plan, decode_encode _, ?_,
      haccepts (planJson_renders _) (samePlan_canonical plan).symm⟩
    rw [parseJson, String.toList_ofList]
    exact parseWith_print (planJson_readable number (canonicalPlan plan))
  · exact SamePlan.of_bytes hbytes.symm
  · exact SamePlan.of_bytes (hinj (hex_injective hhash)).symm

theorem nestedPlan_bytes : ∃ plan', parseMaterializationPlan (planJson { nestedPlan with
    nodes := [outerNode, innerNode] }) = .ok plan' ∧
      canonicalMaterializationPlanBytes plan' = canonicalMaterializationPlanBytes nestedPlan := by
  have hmoved : Reordered (planJson nestedPlan)
      (planJson { nestedPlan with nodes := [outerNode, innerNode] }) := by
    refine .obj ?_ (List.Perm.refl _)
    refine .cons ⟨_, .same _⟩ (.cons ⟨_, .arr (List.forall₂_same.mpr fun v _ => .same v) ?_⟩
      (.cons ⟨_, .same _⟩ (.cons ⟨_, .same _⟩ .nil)))
    exact List.Perm.swap _ _ _
  obtain ⟨plan', hparse, _, hbytes⟩ := (plan_bytes_faithful nestedPlan_ok).1 _ hmoved
  exact ⟨plan', hparse, hbytes⟩

end ExtMatPlan
