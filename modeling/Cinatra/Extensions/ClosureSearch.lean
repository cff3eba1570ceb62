import Cinatra.Extensions.DependencyClosure
import Cinatra.Lib.Resolution
import Cinatra.Lib.Rounds

/-! # ClosureSearch — the search visits the closure

    The loop of `computeClosure` ends within its rounds, and its two blocking
    buckets are empty exactly when every install-blocking edge on a walk from the
    root is satisfied by what the scope resolves it to.  The invariant follows the
    frames that were taken off the stack and the edges that were looked at. -/

namespace ExtClosureSearch

open ExtCanonical ExtClosure Resolution

variable {satisfies : String → String → Bool} {rows : List InstalledExtension}
  {org : Option String} {root x : InstalledExtension} {L : ManifestLookup} {s : SearchState}

/-- An install-blocking edge is satisfied by what its name resolves to. -/
def Satisfied (satisfies : String → String → Bool) (dep : ExtensionDependency)
    (resolved : Option InstalledExtension) : Prop :=
  isInstallBlockingEdge dep = true → ∃ y, resolved = some y ∧
    edgeVersionViolation satisfies dep (installedVersionOfRow y) = none

/-- The rows the closure of a row comes to, by a lookup. -/
abbrev Reaches (L : ManifestLookup) (avoid : String → Prop) (r x : InstalledExtension) : Prop :=
  Walk InstalledExtension.dependencies ExtensionDependency.packageName L avoid r x

/-- The closure of a row is intact under a lookup. -/
def IntactUnder (satisfies : String → String → Bool) (L : ManifestLookup)
    (r : InstalledExtension) : Prop :=
  Intact InstalledExtension.dependencies ExtensionDependency.packageName (Satisfied satisfies) L
    (fun q => q = r.packageName) r

/-- Neither blocking bucket has an entry. -/
def Clean (r : ClosureResult) : Prop := r.missingRequired = [] ∧ r.rangeViolations = []

variable {name : String}

theorem lookup_some {y : InstalledExtension} (h : makeScopedManifestLookup rows org name = some y) :
    y ∈ rows ∧ y.packageName = name ∧ y.present = true := by
  have hlive : y ∈ liveRows rows name := by
    rcases Option.or_eq_some_iff.mp h with h | ⟨-, h⟩
    · cases org with
      | none => cases h
      | some org => exact List.mem_of_find?_eq_some h
    · exact List.mem_of_find?_eq_some h
  obtain ⟨hin, hp⟩ := List.mem_filter.mp hlive
  obtain ⟨hname, hpresent⟩ := Bool.and_eq_true_iff.mp hp
  exact ⟨hin, of_decide_eq_true hname, hpresent⟩

theorem lookup_congr {rows₁ : List InstalledExtension}
    (h : liveRows rows₁ name = liveRows rows name) :
    makeScopedManifestLookup rows₁ org name = makeScopedManifestLookup rows org name := by
  show (ownRow (liveRows rows₁ name) org).or ((liveRows rows₁ name).find? _) = _
  rw [h]
  rfl

theorem clean_recordMissing (r : ClosureResult) (dep : ExtensionDependency)
    (installed : Option InstalledExtension) :
    Clean (recordMissing r dep installed) ↔ Clean r ∧ isInstallBlockingEdge dep = false := by
  simp only [recordMissing]
  split
  · next hpeer =>
      have hb : isInstallBlockingEdge dep = false := by simp [isInstallBlockingEdge, hpeer]
      exact ⟨fun h => ⟨h, hb⟩, And.left⟩
  split
  · next hb => simp [Clean, hb]
  · next hb =>
      rw [Bool.not_eq_true] at hb
      exact ⟨fun h => ⟨h, hb⟩, And.left⟩

theorem visited_recordMissing (r : ClosureResult) (dep : ExtensionDependency)
    (installed : Option InstalledExtension) :
    (recordMissing r dep installed).visited = r.visited := by
  simp only [recordMissing]
  split
  · rfl
  · split <;> rfl

theorem clean_recordVersion (from_ : String) (r : ClosureResult) (dep : ExtensionDependency)
    (installed : InstalledExtension) : Clean (recordVersion satisfies from_ r dep installed) ↔
      Clean r ∧ Satisfied satisfies dep (some installed) := by
  simp only [recordVersion]
  split
  · next hb =>
      split
      · next v hv =>
          constructor
          · intro h
            exact absurd h.2 (by simp)
          · rintro ⟨-, h⟩
            obtain ⟨y, hy, hnone⟩ := h hb
            rw [← Option.some.inj hy, hv] at hnone
            cases hnone
      · next hv => exact ⟨fun h => ⟨h, fun _ => ⟨_, rfl, hv⟩⟩, And.left⟩
  · next hb => exact ⟨fun h => ⟨h, fun hc => absurd hc hb⟩, And.left⟩

theorem visited_recordVersion (from_ : String) (r : ClosureResult) (dep : ExtensionDependency)
    (installed : InstalledExtension) :
    (recordVersion satisfies from_ r dep installed).visited = r.visited := by
  simp only [recordVersion]
  split
  · split <;> rfl
  · rfl

/-! ## The invariant -/

def frameOf (x : InstalledExtension) : Frame := ⟨x.packageName, x.dependencies⟩

/-- The frames that were popped or stand on the stack, and the edges looked at. -/
structure Search (satisfies : String → String → Bool) (L : ManifestLookup)
    (root : InstalledExtension) (popped : List Frame) (edges : List ExtensionDependency)
    (s : SearchState) : Prop where
  frames : ∀ f ∈ s.stack, ∃ x, Reaches L (fun q => q = root.packageName) root x ∧ f = frameOf x
  start : frameOf root ∈ popped ∨ frameOf root ∈ s.stack
  rootSeen : root.packageName ∈ s.result.visited
  visited : ∀ q ∈ s.result.visited, q = root.packageName ∨
    ∃ y, L q = some y ∧ (frameOf y ∈ popped ∨ frameOf y ∈ s.stack)
  closed : ∀ e ∈ edges, ∀ y, L e.packageName = some y → e.packageName ∈ s.result.visited
  clean : Clean s.result → ∀ e ∈ edges, Satisfied satisfies e (L e.packageName)
  dirty : ¬ Clean s.result → ∃ x e, Reaches L (fun q => q = root.packageName) root x ∧
    e ∈ x.dependencies ∧ ¬ Satisfied satisfies e (L e.packageName)

/-- A lookup that answers with live rows of the name. -/
def Answers (L : ManifestLookup) : Prop :=
  ∀ q y, L q = some y → y.packageName = q ∧ y.present = true

theorem lookup_answers (rows : List InstalledExtension) (org : Option String) :
    Answers (makeScopedManifestLookup rows org) :=
  fun _ _ h => (lookup_some h).2

variable {popped : List Frame} {edges : List ExtensionDependency}

theorem present_lookup (hL : Answers L) (q : String) :
    (L q).filter InstalledExtension.present = L q := by
  cases hq : L q with
  | none => rfl
  | some y => rw [Option.filter_some, if_pos (hL q y hq).2]

theorem Search.visitDep (h : Search satisfies L root popped edges s) (hL : Answers L)
    (hx : Reaches L (fun q => q = root.packageName) root x) {dep : ExtensionDependency}
    (hdep : dep ∈ x.dependencies) (from_ : String) :
    Search satisfies L root popped (dep :: edges) (visitDep satisfies L from_ s dep) := by
  have hedge : ∀ {r : ClosureResult}, (Clean r ↔ Clean s.result ∧
      Satisfied satisfies dep (L dep.packageName)) →
      (Clean r → ∀ e ∈ dep :: edges, Satisfied satisfies e (L e.packageName)) ∧
      (¬ Clean r → ∃ x e, Reaches L (fun q => q = root.packageName) root x ∧
        e ∈ x.dependencies ∧ ¬ Satisfied satisfies e (L e.packageName)) := by
    intro r hr
    constructor
    · intro hc e he
      rcases List.mem_cons.mp he with rfl | he
      · exact (hr.mp hc).2
      · exact h.clean (hr.mp hc).1 e he
    · intro hc
      by_cases hs : Clean s.result
      · exact ⟨x, dep, hx, hdep, fun hsat => hc (hr.mpr ⟨hs, hsat⟩)⟩
      · exact h.dirty hs
  rw [ExtClosure.visitDep, present_lookup hL]
  cases hq : L dep.packageName with
  | none =>
    have hr : Clean (recordMissing s.result dep (none : Option InstalledExtension)) ↔
        Clean s.result ∧ Satisfied satisfies dep (L dep.packageName) := by
      rw [clean_recordMissing, hq]
      refine and_congr_right (fun _ => ⟨fun hb hc => ?_, fun hc => ?_⟩)
      · rw [hb] at hc
        cases hc
      · rw [← Bool.not_eq_true]
        intro hb
        obtain ⟨y, hy, -⟩ := hc hb
        cases hy
    obtain ⟨hclean, hdirty⟩ := hedge hr
    refine ⟨h.frames, h.start, ?_, ?_, ?_, hclean, hdirty⟩
    · rw [visited_recordMissing]
      exact h.rootSeen
    · rw [visited_recordMissing]
      exact h.visited
    · rw [visited_recordMissing]
      intro e he y hy
      rcases List.mem_cons.mp he with rfl | he
      · rw [hq] at hy
        cases hy
      · exact h.closed e he y hy
  | some y =>
    have hr : Clean (recordVersion satisfies from_ s.result dep y) ↔
        Clean s.result ∧ Satisfied satisfies dep (L dep.packageName) := by
      rw [clean_recordVersion, hq]
    obtain ⟨hclean, hdirty⟩ := hedge hr
    simp only [visited_recordVersion]
    by_cases hv : s.result.visited.contains dep.packageName = true
    · rw [if_pos hv]
      have hv := List.contains_iff_mem.mp hv
      refine ⟨h.frames, h.start, ?_, ?_, ?_, hclean, hdirty⟩
      · rw [visited_recordVersion]
        exact h.rootSeen
      · rw [visited_recordVersion]
        exact h.visited
      · rw [visited_recordVersion]
        intro e he z hz
        rcases List.mem_cons.mp he with rfl | he
        · exact hv
        · exact h.closed e he z hz
    · rw [if_neg hv]
      have hv : dep.packageName ∉ s.result.visited := fun hc => hv (List.contains_iff_mem.mpr hc)
      have hne : dep.packageName ≠ root.packageName := fun hc => hv (hc ▸ h.rootSeen)
      have hframe : (⟨dep.packageName, y.dependencies⟩ : Frame) = frameOf y := by
        rw [frameOf, (hL _ y hq).1]
      rw [hframe]
      refine ⟨?_, ?_, ?_, ?_, ?_, hclean, hdirty⟩
      · intro f hf
        rcases List.mem_cons.mp hf with rfl | hf
        · exact ⟨y, .step hx hdep hne hq, rfl⟩
        · exact h.frames f hf
      · exact h.start.imp_right (.tail _)
      · exact List.mem_append_left _ h.rootSeen
      · intro q hq'
        rcases List.mem_append.mp hq' with hq' | hq'
        · rcases h.visited q hq' with hroot | ⟨z, hz, hin⟩
          · exact .inl hroot
          · exact .inr ⟨z, hz, hin.imp_right (.tail _)⟩
        · rw [List.mem_singleton.mp hq']
          exact .inr ⟨y, hq, .inr (List.mem_cons_self ..)⟩
      · intro e he z hz
        rcases List.mem_cons.mp he with rfl | he
        · exact List.mem_concat_self
        · exact List.mem_append_left _ (h.closed e he z hz)

/-- What each edge looked at keeps, the edges of a frame keep. -/
theorem foldl_edges {I : List ExtensionDependency → SearchState → Prop} (from_ : String) :
    ∀ (deps edges : List ExtensionDependency) (s : SearchState),
      (∀ dep ∈ deps, ∀ es s, I es s → I (dep :: es) (ExtClosure.visitDep satisfies L from_ s dep)) →
      I edges s → ∃ edges', I edges' (deps.foldl (ExtClosure.visitDep satisfies L from_) s) ∧
        (∀ e ∈ edges, e ∈ edges') ∧ ∀ e ∈ deps, e ∈ edges' := by
  intro deps
  induction deps with
  | nil =>
    intro edges s _ h
    exact ⟨edges, h, fun _ he => he, fun _ he => by cases he⟩
  | cons dep deps ih =>
    intro edges s hstep h
    obtain ⟨edges', h', hold, hnew⟩ := ih (dep :: edges) _
      (fun e he => hstep e (.tail _ he)) (hstep dep (List.mem_cons_self ..) _ _ h)
    refine ⟨edges', h', fun e he => hold e (.tail _ he), ?_⟩
    intro e he
    rcases List.mem_cons.mp he with rfl | he
    · exact hold e (List.mem_cons_self ..)
    · exact hnew e he

theorem Search.pop {f : Frame} {rest : List Frame}
    (h : Search satisfies L root popped edges s) (hs : s.stack = f :: rest) :
    Search satisfies L root (f :: popped) edges { s with stack := rest } := by
  have hmove : ∀ g, g ∈ popped ∨ g ∈ s.stack → g ∈ f :: popped ∨ g ∈ rest := by
    intro g hg
    rw [hs] at hg
    rcases hg with hg | hg
    · exact .inl (.tail _ hg)
    · rcases List.mem_cons.mp hg with rfl | hg
      · exact .inl (List.mem_cons_self ..)
      · exact .inr hg
  refine ⟨?_, hmove _ h.start, h.rootSeen, ?_, h.closed, h.clean, h.dirty⟩
  · intro g hg
    exact h.frames g (hs ▸ .tail _ hg)
  · intro q hq
    rcases h.visited q hq with hroot | ⟨y, hy, hin⟩
    · exact .inl hroot
    · exact .inr ⟨y, hy, hmove _ hin⟩

/-- The run of the loop: whatever was popped has had its edges looked at. -/
theorem loop_edges {I : List Frame → List ExtensionDependency → SearchState → Prop}
    (hturn : ∀ popped edges s f rest, I popped edges s → s.stack = f :: rest →
      I (f :: popped) edges { s with stack := rest } ∧
        ∀ dep ∈ f.deps, ∀ es s, I (f :: popped) es s →
          I (f :: popped) (dep :: es) (ExtClosure.visitDep satisfies L f.from s dep)) (fuel : Nat) :
    ∀ (popped : List Frame) (edges : List ExtensionDependency) (s : SearchState),
      I popped edges s → (∀ f ∈ popped, ∀ e ∈ f.deps, e ∈ edges) →
      ∃ popped' edges', I popped' edges' (closureLoop satisfies L fuel s) ∧
        ∀ f ∈ popped', ∀ e ∈ f.deps, e ∈ edges' := by
  induction fuel with
  | zero => exact fun popped edges s h hp => ⟨popped, edges, h, hp⟩
  | succ fuel ih =>
    intro popped edges s h hp
    rw [closureLoop]
    cases hs : s.stack with
    | nil => exact ⟨popped, edges, h, hp⟩
    | cons f rest =>
      obtain ⟨hpop, hstep⟩ := hturn _ _ _ _ _ h hs
      obtain ⟨edges', h', hold, hnew⟩ := foldl_edges f.from f.deps edges _ hstep hpop
      refine ih _ edges' _ h' ?_
      intro g hg e he
      rcases List.mem_cons.mp hg with rfl | hg
      · exact hnew e he
      · exact hold e (hp g hg e he)

theorem Search.loop (hL : Answers L) (fuel : Nat) :
    ∀ (popped : List Frame) (edges : List ExtensionDependency) (s : SearchState),
      Search satisfies L root popped edges s → (∀ f ∈ popped, ∀ e ∈ f.deps, e ∈ edges) →
      ∃ popped' edges', Search satisfies L root popped' edges' (closureLoop satisfies L fuel s) ∧
        ∀ f ∈ popped', ∀ e ∈ f.deps, e ∈ edges' := by
  refine loop_edges (fun popped edges s f rest h hs => ⟨h.pop hs, fun dep hdep es s h' => ?_⟩) fuel
  obtain ⟨x, hx, rfl⟩ := h.frames f (hs ▸ List.mem_cons_self ..)
  exact h'.visitDep hL hx hdep _

/-! ## The loop ends -/

/-- Rows whose package was not come to yet. -/
def unseen (rows : List InstalledExtension) (s : SearchState) : Nat :=
  (rows.filter (fun r => !s.result.visited.contains r.packageName)).length

section

variable (hin : ∀ q y, L q = some y → y ∈ rows ∧ y.packageName = q)

include hin

theorem measure_visitDep (from_ : String) (s : SearchState) (dep : ExtensionDependency) :
    (ExtClosure.visitDep satisfies L from_ s dep).stack.length +
        unseen rows (ExtClosure.visitDep satisfies L from_ s dep) ≤
      s.stack.length + unseen rows s := by
  rw [ExtClosure.visitDep]
  split
  · show _ + (rows.filter _).length ≤ _
    simp only [visited_recordMissing]
    exact Nat.le_refl _
  next y hy =>
    simp only [visited_recordVersion]
    split
    · show _ + (rows.filter _).length ≤ _
      simp only [visited_recordVersion]
      exact Nat.le_refl _
    next hv =>
      obtain ⟨hmem, hname⟩ := hin _ y (Option.mem_filter_iff.mp hy).1
      have hlt := Rounds.length_filter_lt (p := fun r => !s.result.visited.contains r.packageName)
        (q := fun r : InstalledExtension =>
          !(s.result.visited ++ [dep.packageName]).contains r.packageName)
        (fun r _ hr => by simp at hr ⊢; exact hr.1) hmem (by simpa [hname] using hv)
        (by simp [hname])
      show s.stack.length + 1 + (rows.filter (fun r =>
        !(s.result.visited ++ [dep.packageName]).contains r.packageName)).length ≤
          s.stack.length + (rows.filter _).length
      omega

theorem measure_foldl (from_ : String) (deps : List ExtensionDependency) : ∀ s : SearchState,
    (deps.foldl (ExtClosure.visitDep satisfies L from_) s).stack.length +
        unseen rows (deps.foldl (ExtClosure.visitDep satisfies L from_) s) ≤
      s.stack.length + unseen rows s := by
  induction deps with
  | nil => exact fun s => Nat.le_refl _
  | cons dep deps ih => exact fun s => Nat.le_trans (ih _) (measure_visitDep hin from_ s dep)

/-- A round for every frame that can still come up empties the stack. -/
theorem closureLoop_ends (fuel : Nat) : ∀ s : SearchState, s.stack.length + unseen rows s ≤ fuel →
      (closureLoop satisfies L fuel s).stack = [] := by
  induction fuel with
  | zero =>
    intro s hs
    show s.stack = []
    exact List.length_eq_zero_iff.mp (by omega)
  | succ fuel ih =>
    intro s hs
    rw [closureLoop]
    cases hst : s.stack with
    | nil => exact hst
    | cons f rest =>
      refine ih _ (Nat.le_trans (measure_foldl hin f.from f.deps { s with stack := rest }) ?_)
      rw [hst, List.length_cons] at hs
      show rest.length + unseen rows s ≤ fuel
      omega

end

/-! ## The search is complete -/

theorem search_initial (root : InstalledExtension) :
    Search satisfies L root [] [] (initialSearch root) := by
  refine ⟨?_, .inr (List.mem_singleton.mpr rfl), List.mem_singleton.mpr rfl, ?_, ?_, ?_, ?_⟩
  · intro f hf
    exact ⟨root, .refl, List.mem_singleton.mp hf⟩
  · intro q hq
    exact .inl (List.mem_singleton.mp hq)
  · intro e he
    cases he
  · intro _ e he
    cases he
  · intro hc
    exact absurd ⟨rfl, rfl⟩ hc

theorem Search.popped_of_reaches (h : Search satisfies L root popped edges s)
    (hs : s.stack = []) (hp : ∀ f ∈ popped, ∀ e ∈ f.deps, e ∈ edges)
    (hx : Reaches L (fun q => q = root.packageName) root x) : frameOf x ∈ popped := by
  have hempty : ∀ f : Frame, f ∈ popped ∨ f ∈ s.stack → f ∈ popped := by
    intro f hf
    rw [hs] at hf
    exact hf.resolve_right List.not_mem_nil
  induction hx with
  | refl => exact hempty _ h.start
  | @step x y e _ he hn hy ih =>
    have hseen := h.closed e (hp _ ih e he) y hy
    rcases h.visited _ hseen with hroot | ⟨z, hz, hin⟩
    · exact absurd hroot hn
    · obtain rfl := Option.some.inj (hy.symm.trans hz)
      exact hempty _ hin

/-- **The closure engine decides intactness**: within its rounds, both blocking
    buckets are empty exactly if every edge on a walk is satisfied. -/
theorem clean_scopedClosure (satisfies : String → String → Bool) (rows : List InstalledExtension)
    (org : Option String) (root : InstalledExtension) :
    Clean (scopedClosure satisfies rows org root) ↔
      IntactUnder satisfies (makeScopedManifestLookup rows org) root := by
  have hstart : Search satisfies (makeScopedManifestLookup rows org) root [] []
      (initialSearch root) := search_initial root
  obtain ⟨popped, edges, h, hp⟩ := Search.loop (lookup_answers rows org) (rows.length + 1) [] [] _
    hstart (fun f hf => absurd hf List.not_mem_nil)
  have hs : (closureLoop satisfies (makeScopedManifestLookup rows org) (rows.length + 1)
      (initialSearch root)).stack = [] := by
    refine closureLoop_ends (fun q y hy => ⟨(lookup_some hy).1, (lookup_some hy).2.1⟩) _ _ ?_
    have hle : unseen rows (initialSearch root) ≤ rows.length := List.length_filter_le _ rows
    show 1 + unseen rows (initialSearch root) ≤ _
    omega
  constructor
  · intro hc x hx e he
    exact h.clean hc e (hp _ (h.popped_of_reaches hs hp hx) e he)
  · intro hi
    by_contra hc
    obtain ⟨x, e, hx, he, hbad⟩ := h.dirty hc
    exact hbad (hi x hx e he)

/-- The closure of every live row is intact at its own scope. -/
def AllIntact (satisfies : String → String → Bool) (rows : List InstalledExtension) : Prop :=
  ∀ r ∈ rows, r.present = true →
    IntactUnder satisfies (makeScopedManifestLookup rows r.organizationId) r

theorem brokenClosure?_eq_none {r : InstalledExtension} : brokenClosure? satisfies rows r = none ↔
      (r.present = true → Clean (scopedClosure satisfies rows r.organizationId r)) := by
  simp only [brokenClosure?, Clean]
  cases r.present <;> simp

/-- **The boot scan** finds nothing exactly if every live row's closure is intact. -/
theorem findBrokenClosures_eq_nil (satisfies : String → String → Bool)
    (rows : List InstalledExtension) :
    findBrokenClosures satisfies rows = [] ↔ AllIntact satisfies rows := by
  simp only [findBrokenClosures, List.filterMap_eq_nil_iff, brokenClosure?_eq_none,
    clean_scopedClosure, AllIntact]

end ExtClosureSearch
