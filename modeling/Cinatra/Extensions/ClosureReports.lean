import Cinatra.Extensions.ClosureSearch

/-! # ClosureReports — what a closure reports, and along which edges

    `computeClosure` sorts an edge by its type where it dangles, but goes down every
    edge whose target is present.  So it reports the broken edges of all packages it
    comes to (`computeClosure_reports`), also of those behind an optional or a peer
    edge only: the sibling walk of the boot anchors follows blocking edges alone. -/

namespace ExtClosureReports

open ExtCanonical ExtClosure ExtClosureSearch Resolution

variable {satisfies : String → String → Bool} {rows : List InstalledExtension}
  {root x : InstalledExtension} {L : ManifestLookup} {s : SearchState}

/-- What a lookup finds among the live rows. -/
def presentLookup (L : ManifestLookup) : ManifestLookup :=
  fun q => (L q).filter InstalledExtension.present

/-- An install-blocking edge whose target is missing or archived. -/
def Missing (L : ManifestLookup) (dep : ExtensionDependency) : Prop :=
  isInstallBlockingEdge dep = true ∧ presentLookup L dep.packageName = none

/-- An install-blocking edge whose target is present at a version that violates it. -/
def Violated (satisfies : String → String → Bool) (L : ManifestLookup)
    (dep : ExtensionDependency) : Prop :=
  isInstallBlockingEdge dep = true ∧ ∃ y, presentLookup L dep.packageName = some y ∧
    edgeVersionViolation satisfies dep (installedVersionOfRow y) ≠ none

/-- A row's install-blocking edges. -/
def blockingEdges (r : InstalledExtension) : List ExtensionDependency :=
  r.dependencies.filter isInstallBlockingEdge

/-- The present packages a root reaches along some of the edges.  The root's own name
    stands for the root. -/
abbrev Along (L : ManifestLookup) (edges : InstalledExtension → List ExtensionDependency)
    (root x : InstalledExtension) : Prop :=
  Walk edges ExtensionDependency.packageName (presentLookup L)
    (fun q => q = root.packageName) root x

/-- A package reached along those edges has a bad edge on `q`. -/
def Breaks (L : ManifestLookup) (edges : InstalledExtension → List ExtensionDependency)
    (bad : ExtensionDependency → Prop) (root : InstalledExtension) (q : String) : Prop :=
  ∃ x, Along L edges root x ∧ ∃ e ∈ x.dependencies, e.packageName = q ∧ bad e

/-- The lookup answers with rows of the snapshot, under their own names. -/
def OverSnapshot (rows : List InstalledExtension) (L : ManifestLookup) : Prop :=
  ∀ q y, L q = some y → y ∈ rows ∧ y.packageName = q

variable {q : String}

theorem presentLookup_some {y : InstalledExtension}
    (h : presentLookup L q = some y) : L q = some y ∧ y.present = true :=
  Option.mem_filter_iff.mp h

theorem presentLookup_answers (hL : OverSnapshot rows L) : Answers (presentLookup L) := by
  intro q y h
  obtain ⟨hy, hp⟩ := presentLookup_some h
  exact ⟨(hL q y hy).2, hp⟩

theorem Along.of_blocking (h : Along L blockingEdges root x) :
    Along L InstalledExtension.dependencies root x := by
  induction h with
  | refl => exact .refl
  | step _ he hn hy ih => exact .step ih (List.mem_filter.mp he).1 hn hy

variable {bad : ExtensionDependency → Prop}

theorem Breaks.of_blocking (h : Breaks L blockingEdges bad root q) :
    Breaks L InstalledExtension.dependencies bad root q := by
  obtain ⟨x, hx, he⟩ := h
  exact ⟨x, Along.of_blocking hx, he⟩

/-! ## One edge -/

/-- The names in the two blocking buckets. -/
def missingNames (r : ClosureResult) : List String := r.missingRequired.map ClosureNode.packageName

def violatedNames (r : ClosureResult) : List String :=
  r.rangeViolations.map RangeViolation.packageName

/-- States that differ in the status of missing nodes at most. -/
structure Alike (s s' : SearchState) : Prop where
  stack : s'.stack = s.stack
  visited : s'.result.visited = s.result.visited
  clean : Clean s'.result ↔ Clean s.result

theorem Search_alike {popped : List Frame} {edges : List ExtensionDependency} {s' : SearchState}
    (h : Search satisfies L root popped edges s) (ha : Alike s s') :
    Search satisfies L root popped edges s' := by
  refine ⟨?_, ?_, ?_, ?_, ?_, ?_, ?_⟩
  · rw [ha.stack]
    exact h.frames
  · rw [ha.stack]
    exact h.start
  · rw [ha.visited]
    exact h.rootSeen
  · rw [ha.visited, ha.stack]
    exact h.visited
  · rw [ha.visited]
    exact h.closed
  · exact fun hc => h.clean (ha.clean.mp hc)
  · exact fun hc => h.dirty (fun hs => hc (ha.clean.mpr hs))

/-- A lookup that answers with archived rows too visits the same packages. -/
theorem visitDep_alike (from_ : String) (dep : ExtensionDependency) :
    Alike (visitDep satisfies (presentLookup L) from_ s dep) (visitDep satisfies L from_ s dep) := by
  have hsame : (presentLookup L dep.packageName).filter InstalledExtension.present =
      (L dep.packageName).filter InstalledExtension.present := by
    rw [presentLookup, Option.filter_filter]
    simp
  rw [visitDep, visitDep, hsame]
  cases (L dep.packageName).filter InstalledExtension.present with
  | none =>
    refine ⟨rfl, ?_, ?_⟩
    · rw [visited_recordMissing, visited_recordMissing]
    · rw [clean_recordMissing, clean_recordMissing]
  | some y => exact ⟨rfl, rfl, Iff.rfl⟩

theorem missingNames_recordMissing (r : ClosureResult) (dep : ExtensionDependency)
    (installed : Option InstalledExtension) (q : String) :
    q ∈ missingNames (recordMissing r dep installed) ↔
      q ∈ missingNames r ∨ isInstallBlockingEdge dep = true ∧ dep.packageName = q := by
  simp only [recordMissing]
  split
  · next hpeer =>
      have hb : isInstallBlockingEdge dep = false := by simp [isInstallBlockingEdge, hpeer]
      simp [missingNames, hb]
  · split
    · next hb => simp [missingNames, hb, eq_comm]
    · next hb => simp [missingNames, hb]

theorem violatedNames_recordMissing (r : ClosureResult) (dep : ExtensionDependency)
    (installed : Option InstalledExtension) :
    violatedNames (recordMissing r dep installed) = violatedNames r := by
  simp only [recordMissing]
  split
  · rfl
  · split <;> rfl

theorem missingNames_recordVersion (from_ : String) (r : ClosureResult)
    (dep : ExtensionDependency) (installed : InstalledExtension) :
    missingNames (recordVersion satisfies from_ r dep installed) = missingNames r := by
  simp only [recordVersion]
  split
  · split <;> rfl
  · rfl

theorem violatedNames_recordVersion (from_ : String) (r : ClosureResult)
    (dep : ExtensionDependency) (y : InstalledExtension) (q : String) :
    q ∈ violatedNames (recordVersion satisfies from_ r dep y) ↔
      q ∈ violatedNames r ∨ (isInstallBlockingEdge dep = true ∧
        edgeVersionViolation satisfies dep (installedVersionOfRow y) ≠ none) ∧
        dep.packageName = q := by
  simp only [recordVersion]
  split
  · next hb =>
      split
      · next v hv => simp [violatedNames, hb, hv, eq_comm]
      · next hv => simp [violatedNames, hv]
  · next hb => simp [hb]

theorem missingNames_visitDep (from_ : String) (dep : ExtensionDependency) (q : String) :
    q ∈ missingNames (visitDep satisfies L from_ s dep).result ↔
      q ∈ missingNames s.result ∨ Missing L dep ∧ dep.packageName = q := by
  rw [visitDep, Missing, presentLookup]
  cases hp : (L dep.packageName).filter InstalledExtension.present with
  | none =>
    show q ∈ missingNames (recordMissing _ _ _) ↔ _
    rw [missingNames_recordMissing]
    simp
  | some y =>
    have hr : missingNames (visitDep satisfies L from_ s dep).result = missingNames s.result := by
      rw [visitDep, hp]
      dsimp only
      split <;> exact missingNames_recordVersion from_ s.result dep y
    rw [visitDep, hp] at hr
    rw [hr]
    simp

theorem violatedNames_visitDep (from_ : String) (dep : ExtensionDependency) (q : String) :
    q ∈ violatedNames (visitDep satisfies L from_ s dep).result ↔
      q ∈ violatedNames s.result ∨ Violated satisfies L dep ∧ dep.packageName = q := by
  rw [Violated, presentLookup]
  cases hp : (L dep.packageName).filter InstalledExtension.present with
  | none =>
    rw [visitDep, hp]
    show q ∈ violatedNames (recordMissing _ _ _) ↔ _
    rw [violatedNames_recordMissing]
    simp
  | some y =>
    have hr : violatedNames (visitDep satisfies L from_ s dep).result =
        violatedNames (recordVersion satisfies from_ s.result dep y) := by
      rw [visitDep, hp]
      dsimp only
      split <;> rfl
    rw [hr, violatedNames_recordVersion]
    simp

/-! ## The invariant -/

variable {popped : List Frame} {edges : List ExtensionDependency}

/-- A search whose buckets hold the broken ones of the edges looked at. -/
structure Reports (satisfies : String → String → Bool) (L : ManifestLookup)
    (root : InstalledExtension) (popped : List Frame) (edges : List ExtensionDependency)
    (s : SearchState) : Prop where
  search : Search satisfies (presentLookup L) root popped edges s
  reached : ∀ e ∈ edges, ∃ x, Along L InstalledExtension.dependencies root x ∧ e ∈ x.dependencies
  missing : ∀ q, q ∈ missingNames s.result ↔ ∃ e ∈ edges, Missing L e ∧ e.packageName = q
  violated : ∀ q, q ∈ violatedNames s.result ↔
    ∃ e ∈ edges, Violated satisfies L e ∧ e.packageName = q

variable {dep : ExtensionDependency}

private theorem bucket_cons {names names' : List String} {P : ExtensionDependency → Prop}
    (h : ∀ q, q ∈ names ↔ ∃ e ∈ edges, P e ∧ e.packageName = q)
    (h' : ∀ q, q ∈ names' ↔ q ∈ names ∨ P dep ∧ dep.packageName = q) :
    ∀ q, q ∈ names' ↔ ∃ e ∈ dep :: edges, P e ∧ e.packageName = q := by
  intro q
  rw [h' q, h q]
  constructor
  · rintro (⟨e, he, hP⟩ | hP)
    · exact ⟨e, .tail _ he, hP⟩
    · exact ⟨dep, List.mem_cons_self .., hP⟩
  · rintro ⟨e, he, hP⟩
    rcases List.mem_cons.mp he with rfl | he
    · exact .inr hP
    · exact .inl ⟨e, he, hP⟩

theorem Reports.visitDep (h : Reports satisfies L root popped edges s) (hL : OverSnapshot rows L)
    (hx : Along L InstalledExtension.dependencies root x)
    (hdep : dep ∈ x.dependencies) (from_ : String) :
    Reports satisfies L root popped (dep :: edges) (visitDep satisfies L from_ s dep) := by
  refine ⟨?_, ?_, ?_, ?_⟩
  · exact Search_alike (h.search.visitDep (presentLookup_answers hL) hx hdep from_)
      (visitDep_alike from_ dep)
  · intro e he
    rcases List.mem_cons.mp he with rfl | he
    · exact ⟨x, hx, hdep⟩
    · exact h.reached e he
  · exact bucket_cons h.missing (missingNames_visitDep from_ dep)
  · exact bucket_cons h.violated (violatedNames_visitDep from_ dep)

theorem Reports.loop (hL : OverSnapshot rows L) (fuel : Nat) :
    ∀ (popped : List Frame) (edges : List ExtensionDependency) (s : SearchState),
      Reports satisfies L root popped edges s → (∀ f ∈ popped, ∀ e ∈ f.deps, e ∈ edges) →
      ∃ popped' edges', Reports satisfies L root popped' edges' (closureLoop satisfies L fuel s) ∧
        ∀ f ∈ popped', ∀ e ∈ f.deps, e ∈ edges' := by
  refine loop_edges (fun popped edges s f rest h hs =>
    ⟨⟨h.search.pop hs, h.reached, h.missing, h.violated⟩, fun dep hdep es s h' => ?_⟩) fuel
  obtain ⟨x, hx, rfl⟩ := h.search.frames f (hs ▸ List.mem_cons_self ..)
  exact h'.visitDep hL hx hdep _

theorem reports_initial (root : InstalledExtension) :
    Reports satisfies L root [] [] (initialSearch root) := by
  refine ⟨search_initial root, ?_, ?_, ?_⟩
  · intro e he
    cases he
  · intro q
    simp [missingNames, initialSearch]
  · intro q
    simp [violatedNames, initialSearch]

/-- **What the engine reports**: once it has a round for each row and one, it has ended, and
    its blocking buckets name the broken edges of every package it can come to. -/
theorem computeClosure_reports (hL : OverSnapshot rows L) {fuel : Nat}
    (hfuel : rows.length < fuel) : (closureLoop satisfies L fuel (initialSearch root)).stack = [] ∧
      ∀ q, (q ∈ missingNames (computeClosure satisfies fuel root L) ↔
          Breaks L InstalledExtension.dependencies (Missing L) root q) ∧
        (q ∈ violatedNames (computeClosure satisfies fuel root L) ↔
          Breaks L InstalledExtension.dependencies (Violated satisfies L) root q) := by
  have hends : (closureLoop satisfies L fuel (initialSearch root)).stack = [] := by
    refine closureLoop_ends hL _ _ ?_
    have hle : unseen rows (initialSearch root) ≤ rows.length := List.length_filter_le _ rows
    show 1 + unseen rows (initialSearch root) ≤ _
    omega
  have hstart : Reports satisfies L root [] [] (initialSearch root) := reports_initial root
  obtain ⟨popped, edges, h, hp⟩ := Reports.loop hL fuel [] [] _ hstart
    (fun f hf => absurd hf List.not_mem_nil)
  -- the edges looked at are those of the packages the search came to
  have hedges : ∀ bad q, (∃ e ∈ edges, bad e ∧ e.packageName = q) ↔
      Breaks L InstalledExtension.dependencies bad root q := by
    intro bad q
    constructor
    · rintro ⟨e, he, hbad, hq⟩
      obtain ⟨x, hx, hin⟩ := h.reached e he
      exact ⟨x, hx, e, hin, hq, hbad⟩
    · rintro ⟨x, hx, e, he, hq, hbad⟩
      exact ⟨e, hp _ (h.search.popped_of_reaches hends hp hx) e he, hbad, hq⟩
  refine ⟨hends, fun q => ⟨?_, ?_⟩⟩
  · exact (h.missing q).trans (hedges _ q)
  · exact (h.violated q).trans (hedges _ q)

/-- A package with a bad edge on `q` is reached, but each one only through an optional or
    a peer edge. -/
def BehindOptional (L : ManifestLookup) (bad : ExtensionDependency → Prop)
    (root : InstalledExtension) (q : String) : Prop :=
  Breaks L InstalledExtension.dependencies bad root q ∧
    ∀ x, Along L blockingEdges root x → ∀ e ∈ x.dependencies, e.packageName = q → ¬ bad e

theorem breaks_iff_blocking :
    (Breaks L InstalledExtension.dependencies bad root q ↔ Breaks L blockingEdges bad root q) ↔
      ¬ BehindOptional L bad root q := by
  constructor
  · rintro h ⟨hany, hnone⟩
    obtain ⟨x, hx, e, he, hq, hbad⟩ := h.mp hany
    exact hnone x hx e he hq hbad
  · intro h
    refine ⟨fun hany => ?_, Breaks.of_blocking⟩
    by_contra hno
    refine h ⟨hany, fun x hx e he hq hbad => ?_⟩
    exact hno ⟨x, hx, e, he, hq, hbad⟩

/-- **When only install-blocking edges count.**  Over every snapshot the search ends; a
    dependency is reported as missing, or as violated, exactly if blocking edges alone lead
    to a package that requires it in vain, unless all such packages lie behind an optional
    or a peer edge. -/
theorem blocking_reports_iff (satisfies : String → String → Bool)
    (rows : List InstalledExtension) (L : ManifestLookup) (hL : OverSnapshot rows L)
    (root : InstalledExtension) (fuel : Nat) (hfuel : rows.length < fuel) :
    (closureLoop satisfies L fuel (initialSearch root)).stack = [] ∧
      ∀ q, ((q ∈ missingNames (computeClosure satisfies fuel root L) ↔
            Breaks L blockingEdges (Missing L) root q) ↔ ¬ BehindOptional L (Missing L) root q) ∧
        ((q ∈ violatedNames (computeClosure satisfies fuel root L) ↔
            Breaks L blockingEdges (Violated satisfies L) root q) ↔
          ¬ BehindOptional L (Violated satisfies L) root q) := by
  have hall : (closureLoop satisfies L fuel (initialSearch root)).stack = [] ∧ _ :=
    computeClosure_reports hL hfuel
  obtain ⟨hends, hreports⟩ := hall
  refine ⟨hends, fun q => ⟨?_, ?_⟩⟩
  · rw [(hreports q).1]
    exact breaks_iff_blocking
  · rw [(hreports q).2]
    exact breaks_iff_blocking

/-! ## A root with an optional extra -/

/-- A live row of the platform's. -/
def liveRow (id name : String) (dependencies : List ExtensionDependency) : InstalledExtension where
  id := id
  packageName := name
  organizationId := none
  kind := .connector
  status := .active
  source := .local "extensions" "c0ffee"
  dependencies := dependencies

def runtimeEdge (name : String) (requirement : DependencyRequirement) : ExtensionDependency where
  packageName := name
  kind := none
  edgeType := .runtime
  versionConstraint := .semverRange "*"
  requirement := requirement

/-- A mail connector that can use templates, and templates that need a renderer. -/
def mailRow : InstalledExtension := liveRow "1" "mail" [runtimeEdge "templates" .optional]

def templatesRow : InstalledExtension := liveRow "2" "templates" [runtimeEdge "renderer" .required]

def mailRows : List InstalledExtension := [mailRow, templatesRow]

theorem scoped_overSnapshot (rows : List InstalledExtension) (org : Option String) :
    OverSnapshot rows (makeScopedManifestLookup rows org) := by
  intro q y h
  obtain ⟨hin, hname, -⟩ := lookup_some h
  exact ⟨hin, hname⟩

/-- The mail connector needs nothing, but the renderer its templates lack is reported, and
    its install is refused. -/
theorem optional_branch_blocks : ¬ ("renderer" ∈ missingNames
          (computeClosure (fun _ _ => true) 3 mailRow (makeScopedManifestLookup mailRows none)) ↔
        Breaks (makeScopedManifestLookup mailRows none) blockingEdges
          (Missing (makeScopedManifestLookup mailRows none)) mailRow "renderer") ∧
      (assertInstallClosure "mail"
        (scopedClosure (fun _ _ => true) mailRows none mailRow)).toOption = none := by
  have hreported : "renderer" ∈ missingNames
      (computeClosure (fun _ _ => true) 3 mailRow (makeScopedManifestLookup mailRows none)) := by
    decide +kernel
  refine ⟨fun h => ?_, by decide +kernel⟩
  obtain ⟨x, hx, e, he, hq, -⟩ := h.mp hreported
  -- no blocking edge leads away from the connector
  have hnone : blockingEdges mailRow = [] := by decide
  have hroot : x = mailRow := by
    clear he
    induction hx with
    | refl => rfl
    | step _ hin _ _ ih =>
      rw [ih, hnone] at hin
      cases hin
  rw [hroot] at he
  rw [List.mem_singleton.mp he] at hq
  exact absurd hq (by decide)

/-- The rule at the templates: what they need is not behind an optional edge. -/
theorem blocking_reports_templates : "renderer" ∈ missingNames
      (computeClosure (fun _ _ => true) 3 templatesRow (makeScopedManifestLookup mailRows none)) := by
  have hrule := (blocking_reports_iff (fun _ _ => true) mailRows
    (makeScopedManifestLookup mailRows none) (scoped_overSnapshot mailRows none) templatesRow 3
    (by decide)).2 "renderer"
  have hneeds : Missing (makeScopedManifestLookup mailRows none)
      (runtimeEdge "renderer" .required) := by
    refine ⟨by decide, by decide⟩
  have hown : runtimeEdge "renderer" .required ∈ templatesRow.dependencies :=
    List.mem_singleton.mpr rfl
  refine (hrule.1.mpr ?_).mpr ⟨templatesRow, .refl, _, hown, rfl, hneeds⟩
  rintro ⟨-, hnone⟩
  exact hnone templatesRow .refl _ hown rfl hneeds

end ExtClosureReports
