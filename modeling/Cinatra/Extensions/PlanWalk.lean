import Cinatra.Extensions.DependencyPlan

/-! # PlanWalk — what the planner's walk resolves

    One spec for each step: a pin that was checked (`pinNode_ok`), a node (`resolveNode_ok`),
    an edge (`walkEdge_ok`).  The walk resolves the root and what it reaches through members
    that are not installed yet, and takes every auto-installable edge of those. -/

namespace ExtPlanWalk

open ExtCanonical ExtClosure ExtPlan Loop

variable {satisfies : String → String → Bool} {μ : Type} {deps : DependencyPlanDeps μ}
  {input : PlanDependencyInstallInput} {requestedBy : Option Request} {name pin : String}

/-! ## Checks -/

/-- A pin is admitted by the constraint of an edge; a git ref admits none. -/
def PinSatisfies (satisfies : String → String → Bool) (dep : ExtensionDependency) (pin : String) :
    Prop :=
  match dep.versionConstraint with
  | .exact version => version = pin
  | .semverRange range => range = "*" ∨ satisfies pin range = true
  | .gitRef _ => False

theorem assertPin_ok {from_ : String} {dep : ExtensionDependency}
    (h : assertPinSatisfiesConstraint satisfies from_ dep pin = .ok ()) :
    PinSatisfies satisfies dep pin := by
  unfold assertPinSatisfiesConstraint at h
  unfold PinSatisfies
  split at h
  · cases h
  · next version hv =>
      rw [hv]
      split at h
      · next heq => exact heq
      · cases h
  · next range hr =>
      rw [hr]
      split at h
      · next hok => simpa using hok
      · cases h

theorem checkRequest_ok (h : checkRequest satisfies requestedBy pin = .ok ()) :
    ∀ r, requestedBy = some r → PinSatisfies satisfies r.edge pin := by
  rintro r rfl
  exact assertPin_ok h

theorem rethrow_ok {α : Type} {x : Except String α} {a : α} (h : rethrow x = .ok a) : x = .ok a := by
  cases x with
  | error message => cases h
  | ok b => exact congrArg Except.ok (Except.ok.inj h)

/-- A package is there: a live row of the organisation's or the platform's. -/
def Present (deps : DependencyPlanDeps μ) (input : PlanDependencyInstallInput) (name : String) :
    Prop :=
  ∃ row, findLiveRow deps.installedRows name input.orgId = some row

/-- The edges of a package at a version, as the registry has them. -/
def ManifestEdges (deps : DependencyPlanDeps μ) (name version : String)
    (edges : List ExtensionDependency) : Prop :=
  ∃ constraint summary, deps.fetchSummary name constraint = .ok summary ∧
    summary.resolvedVersion = version ∧ deps.parseEdges summary.manifest name = .ok edges

/-- The version is the one the closure authorises; the root's is the one asked for. -/
def Authorised (input : PlanDependencyInstallInput) (name version : String) : Prop :=
  ∀ closure, input.closure = some closure →
    (name = input.root.packageName ∧ version = input.root.version) ∨ ⟨name, version⟩ ∈ closure

theorem authorisedPin_ok {closure : List DependencyClosurePin}
    (h : authorisedPin input closure name requestedBy = .ok pin) :
    (name = input.root.packageName ∧ pin = input.root.version) ∨ ⟨name, pin⟩ ∈ closure := by
  unfold authorisedPin at h
  split at h
  · next hroot => exact .inl ⟨hroot, (Except.ok.inj h).symm⟩
  split at h
  · next entry hentry =>
      have hname : entry.name = name := by simpa using List.find?_some hentry
      have hin := List.mem_reverse.mp (List.mem_of_find?_eq_some hentry)
      rw [← hname, ← Except.ok.inj h]
      exact .inr hin
  · cases h

variable {pinned : Pinned μ}

/-- **A pin**: it satisfies the request, is authorised, and the edges are its manifest's. -/
theorem pinNode_ok (h : pinNode satisfies deps input name requestedBy = .ok pinned) :
    (∀ r, requestedBy = some r → PinSatisfies satisfies r.edge pinned.pin) ∧
      Authorised input name pinned.pin ∧ ManifestEdges deps name pinned.pin pinned.edges := by
  unfold pinNode at h
  split at h
  · next closure hclosure =>
      obtain ⟨pin, hpin, h⟩ := bind_ok.mp h
      obtain ⟨_, hcheck, h⟩ := bind_ok.mp h
      obtain ⟨summary, hsummary, h⟩ := bind_ok.mp h
      split at h
      · cases h
      next hdrift =>
        obtain ⟨edges, hedges, h⟩ := bind_ok.mp h
        obtain rfl := Except.ok.inj h
        refine ⟨checkRequest_ok hcheck, ?_, ?_⟩
        · rintro closure' hclosure'
          obtain rfl := Option.some.inj (hclosure.symm.trans hclosure')
          exact authorisedPin_ok hpin
        · exact ⟨pin, summary, rethrow_ok hsummary, not_not.mp hdrift, rethrow_ok hedges⟩
  · next hclosure =>
      obtain ⟨constraint, -, h⟩ := bind_ok.mp h
      obtain ⟨summary, hsummary, h⟩ := bind_ok.mp h
      obtain ⟨edges, hedges, h⟩ := bind_ok.mp h
      obtain ⟨_, hcheck, h⟩ := bind_ok.mp h
      obtain rfl := Except.ok.inj h
      refine ⟨checkRequest_ok hcheck, ?_, ?_⟩
      · intro closure hc
        rw [hclosure] at hc
        cases hc
      · exact ⟨constraint, summary, rethrow_ok hsummary, rfl, rethrow_ok hedges⟩

/-- **Present or not**: a present package other than the root is kept at its version. -/
theorem installedCheck_ok {installed : Bool}
    (h : installedCheck deps input name pin requestedBy = .ok installed) :
    (installed = true ↔ name ≠ input.root.packageName ∧ Present deps input name) ∧
      (name ≠ input.root.packageName → ∀ row, findLiveRow deps.installedRows name input.orgId =
        some row → ∀ v, installedVersionOfRow row = some v → v = pin) := by
  unfold installedCheck at h
  unfold Present
  split at h
  · next hroot =>
      cases h
      exact ⟨by simp [hroot], fun hne => absurd hroot hne⟩
  next hroot =>
    split at h
    · next hrow =>
        cases h
        rw [hrow]
        refine ⟨by simp, ?_⟩
        rintro - row ⟨⟩
    · next row hrow =>
        rw [hrow]
        split at h
        · next hversion =>
            cases h
            refine ⟨by simp [hroot], ?_⟩
            rintro - row' ⟨⟩ v hv
            rw [hversion] at hv
            cases hv
        · next version hversion =>
            split at h
            · next heq =>
                cases h
                refine ⟨by simp [hroot], ?_⟩
                rintro - row' ⟨⟩ v hv
                exact (Option.some.inj (hv.symm.trans hversion)).trans heq
            · cases h

/-- What is known of a member that was resolved. -/
structure GoodMember (deps : DependencyPlanDeps μ) (input : PlanDependencyInstallInput)
    (name : String) (m : PlannedMember) : Prop where
  named : m.packageName = name
  scope : RegResolver.inScope (dependencyScopePrefixesFor input.root.packageName) name = true
  authorised : Authorised input name m.version
  manifest : ManifestEdges deps name m.version m.edges
  installed : m.alreadyInstalled = true ↔ name ≠ input.root.packageName ∧ Present deps input name
  kept : name ≠ input.root.packageName → ∀ row,
    findLiveRow deps.installedRows name input.orgId = some row →
      ∀ v, installedVersionOfRow row = some v → v = m.version

variable {m : PlannedMember}

theorem finalizeNode_ok {s s' : Planning}
    (h : finalizeNode deps input name requestedBy pinned s = .ok (m, s')) :
    m.packageName = name ∧ m.version = pinned.pin ∧ m.edges = pinned.edges ∧
      installedCheck deps input name pinned.pin requestedBy = .ok m.alreadyInstalled ∧
      s'.resolved = OrderedMap.set name m s.resolved := by
  unfold finalizeNode at h
  obtain ⟨installed, hcheck, h⟩ := bind_ok.mp h
  obtain ⟨typeId, -, h⟩ := bind_ok.mp h
  cases h
  exact ⟨rfl, rfl, rfl, hcheck, rfl⟩

theorem assertInDependencyScope_ok {requestedFrom : String}
    (h : assertInDependencyScope input name requestedFrom = .ok ()) :
    RegResolver.inScope (dependencyScopePrefixesFor input.root.packageName) name = true := by
  unfold assertInDependencyScope at h
  dsimp only at h
  split at h
  · next hok => exact hok
  · cases h

/-- **A node**: the edge that asks for it is satisfied, and it was resolved before or is
    resolved now. -/
theorem resolveNode_ok {s s' : Planning}
    (h : resolveNode satisfies deps input name requestedBy s = .ok (m, s')) :
    (∀ r, requestedBy = some r → PinSatisfies satisfies r.edge m.version) ∧
      ((OrderedMap.get? name s.resolved = some m ∧ s' = s) ∨
        (OrderedMap.get? name s.resolved = none ∧ GoodMember deps input name m ∧
          s'.resolved = OrderedMap.set name m s.resolved)) := by
  unfold resolveNode at h
  split at h
  · next memo hmemo =>
      obtain ⟨_, hcheck, h⟩ := bind_ok.mp h
      cases h
      exact ⟨checkRequest_ok hcheck, .inl ⟨hmemo, rfl⟩⟩
  · next hnone =>
      obtain ⟨_, hscope, h⟩ := bind_ok.mp h
      obtain ⟨pinned, hpin, h⟩ := bind_ok.mp h
      obtain ⟨hnamed, hversion, hedges, hcheck, hset⟩ := finalizeNode_ok h
      obtain ⟨hreq, hauth, hmanifest⟩ := pinNode_ok hpin
      obtain ⟨hinstalled, hkept⟩ := installedCheck_ok hcheck
      rw [hversion]
      refine ⟨hreq, .inr ⟨hnone, ?_, hset⟩⟩
      refine ⟨hnamed, assertInDependencyScope_ok hscope, hversion ▸ hauth, ?_, hinstalled, ?_⟩
      · rw [hversion, hedges]
        exact hmanifest
      · rw [hversion]
        exact hkept

/-! ## The walk -/

/-- What the root reaches through members that are not installed yet. -/
inductive Reach (deps : DependencyPlanDeps μ) (input : PlanDependencyInstallInput)
    (resolved : OrderedMap String PlannedMember) : String → Prop
  | root : Reach deps input resolved input.root.packageName
  | step {parent : String} {m : PlannedMember} {e : ExtensionDependency} :
      Reach deps input resolved parent → OrderedMap.get? parent resolved = some m →
      m.alreadyInstalled = false → e ∈ m.edges → deps.isAutoInstallableEdge e = true →
      Reach deps input resolved e.packageName

/-- Members that were resolved stay as they are. -/
def Grows (resolved resolved' : OrderedMap String PlannedMember) : Prop :=
  ∀ name m, OrderedMap.get? name resolved = some m → OrderedMap.get? name resolved' = some m

variable {resolved resolved' : OrderedMap String PlannedMember} {w w' : Walk}
  {current : PlannedMember} {edge : ExtensionDependency} {opened : List String}

theorem Reach.mono (h : Reach deps input resolved name) (hg : Grows resolved resolved') :
    Reach deps input resolved' name := by
  induction h with
  | root => exact .root
  | step _ hm hi he ha ih => exact .step ih (hg _ _ hm) hi he ha

/-- An edge whose target was resolved, at a pin the edge admits. -/
def Taken (satisfies : String → String → Bool) (resolved : OrderedMap String PlannedMember)
    (e : ExtensionDependency) : Prop :=
  ∃ t, OrderedMap.get? e.packageName resolved = some t ∧ PinSatisfies satisfies e t.version

theorem Taken.mono {e : ExtensionDependency} (h : Taken satisfies resolved e)
    (hg : Grows resolved resolved') : Taken satisfies resolved' e := by
  obtain ⟨t, ht, hok⟩ := h
  exact ⟨t, hg _ _ ht, hok⟩

/-- The walk between two edges; the opened members are those taken off the queue. -/
structure Walked (deps : DependencyPlanDeps μ) (input : PlanDependencyInstallInput) (w : Walk)
    (opened : List String) : Prop where
  root : ∃ m, OrderedMap.get? input.root.packageName w.planning.resolved = some m
  nodup : (OrderedMap.keys w.planning.resolved).Nodup
  good : ∀ {name m}, OrderedMap.get? name w.planning.resolved = some m →
    GoodMember deps input name m
  enqueued : ∀ name, name ∈ w.enqueued ↔ ∃ m, OrderedMap.get? name w.planning.resolved = some m
  queued : ∀ m ∈ w.queue, OrderedMap.get? m.packageName w.planning.resolved = some m ∧
    m.alreadyInstalled = false
  covered : ∀ {name m}, OrderedMap.get? name w.planning.resolved = some m →
    m.alreadyInstalled = true ∨ m ∈ w.queue ∨ name ∈ opened
  opened : ∀ name ∈ opened, ∃ m, OrderedMap.get? name w.planning.resolved = some m
  reached : ∀ {name m}, OrderedMap.get? name w.planning.resolved = some m →
    Reach deps input w.planning.resolved name

theorem grows_set (h : OrderedMap.get? name resolved = none) :
    Grows resolved (OrderedMap.set name m resolved) :=
  fun _ _ => OrderedMap.get?_set_of_some h

theorem get?_set_cases {m m' : PlannedMember} {other : String}
    (h : OrderedMap.get? other (OrderedMap.set name m resolved) = some m') :
    (other = name ∧ m' = m) ∨ OrderedMap.get? other resolved = some m' := by
  by_cases hne : other = name
  · subst hne
    rw [OrderedMap.get?_set_self] at h
    exact .inl ⟨rfl, (Option.some.inj h).symm⟩
  · rw [OrderedMap.get?_set_ne hne] at h
    exact .inr h

/-- **One edge**: the walk goes on, and an auto-installable edge is taken. -/
theorem walkEdge_ok (h : Walked deps input w opened)
    (hcurrent : OrderedMap.get? current.packageName w.planning.resolved = some current)
    (hnew : current.alreadyInstalled = false) (hedge : edge ∈ current.edges)
    (hrun : walkEdge satisfies deps input current w edge = .ok w') :
    Walked deps input w' opened ∧ Grows w.planning.resolved w'.planning.resolved ∧
      (deps.isAutoInstallableEdge edge = true → Taken satisfies w'.planning.resolved edge) := by
  unfold walkEdge at hrun
  split at hrun
  · next hauto =>
      obtain rfl := Except.ok.inj hrun
      refine ⟨h, fun _ _ hm => hm, fun ha => ?_⟩
      rw [ha] at hauto
      cases hauto
  next hauto =>
  have hauto : deps.isAutoInstallableEdge edge = true := by simpa using hauto
  obtain ⟨⟨target, planning⟩, hnode, hrun⟩ := bind_ok.mp hrun
  dsimp only at hrun
  obtain ⟨hreq, hcase⟩ := resolveNode_ok hnode
  have hsat : PinSatisfies satisfies edge target.version := hreq _ rfl
  rcases hcase with ⟨hold, rfl⟩ | ⟨hnone, hgood, hset⟩
  · -- met before: it is enqueued
    have hname : target.packageName = edge.packageName := (h.good hold).named
    rw [hname, if_pos ((h.enqueued _).mpr ⟨target, hold⟩)] at hrun
    obtain rfl := Except.ok.inj hrun
    exact ⟨h, fun _ _ hm => hm, fun _ => ⟨target, hold, hsat⟩⟩
  · have hfresh : edge.packageName ∉ w.enqueued := by
      intro hin
      obtain ⟨m, hm⟩ := (h.enqueued _).mp hin
      rw [hnone] at hm
      cases hm
    rw [hgood.named, if_neg hfresh] at hrun
    obtain rfl := Except.ok.inj hrun
    have hgrows : Grows w.planning.resolved planning.resolved := hset ▸ grows_set hnone
    have htarget : OrderedMap.get? edge.packageName planning.resolved = some target := by
      rw [hset]
      exact OrderedMap.get?_set_self ..
    refine ⟨?_, hgrows, fun _ => ⟨target, htarget, hsat⟩⟩
    refine ⟨?_, ?_, ?_, ?_, ?_, ?_, ?_, ?_⟩
    · obtain ⟨m, hm⟩ := h.root
      exact ⟨m, hgrows _ _ hm⟩
    · show (OrderedMap.keys planning.resolved).Nodup
      rw [hset, OrderedMap.keys_set_of_none hnone]
      refine h.nodup.append (List.nodup_singleton _) ?_
      intro a ha hb
      rw [List.mem_singleton.mp hb] at ha
      exact OrderedMap.get?_eq_none_iff.mp hnone ha
    · intro name m hm
      rw [show OrderedMap.get? name planning.resolved = _ by rw [hset]] at hm
      rcases get?_set_cases hm with ⟨rfl, rfl⟩ | hm
      · exact hgood
      · exact h.good hm
    · intro name
      rw [List.mem_append, List.mem_singleton]
      constructor
      · rintro (hin | rfl)
        · obtain ⟨m, hm⟩ := (h.enqueued name).mp hin
          exact ⟨m, hgrows _ _ hm⟩
        · exact ⟨target, htarget⟩
      · rintro ⟨m, hm⟩
        rw [show OrderedMap.get? name planning.resolved = _ by rw [hset]] at hm
        rcases get?_set_cases hm with ⟨rfl, -⟩ | hm
        · exact .inr rfl
        · exact .inl ((h.enqueued name).mpr ⟨m, hm⟩)
    · intro m hm
      have hcases : m ∈ w.queue ∨ m = target ∧ target.alreadyInstalled = false := by
        dsimp only at hm
        split at hm
        · exact .inl hm
        · next hi =>
            rcases List.mem_append.mp hm with hm | hm
            · exact .inl hm
            · exact .inr ⟨List.mem_singleton.mp hm, by simpa using hi⟩
      rcases hcases with hm | ⟨rfl, hi⟩
      · obtain ⟨hget, hi⟩ := h.queued m hm
        exact ⟨hgrows _ _ hget, hi⟩
      · refine ⟨?_, hi⟩
        rw [hgood.named]
        exact htarget
    · intro name m hm
      rw [show OrderedMap.get? name planning.resolved = _ by rw [hset]] at hm
      dsimp only
      rcases get?_set_cases hm with ⟨rfl, rfl⟩ | hm
      · by_cases hi : m.alreadyInstalled = true
        · exact .inl hi
        · rw [if_neg hi]
          exact .inr (.inl (List.mem_concat_self))
      · refine (h.covered hm).imp_right (Or.imp_left ?_)
        intro hq
        split
        · exact hq
        · exact List.mem_append_left _ hq
    · intro name hin
      obtain ⟨m, hm⟩ := h.opened name hin
      exact ⟨m, hgrows _ _ hm⟩
    · intro name m hm
      rw [show OrderedMap.get? name planning.resolved = _ by rw [hset]] at hm
      rcases get?_set_cases hm with ⟨rfl, -⟩ | hm
      · exact .step ((h.reached hcurrent).mono hgrows) (hgrows _ _ hcurrent) hnew hedge hauto
      · exact (h.reached hm).mono hgrows

theorem walkEdges_ok : ∀ (edges : List ExtensionDependency) (w : Walk), Walked deps input w opened →
    OrderedMap.get? current.packageName w.planning.resolved = some current →
    current.alreadyInstalled = false → (∀ e ∈ edges, e ∈ current.edges) →
    edges.foldlM (walkEdge satisfies deps input current) w = .ok w' →
    Walked deps input w' opened ∧ Grows w.planning.resolved w'.planning.resolved ∧
      ∀ e ∈ edges, deps.isAutoInstallableEdge e = true →
        Taken satisfies w'.planning.resolved e := by
  intro edges
  induction edges with
  | nil =>
    intro w h _ _ _ hrun
    obtain rfl := Except.ok.inj hrun
    exact ⟨h, fun _ _ hm => hm, fun _ he => by cases he⟩
  | cons edge edges ih =>
    intro w h hcurrent hnew hsub hrun
    obtain ⟨w₁, hfirst, hrest⟩ := foldlM_cons_ok.mp hrun
    obtain ⟨h₁, hg₁, ht₁⟩ := walkEdge_ok h hcurrent hnew (hsub edge (List.mem_cons_self ..)) hfirst
    obtain ⟨h₂, hg₂, ht₂⟩ := ih w₁ h₁ (hg₁ _ _ hcurrent) hnew
      (fun e he => hsub e (.tail _ he)) hrest
    refine ⟨h₂, fun _ _ hm => hg₂ _ _ (hg₁ _ _ hm), ?_⟩
    intro e he ha
    rcases List.mem_cons.mp he with rfl | he
    · exact (ht₁ ha).mono hg₂
    · exact ht₂ e he ha

/-- Every auto-installable edge of the opened members is taken. -/
def Closed (satisfies : String → String → Bool) (deps : DependencyPlanDeps μ)
    (resolved : OrderedMap String PlannedMember) (opened : List String) : Prop :=
  ∀ name ∈ opened, ∀ m, OrderedMap.get? name resolved = some m → ∀ e ∈ m.edges,
    deps.isAutoInstallableEdge e = true → Taken satisfies resolved e

theorem Walked.dequeue {rest : List PlannedMember} (h : Walked deps input w opened)
    (hq : w.queue = current :: rest) :
    Walked deps input { w with queue := rest } (current.packageName :: opened) := by
  have hcurrent := (h.queued current (hq ▸ List.mem_cons_self ..)).1
  refine ⟨h.root, h.nodup, h.good, h.enqueued, ?_, ?_, ?_, h.reached⟩
  · intro m hm
    exact h.queued m (hq ▸ .tail _ hm)
  · intro name m hm
    rcases h.covered hm with hi | hin | hin
    · exact .inl hi
    · rw [hq] at hin
      rcases List.mem_cons.mp hin with rfl | hin
      · refine .inr (.inr ?_)
        rw [(h.good hm).named]
        exact .head _ ..
      · exact .inr (.inl hin)
    · exact .inr (.inr (.tail _ hin))
  · intro name hin
    rcases List.mem_cons.mp hin with rfl | hin
    · exact ⟨current, hcurrent⟩
    · exact h.opened name hin

/-- **The run of the walk** ends with every member installed, or opened and its edges taken. -/
theorem walkLoop_ok (fuel : Nat) : ∀ (w : Walk) (opened : List String) (planning : Planning),
    Walked deps input w opened → Closed satisfies deps w.planning.resolved opened →
    walkLoop satisfies deps input fuel w = .ok planning →
    ∃ w' opened', w'.planning = planning ∧ w'.queue = [] ∧ Walked deps input w' opened' ∧
      Closed satisfies deps planning.resolved opened' := by
  induction fuel with
  | zero =>
    intro w opened planning _ _ hrun
    cases hrun
  | succ fuel ih =>
    intro w opened planning h hclosed hrun
    rw [walkLoop] at hrun
    split at hrun
    · next hq =>
        obtain rfl := Except.ok.inj hrun
        exact ⟨w, opened, rfl, hq, h, hclosed⟩
    next current rest hq =>
      split at hrun
      · cases hrun
      next w₁ hedges =>
        obtain ⟨hcurrent, hnew⟩ := h.queued current (hq ▸ List.mem_cons_self ..)
        obtain ⟨h₁, hg₁, ht₁⟩ := walkEdges_ok current.edges _ (h.dequeue hq) hcurrent hnew
          (fun _ he => he) hedges
        refine ih w₁ _ planning h₁ ?_ hrun
        intro name hin m hm e he ha
        rcases List.mem_cons.mp hin with rfl | hin
        · obtain rfl := Option.some.inj ((hg₁ _ _ hcurrent).symm.trans hm)
          exact ht₁ e he ha
        · obtain ⟨m₀, hm₀⟩ := h.opened name hin
          obtain rfl := Option.some.inj ((hg₁ _ _ hm₀).symm.trans hm)
          exact (hclosed name hin _ hm₀ e he ha).mono hg₁

end ExtPlanWalk
